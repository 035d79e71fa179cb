import ShaderVariants.Text.Numeral

/-!
# Quoted texts

Texts in quotes, as keys and values of a configuration text use them.  Double quotes allow escapes,
single quotes do not.  One quote on either side holds a text of one line; three quotes on either
side hold a block, which may have line breaks and quotes in it.  Reading takes two steps: finding
the end, then working out what the body says.  Main fact: what follows a quoted text is shorter than
what was read.
-/

namespace ShaderVariants.Toml

/-! ## 1. Characters -/

def isSpace (c : Char) : Bool :=
  c == ' ' || c == '\t'

def startsWithBreak : Text → Bool
  | '\n' :: _ => true
  | '\r' :: '\n' :: _ => true
  | _ => false

/-- A character that may not stand in a comment or within a line of quoted text: a control character
except for the tab. -/
def isForbidden (c : Char) : Bool :=
  c.toNat < 0x20 && c != '\t' || c.toNat == 0x7f

/-- Whether quoted text may have a character before the rest of its body.  A block may have line
breaks. -/
def isAllowed (block : Bool) (c : Char) (rest : Text) : Bool :=
  !isForbidden c || block && startsWithBreak (c :: rest)

/-! ## 2. Finding the end -/

/-- Whether a backslash shields the character behind it; `shielded` tells whether it is shielded
itself.  There are no escapes in single quotes. -/
def shields (quote : Char) (shielded : Bool) (c : Char) : Bool :=
  !shielded && c == '\\' && quote == '"'

/-- The body of a text on one line, after its opening quote, and what follows the closing quote. -/
def cutLine (quote : Char) : (shielded : Bool) → Text → Option (Text × Text)
  | _, [] => none
  | shielded, c :: rest =>
    if !shielded && c == quote then some ([], rest)
    else (cutLine quote (shields quote shielded c) rest).map fun found => (c :: found.1, found.2)

/-- Up to two quotes at the start, which still belong to a block that ends before them, and what
follows. -/
def cutExtraQuotes (quote : Char) (t : Text) : Text × Text :=
  let extra := (t.take 2).takeWhile (· == quote)
  (extra, t.drop extra.length)

/-- The body of a block, after its opening quotes, and what follows the closing quotes. -/
def cutBlock (quote : Char) : (shielded : Bool) → Text → Option (Text × Text)
  | _, [] => none
  | shielded, c :: rest =>
    if !shielded && [quote, quote, quote].isPrefixOf (c :: rest) then
      some (cutExtraQuotes quote (rest.drop 2))
    else (cutBlock quote (shields quote shielded c) rest).map fun found => (c :: found.1, found.2)

/-! ## 3. What a body says -/

def escaped? (c : Char) : Option Char :=
  [('b', '\x08'), ('t', '\t'), ('n', '\n'), ('f', '\x0c'), ('r', '\r'), ('e', '\x1b'), ('"', '"'),
    ('\\', '\\')].lookup c

/-- The character with the code that hexadecimal digits spell. -/
def codePoint? (digits : Text) : Option Char :=
  (digits.mapM (Numeral.digit? 16)).bind fun values =>
    let code := values.foldl (fun code value => 16 * code + value) 0
    if code.isValidChar then some (Char.ofNat code) else none

def prepend (c : Option Char) (t : Option Text) : Option Text :=
  match c, t with
  | some c, some t => some (c :: t)
  | _, _ => none

def unescape (block : Bool) : Text → Option Text
  | [] => some []
  | '\\' :: 'x' :: a :: b :: rest => prepend (codePoint? [a, b]) (unescape block rest)
  | '\\' :: 'u' :: a :: b :: c :: d :: rest =>
    prepend (codePoint? [a, b, c, d]) (unescape block rest)
  | '\\' :: 'U' :: a :: b :: c :: d :: e :: f :: g :: h :: rest =>
    prepend (codePoint? [a, b, c, d, e, f, g, h]) (unescape block rest)
  | '\\' :: c :: rest => prepend (escaped? c) (unescape block rest)
  | c :: rest => if isAllowed block c rest then prepend (some c) (unescape block rest) else none

/-- What a character of a block stands behind. -/
inductive Behind where
  | nothing
  | backslash
  /-- A backslash that takes back the line break behind it. -/
  | joint
  deriving Repr, DecidableEq

/-- The body of a block without the line breaks that a backslash takes back: it takes all blanks and
line breaks behind it, if a line break is the first of them that is no blank. -/
def joinLines : Behind → Text → Text
  | _, [] => []
  | behind, c :: rest =>
    if behind = .backslash then c :: joinLines .nothing rest
    else if behind = .joint ∧ (isSpace c || startsWithBreak (c :: rest)) then joinLines .joint rest
    else if c = '\\' then
      if startsWithBreak (rest.dropWhile isSpace) then joinLines .joint rest
      else c :: joinLines .backslash rest
    else c :: joinLines .nothing rest

/-- Whether every character of a body in single quotes may stand there. -/
def isPlain (block : Bool) : Text → Bool
  | [] => true
  | c :: rest => isAllowed block c rest && isPlain block rest

/-- The body of a block without a line break at its start. -/
def dropFirstBreak : Text → Text
  | '\n' :: rest => rest
  | '\r' :: '\n' :: rest => rest
  | t => t

/-! ## 4. Quoted texts -/

/-- A text on one line, after its opening quote, and what follows it. -/
def readLine (quote : Char) (t : Text) : Option (Text × Text) :=
  match cutLine quote false t with
  | none => none
  | some (body, rest) =>
    if quote = '"' then (unescape false body).map fun said => (said, rest)
    else if isPlain false body then some (body, rest)
    else none

/-- A block, after its opening quotes, and what follows it. -/
def readBlock (quote : Char) (t : Text) : Option (Text × Text) :=
  match cutBlock quote false t with
  | none => none
  | some (body, rest) =>
    if quote = '"' then
      (unescape true (joinLines .nothing (dropFirstBreak body))).map fun said => (said, rest)
    else if isPlain true (dropFirstBreak body) then some (dropFirstBreak body, rest)
    else none

/-- A quoted text, after the first of its opening quotes, and what follows it. -/
def readQuoted (quote : Char) (t : Text) : Option (Text × Text) :=
  if [quote, quote].isPrefixOf t then readBlock quote (t.drop 2) else readLine quote t

/-! ## 5. Lengths -/

theorem length_cutLine {quote : Char} {shielded : Bool} {t body rest : Text}
    (h : cutLine quote shielded t = some (body, rest)) : rest.length < t.length := by
  induction t generalizing shielded body with
  | nil => cases h
  | cons c t ih =>
    rw [cutLine] at h
    split at h
    · exact (Prod.mk.inj (Option.some.inj h)).2 ▸ Nat.lt_succ_self _
    · obtain ⟨⟨_, _⟩, hf, he⟩ := Option.map_eq_some_iff.mp h
      obtain ⟨-, rfl⟩ := Prod.mk.inj he
      exact Nat.lt_succ_of_lt (ih hf)

theorem length_cutBlock {quote : Char} {shielded : Bool} {t body rest : Text}
    (h : cutBlock quote shielded t = some (body, rest)) : rest.length < t.length := by
  induction t generalizing shielded body with
  | nil => cases h
  | cons c t ih =>
    rw [cutBlock] at h
    split at h
    · have he := (Prod.mk.inj (Option.some.inj h)).2
      rw [← he]
      simp only [List.length_drop, List.length_cons]
      omega
    · obtain ⟨⟨_, _⟩, hf, he⟩ := Option.map_eq_some_iff.mp h
      obtain ⟨-, rfl⟩ := Prod.mk.inj he
      exact Nat.lt_succ_of_lt (ih hf)

theorem length_readLine {quote : Char} {t said rest : Text}
    (h : readLine quote t = some (said, rest)) : rest.length < t.length := by
  rw [readLine] at h
  split at h
  · cases h
  · next body r hc =>
    have hl := length_cutLine hc
    split at h
    · obtain ⟨_, -, he⟩ := Option.map_eq_some_iff.mp h
      exact (Prod.mk.inj he).2 ▸ hl
    · split at h
      · exact (Prod.mk.inj (Option.some.inj h)).2 ▸ hl
      · cases h

theorem length_readBlock {quote : Char} {t said rest : Text}
    (h : readBlock quote t = some (said, rest)) : rest.length < t.length := by
  rw [readBlock] at h
  split at h
  · cases h
  · next body r hc =>
    have hl := length_cutBlock hc
    split at h
    · obtain ⟨_, -, he⟩ := Option.map_eq_some_iff.mp h
      exact (Prod.mk.inj he).2 ▸ hl
    · split at h
      · exact (Prod.mk.inj (Option.some.inj h)).2 ▸ hl
      · cases h

theorem length_readQuoted {quote : Char} {t said rest : Text}
    (h : readQuoted quote t = some (said, rest)) : rest.length < t.length := by
  rw [readQuoted] at h
  split at h
  · have := length_readBlock h
    rw [List.length_drop] at this
    omega
  · exact length_readLine h

end ShaderVariants.Toml
