import ShaderVariants.Toml.Quoted
import ShaderVariants.Toml.Scalar
import ShaderVariants.Toml.Table

/-!
# Configuration texts

A configuration text is a list of lines `key = value`, grouped into tables by lines `[table]` and
`[[table]]`.  Keys may be dotted and quoted; values are quoted texts, truth values, numbers,
moments, arrays and tables in braces.  Keys have a limited number of parts and values a limited
depth.  The text is read from the left, and every step uses up some of it, so fuel in proportion to
its length suffices.
-/

namespace ShaderVariants.Toml

/-- The most parts that a key can have, and the most brackets and braces that a value can have
within one another. -/
def depthLimit : Nat := 80

/-! ## 1. Between lexemes -/

def skipSpaces (t : Text) : Text :=
  t.dropWhile isSpace

/-- Skips blanks, line breaks and comments; `comment` tells whether a comment has been started. -/
def skipGap : (comment : Bool) → Text → Option Text
  | _, [] => some []
  | _, '\n' :: rest => skipGap false rest
  | _, '\r' :: '\n' :: rest => skipGap false rest
  | true, c :: rest => if isForbidden c then none else skipGap true rest
  | false, c :: rest =>
    if c = '#' then skipGap true rest
    else if isSpace c then skipGap false rest
    else some (c :: rest)

/-- Whether the line ends here, apart from blanks and a comment. -/
def atLineEnd (t : Text) : Bool :=
  match skipSpaces t with
  | [] => true
  | '#' :: _ => true
  | rest => startsWithBreak rest

/-! ## 2. Keys -/

def isKeyChar (c : Char) : Bool :=
  c.isAlphanum || c == '_' || c == '-'

def readKeyPart (t : Text) : Option (Text × Text) :=
  match t with
  | '"' :: rest => readLine '"' rest
  | '\'' :: rest => readLine '\'' rest
  | _ =>
    let part := t.takeWhile isKeyChar
    if part.isEmpty then none else some (part, t.drop part.length)

/-- The parts of a dotted key, at most `limit` of them, and what follows the key and the blanks
after it. -/
def readKey : (limit : Nat) → Text → Option (List Text × Text)
  | 0, _ => none
  | limit + 1, t =>
    match readKeyPart (skipSpaces t) with
    | none => none
    | some (part, rest) =>
      match skipSpaces rest with
      | '.' :: more =>
        match readKey limit more with
        | none => none
        | some (parts, rest) => some (part :: parts, rest)
      | rest => some ([part], rest)

/-! ## 3. Values -/

/-- A character of a value without delimiters: any but those that end it. -/
def isScalarChar (c : Char) : Bool :=
  !(isSpace c || "=,[]\x7b\x7d#\r\n".toList.contains c)

/-- Whether a character can follow the blanks between two words of a scalar. -/
def startsWord (c : Char) : Bool :=
  isScalarChar c && !(c == '"' || c == '\'' || c == '.')

/-- The text of a scalar at the start: its words with the blanks between them, as a date and a time
have one.  `blanks` are those read since the last word, last first. -/
def scalarText : (blanks : Text) → Text → Text
  | _, [] => []
  | [], c :: rest =>
    if isSpace c then scalarText [c] rest
    else if isScalarChar c then c :: scalarText [] rest
    else []
  | blank :: blanks, c :: rest =>
    if isSpace c then scalarText (c :: blank :: blanks) rest
    else if startsWord c then (blank :: blanks).reverse ++ c :: scalarText [] rest
    else []

def readScalar (t : Text) : Option (Value × Text) :=
  let written := scalarText [] t
  (scalar? written).map fun value => (value, t.drop written.length)

mutual

/-- A value with brackets and braces up to a depth, and what follows it. -/
def readValue : (fuel depth : Nat) → Text → Option (Value × Text)
  | 0, _, _ => none
  | _ + 1, _, '"' :: rest => (readQuoted '"' rest).map fun found => (.text found.1, found.2)
  | _ + 1, _, '\'' :: rest => (readQuoted '\'' rest).map fun found => (.text found.1, found.2)
  | fuel + 1, depth + 1, '[' :: rest =>
    (readItems fuel depth rest).map fun found => (.array found.1, found.2)
  | fuel + 1, depth + 1, '\x7b' :: rest =>
    (readPairs fuel depth [] rest).map fun found => (.table (toValues found.1), found.2)
  | _ + 1, _, t => readScalar t
termination_by structural fuel => fuel

/-- The items of an array up to its closing bracket, and what follows it.  A comma may stand behind
the last one. -/
def readItems : (fuel depth : Nat) → Text → Option (List Value × Text)
  | 0, _, _ => none
  | fuel + 1, depth, t =>
    match skipGap false t with
    | none => none
    | some (']' :: rest) => some ([], rest)
    | some t =>
      match readValue fuel depth t with
      | none => none
      | some (item, rest) =>
        match skipGap false rest with
        | some (']' :: rest) => some ([item], rest)
        | some (',' :: rest) =>
          (readItems fuel depth rest).map fun found => (item :: found.1, found.2)
        | _ => none
termination_by structural fuel => fuel

/-- The pairs of a table in braces up to its closing brace, added to those read before, and what
follows it.  A comma may stand behind the last one. -/
def readPairs : (fuel depth : Nat) → Fields → Text → Option (Fields × Text)
  | 0, _, _, _ => none
  | fuel + 1, depth, fields, t =>
    match skipGap false t with
    | none => none
    | some ('\x7d' :: rest) => some (fields, rest)
    | some t =>
      match readPair fuel depth t with
      | none => none
      | some (key, value, rest) =>
        match assign value true key fields, skipGap false rest with
        | some fields, some ('\x7d' :: rest) => some (fields, rest)
        | some fields, some (',' :: rest) => readPairs fuel depth fields rest
        | _, _ => none
termination_by structural fuel => fuel

/-- One pair of a table in braces: the key and the value, and what follows. -/
def readPair : (fuel depth : Nat) → Text → Option (List Text × Value × Text)
  | 0, _, _ => none
  | fuel + 1, depth, t =>
    match readKey depthLimit t with
    | none => none
    | some (key, rest) =>
      match skipGap false rest with
      | some ('=' :: rest) =>
        match (skipGap false rest).bind (readValue fuel depth) with
        | none => none
        | some (value, rest) => some (key, value, rest)
      | _ => none
termination_by structural fuel => fuel

end

/-! ## 4. Lines -/

/-- Reads the header of a table after its opening bracket: the keys, and what follows. -/
def readHeader (t : Text) : Option (List Text × Text) :=
  match readKey depthLimit t with
  | some (table, ']' :: rest) => if atLineEnd rest then some (table, rest) else none
  | _ => none

/-- Reads the header of one more table of an array after its opening brackets: the keys, and what
follows. -/
def readItemHeader (t : Text) : Option (List Text × Text) :=
  match readKey depthLimit t with
  | some (table, ']' :: ']' :: rest) => if atLineEnd rest then some (table, rest) else none
  | _ => none

/-- Reads a line that sets a key: the key and its value, and what follows. -/
def readSetting (fuel : Nat) (t : Text) : Option (List Text × Value × Text) :=
  match readKey depthLimit t with
  | some (key, '=' :: rest) =>
    match readValue fuel depthLimit (skipSpaces rest) with
    | some (value, rest) => if atLineEnd rest then some (key, value, rest) else none
    | none => none
  | _ => none

/-- Reads lines, given the table that they belong to and the entries read before them. -/
def readLines : (fuel : Nat) → (table : List Text) → Fields → Text → Option Fields
  | 0, _, _, _ => none
  | fuel + 1, table, fields, t =>
    match skipGap false t with
    | none => none
    | some [] => some fields
    | some ('[' :: '[' :: rest) =>
      match readItemHeader rest with
      | none => none
      | some (table, rest) =>
        match alter extended? table fields with
        | none => none
        | some fields => readLines fuel table fields rest
    | some ('[' :: rest) =>
      match readHeader rest with
      | none => none
      | some (table, rest) =>
        match alter named? table fields with
        | none => none
        | some fields => readLines fuel table fields rest
    | some t =>
      match readSetting fuel t with
      | none => none
      | some (key, value, rest) =>
        match within (assign value true key) table fields with
        | none => none
        | some fields => readLines fuel table fields rest

def dropMark : Text → Text
  | '\uFEFF' :: rest => rest
  | t => t

/-- What a configuration text sets. -/
def read (t : Text) : Option (List (Text × Value)) :=
  (readLines (3 * t.length + 4) [] [] (dropMark t)).map toValues

end ShaderVariants.Toml
