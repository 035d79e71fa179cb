/-!
# Text

All that the library reads and writes is a list of characters.  This module has the blanks, the
characters of a word, and the few cuts that directives need: trimming, a leading text, the text
before a comment.  Main facts: `strip? lead t = some r` holds exactly when `t = lead ++ r`, a mark
cuts where it first stands, and a text without blanks is trimmed already.
-/

namespace ShaderVariants

/-- Text as the characters it is made of. -/
abbrev Text := List Char

namespace Text

/-! ## 1. Classes of characters -/

/-- The code points with Unicode's `White_Space` property, as inclusive ranges. -/
def blankRanges : List (Nat × Nat) :=
  [(0x9, 0xD), (0x20, 0x20), (0x85, 0x85), (0xA0, 0xA0), (0x1680, 0x1680), (0x2000, 0x200A),
   (0x2028, 0x2029), (0x202F, 0x202F), (0x205F, 0x205F), (0x3000, 0x3000)]

/-- A character that separates words wherever Unicode's notion of white space applies. -/
def isBlank (c : Char) : Bool :=
  blankRanges.any fun range => range.1 ≤ c.toNat && c.toNat ≤ range.2

/-- A character of an identifier: an ASCII letter, an ASCII digit or an underscore. -/
def isWordChar (c : Char) : Bool :=
  c == '_' || c.isAlphanum

def isWordStart (c : Char) : Bool :=
  c == '_' || c.isAlpha

/-- An identifier: a word that does not start with a digit. -/
def isIdentifier : Text → Bool
  | [] => false
  | c :: rest => isWordStart c && rest.all isWordChar

theorem isWordChar_of_isWordStart {c : Char} (h : isWordStart c = true) : isWordChar c = true := by
  simp only [isWordStart, isWordChar, Char.isAlphanum, Bool.or_eq_true] at h ⊢
  exact h.imp_right Or.inl

theorem all_isWordChar_of_isIdentifier {t : Text} (h : isIdentifier t = true) :
    t.all isWordChar = true := by
  cases t with
  | nil => rfl
  | cons c rest =>
    simp only [isIdentifier, Bool.and_eq_true] at h
    simp only [List.all_cons, Bool.and_eq_true]
    exact ⟨isWordChar_of_isWordStart h.1, h.2⟩

theorem toNat_of_isUpper {c : Char} (h : c.isUpper = true) : 65 ≤ c.toNat ∧ c.toNat ≤ 90 := by
  have hbounds : 'A'.val ≤ c.val ∧ c.val ≤ 'Z'.val := of_decide_eq_true h
  exact ⟨UInt32.le_iff_toNat_le.mp hbounds.1, UInt32.le_iff_toNat_le.mp hbounds.2⟩

theorem toNat_of_isLower {c : Char} (h : c.isLower = true) : 97 ≤ c.toNat ∧ c.toNat ≤ 122 := by
  have hbounds : (decide ('a'.val ≤ c.val) && decide (c.val ≤ 'z'.val)) = true := h
  rw [Bool.and_eq_true, decide_eq_true_eq, decide_eq_true_eq] at hbounds
  exact ⟨UInt32.le_iff_toNat_le.mp hbounds.1, UInt32.le_iff_toNat_le.mp hbounds.2⟩

theorem toNat_of_isDigit {c : Char} (h : c.isDigit = true) : 48 ≤ c.toNat ∧ c.toNat ≤ 57 := by
  have hbounds : (decide ('0'.val ≤ c.val) && decide (c.val ≤ '9'.val)) = true := h
  rw [Bool.and_eq_true, decide_eq_true_eq, decide_eq_true_eq] at hbounds
  exact ⟨UInt32.le_iff_toNat_le.mp hbounds.1, UInt32.le_iff_toNat_le.mp hbounds.2⟩

/-- A character of a word lies between the digit zero and the letter z. -/
theorem toNat_of_isWordChar {c : Char} (h : isWordChar c = true) :
    48 ≤ c.toNat ∧ c.toNat ≤ 122 := by
  have hcases : (c == '_' || ((c.isUpper || c.isLower) || c.isDigit)) = true := h
  rw [Bool.or_eq_true, Bool.or_eq_true, Bool.or_eq_true, beq_iff_eq] at hcases
  rcases hcases with rfl | (hupper | hlower) | hdigit
  · decide
  · have := toNat_of_isUpper hupper
    omega
  · have := toNat_of_isLower hlower
    omega
  · have := toNat_of_isDigit hdigit
    omega

theorem isBlank_eq_false_of_isWordChar {c : Char} (h : isWordChar c = true) :
    isBlank c = false := by
  have hc := toNat_of_isWordChar h
  simp only [isBlank, blankRanges, List.any_cons, List.any_nil, Bool.or_false, Bool.or_eq_false_iff,
    Bool.and_eq_false_iff, decide_eq_false_iff_not]
  omega

theorem isBlank_eq_false_of_isDigit {c : Char} (h : c.isDigit = true) : isBlank c = false := by
  have hword : isWordChar c = true := by simp [isWordChar, Char.isAlphanum, h]
  exact isBlank_eq_false_of_isWordChar hword

/-! ## 2. Trimming -/

/-- The text from its first character that is not a blank. -/
def trimStart (t : Text) : Text :=
  t.dropWhile isBlank

/-- The text up to its last character that is not a blank. -/
def trimEnd (t : Text) : Text :=
  (t.reverse.dropWhile isBlank).reverse

def trim (t : Text) : Text :=
  trimEnd (trimStart t)

@[simp] theorem trimStart_nil : trimStart [] = [] := rfl

@[simp] theorem trim_nil : trim [] = [] := rfl

theorem trimStart_eq_self {c : Char} {t : Text} (h : isBlank c = false) :
    trimStart (c :: t) = c :: t := by
  simp [trimStart, h]

theorem dropWhile_eq_self_of_forall {α : Type} {p : α → Bool} {l : List α}
    (h : ∀ a ∈ l, p a = false) : l.dropWhile p = l := by
  cases l with
  | nil => rfl
  | cons a l => simp [h a (by simp)]

theorem trim_eq_self {t : Text} (h : ∀ c ∈ t, isBlank c = false) : trim t = t := by
  rw [trim, trimStart, dropWhile_eq_self_of_forall h, trimEnd,
    dropWhile_eq_self_of_forall fun c hc => h c (List.mem_reverse.mp hc), List.reverse_reverse]

/-! ## 3. Leading text -/

/-- What follows `lead`, if the text starts with it. -/
def strip? : Text → Text → Option Text
  | [], t => some t
  | _ :: _, [] => none
  | a :: lead, c :: t => if a = c then strip? lead t else none

theorem strip?_eq_some_iff {lead t rest : Text} :
    strip? lead t = some rest ↔ t = lead ++ rest := by
  induction lead generalizing t with
  | nil => simp [strip?]
  | cons a lead ih =>
    cases t with
    | nil => simp [strip?]
    | cons c t =>
      by_cases h : a = c
      · simp [strip?, h, ih]
      · simp [strip?, h, Ne.symm h]

/-- Every text is found in front of what is appended to it. -/
@[simp] theorem strip?_append (lead rest : Text) : strip? lead (lead ++ rest) = some rest :=
  strip?_eq_some_iff.mpr rfl

/-- What stands before `tail`, if the text ends with it. -/
def stripEnd? (tail t : Text) : Option Text :=
  (strip? tail.reverse t.reverse).map List.reverse

@[simp] theorem stripEnd?_append (front tail : Text) :
    stripEnd? tail (front ++ tail) = some front := by
  simp [stripEnd?]

/-- The two sides of the first `mark`, if there is one. -/
def cutAt? (mark : Char) : Text → Option (Text × Text)
  | [] => none
  | c :: t => if c = mark then some ([], t) else (cutAt? mark t).map fun cut => (c :: cut.1, cut.2)

theorem cutAt?_append {mark : Char} {front : Text} (h : mark ∉ front) (rest : Text) :
    cutAt? mark (front ++ mark :: rest) = some (front, rest) := by
  induction front with
  | nil => simp [cutAt?]
  | cons c front ih =>
    have hc : c ≠ mark := fun e => h (by simp [e])
    simp [cutAt?, hc, ih fun m => h (List.mem_cons_of_mem c m)]

/-! ## 4. Comments -/

/-- Whether a line comment or a block comment starts here. -/
def startsComment : Text → Bool
  | '/' :: '/' :: _ => true
  | '/' :: '*' :: _ => true
  | _ => false

/-- The first two characters decide whether a comment starts. -/
theorem startsComment_cons_cons (c d : Char) (t : Text) :
    startsComment (c :: d :: t) = (c == '/' && (d == '/' || d == '*')) := by
  unfold startsComment
  split <;> simp_all

theorem startsComment_singleton (c : Char) : startsComment [c] = false := by
  unfold startsComment
  split <;> simp_all

theorem startsComment_eq_false {c : Char} (hc : c ≠ '/') (t : Text) :
    startsComment (c :: t) = false := by
  cases t with
  | nil => exact startsComment_singleton c
  | cons d t => simp [startsComment_cons_cons, hc]

/-- The text up to the first comment. -/
def beforeComment : Text → Text
  | [] => []
  | c :: t => if startsComment (c :: t) then [] else c :: beforeComment t

theorem beforeComment_eq_self_of_not_slash {t : Text} (h : ∀ c ∈ t, c ≠ '/') :
    beforeComment t = t := by
  induction t with
  | nil => rfl
  | cons c t ih =>
    rw [beforeComment, startsComment_eq_false (h c (by simp))]
    simp [ih fun d hd => h d (List.mem_cons_of_mem c hd)]

/-! ## 5. Size -/

def byteCount : Text → Nat
  | [] => 0
  | c :: t => c.utf8Size + byteCount t

@[simp] theorem byteCount_append (s t : Text) :
    byteCount (s ++ t) = byteCount s + byteCount t := by
  induction s with
  | nil => simp [byteCount]
  | cons c s ih => simp [byteCount, ih, Nat.add_assoc]

end Text

end ShaderVariants
