import Mathlib.Algebra.Group.Nat.Defs
import ShaderVariants.Condition.Lexeme
import ShaderVariants.Proofs.Text.Numerals
import ShaderVariants.Proofs.Text.Words

/-!
# Conditions as they are written

Which texts write an integer, a lexeme and a row of lexemes, blanks being free to stand anywhere
between two of them.  What is written is read back (`Lexeme.Writes.readAll_eq`), if operands and what
joins them take turns: only then a minus sign is sure to belong to the literal behind it.
-/

namespace ShaderVariants

/-! ## 1. Runs of characters -/

namespace Text

/-- A run of characters of one kind ends where one of another kind follows. -/
theorem span_append {p : Char → Bool} {s t : Text} (hs : ∀ c ∈ s, p c = true)
    (ht : t.head?.any p = false) : (s ++ t).takeWhile p = s ∧ (s ++ t).dropWhile p = t := by
  rw [List.takeWhile_append_of_pos hs, List.dropWhile_append_of_pos hs]
  cases t with
  | nil => simp
  | cons c rest =>
    have hc : p c = false := ht
    simp [hc]

/-- Only what stands behind the last character that is no blank is cut off. -/
theorem trimEnd_append (s t : Text) :
    trimEnd (s ++ t) = if trimEnd t = [] then trimEnd s else s ++ trimEnd t := by
  unfold trimEnd
  rw [List.reverse_append, List.dropWhile_append]
  cases t.reverse.dropWhile isBlank with
  | nil => rfl
  | cons c rest => simp

theorem trimEnd_eq_self {t : Text} (h : ∀ c ∈ t, isBlank c = false) : trimEnd t = t := by
  rw [trimEnd, dropWhile_eq_self_of_forall fun c hc => h c (List.mem_reverse.mp hc),
    List.reverse_reverse]

theorem trimEnd_singleton {c : Char} (h : isBlank c = true) : trimEnd [c] = [] := by
  rw [trimEnd, List.reverse_singleton, List.dropWhile_cons, if_pos h]
  rfl

end Text

namespace Condition

/-! ## 2. Literals -/

/-- The number that the digits of a base stand for, behind those that come to `value`. -/
def fromDigits (base value : Nat) (digits : Text) : Nat :=
  digits.foldl (fun value c => value * base + (Numeral.digitValue c).getD 0) value

theorem le_fromDigits {base : Nat} (hbase : 0 < base) (value : Nat) (digits : Text) :
    value ≤ fromDigits base value digits := by
  induction digits generalizing value with
  | nil => exact Nat.le_refl value
  | cons c rest ih =>
    show value ≤ fromDigits base (value * base + (Numeral.digitValue c).getD 0) rest
    have hrest := ih (value * base + (Numeral.digitValue c).getD 0)
    have hmul : value ≤ value * base := Nat.le_mul_of_pos_right value hbase
    omega

theorem readDigits_eq_fromDigits {base limit value : Nat} {beyond : Numeral.Fault} {digits : Text}
    (hbase : 0 < base) (hdigits : ∀ c ∈ digits, (Numeral.digit? base c).isSome = true)
    (hlimit : fromDigits base value digits ≤ limit) :
    Numeral.readDigits base limit beyond value digits = .ok (fromDigits base value digits) := by
  induction digits generalizing value with
  | nil => rfl
  | cons c rest ih =>
    obtain ⟨hc, hrest⟩ := List.forall_mem_cons.mp hdigits
    obtain ⟨d, hd⟩ := Option.isSome_iff_exists.mp hc
    have hvalue : Numeral.digitValue c = some d := (Option.filter_eq_some_iff.mp hd).1
    have hcons : fromDigits base value (c :: rest) = fromDigits base (value * base + d) rest := by
      unfold fromDigits
      rw [List.foldl_cons, hvalue]
      rfl
    rw [hcons] at hlimit ⊢
    have hle := le_fromDigits hbase (value * base + d) rest
    rw [Numeral.readDigits, hd]
    dsimp only
    rw [if_pos (by omega)]
    exact ih hrest hlimit

theorem fromDigits_of_readDigits {base limit value n : Nat} {beyond : Numeral.Fault} {digits : Text}
    (h : Numeral.readDigits base limit beyond value digits = .ok n) :
    (∀ c ∈ digits, (Numeral.digit? base c).isSome = true) ∧ fromDigits base value digits = n := by
  induction digits generalizing value with
  | nil => exact ⟨by simp, Except.ok.inj h⟩
  | cons c rest ih =>
    rw [Numeral.readDigits] at h
    split at h
    · cases h
    next d hd =>
      split at h
      · obtain ⟨hrest, hvalue⟩ := ih h
        refine ⟨List.forall_mem_cons.mpr ⟨by rw [hd]; rfl, hrest⟩, ?_⟩
        have hc : Numeral.digitValue c = some d := (Option.filter_eq_some_iff.mp hd).1
        rw [← hvalue, fromDigits, List.foldl_cons, hc]
        rfl
      · cases h

/-- The text of a number, in decimal or in hexadecimal, with marks for unsigned numbers behind. -/
inductive Magnitude : Text → Nat → Prop
  | decimal {digits : Text} (nonempty : digits ≠ [])
      (chars : ∀ c ∈ digits, (Numeral.digit? 10 c).isSome = true) :
      Magnitude digits (fromDigits 10 0 digits)
  | hexadecimal {digits : Text} {x : Char} (mark : x = 'x' ∨ x = 'X') (nonempty : digits ≠ [])
      (chars : ∀ c ∈ digits, (Numeral.digit? 16 c).isSome = true) :
      Magnitude ('0' :: x :: digits) (fromDigits 16 0 digits)
  | unsigned {t : Text} {n : Nat} {u : Char} (mark : u = 'u' ∨ u = 'U') (number : Magnitude t n) :
      Magnitude (t ++ [u]) n

/-- The text of an integer literal whose absolute value has 63 bits. -/
inductive IsLiteral : Text → Int → Prop
  | positive {t : Text} {n : Nat} (number : Magnitude t n) (small : n < 2 ^ 63) : IsLiteral t n
  | negative {t : Text} {n : Nat} (number : Magnitude t n) (small : n < 2 ^ 63) :
      IsLiteral ('-' :: t) (-n)

theorem isDigit_of_digit? {c : Char} (h : (Numeral.digit? 10 c).isSome = true) :
    c.isDigit = true := by
  obtain ⟨d, hd⟩ := Option.isSome_iff_exists.mp h
  obtain ⟨hvalue, hlt⟩ := Option.filter_eq_some_iff.mp hd
  have hlt : d < 10 := of_decide_eq_true hlt
  unfold Numeral.digitValue at hvalue
  split at hvalue
  · assumption
  split at hvalue
  · have := Option.some.inj hvalue
    omega
  split at hvalue
  · have := Option.some.inj hvalue
    omega
  · cases hvalue

theorem isAlphanum_of_digit? {base : Nat} {c : Char}
    (h : (Numeral.digit? base c).isSome = true) : c.isAlphanum = true := by
  obtain ⟨d, hd⟩ := Option.isSome_iff_exists.mp h
  have hvalue := (Option.filter_eq_some_iff.mp hd).1
  unfold Numeral.digitValue at hvalue
  unfold Char.isAlphanum Char.isAlpha
  split at hvalue
  · simp [*]
  split at hvalue
  · simp [*]
  split at hvalue
  · simp [*]
  · cases hvalue

/-- No digit marks a number as unsigned. -/
theorem unmarked_of_digit? {base : Nat} (hbase : base ≤ 16) {c : Char}
    (h : (Numeral.digit? base c).isSome = true) : (c == 'u' || c == 'U') = false := by
  rw [Bool.or_eq_false_iff, beq_eq_false_iff_ne, beq_eq_false_iff_ne]
  have hlarge : ∀ d, 30 ≤ d → Numeral.digitValue c = some d → False := by
    intro d hd hvalue
    rw [Numeral.digit?, hvalue] at h
    simp only [Option.filter_some, decide_eq_true_eq] at h
    rw [if_neg (by omega)] at h
    cases h
  constructor
  · rintro rfl
    exact hlarge 30 (Nat.le_refl 30) (by decide)
  · rintro rfl
    exact hlarge 30 (Nat.le_refl 30) (by decide)

theorem dropUnsignedMark_append {u : Char} (hu : u = 'u' ∨ u = 'U') (t : Text) :
    dropUnsignedMark (t ++ [u]) = dropUnsignedMark t := by
  unfold dropUnsignedMark
  rw [List.reverse_append, List.reverse_singleton, List.singleton_append, List.dropWhile_cons,
    if_pos (by rcases hu with rfl | rfl <;> decide)]

theorem dropUnsignedMark_eq_self {t : Text}
    (h : t.getLast?.all (fun c => !(c == 'u' || c == 'U')) = true) : dropUnsignedMark t = t := by
  have hkept : (t.reverse.dropWhile fun c => c == 'u' || c == 'U') = t.reverse := by
    rw [List.getLast?_eq_head?_reverse] at h
    cases hreverse : t.reverse with
    | nil => rfl
    | cons c rest =>
      rw [hreverse, List.head?_cons, Option.all_some, Bool.not_eq_true'] at h
      rw [List.dropWhile_cons, if_neg (by simp [h])]
  rw [dropUnsignedMark, hkept, List.reverse_reverse]

theorem getLast?_of_digits {base : Nat} (hbase : base ≤ 16) {digits : Text}
    (hdigits : ∀ c ∈ digits, (Numeral.digit? base c).isSome = true) :
    digits.getLast?.all (fun c => !(c == 'u' || c == 'U')) = true := by
  cases hlast : digits.getLast? with
  | none => rfl
  | some c =>
    rw [Option.all_some, unmarked_of_digit? hbase (hdigits c (List.mem_of_getLast? hlast))]
    rfl

/-- Digits that stay within the range are read as the number that they stand for. -/
theorem readInt_of_digits {base : Nat} (hbase : 0 < base) {digits : Text}
    (hnonempty : digits ≠ []) (hdigits : ∀ c ∈ digits, (Numeral.digit? base c).isSome = true)
    (hsmall : fromDigits base 0 digits < 2 ^ 63) :
    Numeral.readInt base 64 digits = .ok (fromDigits base 0 digits) := by
  have hread : Numeral.readDigits base (Numeral.wordCount 63 - 1) .tooLarge 0 digits =
      .ok (fromDigits base 0 digits) := by
    have hcount : Numeral.wordCount 63 = 2 ^ 63 := rfl
    exact readDigits_eq_fromDigits hbase hdigits (by omega)
  obtain ⟨c, rest, rfl⟩ := List.exists_cons_of_ne_nil hnonempty
  have hsign : c ≠ '+' ∧ c ≠ '-' := by
    have hc := isAlphanum_of_digit? (hdigits c List.mem_cons_self)
    constructor
    · rintro rfl
      exact absurd hc (by decide)
    · rintro rfl
      exact absurd hc (by decide)
  unfold Numeral.readInt
  split
  · contradiction
  next heq => exact absurd (List.cons.inj heq).1 hsign.1
  next heq => exact absurd (List.cons.inj heq).1 hsign.2
  next heq => exact absurd (List.cons.inj heq).1 hsign.1
  next heq => exact absurd (List.cons.inj heq).1 hsign.2
  · rw [hread]
    rfl

/-- Decimal digits are taken for nothing but a decimal number. -/
theorem magnitude?_of_digits {digits : Text}
    (hdigits : ∀ c ∈ digits, (Numeral.digit? 10 c).isSome = true) :
    magnitude? digits = (Numeral.readInt 10 64 digits).toOption := by
  have hdrop := dropUnsignedMark_eq_self (getLast?_of_digits (by decide) hdigits)
  have hmark : hexadecimal? digits = none := by
    unfold hexadecimal?
    split
    · exact absurd (hdigits 'x' (by simp)) (by decide)
    · exact absurd (hdigits 'X' (by simp)) (by decide)
    · rfl
  have hsign : startsSigned digits = false := by
    unfold startsSigned
    split
    · exact absurd (hdigits '+' (by simp)) (by decide)
    · exact absurd (hdigits '-' (by simp)) (by decide)
    · rfl
  unfold magnitude?
  dsimp only
  rw [hdrop, hmark, hsign]
  dsimp only
  rw [if_neg Bool.false_ne_true]

theorem magnitude?_of_magnitude {t : Text} {n : Nat} (h : Magnitude t n) (hsmall : n < 2 ^ 63) :
    magnitude? t = some (n : Int) := by
  induction h with
  | @decimal digits hnonempty hdigits =>
    rw [magnitude?_of_digits hdigits, readInt_of_digits (by decide) hnonempty hdigits hsmall]
    rfl
  | @hexadecimal digits x hx hnonempty hdigits =>
    have hlast : ('0' :: x :: digits).getLast? = digits.getLast? := by
      obtain ⟨c, rest, rfl⟩ := List.exists_cons_of_ne_nil hnonempty
      rfl
    have hdrop : dropUnsignedMark ('0' :: x :: digits) = '0' :: x :: digits :=
      dropUnsignedMark_eq_self (hlast ▸ getLast?_of_digits (by decide) hdigits)
    have hmark : hexadecimal? ('0' :: x :: digits) = some digits := by
      rcases hx with rfl | rfl
      · rfl
      · rfl
    unfold magnitude?
    dsimp only
    rw [hdrop, hmark]
    dsimp only
    rw [readInt_of_digits (by decide) hnonempty hdigits hsmall]
    rfl
  | @unsigned t n u hu _ ih =>
    unfold magnitude? at ih ⊢
    rw [dropUnsignedMark_append hu]
    exact ih hsmall

/-- A number starts with a digit and has nothing but digits and letters. -/
theorem Magnitude.chars_all {t : Text} {n : Nat} (h : Magnitude t n) :
    ∃ c rest, t = c :: rest ∧ c.isDigit = true ∧ ∀ d ∈ t, d.isAlphanum = true := by
  induction h with
  | @decimal digits hnonempty hdigits =>
    obtain ⟨c, rest, rfl⟩ := List.exists_cons_of_ne_nil hnonempty
    exact ⟨c, rest, rfl, isDigit_of_digit? (hdigits c List.mem_cons_self),
      fun d hd => isAlphanum_of_digit? (hdigits d hd)⟩
  | @hexadecimal digits x hx hnonempty hdigits =>
    refine ⟨'0', x :: digits, rfl, by decide, ?_⟩
    refine List.forall_mem_cons.mpr ⟨by decide, List.forall_mem_cons.mpr ⟨?_, fun d hd => ?_⟩⟩
    · rcases hx with rfl | rfl
      · decide
      · decide
    · exact isAlphanum_of_digit? (hdigits d hd)
  | @unsigned t n u hu _ ih =>
    obtain ⟨c, rest, rfl, hc, hall⟩ := ih
    refine ⟨c, rest ++ [u], rfl, hc, List.forall_mem_append.mpr ⟨hall, ?_⟩⟩
    rw [List.forall_mem_singleton]
    rcases hu with rfl | rfl
    · decide
    · decide

/-- A literal starts as one where an operand may start, and has the value that it stands for. -/
theorem IsLiteral.read {t : Text} {value : Int} (h : IsLiteral t value) :
    ∃ c rest, t = c :: rest ∧ Lexeme.startsLiteral false c rest = true ∧
      (∀ d ∈ rest, d.isAlphanum = true) ∧ literal? t = some value := by
  cases h with
  | @positive t n hnumber hsmall =>
    obtain ⟨c, rest, rfl, hc, hall⟩ := hnumber.chars_all
    refine ⟨c, rest, rfl, ?_, fun d hd => hall d (List.mem_cons_of_mem c hd), ?_⟩
    · rw [Lexeme.startsLiteral, hc, Bool.true_or]
    · have hminus : c ≠ '-' := by
        rintro rfl
        exact absurd hc (by decide)
      unfold literal?
      split
      next heq => exact absurd (List.cons.inj heq).1 hminus
      · exact magnitude?_of_magnitude hnumber hsmall
  | @negative t n hnumber hsmall =>
    obtain ⟨c, rest, rfl, hc, hall⟩ := hnumber.chars_all
    refine ⟨'-', c :: rest, rfl, ?_, hall, ?_⟩
    · simp [Lexeme.startsLiteral, hc]
    · show (magnitude? (c :: rest)).map (fun value => -value) = _
      rw [magnitude?_of_magnitude hnumber hsmall]
      rfl

/-- The decimal text of a number of 63 bits is a literal. -/
theorem isLiteral_ofInt {value : Int} (h : value.natAbs < 2 ^ 63) :
    IsLiteral (Numeral.ofInt value) value := by
  have hnumber : ∀ n : Nat, Magnitude (Numeral.ofNat n) n := by
    intro n
    obtain ⟨hdigits, hvalue⟩ :=
      fromDigits_of_readDigits (Numeral.readDigits_ofNat .tooLarge (Nat.le_refl n))
    have hdecimal := Magnitude.decimal (Numeral.ofNat_ne_nil n) hdigits
    rwa [hvalue] at hdecimal
  cases value with
  | ofNat n => exact .positive (hnumber n) h
  | negSucc n => exact .negative (hnumber (n + 1)) h

/-- A number of 32 bits is read back from the text that it is written as. -/
theorem literal?_ofInt {value : Int} (h : Numeral.Fits 32 value) :
    literal? (Numeral.ofInt value) = some value := by
  have hcount : Numeral.wordCount (32 - 1) = 2147483648 := rfl
  obtain ⟨hlow, hhigh⟩ := h
  rw [hcount] at hlow hhigh
  have hsmall : value.natAbs < 2 ^ 63 := by omega
  obtain ⟨-, -, -, -, -, hread⟩ := (isLiteral_ofInt hsmall).read
  exact hread

/-! ## 3. Lexemes -/

namespace Lexeme

/-- The texts of a lexeme. -/
inductive Written : Lexeme → Text → Prop
  | int {value : Int} {t : Text} (literal : IsLiteral t value) : Written (.int value) t
  | ident {name : Text} (identifier : Text.isIdentifier name = true)
      (plain : name ≠ "defined".toList) : Written (.ident name) name
  | operator (op : Operator) : Written (.operator op) op.spelling
  | openParen : Written .openParen ['(']
  | closeParen : Written .closeParen [')']

/-- Whether an operand may start with the lexeme. -/
def startsOperand : Lexeme → Bool
  | .int _ => true
  | .ident _ => true
  | .openParen => true
  | _ => false

/-- Whether a character that stands right behind a lexeme is taken for a part of it. -/
def continues : Lexeme → Char → Bool
  | .int _, c => c.isAlphanum
  | .ident _, c => Text.isWordChar c
  | .operator .lt, c => c == '='
  | .operator .gt, c => c == '='
  | _, _ => false

/-- Whether nothing that follows a lexeme is taken for a part of it. -/
def EndsBefore (lexeme : Lexeme) (after : Text) : Prop :=
  if lexeme.endsOperand then after.head?.any Text.isWordChar = false else after.head? ≠ some '='

/-- The text of a lexeme is not empty and has neither blanks nor slashes. -/
theorem Written.chars {lexeme : Lexeme} {t : Text} (h : lexeme.Written t) :
    t ≠ [] ∧ ∀ c ∈ t, Text.isBlank c = false ∧ c ≠ '/' := by
  have hword : ∀ c : Char, Text.isWordChar c = true → Text.isBlank c = false ∧ c ≠ '/' := by
    intro c hc
    refine ⟨Text.isBlank_eq_false_of_isWordChar hc, ?_⟩
    rintro rfl
    exact absurd hc (by decide)
  cases h with
  | int literal =>
    obtain ⟨c, rest, rfl, hstart, hrest, -⟩ := literal.read
    refine ⟨List.cons_ne_nil c rest, List.forall_mem_cons.mpr ⟨?_, fun d hd => ?_⟩⟩
    · by_cases hdigit : c.isDigit = true
      · exact hword c (by simp [Text.isWordChar, Char.isAlphanum, hdigit])
      · obtain ⟨rfl, -⟩ : c = '-' ∧ rest.head?.any Char.isDigit = true := by
          simpa [startsLiteral, hdigit] using hstart
        decide
    · exact hword d (by simp [Text.isWordChar, hrest d hd])
  | ident identifier plain =>
    have hname := Text.IsWord.of_isIdentifier identifier
    exact ⟨hname.nonempty, fun c hc => hword c (hname.chars c hc)⟩
  | operator op =>
    have hspelling : (op.spelling.all fun c => !Text.isBlank c && c != '/') = true := by
      cases op <;> decide
    exact ⟨by cases op <;> decide, Text.isValue_of_all hspelling⟩
  | openParen => exact ⟨by decide, Text.isValue_of_all (by decide)⟩
  | closeParen => exact ⟨by decide, Text.isValue_of_all (by decide)⟩

/-- The first character of what joins operands continues no word, and that of an operand no
operator. -/
theorem Written.head? {lexeme : Lexeme} {t : Text} (h : lexeme.Written t) :
    (lexeme.startsOperand = false → t.head?.any Text.isWordChar = false) ∧
      (lexeme.startsOperand = true → t.head? ≠ some '=') := by
  cases h with
  | int literal =>
    obtain ⟨c, rest, rfl, hstart, -⟩ := literal.read
    refine ⟨by simp [startsOperand], fun _ heq => ?_⟩
    obtain rfl := Option.some.inj heq
    revert hstart
    simp [startsLiteral]
  | ident identifier plain =>
    refine ⟨by simp [startsOperand], fun _ heq => ?_⟩
    obtain ⟨rest, rfl⟩ := List.head?_eq_some_iff.mp heq
    exact absurd ((Text.IsWord.of_isIdentifier identifier).chars '=' List.mem_cons_self) (by decide)
  | operator op => exact ⟨fun _ => (by cases op <;> decide), by simp [startsOperand]⟩
  | openParen => exact ⟨by simp [startsOperand], fun _ => by decide⟩
  | closeParen => exact ⟨fun _ => (by decide), by simp [startsOperand]⟩

/-- What ends before a text is not continued by it. -/
theorem EndsBefore.any_continues {lexeme : Lexeme} {after : Text} (h : lexeme.EndsBefore after) :
    after.head?.any lexeme.continues = false := by
  cases after with
  | nil => rfl
  | cons c rest =>
    have hword : Text.isWordChar c = false → c.isAlphanum = false := by
      rw [Text.isWordChar, Bool.or_eq_false_iff]
      exact And.right
    have hequals : (c :: rest).head? ≠ some '=' → (c == '=') = false := by
      intro hne
      exact beq_eq_false_iff_ne.mpr fun heq => hne (congrArg some heq)
    cases lexeme with
    | int value => exact hword h
    | ident name => exact h
    | operator op =>
      cases op with
      | lt | gt => exact hequals h
      | or | and | eq | ne | le | ge => rfl
    | openParen | closeParen => rfl

theorem operatorAt_spelling (op : Operator) {after : Text}
    (hafter : after.head?.any (Lexeme.operator op).continues = false) :
    operatorAt (op.spelling ++ after) = .ok (.operator op, after) := by
  cases op with
  | lt | gt =>
    cases after with
    | nil => rfl
    | cons c rest =>
      have hc : c ≠ '=' := beq_eq_false_iff_ne.mp hafter
      simp [Operator.spelling, operatorAt, hc]
  | or | and | eq | ne | le | ge => rfl

/-- A literal is read back, behind an operand only if no minus sign is in front of it. -/
theorem read_of_isLiteral {afterOperand : Bool} {c : Char} {rest after : Text} {value : Int}
    (h : IsLiteral (c :: rest) value) (hsign : afterOperand = true → c ≠ '-')
    (hafter : after.head?.any Char.isAlphanum = false) :
    read afterOperand c (rest ++ after) = .ok (.int value, after) := by
  obtain ⟨d, tail, heq, hstart, hall, hvalue⟩ := h.read
  obtain ⟨rfl, rfl⟩ := List.cons.inj heq
  have hparens : c ≠ '(' ∧ c ≠ ')' := by
    constructor
    · rintro rfl
      simp [startsLiteral] at hstart
    · rintro rfl
      simp [startsLiteral] at hstart
  have hstart' : startsLiteral afterOperand c (rest ++ after) = true := by
    rw [startsLiteral, Bool.or_eq_true] at hstart ⊢
    refine hstart.imp_right fun hminus => ?_
    rw [Bool.and_eq_true, Bool.and_eq_true, beq_iff_eq] at hminus
    obtain ⟨⟨rfl, hdigit⟩, -⟩ := hminus
    obtain rfl : afterOperand = false := by
      cases afterOperand with
      | true => exact absurd rfl (hsign rfl)
      | false => rfl
    cases rest with
    | nil => cases hdigit
    | cons e rest => simpa using hdigit
  obtain ⟨htake, hdrop⟩ := Text.span_append hall hafter
  rw [read, if_neg hparens.1, if_neg hparens.2, if_pos hstart', literalAt, htake, hdrop, hvalue]

theorem isDigit_of_isWordStart {c : Char} (h : Text.isWordStart c = true) : c.isDigit = false := by
  rw [Bool.eq_false_iff]
  intro hdigit
  have hrange := Text.toNat_of_isDigit hdigit
  have hcases : (c == '_' || (c.isUpper || c.isLower)) = true := h
  rw [Bool.or_eq_true, Bool.or_eq_true, beq_iff_eq] at hcases
  rcases hcases with rfl | hupper | hlower
  · exact absurd hdigit (by decide)
  · have := Text.toNat_of_isUpper hupper
    omega
  · have := Text.toNat_of_isLower hlower
    omega

/-- A name is read back as a whole. -/
theorem read_of_isIdentifier {c : Char} {rest after : Text} (afterOperand : Bool)
    (h : Text.isIdentifier (c :: rest) = true) (hplain : c :: rest ≠ "defined".toList)
    (hafter : after.head?.any Text.isWordChar = false) :
    read afterOperand c (rest ++ after) = .ok (.ident (c :: rest), after) := by
  have hchars := (Text.IsWord.of_isIdentifier h).chars
  rw [Text.isIdentifier, Bool.and_eq_true] at h
  have hname : nameAt c (rest ++ after) = .ok (.ident (c :: rest), after) := by
    obtain ⟨htake, hdrop⟩ :=
      Text.span_append (fun d hd => hchars d (List.mem_cons_of_mem c hd)) hafter
    unfold nameAt
    simp only [htake, hdrop, hplain, if_false]
  have hother : ∀ d, Text.isWordStart d = false → c ≠ d := by
    rintro d hd rfl
    exact absurd h.1 (by simp [hd])
  have hliteral : startsLiteral afterOperand c (rest ++ after) = false := by
    simp [startsLiteral, isDigit_of_isWordStart h.1, hother '-' (by decide)]
  rw [read, if_neg (hother '(' (by decide)), if_neg (hother ')' (by decide)), hliteral,
    if_neg Bool.false_ne_true, if_pos h.1, hname]

theorem read_of_operator {op : Operator} {c : Char} {rest after : Text} (afterOperand : Bool)
    (h : op.spelling = c :: rest)
    (hafter : after.head?.any (Lexeme.operator op).continues = false) :
    read afterOperand c (rest ++ after) = .ok (.operator op, after) := by
  have hread := operatorAt_spelling op hafter
  rw [h, List.cons_append] at hread
  have hfirst : c ≠ '(' ∧ c ≠ ')' ∧ c.isDigit = false ∧ c ≠ '-' ∧ Text.isWordStart c = false ∧
      startsOperator c = true := by
    cases op <;> (obtain ⟨rfl, -⟩ := List.cons.inj h; decide)
  obtain ⟨hopen, hclose, hdigit, hminus, hname, hstart⟩ := hfirst
  have hliteral : startsLiteral afterOperand c (rest ++ after) = false := by
    simp [startsLiteral, hdigit, hminus]
  rw [read, if_neg hopen, if_neg hclose, hliteral, if_neg Bool.false_ne_true, hname,
    if_neg Bool.false_ne_true, if_pos hstart, hread]

/-- A lexeme is read back from its text, if that is not continued behind it; a minus sign is read
as a part of a literal where no operand stands in front. -/
theorem read_of_written {lexeme : Lexeme} {c : Char} {rest after : Text} {afterOperand : Bool}
    (h : lexeme.Written (c :: rest)) (hsign : afterOperand = true → c ≠ '-')
    (hafter : after.head?.any lexeme.continues = false) :
    read afterOperand c (rest ++ after) = .ok (lexeme, after) := by
  generalize htext : c :: rest = t at h
  cases h with
  | int literal => exact read_of_isLiteral (htext ▸ literal) hsign hafter
  | ident identifier plain =>
    subst htext
    exact read_of_isIdentifier afterOperand identifier plain hafter
  | operator op => exact read_of_operator afterOperand htext.symm hafter
  | openParen =>
    obtain ⟨rfl, rfl⟩ := List.cons.inj htext
    rfl
  | closeParen =>
    obtain ⟨rfl, rfl⟩ := List.cons.inj htext
    rfl

/-- Only a literal has a minus sign in front. -/
theorem Written.head?_ne_minus {lexeme : Lexeme} {t : Text} (h : lexeme.Written t)
    (hstarts : lexeme.startsOperand = false) : t.head? ≠ some '-' := by
  cases h with
  | int literal => cases hstarts
  | ident identifier plain => cases hstarts
  | operator op => cases op <;> decide
  | openParen => cases hstarts
  | closeParen => decide

/-! ## 4. Texts -/

/-- The texts of some lexemes, with blanks in between and around them. -/
inductive Writes : List Lexeme → Text → Prop
  | nil : Writes [] []
  | blank {lexemes : List Lexeme} {c : Char} {t : Text} (blank : Text.isBlank c = true)
      (rest : Writes lexemes t) : Writes lexemes (c :: t)
  | lexeme {lexeme : Lexeme} {lexemes : List Lexeme} {word t : Text} (written : lexeme.Written word)
      (rest : Writes lexemes t) : Writes (lexeme :: lexemes) (word ++ t)

/-- Whether operands and what joins them take turns, behind an operand or not. -/
def TakeTurns : (afterOperand : Bool) → List Lexeme → Prop
  | _, [] => True
  | afterOperand, lexeme :: rest =>
    lexeme.startsOperand = !afterOperand ∧ TakeTurns lexeme.endsOperand rest

namespace Writes

variable {lexemes : List Lexeme} {t : Text}

theorem trimStart (h : Writes lexemes t) : Writes lexemes (Text.trimStart t) := by
  induction h with
  | nil => exact .nil
  | @blank lexemes c t hblank _ ih =>
    rw [Text.trimStart, List.dropWhile_cons, if_pos hblank]
    exact ih
  | @lexeme lexeme lexemes word t written rest ih =>
    obtain ⟨c, tail, rfl⟩ := List.exists_cons_of_ne_nil written.chars.1
    rw [List.cons_append, Text.trimStart_eq_self (written.chars.2 c List.mem_cons_self).1]
    exact .lexeme written rest

theorem trimEnd (h : Writes lexemes t) : Writes lexemes (Text.trimEnd t) := by
  induction h with
  | nil => exact .nil
  | @blank lexemes c t hblank _ ih =>
    rw [← List.singleton_append, Text.trimEnd_append]
    split
    next hnil =>
      rw [hnil] at ih
      rwa [Text.trimEnd_singleton hblank]
    · exact .blank hblank ih
  | @lexeme lexeme lexemes word t written _ ih =>
    have hword : Text.trimEnd word = word :=
      Text.trimEnd_eq_self fun c hc => (written.chars.2 c hc).1
    rw [Text.trimEnd_append]
    split
    next hnil =>
      rw [hnil] at ih
      rw [hword, ← List.append_nil word]
      exact .lexeme written ih
    · exact .lexeme written ih

/-- Blanks around the whole do not matter. -/
theorem trim (h : Writes lexemes t) : Writes lexemes (Text.trim t) :=
  h.trimStart.trimEnd

theorem slash_notMem (h : Writes lexemes t) : ∀ c ∈ t, c ≠ '/' := by
  induction h with
  | nil => simp
  | @blank lexemes c t hblank _ ih =>
    refine List.forall_mem_cons.mpr ⟨?_, ih⟩
    rintro rfl
    exact absurd hblank (by decide)
  | lexeme written _ ih =>
    exact List.forall_mem_append.mpr ⟨fun c hc => (written.chars.2 c hc).2, ih⟩

/-- What takes its turn behind a lexeme is not taken for a part of it. -/
theorem endsBefore (h : Writes lexemes t) {lexeme : Lexeme}
    (hturns : TakeTurns lexeme.endsOperand lexemes) : lexeme.EndsBefore t := by
  unfold EndsBefore
  cases h with
  | nil => split <;> simp
  | @blank lexemes c t hblank _ =>
    split
    · exact Text.isWordChar_eq_false_of_isBlank hblank
    · intro heq
      obtain rfl := Option.some.inj heq
      exact absurd hblank (by decide)
  | @lexeme next rest word t written _ =>
    obtain ⟨hnext, -⟩ := hturns
    obtain ⟨hjoins, hstarts⟩ := written.head?
    obtain ⟨c, tail, rfl⟩ := List.exists_cons_of_ne_nil written.chars.1
    split
    next hends =>
      rw [hends] at hnext
      exact hjoins hnext
    next hends =>
      rw [Bool.not_eq_true] at hends
      rw [hends] at hnext
      exact hstarts hnext

/-- Lexemes that take turns are read back from every text of them. -/
theorem readAll_eq (h : Writes lexemes t) {afterOperand : Bool}
    (hturns : TakeTurns afterOperand lexemes) : readAll afterOperand t = .ok lexemes := by
  induction h generalizing afterOperand with
  | nil => rw [readAll]
  | blank hblank _ ih =>
    rw [readAll, if_pos hblank]
    exact ih hturns
  | @lexeme lexeme rest word t written hrest ih =>
    obtain ⟨hlexeme, hturns⟩ := hturns
    obtain ⟨c, tail, rfl⟩ := List.exists_cons_of_ne_nil written.chars.1
    have hblank := (written.chars.2 c List.mem_cons_self).1
    have hsign : afterOperand = true → c ≠ '-' := by
      rintro rfl rfl
      exact written.head?_ne_minus hlexeme rfl
    have hread := read_of_written written hsign (hrest.endsBefore hturns).any_continues
    rw [List.cons_append, readAll, hblank, if_neg Bool.false_ne_true]
    split
    next e herror =>
      rw [hread] at herror
      cases herror
    next found after hfound =>
      obtain ⟨rfl, rfl⟩ := Prod.mk.inj (Except.ok.inj (hread.symm.trans hfound))
      rw [ih hturns]
      rfl

end Writes

end Lexeme

end Condition

end ShaderVariants
