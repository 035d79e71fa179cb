import Mathlib.Data.List.Induction
import Mathlib.Data.List.TakeWhile
import ShaderVariants.Proofs.Condition.Grammar

/-!
# Which texts are literals

The texts that are taken for an integer and the integers that they are taken for
(`literal?_eq_some_iff`).  Besides the integers as they are meant to be written, with at most one
minus sign in front and at most one mark behind, more marks are let through, and so is a sign
between `0x` and the digits.  Those are all (`literal?_exact_iff`), and a minus sign in that place is
the only way to a value beyond 64 bits.
-/

namespace ShaderVariants.Condition

/-! ## 1. Digits -/

/-- The digits of a number, one at least. -/
structure IsDigits (base : Nat) (digits : Text) : Prop where
  nonempty : digits ≠ []
  chars : ∀ c ∈ digits, (Numeral.digit? base c).isSome = true

theorem exists_of_map_eq_ok {ε α β : Type} {f : α → β} {x : Except ε α} {b : β}
    (h : x.map f = .ok b) : ∃ a, x = .ok a ∧ f a = b := by
  cases x with
  | error e => cases h
  | ok a => exact ⟨a, rfl, Except.ok.inj h⟩

/-- How a number of 64 bits may be written in digits, with a sign or without. -/
inductive Signed (base : Nat) : Text → Int → Prop
  | plain {digits : Text} (written : IsDigits base digits)
      (small : fromDigits base 0 digits < 2 ^ 63) : Signed base digits (fromDigits base 0 digits)
  | plus {digits : Text} (written : IsDigits base digits)
      (small : fromDigits base 0 digits < 2 ^ 63) :
      Signed base ('+' :: digits) (fromDigits base 0 digits)
  | minus {digits : Text} (written : IsDigits base digits)
      (small : fromDigits base 0 digits ≤ 2 ^ 63) :
      Signed base ('-' :: digits) (-(fromDigits base 0 digits : Int))

theorem IsDigits.of_readDigits {base limit n : Nat} {beyond : Numeral.Fault} {digits : Text}
    (hnonempty : digits ≠ []) (h : Numeral.readDigits base limit beyond 0 digits = .ok n) :
    IsDigits base digits ∧ fromDigits base 0 digits = n ∧ n ≤ limit := by
  obtain ⟨hchars, hvalue⟩ := fromDigits_of_readDigits h
  exact ⟨⟨hnonempty, hchars⟩, hvalue, Numeral.readDigits_le (Nat.zero_le limit) h⟩

theorem readInt_eq_ok_iff {base : Nat} (hbase : 0 < base) {t : Text} {v : Int} :
    Numeral.readInt base 64 t = .ok v ↔ Signed base t v := by
  have hcount : Numeral.wordCount (64 - 1) = 2 ^ 63 := rfl
  constructor
  · intro h
    unfold Numeral.readInt at h
    split at h
    · cases h
    · cases h
    · cases h
    next digits hne =>
      obtain ⟨n, hread, rfl⟩ := exists_of_map_eq_ok h
      obtain ⟨hdigits, rfl, hle⟩ := IsDigits.of_readDigits hne hread
      exact .plus hdigits (by omega)
    next digits hne =>
      cases hread : Numeral.readDigits base (Numeral.wordCount (64 - 1)) .tooSmall 0 digits with
      | error fault =>
        rw [hread] at h
        cases h
      | ok n =>
        rw [hread] at h
        obtain rfl : -(n : Int) = v := Except.ok.inj h
        obtain ⟨hdigits, rfl, hle⟩ := IsDigits.of_readDigits hne hread
        exact .minus hdigits (by omega)
    next hne hplus hminus _ _ =>
      obtain ⟨n, hread, rfl⟩ := exists_of_map_eq_ok h
      obtain ⟨hdigits, rfl, hle⟩ := IsDigits.of_readDigits hne hread
      exact .plain hdigits (by omega)
  · intro h
    cases h with
    | plain hdigits hsmall => exact readInt_of_digits hbase hdigits.nonempty hdigits.chars hsmall
    | @plus digits hdigits hsmall =>
      obtain ⟨c, rest, rfl⟩ := List.exists_cons_of_ne_nil hdigits.nonempty
      show (Numeral.readDigits base (2 ^ 63 - 1) .tooLarge 0 (c :: rest)).map Int.ofNat = _
      rw [readDigits_eq_fromDigits hbase hdigits.chars (Nat.le_sub_one_of_lt hsmall)]
      rfl
    | @minus digits hdigits hsmall =>
      obtain ⟨c, rest, rfl⟩ := List.exists_cons_of_ne_nil hdigits.nonempty
      show (Numeral.readDigits base (2 ^ 63) .tooSmall 0 (c :: rest)).map (fun n => -(n : Int)) = _
      rw [readDigits_eq_fromDigits hbase hdigits.chars hsmall]
      rfl

/-! ## 2. Marks -/

/-- Marks for unsigned numbers. -/
def IsMarks (marks : Text) : Prop :=
  ∀ u ∈ marks, u = 'u' ∨ u = 'U'

theorem dropUnsignedMark_append_marks (t : Text) {marks : Text} (h : IsMarks marks) :
    dropUnsignedMark (t ++ marks) = dropUnsignedMark t := by
  induction marks using List.reverseRecOn with
  | nil => rw [List.append_nil]
  | append_singleton marks u ih =>
    obtain ⟨hmarks, hu⟩ := List.forall_mem_append.mp h
    rw [← List.append_assoc, dropUnsignedMark_append (hu u List.mem_cons_self), ih hmarks]

theorem exists_eq_append_marks (t : Text) :
    ∃ marks, IsMarks marks ∧ t = dropUnsignedMark t ++ marks := by
  refine ⟨(t.reverse.takeWhile fun c => c == 'u' || c == 'U').reverse, fun u hu => ?_, ?_⟩
  · have := List.mem_takeWhile_imp (List.mem_reverse.mp hu)
    simpa using this
  · rw [dropUnsignedMark, ← List.reverse_append, List.takeWhile_append_dropWhile,
      List.reverse_reverse]

/-- Digits end a text that has no marks. -/
theorem IsDigits.dropUnsignedMark_append {base : Nat} (hbase : base ≤ 16) {digits : Text}
    (h : IsDigits base digits) (lead : Text) : dropUnsignedMark (lead ++ digits) = lead ++ digits := by
  refine dropUnsignedMark_eq_self ?_
  rw [List.getLast?_append, List.getLast?_eq_some_getLast h.nonempty, Option.some_or,
    ← List.getLast?_eq_some_getLast h.nonempty]
  exact getLast?_of_digits hbase h.chars

/-! ## 3. Literals -/

/-- A number as it is meant to be written, but for marks. -/
inductive Number : Text → Nat → Prop
  | decimal {digits : Text} (written : IsDigits 10 digits) : Number digits (fromDigits 10 0 digits)
  | hexadecimal {x : Char} {digits : Text} (mark : x = 'x' ∨ x = 'X')
      (written : IsDigits 16 digits) : Number ('0' :: x :: digits) (fromDigits 16 0 digits)

/-- Hexadecimal digits that have a sign of their own. -/
inductive OwnSigned : Text → Int → Prop
  | plus {x : Char} {digits : Text} (mark : x = 'x' ∨ x = 'X') (written : IsDigits 16 digits)
      (small : fromDigits 16 0 digits < 2 ^ 63) :
      OwnSigned ('0' :: x :: '+' :: digits) (fromDigits 16 0 digits)
  | minus {x : Char} {digits : Text} (mark : x = 'x' ∨ x = 'X') (written : IsDigits 16 digits)
      (small : fromDigits 16 0 digits ≤ 2 ^ 63) :
      OwnSigned ('0' :: x :: '-' :: digits) (-(fromDigits 16 0 digits : Int))

/-- The sign stands behind the first digit, and no number has it there. -/
theorem OwnSigned.exists_sign {t : Text} {v : Int} (h : OwnSigned t v) :
    ∃ tail, t = '0' :: tail ∧ ∃ sign ∈ tail, sign.isAlphanum = false := by
  cases h with
  | plus => exact ⟨_, rfl, '+', by simp, by decide⟩
  | minus => exact ⟨_, rfl, '-', by simp, by decide⟩

/-- What is taken for a number when marks and a sign in front have been taken off. -/
inductive Bare : Text → Int → Prop
  | number {t : Text} {n : Nat} (number : Number t n) (small : n < 2 ^ 63) : Bare t n
  | ownSigned {t : Text} {v : Int} (number : OwnSigned t v) : Bare t v

theorem Number.exists_digits {t : Text} {n : Nat} (h : Number t n) :
    ∃ lead base digits, t = lead ++ digits ∧ base ≤ 16 ∧ IsDigits base digits := by
  cases h with
  | decimal hdigits => exact ⟨[], 10, t, rfl, by decide, hdigits⟩
  | @hexadecimal x digits _ hdigits => exact ⟨['0', x], 16, digits, rfl, by decide, hdigits⟩

theorem Number.dropUnsignedMark_eq {t : Text} {n : Nat} (h : Number t n) :
    dropUnsignedMark t = t := by
  obtain ⟨lead, base, digits, rfl, hbase, hdigits⟩ := h.exists_digits
  exact hdigits.dropUnsignedMark_append hbase lead

theorem OwnSigned.dropUnsignedMark_eq {t : Text} {v : Int} (h : OwnSigned t v) :
    dropUnsignedMark t = t := by
  cases h with
  | @plus x digits _ hdigits => exact hdigits.dropUnsignedMark_append (by decide) ['0', x, '+']
  | @minus x digits _ hdigits => exact hdigits.dropUnsignedMark_append (by decide) ['0', x, '-']

theorem Bare.dropUnsignedMark_eq {t : Text} {v : Int} (h : Bare t v) :
    dropUnsignedMark t = t := by
  cases h with
  | number number => exact number.dropUnsignedMark_eq
  | ownSigned number => exact number.dropUnsignedMark_eq

theorem Number.head? {t : Text} {n : Nat} (h : Number t n) : t.head?.any Char.isDigit = true := by
  cases h with
  | decimal hdigits =>
    obtain ⟨c, rest, rfl⟩ := List.exists_cons_of_ne_nil hdigits.nonempty
    exact isDigit_of_digit? (hdigits.chars c List.mem_cons_self)
  | hexadecimal => rfl

/-- A sign of its own does not stand in front of a number. -/
theorem Bare.head? {t : Text} {v : Int} (h : Bare t v) : t.head?.any Char.isDigit = true := by
  cases h with
  | number number => exact number.head?
  | ownSigned number => cases number <;> rfl

theorem hexadecimal?_eq_some_iff {t hex : Text} :
    hexadecimal? t = some hex ↔ ∃ x, (x = 'x' ∨ x = 'X') ∧ t = '0' :: x :: hex := by
  constructor
  · intro h
    unfold hexadecimal? at h
    split at h
    next digits => exact ⟨'x', Or.inl rfl, by rw [Option.some.inj h]⟩
    next digits => exact ⟨'X', Or.inr rfl, by rw [Option.some.inj h]⟩
    · cases h
  · rintro ⟨x, rfl | rfl, rfl⟩
    · rfl
    · rfl

theorem Number.magnitude {t : Text} {n : Nat} (h : Number t n) : Magnitude t n := by
  cases h with
  | decimal hdigits => exact .decimal hdigits.nonempty hdigits.chars
  | hexadecimal hx hdigits => exact .hexadecimal hx hdigits.nonempty hdigits.chars

theorem Magnitude.append_marks {t marks : Text} {n : Nat} (h : Magnitude t n)
    (hmarks : IsMarks marks) : Magnitude (t ++ marks) n := by
  induction marks using List.reverseRecOn with
  | nil => rwa [List.append_nil]
  | append_singleton marks u ih =>
    obtain ⟨hmarks, hu⟩ := List.forall_mem_append.mp hmarks
    rw [← List.append_assoc]
    exact .unsigned (hu u List.mem_cons_self) (ih hmarks)

theorem magnitude?_append_marks (t : Text) {marks : Text} (h : IsMarks marks) :
    magnitude? (t ++ marks) = magnitude? t := by
  unfold magnitude?
  rw [dropUnsignedMark_append_marks t h]

theorem toOption_readInt_eq_some_iff {base : Nat} (hbase : 0 < base) {t : Text} {v : Int} :
    (Numeral.readInt base 64 t).toOption = some v ↔ Signed base t v := by
  rw [← readInt_eq_ok_iff hbase]
  cases Numeral.readInt base 64 t with
  | error fault => exact ⟨fun h => (by cases h), fun h => (by cases h)⟩
  | ok n => exact ⟨fun h => congrArg _ (Option.some.inj h), fun h => congrArg _ (Except.ok.inj h)⟩

theorem magnitude?_of_bare {t : Text} {v : Int} (h : Bare t v) : magnitude? t = some v := by
  cases h with
  | number number hsmall => exact magnitude?_of_magnitude number.magnitude hsmall
  | ownSigned number =>
    have hdrop := number.dropUnsignedMark_eq
    unfold magnitude?
    rw [hdrop]
    dsimp only
    cases number with
    | plus hx hdigits hsmall =>
      rw [hexadecimal?_eq_some_iff.mpr ⟨_, hx, rfl⟩]
      exact (toOption_readInt_eq_some_iff (by decide)).mpr (.plus hdigits hsmall)
    | minus hx hdigits hsmall =>
      rw [hexadecimal?_eq_some_iff.mpr ⟨_, hx, rfl⟩]
      exact (toOption_readInt_eq_some_iff (by decide)).mpr (.minus hdigits hsmall)

theorem bare_of_magnitude? {t : Text} {v : Int} (h : magnitude? t = some v) :
    Bare (dropUnsignedMark t) v := by
  unfold magnitude? at h
  generalize dropUnsignedMark t = body at h
  dsimp only at h
  split at h
  next hex hhex =>
    obtain ⟨x, hx, rfl⟩ := hexadecimal?_eq_some_iff.mp hhex
    cases (toOption_readInt_eq_some_iff (by decide)).mp h with
    | plain hdigits hsmall => exact .number (.hexadecimal hx hdigits) hsmall
    | plus hdigits hsmall => exact .ownSigned (.plus hx hdigits hsmall)
    | minus hdigits hsmall => exact .ownSigned (.minus hx hdigits hsmall)
  next hplain =>
    split at h
    · cases h
    next hsign =>
      -- A decimal number has no sign of its own.
      cases (toOption_readInt_eq_some_iff (by decide)).mp h with
      | plain hdigits hsmall => exact .number (.decimal hdigits) hsmall
      | plus => exact absurd rfl hsign
      | minus => exact absurd rfl hsign

/-- A text with a minus sign in front, or as it is. -/
def negated (negative : Bool) (t : Text) : Text :=
  if negative then '-' :: t else t

/-- An integer with its sign changed, or as it is. -/
def changeSign (negative : Bool) (v : Int) : Int :=
  if negative then -v else v

/-- The texts that are taken for an integer. -/
theorem literal?_eq_some_iff {t : Text} {v : Int} :
    literal? t = some v ↔ ∃ negative body marks value, t = negated negative (body ++ marks) ∧
      IsMarks marks ∧ Bare body value ∧ v = changeSign negative value := by
  constructor
  · intro h
    unfold literal? at h
    split at h
    next s =>
      obtain ⟨value, hvalue, rfl⟩ := Option.map_eq_some_iff.mp h
      obtain ⟨marks, hmarks, hs⟩ := exists_eq_append_marks s
      exact ⟨true, _, marks, value, congrArg _ hs, hmarks, bare_of_magnitude? hvalue, rfl⟩
    · obtain ⟨marks, hmarks, hs⟩ := exists_eq_append_marks t
      exact ⟨false, _, marks, v, hs, hmarks, bare_of_magnitude? h, rfl⟩
  · rintro ⟨negative, body, marks, value, rfl, hmarks, hbody, rfl⟩
    have hvalue : magnitude? (body ++ marks) = some value := by
      rw [magnitude?_append_marks body hmarks, magnitude?_of_bare hbody]
    cases negative with
    | true =>
      show (magnitude? (body ++ marks)).map (fun value => -value) = _
      rw [hvalue]
      rfl
    | false =>
      show literal? (body ++ marks) = some value
      -- The body starts with a digit, and so not with a minus sign.
      have hhead := hbody.head?
      unfold literal?
      split
      next s heq =>
        cases body with
        | nil => cases hhead
        | cons c rest =>
          obtain ⟨rfl, -⟩ := List.cons.inj heq
          cases hhead
      · exact hvalue

/-! ## 4. Integers as they are meant to be written -/

/-- The text of an integer: a minus sign or none, a number, a mark or none. -/
inductive IsInteger : Text → Int → Prop
  | mk (negative : Bool) {t : Text} {n : Nat} {marks : Text} (number : Number t n)
      (written : IsMarks marks) (single : marks.length ≤ 1) :
      IsInteger (negated negative (t ++ marks)) (changeSign negative n)

/-- A text that is taken for an integer although it has several marks, or a sign behind `0x`. -/
def Overlooked (t : Text) : Prop :=
  ∃ negative body marks value, t = negated negative (body ++ marks) ∧ IsMarks marks ∧
    Bare body value ∧ (1 < marks.length ∨ OwnSigned body value)

/-- A number as it is meant to be written has digits and letters only. -/
theorem Number.isAlphanum {t : Text} {n : Nat} (h : Number t n) {c : Char} (hc : c ∈ t) :
    c.isAlphanum = true := by
  obtain ⟨-, -, -, -, hall⟩ := h.magnitude.chars_all
  exact hall c hc

theorem OwnSigned.not_number {t : Text} {v : Int} (h : OwnSigned t v) (n : Nat) : ¬ Number t n := by
  intro hnumber
  obtain ⟨tail, rfl, sign, hsign, hother⟩ := h.exists_sign
  rw [hnumber.isAlphanum (List.mem_cons_of_mem _ hsign)] at hother
  cases hother

/-- The sign in front, the number and the marks of a text can be told apart. -/
theorem negated_append_inj {negative negative' : Bool} {body body' marks marks' : Text}
    (hmarks : IsMarks marks) (hmarks' : IsMarks marks') (hhead : body.head?.any Char.isDigit = true)
    (hhead' : body'.head?.any Char.isDigit = true) (hdrop : dropUnsignedMark body = body)
    (hdrop' : dropUnsignedMark body' = body')
    (h : negated negative (body ++ marks) = negated negative' (body' ++ marks')) :
    negative = negative' ∧ body = body' ∧ marks = marks' := by
  have hplain : ∀ {s : Text}, s.head?.any Char.isDigit = true → ∀ more rest : Text,
      s ++ more ≠ '-' :: rest := by
    intro s hs more rest heq
    cases s with
    | nil => cases hs
    | cons c s =>
      obtain ⟨rfl, -⟩ := List.cons.inj heq
      cases hs
  have hsame : negative = negative' ∧ body ++ marks = body' ++ marks' := by
    cases negative with
    | true =>
      cases negative' with
      | true => exact ⟨rfl, (List.cons.inj h).2⟩
      | false => exact absurd h.symm (hplain hhead' _ _)
    | false =>
      cases negative' with
      | true => exact absurd h (hplain hhead _ _)
      | false => exact ⟨rfl, h⟩
  obtain ⟨rfl, happend⟩ := hsame
  have hbody : body = body' := by
    rw [← hdrop, ← hdrop', ← dropUnsignedMark_append_marks body hmarks, happend,
      dropUnsignedMark_append_marks body' hmarks']
  subst hbody
  exact ⟨rfl, rfl, List.append_cancel_left happend⟩

theorem Overlooked.not_isInteger {t : Text} (h : Overlooked t) (v : Int) : ¬ IsInteger t v := by
  intro hinteger
  obtain ⟨negative, body, marks, value, ht, hmarks, hbody, hcase⟩ := h
  cases hinteger with
  | @mk negative' number n marks' hnumber hmarks' hsingle =>
    obtain ⟨-, hsame, rfl⟩ := negated_append_inj hmarks' hmarks hnumber.head? hbody.head?
      hnumber.dropUnsignedMark_eq hbody.dropUnsignedMark_eq ht
    subst hsame
    rcases hcase with hlong | hsigned
    · omega
    · exact hsigned.not_number n hnumber

/-- A literal has the value that it is written for, within 64 bits, and every integer of 63 bits is a
literal, but for the texts that are overlooked. -/
theorem literal?_exact_iff (t : Text) :
    ((∀ v, literal? t = some v → IsInteger t v ∧ Numeral.Fits 64 v) ∧
      (∀ v, IsInteger t v → v.natAbs < 2 ^ 63 → literal? t = some v)) ↔ ¬ Overlooked t := by
  constructor
  · rintro ⟨haccepted, -⟩ hover
    have hnone := hover.not_isInteger
    obtain ⟨negative, body, marks, value, ht, hmarks, hbody, -⟩ := hover
    have hvalue := literal?_eq_some_iff.mpr ⟨negative, body, marks, value, ht, hmarks, hbody, rfl⟩
    exact hnone _ (haccepted _ hvalue).1
  · intro hover
    constructor
    · intro v hv
      obtain ⟨negative, body, marks, value, rfl, hmarks, hbody, rfl⟩ := literal?_eq_some_iff.mp hv
      have hexact : ¬ (1 < marks.length ∨ OwnSigned body value) := fun hcase =>
        hover ⟨negative, body, marks, value, rfl, hmarks, hbody, hcase⟩
      rw [not_or, Nat.not_lt] at hexact
      cases hbody with
      | ownSigned hsigned => exact absurd hsigned hexact.2
      | @number n hnumber hsmall =>
        refine ⟨.mk negative hnumber hmarks hexact.1, ?_⟩
        have hcount : Numeral.wordCount (64 - 1) = 2 ^ 63 := rfl
        cases negative <;> simp only [Numeral.Fits, changeSign, hcount] <;> omega
    · intro v hv hsmall
      cases hv with
      | @mk negative number n marks hnumber hmarks _ =>
        refine literal?_eq_some_iff.mpr ⟨negative, number, marks, n, rfl, hmarks, .number hnumber ?_, rfl⟩
        cases negative <;> simp only [changeSign] at hsmall <;> omega

/-- Several marks, a sign behind `0x`, and with that sign a value beyond 64 bits. -/
theorem overlooked_marks_and_signs :
    Expr.ofText "1uu".toList = .ok (.literal 1) ∧ (∀ v, ¬ IsInteger "1uu".toList v) ∧
      Directive.ofLine? "#define X 0x-5".toList = some (.define "X".toList (some (-5))) ∧
      (∀ v, ¬ IsInteger "0x-5".toList v) ∧
      literal? "-0x-8000000000000000".toList = some 9223372036854775808 ∧
      ¬ Numeral.Fits 64 9223372036854775808 := by
  have hone : IsDigits 10 ['1'] := ⟨by decide, List.forall_mem_singleton.mpr rfl⟩
  have hfive : IsDigits 16 ['5'] := ⟨by decide, List.forall_mem_singleton.mpr rfl⟩
  have hmarks : Overlooked "1uu".toList :=
    ⟨false, ['1'], ['u', 'u'], 1, rfl, by simp [IsMarks], .number (.decimal hone) (by decide),
      Or.inl (by decide)⟩
  have hsign : OwnSigned "0x-5".toList (-5) := .minus (Or.inl rfl) hfive (by decide)
  have hsigned : Overlooked "0x-5".toList :=
    ⟨false, "0x-5".toList, [], -5, rfl, by simp [IsMarks], .ownSigned hsign, Or.inr hsign⟩
  have hbeyond : ¬ Numeral.Fits 64 9223372036854775808 := fun h => absurd h.2 (by decide +kernel)
  have hwritten : Expr.WrittenAs (.literal 1) "1uu".toList := by
    refine ⟨[.int 1], .tighter (.tighter (.tighter (.tighter (.literal 1)))), ?_⟩
    have hnumber : Magnitude "1uu".toList 1 :=
      .unsigned (t := ['1', 'u']) (Or.inl rfl)
        (.unsigned (t := ['1']) (Or.inl rfl) (.decimal hone.nonempty hone.chars))
    exact .lexeme (.int (.positive hnumber (by decide))) .nil
  exact ⟨Expr.ofText_of_writtenAs hwritten, hmarks.not_isInteger, by decide +kernel, hsigned.not_isInteger,
    by decide +kernel, hbeyond⟩

end ShaderVariants.Condition
