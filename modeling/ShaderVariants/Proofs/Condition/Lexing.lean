import ShaderVariants.Proofs.Condition.Literals

/-!
# How a condition is cut

Which lexemes a text is cut into, said without the reader: each is as long as what stands behind it
allows, and a minus sign counts as one of a literal unless an operand stands in front of it.  The
reader finds these lexemes and no others (`Lexeme.readAll_eq_ok_iff`).
-/

namespace ShaderVariants.Condition

namespace Lexeme

/-! ## 1. Cuts -/

/-- The lexemes of a text that stands behind an operand or not. -/
inductive Cut : (afterOperand : Bool) → Text → List Lexeme → Prop
  | nil (afterOperand : Bool) : Cut afterOperand [] []
  | blank {afterOperand : Bool} {c : Char} {t : Text} {lexemes : List Lexeme}
      (blank : Text.isBlank c = true) (rest : Cut afterOperand t lexemes) :
      Cut afterOperand (c :: t) lexemes
  | lexeme {afterOperand : Bool} {lexeme : Lexeme} {word t : Text} {lexemes : List Lexeme}
      (written : lexeme.Written word) (sign : afterOperand = true → word.head? ≠ some '-')
      (whole : t.head?.any lexeme.continues = false) (rest : Cut lexeme.endsOperand t lexemes) :
      Cut afterOperand (word ++ t) (lexeme :: lexemes)

/-- A cut is read. -/
theorem readAll_of_cut {afterOperand : Bool} {t : Text} {lexemes : List Lexeme}
    (h : Cut afterOperand t lexemes) : readAll afterOperand t = .ok lexemes := by
  induction h with
  | nil => rw [readAll]
  | blank hblank _ ih => rw [readAll, if_pos hblank, ih]
  | @lexeme afterOperand lexeme word t lexemes written sign whole _ ih =>
    obtain ⟨c, tail, rfl⟩ := List.exists_cons_of_ne_nil written.chars.1
    have hblank := (written.chars.2 c List.mem_cons_self).1
    have hread : read afterOperand c (tail ++ t) = .ok (lexeme, t) :=
      read_of_written written (fun hoperand heq => sign hoperand (congrArg some heq)) whole
    rw [List.cons_append, readAll, hblank, if_neg Bool.false_ne_true]
    split
    next e herror =>
      rw [hread] at herror
      cases herror
    next found after hfound =>
      obtain ⟨rfl, rfl⟩ := Prod.mk.inj (Except.ok.inj (hread.symm.trans hfound))
      rw [ih]
      rfl

/-! ## 2. What is read is a cut -/

/-- What one step of reading takes from the front of a text. -/
structure Taken (afterOperand : Bool) (lexeme : Lexeme) (text word after : Text) : Prop where
  text_eq : text = word ++ after
  written : lexeme.Written word
  sign : afterOperand = true → word.head? ≠ some '-'
  whole : after.head?.any lexeme.continues = false

theorem any_head?_dropWhile (p : Char → Bool) (t : Text) :
    (t.dropWhile p).head?.any p = false := by
  have h := List.head?_dropWhile_not p t
  cases hhead : (t.dropWhile p).head? with
  | none => rfl
  | some c =>
    rw [hhead] at h
    exact h

/-- A literal that has no sign behind its first character is an integer of 63 bits. -/
theorem isLiteral_of_literal? {c : Char} {rest : Text} {v : Int}
    (hrest : ∀ d ∈ rest, d.isAlphanum = true) (h : literal? (c :: rest) = some v) :
    IsLiteral (c :: rest) v := by
  obtain ⟨negative, body, marks, value, ht, hmarks, hbody, rfl⟩ := literal?_eq_some_iff.mp h
  cases hbody with
  | number hnumber hsmall =>
    have hmagnitude := hnumber.magnitude.append_marks hmarks
    rw [ht]
    cases negative with
    | true => exact .negative hmagnitude hsmall
    | false => exact .positive hmagnitude hsmall
  | ownSigned hsigned =>
    -- The sign would have to stand among digits and letters.
    obtain ⟨tail, rfl, sign, hsign, hother⟩ := hsigned.exists_sign
    have hmem : sign ∈ rest := by
      cases negative <;> (obtain ⟨rfl, rfl⟩ := List.cons.inj ht; simp [hsign])
    rw [hrest sign hmem] at hother
    cases hother

theorem taken_of_literalAt {afterOperand : Bool} {c : Char} {rest after : Text} {lexeme : Lexeme}
    (hstarts : startsLiteral afterOperand c rest = true)
    (h : literalAt c rest = .ok (lexeme, after)) :
    Taken afterOperand lexeme (c :: rest) (c :: rest.takeWhile Char.isAlphanum) after := by
  unfold literalAt at h
  split at h
  next v hv =>
    obtain ⟨rfl, rfl⟩ := Prod.mk.inj (Except.ok.inj h)
    refine ⟨?_, .int (isLiteral_of_literal? (fun d => List.mem_takeWhile_imp) hv), ?_,
      any_head?_dropWhile _ rest⟩
    · rw [List.cons_append, List.takeWhile_append_dropWhile]
    · rintro rfl heq
      obtain rfl : c = '-' := Option.some.inj heq
      simp [startsLiteral] at hstarts
  · cases h

theorem taken_of_nameAt {afterOperand : Bool} {c : Char} {rest after : Text} {lexeme : Lexeme}
    (hstarts : Text.isWordStart c = true) (h : nameAt c rest = .ok (lexeme, after)) :
    Taken afterOperand lexeme (c :: rest) (c :: rest.takeWhile Text.isWordChar) after := by
  unfold nameAt at h
  split at h
  · cases h
  next hplain =>
    obtain ⟨rfl, rfl⟩ := Prod.mk.inj (Except.ok.inj h)
    have hidentifier : Text.isIdentifier (c :: rest.takeWhile Text.isWordChar) = true := by
      rw [Text.isIdentifier, hstarts, Bool.true_and, List.all_eq_true]
      exact fun d => List.mem_takeWhile_imp
    refine ⟨?_, .ident hidentifier hplain, ?_, Text.any_head?_dropWhile_isWordChar rest⟩
    · rw [List.cons_append, List.takeWhile_append_dropWhile]
    · rintro - heq
      obtain rfl : c = '-' := Option.some.inj heq
      exact absurd hstarts (by decide)

/-- An operator of one character is read where no `=` makes it a longer one. -/
theorem exists_of_operatorAt {text after : Text} {lexeme : Lexeme}
    (h : operatorAt text = .ok (lexeme, after)) :
    ∃ op, lexeme = .operator op ∧ text = op.spelling ++ after ∧
      after.head?.any (Lexeme.operator op).continues = false := by
  have hshort : ∀ {t : Text}, (∀ rest, t = '=' :: rest → False) →
      t.head?.any (fun c => c == '=') = false := by
    intro t ht
    cases t with
    | nil => rfl
    | cons c rest => exact beq_eq_false_iff_ne.mpr fun heq => ht rest (heq ▸ rfl)
  have hlong : ∀ t : Text, t.head?.any (fun _ => false) = false := by
    intro t
    cases t <;> rfl
  -- `<` and `>` are the operators that a longer one starts with; none starts with any other.
  unfold operatorAt at h
  split at h
  case h_7 hne =>
    cases h
    exact ⟨.lt, rfl, rfl, hshort hne⟩
  case h_8 hne =>
    cases h
    exact ⟨.gt, rfl, rfl, hshort hne⟩
  case h_9 | h_10 => cases h
  all_goals
    cases h
    exact ⟨_, rfl, rfl, hlong _⟩

theorem taken_of_operator {afterOperand : Bool} {op : Operator} {after : Text}
    (hwhole : after.head?.any (Lexeme.operator op).continues = false) :
    Taken afterOperand (.operator op) (op.spelling ++ after) op.spelling after :=
  ⟨rfl, .operator op, fun _ => by cases op <;> decide, hwhole⟩

/-- What is read is a lexeme as a whole. -/
theorem exists_taken_of_read {afterOperand : Bool} {c : Char} {rest after : Text} {lexeme : Lexeme}
    (h : read afterOperand c rest = .ok (lexeme, after)) :
    ∃ word, Taken afterOperand lexeme (c :: rest) word after := by
  have hparen : ∀ {paren : Lexeme} {word : Text}, paren.Written word → word.head? ≠ some '-' →
      paren.continues = (fun _ => false) → Taken afterOperand paren (word ++ rest) word rest := by
    intro paren word hwritten hminus hcontinues
    refine ⟨rfl, hwritten, fun _ => hminus, ?_⟩
    rw [hcontinues]
    cases rest <;> rfl
  unfold read at h
  split at h
  next hc =>
    obtain ⟨rfl, rfl⟩ := Prod.mk.inj (Except.ok.inj h)
    exact ⟨['('], hc ▸ hparen .openParen (by decide) rfl⟩
  split at h
  next hc =>
    obtain ⟨rfl, rfl⟩ := Prod.mk.inj (Except.ok.inj h)
    exact ⟨[')'], hc ▸ hparen .closeParen (by decide) rfl⟩
  split at h
  next hstarts => exact ⟨_, taken_of_literalAt hstarts h⟩
  split at h
  next hstarts => exact ⟨_, taken_of_nameAt hstarts h⟩
  split at h
  · obtain ⟨op, rfl, htext, hwhole⟩ := exists_of_operatorAt h
    exact ⟨_, htext ▸ taken_of_operator hwhole⟩
  · cases h

theorem cut_of_readAll {afterOperand : Bool} {t : Text} {lexemes : List Lexeme}
    (h : readAll afterOperand t = .ok lexemes) : Cut afterOperand t lexemes := by
  -- The cases are those of `readAll`: the end, a blank, a fault, and a lexeme with a text behind it.
  fun_induction readAll afterOperand t generalizing lexemes with
  | case1 afterOperand =>
    obtain rfl := Except.ok.inj h
    exact .nil afterOperand
  | case2 afterOperand c rest hblank ih => exact .blank hblank (ih h)
  | case3 afterOperand c rest hblank e hread => cases h
  | case4 afterOperand c rest hblank lexeme after hread ih =>
    obtain ⟨more, hmore, rfl⟩ := exists_of_map_eq_ok h
    obtain ⟨word, htaken⟩ := exists_taken_of_read hread
    rw [htaken.text_eq]
    exact .lexeme htaken.written htaken.sign htaken.whole (ih hmore)

/-- The lexemes that are read from a text are those it is cut into. -/
theorem readAll_eq_ok_iff {afterOperand : Bool} {t : Text} {lexemes : List Lexeme} :
    readAll afterOperand t = .ok lexemes ↔ Cut afterOperand t lexemes :=
  ⟨cut_of_readAll, readAll_of_cut⟩

end Lexeme

end ShaderVariants.Condition
