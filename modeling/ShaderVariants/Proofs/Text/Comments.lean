import Mathlib.Data.List.TakeWhile
import ShaderVariants.Proofs.Text.Lines
import ShaderVariants.Proofs.Variant.Header

/-!
# Comments of a line

A line with a blank in place of every block comment that ends in it (`uncomment`), against a line
that is cut at its first comment (`beforeComment`).  The first has all that the second has, and only
blanks more if nothing but blanks and comments stands behind the first comment
(`beforeComment_uncomment`).
-/

namespace ShaderVariants.Text

/-! ## 1. Block comments -/

/-- The text behind the end of a block comment, given the text behind its start. -/
def afterBlock? : Text → Option Text
  | '*' :: '/' :: rest => some rest
  | _ :: rest => afterBlock? rest
  | [] => none

theorem length_lt_of_afterBlock? {t rest : Text} (h : afterBlock? t = some rest) :
    rest.length < t.length := by
  fun_induction afterBlock? t with
  | case1 after =>
    obtain rfl := Option.some.inj h
    show after.length < after.length + 1 + 1
    omega
  | case2 c t _ ih => exact Nat.lt_succ_of_lt (ih h)
  | case3 => cases h

/-- The text with a blank in place of every block comment that ends.  There is no block comment
inside of a line comment. -/
def uncomment : Text → Text
  | [] => []
  | '/' :: '/' :: rest => '/' :: '/' :: rest
  | '/' :: '*' :: rest =>
    match _h : afterBlock? rest with
    | some after => ' ' :: uncomment after
    | none => '/' :: '*' :: rest
  | c :: rest => c :: uncomment rest
termination_by t => t.length
decreasing_by
  · have hlength := length_lt_of_afterBlock? _h
    simp only [List.length_cons]
    omega
  · exact Nat.lt_succ_self _

/-- The text from its first comment. -/
def fromComment : Text → Text
  | [] => []
  | c :: t => if startsComment (c :: t) then c :: t else fromComment t

/-- Blanks and comments that end with their line. -/
inductive Remark : Text → Prop
  | nil : Remark []
  | blank {c : Char} {t : Text} (hc : isBlank c = true) (h : Remark t) : Remark (c :: t)
  | line (t : Text) : Remark ('/' :: '/' :: t)
  | block {t after : Text} (ends : afterBlock? t = some after) (h : Remark after) :
    Remark ('/' :: '*' :: t)

theorem startsComment_eq_true {t : Text} (h : startsComment t = true) :
    ∃ rest, t = '/' :: '/' :: rest ∨ t = '/' :: '*' :: rest := by
  unfold startsComment at h
  split at h
  next rest => exact ⟨rest, Or.inl rfl⟩
  next rest => exact ⟨rest, Or.inr rfl⟩
  next => cases h

theorem uncomment_cons {c : Char} {t : Text} (h : startsComment (c :: t) = false) :
    uncomment (c :: t) = c :: uncomment t := by
  rw [uncomment]
  · rintro rest rfl rfl
    cases h
  · rintro rest rfl rfl
    cases h

/-- A line comment stays as it is, and so does a block comment that does not end. -/
theorem uncomment_of_startsComment {t : Text} (h : startsComment t = true) :
    uncomment t = t ∨ ∃ after, uncomment t = ' ' :: uncomment after := by
  obtain ⟨rest, rfl | rfl⟩ := startsComment_eq_true h
  · exact Or.inl (by rw [uncomment])
  · rw [uncomment]
    split
    next after _ => exact Or.inr ⟨after, rfl⟩
    next => exact Or.inl rfl

/-- No comment comes into being in front of one that is taken out. -/
theorem startsComment_cons_uncomment {c : Char} {t : Text} (h : startsComment (c :: t) = false) :
    startsComment (c :: uncomment t) = false := by
  cases t with
  | nil => rwa [uncomment]
  | cons d t =>
    cases hstart : startsComment (d :: t) with
    | true =>
      rcases uncomment_of_startsComment hstart with heq | ⟨after, heq⟩
      · rwa [heq]
      · rw [heq, startsComment_cons_cons]
        simp
    | false =>
      rw [startsComment_cons_cons] at h
      rw [uncomment_cons hstart, startsComment_cons_cons]
      exact h

theorem uncomment_append {front : Text} (h : ∀ c ∈ front, c ≠ '/') (t : Text) :
    uncomment (front ++ t) = front ++ uncomment t := by
  induction front with
  | nil => rfl
  | cons c front ih =>
    obtain ⟨hc, hfront⟩ := List.forall_mem_cons.mp h
    rw [List.cons_append, uncomment_cons (startsComment_eq_false hc _), ih hfront,
      List.cons_append]

theorem ne_slash_of_isBlank {c : Char} (h : isBlank c = true) : c ≠ '/' := by
  rintro rfl
  exact absurd h (by decide)

theorem ne_slash_of_blanks {blanks : Text} (h : ∀ c ∈ blanks, isBlank c = true) :
    ∀ c ∈ blanks, c ≠ '/' :=
  fun c hc => ne_slash_of_isBlank (h c hc)

/-- Blanks in front are no part of what a comment cuts. -/
theorem beforeComment_trimStart (t : Text) :
    beforeComment (trimStart t) = trimStart (beforeComment t) := by
  have hparts : t.takeWhile isBlank ++ trimStart t = t := List.takeWhile_append_dropWhile
  have hblank : ∀ c ∈ t.takeWhile isBlank, isBlank c = true := fun c hc => List.mem_takeWhile_imp hc
  have hbefore : beforeComment t = t.takeWhile isBlank ++ beforeComment (trimStart t) := by
    conv_lhs => rw [← hparts, beforeComment_append (ne_slash_of_blanks hblank)]
  rw [hbefore, trimStart_append hblank]
  cases hrest : trimStart t with
  | nil => rfl
  | cons c rest =>
    -- The first character that is left is not blank, and a comment takes it or not.
    have hc : isBlank c = false := by
      have hhead := List.head?_dropWhile_not isBlank t
      rw [show t.dropWhile isBlank = c :: rest from hrest] at hhead
      simpa using hhead
    rw [beforeComment]
    split
    · rfl
    · exact (trimStart_eq_self hc).symm

/-! ## 2. Remarks -/

/-- What stands before the first comment of a remark is blank. -/
theorem Remark.beforeComment {t : Text} (h : Remark t) :
    ∀ c ∈ beforeComment t, isBlank c = true := by
  induction h with
  | nil => exact fun c hc => absurd hc (by simp [Text.beforeComment])
  | @blank c t hc _ ih =>
    rw [beforeComment_cons (ne_slash_of_isBlank hc)]
    exact List.forall_mem_cons.mpr ⟨hc, ih⟩
  | line t | block ends h => exact fun c hc => absurd hc (by simp [Text.beforeComment, startsComment])

/-- A remark starts no word. -/
theorem Remark.head? {t : Text} (h : Remark t) : t.head?.all (fun c => !isWordChar c) = true := by
  cases h with
  | nil => rfl
  | @blank c t hc _ => exact head?_cons_of_isBlank hc t
  | line t | block ends _ =>
    show (!isWordChar '/') = true
    decide

/-- And so is what stands before its first comment that is not taken out. -/
theorem Remark.beforeComment_uncomment {t : Text} (h : Remark t) :
    ∀ c ∈ Text.beforeComment (uncomment t), isBlank c = true := by
  induction h with
  | nil => exact fun c hc => absurd hc (by simp [uncomment, Text.beforeComment])
  | @blank c t hc _ ih =>
    have hslash : c ≠ '/' := ne_slash_of_isBlank hc
    have hfront : uncomment ([c] ++ t) = [c] ++ uncomment t :=
      uncomment_append (List.forall_mem_singleton.mpr hslash) t
    rw [List.singleton_append, List.singleton_append] at hfront
    rw [hfront, beforeComment_cons hslash]
    exact List.forall_mem_cons.mpr ⟨hc, ih⟩
  | line t => exact fun c hc => absurd hc (by simp [uncomment, Text.beforeComment, startsComment])
  | @block t after ends _ ih =>
    -- The block ends, and a blank stands in its place.
    have hblock : uncomment ('/' :: '*' :: t) = ' ' :: uncomment after := by
      rw [uncomment]
      split
      next found hfound => rw [Option.some.inj (hfound.symm.trans ends)]
      next hnone =>
        rw [ends] at hnone
        cases hnone
    rw [hblock, beforeComment_cons (by decide)]
    exact List.forall_mem_cons.mpr ⟨by decide, ih⟩

/-- Without its block comments a line has at least what stands before the first of them.  The word in
front of them ends there, and only blanks follow if the rest is a remark. -/
theorem beforeComment_uncomment (t : Text) :
    ∃ more, beforeComment (uncomment t) = beforeComment t ++ more ∧
      more.head?.all (fun c => !isWordChar c) = true ∧
      (Remark (fromComment t) → ∀ c ∈ more, isBlank c = true) := by
  induction t with
  | nil => exact ⟨[], by simp [uncomment, beforeComment], rfl, fun _ c hc => absurd hc (by simp)⟩
  | cons c t ih =>
    cases hstart : startsComment (c :: t) with
    | true =>
      have hnil : beforeComment (c :: t) = [] := by rw [beforeComment, hstart]; rfl
      have hall : fromComment (c :: t) = c :: t := by rw [fromComment, hstart]; rfl
      rw [hnil, hall]
      -- Nothing stands in front of this comment, so whatever is left of the text comes behind it.
      refine ⟨beforeComment (uncomment (c :: t)), rfl, ?_, Remark.beforeComment_uncomment⟩
      rcases uncomment_of_startsComment hstart with heq | ⟨after, heq⟩
      · rw [heq, hnil]
        rfl
      · rw [heq, beforeComment_cons (by decide)]
        show (!isWordChar ' ') = true
        decide
    | false =>
      obtain ⟨more, hmore, hhead, hremark⟩ := ih
      refine ⟨more, ?_, hhead, fun h => hremark ?_⟩
      · rw [uncomment_cons hstart, beforeComment, beforeComment, hstart,
          startsComment_cons_uncomment hstart, hmore]
        rfl
      · rw [fromComment, hstart] at h
        exact h

end ShaderVariants.Text
