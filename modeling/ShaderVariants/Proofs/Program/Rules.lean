import Mathlib.Data.List.Nodup
import ShaderVariants.Program.Declaration

/-!
# Rules as they are read

A rule that has been read names its mutators by increasing place, takes both values of each from
the ones declared, and changes at least one (`wellFormed_of_readRule`).
-/

namespace ShaderVariants

/-! ## 1. Well-formed rules -/

/-- Whether a value is declared for the mutator at a place. -/
def DeclaredAt (mutators : List Mutator) (place : Nat) (value : Int) : Prop :=
  ∃ mutator, mutators[place]? = some mutator ∧ mutator.hasValue value = true

theorem DeclaredAt.append {mutators : List Mutator} {place : Nat} {value : Int}
    (h : DeclaredAt mutators place value) (more : List Mutator) :
    DeclaredAt (mutators ++ more) place value := by
  obtain ⟨mutator, hmutator, hvalue⟩ := h
  refine ⟨mutator, ?_, hvalue⟩
  rw [List.getElem?_append_left (List.getElem?_eq_some_iff.mp hmutator).1, hmutator]

/-- What is known of a rule that was read. -/
structure Rewrite.WellFormed (mutators : List Mutator) (rule : Rewrite) : Prop where
  increasing : (rule.records.map RewriteRecord.mutator).Pairwise (· < ·)
  declared : ∀ record ∈ rule.records, DeclaredAt mutators record.mutator record.source ∧
    DeclaredAt mutators record.mutator record.target
  changes : ∃ record ∈ rule.records, record.source ≠ record.target

theorem Rewrite.WellFormed.append {mutators : List Mutator} {rule : Rewrite}
    (h : rule.WellFormed mutators) (more : List Mutator) : rule.WellFormed (mutators ++ more) where
  increasing := h.increasing
  declared := fun record hrecord =>
    ⟨(h.declared record hrecord).1.append more, (h.declared record hrecord).2.append more⟩
  changes := h.changes

/-- None of the mutators of a rule has the given name. -/
def Rewrite.Avoids (mutators : List Mutator) (word : Text) (rule : Rewrite) : Prop :=
  ∀ record ∈ rule.records, ∀ mutator, mutators[record.mutator]? = some mutator →
    mutator.name ≠ word

theorem Rewrite.Avoids.append {mutators : List Mutator} {word : Text} {rule : Rewrite}
    (h : rule.Avoids mutators word) (hrule : rule.WellFormed mutators) (more : List Mutator) :
    rule.Avoids (mutators ++ more) word := by
  intro record hrecord mutator hmutator
  obtain ⟨known, hknown, -⟩ := (hrule.declared record hrecord).1
  -- The place is taken already, so what is declared later does not change who stands there.
  rw [List.getElem?_append_left (List.getElem?_eq_some_iff.mp hknown).1] at hmutator
  exact h record hrecord mutator hmutator

namespace Draft

/-! ## 2. The sides of a rule -/

/-- What is known of a side of a rule while its pairs are read. -/
structure SideSound (mutators : List Mutator) (side : List Assignment) : Prop where
  nodup : (side.map Prod.fst).Nodup
  declared : ∀ assignment ∈ side, DeclaredAt mutators assignment.1 assignment.2

theorem sideSound_append_of_readPair {mutators : List Mutator} {side : List Assignment}
    {name value : Text} {assignment : Assignment} (hside : SideSound mutators side)
    (h : readPair mutators side name value = .ok assignment) :
    SideSound mutators (side ++ [assignment]) := by
  rw [readPair] at h
  split at h
  · cases h
  split at h
  · cases h
  split at h
  · cases h
  next index hindex number hnumber hdeclared =>
    split at h
    · cases h
    next hfresh =>
      obtain rfl := Except.ok.inj h
      constructor
      · rw [List.map_append, List.nodup_append]
        refine ⟨hside.nodup, by simp, ?_⟩
        intro place hplace other hother heq
        obtain ⟨seen, hseen, rfl⟩ := List.mem_map.mp hplace
        simp only [List.map_cons, List.map_nil, List.mem_singleton] at hother
        exact hfresh (List.any_eq_true.mpr ⟨seen, hseen, by simp [heq, hother]⟩)
      · intro other hother
        rcases List.mem_append.mp hother with hother | hother
        · exact hside.declared other hother
        · obtain rfl := List.mem_singleton.mp hother
          simpa [DeclaredAt, Option.any_eq_true] using hdeclared

theorem sideSound_of_readPairs {mutators : List Mutator} {side result : List Assignment}
    {tokens : List Text} (hside : SideSound mutators side)
    (h : readPairs mutators side tokens = .ok result) : SideSound mutators result := by
  fun_induction readPairs mutators side tokens with
  | case1 side name value rest fault hpair => cases h
  | case2 side name value rest assignment hpair ih =>
    exact ih (sideSound_append_of_readPair hside hpair) h
  | case3 side tokens htokens => exact Except.ok.inj h ▸ hside

theorem perm_insertInOrder (assignment : Assignment) (side : List Assignment) :
    (insertInOrder assignment side).Perm (assignment :: side) := by
  induction side with
  | nil => exact .refl _
  | cons other rest ih =>
    rw [insertInOrder]
    split
    · exact .refl _
    · exact (ih.cons other).trans (.swap assignment other rest)

/-- Ordering neither adds assignments nor loses any. -/
theorem perm_inOrder (side : List Assignment) : (inOrder side).Perm side := by
  induction side with
  | nil => exact .refl _
  | cons assignment side ih =>
    exact (perm_insertInOrder assignment (inOrder side)).trans (ih.cons assignment)

theorem pairwise_insertInOrder {assignment : Assignment} {side : List Assignment}
    (h : side.Pairwise fun a b => a.1 ≤ b.1) :
    (insertInOrder assignment side).Pairwise fun a b => a.1 ≤ b.1 := by
  induction side with
  | nil => exact List.pairwise_singleton _ _
  | cons other rest ih =>
    obtain ⟨hother, hrest⟩ := List.pairwise_cons.mp h
    rw [insertInOrder]
    split
    next hle =>
      refine List.pairwise_cons.mpr ⟨fun b hb => ?_, h⟩
      rcases List.mem_cons.mp hb with rfl | hb
      · exact hle
      · exact Nat.le_trans hle (hother b hb)
    next hlt =>
      refine List.pairwise_cons.mpr ⟨fun b hb => ?_, ih hrest⟩
      -- What is inserted further on is not smaller than `other` either.
      rcases List.mem_cons.mp ((perm_insertInOrder assignment rest).mem_iff.mp hb) with rfl | hb
      · omega
      · exact hother b hb

theorem pairwise_inOrder (side : List Assignment) :
    (inOrder side).Pairwise fun a b => a.1 ≤ b.1 := by
  induction side with
  | nil => exact .nil
  | cons assignment side ih => exact pairwise_insertInOrder ih

/-- A side names its mutators by increasing place, since it names none of them twice. -/
theorem sideSound_of_readSide {mutators : List Mutator} {tokens : List Text}
    {side : List Assignment} (h : readSide mutators tokens = .ok side) :
    SideSound mutators side ∧ (side.map Prod.fst).Pairwise (· < ·) := by
  rw [readSide] at h
  split at h
  · cases h
  cases hread : readPairs mutators [] tokens with
  | error fault => simp [hread, Except.map] at h
  | ok pairs =>
    have hpairs : SideSound mutators pairs :=
      sideSound_of_readPairs ⟨by simp, by simp⟩ hread
    obtain rfl : inOrder pairs = side := by
      simpa [hread, Except.map] using h
    have hnodup := ((perm_inOrder pairs).map Prod.fst).nodup_iff.mpr hpairs.nodup
    have hle : ((inOrder pairs).map Prod.fst).Pairwise (· ≤ ·) := by
      rw [List.pairwise_map]
      exact pairwise_inOrder pairs
    -- In order and without repetition is strictly in order.
    refine ⟨⟨hnodup, fun a ha => hpairs.declared a ((perm_inOrder pairs).mem_iff.mp ha)⟩, ?_⟩
    exact hle.imp₂ (fun a b h hne => Nat.lt_of_le_of_ne h hne) hnodup

/-! ## 3. Joining the sides -/

theorem map_mutator_zipWith {left right : List Assignment}
    (h : left.map Prod.fst = right.map Prod.fst) :
    (List.zipWith (fun a b => (⟨a.1, a.2, b.2⟩ : RewriteRecord)) left right).map
      RewriteRecord.mutator = left.map Prod.fst := by
  induction left generalizing right with
  | nil => rfl
  | cons a left ih =>
    cases right with
    | nil => simp at h
    | cons b right =>
      obtain ⟨-, hrest⟩ := List.cons.inj h
      simp [ih hrest]

theorem declaredAt_of_mem_zipWith {mutators : List Mutator} {left right : List Assignment}
    (h : left.map Prod.fst = right.map Prod.fst)
    (hleft : ∀ a ∈ left, DeclaredAt mutators a.1 a.2)
    (hright : ∀ b ∈ right, DeclaredAt mutators b.1 b.2) {record : RewriteRecord}
    (hrecord : record ∈ List.zipWith (fun a b => (⟨a.1, a.2, b.2⟩ : RewriteRecord)) left right) :
    DeclaredAt mutators record.mutator record.source ∧
      DeclaredAt mutators record.mutator record.target := by
  induction left generalizing right with
  | nil => simp at hrecord
  | cons a left ih =>
    cases right with
    | nil => simp at hrecord
    | cons b right =>
      obtain ⟨hfirst, hrest⟩ : a.1 = b.1 ∧ left.map Prod.fst = right.map Prod.fst :=
        List.cons.inj h
      rw [List.forall_mem_cons] at hleft hright
      rw [List.zipWith_cons_cons, List.mem_cons] at hrecord
      rcases hrecord with rfl | hrecord
      · exact ⟨hleft.1, hfirst ▸ hright.1⟩
      · exact ih hrest hleft.2 hright.2 hrecord

/-- A rule that was read is well formed. -/
theorem wellFormed_of_readRule {mutators : List Mutator} {tokens : List Text} {rule : Rewrite}
    (h : readRule mutators tokens = .ok rule) : rule.WellFormed mutators := by
  rw [readRule] at h
  split at h
  · cases h
  split at h
  · cases h
  next left hleft =>
  split at h
  · cases h
  next right hright =>
  obtain ⟨hsources, hincreasing⟩ := sideSound_of_readSide hleft
  obtain ⟨htargets, -⟩ := sideSound_of_readSide hright
  rw [joinSides] at h
  split at h
  · cases h
  split at h
  · cases h
  next hsame =>
  simp only [ne_eq, Decidable.not_not] at hsame
  simp only at h
  split at h
  · cases h
  next hchange =>
  obtain rfl := Except.ok.inj h
  constructor
  · rw [map_mutator_zipWith hsame]
    exact hincreasing
  · intro record hrecord
    exact declaredAt_of_mem_zipWith hsame hsources.declared htargets.declared hrecord
  · simpa using hchange

/-! ## 4. The names in a rule -/

theorem getElem?_of_readPair {mutators : List Mutator} {side : List Assignment} {name value : Text}
    {assignment : Assignment} (h : readPair mutators side name value = .ok assignment) :
    ∃ mutator, mutators[assignment.1]? = some mutator ∧ mutator.name = name := by
  rw [readPair] at h
  split at h
  · cases h
  next index hindex =>
    split at h
    · cases h
    split at h
    · cases h
    split at h
    · cases h
    obtain rfl := Except.ok.inj h
    obtain ⟨hlt, hname, -⟩ := List.findIdx?_eq_some_iff_getElem.mp hindex
    exact ⟨mutators[index], List.getElem?_eq_getElem hlt, beq_iff_eq.mp hname⟩

theorem name_mem_of_readPairs {mutators : List Mutator} {side result : List Assignment}
    {tokens : List Text} (h : readPairs mutators side tokens = .ok result) :
    ∀ assignment ∈ result, assignment ∈ side ∨
      ∃ mutator, mutators[assignment.1]? = some mutator ∧ mutator.name ∈ tokens := by
  fun_induction readPairs mutators side tokens with
  | case1 side name value rest fault hpair => cases h
  | case2 side name value rest assignment hpair ih =>
    intro found hfound
    rcases ih h found hfound with hside | ⟨mutator, hmutator, hname⟩
    · rcases List.mem_append.mp hside with hside | hnew
      · exact Or.inl hside
      · obtain rfl := List.mem_singleton.mp hnew
        obtain ⟨mutator, hmutator, rfl⟩ := getElem?_of_readPair hpair
        exact Or.inr ⟨mutator, hmutator, List.mem_cons_self⟩
    · exact Or.inr ⟨mutator, hmutator, List.mem_cons_of_mem _ (List.mem_cons_of_mem _ hname)⟩
  | case3 side tokens htokens => exact Except.ok.inj h ▸ fun assignment hside => Or.inl hside

theorem name_mem_of_readSide {mutators : List Mutator} {tokens : List Text}
    {side : List Assignment} (h : readSide mutators tokens = .ok side) :
    ∀ place ∈ side.map Prod.fst,
      ∃ mutator, mutators[place]? = some mutator ∧ mutator.name ∈ tokens := by
  rw [readSide] at h
  split at h
  · cases h
  cases hread : readPairs mutators [] tokens with
  | error fault =>
    rw [hread] at h
    cases h
  | ok pairs =>
    rw [hread] at h
    obtain rfl : inOrder pairs = side := Except.ok.inj h
    intro place hplace
    obtain ⟨assignment, hassignment, rfl⟩ := List.mem_map.mp hplace
    have hpair := (perm_inOrder pairs).mem_iff.mp hassignment
    rcases name_mem_of_readPairs hread assignment hpair with hnil | hname
    · cases hnil
    · exact hname

/-- The word between the sides of a rule is the name of none of its mutators: it is cut out. -/
theorem avoids_of_readRule {mutators : List Mutator} {tokens : List Text} {rule : Rewrite}
    (h : readRule mutators tokens = .ok rule) : rule.Avoids mutators "to".toList := by
  rw [readRule] at h
  split at h
  · cases h
  next left right hsides =>
  split at h
  · cases h
  next sources hsources =>
  split at h
  · cases h
  rw [joinSides] at h
  split at h
  · cases h
  split at h
  · cases h
  next hsame =>
  simp only at h
  split at h
  · cases h
  obtain rfl := Except.ok.inj h
  have hleft : ∀ token ∈ left, token ≠ "to".toList := by
    rw [sides?] at hsides
    split at hsides
    · cases hsides
    split at hsides
    · cases hsides
    obtain ⟨rfl, -⟩ := Prod.mk.inj (Option.some.inj hsides)
    intro token htoken
    simpa using List.all_eq_true.mp List.all_takeWhile token htoken
  intro record hrecord mutator hmutator
  have hplace : record.mutator ∈ sources.map Prod.fst := by
    rw [← map_mutator_zipWith (Decidable.not_not.mp hsame)]
    exact List.mem_map_of_mem hrecord
  obtain ⟨named, hnamed, hname⟩ := name_mem_of_readSide hsources _ hplace
  obtain rfl : named = mutator := Option.some.inj (hnamed.symm.trans hmutator)
  exact hleft _ hname

end Draft

end ShaderVariants
