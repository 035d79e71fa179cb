import Std.Data.HashSet
import ShaderVariants.Program.Basic

/-!
# Canonical mutations

The canonical forms of mutations, each listed once, in the order in which they are first reached.
Main facts: `distinct` keeps every element, repeats none, and leaves a list without repetitions as
it is.
-/

namespace ShaderVariants

/-- The elements that have not been seen, each at its first place only. -/
def distinctFrom {α : Type} [BEq α] [Hashable α] (seen : Std.HashSet α) : List α → List α
  | [] => []
  | a :: rest =>
    if seen.contains a then distinctFrom seen rest else a :: distinctFrom (seen.insert a) rest

/-- The elements of a list, each at its first place only. -/
def distinct {α : Type} [BEq α] [Hashable α] (as : List α) : List α :=
  distinctFrom ∅ as

section

variable {α : Type} [BEq α] [LawfulBEq α] [Hashable α]

theorem mem_distinctFrom {seen : Std.HashSet α} {as : List α} {a : α} :
    a ∈ distinctFrom seen as ↔ a ∈ as ∧ a ∉ seen := by
  induction as generalizing seen with
  | nil => simp [distinctFrom]
  | cons b rest ih =>
    rw [distinctFrom]
    by_cases hb : b ∈ seen
    · rw [if_pos (by simpa using hb), ih, List.mem_cons]
      constructor
      · exact fun h => ⟨Or.inr h.1, h.2⟩
      · rintro ⟨rfl | h, hs⟩
        · exact absurd hb hs
        · exact ⟨h, hs⟩
    · rw [if_neg (by simpa using hb), List.mem_cons, ih, List.mem_cons]
      simp only [Std.HashSet.mem_insert, beq_iff_eq, not_or]
      constructor
      · rintro (rfl | ⟨h, hne, hs⟩)
        · exact ⟨Or.inl rfl, hb⟩
        · exact ⟨Or.inr h, hs⟩
      · rintro ⟨rfl | h, hs⟩
        · exact Or.inl rfl
        · by_cases hab : b = a
          · exact Or.inl hab.symm
          · exact Or.inr ⟨h, hab, hs⟩

@[simp] theorem mem_distinct {as : List α} {a : α} : a ∈ distinct as ↔ a ∈ as := by
  simp [distinct, mem_distinctFrom]

theorem nodup_distinctFrom (seen : Std.HashSet α) (as : List α) :
    (distinctFrom seen as).Nodup := by
  induction as generalizing seen with
  | nil => simp [distinctFrom]
  | cons b rest ih =>
    rw [distinctFrom]
    split
    · exact ih seen
    · refine List.nodup_cons.mpr ⟨fun h => ?_, ih _⟩
      exact (mem_distinctFrom.mp h).2 (by simp)

theorem nodup_distinct (as : List α) : (distinct as).Nodup :=
  nodup_distinctFrom ∅ as

end

namespace Program

/-- The canonical form of each mutation; fails with the first one that has none. -/
def canonicalForms (program : Program) : List Mutation → Except Rewrite.Cycle (List Mutation)
  | [] => .ok []
  | mutation :: rest =>
    match program.canonicalize mutation with
    | .error cycle => .error cycle
    | .ok (_, form) => (program.canonicalForms rest).map (form :: ·)

/-- The canonical forms of the given mutations, each listed once. -/
def distinctForms (program : Program) (mutations : List Mutation) :
    Except Rewrite.Cycle (List Mutation) :=
  (program.canonicalForms mutations).map distinct

end Program

end ShaderVariants
