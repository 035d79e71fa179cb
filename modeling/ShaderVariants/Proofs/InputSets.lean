import Mathlib.Algebra.BigOperators.Group.Finset.Basic
import Mathlib.Combinatorics.Colex
import Mathlib.Data.Nat.BitIndices
import ShaderVariants.InputSet

/-!
# Sets of inputs as finite sets

A word of bits stands for the finite set of the indices at which its bits are one (`Denotes`): its
value, its size, its list of members and its equality are those of that set.  Operations on such
words, however many, lead to the words of what the same operations on finite sets lead to, less the
indices that no input can have (`Operation.sets_denote`).
-/

namespace ShaderVariants

namespace InputSet

/-! ## 1. Members -/

/-- The indices that are members of a set. -/
def members (set : InputSet) : Finset Nat :=
  (Finset.range inputCapacity).filter fun index => set.mem index = true

theorem lt_of_mem {set : InputSet} {index : Nat} (h : set.mem index = true) :
    index < inputCapacity := by
  apply Nat.lt_of_not_le
  intro hle
  rw [mem_eq_false_of_le hle] at h
  cases h

@[simp] theorem mem_members {set : InputSet} {index : Nat} :
    index ∈ set.members ↔ set.mem index = true := by
  rw [members, Finset.mem_filter, Finset.mem_range]
  exact and_iff_right_of_imp lt_of_mem

theorem members_inj {a b : InputSet} : a.members = b.members ↔ a = b := by
  constructor
  · intro h
    ext index
    rw [Bool.eq_iff_iff, ← mem_members, ← mem_members, h]
  · rintro rfl
    rfl

@[simp] theorem members_empty : empty.members = ∅ := by
  ext index
  simp

/-- The indices that an input can have. -/
def inRange (indices : Finset Nat) : Finset Nat :=
  indices.filter (· < inputCapacity)

theorem members_insert {set : InputSet} {indices : Finset Nat} (h : set.members = inRange indices)
    (index : Nat) : (set.insert index).members = inRange (Insert.insert index indices) := by
  ext other
  have hother : set.mem other = true ↔ other ∈ indices ∧ other < inputCapacity := by
    rw [← mem_members, h, inRange, Finset.mem_filter]
  rw [mem_members, mem_insert, Bool.or_eq_true, hother, inRange, Finset.mem_filter,
    Finset.mem_insert]
  -- An index that is added counts below the capacity only.
  by_cases heq : index = other
  · simp [heq]
  · simp [heq, Ne.symm heq]

theorem members_union {a b : InputSet} {indices others : Finset Nat}
    (ha : a.members = inRange indices) (hb : b.members = inRange others) :
    (a.union b).members = inRange (indices ∪ others) := by
  have hunion : (a.union b).members = a.members ∪ b.members := by
    ext index
    simp
  rw [hunion, ha, hb, inRange, inRange, inRange, Finset.filter_union]

/-! ## 2. The bits of a set -/

theorem mem_eq_testBit (set : InputSet) (index : Nat) :
    set.mem index = set.bits.toNat.testBit index := by
  rw [BitVec.testBit_toNat]
  by_cases h : index < inputCapacity
  · rw [mem, decide_eq_true h, Bool.true_and]
  · rw [mem_eq_false_of_le (Nat.not_lt.mp h)]
    exact (BitVec.getLsbD_of_ge _ _ (Nat.not_lt.mp h)).symm

theorem pairwise_toList (set : InputSet) : set.toList.Pairwise (· < ·) :=
  List.pairwise_lt_range.filter _

/-- The members are listed as the bits that are one are. -/
theorem toList_eq_bitIndices (set : InputSet) : set.toList = set.bits.toNat.bitIndices := by
  apply List.Perm.eq_of_pairwise' (r := (· < ·)) set.pairwise_toList Nat.bitIndices_sorted.pairwise
  rw [List.perm_ext_iff_of_nodup set.pairwise_toList.nodup Nat.bitIndices_nodup]
  intro index
  rw [mem_toList, Nat.mem_bitIndices, mem_eq_testBit]

theorem toFinset_toList (set : InputSet) : set.toList.toFinset = set.members := by
  ext index
  simp

/-- Counting ones digit by digit counts the bits that are one. -/
theorem countOnes_eq_length (n : Nat) : countOnes n = n.bitIndices.length := by
  fun_induction countOnes n with
  | case1 => simp
  | case2 n hn ih =>
    rw [ih]
    -- The bits of the half stand one place further on, behind the bit of the remainder.
    rcases Nat.even_or_odd' n with ⟨half, rfl | rfl⟩
    · simp
    · have hhalf : (2 * half + 1) / 2 = half := by omega
      have hrest : (2 * half + 1) % 2 = 1 := by omega
      rw [hhalf, hrest, Nat.bitIndices_two_mul_add_one, List.length_cons, List.length_map,
        Nat.add_comm]

/-! ## 3. What a set stands for -/

/-- A set of inputs stands for a finite set of indices. -/
structure Denotes (set : InputSet) (indices : Finset Nat) : Prop where
  mem : ∀ index, set.mem index = true ↔ index ∈ indices
  size : set.size = indices.card
  isEmpty : set.isEmpty = true ↔ indices = ∅
  listed : ∀ index, index ∈ set.toList ↔ index ∈ indices
  increasing : set.toList.Pairwise (· < ·)
  bits : set.bits.toNat = ∑ index ∈ indices, 2 ^ index

theorem isEmpty_iff {set : InputSet} : set.isEmpty = true ↔ set = empty := by
  rw [isEmpty, beq_iff_eq]
  constructor
  · intro h
    cases set
    exact congrArg InputSet.mk h
  · rintro rfl
    rfl

/-- A set of inputs stands for the set of its members. -/
theorem denotes_members (set : InputSet) : Denotes set set.members where
  mem := fun _ => mem_members.symm
  size := by
    rw [size, countOnes_eq_length, ← toList_eq_bitIndices, ← toFinset_toList,
      List.toFinset_card_of_nodup set.pairwise_toList.nodup]
  isEmpty := by rw [isEmpty_iff, ← members_empty, members_inj]
  listed := fun _ => mem_toList.trans mem_members.symm
  increasing := set.pairwise_toList
  bits := by
    rw [← toFinset_toList, toList_eq_bitIndices, Finset.sum_toFinset_bitIndices_two_pow]

/-! ## 4. Operations -/

/-- An operation on sets that are kept at numbered places. -/
inductive Operation where
  /-- Adds an index to the set at a place. -/
  | insert (place index : Nat)
  /-- Puts the union of two sets at a place. -/
  | union (place left right : Nat)
  /-- Adds the members of another set to the set at a place. -/
  | unite (place other : Nat)
  deriving Repr, DecidableEq

namespace Operation

section

variable {α β : Type} (insert : α → Nat → α) (union : α → α → α)

/-- What an operation makes of the sets, given how an index is added to one and how two of them are
united. -/
def apply (places : Nat → α) : Operation → Nat → α
  | .insert place index => Function.update places place (insert (places place) index)
  | .union place left right => Function.update places place (union (places left) (places right))
  | .unite place other => Function.update places place (union (places place) (places other))

/-- The sets after some operations, all of which are the same at first. -/
def run (start : α) (operations : List Operation) : Nat → α :=
  operations.foldl (apply insert union) fun _ => start

variable {insert union} {insert' : β → Nat → β} {union' : β → β → β} {R : α → β → Prop}

theorem related_update {places : Nat → α} {places' : Nat → β}
    (h : ∀ place, R (places place) (places' place)) (changed : Nat) {a : α} {b : β}
    (hab : R a b) (place : Nat) :
    R (Function.update places changed a place) (Function.update places' changed b place) := by
  by_cases heq : place = changed
  · rw [heq, Function.update_self, Function.update_self]
    exact hab
  · rw [Function.update_of_ne heq, Function.update_of_ne heq]
    exact h place

section

variable (hinsert : ∀ a b index, R a b → R (insert a index) (insert' b index))
  (hunion : ∀ a b c d, R a b → R c d → R (union a c) (union' b d))

include hinsert hunion

/-- One operation keeps the sets related place by place. -/
theorem related_apply {places : Nat → α} {places' : Nat → β}
    (h : ∀ place, R (places place) (places' place)) (operation : Operation) (place : Nat) :
    R (operation.apply insert union places place)
      (operation.apply insert' union' places' place) := by
  cases operation with
  | insert changed index => exact related_update h changed (hinsert _ _ index (h changed)) place
  | union changed left right =>
    exact related_update h changed (hunion _ _ _ _ (h left) (h right)) place
  | unite changed other =>
    exact related_update h changed (hunion _ _ _ _ (h changed) (h other)) place

/-- So do any number of operations, from sets that are related at first. -/
theorem related_run {start : α} {start' : β} (hstart : R start start')
    (operations : List Operation) (place : Nat) :
    R (run insert union start operations place)
      (run insert' union' start' operations place) := by
  -- The induction is on the operations, and needs the sets in front of them to be any.
  have hfold : ∀ (places : Nat → α) (places' : Nat → β),
      (∀ place, R (places place) (places' place)) →
      ∀ place, R (operations.foldl (apply insert union) places place)
        (operations.foldl (apply insert' union') places' place) := by
    induction operations with
    | nil => exact fun _ _ h => h
    | cons operation rest ih =>
      exact fun _ _ h => ih _ _ fun place => related_apply hinsert hunion h operation place
  exact hfold _ _ (fun _ => hstart) place

end

end

/-- The sets of inputs after some operations, empty at first. -/
def sets (operations : List Operation) : Nat → InputSet :=
  run InputSet.insert InputSet.union .empty operations

/-- The indices that the operations have put in, whatever their size. -/
def indices (operations : List Operation) : Nat → Finset Nat :=
  run (fun indices index => Insert.insert index indices) (· ∪ ·) ∅ operations

theorem members_sets (operations : List Operation) (place : Nat) :
    (sets operations place).members = inRange (indices operations place) :=
  related_run (R := fun (set : InputSet) indices => set.members = inRange indices)
    (fun _ _ index h => members_insert h index) (fun _ _ _ _ ha hb => members_union ha hb)
    (by simp [inRange]) operations place

/-- Operations lead to the sets that stand for the indices in range which were put in: equal ones
for equal sets of indices, and an index that no input can have is no member and adds nothing. -/
theorem sets_denote (operations : List Operation) (place : Nat) :
    Denotes (sets operations place) (inRange (indices operations place)) ∧
      (∀ others other, sets operations place = sets others other ↔
        inRange (indices operations place) = inRange (indices others other)) ∧
      ∀ beyond, (sets operations place).mem (inputCapacity + beyond) = false ∧
        (sets operations place).insert (inputCapacity + beyond) = sets operations place := by
  refine ⟨?_, fun others other => ?_, fun beyond => ⟨?_, ?_⟩⟩
  · rw [← members_sets]
    exact denotes_members _
  · rw [← members_sets, ← members_sets, members_inj]
  · exact mem_eq_false_of_le (Nat.le_add_right _ _)
  · rw [InputSet.insert, if_neg (Nat.not_lt.mpr (Nat.le_add_right _ _))]

example :
    (sets [.insert 0 127, .insert 1 128, .insert 1 5, .unite 0 1, .union 2 0 0] 2).toList =
      [5, 127] := by
  decide

end Operation

end InputSet

end ShaderVariants
