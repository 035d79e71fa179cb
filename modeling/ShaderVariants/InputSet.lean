/-!
# Sets of inputs

A set of inputs is a word of 128 bits, one for each index that an input can have.  Indices past
the capacity are never members and adding them changes nothing.  Main facts: what each operation
does to membership, and two sets with the same members are equal.
-/

namespace ShaderVariants

/-- How many inputs a program can declare. -/
def inputCapacity : Nat := 128

/-- A set of input indices. -/
structure InputSet where
  bits : BitVec 128
  deriving Repr, DecidableEq

namespace InputSet

def empty : InputSet := ⟨0⟩

/-- Whether the input at `index` is a member. -/
def mem (set : InputSet) (index : Nat) : Bool :=
  decide (index < inputCapacity) && set.bits.getLsbD index

/-- Adds the input at `index`; an index past the capacity is ignored. -/
def insert (set : InputSet) (index : Nat) : InputSet :=
  if index < inputCapacity then ⟨set.bits ||| BitVec.twoPow 128 index⟩ else set

def union (a b : InputSet) : InputSet := ⟨a.bits ||| b.bits⟩

def ofList (indices : List Nat) : InputSet :=
  indices.foldl insert empty

def toList (set : InputSet) : List Nat :=
  (List.range inputCapacity).filter set.mem

/-- How many bits of the binary form of a number are one. -/
def countOnes (n : Nat) : Nat :=
  if n = 0 then 0 else n % 2 + countOnes (n / 2)
termination_by n
decreasing_by omega

def size (set : InputSet) : Nat :=
  countOnes set.bits.toNat

def isEmpty (set : InputSet) : Bool :=
  set.bits == 0

@[simp] theorem mem_empty (index : Nat) : empty.mem index = false := by
  simp [empty, mem]

@[simp] theorem mem_union (a b : InputSet) (index : Nat) :
    (a.union b).mem index = (a.mem index || b.mem index) := by
  simp [union, mem, Bool.and_or_distrib_left]

@[simp] theorem mem_insert (set : InputSet) (index other : Nat) :
    (set.insert index).mem other =
      (set.mem other || (decide (index < inputCapacity) && decide (index = other))) := by
  by_cases h : index < inputCapacity
  · have hbit : index < 128 := h
    by_cases ho : index = other
    · subst ho
      simp [insert, mem, h, hbit]
    · simp [insert, mem, h, ho, BitVec.getLsbD_twoPow]
  · simp [insert, h]

theorem mem_eq_false_of_le {set : InputSet} {index : Nat} (h : inputCapacity ≤ index) :
    set.mem index = false := by
  simp [mem, Nat.not_lt.mpr h]

@[simp] theorem mem_toList {set : InputSet} {index : Nat} :
    index ∈ set.toList ↔ set.mem index = true := by
  simp only [toList, List.mem_filter, List.mem_range, and_iff_right_iff_imp]
  intro h
  simp only [mem, Bool.and_eq_true, decide_eq_true_eq] at h
  exact h.1

@[ext] theorem ext_mem {a b : InputSet} (h : ∀ index, a.mem index = b.mem index) : a = b := by
  have hbits : a.bits = b.bits := by
    apply BitVec.eq_of_getLsbD_eq
    intro i hi
    have := h i
    simp only [mem, inputCapacity, hi, decide_true, Bool.true_and] at this
    exact this
  cases a
  cases b
  simp_all

end InputSet

end ShaderVariants
