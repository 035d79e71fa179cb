import ShaderVariants.Layout

/-!
# How a block grows

A member of the uniform block takes space, unless it is an array without elements: the end of the
block moves on when it is placed (`Block.cursor_lt_of_push`), and a block has a size just if its end
has moved (`Block.size_eq_zero_iff`).
-/

namespace ShaderVariants

/-! ## 1. Members -/

theorem DataType.isSome_shape?_of_not_isResource {type : DataType} (htyped : type ≠ .void)
    (h : type.isResource = false) : type.shape?.isSome = true := by
  revert htyped h
  cases type <;> decide

namespace Packing

variable {rule : Packing} {type : DataType} {value : ValueShape}

theorem isSome_valueShape? (h : type.shape?.isSome = true) :
    (rule.valueShape? type).isSome = true := by
  rw [valueShape?, Option.isSome_map]
  exact h

/-- A single value takes at least the bytes of a scalar. -/
theorem size_pos_of_valueShape? (h : rule.valueShape? type = some value) : 0 < value.size := by
  cases rule <;> cases type <;> simp [valueShape?, DataType.shape?] at h <;> subst h <;> decide

end Packing

namespace Block

theorem memberAlignment_pos {rule : Packing} {type : DataType} {value : ValueShape}
    (h : rule.valueShape? type = some value) (count : Option Nat) :
    scalarSize ≤ memberAlignment rule value count := by
  have halignment := alignment_of_valueShape? h
  unfold memberAlignment scalarSize
  split
  · omega
  · omega

theorem size_place_pos {block : Block} {type : DataType} {value : ValueShape} {count : Option Nat}
    (h : block.rule.valueShape? type = some value) (hcount : ∀ n ∈ count, 0 < n) :
    0 < (block.place value count).size := by
  have hsize := Packing.size_pos_of_valueShape? h
  cases count with
  | none => exact hsize
  | some n =>
    have halignment := memberAlignment_pos h (some n)
    have hstride : value.size ≤ roundUp value.size (memberAlignment block.rule value (some n)) :=
      le_roundUp _ (Nat.lt_of_lt_of_le (by decide) halignment)
    exact Nat.mul_pos (Nat.lt_of_lt_of_le hsize hstride) (hcount n rfl)

/-! ## 2. Placing members -/

variable {block next : Block} {placement : Placement} {type : DataType} {count : Option Nat}

/-- The end of a block moves on when a member of a numeric type is placed. -/
theorem cursor_lt_of_push (htype : type.shape?.isSome = true) (hcount : ∀ n ∈ count, 0 < n)
    (h : block.push type count = some (placement, next)) : block.cursor < next.cursor := by
  obtain ⟨value, hvalue⟩ := Option.isSome_iff_exists.mp (Packing.isSome_valueShape? htype)
  have halignment := memberAlignment_pos hvalue count
  have hoffset : block.cursor ≤ (block.place value count).offset :=
    block.cursor_le_offset (Nat.lt_of_lt_of_le (by decide) halignment)
  have hsize := size_place_pos hvalue hcount
  rw [push_of_valueShape? hvalue] at h
  split at h
  · obtain ⟨rfl, rfl⟩ := Prod.mk.inj (Option.some.inj h)
    -- Padding may move the end on already, and the member does in any case.
    show block.cursor < (block.place value count).offset + (block.place value count).size
    omega
  · cases h

/-- No member lowers the alignment of a block. -/
theorem alignment_le_of_push (h : block.push type count = some (placement, next)) :
    block.alignment ≤ next.alignment := by
  cases hvalue : block.rule.valueShape? type with
  | none =>
    rw [push_of_valueShape?_eq_none hvalue] at h
    obtain ⟨rfl, rfl⟩ := Prod.mk.inj (Option.some.inj h)
    exact Nat.le_refl _
  | some value =>
    rw [push_of_valueShape? hvalue] at h
    split at h
    · obtain ⟨rfl, rfl⟩ := Prod.mk.inj (Option.some.inj h)
      exact Nat.le_max_left _ _
    · cases h

/-- A block has a size just if its end has moved. -/
theorem size_eq_zero_iff (halignment : 0 < block.alignment) :
    block.size = 0 ↔ block.cursor = 0 := by
  unfold size
  by_cases hcursor : block.cursor = 0
  · simp [hcursor]
  · rw [if_neg hcursor]
    -- The rules pad the end of a block to different steps, but neither takes anything away.
    have hpadded : ∀ step, 0 < step →
        (word? (roundUp block.cursor step)).getD block.cursor ≠ 0 := by
      intro step hstep
      have := le_roundUp block.cursor hstep
      rw [word?]
      split
      · show roundUp block.cursor step ≠ 0
        omega
      · exact hcursor
    refine iff_of_false ?_ hcursor
    cases block.rule with
    | std140 => exact hpadded _ (Nat.lt_of_lt_of_le halignment (Nat.le_max_left _ _))
    | std430 => exact hpadded _ halignment

end Block

end ShaderVariants
