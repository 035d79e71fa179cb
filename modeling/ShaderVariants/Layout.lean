import ShaderVariants.DataType

/-!
# Layout of the uniform block

Members are placed one after the other, each at the least multiple of its alignment, following one
of two packing rules.  The arithmetic is that of 32 bits, and a member is refused when a step of it
does not fit, the last one being that the block padded to 16 bytes is addressable.  Main facts:
`roundUp` gives the least multiple, a member is refused just if the block would end too far out
(`Block.push_of_valueShape?`), and it starts at a multiple of its alignment, not before the end of
the block so far.
-/

namespace ShaderVariants

/-! ## 1. Rounding up -/

/-- The least multiple of `step` that is not below `n`. -/
def roundUp (n step : Nat) : Nat :=
  (n + (step - 1)) / step * step

theorem le_roundUp (n : Nat) {step : Nat} (h : 0 < step) : n ≤ roundUp n step := by
  have hm := Nat.mod_lt (n + (step - 1)) h
  have hd := Nat.div_add_mod' (n + (step - 1)) step
  simp only [roundUp]
  omega

theorem dvd_roundUp (n step : Nat) : step ∣ roundUp n step :=
  Nat.dvd_mul_left step _

theorem roundUp_lt_add (n : Nat) {step : Nat} (h : 0 < step) : roundUp n step < n + step := by
  have hd := Nat.div_add_mod' (n + (step - 1)) step
  simp only [roundUp]
  omega

theorem roundUp_le_of_dvd {n m step : Nat} (h : 0 < step) (hnm : n ≤ m) (hm : step ∣ m) :
    roundUp n step ≤ m := by
  obtain ⟨k, rfl⟩ := hm
  have hk : (n + (step - 1)) / step ≤ k := by
    apply Nat.le_of_lt_succ
    rw [Nat.div_lt_iff_lt_mul h, Nat.succ_mul]
    have := Nat.mul_comm step k
    omega
  rw [roundUp, Nat.mul_comm step k]
  exact Nat.mul_le_mul_right step hk

/-- Steps that divide others lead less far. -/
theorem roundUp_le_roundUp {n m step wider : Nat} (hstep : 0 < step) (hwider : 0 < wider)
    (hnm : n ≤ m) (h : step ∣ wider) : roundUp n step ≤ roundUp m wider :=
  roundUp_le_of_dvd hstep (Nat.le_trans hnm (le_roundUp m hwider))
    (Nat.dvd_trans h (dvd_roundUp m wider))

/-! ## 2. Packing rules -/

/-- The rules by which members of the block are aligned. -/
inductive Packing where
  | std140
  | std430
  deriving Repr, DecidableEq

def Packing.qualifier : Packing → Text
  | .std140 => "std140".toList
  | .std430 => "std430".toList

/-- The size of a scalar in bytes. -/
def scalarSize : Nat := 4

/-- The alignment that `std140` gives at least to arrays, matrix columns and the whole block, and
to which every block is padded when its size is checked. -/
def wideAlignment : Nat := 16

/-- The alignment of a vector; three components are aligned like four. -/
def vectorAlignment : Nat → Nat
  | 1 => 4
  | 2 => 8
  | _ => 16

/-- What a single value takes in the block. -/
structure ValueShape where
  size : Nat
  alignment : Nat
  /-- Distance between the columns of a matrix, `0` for other types. -/
  columnStride : Nat
  deriving Repr, DecidableEq

/-- What a value of a numeric type takes; a matrix is laid out as an array of its columns. -/
def Packing.valueShape? (rule : Packing) (type : DataType) : Option ValueShape :=
  type.shape?.map fun (columns, rows) =>
    if columns = 1 then ⟨rows * scalarSize, vectorAlignment rows, 0⟩
    else
      let stride :=
        match rule with
        | .std140 => max (vectorAlignment rows) wideAlignment
        | .std430 => roundUp (rows * scalarSize) (vectorAlignment rows)
      ⟨stride * columns, stride, stride⟩

/-! ## 3. The block -/

/-- The place of a member in the block, in bytes. -/
structure Placement where
  offset : Nat
  /-- The bytes of all elements. -/
  size : Nat
  /-- The number of elements, `1` for a member that is no array. -/
  arraySize : Nat
  /-- Distance between elements, `0` for a member that is no array. -/
  arrayStride : Nat
  /-- Distance between matrix columns, `0` for other types. -/
  matrixStride : Nat
  deriving Repr, DecidableEq

/-- The first byte behind a member. -/
def Placement.stop (placement : Placement) : Nat :=
  placement.offset + placement.size

/-- A block under construction: the end of its last member and the largest alignment used. -/
structure Block where
  rule : Packing
  cursor : Nat
  alignment : Nat
  deriving Repr, DecidableEq

namespace Block

def empty (rule : Packing) : Block :=
  ⟨rule, 0, scalarSize⟩

/-- The sizes of a block that can be addressed with 32 bits lie below this bound. -/
def addressBound : Nat := 4294967296

/-- The result of a step of 32-bit arithmetic, if it fits. -/
def word? (n : Nat) : Option Nat :=
  if n < addressBound then some n else none

/-- The alignment of a member, which for an array of `std140` is at least that of a vector of
four. -/
def memberAlignment (rule : Packing) (value : ValueShape) (count : Option Nat) : Nat :=
  match count, rule with
  | some _, .std140 => max value.alignment wideAlignment
  | _, _ => value.alignment

/-- The bytes of all elements of a member, their number and their distance. -/
def extent? (value : ValueShape) (alignment : Nat) : Option Nat → Option (Nat × Nat × Nat)
  | none => some (value.size, 1, 0)
  | some n => do
    let stride ← word? (roundUp value.size alignment)
    let size ← word? (stride * n)
    return (size, n, stride)

/-- Appends a member, an array if `count` is given.  A type that is not numeric takes no space.
`none` means that the block would outgrow 32-bit addresses. -/
def push (block : Block) (type : DataType) (count : Option Nat) : Option (Placement × Block) :=
  match block.rule.valueShape? type with
  | none => some (⟨block.cursor, 0, 0, 0, 0⟩, block)
  | some value => do
    let alignment := memberAlignment block.rule value count
    let (size, arraySize, arrayStride) ← extent? value alignment count
    let offset ← word? (roundUp block.cursor alignment)
    let stop ← word? (offset + size)
    -- No rule pads the size of a block to more than this.
    let _ ← word? (roundUp stop wideAlignment)
    return (⟨offset, size, arraySize, arrayStride, value.columnStride⟩,
      { block with cursor := stop, alignment := max block.alignment alignment })

/-- The size of the block so far, padded to its alignment; an empty block has none. -/
def size (block : Block) : Nat :=
  if block.cursor = 0 then 0
  else
    let alignment :=
      match block.rule with
      | .std140 => max block.alignment wideAlignment
      | .std430 => block.alignment
    (word? (roundUp block.cursor alignment)).getD block.cursor

@[simp] theorem size_empty (rule : Packing) : (empty rule).size = 0 := rfl

/-! ## 4. Placing a member -/

/-- The furthest end of a block that can be addressed with 32 bits after it has been padded. -/
def limit : Nat := addressBound - wideAlignment

theorem word?_of_lt {n : Nat} (h : n < addressBound) : word? n = some n :=
  if_pos h

theorem bind_word?_of_lt {α : Type} {n : Nat} (h : n < addressBound) (f : Nat → Option α) :
    (word? n >>= f) = f n := by
  rw [word?_of_lt h]
  rfl

theorem bind_word?_of_le {α : Type} {n : Nat} (h : addressBound ≤ n) (f : Nat → Option α) :
    (word? n >>= f) = none := by
  rw [word?, if_neg (Nat.not_lt.mpr h)]
  rfl

theorem roundUp_lt_addressBound_iff (stop : Nat) :
    roundUp stop wideAlignment < addressBound ↔ stop ≤ limit := by
  have hwide : 0 < wideAlignment := by decide
  constructor
  · intro h
    obtain ⟨k, hk⟩ := dvd_roundUp stop wideAlignment
    have hle := le_roundUp stop hwide
    simp only [limit, addressBound, wideAlignment] at *
    omega
  · intro h
    exact Nat.lt_of_le_of_lt (roundUp_le_of_dvd hwide h (by decide)) (by decide)

/-- Of the steps that find the end of a member and pad it, all fit if the end is in reach. -/
theorem bind_words_eq {α : Type} (offset size : Nat) (f : Nat → Nat → α) :
    (do
      let offset ← word? offset
      let stop ← word? (offset + size)
      let _ ← word? (roundUp stop wideAlignment)
      return f offset stop) =
      if offset + size ≤ limit then some (f offset (offset + size)) else none := by
  have hlimit : limit < addressBound := by decide
  split
  next hfits =>
    have hpadded := (roundUp_lt_addressBound_iff (offset + size)).mpr hfits
    rw [bind_word?_of_lt (by omega), bind_word?_of_lt (by omega), bind_word?_of_lt hpadded]
    rfl
  next hfar =>
    -- Whichever step is the first not to fit, the others do not matter.
    have hpadded := mt (roundUp_lt_addressBound_iff (offset + size)).mp hfar
    by_cases hoffset : offset < addressBound
    · rw [bind_word?_of_lt hoffset]
      by_cases hstop : offset + size < addressBound
      · rw [bind_word?_of_lt hstop, bind_word?_of_le (Nat.not_lt.mp hpadded)]
      · rw [bind_word?_of_le (Nat.not_lt.mp hstop)]
    · rw [bind_word?_of_le (Nat.not_lt.mp hoffset)]

/-- Every value has an alignment of one, two or four scalars. -/
theorem alignment_of_valueShape? {rule : Packing} {type : DataType} {value : ValueShape}
    (h : rule.valueShape? type = some value) :
    value.alignment = 4 ∨ value.alignment = 8 ∨ value.alignment = 16 := by
  cases rule <;> cases type <;> simp [Packing.valueShape?, DataType.shape?] at h <;> subst h <;>
    decide

/-- No value takes more than a matrix of four columns. -/
theorem size_le_of_valueShape? {rule : Packing} {type : DataType} {value : ValueShape}
    (h : rule.valueShape? type = some value) : value.size ≤ 64 := by
  cases rule <;> cases type <;> simp [Packing.valueShape?, DataType.shape?] at h <;> subst h <;>
    decide

/-- Where a member goes if nothing limits its place. -/
def place (block : Block) (value : ValueShape) (count : Option Nat) : Placement :=
  let alignment := memberAlignment block.rule value count
  let offset := roundUp block.cursor alignment
  match count with
  | some n =>
    let stride := roundUp value.size alignment
    ⟨offset, stride * n, n, stride, value.columnStride⟩
  | none => ⟨offset, value.size, 1, 0, value.columnStride⟩

theorem memberAlignment_dvd {rule : Packing} {type : DataType} {value : ValueShape}
    (h : rule.valueShape? type = some value) (count : Option Nat) :
    memberAlignment rule value count ∣ wideAlignment := by
  have halignment : value.alignment ∣ wideAlignment := by
    rcases alignment_of_valueShape? h with h | h | h <;> rw [h] <;> decide
  cases count with
  | none => exact halignment
  | some n =>
    cases rule with
    | std140 =>
      have hle := Nat.le_of_dvd (by decide) halignment
      have hwide : max value.alignment wideAlignment = wideAlignment := Nat.max_eq_right hle
      exact hwide ▸ Nat.dvd_refl _
    | std430 => exact halignment

/-- The distance of the elements of an array always fits. -/
theorem extent?_some {rule : Packing} {type : DataType} {value : ValueShape}
    (h : rule.valueShape? type = some value) {alignment : Nat}
    (halignment : alignment ∣ wideAlignment) (n : Nat) :
    extent? value alignment (some n) =
      (word? (roundUp value.size alignment * n) >>= fun size =>
        some (size, n, roundUp value.size alignment)) := by
  have hpos : 0 < alignment := Nat.pos_of_dvd_of_pos halignment (by decide)
  have hstride : roundUp value.size alignment < addressBound := by
    have hlt := roundUp_lt_add value.size hpos
    have hle := Nat.le_of_dvd (by decide) halignment
    have hsize := size_le_of_valueShape? h
    simp only [addressBound, wideAlignment] at *
    omega
  rw [extent?, bind_word?_of_lt hstride]
  rfl

theorem push_of_valueShape?_eq_none {block : Block} {type : DataType}
    (h : block.rule.valueShape? type = none) (count : Option Nat) :
    block.push type count = some (⟨block.cursor, 0, 0, 0, 0⟩, block) := by
  rw [push, h]

/-- A member is refused just if its end would lie past the limit of the block. -/
theorem push_of_valueShape? {block : Block} {type : DataType} {value : ValueShape}
    (h : block.rule.valueShape? type = some value) (count : Option Nat) :
    block.push type count =
      if (block.place value count).stop ≤ limit then
        some (block.place value count,
          { block with
            cursor := (block.place value count).stop
            alignment := max block.alignment (memberAlignment block.rule value count) })
      else none := by
  rw [push, h]
  cases count with
  | none => exact bind_words_eq _ _ _
  | some n =>
    have halignment := memberAlignment_dvd h (some n)
    dsimp only
    rw [extent?_some h halignment]
    by_cases hsize :
        roundUp value.size (memberAlignment block.rule value (some n)) * n < addressBound
    · rw [bind_word?_of_lt hsize]
      exact bind_words_eq _ _ _
    · -- An array that is too long alone ends too far out wherever it starts.
      have hfar : ¬ (block.place value (some n)).stop ≤ limit := by
        have hlimit : limit < addressBound := by decide
        simp only [Placement.stop, place]
        omega
      rw [bind_word?_of_le (Nat.not_lt.mp hsize), if_neg hfar]
      rfl

/-- A member starts at a multiple of its alignment. -/
theorem alignment_dvd_offset (block : Block) (value : ValueShape) (count : Option Nat) :
    memberAlignment block.rule value count ∣ (block.place value count).offset := by
  cases count <;> exact dvd_roundUp _ _

/-- A member does not start before the end of the block so far. -/
theorem cursor_le_offset (block : Block) {value : ValueShape} {count : Option Nat}
    (h : 0 < memberAlignment block.rule value count) :
    block.cursor ≤ (block.place value count).offset := by
  cases count <;> exact le_roundUp _ h

end Block

end ShaderVariants
