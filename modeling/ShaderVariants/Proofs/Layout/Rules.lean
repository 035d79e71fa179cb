import Mathlib.Data.List.Induction
import Mathlib.Data.List.ReduceOption
import Mathlib.Order.Bounds.Basic
import ShaderVariants.Proofs.Layout.Growth

/-!
# Layout by the rules

The packing rules in unbounded arithmetic: a member is a column of scalars or an array of shapes, it
starts at the least multiple of its base alignment that lies behind the member before it, and the
block is padded to the largest alignment in it.  Filling a block with members, of which some may be
refused, places the accepted ones as the rules say, and none of its steps leaves 32 bits
(`Block.fill_agrees`).
-/

namespace ShaderVariants

/-! ## 1. Shapes -/

/-- What values are made of: a column of scalars, or elements of one shape. -/
inductive Shape where
  | vector (components : Nat)
  | array (element : Shape) (count : Nat)
  deriving Repr, DecidableEq

/-- The shape of the values of a numeric type; a matrix is an array of its columns. -/
def DataType.value? (type : DataType) : Option Shape :=
  type.shape?.map fun (columns, rows) =>
    if columns = 1 then .vector rows else .array (.vector rows) columns

/-- A member of a block: its type, and the number of its elements if it is an array. -/
structure Entry where
  type : DataType
  count : Option Nat
  deriving Repr, DecidableEq

namespace Packing

/-- `std140` rounds the alignment of elements up to that of a vector of four. -/
def widen (rule : Packing) (alignment : Nat) : Nat :=
  match rule with
  | .std140 => roundUp alignment wideAlignment
  | .std430 => alignment

/-- Columns of three scalars are aligned like those of four. -/
def baseAlignment (rule : Packing) : Shape → Nat
  | .vector components => if components = 1 then 4 else if components = 2 then 8 else 16
  | .array element _ => rule.widen (rule.baseAlignment element)

/-- The bytes of a shape; the elements of an array lie a multiple of its alignment apart. -/
def byteSize (rule : Packing) : Shape → Nat
  | .vector components => components * scalarSize
  | .array element count =>
    roundUp (rule.byteSize element) (rule.widen (rule.baseAlignment element)) * count

/-- The distance between the elements of an array, `0` for a shape that is none. -/
def stride (rule : Packing) : Shape → Nat
  | .vector _ => 0
  | .array element _ => roundUp (rule.byteSize element) (rule.widen (rule.baseAlignment element))

/-! ## 2. Members one after the other -/

/-- The alignment of a member; a type that is not numeric asks for none. -/
def alignment (rule : Packing) (entry : Entry) : Nat :=
  match entry.type.value?, entry.count with
  | none, _ => 1
  | some value, none => rule.baseAlignment value
  | some value, some n => rule.baseAlignment (.array value n)

/-- Where a member goes if everything before `free` is taken. -/
def place (rule : Packing) (free : Nat) (entry : Entry) : Placement :=
  match entry.type.value?, entry.count with
  | none, _ => ⟨free, 0, 0, 0, 0⟩
  | some value, none =>
    ⟨roundUp free (rule.baseAlignment value), rule.byteSize value, 1, 0, rule.stride value⟩
  | some value, some n =>
    let array := Shape.array value n
    ⟨roundUp free (rule.baseAlignment array), rule.byteSize array, n, rule.stride array,
      rule.stride value⟩

def placesFrom (rule : Packing) (free : Nat) : List Entry → List Placement
  | [] => []
  | entry :: rest => rule.place free entry :: rule.placesFrom (rule.place free entry).stop rest

/-- The first byte behind members of which the first finds everything before `free` taken. -/
def stopFrom (rule : Packing) (free : Nat) : List Entry → Nat
  | [] => free
  | entry :: rest => rule.stopFrom (rule.place free entry).stop rest

/-- The places of the members of a block. -/
def places (rule : Packing) (entries : List Entry) : List Placement :=
  rule.placesFrom 0 entries

/-- The end of the last member of a block. -/
def stop (rule : Packing) (entries : List Entry) : Nat :=
  rule.stopFrom 0 entries

def largestAlignment (rule : Packing) (entries : List Entry) : Nat :=
  (entries.map rule.alignment).foldl max 1

/-- The alignment of a block: the largest one in it, for `std140` at least that of a vector of
four. -/
def blockAlignment (rule : Packing) (entries : List Entry) : Nat :=
  match rule with
  | .std140 => max (rule.largestAlignment entries) wideAlignment
  | .std430 => rule.largestAlignment entries

/-- The size of a block: the end of its last member, rounded up to the alignment of the block. -/
def size (rule : Packing) (entries : List Entry) : Nat :=
  roundUp (rule.stop entries) (rule.blockAlignment entries)

variable {rule : Packing} {entry : Entry} {entries : List Entry}

theorem stopFrom_append (free : Nat) (entries more : List Entry) :
    rule.stopFrom free (entries ++ more) = rule.stopFrom (rule.stopFrom free entries) more := by
  induction entries generalizing free with
  | nil => rfl
  | cons entry rest ih => exact ih (rule.place free entry).stop

theorem stop_concat (rule : Packing) (entries : List Entry) (entry : Entry) :
    rule.stop (entries ++ [entry]) = (rule.place (rule.stop entries) entry).stop :=
  stopFrom_append 0 entries [entry]

theorem largestAlignment_concat (rule : Packing) (entries : List Entry) (entry : Entry) :
    rule.largestAlignment (entries ++ [entry]) =
      max (rule.largestAlignment entries) (rule.alignment entry) := by
  simp [largestAlignment]

/-! ## 3. Alignments -/

theorem widen_of_dvd {alignment : Nat} (h : alignment ∣ wideAlignment) :
    Packing.std140.widen alignment = wideAlignment := by
  have hpos : 0 < alignment := Nat.pos_of_dvd_of_pos h (by decide)
  have hle : alignment ≤ wideAlignment := Nat.le_of_dvd (by decide) h
  apply Nat.le_antisymm
  · exact roundUp_le_of_dvd (by decide) hle (Nat.dvd_refl _)
  · show wideAlignment ≤ roundUp alignment wideAlignment
    exact Nat.le_of_dvd (Nat.lt_of_lt_of_le hpos (le_roundUp _ (by decide))) (dvd_roundUp _ _)

theorem baseAlignment_dvd (rule : Packing) (shape : Shape) :
    rule.baseAlignment shape ∣ wideAlignment := by
  induction shape with
  | vector components =>
    unfold baseAlignment
    split
    · decide
    · split <;> decide
  | array element count ih =>
    cases rule with
    | std140 => exact widen_of_dvd ih ▸ Nat.dvd_refl _
    | std430 => exact ih

theorem baseAlignment_pos (rule : Packing) (shape : Shape) : 0 < rule.baseAlignment shape :=
  Nat.pos_of_dvd_of_pos (baseAlignment_dvd rule shape) (by decide)

theorem alignment_dvd (rule : Packing) (entry : Entry) : rule.alignment entry ∣ wideAlignment := by
  unfold alignment
  split
  · exact Nat.one_dvd _
  · exact baseAlignment_dvd _ _
  · exact baseAlignment_dvd _ _

theorem alignment_pos (rule : Packing) (entry : Entry) : 0 < rule.alignment entry :=
  Nat.pos_of_dvd_of_pos (alignment_dvd rule entry) (by decide)

theorem largestAlignment_dvd (rule : Packing) (entries : List Entry) :
    rule.largestAlignment entries ∣ wideAlignment := by
  induction entries using List.reverseRecOn with
  | nil => exact Nat.one_dvd _
  | append_singleton entries entry ih =>
    rw [largestAlignment_concat]
    obtain h | h := Nat.le_total (rule.largestAlignment entries) (rule.alignment entry)
    · rw [Nat.max_eq_right h]
      exact alignment_dvd rule entry
    · rw [Nat.max_eq_left h]
      exact ih

theorem largestAlignment_pos (rule : Packing) (entries : List Entry) :
    0 < rule.largestAlignment entries :=
  Nat.pos_of_dvd_of_pos (largestAlignment_dvd rule entries) (by decide)

theorem blockAlignment_std140 (entries : List Entry) :
    Packing.std140.blockAlignment entries = wideAlignment :=
  Nat.max_eq_right (Nat.le_of_dvd (by decide) (largestAlignment_dvd .std140 entries))

theorem blockAlignment_dvd (rule : Packing) (entries : List Entry) :
    rule.blockAlignment entries ∣ wideAlignment := by
  cases rule with
  | std140 => exact (blockAlignment_std140 entries).symm ▸ Nat.dvd_refl wideAlignment
  | std430 => exact largestAlignment_dvd .std430 entries

theorem blockAlignment_pos (rule : Packing) (entries : List Entry) :
    0 < rule.blockAlignment entries :=
  Nat.pos_of_dvd_of_pos (blockAlignment_dvd rule entries) (by decide)

theorem offset_place (rule : Packing) (free : Nat) (entry : Entry) :
    (rule.place free entry).offset = roundUp free (rule.alignment entry) := by
  unfold place alignment
  cases entry.type.value? with
  | none =>
    show free = roundUp free 1
    simp [roundUp]
  | some value => cases entry.count <;> rfl

/-- A member starts at the first place behind the members before it that its alignment allows. -/
theorem isLeast_offset_place (rule : Packing) (free : Nat) (entry : Entry) :
    IsLeast {n | rule.alignment entry ∣ n ∧ free ≤ n} (rule.place free entry).offset := by
  have hpos := alignment_pos rule entry
  rw [offset_place]
  refine ⟨⟨dvd_roundUp _ _, le_roundUp _ hpos⟩, ?_⟩
  rintro n ⟨hdvd, hle⟩
  exact roundUp_le_of_dvd hpos hle hdvd

/-! ## 4. Order -/

theorem le_stop_place (rule : Packing) (free : Nat) (entry : Entry) :
    free ≤ (rule.place free entry).stop := by
  have hoffset := (isLeast_offset_place rule free entry).1.2
  unfold Placement.stop
  omega

theorem le_stopFrom (rule : Packing) (free : Nat) (entries : List Entry) :
    free ≤ rule.stopFrom free entries := by
  induction entries generalizing free with
  | nil => exact Nat.le_refl _
  | cons entry rest ih => exact Nat.le_trans (le_stop_place rule free entry) (ih _)

/-- More members end no earlier. -/
theorem stop_le_stop_append (rule : Packing) (entries more : List Entry) :
    rule.stop entries ≤ rule.stop (entries ++ more) := by
  rw [stop, stop, stopFrom_append]
  exact le_stopFrom rule _ more

theorem bounds_of_mem_placesFrom {free : Nat} {placement : Placement}
    (h : placement ∈ rule.placesFrom free entries) :
    free ≤ placement.offset ∧ placement.stop ≤ rule.stopFrom free entries := by
  induction entries generalizing free with
  | nil => cases h
  | cons entry rest ih =>
    rw [placesFrom, List.mem_cons] at h
    obtain rfl | h := h
    · exact ⟨(isLeast_offset_place rule free entry).1.2, le_stopFrom rule _ rest⟩
    · exact ⟨Nat.le_trans (le_stop_place rule free entry) (ih h).1, (ih h).2⟩

/-- Members lie one behind the other. -/
theorem pairwise_placesFrom (rule : Packing) (free : Nat) (entries : List Entry) :
    (rule.placesFrom free entries).Pairwise fun placement later =>
      placement.stop ≤ later.offset := by
  induction entries generalizing free with
  | nil => exact List.Pairwise.nil
  | cons entry rest ih =>
    exact List.Pairwise.cons (fun later h => (bounds_of_mem_placesFrom h).1) (ih _)

theorem forall₂_dvd_placesFrom (rule : Packing) (free : Nat) (entries : List Entry) :
    List.Forall₂ (fun entry placement => rule.alignment entry ∣ placement.offset) entries
      (rule.placesFrom free entries) := by
  induction entries generalizing free with
  | nil => exact List.Forall₂.nil
  | cons entry rest ih =>
    exact List.Forall₂.cons (isLeast_offset_place rule free entry).1.1 (ih _)

theorem stop_le_size (rule : Packing) (entries : List Entry) :
    rule.stop entries ≤ rule.size entries :=
  le_roundUp _ (blockAlignment_pos rule entries)

theorem size_of_stop_eq_zero (h : rule.stop entries = 0) : rule.size entries = 0 := by
  have hle : rule.size entries ≤ 0 :=
    roundUp_le_of_dvd (blockAlignment_pos rule entries) (Nat.le_of_eq h) (Nat.dvd_zero _)
  exact Nat.eq_zero_of_le_zero hle

/-- Padding a block by its own alignment does not lead past the limit, which is a multiple of every
alignment. -/
theorem size_le_limit_iff (rule : Packing) (entries : List Entry) :
    rule.size entries ≤ Block.limit ↔ rule.stop entries ≤ Block.limit := by
  constructor
  · exact Nat.le_trans (stop_le_size rule entries)
  · intro h
    have hlimit : wideAlignment ∣ Block.limit := by decide
    exact roundUp_le_of_dvd (blockAlignment_pos rule entries) h
      (Nat.dvd_trans (blockAlignment_dvd rule entries) hlimit)

/-! ## 5. Values -/

/-- A block shapes values as the rules do. -/
theorem valueShape?_eq (rule : Packing) (type : DataType) :
    rule.valueShape? type = type.value?.map fun value =>
      ⟨rule.byteSize value, rule.baseAlignment value, rule.stride value⟩ := by
  cases rule <;> cases type <;> decide

variable {type : DataType} {value : Shape}

theorem bounds_of_value? (rule : Packing) (h : type.value? = some value) :
    scalarSize ≤ rule.baseAlignment value ∧ scalarSize ≤ rule.byteSize value ∧
      rule.byteSize value ≤ 64 ∧ rule.stride value ≤ wideAlignment := by
  cases rule <;> cases type <;> simp [DataType.value?, DataType.shape?] at h <;> subst h <;> decide

/-- No distance between elements is larger than the largest value, rounded up. -/
theorem bounds_place (rule : Packing) (free : Nat) (entry : Entry) :
    (rule.place free entry).arraySize ≤ max 1 (rule.place free entry).size ∧
      (rule.place free entry).arrayStride ≤ 80 ∧
      (rule.place free entry).matrixStride ≤ wideAlignment := by
  unfold place
  cases htype : entry.type.value? with
  | none => exact ⟨Nat.zero_le _, Nat.zero_le _, Nat.zero_le _⟩
  | some value =>
    obtain ⟨-, hfull, hsmall, hcolumns⟩ := bounds_of_value? rule htype
    cases entry.count with
    | none => exact ⟨Nat.le_max_left _ _, Nat.zero_le _, hcolumns⟩
    | some n =>
      have hpos : 0 < rule.widen (rule.baseAlignment value) :=
        baseAlignment_pos rule (.array value n)
      have hwide : rule.widen (rule.baseAlignment value) ≤ wideAlignment :=
        Nat.le_of_dvd (by decide) (baseAlignment_dvd rule (.array value n))
      have hlow := le_roundUp (rule.byteSize value) hpos
      have hhigh := roundUp_lt_add (rule.byteSize value) hpos
      refine ⟨Nat.le_trans ?_ (Nat.le_max_right _ _), ?_, hcolumns⟩
      · show n ≤ roundUp _ _ * n
        exact Nat.le_mul_of_pos_left n (by simp only [scalarSize] at hfull; omega)
      · show roundUp _ _ ≤ 80
        simp only [wideAlignment] at hwide
        omega

theorem le_widen (rule : Packing) (alignment : Nat) : alignment ≤ rule.widen alignment := by
  cases rule with
  | std140 => exact le_roundUp _ (by decide)
  | std430 => exact Nat.le_refl _

theorem scalarSize_le_alignment (rule : Packing) (h : type.value? = some value)
    (count : Option Nat) : scalarSize ≤ rule.alignment ⟨type, count⟩ := by
  have hvalue := (bounds_of_value? rule h).1
  unfold alignment
  rw [h]
  cases count with
  | none => exact hvalue
  | some n => exact Nat.le_trans hvalue (le_widen rule _)

/-- A block that takes any space holds a member of a numeric type. -/
theorem scalarSize_le_largestAlignment (h : rule.stop entries ≠ 0) :
    scalarSize ≤ rule.largestAlignment entries := by
  induction entries using List.reverseRecOn with
  | nil => exact absurd rfl h
  | append_singleton entries entry ih =>
    rw [largestAlignment_concat]
    cases htype : entry.type.value? with
    | none =>
      have hplace : (rule.place (rule.stop entries) entry).stop = rule.stop entries := by
        rw [place, htype]
        rfl
      rw [stop_concat, hplace] at h
      exact Nat.le_trans (ih h) (Nat.le_max_left _ _)
    | some value =>
      exact Nat.le_trans (scalarSize_le_alignment rule htype entry.count) (Nat.le_max_right _ _)

end Packing

namespace Block

variable {block : Block} {rule : Packing} {entries : List Entry}

theorem memberAlignment_eq {type : DataType} {value : Shape} (rule : Packing)
    (h : type.value? = some value) (count : Option Nat) :
    memberAlignment rule ⟨rule.byteSize value, rule.baseAlignment value, rule.stride value⟩ count =
      rule.alignment ⟨type, count⟩ := by
  unfold Packing.alignment
  rw [h]
  cases count with
  | none => rfl
  | some n =>
    cases rule with
    | std140 =>
      have hdvd := Packing.baseAlignment_dvd .std140 value
      show max _ wideAlignment = Packing.std140.widen _
      rw [Packing.widen_of_dvd hdvd]
      exact Nat.max_eq_right (Nat.le_of_dvd (by decide) hdvd)
    | std430 => rfl

theorem place_eq {type : DataType} {value : Shape} (block : Block) (h : type.value? = some value)
    (count : Option Nat) :
    block.place ⟨block.rule.byteSize value, block.rule.baseAlignment value,
        block.rule.stride value⟩ count =
      block.rule.place block.cursor ⟨type, count⟩ := by
  have halignment := memberAlignment_eq block.rule h count
  unfold place Packing.place
  rw [halignment]
  unfold Packing.alignment
  rw [h]
  cases count <;> rfl

/-! ## 6. What a block holds -/

/-- A block under construction that holds exactly the given members. -/
structure Holds (block : Block) (rule : Packing) (entries : List Entry) : Prop where
  rule_eq : block.rule = rule
  cursor_eq : block.cursor = rule.stop entries
  alignment_eq : block.alignment = max scalarSize (rule.largestAlignment entries)
  inReach : rule.stop entries ≤ limit

theorem holds_empty (rule : Packing) : (empty rule).Holds rule [] where
  rule_eq := rfl
  cursor_eq := rfl
  alignment_eq := rfl
  inReach := Nat.zero_le _

namespace Holds

theorem unique {other : Block} (h : block.Holds rule entries) (hother : other.Holds rule entries) :
    block = other := by
  cases block
  cases other
  simp only [mk.injEq]
  exact ⟨h.rule_eq.trans hother.rule_eq.symm, h.cursor_eq.trans hother.cursor_eq.symm,
    h.alignment_eq.trans hother.alignment_eq.symm⟩

/-- A member is refused if it would end too far out, and placed by the rules otherwise. -/
theorem push (h : block.Holds rule entries) (entry : Entry) :
    (limit < rule.stop (entries ++ [entry]) ∧ block.push entry.type entry.count = none) ∨
    ∃ next, block.push entry.type entry.count = some (rule.place (rule.stop entries) entry, next) ∧
      next.Holds rule (entries ++ [entry]) := by
  obtain ⟨type, count⟩ := entry
  obtain rfl := h.rule_eq
  have hlargest := Packing.largestAlignment_concat block.rule entries ⟨type, count⟩
  have hstop := Packing.stop_concat block.rule entries ⟨type, count⟩
  have hvalue := Packing.valueShape?_eq block.rule type
  cases htype : type.value? with
  | none =>
    rw [htype] at hvalue
    -- Such a member leaves the block as it is, and its alignment is that of nothing.
    have hplace : block.rule.place (block.rule.stop entries) ⟨type, count⟩ =
        ⟨block.cursor, 0, 0, 0, 0⟩ := by
      rw [h.cursor_eq, Packing.place, htype]
    have halignment : block.rule.alignment ⟨type, count⟩ = 1 := by
      rw [Packing.alignment, htype]
    refine Or.inr ⟨block, ?_, rfl, ?_, ?_, ?_⟩
    · rw [push_of_valueShape?_eq_none hvalue, hplace]
    · rw [hstop, hplace]
      rfl
    · have hpos := Packing.largestAlignment_pos block.rule entries
      rw [h.alignment_eq, hlargest, halignment, Nat.max_eq_left hpos]
    · rw [hstop, hplace]
      show block.cursor ≤ limit
      rw [h.cursor_eq]
      exact h.inReach
  | some value =>
    rw [htype] at hvalue
    -- What is left of the steps of the push is a test of the end, which is the one of the rules.
    rw [push_of_valueShape? hvalue, place_eq block htype, memberAlignment_eq block.rule htype,
      h.cursor_eq, ← hstop]
    by_cases hreach : block.rule.stop (entries ++ [⟨type, count⟩]) ≤ limit
    · rw [if_pos hreach]
      refine Or.inr ⟨_, rfl, rfl, rfl, ?_, hreach⟩
      show max block.alignment _ = _
      rw [h.alignment_eq, hlargest, Nat.max_assoc]
    · exact Or.inl ⟨Nat.lt_of_not_le hreach, if_neg hreach⟩

/-- The size of a block is what the rules say, and never the end of a block that is left
unpadded. -/
theorem size_eq (h : block.Holds rule entries) : block.size = rule.size entries := by
  obtain rfl := h.rule_eq
  unfold Block.size
  rw [h.cursor_eq, h.alignment_eq]
  by_cases hstop : block.rule.stop entries = 0
  · rw [if_pos hstop, Packing.size_of_stop_eq_zero hstop]
  · -- A block starts with the alignment of a scalar, which its first member of any size has anyway.
    have hlargest := Packing.scalarSize_le_largestAlignment hstop
    have hsize : block.rule.size entries < addressBound :=
      Nat.lt_of_le_of_lt ((Packing.size_le_limit_iff _ _).mpr h.inReach) (by decide)
    rw [if_neg hstop, Nat.max_eq_right hlargest]
    show (word? (block.rule.size entries)).getD _ = _
    rw [word?_of_lt hsize]
    rfl

end Holds

/-! ## 7. Filling a block -/

/-- Pushes members one after the other; a refused one leaves the block as it is.  Returns the block
and what became of each member. -/
def fill (block : Block) : List Entry → Block × List (Option Placement)
  | [] => (block, [])
  | entry :: rest =>
    match block.push entry.type entry.count with
    | none => ((block.fill rest).1, none :: (block.fill rest).2)
    | some (placement, next) => ((next.fill rest).1, some placement :: (next.fill rest).2)

/-- The members that have been given a place. -/
def accepted (entries : List Entry) (results : List (Option Placement)) : List Entry :=
  (entries.zip results).filterMap fun (entry, placement) => placement.map fun _ => entry

theorem accepted_map_some {places : List Placement} (h : entries.length = places.length) :
    accepted entries (places.map some) = entries := by
  induction entries generalizing places with
  | nil => rfl
  | cons entry rest ih =>
    obtain ⟨placement, others, rfl⟩ := List.exists_cons_of_length_eq_add_one h.symm
    exact congrArg (entry :: ·) (ih (Nat.succ.inj h))

/-- Whatever is pushed, a block holds the members that it accepted, where the rules put them. -/
theorem Holds.fill {before : List Entry} (h : block.Holds rule before) (entries : List Entry) :
    (block.fill entries).2.length = entries.length ∧
      (block.fill entries).1.Holds rule (before ++ accepted entries (block.fill entries).2) ∧
      (block.fill entries).2.reduceOption =
        rule.placesFrom (rule.stop before) (accepted entries (block.fill entries).2) := by
  -- A refused member changes neither the block nor what it holds, so the rest is as without it.
  induction entries generalizing block before with
  | nil =>
    refine ⟨rfl, ?_, rfl⟩
    show block.Holds rule (before ++ [])
    rw [List.append_nil]
    exact h
  | cons entry rest ih =>
    obtain ⟨-, hpush⟩ | ⟨next, hpush, hnext⟩ := h.push entry
    · obtain ⟨hlength, hholds, hplaces⟩ := ih h
      rw [Block.fill, hpush]
      exact ⟨congrArg (· + 1) hlength, hholds, hplaces⟩
    · obtain ⟨hlength, hholds, hplaces⟩ := ih hnext
      rw [Block.fill, hpush]
      rw [List.append_assoc] at hholds
      rw [Packing.stop_concat] at hplaces
      exact ⟨congrArg (· + 1) hlength, hholds, congrArg (_ :: ·) hplaces⟩

/-- Members that end within reach are all accepted. -/
theorem Holds.fill_of_inReach {before : List Entry} (h : block.Holds rule before)
    (hreach : rule.stop (before ++ entries) ≤ limit) :
    ∃ last, block.fill entries =
        (last, (rule.placesFrom (rule.stop before) entries).map some) ∧
      last.Holds rule (before ++ entries) := by
  induction entries generalizing block before with
  | nil => exact ⟨block, rfl, by rwa [List.append_nil]⟩
  | cons entry rest ih =>
    have hassoc : before ++ entry :: rest = before ++ [entry] ++ rest := by simp
    rw [hassoc] at hreach ⊢
    obtain ⟨hfar, -⟩ | ⟨next, hpush, hnext⟩ := h.push entry
    · have hle := Packing.stop_le_stop_append rule (before ++ [entry]) rest
      omega
    · obtain ⟨last, hfill, hlast⟩ := ih hnext hreach
      refine ⟨last, ?_, hlast⟩
      rw [Packing.stop_concat] at hfill
      rw [Block.fill, hpush]
      simp only [hfill, Packing.placesFrom, List.map_cons]

/-- Members are all accepted just if they end within reach. -/
theorem fill_empty_eq_iff {last : Block} {places : List Placement} :
    (empty rule).fill entries = (last, places.map some) ↔
      last.Holds rule entries ∧ places = rule.places entries := by
  constructor
  · intro h
    obtain ⟨hlength, hholds, hplaces⟩ := (holds_empty rule).fill entries
    rw [h] at hlength hholds hplaces
    have haccepted : accepted entries (places.map some) = entries :=
      accepted_map_some (by simpa using hlength.symm)
    rw [haccepted] at hholds hplaces
    have hall : (places.map some).reduceOption = places := by simp [List.reduceOption]
    rw [hall] at hplaces
    exact ⟨hholds, hplaces⟩
  · rintro ⟨hholds, rfl⟩
    obtain ⟨other, hfill, hother⟩ := (holds_empty rule).fill_of_inReach hholds.inReach
    rw [hholds.unique hother]
    exact hfill

/-- No member is refused just if all of them end within reach. -/
theorem fill_empty_snd_eq_iff :
    ((empty rule).fill entries).2 = (rule.places entries).map some ↔
      rule.stop entries ≤ limit := by
  constructor
  · intro h
    exact (fill_empty_eq_iff.mp (Prod.ext rfl h)).1.inReach
  · intro hreach
    obtain ⟨last, hfill, -⟩ := (holds_empty rule).fill_of_inReach hreach
    exact congrArg Prod.snd hfill

end Block

/-! ## 8. The rules are kept -/

/-- What placing a member computes, up to the end of the block padded to a vector of four. -/
def Placement.numbers (placement : Placement) : List Nat :=
  [placement.offset, placement.size, placement.arraySize, placement.arrayStride,
    placement.matrixStride, placement.stop, roundUp placement.stop wideAlignment]

namespace Packing

variable {rule : Packing} {entries : List Entry}

theorem exists_of_mem_placesFrom {free : Nat} {placement : Placement}
    (h : placement ∈ rule.placesFrom free entries) :
    ∃ before entry, placement = rule.place before entry := by
  induction entries generalizing free with
  | nil => cases h
  | cons entry rest ih =>
    obtain rfl | h := List.mem_cons.mp h
    · exact ⟨free, entry, rfl⟩
    · exact ih h

/-- Where a block ends within reach, nothing that its members compute leaves 32 bits. -/
theorem numbers_lt_of_mem_places (hreach : rule.stop entries ≤ Block.limit) {placement : Placement}
    (h : placement ∈ rule.places entries) : ∀ n ∈ placement.numbers, n < Block.addressBound := by
  have hstop := Nat.le_trans (bounds_of_mem_placesFrom h).2 hreach
  have hpadded := (Block.roundUp_lt_addressBound_iff placement.stop).mpr hstop
  -- The offset and the size are parts of the end, and the size bounds the number of elements.
  have hsum : placement.stop = placement.offset + placement.size := rfl
  obtain ⟨before, entry, rfl⟩ := exists_of_mem_placesFrom h
  obtain ⟨harray, hstride, hcolumns⟩ := bounds_place rule before entry
  simp only [Placement.numbers, List.forall_mem_cons, List.not_mem_nil, false_implies,
    implies_true, and_true]
  simp only [Block.limit, Block.addressBound, wideAlignment] at *
  omega

/-- What a single value takes is far from leaving 32 bits. -/
theorem lt_addressBound_of_valueShape? {type : DataType} {value : ValueShape}
    (h : rule.valueShape? type = some value) :
    value.size < Block.addressBound ∧ value.alignment < Block.addressBound ∧
      value.columnStride < Block.addressBound := by
  rw [valueShape?_eq] at h
  obtain ⟨shape, hshape, rfl⟩ := Option.map_eq_some_iff.mp h
  obtain ⟨-, -, hsmall, hcolumns⟩ := bounds_of_value? rule hshape
  have halignment := Nat.le_of_dvd (by decide) (baseAlignment_dvd rule shape)
  simp only [Block.addressBound, wideAlignment] at *
  omega

/-- Members that lie in a block as they should: aligned, one behind the other, and inside it. -/
structure Packed (rule : Packing) (entries : List Entry) (places : List Placement) (size : Nat) :
    Prop where
  aligned : List.Forall₂ (fun entry placement => rule.alignment entry ∣ placement.offset) entries
    places
  apart : places.Pairwise fun placement later => placement.stop ≤ later.offset
  inside : ∀ placement ∈ places, placement.stop ≤ size

theorem packed_places (rule : Packing) (entries : List Entry) :
    rule.Packed entries (rule.places entries) (rule.size entries) where
  aligned := forall₂_dvd_placesFrom rule 0 entries
  apart := pairwise_placesFrom rule 0 entries
  inside := fun _ h =>
    Nat.le_trans (bounds_of_mem_placesFrom h).2 (stop_le_size rule entries)

end Packing

/-- Of any members that are pushed into an empty block, the accepted ones get the places that the
rules give to them alone, and the block the size; the refused ones leave no trace, and there are
none if all members together end within reach.  A member starts at the least multiple of its
alignment that lies behind the members before it.  So members are aligned, one behind the other and
inside the block, and no number leaves 32 bits, neither those that a place is made of nor those of a
single value. -/
theorem Block.fill_agrees (rule : Packing) (entries : List Entry) :
    let filled := (empty rule).fill entries
    let kept := accepted entries filled.2
    filled.2.length = entries.length ∧
    filled.2.reduceOption = rule.places kept ∧
    filled.1.size = rule.size kept ∧
    (empty rule).fill kept = (filled.1, (rule.places kept).map some) ∧
    (filled.2 = (rule.places entries).map some ↔ rule.stop entries ≤ limit) ∧
    rule.Packed kept (rule.places kept) filled.1.size ∧
    (∀ free entry,
      IsLeast {n | rule.alignment entry ∣ n ∧ free ≤ n} (rule.place free entry).offset) ∧
    (∀ placement ∈ rule.places kept, ∀ n ∈ placement.numbers, n < addressBound) ∧
    filled.1.size < addressBound ∧
    ∀ type value, rule.valueShape? type = some value →
      value.size < addressBound ∧ value.alignment < addressBound ∧
        value.columnStride < addressBound := by
  intro filled kept
  obtain ⟨hlength, hholds, hplaces⟩ := (holds_empty rule).fill entries
  rw [List.nil_append] at hholds
  have hsize : filled.1.size = rule.size kept := hholds.size_eq
  refine ⟨hlength, hplaces, hsize, fill_empty_eq_iff.mpr ⟨hholds, rfl⟩, fill_empty_snd_eq_iff, ?_,
    Packing.isLeast_offset_place rule, ?_, ?_, ?_⟩
  · rw [hsize]
    exact Packing.packed_places rule kept
  · intro placement hplacement
    exact Packing.numbers_lt_of_mem_places hholds.inReach hplacement
  · rw [hsize]
    exact Nat.lt_of_le_of_lt ((Packing.size_le_limit_iff rule kept).mpr hholds.inReach) (by decide)
  · intro type value hvalue
    exact Packing.lt_addressBound_of_valueShape? hvalue

/-- An array that is far too long is refused, and the next one is placed as if it were not there. -/
theorem Block.fill_agrees_oversized :
    (empty .std140).fill [⟨.f32, none⟩, ⟨.mat4, some 100000000⟩, ⟨.vec4, some 2⟩] =
        (⟨.std140, 48, 16⟩, [some ⟨0, 4, 1, 0, 0⟩, none, some ⟨16, 32, 2, 16, 0⟩]) ∧
      Packing.std140.Packed [⟨.f32, none⟩, ⟨.vec4, some 2⟩] [⟨0, 4, 1, 0, 0⟩, ⟨16, 32, 2, 16, 0⟩]
        48 ∧
      (∀ n ∈ (⟨16, 32, 2, 16, 0⟩ : Placement).numbers, n < addressBound) ∧
      Packing.std140.valueShape? .mat4 = some ⟨64, 16, 16⟩ ∧ 64 < addressBound ∧
        16 < addressBound := by
  have hfill : (empty .std140).fill [⟨.f32, none⟩, ⟨.mat4, some 100000000⟩, ⟨.vec4, some 2⟩] =
      (⟨.std140, 48, 16⟩, [some ⟨0, 4, 1, 0, 0⟩, none, some ⟨16, 32, 2, 16, 0⟩]) := by
    decide
  have hmatrix : Packing.std140.valueShape? .mat4 = some ⟨64, 16, 16⟩ := by decide
  obtain ⟨-, -, -, -, -, hpacked, -, hnumbers, -, hvalues⟩ :=
    fill_agrees .std140 [⟨.f32, none⟩, ⟨.mat4, some 100000000⟩, ⟨.vec4, some 2⟩]
  obtain ⟨hsize, halignment, -⟩ := hvalues .mat4 ⟨64, 16, 16⟩ hmatrix
  exact ⟨hfill, hpacked, hnumbers ⟨16, 32, 2, 16, 0⟩ (by decide), hmatrix, hsize, halignment⟩

end ShaderVariants
