import Mathlib.Data.Nat.Prime.Basic
import Mathlib.Order.MinMax
import ShaderVariants.Proofs.Layout.Rules

/-!
# Blocks side by side

Leaving members out of a block, giving fewer elements to its arrays, or packing it by `std430` in
place of `std140` moves no member that is left further out and makes the block no larger
(`Block.fill_revised`).  In particular `std430` is never worse than `std140`
(`Block.fill_std430_of_std140`).
-/

namespace ShaderVariants

/-! ## 1. Revisions -/

/-- The same member with no more elements. -/
inductive Entry.Lowers : Entry → Entry → Prop where
  | plain (type : DataType) : Lowers ⟨type, none⟩ ⟨type, none⟩
  | array (type : DataType) {few many : Nat} (h : few ≤ many) :
    Lowers ⟨type, some few⟩ ⟨type, some many⟩

theorem Entry.Lowers.refl (entry : Entry) : entry.Lowers entry := by
  obtain ⟨type, count⟩ := entry
  cases count with
  | none => exact .plain type
  | some n => exact .array type (Nat.le_refl n)

/-- A member of a block and what becomes of it: nothing if it is left out, and otherwise the same
with no more elements. -/
structure Revision where
  before : Entry
  after : Option Entry
  lowers : ∀ entry ∈ after, entry.Lowers before

namespace Revision

def unchanged (entry : Entry) : Revision where
  before := entry
  after := some entry
  lowers := by
    rintro _ ⟨⟩
    exact .refl entry

/-- Of what belongs to the members one by one, that of the members that are not left out. -/
def kept {α : Type} (revisions : List Revision) (items : List α) : List α :=
  (revisions.zip items).filterMap fun (revision, item) => revision.after.map fun _ => item

theorem kept_unchanged {α : Type} {entries : List Entry} {items : List α}
    (h : entries.length = items.length) : kept (entries.map unchanged) items = items := by
  induction entries generalizing items with
  | nil => exact (List.eq_nil_of_length_eq_zero h.symm).symm
  | cons entry rest ih =>
    obtain ⟨item, others, rfl⟩ := List.exists_cons_of_length_eq_add_one h.symm
    exact congrArg (item :: ·) (ih (Nat.succ.inj h))

theorem filterMap_after_unchanged (entries : List Entry) :
    (entries.map unchanged).filterMap after = entries := by
  rw [List.filterMap_map]
  exact List.filterMap_some

end Revision

/-! ## 2. One rule within another -/

/-- A place that is no further out and no larger than another. -/
structure Placement.Within (placement other : Placement) : Prop where
  offset : placement.offset ≤ other.offset
  size : placement.size ≤ other.size

/-- A rule that asks for no more space and no wider alignments than another. -/
def Packing.Within (rule other : Packing) : Prop :=
  rule = other ∨ other = .std140

namespace Packing

/-- The alignments are powers of two, so a smaller one divides a larger one. -/
theorem dvd_of_le_of_dvd_wideAlignment {a b : Nat} (ha : a ∣ wideAlignment)
    (hb : b ∣ wideAlignment) (h : a ≤ b) : a ∣ b := by
  obtain ⟨i, -, rfl⟩ := (Nat.dvd_prime_pow Nat.prime_two (m := 4)).mp ha
  obtain ⟨j, -, rfl⟩ := (Nat.dvd_prime_pow Nat.prime_two (m := 4)).mp hb
  exact Nat.pow_dvd_pow 2 ((Nat.pow_le_pow_iff_right (by decide)).mp h)

namespace Within

variable {rule other : Packing} {small large : Entry} {free taken : Nat}

theorem widen (h : rule.Within other) {a b : Nat} (hdvd : a ∣ b) (hb : b ∣ wideAlignment) :
    rule.widen a ∣ other.widen b := by
  have ha := Nat.dvd_trans hdvd hb
  obtain rfl | rfl := h
  · cases rule with
    | std140 => rw [widen_of_dvd ha, widen_of_dvd hb]
    | std430 => exact hdvd
  · rw [widen_of_dvd hb]
    cases rule with
    | std140 => rw [widen_of_dvd ha]
    | std430 => exact ha

theorem baseAlignment (h : rule.Within other) (shape : Shape) :
    rule.baseAlignment shape ∣ other.baseAlignment shape := by
  induction shape with
  | vector components => exact Nat.dvd_refl _
  | array element count ih => exact h.widen ih (baseAlignment_dvd other element)

theorem byteSize (h : rule.Within other) (shape : Shape) :
    rule.byteSize shape ≤ other.byteSize shape := by
  induction shape with
  | vector components => exact Nat.le_refl _
  | array element count ih =>
    -- Elements lie as far apart as the alignment of the array says.
    have hstride := roundUp_le_roundUp (baseAlignment_pos rule (.array element count))
      (baseAlignment_pos other (.array element count)) ih (h.baseAlignment (.array element count))
    exact Nat.mul_le_mul_right count hstride

theorem alignment (h : rule.Within other) (hlowers : small.Lowers large) :
    rule.alignment small ∣ other.alignment large := by
  cases hlowers with
  | plain type =>
    unfold Packing.alignment
    cases type.value? with
    | none => exact Nat.dvd_refl _
    | some value => exact h.baseAlignment value
  | array type hcount =>
    unfold Packing.alignment
    cases type.value? with
    | none => exact Nat.dvd_refl _
    -- The alignment of an array does not depend on the number of its elements.
    | some value => exact h.baseAlignment (.array value 0)

theorem size_place (h : rule.Within other) (hlowers : small.Lowers large) (free taken : Nat) :
    (rule.place free small).size ≤ (other.place taken large).size := by
  cases hlowers with
  | plain type =>
    unfold Packing.place
    cases type.value? with
    | none => exact Nat.le_refl _
    | some value => exact h.byteSize value
  | array type hcount =>
    unfold Packing.place
    cases type.value? with
    | none => exact Nat.le_refl _
    | some value =>
      have hfewer : ∀ few many, few ≤ many →
          rule.byteSize (.array value few) ≤ rule.byteSize (.array value many) :=
        fun few many hle => Nat.mul_le_mul_left _ hle
      exact Nat.le_trans (hfewer _ _ hcount) (h.byteSize _)

theorem offset_place (h : rule.Within other) (hlowers : small.Lowers large) (hfree : free ≤ taken) :
    (rule.place free small).offset ≤ (other.place taken large).offset := by
  rw [Packing.offset_place, Packing.offset_place]
  exact roundUp_le_roundUp (alignment_pos rule small) (alignment_pos other large) hfree
    (h.alignment hlowers)

theorem stop_place (h : rule.Within other) (hlowers : small.Lowers large) (hfree : free ≤ taken) :
    (rule.place free small).stop ≤ (other.place taken large).stop :=
  Nat.add_le_add (h.offset_place hlowers hfree) (h.size_place hlowers free taken)

/-! ## 3. Revised blocks -/

/-- What is left of the members ends no later than all of them, and lies no further out. -/
theorem placesFrom (h : rule.Within other) (revisions : List Revision) (hfree : free ≤ taken) :
    rule.stopFrom free (revisions.filterMap Revision.after) ≤
        other.stopFrom taken (revisions.map Revision.before) ∧
      List.Forall₂ Placement.Within
        (rule.placesFrom free (revisions.filterMap Revision.after))
        (Revision.kept revisions (other.placesFrom taken (revisions.map Revision.before))) := by
  -- Both runs go through the members together; what carries the induction is that the one with
  -- fewer of them is never ahead.
  induction revisions generalizing free taken with
  | nil => exact ⟨hfree, .nil⟩
  | cons revision rest ih =>
    obtain ⟨before, after, hlowers⟩ := revision
    cases after with
    | none =>
      -- Only the run that places the member moves on.
      exact ih (Nat.le_trans hfree (le_stop_place other taken before))
    | some entry =>
      have hentry := hlowers entry rfl
      obtain ⟨hstop, hplaces⟩ := ih (h.stop_place hentry hfree)
      exact ⟨hstop, .cons ⟨h.offset_place hentry hfree, h.size_place hentry free taken⟩ hplaces⟩

theorem largestAlignment (h : rule.Within other) (revisions : List Revision) :
    rule.largestAlignment (revisions.filterMap Revision.after) ≤
      other.largestAlignment (revisions.map Revision.before) := by
  induction revisions using List.reverseRecOn with
  | nil => exact Nat.le_refl _
  | append_singleton revisions revision ih =>
    rw [List.filterMap_append, List.map_append, List.map_singleton, largestAlignment_concat]
    obtain ⟨before, after, hlowers⟩ := revision
    cases after with
    | none =>
      show rule.largestAlignment (_ ++ []) ≤ _
      rw [List.append_nil]
      exact Nat.le_trans ih (Nat.le_max_left _ _)
    | some entry =>
      have hentry := Nat.le_of_dvd (alignment_pos other before)
        (h.alignment (hlowers entry rfl))
      show rule.largestAlignment (_ ++ [entry]) ≤ _
      rw [largestAlignment_concat]
      exact max_le_max ih hentry

theorem blockAlignment (h : rule.Within other) (revisions : List Revision) :
    rule.blockAlignment (revisions.filterMap Revision.after) ∣
      other.blockAlignment (revisions.map Revision.before) := by
  cases other with
  | std140 =>
    rw [blockAlignment_std140]
    exact blockAlignment_dvd rule _
  | std430 =>
    obtain rfl | hother := h
    · exact dvd_of_le_of_dvd_wideAlignment (blockAlignment_dvd .std430 _)
        (blockAlignment_dvd .std430 _) (largestAlignment (.inl rfl) revisions)
    · cases hother

theorem size (h : rule.Within other) (revisions : List Revision) :
    rule.size (revisions.filterMap Revision.after) ≤
      other.size (revisions.map Revision.before) :=
  roundUp_le_roundUp (blockAlignment_pos rule _) (blockAlignment_pos other _)
    (h.placesFrom revisions (Nat.le_refl 0)).1 (h.blockAlignment revisions)

end Within

end Packing

namespace Block

/-- If a block accepts all of its members, it accepts what is left of them, too. -/
theorem fill_revised {rule other : Packing} (hwithin : rule.Within other)
    (revisions : List Revision) {large : Block} {places : List Placement}
    (h : (empty other).fill (revisions.map Revision.before) = (large, places.map some)) :
    ∃ small fewer, (empty rule).fill (revisions.filterMap Revision.after) =
        (small, fewer.map some) ∧
      small.Holds rule (revisions.filterMap Revision.after) ∧
      List.Forall₂ Placement.Within fewer (Revision.kept revisions places) ∧
      small.size ≤ large.size := by
  obtain ⟨hlarge, rfl⟩ := fill_empty_eq_iff.mp h
  obtain ⟨hstop, hplaces⟩ := hwithin.placesFrom revisions (Nat.le_refl 0)
  obtain ⟨small, hfill, hsmall⟩ := (holds_empty rule).fill_of_inReach
    (Nat.le_trans hstop hlarge.inReach)
  refine ⟨small, _, hfill, hsmall, hplaces, ?_⟩
  rw [hsmall.size_eq, hlarge.size_eq]
  exact hwithin.size revisions

/-- Whatever members `std140` accepts, `std430` accepts, too, places no further out and packs into
no larger block. -/
theorem fill_std430_of_std140 {entries : List Entry} {block : Block} {places : List Placement}
    (h : (empty .std140).fill entries = (block, places.map some)) :
    ∃ tight tighter, (empty .std430).fill entries = (tight, tighter.map some) ∧
      List.Forall₂ Placement.Within tighter places ∧ tight.size ≤ block.size := by
  have hwithin : Packing.std430.Within .std140 := .inr rfl
  have hlength : entries.length = places.length := by
    have hlength := ((holds_empty .std140).fill entries).1
    rw [h, List.length_map] at hlength
    exact hlength.symm
  have hbefore : (entries.map Revision.unchanged).map Revision.before = entries := by
    rw [List.map_map]
    exact List.map_id _
  obtain ⟨tight, tighter, hfill, -, hplaces, hsize⟩ :=
    fill_revised hwithin (entries.map Revision.unchanged) (by rw [hbefore]; exact h)
  rw [Revision.filterMap_after_unchanged] at hfill
  rw [Revision.kept_unchanged hlength] at hplaces
  exact ⟨tight, tighter, hfill, hplaces, hsize⟩

/-- An array of scalars, which `std430` keeps tight, before a vector and a matrix. -/
theorem fill_std430_of_std140_array :
    (empty .std140).fill [⟨.f32, some 3⟩, ⟨.vec2, none⟩, ⟨.mat3, none⟩] =
        (⟨.std140, 112, 16⟩,
          [⟨0, 48, 3, 16, 0⟩, ⟨48, 8, 1, 0, 0⟩, ⟨64, 48, 1, 0, 16⟩].map some) ∧
      ∃ tight tighter,
        (empty .std430).fill [⟨.f32, some 3⟩, ⟨.vec2, none⟩, ⟨.mat3, none⟩] =
          (tight, tighter.map some) ∧
        List.Forall₂ Placement.Within tighter
          [⟨0, 48, 3, 16, 0⟩, ⟨48, 8, 1, 0, 0⟩, ⟨64, 48, 1, 0, 16⟩] ∧
        tight.size ≤ 112 := by
  have hfill : (empty .std140).fill [⟨.f32, some 3⟩, ⟨.vec2, none⟩, ⟨.mat3, none⟩] =
      (⟨.std140, 112, 16⟩,
        [⟨0, 48, 3, 16, 0⟩, ⟨48, 8, 1, 0, 0⟩, ⟨64, 48, 1, 0, 16⟩].map some) := by
    decide
  exact ⟨hfill, fill_std430_of_std140 hfill⟩

end Block

end ShaderVariants
