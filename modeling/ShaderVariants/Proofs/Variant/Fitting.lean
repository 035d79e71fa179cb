import ShaderVariants.Proofs.Layout.Comparison
import ShaderVariants.Proofs.Variant.Consistency

/-!
# Blocks that fit

When the uniform block of a variant fits: a member is refused just if the padded block would reach
past the last multiple of 16 bytes that 32 bits can address (`Block.refused_iff_past_limit`), and a
program whose block fits its push constants with every member and the most instances fits them under
every mutation (`Program.fits_of_largest_fits`).
-/

namespace ShaderVariants

/-! ## 1. The members of a block -/

def Input.entry (count : Option Nat) (input : Input) : Entry :=
  ⟨input.type, if input.instanced then count else none⟩

/-- What the active ones of some inputs put into the block. -/
def blockEntries (active : InputSet) (count : Option Nat) (inputs : List Input) : List Entry :=
  (inputs.filter fun input => active.mem input.index && input.inBlock).map (Input.entry count)

section

variable {active : InputSet} {count : Option Nat} {input : Input} {inputs : List Input}

theorem blockEntries_append (front rest : List Input) :
    blockEntries active count (front ++ rest) =
      blockEntries active count front ++ blockEntries active count rest := by
  rw [blockEntries, List.filter_append, List.map_append]
  rfl

/-- What is held together with the entries of an input and those of others. -/
theorem append_blockEntries_cons (held : List Entry) (input : Input) (rest : List Input) :
    held ++ blockEntries active count (input :: rest) =
      held ++ blockEntries active count [input] ++ blockEntries active count rest := by
  rw [List.append_assoc, ← blockEntries_append]
  rfl

/-! ## 2. Placing inputs -/

variable {rule : Packing} {block : Block} {held : List Entry} {name : Text}

/-- An input is refused if the block would end too far out with it, and the others are placed after
it if not. -/
theorem placeInputs_cons (active : InputSet) (count : Option Nat) (h : block.Holds rule held)
    (input : Input) (rest : List Input) :
    (Block.limit < rule.stop (held ++ blockEntries active count [input]) ∧
      placeInputs active count block (input :: rest) = .error input.name) ∨
    ∃ placement next, next.Holds rule (held ++ blockEntries active count [input]) ∧
      placeInputs active count block (input :: rest) =
        (placeInputs active count next rest).map fun (last, placements) =>
          (last, placement :: placements) := by
  rw [placeInputs]
  by_cases hinput : (active.mem input.index && input.inBlock) = true
  · have hentries : blockEntries active count [input] = [input.entry count] := by
      simp [blockEntries, hinput]
    rw [if_pos hinput, hentries]
    obtain ⟨hfar, hpush⟩ | ⟨next, hpush, hnext⟩ := h.push (input.entry count)
    · simp only [Input.entry] at hpush
      rw [hpush]
      exact Or.inl ⟨hfar, rfl⟩
    · simp only [Input.entry] at hpush
      rw [hpush]
      refine Or.inr ⟨some (rule.place (rule.stop held) (input.entry count)), next, hnext, ?_⟩
      dsimp only
      cases placeInputs active count next rest <;> rfl
  · have hentries : blockEntries active count [input] = [] := by simp [blockEntries, hinput]
    rw [if_neg hinput, hentries, List.append_nil]
    refine Or.inr ⟨none, block, h, ?_⟩
    cases placeInputs active count block rest <;> rfl

/-- Inputs find a place as long as the end of the block stays within reach. -/
theorem exists_placements_of_inReach (h : block.Holds rule held)
    (hreach : rule.stop (held ++ blockEntries active count inputs) ≤ Block.limit) :
    ∃ last placements, placeInputs active count block inputs = .ok (last, placements) ∧
      last.Holds rule (held ++ blockEntries active count inputs) := by
  induction inputs generalizing block held with
  | nil => exact ⟨block, [], rfl, (List.append_nil held).symm ▸ h⟩
  | cons input rest ih =>
    rw [append_blockEntries_cons] at hreach ⊢
    obtain ⟨hfar, -⟩ | ⟨placement, next, hnext, hplace⟩ :=
      placeInputs_cons active count h input rest
    · -- The block would end past the limit with this input, and no earlier with the others.
      have hle := Packing.stop_le_stop_append rule
        (held ++ blockEntries active count [input]) (blockEntries active count rest)
      omega
    · obtain ⟨last, placements, hplaced, hlast⟩ := ih hnext hreach
      rw [hplace, hplaced]
      exact ⟨last, _, rfl, hlast⟩

theorem map_eq_error_iff {ε α β : Type} {f : α → β} {result : Except ε α} {e : ε} :
    result.map f = .error e ↔ result = .error e := by
  cases result <;> simp [Except.map]

/-- The input that finds no place is the first one with which the block ends too far out. -/
theorem placeInputs_eq_error_iff (h : block.Holds rule held) :
    placeInputs active count block inputs = .error name ↔
      ∃ before input after, inputs = before ++ input :: after ∧ input.name = name ∧
        rule.stop (held ++ blockEntries active count before) ≤ Block.limit ∧
        Block.limit < rule.stop (held ++ blockEntries active count (before ++ [input])) := by
  induction inputs generalizing block held with
  | nil =>
    constructor
    · intro herror
      cases herror
    · rintro ⟨before, input, after, hinputs, -⟩
      cases before <;> cases hinputs
  | cons input rest ih =>
    obtain ⟨hfar, hplace⟩ | ⟨placement, next, hnext, hplace⟩ :=
      placeInputs_cons active count h input rest
    · rw [hplace, Except.error.injEq]
      constructor
      · rintro rfl
        exact ⟨[], input, rest, rfl, rfl, (List.append_nil held).symm ▸ h.inReach, hfar⟩
      · rintro ⟨before, failing, after, hinputs, hname, hreach, -⟩
        cases before with
        | nil =>
          rw [(List.cons.inj hinputs).1]
          exact hname
        | cons first tail =>
          -- Nothing behind the input is tried once it is refused.
          obtain rfl := (List.cons.inj hinputs).1
          have hle := Packing.stop_le_stop_append rule
            (held ++ blockEntries active count [input]) (blockEntries active count tail)
          rw [append_blockEntries_cons] at hreach
          omega
    · rw [hplace, map_eq_error_iff, ih hnext]
      constructor
      · rintro ⟨before, failing, after, rfl, hname, hreach, hfar⟩
        refine ⟨input :: before, failing, after, rfl, hname, ?_, ?_⟩
        · rw [append_blockEntries_cons]
          exact hreach
        · rw [List.cons_append, append_blockEntries_cons]
          exact hfar
      · rintro ⟨before, failing, after, hinputs, hname, hreach, hfar⟩
        cases before with
        | nil =>
          -- The block with this input is there, so it is not the one that is refused.
          obtain rfl := (List.cons.inj hinputs).1
          exact absurd hnext.inReach (Nat.not_le.mpr hfar)
        | cons first tail =>
          obtain ⟨rfl, rfl⟩ := List.cons.inj hinputs
          rw [append_blockEntries_cons] at hreach
          rw [List.cons_append, append_blockEntries_cons] at hfar
          exact ⟨tail, failing, after, rfl, hname, hreach, hfar⟩

end

/-! ## 3. Blocks that are too large -/

theorem Program.variant_eq_blockTooLarge_iff {program : Program} {mutation : Mutation}
    {name : Text} :
    program.variant mutation = .error (.blockTooLarge name) ↔
      program.validate mutation = .ok () ∧ ∃ active,
        program.activeIn mutation .empty program.stages.toList = .ok active ∧
        placeInputs active (program.instanceCount? mutation) (.empty program.settings.packing)
          program.inputs = .error name := by
  constructor
  · intro h
    rw [variant] at h
    split at h
    · cases h
    next hvalid =>
      split at h
      next e he =>
        obtain ⟨stage, -, obstacle, rfl, -⟩ := exists_of_activeIn_eq_error he
        cases h
      next active hactive =>
        split at h
        next failing hfailing =>
          obtain rfl := VariantError.blockTooLarge.inj (Except.error.inj h)
          exact ⟨hvalid, active, hactive, hfailing⟩
        next block placements hplaced =>
          rw [assemble] at h
          split at h <;> cases h
  · rintro ⟨hvalid, active, hactive, hfailing⟩
    rw [variant, hvalid, hactive]
    dsimp only
    rw [hfailing]

/-- The sizes that `std140` gives to blocks are multiples of 16 bytes. -/
theorem Packing.limit_lt_size_std140_iff (entries : List Entry) :
    Block.limit < Packing.std140.size entries ↔
      Block.addressBound ≤ Packing.std140.size entries := by
  obtain ⟨k, hk⟩ : wideAlignment ∣ Packing.std140.size entries := by
    rw [size, blockAlignment_std140]
    exact dvd_roundUp _ _
  rw [hk]
  simp only [Block.limit, Block.addressBound, wideAlignment]
  omega

namespace Block

/-- A member is refused just if the block with it, padded by its own alignment, would need more
bytes than the last multiple of 16 that 32 bits can hold, which for `std140` means that it does not
fit 32 bits.  A variant fails for the first active member of the block with which that happens. -/
theorem refused_iff_past_limit :
    (∀ (rule : Packing) (entries : List Entry) (entry : Entry),
      let filled := (empty rule).fill entries
      let kept := accepted entries filled.2
      filled.1.push entry.type entry.count = none ↔ limit < rule.size (kept ++ [entry])) ∧
    (∀ entries, limit < Packing.std140.size entries ↔
      addressBound ≤ Packing.std140.size entries) ∧
    ∀ (program : Program) (mutation : Mutation) (name : Text),
      program.variant mutation = .error (.blockTooLarge name) ↔
        program.validate mutation = .ok () ∧ ∃ active,
          program.activeIn mutation .empty program.stages.toList = .ok active ∧
          ∃ before input after, program.inputs = before ++ input :: after ∧ input.name = name ∧
            program.settings.packing.size
              (blockEntries active (program.instanceCount? mutation) before) ≤ limit ∧
            limit < program.settings.packing.size
              (blockEntries active (program.instanceCount? mutation) (before ++ [input])) := by
  refine ⟨fun rule entries entry => ?_, Packing.limit_lt_size_std140_iff,
    fun program mutation name => ?_⟩
  · intro filled kept
    have hholds : filled.1.Holds rule kept := ((holds_empty rule).fill entries).2.1
    rw [← Nat.not_le, Packing.size_le_limit_iff, Nat.not_le]
    obtain ⟨hfar, hpush⟩ | ⟨next, hpush, hnext⟩ := hholds.push entry
    · exact iff_of_true hpush hfar
    · refine iff_of_false ?_ (Nat.not_lt.mpr hnext.inReach)
      rw [hpush]
      exact Option.some_ne_none _
  · rw [Program.variant_eq_blockTooLarge_iff]
    refine and_congr_right fun _ => exists_congr fun active => and_congr_right fun _ => ?_
    rw [placeInputs_eq_error_iff (holds_empty program.settings.packing)]
    simp only [List.nil_append, ← Packing.size_le_limit_iff, ← Nat.not_le]

/-- An array of scalars that takes all but four of the bytes that 32 bits can address. -/
theorem refused_below_addressBound :
    ((empty .std430).fill []).1.push .f32 (some 1073741823) = none ∧
      Packing.std430.size [⟨.f32, some 1073741823⟩] = 4294967292 ∧
      ¬ ∀ (rule : Packing) (entries : List Entry) (entry : Entry),
        let filled := (empty rule).fill entries
        let kept := accepted entries filled.2
        filled.1.push entry.type entry.count = none ↔
          addressBound ≤ rule.size (kept ++ [entry]) := by
  have hpush : ((empty .std430).fill []).1.push .f32 (some 1073741823) = none := by decide
  have hsize : Packing.std430.size [⟨.f32, some 1073741823⟩] = 4294967292 := by decide
  refine ⟨hpush, hsize, fun h => ?_⟩
  have hbound := (h .std430 [] ⟨.f32, some 1073741823⟩).mp hpush
  have hkept : addressBound ≤ Packing.std430.size [⟨.f32, some 1073741823⟩] := hbound
  rw [hsize] at hkept
  exact absurd hkept (by decide)

end Block

/-! ## 4. Blocks that always fit -/

namespace Program

variable {program : Program} {mutation : Mutation}

/-- The most instances that a mutation can ask for. -/
def largestCount? (program : Program) : Option Nat :=
  (program.instanceCounter?.bind fun counter => counter.values.max?).map Int.toNat

/-- All members of the block, with the most instances. -/
def allEntries (program : Program) : List Entry :=
  (program.inputs.filter Input.inBlock).map (Input.entry program.largestCount?)

theorem lowers_entry (hprogram : program.WellFormed) (hvalid : program.validate mutation = .ok ())
    {input : Input} (hinput : input ∈ program.inputs) :
    (input.entry (program.instanceCount? mutation)).Lowers (input.entry program.largestCount?) := by
  unfold Input.entry
  cases h : input.instanced with
  | false => exact .plain input.type
  | true =>
    obtain ⟨counter, hcounter⟩ := exists_counter_of_instanced hprogram hinput h
    obtain ⟨place, value, hplace, -, hvalue, -, hcount⟩ :=
      exists_instanceCount? hprogram hvalid hcounter
    obtain ⟨other, hother, hmem⟩ := Mutation.exists_hasValue_of_validate hvalid hplace
    obtain rfl : value = other := Option.some.inj (hvalue.symm.trans hother)
    have hmember : value ∈ counter.values := List.contains_iff_mem.mp hmem
    obtain ⟨largest, hlargest⟩ : ∃ largest, counter.values.max? = some largest :=
      Option.isSome_iff_exists.mp (List.isSome_max?_of_mem hmember)
    have hle : value ≤ largest := (List.max?_eq_some_iff.mp hlargest).2 value hmember
    have hmost : program.largestCount? = some largest.toNat := by
      rw [largestCount?, hcounter, Option.bind_some, hlargest]
      rfl
    rw [hcount, hmost]
    exact .array input.type (Int.toNat_le_toNat hle)

/-- What a mutation leaves of the members of the block. -/
theorem exists_revisions {inputs : List Input} {count largest : Option Nat} (active : InputSet)
    (h : ∀ input ∈ inputs, (input.entry count).Lowers (input.entry largest)) :
    ∃ revisions : List Revision,
      revisions.map Revision.before = (inputs.filter Input.inBlock).map (Input.entry largest) ∧
      revisions.filterMap Revision.after = blockEntries active count inputs := by
  induction inputs with
  | nil => exact ⟨[], rfl, rfl⟩
  | cons input rest ih =>
    obtain ⟨hinput, hrest⟩ := List.forall_mem_cons.mp h
    obtain ⟨revisions, hbefore, hafter⟩ := ih hrest
    cases hblock : input.inBlock with
    | false =>
      refine ⟨revisions, ?_, ?_⟩
      · rw [hbefore, List.filter_cons_of_neg (by simp [hblock])]
      · simp [hafter, blockEntries, hblock]
    | true =>
      let revision : Revision :=
        { before := input.entry largest
          after := if active.mem input.index then some (input.entry count) else none
          lowers := by
            intro entry hentry
            split at hentry
            · obtain rfl := Option.some.inj hentry
              exact hinput
            · cases hentry }
      refine ⟨revision :: revisions, ?_, ?_⟩
      · rw [List.map_cons, hbefore, List.filter_cons_of_pos hblock]
        rfl
      · cases hactive : active.mem input.index <;>
          simp [revision, hafter, blockEntries, hblock, hactive]

/-- If a block fits with all members and the most instances, its active members are placed under
every mutation and leave it no larger. -/
theorem exists_placements_of_largest (hprogram : program.WellFormed)
    (hvalid : program.validate mutation = .ok ()) (active : InputSet) {largest : Block}
    {places : List Placement}
    (h : (Block.empty program.settings.packing).fill program.allEntries =
      (largest, places.map some)) :
    ∃ block placements, placeInputs active (program.instanceCount? mutation)
        (.empty program.settings.packing) program.inputs = .ok (block, placements) ∧
      block.size ≤ largest.size := by
  obtain ⟨revisions, hbefore, hafter⟩ :=
    exists_revisions active fun input hinput => lowers_entry hprogram hvalid hinput
  rw [allEntries, ← hbefore] at h
  obtain ⟨small, fewer, -, hsmall, -, hsize⟩ := Block.fill_revised (.inl rfl) revisions h
  rw [hafter] at hsmall
  obtain ⟨block, placements, hplaced, hblock⟩ :=
    exists_placements_of_inReach (Block.holds_empty _) hsmall.inReach
  refine ⟨block, placements, hplaced, ?_⟩
  rw [hblock.unique hsmall]
  exact hsize

/-- Leaving members out of a block that accepts all of them and giving fewer elements to its arrays
keeps the others accepted, none of them further out, and the block no larger.  So a program whose
block fits its push constants with all members and the most instances has no mutation with which the
block is too large or does not fit them. -/
theorem fits_of_largest_fits :
    (∀ (rule : Packing) (revisions : List Revision) (large : Block) (places : List Placement),
      (Block.empty rule).fill (revisions.map Revision.before) = (large, places.map some) →
      ∃ small fewer, (Block.empty rule).fill (revisions.filterMap Revision.after) =
          (small, fewer.map some) ∧
        List.Forall₂ Placement.Within fewer (Revision.kept revisions places) ∧
        small.size ≤ large.size) ∧
    ∀ (reader : FileReader) (settings : Settings) (fileName : Text) (program : Program),
      Program.read reader settings fileName = .ok program →
      ∀ (largest : Block) (places : List Placement),
        (Block.empty program.settings.packing).fill program.allEntries =
          (largest, places.map some) →
        largest.size ≤ program.settings.pushConstantsSize →
        ∀ mutation, program.validate mutation = .ok () →
          (∀ name, program.variant mutation ≠ .error (.blockTooLarge name)) ∧
          ∀ size budget, program.variant mutation ≠ .error (.pushConstantsOverflow size budget) := by
  constructor
  · intro rule revisions large places h
    obtain ⟨small, fewer, hfill, -, hplaces, hsize⟩ :=
      Block.fill_revised (.inl rfl) revisions h
    exact ⟨small, fewer, hfill, hplaces, hsize⟩
  · intro reader settings fileName program hread largest places hlargest hfits mutation hvalid
    have hprogram := wellFormed_of_read hread
    cases hactive : program.activeIn mutation .empty program.stages.toList with
    | error e =>
      -- The conditionals of a stage are looked at first, and fail with an error of their own.
      obtain ⟨stage, -, obstacle, rfl, -⟩ := exists_of_activeIn_eq_error hactive
      have hvariant : program.variant mutation =
          .error (.unsupportedConditional stage obstacle) := by
        rw [variant, hvalid, hactive]
      rw [hvariant]
      constructor
      · intro name h
        cases h
      · intro size budget h
        cases h
    | ok active =>
      obtain ⟨block, placements, hplaced, hsize⟩ :=
        exists_placements_of_largest hprogram hvalid active hlargest
      have hfails := (variant_eq_of_placed hvalid hactive hplaced).1
      have hsucceeds : ∀ e, program.variant mutation ≠ .error e := by
        intro e he
        have hover := (hfails.mp ⟨e, he⟩).2
        omega
      exact ⟨fun name => hsucceeds _, fun size budget => hsucceeds _⟩

/-- A file whose block just fits 64 bytes with two instances. -/
def meadowFile : Text :=
  Text.unlines
    ["#pragma anki mutator instanced COUNT 1 2".toList, "#pragma anki start vert".toList,
     "#pragma anki input Vec3 u_wind".toList, "#ifdef DEBUG".toList,
     "#pragma anki input Vec4 u_tint".toList, "#endif".toList,
     "#pragma anki input instanced Vec4 u_blade".toList, "#pragma anki end".toList]

/-- Settings that leave the block no way out of 64 bytes of push constants. -/
def tightSettings : Settings :=
  { Settings.default with pushConstantsSize := 64, storage := .pushConstants }

/-- The program of that file. -/
def meadow : Program where
  fileName := "meadow".toList
  settings := tightSettings
  mutators := [⟨"COUNT".toList, [1, 2], true⟩]
  rewrites := []
  inputs :=
    [⟨"u_wind".toList, 0, .vec3, false, none, none⟩, ⟨"u_tint".toList, 1, .vec4, false, none, none⟩,
     ⟨"u_blade".toList, 2, .vec4, true, none, none⟩]
  stages := .singleton .vertex
  descriptorSet := 0
  instanceMutator := some 0
  globals := []
  stageCode :=
    { PerStage.const [] with
      vertex :=
        ["#define _ANKI_INPUT_SITE_u_wind".toList, "#define u_wind _anki_unis._m_u_wind".toList,
         "#ifdef DEBUG".toList, "#define _ANKI_INPUT_SITE_u_tint".toList,
         "#define u_tint _anki_unis._m_u_tint".toList, "#endif".toList,
         "#define _ANKI_INPUT_SITE_u_blade".toList,
         "#define u_blade _anki_unis._m_u_blade".toList] }
  members :=
    ["#if defined(_ANKI_ACTIVATE_INPUT_u_wind)".toList, "\tvec3 _m_u_wind;".toList,
     "#endif".toList, "#if defined(_ANKI_ACTIVATE_INPUT_u_tint)".toList,
     "\tvec4 _m_u_tint;".toList, "#endif".toList,
     "#if defined(_ANKI_ACTIVATE_INPUT_u_blade)".toList, "\tvec4 _m_u_blade[COUNT];".toList,
     "#endif".toList]

/-- Of three members the one in the middle is left out, and the array loses an element; and whatever
the conditionals of the meadow leave active fits. -/
theorem fits_of_largest_fits_meadow :
    (∃ small fewer, (Block.empty .std140).fill [⟨.vec3, none⟩, ⟨.vec4, some 1⟩] =
        (small, fewer.map some) ∧
      List.Forall₂ Placement.Within fewer [⟨0, 12, 1, 0, 0⟩, ⟨32, 32, 2, 16, 0⟩] ∧
      small.size ≤ 64) ∧
    Program.read (.ofFiles [("meadow".toList, meadowFile)]) tightSettings "meadow".toList =
      .ok meadow ∧
    (Block.empty meadow.settings.packing).fill meadow.allEntries =
      (⟨.std140, 64, 16⟩, [⟨0, 12, 1, 0, 0⟩, ⟨16, 16, 1, 0, 0⟩, ⟨32, 32, 2, 16, 0⟩].map some) ∧
    ∀ mutation ∈ [[1], [2]], meadow.validate mutation = .ok () ∧
      (∀ name, meadow.variant mutation ≠ .error (.blockTooLarge name)) ∧
      ∀ size budget, meadow.variant mutation ≠ .error (.pushConstantsOverflow size budget) := by
  have hread : Program.read (.ofFiles [("meadow".toList, meadowFile)]) tightSettings
      "meadow".toList = .ok meadow := by
    -- A literal is spelled out once, in the goal, and not wherever the evaluation looks at it.
    unfold meadowFile meadow
    repeat rewrite [String.toList_ofList]
    decide +kernel
  have hlargest : (Block.empty meadow.settings.packing).fill meadow.allEntries =
      (⟨.std140, 64, 16⟩,
        [⟨0, 12, 1, 0, 0⟩, ⟨16, 16, 1, 0, 0⟩, ⟨32, 32, 2, 16, 0⟩].map some) := by
    decide
  let revisions : List Revision :=
    [.unchanged ⟨.vec3, none⟩, ⟨⟨.vec4, none⟩, none, by rintro _ ⟨⟩⟩,
      ⟨⟨.vec4, some 2⟩, some ⟨.vec4, some 1⟩, by rintro _ ⟨⟩; exact .array .vec4 (by decide)⟩]
  have hvalid : ∀ mutation ∈ [[1], [2]], meadow.validate mutation = .ok () := by decide
  refine ⟨fits_of_largest_fits.1 .std140 revisions _ _ hlargest, hread, hlargest, ?_⟩
  intro mutation hmember
  have hmutation := hvalid mutation hmember
  exact ⟨hmutation, fits_of_largest_fits.2 _ _ _ _ hread _ _ hlargest (by decide) _ hmutation⟩

end Program

end ShaderVariants
