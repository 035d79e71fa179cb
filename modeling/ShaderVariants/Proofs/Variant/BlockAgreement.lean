import ShaderVariants.Proofs.Variant.BehindHeader
import ShaderVariants.Proofs.Variant.BlockText
import ShaderVariants.Proofs.Variant.Generated

/-!
# The declared block and the reported one

Sources declare the uniform block as text that is filtered by macros, while the places of its
members are found input by input.  Both are about the same block (`Program.variant_block_agrees`):
laying out the members that are left of the text gives the places that the variant reports.
-/

namespace ShaderVariants

/-! ## 1. Laying out what is declared -/

/-- A member that declares an input.  Its extent names the mutator that counts instances if the input
is instanced, and is empty if not. -/
structure Member.Declares (program : Program) (member : Member) (input : Input) : Prop where
  type : member.type = input.type.spelling
  name : member.name = input.name
  plain : input.instanced = false → member.extent = []
  instanced : input.instanced = true → ∃ counter ∈ program.mutators,
    counter.countsInstances = true ∧ member.extent = '[' :: counter.name ++ [']']

/-- The value that a mutation gives to the mutator of the given name. -/
def Program.valueOf? (program : Program) (mutation : Mutation) (name : Text) : Option Int :=
  (program.mutators.findIdx? fun mutator => mutator.name == name).bind fun place =>
    mutation[place]?

namespace Member

/-- The name between the brackets of an extent. -/
def counter? (member : Member) : Option Text :=
  (Text.strip? ['['] member.extent).bind (Text.stripEnd? [']'])

/-- How many elements a member declares under a mutation, `none` within if it is no array.  An
extent that names no mutator, or one without a natural number as its value, says nothing. -/
def count? (program : Program) (mutation : Mutation) (member : Member) : Option (Option Nat) :=
  if member.extent = [] then some none
  else
    match member.counter?.bind (program.valueOf? mutation) with
    | some value => if 0 ≤ value then some (some value.toNat) else none
    | none => none

/-- Lays members out one after the other, as their declarations say; returns the block and the
place of each member by its name. -/
def layOut (program : Program) (mutation : Mutation) (block : Block) :
    List Member → Option (Block × List (Text × Placement))
  | [] => some (block, [])
  | member :: rest =>
    match DataType.ofName? member.type, member.count? program mutation with
    | some type, some count =>
      match block.push type count with
      | none => none
      | some (placement, next) =>
        (layOut program mutation next rest).map fun (last, places) =>
          (last, (member.name, placement) :: places)
    | _, _ => none

def ofInput (program : Program) (input : Input) : Member :=
  ⟨input.type.spelling, input.name, Draft.extent program.instanceCounter? input⟩

end Member

/-! ## 2. Declarations of inputs -/

section

variable {program : Program} {mutation : Mutation} {input : Input}

theorem Member.extent_of_not_instanced (h : input.instanced = false) :
    (ofInput program input).extent = [] := by
  cases hcounter : program.instanceCounter? <;> simp [ofInput, Draft.extent, hcounter, h]

theorem Member.extent_of_instanced {counter : Mutator}
    (hcounter : program.instanceCounter? = some counter) (h : input.instanced = true) :
    (ofInput program input).extent = '[' :: counter.name ++ [']'] := by
  simp [ofInput, Draft.extent, hcounter, h]

theorem Member.declares_ofInput (hprogram : program.WellFormed)
    (hvalid : program.validate mutation = .ok ()) (hinput : input ∈ program.inputs) :
    (ofInput program input).Declares program input where
  type := rfl
  name := rfl
  plain := extent_of_not_instanced
  instanced := by
    intro h
    obtain ⟨counter, hcounter⟩ := Program.exists_counter_of_instanced hprogram hinput h
    obtain ⟨place, _, hplace, hcounts, -⟩ := Program.exists_instanceCount? hprogram hvalid hcounter
    exact ⟨counter, List.mem_of_getElem? hplace, hcounts, extent_of_instanced hcounter h⟩

theorem Member.count?_ofInput (hprogram : program.WellFormed)
    (hvalid : program.validate mutation = .ok ()) (hinput : input ∈ program.inputs) :
    (ofInput program input).count? program mutation =
      some (if input.instanced then program.instanceCount? mutation else none) := by
  cases h : input.instanced with
  | false => rw [count?, if_pos (extent_of_not_instanced h)]; rfl
  | true =>
    obtain ⟨counter, hcounter⟩ := Program.exists_counter_of_instanced hprogram hinput h
    obtain ⟨place, value, hplace, -, hvalue, hpositive, hcount⟩ :=
      Program.exists_instanceCount? hprogram hvalid hcounter
    have hextent : (ofInput program input).extent = ['['] ++ (counter.name ++ [']']) :=
      extent_of_instanced hcounter h
    have hname : (ofInput program input).counter? = some counter.name := by
      rw [counter?, hextent, Text.strip?_append, Option.bind_some, Text.stripEnd?_append]
    have hlookup : program.valueOf? mutation counter.name = some value := by
      rw [Program.valueOf?, findIdx?_name_of_nodup hprogram.mutators.distinct hplace,
        Option.bind_some, hvalue]
    have hnonempty : (ofInput program input).extent ≠ [] := by
      rw [hextent]
      exact List.cons_ne_nil _ _
    have hnonneg : 0 ≤ value := by omega
    rw [count?, if_neg hnonempty, hname, Option.bind_some, hlookup, hcount]
    simp [hnonneg]

/-! ## 3. Both ways through the inputs -/

/-- The members that the active ones of some inputs declare. -/
def Program.declaredMembers (program : Program) (active : InputSet) (inputs : List Input) :
    List Member :=
  (inputs.filter fun input => active.mem input.index && input.inBlock).map (Member.ofInput program)

theorem Program.declaredMembers_cons_of_active {active : InputSet} (rest : List Input)
    (h : (active.mem input.index && input.inBlock) = true) :
    program.declaredMembers active (input :: rest) =
      Member.ofInput program input :: program.declaredMembers active rest := by
  simp [declaredMembers, h]

theorem Program.declaredMembers_cons_of_inactive {active : InputSet} (rest : List Input)
    (h : ¬ (active.mem input.index && input.inBlock) = true) :
    program.declaredMembers active (input :: rest) = program.declaredMembers active rest := by
  simp [declaredMembers, h]

theorem Member.layOut_ofInput_cons (hprogram : program.WellFormed)
    (hvalid : program.validate mutation = .ok ()) (hinput : input ∈ program.inputs)
    {block next last : Block} {placement : Placement} {rest : List Member}
    {places : List (Text × Placement)}
    (hpush : block.push input.type
      (if input.instanced then program.instanceCount? mutation else none) = some (placement, next))
    (hrest : layOut program mutation next rest = some (last, places)) :
    layOut program mutation block (ofInput program input :: rest) =
      some (last, (input.name, placement) :: places) := by
  have htype : DataType.ofName? (ofInput program input).type = some input.type :=
    DataType.ofName?_spelling (hprogram.inputs.each input hinput).typed
  rw [layOut, htype, count?_ofInput hprogram hvalid hinput]
  simp only [hpush, hrest, Option.map_some]
  rfl

theorem lookup_eq_none_of_notMem {places : List (Text × Placement)} {names : List Text} {name : Text}
    (hplaces : ∀ place ∈ places, place.1 ∈ names) (hname : name ∉ names) :
    places.lookup name = none := by
  rw [List.lookup_eq_none_iff]
  intro place hplace
  have hne : name ≠ place.1 := fun heq => hname (heq ▸ hplaces place hplace)
  simpa using hne

/-- Laying out what active inputs declare goes the way of placing the inputs themselves. -/
theorem Member.layOut_declaredMembers (hprogram : program.WellFormed)
    (hvalid : program.validate mutation = .ok ()) {active : InputSet} {inputs : List Input}
    (hinputs : ∀ input ∈ inputs, input ∈ program.inputs) (hdistinct : (inputs.map Input.name).Nodup)
    {block last : Block} {placements : List (Option Placement)}
    (h : placeInputs active (program.instanceCount? mutation) block inputs =
      .ok (last, placements)) :
    ∃ places, layOut program mutation block (program.declaredMembers active inputs) =
        some (last, places) ∧
      (∀ place ∈ places, place.1 ∈ inputs.map Input.name) ∧
      placements = inputs.map fun input => places.lookup input.name := by
  -- The induction goes through the inputs as `placeInputs` does, with the same block on both sides.
  induction inputs generalizing block placements with
  | nil =>
    obtain ⟨rfl, rfl⟩ := Prod.mk.inj (Except.ok.inj h)
    exact ⟨[], rfl, by simp, rfl⟩
  | cons input rest ih =>
    obtain ⟨hinput, hrest⟩ := List.forall_mem_cons.mp hinputs
    obtain ⟨hfresh, hdistinct⟩ := List.nodup_cons.mp hdistinct
    obtain ⟨placement, next, others, hactive, hpush, hplaced, rfl⟩ | ⟨others, hinactive, hplaced, rfl⟩ :=
      cases_of_placeInputs_cons h
    · obtain ⟨places, hlayout, hnames, rfl⟩ := ih hrest hdistinct hplaced
      refine ⟨(input.name, placement) :: places, ?_, ?_, ?_⟩
      · rw [Program.declaredMembers_cons_of_active rest hactive]
        exact layOut_ofInput_cons hprogram hvalid hinput hpush hlayout
      · refine List.forall_mem_cons.mpr ⟨List.mem_cons_self, fun place hplace => ?_⟩
        exact List.mem_cons_of_mem input.name (hnames place hplace)
      -- The new place is found under its own name only.
      · have hothers : ∀ other ∈ rest,
            places.lookup other.name = ((input.name, placement) :: places).lookup other.name := by
          intro other hother
          have hne : other.name ≠ input.name := fun heq =>
            hfresh (heq ▸ List.mem_map_of_mem hother)
          rw [List.lookup_cons, beq_false_of_ne hne]
        rw [List.map_cons, List.lookup_cons_self, List.map_congr_left hothers]
    · obtain ⟨places, hlayout, hnames, rfl⟩ := ih hrest hdistinct hplaced
      refine ⟨places, ?_, fun place hplace => List.mem_cons_of_mem _ (hnames place hplace), ?_⟩
      · rw [Program.declaredMembers_cons_of_inactive rest (Bool.eq_false_iff.mp hinactive), hlayout]
      · rw [List.map_cons, lookup_eq_none_of_notMem hnames hfresh]

end

/-! ## 4. Variants -/

namespace Program

variable {program : Program}

theorem pairwise_index_lt (hprogram : program.WellFormed) :
    program.inputs.Pairwise fun input later => input.index < later.index := by
  have hsorted : (program.inputs.map Input.index).Pairwise (· < ·) := by
    rw [hprogram.inputs.indices]
    exact List.pairwise_lt_range
  exact List.pairwise_map.mp hsorted

theorem map_ofLine?_memberLine (hprogram : program.WellFormed) (active : InputSet) :
    ((program.inputs.filter fun input => active.mem input.index && input.inBlock).map
        (Draft.memberLine program.instanceCounter?)).map Member.ofLine? =
      (program.declaredMembers active program.inputs).map some := by
  rw [declaredMembers, List.map_map, List.map_map]
  refine List.map_congr_left fun input hinput => ?_
  have hname := (hprogram.inputs.each input (List.mem_of_mem_filter hinput)).identifier
  exact Member.ofLine?_memberLine program.instanceCounter? hname

theorem declares_declaredMembers (hprogram : program.WellFormed) {mutation : Mutation}
    (hvalid : program.validate mutation = .ok ()) (active : InputSet) :
    List.Forall₂ (Member.Declares program) (program.declaredMembers active program.inputs)
      (program.inputs.filter fun input => active.mem input.index && input.inBlock) := by
  rw [declaredMembers, List.forall₂_map_left_iff, List.forall₂_same]
  intro input hinput
  exact Member.declares_ofInput hprogram hvalid (List.mem_of_mem_filter hinput)

/-- The members of the block that are left of its text declare the active inputs in it, in the order
of their indices, and laying them out gives the places and the size that the variant reports.  The
block is declared in every source if it has a size, and in none if it has not. -/
theorem variant_block_agrees {reader : FileReader} {settings : Settings} {fileName : Text}
    {mutation : Mutation} {variant : Variant}
    (hread : Program.read reader settings fileName = .ok program)
    (hvariant : program.variant mutation = .ok variant) :
    ∃ members block places,
      (Guarded.keptLines (Guarded.definedNames (activations program variant.active)) []
        (Text.lines (Text.unlines program.members))).map Member.ofLine? = members.map some ∧
      List.Forall₂ (Member.Declares program) members
        (program.inputs.filter fun input => variant.uses input && input.inBlock) ∧
      (program.inputs.Pairwise fun input later => input.index < later.index) ∧
      Member.layOut program mutation (.empty program.settings.packing) members =
        some (block, places) ∧
      (variant.placements = program.inputs.map fun input => places.lookup input.name) ∧
      variant.blockSize = block.size ∧
      variant.sources = program.stages.toList.map fun stage =>
        (stage, Text.unlines (Header.lines program mutation stage ++
          activations program variant.active ++
          (if variant.blockSize = 0 then []
            else blockDeclaration program variant.usesPushConstants) ++
          program.globals ++ program.stageCode.get stage)) := by
  have hprogram := wellFormed_of_read hread
  obtain ⟨block, generated⟩ := generated_of_variant hvariant
  obtain ⟨places, hlayout, -, hplacements⟩ :=
    Member.layOut_declaredMembers hprogram generated.valid (fun _ h => h) hprogram.inputs.distinct
      generated.placed
  refine ⟨_, block, places, ?_, declares_declaredMembers hprogram generated.valid variant.active,
    pairwise_index_lt hprogram, hlayout, hplacements, generated.blockSize, ?_⟩
  · rw [keptLines_members hprogram, map_ofLine?_memberLine hprogram]
  · rw [generated.sources]
    refine List.map_congr_left fun stage _ => ?_
    rw [sourceLines]
    rcases Nat.eq_zero_or_pos variant.blockSize with hzero | hpos
    · rw [if_neg (by omega), if_pos hzero]
    · rw [if_pos hpos, if_neg (by omega)]

/-- A file with a plain, an inactive and an instanced member of the block. -/
def crowdFile : Text :=
  Text.unlines
    ["#pragma anki mutator instanced COUNT 1 3".toList, "#pragma anki start vert".toList,
     "#pragma anki input Vec3 u_light".toList, "#ifdef DEBUG".toList,
     "#pragma anki input Vec4 u_tint".toList, "#endif".toList,
     "#pragma anki input instanced Mat3 u_model".toList, "#pragma anki end".toList]

/-- The program of that file. -/
def crowd : Program where
  fileName := "crowd".toList
  settings := .default
  mutators := [⟨"COUNT".toList, [1, 3], true⟩]
  rewrites := []
  inputs :=
    [⟨"u_light".toList, 0, .vec3, false, none, none⟩, ⟨"u_tint".toList, 1, .vec4, false, none, none⟩,
     ⟨"u_model".toList, 2, .mat3, true, none, none⟩]
  stages := .singleton .vertex
  descriptorSet := 0
  instanceMutator := some 0
  globals := []
  stageCode :=
    { PerStage.const [] with
      vertex :=
        ["#define _ANKI_INPUT_SITE_u_light".toList, "#define u_light _anki_unis._m_u_light".toList,
         "#ifdef DEBUG".toList, "#define _ANKI_INPUT_SITE_u_tint".toList,
         "#define u_tint _anki_unis._m_u_tint".toList, "#endif".toList,
         "#define _ANKI_INPUT_SITE_u_model".toList,
         "#define u_model _anki_unis._m_u_model".toList] }
  members :=
    ["#if defined(_ANKI_ACTIVATE_INPUT_u_light)".toList, "\tvec3 _m_u_light;".toList,
     "#endif".toList, "#if defined(_ANKI_ACTIVATE_INPUT_u_tint)".toList,
     "\tvec4 _m_u_tint;".toList, "#endif".toList,
     "#if defined(_ANKI_ACTIVATE_INPUT_u_model)".toList, "\tmat3 _m_u_model[COUNT];".toList,
     "#endif".toList]

theorem variant_block_agrees_crowd :
    Program.read (.ofFiles [("crowd".toList, crowdFile)]) .default "crowd".toList = .ok crowd ∧
      ∃ variant, crowd.variant [3] = .ok variant ∧ variant.blockSize = 160 ∧
        ∃ members block places,
          (Guarded.keptLines (Guarded.definedNames (activations crowd variant.active)) []
            (Text.lines (Text.unlines crowd.members))).map Member.ofLine? = members.map some ∧
          List.Forall₂ (Member.Declares crowd) members
            (crowd.inputs.filter fun input => variant.uses input && input.inBlock) ∧
          (crowd.inputs.Pairwise fun input later => input.index < later.index) ∧
          Member.layOut crowd [3] (.empty crowd.settings.packing) members = some (block, places) ∧
          (variant.placements = crowd.inputs.map fun input => places.lookup input.name) ∧
          variant.blockSize = block.size ∧
          variant.sources = crowd.stages.toList.map fun stage =>
            (stage, Text.unlines (Header.lines crowd [3] stage ++
              activations crowd variant.active ++
              (if variant.blockSize = 0 then []
                else blockDeclaration crowd variant.usesPushConstants) ++
              crowd.globals ++ crowd.stageCode.get stage)) := by
  have hread : Program.read (.ofFiles [("crowd".toList, crowdFile)]) .default "crowd".toList =
      .ok crowd := by
    -- A literal is spelled out once, in the goal, and not wherever the evaluation looks at it.
    unfold crowdFile crowd
    repeat rewrite [String.toList_ofList]
    decide +kernel
  have hasks : crowd.AsksNoMacro := by
    refine asksNoMacro_of_not_isMacro ?_
    unfold crowd
    repeat rewrite [String.toList_ofList]
    decide +kernel
  have hmasks : crowd.stages.toList.map (crowd.bareInputs [3]) = [(⟨5⟩ : InputSet)].map .ok := by
    unfold crowd
    repeat rewrite [String.toList_ofList]
    decide +kernel
  obtain ⟨block, placements, hplaced, hsize⟩ : ∃ block placements,
      placeInputs ([(⟨5⟩ : InputSet)].foldl InputSet.union .empty) (crowd.instanceCount? [3])
          (.empty crowd.settings.packing) crowd.inputs = .ok (block, placements) ∧
        block.size = 160 :=
    ⟨_, _, rfl, rfl⟩
  have hvariant := variant_eq_assemble_of_bare (wellFormed_of_read hread) (by decide) hasks hmasks
    hplaced
  rw [assemble] at hvariant
  exact ⟨hread, _, hvariant, hsize, variant_block_agrees hread hvariant⟩

end Program

end ShaderVariants
