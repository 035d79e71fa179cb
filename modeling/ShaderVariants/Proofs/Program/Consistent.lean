import ShaderVariants.Proofs.Program.Numbering
import ShaderVariants.Proofs.Program.Stages
import ShaderVariants.Proofs.Program.WellFormed

/-!
# Consistent programs

What whoever works with a program relies on, put together: reading gives no other programs
(`Program.consistent_of_read`).
-/

namespace ShaderVariants

/-- A rule that names mutators by increasing place, asks for and gives declared values only, and
changes something. -/
structure Rewrite.Consistent (mutators : List Mutator) (rule : Rewrite) : Prop where
  nonempty : rule.records ≠ []
  increasing : (rule.records.map RewriteRecord.mutator).Pairwise (· < ·)
  declared : ∀ record ∈ rule.records, ∃ mutator, mutators[record.mutator]? = some mutator ∧
    record.source ∈ mutator.values ∧ record.target ∈ mutator.values
  changes : ∃ record ∈ rule.records, record.source ≠ record.target

theorem Rewrite.WellFormed.consistent {mutators : List Mutator} {rule : Rewrite}
    (h : rule.WellFormed mutators) : rule.Consistent mutators where
  nonempty := by
    obtain ⟨record, hrecord, -⟩ := h.changes
    exact List.ne_nil_of_mem hrecord
  increasing := h.increasing
  declared := by
    intro record hrecord
    obtain ⟨⟨mutator, hmutator, hsource⟩, other, hother, htarget⟩ := h.declared record hrecord
    obtain rfl : mutator = other := Option.some.inj (hmutator.symm.trans hother)
    exact ⟨mutator, hmutator, List.contains_iff_mem.mp hsource, List.contains_iff_mem.mp htarget⟩
  changes := h.changes

/-- An input that is an identifier, is a constant only if it is a scalar or a vector, is bound just
if it is a texture or a sampler, and has one element for each instance only in the block and under
a counter. -/
structure Input.Consistent (counter : Option Nat) (input : Input) : Prop where
  identifier : Text.isIdentifier input.name = true
  constant : input.constantId.isSome = true → ∃ rows, input.type.shape? = some (1, rows)
  bound : input.binding.isSome = true ↔ input.type.isTexture = true ∨ input.type.isSampler = true
  instanced : input.instanced = true → input.inBlock = true ∧ counter.isSome = true

/-- A program that keeps all that its users rely on. -/
structure Program.Consistent (program : Program) : Prop where
  mutatorNames : (program.mutators.map Mutator.name).Nodup
  mutatorIdentifiers : ∀ mutator ∈ program.mutators, Text.isIdentifier mutator.name = true
  values : ∀ mutator ∈ program.mutators, mutator.values ≠ [] ∧ mutator.values.Pairwise (· < ·)
  singleCounter : ∀ (first second : Nat) (a b : Mutator),
    program.mutators[first]? = some a → a.countsInstances = true →
    program.mutators[second]? = some b → b.countsInstances = true → first = second
  counter : ∀ place, program.instanceMutator = some place ↔
    ∃ mutator, program.mutators[place]? = some mutator ∧ mutator.countsInstances = true
  countsPositive : ∀ mutator ∈ program.mutators, mutator.countsInstances = true →
    ∀ value ∈ mutator.values, 1 ≤ value
  rules : ∀ rule ∈ program.rewrites, rule.Consistent program.mutators
  inputNames : (program.inputs.map Input.name).Nodup
  indices : ∀ (place : Nat) (input : Input), program.inputs[place]? = some input →
    input.index = place
  capacity : program.inputs.length ≤ 128
  inputs : ∀ input ∈ program.inputs, input.Consistent program.instanceMutator
  staged : ∃ stage, program.stages.mem stage = true
  computeAlone : program.stages.mem .compute = true →
    ∀ stage, program.stages.mem stage = true → stage = .compute
  absentCode : ∀ stage, program.stages.mem stage = false → program.stageCode.get stage = []

/-! ## 1. The mutator that counts instances -/

section

variable {mutators : List Mutator} {counter : Option Nat} {rules : List Rewrite}

/-- Among the mutators there are no two that count instances. -/
theorem MutatorsSound.eq_of_counts (h : MutatorsSound mutators counter rules) {first second : Nat}
    {a b : Mutator} (ha : mutators[first]? = some a) (hacounts : a.countsInstances = true)
    (hb : mutators[second]? = some b) (hbcounts : b.countsInstances = true) : first = second := by
  -- Two places would leave two mutators when only the counters are kept.
  by_contra hne
  wlog hlt : first < second generalizing first second a b
  · exact this hb hbcounts ha hacounts (Ne.symm hne) (by omega)
  obtain ⟨hfirst, rfl⟩ := List.getElem?_eq_some_iff.mp ha
  obtain ⟨hsecond, rfl⟩ := List.getElem?_eq_some_iff.mp hb
  have hsplit := List.take_append_drop second mutators
  have htake : mutators[first] ∈ (mutators.take second).filter Mutator.countsInstances :=
    List.mem_filter.mpr ⟨List.mem_take_iff_getElem.mpr ⟨first, by omega, rfl⟩, hacounts⟩
  have hdrop : mutators[second] ∈ (mutators.drop second).filter Mutator.countsInstances :=
    List.mem_filter.mpr ⟨List.mem_drop_iff_getElem.mpr ⟨0, by omega, by simp⟩, hbcounts⟩
  have hsingle := h.single
  rw [← hsplit, List.filter_append, List.length_append] at hsingle
  have := List.length_pos_of_mem htake
  have := List.length_pos_of_mem hdrop
  omega

theorem MutatorsSound.counter_eq_some_iff (h : MutatorsSound mutators counter rules) (place : Nat) :
    counter = some place ↔
      ∃ mutator, mutators[place]? = some mutator ∧ mutator.countsInstances = true := by
  constructor
  · exact h.exists_of_counter
  · rintro ⟨mutator, hmutator, hcounts⟩
    cases hcounter : counter with
    | none =>
      rw [h.counter, List.findIdx?_eq_none_iff] at hcounter
      have := hcounter mutator (List.mem_of_getElem? hmutator)
      rw [hcounts] at this
      cases this
    | some other =>
      obtain ⟨first, hfirst, hfirstcounts⟩ := h.exists_of_counter hcounter
      rw [h.eq_of_counts hfirst hfirstcounts hmutator hcounts]

end

/-! ## 2. Inputs -/

theorem DataType.exists_column_of_scalarOrVector {type : DataType} (htyped : type ≠ .void)
    (h : type.isResource = false ∧ type.isMatrix = false) :
    ∃ rows, type.shape? = some (1, rows) := by
  revert htyped h
  cases type <;> simp [isResource, isTexture, isSampler, isMatrix, shape?]

theorem Input.Sound.consistent {program : Program} {input : Input}
    (h : input.Sound program.instanceCounter?)
    (hbound : input.binding.isSome = input.type.isResource) :
    input.Consistent program.instanceMutator where
  identifier := h.identifier
  constant := fun hconstant =>
    DataType.exists_column_of_scalarOrVector h.typed (h.constant hconstant)
  bound := by
    rw [hbound, DataType.isResource, Bool.or_eq_true]
  instanced := by
    intro hinstanced
    obtain ⟨hblock, hcounter⟩ := h.instanced hinstanced
    refine ⟨hblock, ?_⟩
    cases hplace : program.instanceMutator with
    | none => simp [Program.instanceCounter?, hplace] at hcounter
    | some place => rfl

theorem InputsSound.index_eq {inputs : List Input} {counter : Option Mutator} {members : List Text}
    (h : InputsSound inputs counter members) {place : Nat} {input : Input}
    (hinput : inputs[place]? = some input) : input.index = place := by
  have hindex : (inputs.map Input.index)[place]? = some input.index := by
    rw [List.getElem?_map, hinput, Option.map_some]
  rw [h.indices] at hindex
  obtain ⟨hlt, heq⟩ := List.getElem?_eq_some_iff.mp hindex
  rw [← heq, List.getElem_range]

/-! ## 3. Programs -/

/-- Whatever the files of a program say, reading it gives a consistent program or none. -/
theorem Program.consistent_of_read {reader : FileReader} {settings : Settings} {fileName : Text}
    {program : Program} (h : Program.read reader settings fileName = .ok program) :
    program.Consistent := by
  have hformed := Program.wellFormed_of_read h
  obtain ⟨hstaged, hstages⟩ := Program.stagesSound_of_read h
  obtain ⟨declared, hnumbered, hinputs⟩ := Program.numbered_of_read h
  constructor
  · exact hformed.mutators.distinct
  · exact hformed.mutators.identifiers
  · exact hformed.mutators.values
  · exact fun first second a b ha hacounts hb hbcounts =>
      hformed.mutators.eq_of_counts ha hacounts hb hbcounts
  · exact hformed.mutators.counter_eq_some_iff
  · exact hformed.mutators.positive
  · exact fun rule hrule => (hformed.mutators.rules rule hrule).consistent
  · exact hformed.inputs.distinct
  · exact fun place input hinput => hformed.inputs.index_eq hinput
  · exact hformed.inputs.capacity
  · intro input hinput
    apply (hformed.inputs.each input hinput).consistent
    rw [hinputs] at hinput
    exact Draft.binding_isSome_of_mem_bindResources hnumbered.unbound hinput
  · exact hstaged
  · exact hstages.alone
  · exact hstages.absent

/-- A file with a counter, a rule, a constant, a texture and an instanced member. -/
def swarmFile : Text :=
  Text.unlines
    ["#pragma anki mutator LOD 0 1".toList, "#pragma anki mutator instanced COUNT 1 4".toList,
     "#pragma anki rewrite_mutation COUNT 4 LOD 1 to LOD 0 COUNT 4".toList,
     "#pragma anki start vert".toList, "#pragma anki input const UVec2 u_tiles".toList,
     "#pragma anki input texture2D u_map".toList,
     "#pragma anki input instanced Mat4 u_place".toList, "#pragma anki end".toList]

/-- The program of that file. -/
def swarm : Program where
  fileName := "swarm".toList
  settings := .default
  mutators := [⟨"LOD".toList, [0, 1], false⟩, ⟨"COUNT".toList, [1, 4], true⟩]
  rewrites := [⟨[⟨0, 1, 0⟩, ⟨1, 4, 4⟩]⟩]
  inputs :=
    [⟨"u_tiles".toList, 0, .uvec2, false, some 0, none⟩,
     ⟨"u_map".toList, 1, .texture2D, false, none, some 1⟩,
     ⟨"u_place".toList, 2, .mat4, true, none, none⟩]
  stages := .singleton .vertex
  descriptorSet := 0
  instanceMutator := some 1
  globals := []
  stageCode :=
    { PerStage.const [] with
      vertex :=
        ["#define _ANKI_INPUT_SITE_u_tiles".toList,
         "ANKI_SPECIALIZATION_CONSTANT_UVEC2(u_tiles, 0);".toList,
         "#define _ANKI_INPUT_SITE_u_map".toList,
         ("layout(set = _ANKI_DESCRIPTOR_SET, binding = _ANKI_BINDING_u_map) " ++
           "uniform texture2D u_map;").toList,
         "#define _ANKI_INPUT_SITE_u_place".toList,
         "#define u_place _anki_unis._m_u_place".toList] }
  members :=
    ["#if defined(_ANKI_ACTIVATE_INPUT_u_place)".toList, "\tmat4 _m_u_place[COUNT];".toList,
     "#endif".toList]

theorem Program.read_swarm :
    Program.read (.ofFiles [("swarm".toList, swarmFile)]) .default "swarm".toList = .ok swarm := by
  -- A literal is spelled out once, in the goal, and not wherever the evaluation looks at it.
  unfold swarmFile swarm
  rewrite [String.toList_append]
  repeat rewrite [String.toList_ofList]
  decide +kernel

theorem Program.consistent_of_read_swarm :
    Program.read (.ofFiles [("swarm".toList, swarmFile)]) .default "swarm".toList = .ok swarm ∧
      swarm.Consistent :=
  ⟨read_swarm, consistent_of_read read_swarm⟩

end ShaderVariants
