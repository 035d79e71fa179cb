import ShaderVariants.Proofs.Program.Invariant

/-!
# Well-formed programs

What holds of the mutators, rules, inputs and block members of every program that has been read
(`Program.wellFormed_of_read`).
-/

namespace ShaderVariants

/-! ## 1. Mutators and rules -/

/-- What is known of mutators, of the place of the one that counts instances, and of the rules. -/
structure MutatorsSound (mutators : List Mutator) (counter : Option Nat)
    (rules : List Rewrite) : Prop where
  identifiers : ∀ mutator ∈ mutators, Text.isIdentifier mutator.name = true
  distinct : (mutators.map Mutator.name).Nodup
  values : ∀ mutator ∈ mutators, mutator.values ≠ [] ∧ mutator.values.Pairwise (· < ·)
  counter : counter = mutators.findIdx? Mutator.countsInstances
  single : (mutators.filter Mutator.countsInstances).length ≤ 1
  positive : ∀ mutator ∈ mutators, mutator.countsInstances = true →
    ∀ value ∈ mutator.values, 1 ≤ value
  rules : ∀ rule ∈ rules, rule.WellFormed mutators

/-- A mutator is found by its name at its own place. -/
theorem findIdx?_name_of_nodup {mutators : List Mutator}
    (hdistinct : (mutators.map Mutator.name).Nodup) {place : Nat} {mutator : Mutator}
    (hplace : mutators[place]? = some mutator) :
    (mutators.findIdx? fun other => other.name == mutator.name) = some place := by
  obtain ⟨hlt, heq⟩ := List.getElem?_eq_some_iff.mp hplace
  rw [List.findIdx?_eq_some_iff_getElem]
  refine ⟨hlt, by rw [heq, beq_self_eq_true], fun earlier hearlier => ?_⟩
  have hne := List.pairwise_iff_getElem.mp hdistinct earlier place
    (by rw [List.length_map]; omega) (by rwa [List.length_map]) hearlier
  rw [List.getElem_map, List.getElem_map, heq] at hne
  exact fun hsame => hne (beq_iff_eq.mp hsame)

namespace MutatorsSound

theorem empty : MutatorsSound [] none [] := by
  constructor <;> simp

theorem exists_of_counter {mutators : List Mutator} {counter : Option Nat} {rules : List Rewrite}
    (h : MutatorsSound mutators counter rules) {place : Nat} (hplace : counter = some place) :
    ∃ mutator, mutators[place]? = some mutator ∧ mutator.countsInstances = true := by
  rw [h.counter, List.findIdx?_eq_some_iff_getElem] at hplace
  obtain ⟨hlt, hflag, -⟩ := hplace
  exact ⟨mutators[place], List.getElem?_eq_getElem hlt, hflag⟩

/-- Where no mutator counts instances, none is flagged. -/
theorem findIdx?_eq_none {draft : Draft}
    (h : MutatorsSound draft.mutators draft.instanceMutator draft.rewrites)
    (hnone : draft.instanceCounter? = none) :
    draft.mutators.findIdx? Mutator.countsInstances = none := by
  rw [← h.counter]
  cases hcounter : draft.instanceMutator with
  | none => rfl
  | some place =>
    obtain ⟨mutator, hmutator, -⟩ := h.exists_of_counter hcounter
    simp [Draft.instanceCounter?, hcounter, hmutator] at hnone

theorem addMutator {draft : Draft} {counts : Bool} {name : Text} {values : List Int}
    (h : MutatorsSound draft.mutators draft.instanceMutator draft.rewrites)
    (new : draft.NewMutator counts name values) :
    MutatorsSound (draft.addMutator counts name values).mutators
      (draft.addMutator counts name values).instanceMutator draft.rewrites := by
  have hmem : ∀ mutator, mutator ∈ (draft.addMutator counts name values).mutators ↔
      mutator ∈ draft.mutators ∨ mutator = ⟨name, values, counts⟩ := by
    simp [Draft.addMutator]
  constructor
  · intro mutator hmutator
    rcases (hmem mutator).mp hmutator with hmutator | rfl
    · exact h.identifiers mutator hmutator
    · exact new.identifier
  · simp only [Draft.addMutator, List.map_append, List.map_cons, List.map_nil]
    rw [List.nodup_append]
    refine ⟨h.distinct, by simp, ?_⟩
    intro other hother last hlast heq
    obtain ⟨mutator, hmutator, rfl⟩ := List.mem_map.mp hother
    exact new.fresh mutator hmutator (heq.trans (List.mem_singleton.mp hlast))
  · intro mutator hmutator
    rcases (hmem mutator).mp hmutator with hmutator | rfl
    · exact h.values mutator hmutator
    · exact ⟨new.nonempty, new.increasing⟩
  · simp only [Draft.addMutator, List.findIdx?_append]
    -- Another counter is declared only where there is none, so the first one stays the only one.
    cases hcounts : counts with
    | false => simp [h.counter]
    | true => simp [h.findIdx?_eq_none (new.single hcounts)]
  · simp only [Draft.addMutator, List.filter_append]
    cases hcounts : counts with
    | false => simpa using h.single
    | true =>
      have hnone := List.findIdx?_eq_none_iff.mp (h.findIdx?_eq_none (new.single hcounts))
      simpa using hnone
  · intro mutator hmutator
    rcases (hmem mutator).mp hmutator with hmutator | rfl
    · exact h.positive mutator hmutator
    · exact new.positive
  · exact fun rule hrule => (h.rules rule hrule).append _

theorem addRule {mutators : List Mutator} {counter : Option Nat} {rules : List Rewrite}
    (h : MutatorsSound mutators counter rules) {rule : Rewrite} (hrule : rule.WellFormed mutators) :
    MutatorsSound mutators counter (rule :: rules) :=
  { h with rules := List.forall_mem_cons.mpr ⟨hrule, h.rules⟩ }

theorem reverse {mutators : List Mutator} {counter : Option Nat} {rules : List Rewrite}
    (h : MutatorsSound mutators counter rules) : MutatorsSound mutators counter rules.reverse :=
  { h with rules := fun rule hrule => h.rules rule (List.mem_reverse.mp hrule) }

end MutatorsSound

/-! ## 2. Inputs and block members -/

/-- The lines that declare those of the inputs that are members of the uniform block. -/
def blockMembers (counter : Option Mutator) (inputs : List Input) : List Text :=
  (inputs.filter Input.inBlock).flatMap (Draft.memberLines counter)

/-- What is known of an input. -/
structure Input.Sound (counter : Option Mutator) (input : Input) : Prop where
  identifier : Text.isIdentifier input.name = true
  typed : input.type ≠ .void
  constant : input.isConstant = true → input.type.isResource = false ∧ input.type.isMatrix = false
  instanced : input.instanced = true → input.inBlock = true ∧ counter.isSome = true

/-- What is known of all inputs and of the block members that they declare. -/
structure InputsSound (inputs : List Input) (counter : Option Mutator) (members : List Text) :
    Prop where
  each : ∀ input ∈ inputs, input.Sound counter
  distinct : (inputs.map Input.name).Nodup
  indices : inputs.map Input.index = List.range inputs.length
  capacity : inputs.length ≤ inputCapacity
  members_eq : members = blockMembers counter inputs

/-- The extent of an input is told by the counter only if the input is instanced. -/
theorem Draft.memberLines_congr {counter other : Option Mutator} {input : Input}
    (h : input.instanced = true → counter = other) :
    memberLines counter input = memberLines other input := by
  have hextent : extent counter input = extent other input := by
    cases hinstanced : input.instanced with
    | true => rw [h hinstanced]
    | false => cases counter <;> cases other <;> simp [extent, hinstanced]
  simp only [memberLines, hextent]

theorem Draft.NewInput.sound {draft : Draft} {constant instanced : Bool} {type : DataType}
    {name : Text} (new : draft.NewInput constant instanced type name) :
    (draft.newInput constant instanced type name).Sound draft.instanceCounter? where
  identifier := new.identifier
  typed := new.typed
  constant := by
    have hconsistent := new.consistent
    rw [conflict?] at hconsistent
    cases constant <;> cases instanced <;> simp_all [newInput, Input.isConstant]
  instanced := by
    have hconsistent := new.consistent
    rw [conflict?] at hconsistent
    cases constant <;> cases instanced <;> cases hresource : type.isResource <;>
      simp_all [newInput, Input.isConstant, Input.inBlock, Option.isSome_iff_ne_none]

namespace InputsSound

variable {inputs : List Input} {counter : Option Mutator} {members : List Text}

theorem empty : InputsSound [] none [] := by
  constructor <;> simp [blockMembers]

theorem index_lt (h : InputsSound inputs counter members) {input : Input}
    (hinput : input ∈ inputs) : input.index < inputs.length := by
  rw [← List.mem_range, ← h.indices]
  exact List.mem_map_of_mem hinput

theorem index_lt_capacity (h : InputsSound inputs counter members) :
    ∀ input ∈ inputs, input.index < inputCapacity :=
  fun _ hinput => Nat.lt_of_lt_of_le (h.index_lt hinput) h.capacity

theorem nodup_index (h : InputsSound inputs counter members) : (inputs.map Input.index).Nodup := by
  rw [h.indices]
  exact List.nodup_range

/-- A counter that is declared later matters to no input that is there already. -/
theorem setCounter (h : InputsSound inputs counter members) {other : Option Mutator}
    (hother : counter.isSome = true → other = counter) : InputsSound inputs other members where
  each := by
    intro input hinput
    have hsound := h.each input hinput
    refine { hsound with instanced := fun hinstanced => ?_ }
    obtain ⟨hblock, hcounter⟩ := hsound.instanced hinstanced
    exact ⟨hblock, hother hcounter ▸ hcounter⟩
  distinct := h.distinct
  indices := h.indices
  capacity := h.capacity
  members_eq := by
    -- Instanced inputs were declared with the counter already known; the others have no extent.
    rw [h.members_eq, blockMembers, blockMembers]
    refine List.flatMap_congr fun input hinput => Draft.memberLines_congr fun hinstanced => ?_
    have hmem := List.mem_of_mem_filter hinput
    exact (hother ((h.each input hmem).instanced hinstanced).2).symm

theorem addInput {draft : Draft} {constant instanced : Bool} {type : DataType} {name : Text}
    (h : InputsSound draft.inputs draft.instanceCounter? draft.members)
    (new : draft.NewInput constant instanced type name) :
    InputsSound (draft.addInput constant instanced type name).inputs draft.instanceCounter?
      (draft.addInput constant instanced type name).members := by
  -- The code that a declaration adds matters to none of the fields.
  obtain ⟨nextConstant, globals, stageCode, heq⟩ :=
    draft.addInput_eq constant instanced type name
  have hnew := new.sound
  have hname : (draft.newInput constant instanced type name).name = name := rfl
  have hindex : (draft.newInput constant instanced type name).index = draft.inputs.length := rfl
  rw [heq]
  generalize draft.newInput constant instanced type name = input at hnew hname hindex
  constructor
  · exact List.forall_mem_append.mpr ⟨h.each, by simpa using hnew⟩
  · simp only [List.map_append, List.map_cons, List.map_nil, hname]
    rw [List.nodup_append]
    refine ⟨h.distinct, by simp, ?_⟩
    intro other hother last hlast hsame
    obtain ⟨input, hinput, rfl⟩ := List.mem_map.mp hother
    exact new.fresh input hinput (hsame.trans (List.mem_singleton.mp hlast))
  · simp [h.indices, List.range_succ, hindex]
  · rw [List.length_append]
    exact new.room
  · simp only [h.members_eq, blockMembers, List.filter_append, List.flatMap_append]
    cases hblock : input.inBlock <;> simp [hblock]

theorem exists_of_mem_bindResources {next : Nat} {input : Input}
    (h : input ∈ Draft.bindResources next inputs) :
    ∃ declared ∈ inputs, ∃ binding, input = { declared with binding := binding } := by
  induction inputs generalizing next with
  | nil => simp [Draft.bindResources] at h
  | cons first rest ih =>
    rw [Draft.bindResources] at h
    split at h
    · rcases List.mem_cons.mp h with rfl | h
      · exact ⟨first, by simp, _, rfl⟩
      · obtain ⟨declared, hdeclared, hinput⟩ := ih h
        exact ⟨declared, List.mem_cons_of_mem first hdeclared, hinput⟩
    · rcases List.mem_cons.mp h with rfl | h
      · exact ⟨input, by simp, input.binding, rfl⟩
      · obtain ⟨declared, hdeclared, hinput⟩ := ih h
        exact ⟨declared, List.mem_cons_of_mem first hdeclared, hinput⟩

theorem map_bindResources {α : Type} {f : Input → α}
    (hf : ∀ input binding, f { input with binding := binding } = f input) (next : Nat)
    (inputs : List Input) : (Draft.bindResources next inputs).map f = inputs.map f := by
  induction inputs generalizing next with
  | nil => rfl
  | cons input rest ih =>
    rw [Draft.bindResources]
    split
    · simp [hf, ih]
    · simp [ih]

/-- The block members of inputs, written as one list for each input. -/
theorem blockMembers_eq (counter : Option Mutator) (inputs : List Input) :
    blockMembers counter inputs = (inputs.map fun input =>
      if input.inBlock then Draft.memberLines counter input else []).flatten := by
  induction inputs with
  | nil => rfl
  | cons input rest ih =>
    rw [List.map_cons, List.flatten_cons, ← ih, blockMembers, blockMembers]
    cases hblock : input.inBlock <;> simp [hblock]

theorem bindResources (h : InputsSound inputs counter members) (next : Nat) :
    InputsSound (Draft.bindResources next inputs) counter members := by
  have hlength : (Draft.bindResources next inputs).length = inputs.length := by
    rw [← List.length_map Input.name, map_bindResources fun _ _ => rfl, List.length_map]
  constructor
  · intro input hinput
    obtain ⟨declared, hdeclared, binding, rfl⟩ := exists_of_mem_bindResources hinput
    have hsound := h.each declared hdeclared
    exact ⟨hsound.identifier, hsound.typed, hsound.constant, hsound.instanced⟩
  · rw [map_bindResources fun _ _ => rfl]
    exact h.distinct
  · rw [map_bindResources fun _ _ => rfl, hlength]
    exact h.indices
  · rw [hlength]
    exact h.capacity
  · rw [h.members_eq, blockMembers_eq, blockMembers_eq, map_bindResources fun _ _ => rfl]

end InputsSound

/-! ## 3. Programs -/

namespace Draft

/-- What is known of a draft. -/
structure WellFormed (draft : Draft) : Prop where
  mutators : MutatorsSound draft.mutators draft.instanceMutator draft.rewrites
  inputs : InputsSound draft.inputs draft.instanceCounter? draft.members

theorem wellFormed_empty : WellFormed .empty :=
  ⟨.empty, .empty⟩

/-- The mutator that counts instances stays the same when another one is declared. -/
theorem instanceCounter?_addMutator {draft : Draft} {counts : Bool} {name : Text}
    {values : List Int} (h : draft.WellFormed) (new : draft.NewMutator counts name values)
    (hcounter : draft.instanceCounter?.isSome = true) :
    (draft.addMutator counts name values).instanceCounter? = draft.instanceCounter? := by
  cases counts with
  | true => simp [new.single rfl] at hcounter
  | false =>
    cases hplace : draft.instanceMutator with
    | none => simp [instanceCounter?, hplace] at hcounter
    | some place =>
      obtain ⟨mutator, hmutator, -⟩ := h.mutators.exists_of_counter hplace
      have hlt := (List.getElem?_eq_some_iff.mp hmutator).1
      simp [instanceCounter?, addMutator, hplace, List.getElem?_append_left hlt]

theorem WellFormed.step {draft next : Draft} {file : Text} {line : Nat} (h : draft.WellFormed)
    (hstep : Step draft file line next) : next.WellFormed := by
  cases hstep with
  | mutator new =>
    exact ⟨h.mutators.addMutator new, h.inputs.setCounter (instanceCounter?_addMutator h new)⟩
  | rewrite sound => exact ⟨h.mutators.addRule sound, h.inputs⟩
  | @input constant instanced type name new =>
    have hinputs := h.inputs.addInput new
    obtain ⟨nextConstant, globals, stageCode, heq⟩ :=
      draft.addInput_eq constant instanced type name
    rw [heq] at hinputs ⊢
    exact ⟨h.mutators, hinputs⟩
  | openStage | closeStage | firstSet => exact ⟨h.mutators, h.inputs⟩
  | sameSet => exact h

theorem invariant_wellFormed : Invariant WellFormed where
  code := by
    intro draft line _ h
    obtain ⟨globals, stageCode, heq⟩ := draft.pushCode_eq line
    rw [heq]
    exact ⟨h.mutators, h.inputs⟩
  once := fun _ _ h => ⟨h.mutators, h.inputs⟩
  step := fun _ _ _ _ hstep h => h.step hstep

end Draft

/-- What is known of a program. -/
structure Program.WellFormed (program : Program) : Prop where
  mutators : MutatorsSound program.mutators program.instanceMutator program.rewrites
  inputs : InputsSound program.inputs program.instanceCounter? program.members

theorem Draft.WellFormed.finish {draft : Draft} {fileName : Text} {lastLine : Nat}
    {settings : Settings} {program : Program} (h : draft.WellFormed)
    (hfinish : draft.finish fileName lastLine settings = .ok program) : program.WellFormed := by
  obtain ⟨-, -, rfl⟩ := Draft.finish_eq_ok_iff.mp hfinish
  exact ⟨h.mutators.reverse, h.inputs.bindResources _⟩

/-- A program that has been read is well formed. -/
theorem Program.wellFormed_of_read {reader : FileReader} {settings : Settings} {fileName : Text}
    {program : Program} (h : Program.read reader settings fileName = .ok program) :
    program.WellFormed := by
  obtain ⟨draft, hdraft, _, hfinish⟩ :=
    Draft.invariant_wellFormed.read h Draft.wellFormed_empty
  exact hdraft.finish hfinish

end ShaderVariants
