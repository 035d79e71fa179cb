import ShaderVariants.Proofs.Program.WellFormed
import ShaderVariants.Variant.Basic

/-!
# Generated variants

What is known of the parts of a variant that has been generated (`Program.generated_of_variant`), of
the number of elements that instanced inputs have under a valid mutation, of the places that inputs
take one after the other (`cases_of_placeInputs_cons`), and of the inputs that the stages find
active one after the other.
-/

namespace ShaderVariants

/-! ## 1. Instance counts -/

namespace Program

variable {program : Program} {mutation : Mutation}

theorem exists_counter_of_instanced (hprogram : program.WellFormed) {input : Input}
    (hinput : input ∈ program.inputs) (h : input.instanced = true) :
    ∃ counter, program.instanceCounter? = some counter :=
  Option.isSome_iff_exists.mp ((hprogram.inputs.each input hinput).instanced h).2

/-- The value of the mutator that counts instances is the number of instances. -/
theorem exists_instanceCount? (hprogram : program.WellFormed)
    (hvalid : program.validate mutation = .ok ()) {counter : Mutator}
    (hcounter : program.instanceCounter? = some counter) :
    ∃ (place : Nat) (value : Int), program.mutators[place]? = some counter ∧
      counter.countsInstances = true ∧ mutation[place]? = some value ∧ 1 ≤ value ∧
      program.instanceCount? mutation = some value.toNat := by
  obtain ⟨place, hmutator, hplace⟩ := Option.bind_eq_some_iff.mp hcounter
  obtain ⟨counter', hplace', hcounts⟩ := hprogram.mutators.exists_of_counter hmutator
  obtain rfl : counter = counter' := Option.some.inj (hplace.symm.trans hplace')
  obtain ⟨value, hvalue, hmem⟩ := Mutation.exists_hasValue_of_validate hvalid hplace
  have hpositive := hprogram.mutators.positive counter (List.mem_of_getElem? hplace) hcounts value
    (List.contains_iff_mem.mp hmem)
  refine ⟨place, value, hplace, hcounts, hvalue, hpositive, ?_⟩
  have hnonneg : 0 ≤ value := by omega
  simp [instanceCount?, hmutator, hvalue, hnonneg]

end Program

/-! ## 2. The parts of a variant -/

/-- What the parts of a variant are. -/
structure Variant.Generated (program : Program) (mutation : Mutation) (variant : Variant)
    (block : Block) : Prop where
  valid : program.validate mutation = .ok ()
  keepsMutation : variant.mutation = mutation
  active : program.activeIn mutation .empty program.stages.toList = .ok variant.active
  placed : placeInputs variant.active (program.instanceCount? mutation)
    (.empty program.settings.packing) program.inputs = .ok (block, variant.placements)
  bindings : variant.bindings = program.activeBindings variant.active
  blockSize : variant.blockSize = block.size
  storage : program.settings.storage.inPushConstants? program.settings.pushConstantsSize block.size =
    some variant.usesPushConstants
  sources : variant.sources = program.stages.toList.map fun stage =>
    (stage, Text.unlines (program.sourceLines mutation variant.active variant.blockSize
      variant.usesPushConstants stage))

theorem Program.generated_of_variant {program : Program} {mutation : Mutation} {variant : Variant}
    (h : program.variant mutation = .ok variant) :
    ∃ block, variant.Generated program mutation block := by
  rw [Program.variant] at h
  split at h
  · cases h
  next hvalid =>
    split at h
    · cases h
    next active hactive =>
      split at h
      · cases h
      next block placements hplaced =>
        rw [assemble] at h
        split at h
        · cases h
        next pushConstants hstorage =>
          obtain rfl := Except.ok.inj h
          exact ⟨block, hvalid, rfl, hactive, hplaced, rfl, rfl, hstorage, rfl⟩

/-! ## 3. Places one after the other -/

/-- An active member is placed before all that follow, and any other input takes no place. -/
theorem cases_of_placeInputs_cons {active : InputSet} {count : Option Nat}
    {block last : Block} {input : Input} {inputs : List Input} {placements : List (Option Placement)}
    (h : placeInputs active count block (input :: inputs) = .ok (last, placements)) :
    (∃ placement next others, (active.mem input.index && input.inBlock) = true ∧
      block.push input.type (if input.instanced then count else none) = some (placement, next) ∧
      placeInputs active count next inputs = .ok (last, others) ∧
      placements = some placement :: others) ∨
    ∃ others, (active.mem input.index && input.inBlock) = false ∧
      placeInputs active count block inputs = .ok (last, others) ∧ placements = none :: others := by
  rw [placeInputs] at h
  split at h
  next hmember =>
    split at h
    · cases h
    next placement next hpush =>
      split at h
      · cases h
      next last' others hplaced =>
        obtain ⟨rfl, rfl⟩ := Prod.mk.inj (Except.ok.inj h)
        exact Or.inl ⟨placement, next, others, hmember, hpush, hplaced, rfl⟩
  next hother =>
    split at h
    · cases h
    next last' others hplaced =>
      obtain ⟨rfl, rfl⟩ := Prod.mk.inj (Except.ok.inj h)
      exact Or.inr ⟨others, Bool.eq_false_iff.mpr hother, hplaced, rfl⟩

/-! ## 4. Stages one after the other -/

namespace Program

variable {program : Program} {mutation : Mutation}

/-- An index on which all stages agree is active as they say, if there is a stage at all. -/
theorem mem_activeIn {known active : InputSet} {stages : List Stage} {index : Nat} {found : Bool}
    (hstages : ∀ stage ∈ stages, ∀ mask,
      Condition.activeInputs (program.analyzedText mutation stage) program.inputs = .ok mask →
        mask.mem index = found)
    (h : program.activeIn mutation known stages = .ok active) :
    active.mem index = (known.mem index || (found && !stages.isEmpty)) := by
  induction stages generalizing known with
  | nil =>
    obtain rfl := Except.ok.inj h
    simp
  | cons stage rest ih =>
    obtain ⟨hstage, hrest⟩ := List.forall_mem_cons.mp hstages
    rw [activeIn] at h
    split at h
    · cases h
    next mask hmask =>
      rw [ih hrest h, InputSet.mem_union, hstage mask hmask]
      cases found <;> simp

/-- A conditional that cannot be followed is one of the text of a stage. -/
theorem exists_of_activeIn_eq_error {known : InputSet} {stages : List Stage} {e : VariantError}
    (h : program.activeIn mutation known stages = .error e) :
    ∃ stage ∈ stages, ∃ obstacle, e = .unsupportedConditional stage obstacle ∧
      Condition.activeInputs (program.analyzedText mutation stage) program.inputs =
        .error obstacle := by
  induction stages generalizing known with
  | nil => cases h
  | cons stage rest ih =>
    rw [activeIn] at h
    split at h
    next obstacle hobstacle =>
      exact ⟨stage, List.mem_cons_self, obstacle, (Except.error.inj h).symm, hobstacle⟩
    next mask hmask =>
      obtain ⟨failing, hfailing, hrest⟩ := ih h
      exact ⟨failing, List.mem_cons_of_mem stage hfailing, hrest⟩

theorem activeInputs_of_unsupportedConditional {stage : Stage} {obstacle : Condition.Obstacle}
    (h : program.variant mutation = .error (.unsupportedConditional stage obstacle)) :
    program.validate mutation = .ok () ∧ program.stages.mem stage = true ∧
      Condition.activeInputs (program.analyzedText mutation stage) program.inputs =
        .error obstacle := by
  rw [variant] at h
  split at h
  · cases h
  next hvalid =>
    split at h
    next e he =>
      obtain ⟨failing, hfailing, found, rfl, herror⟩ := exists_of_activeIn_eq_error he
      obtain ⟨rfl, rfl⟩ := VariantError.unsupportedConditional.inj (Except.error.inj h)
      exact ⟨hvalid, StageSet.mem_toList.mp hfailing, herror⟩
    next active hactive =>
      -- No later step fails with a conditional.
      split at h
      · cases h
      · rw [assemble] at h
        split at h <;> cases h

theorem exists_placements_of_no_members {inputs : List Input}
    (hinputs : ∀ input ∈ inputs, input.inBlock = false) (active : InputSet) (count : Option Nat)
    (block : Block) :
    ∃ placements, placeInputs active count block inputs = .ok (block, placements) := by
  induction inputs with
  | nil => exact ⟨[], rfl⟩
  | cons input rest ih =>
    obtain ⟨hinput, hrest⟩ := List.forall_mem_cons.mp hinputs
    obtain ⟨placements, hplacements⟩ := ih hrest
    exact ⟨none :: placements, by simp [placeInputs, hinput, hplacements]⟩

/-- Once the active inputs are known and placed, a variant is put together from them. -/
theorem variant_eq_assemble (hvalid : program.validate mutation = .ok ()) {active : InputSet}
    {block : Block} {placements : List (Option Placement)}
    (hactive : program.activeIn mutation .empty program.stages.toList = .ok active)
    (hplaced : placeInputs active (program.instanceCount? mutation)
      (.empty program.settings.packing) program.inputs = .ok (block, placements)) :
    program.variant mutation = program.assemble mutation active block placements := by
  rw [variant, hvalid, hactive]
  dsimp only
  rw [hplaced]

/-- Where the storage of the block is free, nothing can fail once the members are placed. -/
theorem exists_variant_of_placed (hstorage : program.settings.storage = .auto)
    (hvalid : program.validate mutation = .ok ()) {active : InputSet} {block : Block}
    {placements : List (Option Placement)}
    (hactive : program.activeIn mutation .empty program.stages.toList = .ok active)
    (hplaced : placeInputs active (program.instanceCount? mutation)
      (.empty program.settings.packing) program.inputs = .ok (block, placements)) :
    ∃ variant, program.variant mutation = .ok variant ∧ variant.active = active := by
  rw [variant_eq_assemble hvalid hactive hplaced, assemble, hstorage]
  exact ⟨_, rfl, rfl⟩

end Program

end ShaderVariants
