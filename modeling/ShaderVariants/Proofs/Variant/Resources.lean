import Mathlib.Data.List.Nodup
import ShaderVariants.Proofs.Variant.Consistency

/-!
# Numbers that tell inputs apart

Textures and samplers have consecutive bindings, behind the one of the uniform block, and the ids of
specialization constants follow each other from zero on, so that no two inputs of a variant are
mixed up (`Program.resources_apart`).
-/

namespace ShaderVariants

/-! ## 1. Constant ids -/

/-- The ids that an input takes as a specialization constant, one for each component. -/
def Input.constantIds (input : Input) : List Nat :=
  match input.constantId with
  | some id => List.range' id input.type.componentCount
  | none => []

theorem DataType.componentCount_le (type : DataType) : type.componentCount ≤ 16 := by
  cases type <;> decide

theorem constantCount_le (inputs : List Input) : constantCount inputs ≤ 16 * inputs.length := by
  induction inputs with
  | nil => exact Nat.le_refl _
  | cons input rest ih =>
    have hcount := input.type.componentCount_le
    rw [constantCount, List.length_cons]
    split <;> omega

namespace Numbered

variable {inputs : List Input}

/-- The ids of constants are all numbers below their count, one after the other. -/
theorem flatMap_constantIds (h : Numbered inputs) :
    inputs.flatMap Input.constantIds = List.range (constantCount inputs) := by
  -- The ids of the last inputs start where those of the inputs before them end.
  suffices hsuffix : ∀ after before, inputs = before ++ after →
      after.flatMap Input.constantIds =
        List.range' (constantCount before) (constantCount after) by
    rw [hsuffix inputs [] rfl, List.range_eq_range']
    rfl
  intro after
  induction after with
  | nil => exact fun before _ => rfl
  | cons input rest ih =>
    intro before heq
    have hrest := ih (before ++ [input]) (by rw [heq, List.append_assoc, List.singleton_append])
    have hcount : constantCount (before ++ [input]) = constantCount before +
        (if input.isConstant then input.type.componentCount else 0) := by
      rw [constantCount_append, constantCount, constantCount, Nat.add_zero]
    rw [List.flatMap_cons, hrest, hcount, constantCount]
    unfold Input.isConstant Input.constantIds
    cases hconstant : input.constantId with
    | none => simp
    | some id =>
      obtain rfl := h.constant before input rest heq id hconstant
      simp only [Option.isSome_some, if_true]
      exact List.range'_append_1

/-- The ids of a constant end where the next ones start, which is not behind the last of all. -/
theorem constantId_le (h : Numbered inputs) {input : Input} (hinput : input ∈ inputs) {id : Nat}
    (hid : input.constantId = some id) :
    id + input.type.componentCount ≤ constantCount inputs := by
  obtain ⟨before, after, rfl⟩ := List.append_of_mem hinput
  obtain rfl := h.constant before input after rfl id hid
  have hconstant : input.isConstant = true := by rw [Input.isConstant, hid]; rfl
  rw [constantCount_append, constantCount, if_pos hconstant]
  omega

end Numbered

/-! ## 2. Bindings -/

namespace Draft

/-- Textures and samplers are bound to consecutive numbers. -/
theorem filter_bindResources (next : Nat) (inputs : List Input) :
    ((bindResources next inputs).filter fun input => input.type.isResource).map Input.binding =
      (List.range' next (inputs.filter fun input => input.type.isResource).length).map some := by
  induction inputs generalizing next with
  | nil => rfl
  | cons input rest ih =>
    rw [bindResources]
    by_cases hresource : input.type.isResource = true
    · simp only [List.filter_cons, hresource, if_true, List.map_cons, ih, List.length_cons,
        List.range'_succ]
    · rw [if_neg hresource]
      simp only [List.filter_cons, if_neg hresource, ih]

theorem length_filter_bindResources (next : Nat) (inputs : List Input) :
    ((bindResources next inputs).filter fun input => input.type.isResource).length =
      (inputs.filter fun input => input.type.isResource).length := by
  have hlength := congrArg List.length (filter_bindResources next inputs)
  rwa [List.length_map, List.length_map, List.length_range'] at hlength

theorem any_inBlock_bindResources (next : Nat) (inputs : List Input) :
    (bindResources next inputs).any Input.inBlock = inputs.any Input.inBlock := by
  have hmap : (bindResources next inputs).map Input.inBlock = inputs.map Input.inBlock :=
    InputsSound.map_bindResources (fun _ _ => rfl) next inputs
  have hany : ∀ list : List Input, list.any Input.inBlock = (list.map Input.inBlock).any id := by
    intro list
    rw [List.any_map]
    rfl
  rw [hany, hmap, hany]

end Draft

/-! ## 3. Programs -/

/-- A program whose inputs are told apart by consecutive numbers of 32 bits. -/
structure Program.Allotted (program : Program) : Prop where
  /-- The bindings of textures and samplers, in the order of declaration.  The first is left to the
  block if an input is declared for it. -/
  bindings : (program.inputs.filter fun input => input.type.isResource).map Input.binding =
    (List.range' (if program.inputs.any Input.inBlock then 1 else 0)
      (program.inputs.filter fun input => input.type.isResource).length).map some
  constants : program.inputs.flatMap Input.constantIds =
    List.range (program.inputs.flatMap Input.constantIds).length
  disjoint : program.inputs.Pairwise fun input other =>
    ∀ id ∈ input.constantIds, id ∉ other.constantIds
  /-- What comes behind a binding is still a number of 32 bits. -/
  bindingRoom : ∀ input ∈ program.inputs, ∀ binding, input.binding = some binding →
    binding + 1 < Numeral.wordCount 32
  constantRoom : ∀ input ∈ program.inputs, ∀ id, input.constantId = some id →
    id + input.type.componentCount < Numeral.wordCount 32

theorem Program.mem_range'_of_binding {program : Program} {first count : Nat}
    (h : (program.inputs.filter fun input => input.type.isResource).map Input.binding =
      (List.range' first count).map some) {input : Input} (hinput : input ∈ program.inputs)
    (hresource : input.type.isResource = true) :
    ∃ binding, input.binding = some binding ∧ first ≤ binding ∧ binding < first + count := by
  have hmem : input.binding ∈ (List.range' first count).map some := by
    rw [← h]
    exact List.mem_map_of_mem (List.mem_filter.mpr ⟨hinput, hresource⟩)
  obtain ⟨binding, hrange, heq⟩ := List.mem_map.mp hmem
  exact ⟨binding, heq.symm, List.mem_range'_1.mp hrange⟩

theorem Program.allotted_of_read {reader : FileReader} {settings : Settings} {fileName : Text}
    {program : Program} (h : Program.read reader settings fileName = .ok program) :
    program.Allotted := by
  have hconsistent := consistent_of_read h
  obtain ⟨declared, hnumbered, hinputs⟩ := numbered_of_read h
  have hids : program.inputs.flatMap Input.constantIds = List.range (constantCount declared) := by
    have hmap := InputsSound.map_bindResources (f := Input.constantIds) (fun _ _ => rfl)
      (Draft.firstBinding declared) declared
    rw [← hnumbered.flatMap_constantIds, List.flatMap_def, List.flatMap_def, hinputs, hmap]
  have hbindings : (program.inputs.filter fun input => input.type.isResource).map Input.binding =
      (List.range' (if program.inputs.any Input.inBlock then 1 else 0)
        (program.inputs.filter fun input => input.type.isResource).length).map some := by
    rw [hinputs, Draft.filter_bindResources, Draft.length_filter_bindResources,
      Draft.any_inBlock_bindResources]
    rfl
  have hroom : declared.length ≤ 128 := by
    have hlength := congrArg List.length
      (InputsSound.map_bindResources (f := Input.name) (fun _ _ => rfl)
        (Draft.firstBinding declared) declared)
    rw [List.length_map, List.length_map, ← hinputs] at hlength
    exact hlength ▸ hconsistent.capacity
  -- At most 128 inputs take at most 16 numbers each, which is far from 32 bits.
  have hword : Numeral.wordCount 32 = 4294967296 := rfl
  refine ⟨hbindings, ?_, ?_, ?_, ?_⟩
  · rw [hids, List.length_range]
  · have hnodup : (program.inputs.flatMap Input.constantIds).Nodup := by
      rw [hids]
      exact List.nodup_range
    exact (List.nodup_flatMap.mp hnodup).2.imp fun hdisjoint id hid hother =>
      hdisjoint hid hother
  · intro input hinput binding hbinding
    have hresource : input.type.isResource = true := by
      rw [DataType.isResource, Bool.or_eq_true, ← (hconsistent.inputs input hinput).bound, hbinding]
      rfl
    obtain ⟨bound, hbound, -, hlt⟩ := mem_range'_of_binding hbindings hinput hresource
    obtain rfl : binding = bound := Option.some.inj (hbinding.symm.trans hbound)
    have hcount := List.length_filter_le (fun input : Input => input.type.isResource) program.inputs
    have hcapacity := hconsistent.capacity
    split at hlt <;> omega
  · intro input hinput id hid
    rw [hinputs] at hinput
    obtain ⟨original, horiginal, binding, rfl⟩ := InputsSound.exists_of_mem_bindResources hinput
    have hend : id + original.type.componentCount ≤ constantCount declared :=
      hnumbered.constantId_le horiginal hid
    have hcount := constantCount_le declared
    show id + original.type.componentCount < _
    omega

/-! ## 4. Variants -/

namespace Program

/-- The numbers of inputs tell them apart in the program and in all of its variants: no two active
textures or samplers have the same binding, none has that of a block in a uniform buffer, and an
input has the same binding wherever it is active. -/
theorem resources_apart {reader : FileReader} {settings : Settings} {fileName : Text}
    {program : Program} (hread : Program.read reader settings fileName = .ok program) :
    program.Allotted ∧
    (∀ mutation variant, program.variant mutation = .ok variant →
      (∀ input ∈ program.inputs, ∀ other ∈ program.inputs, input ≠ other →
        variant.uses input = true → variant.uses other = true →
        input.type.isResource = true → other.type.isResource = true →
          variant.binding? input ≠ variant.binding? other) ∧
      (variant.blockSize ≠ 0 → variant.usesPushConstants = false →
        ∀ input ∈ program.inputs, variant.binding? input ≠ some 0)) ∧
    ∀ first second variant variant', program.variant first = .ok variant →
      program.variant second = .ok variant' → ∀ input ∈ program.inputs,
        variant.uses input = true → variant'.uses input = true →
          variant.binding? input = variant'.binding? input := by
  have hprogram := wellFormed_of_read hread
  have hconsistent := consistent_of_read hread
  have hallotted := allotted_of_read hread
  -- What an active input is bound to does not depend on the variant.
  have hbinding : ∀ mutation variant, program.variant mutation = .ok variant →
      ∀ input ∈ program.inputs, variant.uses input = true → variant.binding? input =
        if input.inBlock then none else input.binding := by
    intro mutation variant hvariant input hinput huses
    obtain ⟨block, generated⟩ := generated_of_variant hvariant
    rw [generated.binding?_eq hprogram hinput, huses]
    cases input.inBlock <;> rfl
  refine ⟨hallotted, fun mutation variant hvariant => ⟨?_, ?_⟩, ?_⟩
  · intro input hinput other hother hne huses huses' hresource hresource' hsame
    have houtside : ∀ input : Input, input.type.isResource = true → input.inBlock = false := by
      intro input hresource
      simp [Input.inBlock, hresource]
    rw [hbinding mutation variant hvariant input hinput huses, houtside input hresource,
      hbinding mutation variant hvariant other hother huses', houtside other hresource'] at hsame
    have hnodup : ((program.inputs.filter fun input => input.type.isResource).map
        Input.binding).Nodup := by
      rw [hallotted.bindings]
      exact List.Nodup.map (fun _ _ => Option.some.inj) List.nodup_range'
    exact hne (List.inj_on_of_nodup_map hnodup (List.mem_filter.mpr ⟨hinput, hresource⟩)
      (List.mem_filter.mpr ⟨hother, hresource'⟩) hsame)
  · intro hsize _ input hinput hzero
    obtain ⟨block, generated⟩ := generated_of_variant hvariant
    have hvariant := generated.consistent hprogram hconsistent
    -- A block with a size has a member, so the first binding is left to it.
    have hmember : program.inputs.any Input.inBlock = true := by
      by_contra hnone
      refine hsize (hvariant.blockSize.mpr fun member hinput _ => ?_)
      rw [Bool.not_eq_true, List.any_eq_false] at hnone
      exact Bool.eq_false_iff.mpr (hnone member hinput)
    have hdeclared := hvariant.declaredBindings input hinput 0 hzero
    have hresource : input.type.isResource = true := by
      rw [DataType.isResource, Bool.or_eq_true, ← (hconsistent.inputs input hinput).bound,
        hdeclared]
      rfl
    obtain ⟨bound, hbound, hfirst, -⟩ :=
      mem_range'_of_binding hallotted.bindings hinput hresource
    obtain rfl : 0 = bound := Option.some.inj (hdeclared.symm.trans hbound)
    rw [hmember] at hfirst
    exact absurd hfirst (by decide)
  · intro first second variant variant' hfirst hsecond input hinput huses huses'
    rw [hbinding first variant hfirst input hinput huses,
      hbinding second variant' hsecond input hinput huses']

/-- With four instances the swarm has its block in a uniform buffer, and no texture takes the binding
of that. -/
theorem resources_apart_swarm :
    Program.read (.ofFiles [("swarm".toList, swarmFile)]) .default "swarm".toList = .ok swarm ∧
      swarm.Allotted ∧
      ∃ variant, swarm.variant [0, 4] = .ok variant ∧ variant.blockSize = 256 ∧
        variant.usesPushConstants = false ∧
        ∀ input ∈ swarm.inputs, variant.binding? input ≠ some 0 := by
  obtain ⟨hallotted, happart, -⟩ := resources_apart read_swarm
  have hstored := variant_swarm
  cases hvariant : swarm.variant [0, 4] with
  | error e =>
    rw [hvariant] at hstored
    cases hstored
  | ok variant =>
    rw [hvariant] at hstored
    obtain ⟨hsize, hpush⟩ := Prod.mk.inj (Except.ok.inj hstored)
    have hfull : variant.blockSize ≠ 0 := by rw [hsize]; decide
    exact ⟨read_swarm, hallotted, variant, rfl, hsize, hpush, (happart _ _ hvariant).2 hfull hpush⟩

end Program

end ShaderVariants
