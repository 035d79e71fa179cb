import ShaderVariants.Proofs.Layout.Growth
import ShaderVariants.Proofs.Program.Consistent
import ShaderVariants.Proofs.Variant.BehindHeader

/-!
# Consistent variants

What a variant says in several places it says alike: its active inputs, the places and bindings that
it gives to them, the size of the block and where that lives, and the declaration of the block in
its sources (`Program.variant_consistent`).
-/

namespace ShaderVariants

/-! ## 1. Places -/

section

variable {active : InputSet} {count : Option Nat} {block last : Block} {inputs : List Input}
  {placements : List (Option Placement)}

/-- Exactly the active members of the block are given a place. -/
theorem map_isSome_of_placeInputs
    (h : placeInputs active count block inputs = .ok (last, placements)) :
    placements.map Option.isSome =
      inputs.map fun input => active.mem input.index && input.inBlock := by
  induction inputs generalizing block placements with
  | nil =>
    obtain ⟨rfl, rfl⟩ := Prod.mk.inj (Except.ok.inj h)
    rfl
  | cons input rest ih =>
    obtain ⟨placement, next, others, hmember, -, hplaced, rfl⟩ | ⟨others, hother, hplaced, rfl⟩ :=
      cases_of_placeInputs_cons h
    · rw [List.map_cons, List.map_cons, ih hplaced, hmember]
      rfl
    · rw [List.map_cons, List.map_cons, ih hplaced, hother]
      rfl

/-- Placing members keeps the alignment of a block positive. -/
theorem alignment_le_of_placeInputs
    (h : placeInputs active count block inputs = .ok (last, placements)) :
    block.alignment ≤ last.alignment := by
  induction inputs generalizing block placements with
  | nil =>
    obtain ⟨rfl, rfl⟩ := Prod.mk.inj (Except.ok.inj h)
    exact Nat.le_refl _
  | cons input rest ih =>
    obtain ⟨placement, next, others, -, hpush, hplaced, -⟩ | ⟨others, -, hplaced, -⟩ :=
      cases_of_placeInputs_cons h
    · exact Nat.le_trans (Block.alignment_le_of_push hpush) (ih hplaced)
    · exact ih hplaced

/-- The end of a block stays where it is if no member is active, and moves on otherwise. -/
theorem cursor_of_placeInputs (hcount : ∀ n ∈ count, 0 < n)
    (hnumeric : ∀ input ∈ inputs, input.inBlock = true → input.type.shape?.isSome = true)
    (h : placeInputs active count block inputs = .ok (last, placements)) :
    block.cursor ≤ last.cursor ∧
      (last.cursor = block.cursor ↔
        ∀ input ∈ inputs, (active.mem input.index && input.inBlock) = false) := by
  induction inputs generalizing block placements with
  | nil =>
    obtain ⟨rfl, rfl⟩ := Prod.mk.inj (Except.ok.inj h)
    simp
  | cons input rest ih =>
    obtain ⟨hinput, hrest⟩ := List.forall_mem_cons.mp hnumeric
    obtain ⟨placement, next, others, hmember, hpush, hplaced, -⟩ | ⟨others, hother, hplaced, -⟩ :=
      cases_of_placeInputs_cons h
    · have hextent : ∀ n ∈ (if input.instanced then count else none), 0 < n := by
        intro n hn
        split at hn
        · exact hcount n hn
        · cases hn
      -- A member has a size, also as an array, since no array is empty.
      have hmoves : block.cursor < next.cursor :=
        Block.cursor_lt_of_push (hinput (Bool.and_eq_true _ _ ▸ hmember).2) hextent hpush
      have hgrows := (ih hrest hplaced).1
      refine ⟨by omega, iff_of_false (by omega) fun hnone => ?_⟩
      rw [hnone input List.mem_cons_self] at hmember
      cases hmember
    · obtain ⟨hgrows, hstays⟩ := ih hrest hplaced
      refine ⟨hgrows, hstays.trans ?_⟩
      rw [List.forall_mem_cons]
      exact (and_iff_right hother).symm

end

/-! ## 2. The declaration of the block -/

/-- The qualifiers that stand between the parentheses of the line that opens the declaration of the
uniform block. -/
def blockLayout? (line : Text) : Option Text :=
  (Text.strip? "layout(".toList line).bind (Text.stripEnd? ") uniform _anki_uniforms_".toList)

/-- Whether qualifiers put a block into push constants. -/
def asksForPushConstants (qualifiers : Text) : Bool :=
  Text.containsWord qualifiers "push_constant".toList

theorem blockLayout?_eq_none_of_head? {line : Text} {c : Char} (hc : line.head? = some c)
    (hne : c ≠ 'l') : blockLayout? line = none := by
  obtain ⟨rest, rfl⟩ := List.head?_eq_some_iff.mp hc
  have hstrip : Text.strip? "layout(".toList (c :: rest) = none := by
    show (if 'l' = c then _ else none) = none
    rw [if_neg (Ne.symm hne)]
  rw [blockLayout?, hstrip]
  rfl

theorem Header.head?_defineLine (name value : Text) :
    (defineLine name value).head? = some '#' :=
  Text.head?_append_of_head? (Text.head?_append_of_head? (by decide) _) _

theorem Header.head?_of_mem_lines {program : Program} {mutation : Mutation} {stage : Stage}
    {line : Text} (h : line ∈ lines program mutation stage) : line.head? = some '#' := by
  rw [lines, List.mem_append, List.mem_append, List.mem_append] at h
  rcases h with ((h | h) | h) | h
  · simp only [List.mem_cons, List.not_mem_nil, or_false] at h
    rcases h with rfl | rfl | rfl | rfl | rfl | rfl
    · decide
    all_goals exact head?_defineLine _ _
  · obtain ⟨mutator, -, value, rfl⟩ := exists_of_mem_mutatorLines h
    exact head?_defineLine _ _
  · obtain ⟨type, -, rfl | hline⟩ := exists_of_mem_typeLines h
    · exact head?_defineLine _ _
    · obtain ⟨-, rest, rfl⟩ := exists_constantLine?_eq hline
      exact Text.head?_append_of_head? (by decide) _
  · have hall : ((stageLines stage).all fun line => line.head? == some '#') = true := by
      cases stage <;> decide
    exact beq_iff_eq.mp (List.all_eq_true.mp hall line h)

theorem head?_of_mem_activations {program : Program} {active : InputSet} {line : Text}
    (h : line ∈ activations program active) : line.head? = some '#' := by
  obtain ⟨input, -, hline⟩ := List.mem_flatMap.mp h
  rw [activationLines, List.mem_cons] at hline
  rcases hline with rfl | hline
  · exact Header.head?_defineLine _ _
  · split at hline
    · obtain rfl := List.mem_singleton.mp hline
      exact Header.head?_defineLine _ _
    · cases hline

theorem filterMap_blockLayout?_eq_nil {lines : List Text}
    (h : ∀ line ∈ lines, ∃ c, line.head? = some c ∧ c ≠ 'l') :
    lines.filterMap blockLayout? = [] := by
  rw [List.filterMap_eq_nil_iff]
  intro line hline
  obtain ⟨c, hc, hne⟩ := h line hline
  exact blockLayout?_eq_none_of_head? hc hne

/-- The declaration of the block opens it once, with the qualifiers of its storage. -/
theorem filterMap_blockLayout?_blockDeclaration {program : Program} (hprogram : program.WellFormed)
    (pushConstants : Bool) :
    (blockDeclaration program pushConstants).filterMap blockLayout? =
      [blockQualifiers program.settings.packing pushConstants] := by
  -- Members are indented between their guards, so none of these lines opens another block.
  have hmembers : program.members.filterMap blockLayout? = [] := by
    rw [hprogram.inputs.members_eq, blockMembers]
    refine filterMap_blockLayout?_eq_nil fun line hline => ?_
    obtain ⟨input, -, hline⟩ := List.mem_flatMap.mp hline
    rw [Draft.memberLines_eq] at hline
    simp only [List.mem_cons, List.not_mem_nil, or_false] at hline
    rcases hline with rfl | rfl | rfl
    · exact ⟨'#', Text.head?_append_of_head? (by decide) _, by decide⟩
    · exact ⟨'\t', rfl, by decide⟩
    · exact ⟨'#', by decide, by decide⟩
  have hfirst : blockLayout? ("layout(".toList ++
      blockQualifiers program.settings.packing pushConstants ++
        ") uniform _anki_uniforms_".toList) =
      some (blockQualifiers program.settings.packing pushConstants) := by
    rw [blockLayout?, List.append_assoc, Text.strip?_append, Option.bind_some,
      Text.stripEnd?_append]
  have hbrace : blockLayout? ['\x7b'] = none := by decide
  have hlast : blockLayout? ('\x7d' :: ' ' :: Draft.blockInstance ++ [';']) = none := by decide
  rw [blockDeclaration, List.filterMap_append, List.filterMap_append, hmembers,
    List.filterMap_cons_some hfirst, List.filterMap_cons_none hbrace,
    List.filterMap_cons_none hlast]
  rfl

theorem asksForPushConstants_blockQualifiers (packing : Packing) (pushConstants : Bool) :
    asksForPushConstants (blockQualifiers packing pushConstants) = pushConstants := by
  cases packing <;> cases pushConstants <;> decide +kernel

/-! ## 3. Parts of a variant -/

theorem lookup_map_eq {α : Type} (keys : List Stage) (f : Stage → α) (stage : Stage) :
    (keys.map fun key => (key, f key)).lookup stage =
      if stage ∈ keys then some (f stage) else none := by
  induction keys with
  | nil => rfl
  | cons key rest ih =>
    rw [List.map_cons, List.lookup_cons]
    by_cases hkey : stage = key
    · subst hkey
      simp
    · rw [beq_eq_false_iff_ne.mpr hkey, ih]
      simp [hkey]

namespace Variant.Generated

variable {program : Program} {mutation : Mutation} {variant : Variant} {block : Block}

/-- The source of a stage, for the stages of the program. -/
theorem source?_eq (generated : variant.Generated program mutation block) (stage : Stage) :
    variant.source? stage =
      if program.stages.mem stage = true then
        some (Text.unlines (program.sourceLines mutation variant.active variant.blockSize
          variant.usesPushConstants stage))
      else none := by
  rw [source?, generated.sources, lookup_map_eq]
  simp only [StageSet.mem_toList]

theorem isSome_placement?_iff (generated : variant.Generated program mutation block)
    (hprogram : program.WellFormed) {input : Input} (hinput : input ∈ program.inputs) :
    (variant.placement? input).isSome = true ↔
      variant.uses input = true ∧ input.inBlock = true := by
  -- The index of an input is its place among the inputs, which is where the variant looks it up.
  obtain ⟨place, hplace⟩ := List.getElem?_of_mem hinput
  have hindex : input.index = place := hprogram.inputs.index_eq hplace
  have hplacements := congrArg (·[place]?) (map_isSome_of_placeInputs generated.placed)
  simp only [List.getElem?_map, hplace, Option.map_some] at hplacements
  obtain ⟨placement, hfound, hsome⟩ := Option.map_eq_some_iff.mp hplacements
  rw [placement?, hindex, hfound, ← Bool.and_eq_true, uses]
  show placement.isSome = true ↔ _
  rw [hsome]

/-- An active input outside of the block has the binding that was declared for it. -/
theorem binding?_eq (generated : variant.Generated program mutation block)
    (hprogram : program.WellFormed) {input : Input} (hinput : input ∈ program.inputs) :
    variant.binding? input =
      if variant.uses input && !input.inBlock then input.binding else none := by
  obtain ⟨place, hplace⟩ := List.getElem?_of_mem hinput
  have hindex : input.index = place := hprogram.inputs.index_eq hplace
  rw [binding?, generated.bindings, Program.activeBindings, List.getElem?_map, hindex, hplace]
  rfl

/-- The size of the block is zero just if none of its members is active. -/
theorem blockSize_eq_zero_iff (generated : variant.Generated program mutation block)
    (hprogram : program.WellFormed) :
    variant.blockSize = 0 ↔
      ∀ input ∈ program.inputs, variant.uses input = true → input.inBlock = false := by
  -- Instances are counted by a mutator whose values are all positive, so no array is empty.
  have hcount : ∀ n ∈ program.instanceCount? mutation, 0 < n := by
    intro n hn
    obtain ⟨place, hmutator, -⟩ := Option.bind_eq_some_iff.mp
      (Option.bind_eq_some_iff.mp hn).choose_spec.1
    obtain ⟨counter, hplace, -⟩ := hprogram.mutators.exists_of_counter hmutator
    have hcounter : program.instanceCounter? = some counter := by
      rw [Program.instanceCounter?, hmutator, Option.bind_some, hplace]
    obtain ⟨-, value, -, -, -, hpositive, heq⟩ :=
      Program.exists_instanceCount? hprogram generated.valid hcounter
    obtain rfl : n = value.toNat := Option.some.inj (hn.symm.trans heq)
    omega
  have hnumeric : ∀ input ∈ program.inputs, input.inBlock = true →
      input.type.shape?.isSome = true := by
    intro input hinput hblock
    have htyped := (hprogram.inputs.each input hinput).typed
    rw [Input.inBlock, Bool.and_eq_true, Bool.not_eq_true', Bool.not_eq_true'] at hblock
    exact DataType.isSome_shape?_of_not_isResource htyped hblock.2
  have halignment : 0 < block.alignment := by
    have hgrows := alignment_le_of_placeInputs generated.placed
    exact Nat.lt_of_lt_of_le (by decide : 0 < scalarSize) hgrows
  have hcursor := (cursor_of_placeInputs hcount hnumeric generated.placed).2
  rw [generated.blockSize, Block.size_eq_zero_iff halignment]
  refine hcursor.trans (forall₂_congr fun input _ => ?_)
  rw [uses]
  cases variant.active.mem input.index <;> simp

theorem usesPushConstants_iff (generated : variant.Generated program mutation block) :
    variant.usesPushConstants = true ↔ variant.blockSize ≠ 0 ∧
      (program.settings.storage = .pushConstants ∨ program.settings.storage = .auto ∧
        variant.blockSize ≤ program.settings.pushConstantsSize) := by
  have hstorage := generated.storage
  rw [← generated.blockSize] at hstorage
  revert hstorage
  cases program.settings.storage with
  | auto =>
    intro hstorage
    obtain heq := Option.some.inj hstorage
    rw [← heq]
    simp only [Bool.and_eq_true, decide_eq_true_eq, reduceCtorEq, false_or, true_and]
    omega
  | pushConstants =>
    intro hstorage
    rw [Storage.inPushConstants?] at hstorage
    split at hstorage
    · cases hstorage
    · obtain heq := Option.some.inj hstorage
      rw [← heq]
      simp only [decide_eq_true_eq, true_or, and_true]
      omega
  | uniformBuffer =>
    intro hstorage
    obtain heq := Option.some.inj hstorage
    simp [← heq]

/-- Between its header and its code a source opens the block if there is one, where the variant says
that it lives. -/
theorem exists_generatedLines (generated : variant.Generated program mutation block)
    (hprogram : program.WellFormed) {stage : Stage} {source : Text}
    (h : variant.source? stage = some source) :
    ∃ lines, (∀ line ∈ lines, Text.OnOneLine line) ∧
      source = Text.unlines (lines ++ program.globals ++ program.stageCode.get stage) ∧
      (lines.filterMap blockLayout?).map asksForPushConstants =
        if variant.blockSize = 0 then [] else [variant.usesPushConstants] := by
  rw [generated.source?_eq] at h
  split at h
  · obtain rfl := Option.some.inj h
    refine ⟨Header.lines program mutation stage ++
      program.inputLines variant.active variant.blockSize variant.usesPushConstants, ?_, ?_, ?_⟩
    · refine List.forall_mem_append.mpr ⟨fun line hline => ?_, fun line hline => ?_⟩
      · exact Header.onOneLine_of_mem_lines hprogram.mutators.identifiers hline
      · exact Program.onOneLine_of_mem_inputLines hprogram hline
    · rw [Program.sourceLines_eq_append]
      simp only [List.append_assoc]
    -- What stands before the declaration are directives, which open no block.
    · have hheader : (Header.lines program mutation stage).filterMap blockLayout? = [] :=
        filterMap_blockLayout?_eq_nil fun line hline =>
          ⟨'#', Header.head?_of_mem_lines hline, by decide⟩
      have hactivations : (activations program variant.active).filterMap blockLayout? = [] :=
        filterMap_blockLayout?_eq_nil fun line hline =>
          ⟨'#', head?_of_mem_activations hline, by decide⟩
      rw [List.filterMap_append, hheader, Program.inputLines, List.filterMap_append, hactivations,
        List.nil_append, List.nil_append]
      by_cases hsize : variant.blockSize = 0
      · rw [if_pos hsize, if_neg (by omega)]
        rfl
      · rw [if_neg hsize, if_pos (by omega), filterMap_blockLayout?_blockDeclaration hprogram,
          List.map_singleton, asksForPushConstants_blockQualifiers]
  · cases h

end Variant.Generated

/-! ## 4. Whole variants -/

/-- A variant whose parts agree with each other and with the program that it is of. -/
structure Variant.Consistent (program : Program) (variant : Variant) : Prop where
  sources : ∀ stage, (variant.source? stage).isSome = true ↔ program.stages.mem stage = true
  placements : ∀ input ∈ program.inputs, (variant.placement? input).isSome = true ↔
    variant.uses input = true ∧ input.inBlock = true
  bindings : ∀ input ∈ program.inputs, (variant.binding? input).isSome = true ↔
    variant.uses input = true ∧ (input.type.isTexture = true ∨ input.type.isSampler = true)
  declaredBindings : ∀ input ∈ program.inputs, ∀ binding,
    variant.binding? input = some binding → input.binding = some binding
  blockSize : variant.blockSize = 0 ↔
    ∀ input ∈ program.inputs, variant.uses input = true → input.inBlock = false
  storage : variant.usesPushConstants = true ↔ variant.blockSize ≠ 0 ∧
    (program.settings.storage = .pushConstants ∨ program.settings.storage = .auto ∧
      variant.blockSize ≤ program.settings.pushConstantsSize)
  /-- The generated lines of a source open the block just if it has a size, and as a block of push
  constants just if the variant uses these. -/
  declaration : ∀ stage source, variant.source? stage = some source →
    ∃ lines, (∀ line ∈ lines, Text.OnOneLine line) ∧
      source = Text.unlines (lines ++ program.globals ++ program.stageCode.get stage) ∧
      (lines.filterMap blockLayout?).map asksForPushConstants =
        if variant.blockSize = 0 then [] else [variant.usesPushConstants]

theorem Input.inBlock_eq_false_of_isSome_binding {counter : Option Nat} {input : Input}
    (h : input.Consistent counter) (hbinding : input.binding.isSome = true) :
    input.inBlock = false := by
  have hresource : input.type.isResource = true := by
    rw [DataType.isResource, Bool.or_eq_true]
    exact h.bound.mp hbinding
  simp [inBlock, hresource]

theorem Variant.Generated.consistent {program : Program} {mutation : Mutation} {variant : Variant}
    {block : Block} (generated : variant.Generated program mutation block)
    (hprogram : program.WellFormed) (hconsistent : program.Consistent) :
    variant.Consistent program where
  sources := by
    intro stage
    rw [generated.source?_eq]
    split <;> simp_all
  placements := fun input hinput => generated.isSome_placement?_iff hprogram hinput
  bindings := by
    intro input hinput
    have hkind := hconsistent.inputs input hinput
    rw [← hkind.bound, generated.binding?_eq hprogram hinput]
    constructor
    · intro h
      split at h
      next hactive => exact ⟨(Bool.and_eq_true _ _ ▸ hactive).1, h⟩
      · cases h
    · rintro ⟨huses, hbinding⟩
      rw [huses, Input.inBlock_eq_false_of_isSome_binding hkind hbinding]
      exact hbinding
  declaredBindings := by
    intro input hinput binding h
    rw [generated.binding?_eq hprogram hinput] at h
    split at h
    · exact h
    · cases h
  blockSize := generated.blockSize_eq_zero_iff hprogram
  storage := generated.usesPushConstants_iff
  declaration := fun _ _ h => generated.exists_generatedLines hprogram h

namespace Program

/-- What is left to fail once the active inputs are known and placed: a block that has to live in
push constants and is larger than these. -/
theorem variant_eq_of_placed {program : Program} {mutation : Mutation}
    (hvalid : program.validate mutation = .ok ()) {active : InputSet} {block : Block}
    {placements : List (Option Placement)}
    (hactive : program.activeIn mutation .empty program.stages.toList = .ok active)
    (hplaced : placeInputs active (program.instanceCount? mutation)
      (.empty program.settings.packing) program.inputs = .ok (block, placements)) :
    ((∃ e, program.variant mutation = .error e) ↔ program.settings.storage = .pushConstants ∧
      program.settings.pushConstantsSize < block.size) ∧
    ∀ e, program.variant mutation = .error e →
      e = .pushConstantsOverflow block.size program.settings.pushConstantsSize := by
  rw [variant_eq_assemble hvalid hactive hplaced, assemble]
  cases hstorage : program.settings.storage with
  | auto | uniformBuffer => simp [Storage.inPushConstants?]
  | pushConstants =>
    by_cases hfits : program.settings.pushConstantsSize < block.size
    · simp [Storage.inPushConstants?, hfits]
    · simp [Storage.inPushConstants?, hfits]

/-- Every variant of a program is consistent.  Once the active inputs are known and placed there is
one, unless its block has to live in push constants and does not fit these. -/
theorem variant_consistent {reader : FileReader} {settings : Settings} {fileName : Text}
    {program : Program} {mutation : Mutation}
    (hread : Program.read reader settings fileName = .ok program)
    (hvalid : program.validate mutation = .ok ()) :
    (∀ variant, program.variant mutation = .ok variant → variant.Consistent program) ∧
    ∀ active block placements,
      program.activeIn mutation .empty program.stages.toList = .ok active →
      placeInputs active (program.instanceCount? mutation) (.empty program.settings.packing)
        program.inputs = .ok (block, placements) →
      ((∃ e, program.variant mutation = .error e) ↔ program.settings.storage = .pushConstants ∧
        program.settings.pushConstantsSize < block.size) ∧
      ∀ e, program.variant mutation = .error e →
        e = .pushConstantsOverflow block.size program.settings.pushConstantsSize := by
  constructor
  · intro variant hvariant
    obtain ⟨block, generated⟩ := generated_of_variant hvariant
    exact generated.consistent (wellFormed_of_read hread) (consistent_of_read hread)
  · intro active block placements hactive hplaced
    exact variant_eq_of_placed hvalid hactive hplaced

/-- With four instances the block of the swarm does not fit its push constants. -/
theorem variant_swarm :
    (swarm.variant [0, 4]).map (fun variant => (variant.blockSize, variant.usesPushConstants)) =
      .ok (256, false) := by
  have hasks : swarm.AsksNoMacro := by
    refine asksNoMacro_of_not_isMacro ?_
    unfold swarm
    rewrite [String.toList_append]
    repeat rewrite [String.toList_ofList]
    decide +kernel
  have hmasks : swarm.stages.toList.map (swarm.bareInputs [0, 4]) =
      [(⟨7⟩ : InputSet)].map .ok := by
    unfold swarm
    rewrite [String.toList_append]
    repeat rewrite [String.toList_ofList]
    decide +kernel
  obtain ⟨block, placements, hplaced, hsize⟩ : ∃ block placements,
      placeInputs ([(⟨7⟩ : InputSet)].foldl InputSet.union .empty) (swarm.instanceCount? [0, 4])
          (.empty swarm.settings.packing) swarm.inputs = .ok (block, placements) ∧
        block.size = 256 :=
    ⟨_, _, rfl, rfl⟩
  have hstorage : swarm.settings.storage.inPushConstants? swarm.settings.pushConstantsSize 256 =
      some false := by
    decide
  rw [variant_eq_assemble_of_bare (wellFormed_of_read read_swarm) (by decide) hasks hmasks hplaced,
    assemble, hsize, hstorage]
  rfl

theorem variant_consistent_swarm :
    Program.read (.ofFiles [("swarm".toList, swarmFile)]) .default "swarm".toList = .ok swarm ∧
      swarm.validate [0, 4] = .ok () ∧
      ∃ variant, swarm.variant [0, 4] = .ok variant ∧ variant.blockSize = 256 ∧
        variant.Consistent swarm ∧
        ∃ active block placements,
          swarm.activeIn [0, 4] .empty swarm.stages.toList = .ok active ∧
          placeInputs active (swarm.instanceCount? [0, 4]) (.empty swarm.settings.packing)
            swarm.inputs = .ok (block, placements) ∧
          ((∃ e, swarm.variant [0, 4] = .error e) ↔ swarm.settings.storage = .pushConstants ∧
            swarm.settings.pushConstantsSize < block.size) := by
  have hvalid : swarm.validate [0, 4] = .ok () := by decide
  obtain ⟨hconsistent, hfails⟩ := variant_consistent read_swarm hvalid
  have hvariant := variant_swarm
  cases hswarm : swarm.variant [0, 4] with
  | error e =>
    rw [hswarm] at hvariant
    cases hvariant
  | ok variant =>
    rw [hswarm] at hvariant
    have hsize := congrArg Prod.fst (Except.ok.inj hvariant)
    obtain ⟨block, generated⟩ := generated_of_variant hswarm
    have hstorage := (hfails _ _ _ generated.active generated.placed).1
    rw [hswarm] at hstorage
    exact ⟨read_swarm, hvalid, variant, rfl, hsize, hconsistent variant hswarm, _, _, _,
      generated.active, generated.placed, hstorage⟩

end Program

end ShaderVariants
