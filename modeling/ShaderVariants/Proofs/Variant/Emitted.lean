import ShaderVariants.Proofs.Variant.BehindHeader

/-!
# Analysis of emitted sources

The active inputs of a variant are found in texts that hold nothing but the header and the code.
The sources that are emitted hold more, and are analyzed alike: what stands between the header and
the code declares no input, closes all chains that it opens, and defines only macros that the code
does not ask for (`Program.variant_reanalyzed`).
-/

namespace ShaderVariants

open Condition (Directive Scan testOf?)

/-! ## 1. Macros of active inputs -/

/-- A name that starts like the macros that are generated for active inputs. -/
def IsReserved (name : Text) : Prop :=
  Draft.activationMark <+: name ∨ Draft.bindingMark <+: name

/-- A program whose code never tests a macro with such a name. -/
def Program.TestsNothingReserved (program : Program) : Prop :=
  ∀ stage, ∀ line ∈ program.codeLines stage, ∀ test, testOf? line = some test →
    ∀ text, test.text? = some text →
      ∀ name, Text.IsWord name → Text.HasWord text name → ¬ IsReserved name

/-- A word that is reserved.  Other names may start like one, but nothing defines them. -/
def IsReservedWord (name : Text) : Prop :=
  Text.IsWord name ∧ IsReserved name

theorem Program.lineSpares_of_mem_codeLines {program : Program}
    (hfree : program.TestsNothingReserved) {stage : Stage} {line : Text}
    (hline : line ∈ program.codeLines stage) : Condition.LineSpares IsReservedWord line := by
  intro test htest name hasks hname
  obtain ⟨text, htext, hhas⟩ := Condition.Test.hasWord_of_asks hasks
  exact hfree stage line hline test htest text htext name hname.1 hhas hname.2

/-- No reserved name marks the site of an input. -/
theorem strip?_siteMark_of_isReserved {name : Text} (h : IsReserved name) :
    Text.strip? Condition.siteMark name = none := by
  -- The three marks differ within their first seven characters already.
  have htake : name.take 7 ≠ Condition.siteMark.take 7 := by
    rcases h with ⟨rest, rfl⟩ | ⟨rest, rfl⟩
    · rw [List.take_append_of_le_length (by decide)]
      decide
    · rw [List.take_append_of_le_length (by decide)]
      decide
  cases hstrip : Text.strip? Condition.siteMark name with
  | none => rfl
  | some rest =>
    obtain rfl := Text.strip?_eq_some_iff.mp hstrip
    rw [List.take_append_of_le_length (by decide)] at htake
    exact absurd rfl htake

/-- The lines that activate an input define reserved words only. -/
theorem definesHidden_of_mem_activationLines {input : Input}
    (hname : Text.isIdentifier input.name = true) {line : Text} (h : line ∈ activationLines input) :
    Condition.DefinesHidden IsReservedWord line := by
  have hdefines : ∀ {name value}, Directive.ofLine? line = some (.define name value) →
      Text.IsWord name → IsReserved name → Condition.DefinesHidden IsReservedWord line := by
    intro name value hline hword hreserved directive hdirective
    obtain rfl := Option.some.inj (hline.symm.trans hdirective)
    exact ⟨name, value, rfl, ⟨hword, hreserved⟩, strip?_siteMark_of_isReserved hreserved⟩
  have hmarked : ∀ mark : Text, Text.isIdentifier mark = true → Text.IsWord (mark ++ input.name) :=
    fun mark hmark => (Text.IsWord.of_isIdentifier hmark).append (.of_isIdentifier hname)
  rw [activationLines, List.mem_cons] at h
  rcases h with rfl | h
  · have hword := hmarked Draft.activationMark (by decide)
    have hreserved : IsReserved (Draft.activationMark ++ input.name) := Or.inl (List.prefix_append _ _)
    have hone : ∀ c ∈ (['1'] : Text), Text.isBlank c = false ∧ c ≠ '/' := by
      intro c hc
      obtain rfl := List.mem_singleton.mp hc
      decide
    exact hdefines (Condition.ofLine?_defineLine hword (by decide) hone) hword hreserved
  · split at h
    next binding _ =>
      obtain rfl := List.mem_singleton.mp h
      have hword := hmarked Draft.bindingMark (by decide)
      have hreserved : IsReserved (Draft.bindingMark ++ input.name) := Or.inr (List.prefix_append _ _)
      exact hdefines (Header.ofLine?_defineLine_ofInt hword binding) hword hreserved
    · cases h

/-! ## 2. The uniform block -/

theorem ofLine?_blockLine (packing : Packing) (pushConstants : Bool) :
    Directive.ofLine? ("layout(".toList ++ blockQualifiers packing pushConstants ++
      ") uniform _anki_uniforms_".toList) = none := by
  cases packing <;> cases pushConstants <;> decide

namespace Condition.Scan

variable {inputs : List Input} {scan : Scan} {number : Nat}

/-- The declaration of a member opens a chain and closes it again. -/
theorem run_memberLines (counter : Option Mutator) {input : Input}
    (hname : Text.isIdentifier input.name = true) :
    run inputs scan number (Draft.memberLines counter input) = .ok scan := by
  have hclose : Directive.ofLine? "#endif".toList = some .closeChain := by decide
  simp only [Draft.memberLines_eq, run, step, Draft.ofLine?_guard hname,
    Draft.ofLine?_memberLine counter input, hclose]
  rfl

theorem run_blockMembers (counter : Option Mutator) {declared : List Input}
    (hnames : ∀ input ∈ declared, Text.isIdentifier input.name = true) :
    run inputs scan number (blockMembers counter declared) = .ok scan := by
  induction declared generalizing number with
  | nil => rfl
  | cons input rest ih =>
    obtain ⟨hname, hrest⟩ := List.forall_mem_cons.mp hnames
    by_cases hblock : input.inBlock = true
    · rw [show blockMembers counter (input :: rest) =
          Draft.memberLines counter input ++ blockMembers counter rest by simp [blockMembers, hblock],
        run_append_of_run_eq_self (run_memberLines counter hname)]
      exact ih hrest
    · rw [show blockMembers counter (input :: rest) = blockMembers counter rest by
        simp [blockMembers, hblock]]
      exact ih hrest

theorem run_blockDeclaration {program : Program} (hprogram : program.WellFormed)
    (pushConstants : Bool) :
    run inputs scan number (blockDeclaration program pushConstants) = .ok scan := by
  have hfirst := ofLine?_blockLine program.settings.packing pushConstants
  have hopen : Directive.ofLine? ['\x7b'] = none := by decide
  have hlast : Directive.ofLine? ('\x7d' :: ' ' :: Draft.blockInstance ++ [';']) = none := by
    decide
  have hnames := fun input hinput => (hprogram.inputs.each input hinput).identifier
  rw [blockDeclaration, hprogram.inputs.members_eq, List.append_assoc, List.cons_append, run,
    step_of_ofLine?_eq_none hfirst]
  simp only [List.cons_append, List.nil_append, run, step_of_ofLine?_eq_none hopen]
  rw [run_append_of_run_eq_self (run_blockMembers _ hnames), run, ← List.cons_append,
    ← List.cons_append, step_of_ofLine?_eq_none hlast]
  rfl

end Condition.Scan

/-! ## 3. Sources -/

namespace Program

variable {program : Program} {mutation : Mutation}

/-- What is put in between the header and the code goes unnoticed. -/
theorem run_inputLines (hprogram : program.WellFormed) {scan : Scan} (hopen : scan.chains = [])
    (active : InputSet) (blockSize : Nat) (pushConstants : Bool) (number : Nat) :
    ∃ next, Scan.run program.inputs scan number
        (program.inputLines active blockSize pushConstants) = .ok next ∧
      scan.Like IsReservedWord next := by
  have hactivations : ∀ line ∈ activations program active,
      Condition.DefinesHidden IsReservedWord line := by
    intro line hline
    obtain ⟨input, hinput, hline⟩ := List.mem_flatMap.mp hline
    have hsound := hprogram.inputs.each input (List.mem_of_mem_filter hinput)
    exact definesHidden_of_mem_activationLines hsound.identifier hline
  obtain ⟨next, hrun, hlike⟩ :=
    Scan.run_of_definesHidden hactivations (Scan.like_refl hopen) hopen number
  refine ⟨next, ?_, hlike⟩
  rw [inputLines, Scan.run_append, hrun]
  by_cases hsize : 0 < blockSize
  · rw [if_pos hsize]
    exact Scan.run_blockDeclaration hprogram pushConstants
  · rw [if_neg hsize]
    rfl

/-- What was found before emission is found again in the source. -/
theorem activeInputs_sourceLines (hprogram : program.WellFormed)
    (hfree : program.TestsNothingReserved) {stage : Stage} {mask : InputSet}
    (h : Condition.activeInputs (program.analyzedText mutation stage) program.inputs = .ok mask)
    (active : InputSet) (blockSize : Nat) (pushConstants : Bool) :
    Condition.activeInputs
      (Text.unlines (program.sourceLines mutation active blockSize pushConstants stage))
      program.inputs = .ok mask := by
  rw [Condition.activeInputs, lines_analyzedText hprogram, Scan.run_append] at h
  rw [Condition.activeInputs, lines_sourceLines hprogram, Scan.run_append]
  cases hheader : Scan.run program.inputs .start 1 (Header.lines program mutation stage) with
  | error e =>
    rw [hheader] at h
    cases h
  | ok scan =>
    rw [hheader] at h
    simp only at h ⊢
    -- The header leaves no chain open, so nothing that is put in behind it is inside of one.
    have hopen : scan.chains = [] :=
      Scan.chains_of_run (fun line hline => Header.isQuiet_of_mem_lines hline) rfl hheader
    obtain ⟨next, hnext, hlike⟩ := run_inputLines hprogram hopen active blockSize pushConstants
      (1 + (Header.lines program mutation stage).length)
    rw [Scan.run_append, hnext]
    cases hcode : Scan.run program.inputs scan
        (1 + (Header.lines program mutation stage).length) (program.codeLines stage) with
    | error e =>
      rw [hcode] at h
      cases h
    | ok last =>
      rw [hcode] at h
      obtain ⟨last', hlast', hlike'⟩ := Scan.run_of_like (List.forall₂_same.mpr fun _ _ => rfl)
        (fun line hline => lineSpares_of_mem_codeLines hfree hline) hlike
        (1 + (Header.lines program mutation stage).length +
          (program.inputLines active blockSize pushConstants).length) hcode
      simp only [hlast']
      exact hlike'.finish h

theorem exists_masks_of_activeIn {known active : InputSet} {stages : List Stage}
    (h : program.activeIn mutation known stages = .ok active) :
    ∃ masks, List.Forall₂ (fun stage mask =>
        Condition.activeInputs (program.analyzedText mutation stage) program.inputs = .ok mask)
      stages masks ∧ active = masks.foldl InputSet.union known := by
  induction stages generalizing known with
  | nil => exact ⟨[], .nil, (Except.ok.inj h).symm⟩
  | cons stage rest ih =>
    rw [activeIn] at h
    split at h
    · cases h
    next mask hmask =>
      obtain ⟨masks, hmasks, hactive⟩ := ih h
      exact ⟨mask :: masks, .cons hmask hmasks, hactive⟩

/-- In every source that is emitted the same inputs are active as in the text that was looked at to
find them, and those of all sources together are the active inputs of the variant. -/
theorem variant_reanalyzed {reader : FileReader} {settings : Settings} {fileName : Text}
    {variant : Variant} (hread : Program.read reader settings fileName = .ok program)
    (hfree : program.TestsNothingReserved) (hvariant : program.variant mutation = .ok variant) :
    variant.sources.map Prod.fst = program.stages.toList ∧
      ∃ masks : List InputSet,
        List.Forall₂ (fun source mask =>
          Condition.activeInputs (program.analyzedText mutation source.1) program.inputs =
              .ok mask ∧
            Condition.activeInputs source.2 program.inputs = .ok mask)
          variant.sources masks ∧
        variant.active = masks.foldl InputSet.union .empty := by
  have hprogram := wellFormed_of_read hread
  obtain ⟨block, generated⟩ := generated_of_variant hvariant
  obtain ⟨masks, hmasks, hactive⟩ := exists_masks_of_activeIn generated.active
  refine ⟨?_, masks, ?_, hactive⟩
  · rw [generated.sources, List.map_map]
    exact List.map_id _
  · rw [generated.sources, List.forall₂_map_left_iff]
    exact hmasks.imp fun stage mask hmask =>
      ⟨hmask, activeInputs_sourceLines hprogram hfree hmask _ _ _⟩

/-- A file with a member of the block, a texture, and a member that is never active. -/
def lanternFile : Text :=
  Text.unlines
    ["#pragma anki mutator SHADOWS 0 1".toList, "#pragma anki start frag".toList,
     "#pragma anki input Vec4 u_color".toList, "#pragma anki input texture2D u_map".toList,
     "#ifdef DEBUG".toList, "#pragma anki input Vec4 u_tint".toList, "#endif".toList,
     "#pragma anki end".toList]

/-- The program of that file. -/
def lantern : Program where
  fileName := "lantern".toList
  settings := .default
  mutators := [⟨"SHADOWS".toList, [0, 1], false⟩]
  rewrites := []
  inputs :=
    [⟨"u_color".toList, 0, .vec4, false, none, none⟩,
     ⟨"u_map".toList, 1, .texture2D, false, none, some 1⟩,
     ⟨"u_tint".toList, 2, .vec4, false, none, none⟩]
  stages := .singleton .fragment
  descriptorSet := 0
  instanceMutator := none
  globals := []
  stageCode :=
    { PerStage.const [] with
      fragment :=
        ["#define _ANKI_INPUT_SITE_u_color".toList,
         "#define u_color _anki_unis._m_u_color".toList,
         "#define _ANKI_INPUT_SITE_u_map".toList,
         ("layout(set = _ANKI_DESCRIPTOR_SET, binding = _ANKI_BINDING_u_map) " ++
           "uniform texture2D u_map;").toList,
         "#ifdef DEBUG".toList, "#define _ANKI_INPUT_SITE_u_tint".toList,
         "#define u_tint _anki_unis._m_u_tint".toList, "#endif".toList] }
  members :=
    ["#if defined(_ANKI_ACTIVATE_INPUT_u_color)".toList, "\tvec4 _m_u_color;".toList,
     "#endif".toList, "#if defined(_ANKI_ACTIVATE_INPUT_u_tint)".toList,
     "\tvec4 _m_u_tint;".toList, "#endif".toList]

theorem variant_reanalyzed_lantern :
    Program.read (.ofFiles [("lantern".toList, lanternFile)]) .default "lantern".toList =
        .ok lantern ∧
      lantern.TestsNothingReserved ∧
      ∃ variant, lantern.variant [1] = .ok variant ∧
        variant.sources.map Prod.fst = lantern.stages.toList ∧
        ∃ masks : List InputSet,
          List.Forall₂ (fun source mask =>
            Condition.activeInputs (lantern.analyzedText [1] source.1) lantern.inputs = .ok mask ∧
              Condition.activeInputs source.2 lantern.inputs = .ok mask)
            variant.sources masks ∧
          variant.active = masks.foldl InputSet.union .empty := by
  have hread : Program.read (.ofFiles [("lantern".toList, lanternFile)]) .default
      "lantern".toList = .ok lantern := by
    -- A literal is spelled out once, in the goal, and not wherever the evaluation looks at it.
    unfold lanternFile lantern
    rewrite [String.toList_append]
    repeat rewrite [String.toList_ofList]
    decide +kernel
  have hfree : lantern.TestsNothingReserved := by
    have hplain : ∀ stage ∈ Stage.all, ∀ line ∈ lantern.codeLines stage, ∀ test ∈ testOf? line,
        ∀ text ∈ test.text?, '_' ∉ text := by
      unfold lantern
      rewrite [String.toList_append]
      repeat rewrite [String.toList_ofList]
      decide +kernel
    intro stage line hline test htest text htext name _ hhas hreserved
    -- A reserved name starts with an underscore, and no condition of the file has one.
    have hmem : '_' ∈ name := by
      rcases hreserved with ⟨rest, rfl⟩ | ⟨rest, rfl⟩
      · exact List.mem_append_left _ (by decide)
      · exact List.mem_append_left _ (by decide)
    obtain ⟨front, back, rfl, -⟩ := hhas
    exact hplain stage (Stage.mem_all stage) line hline test htest _ htext
      (List.mem_append_left _ (List.mem_append_right _ hmem))
  have hasks : lantern.AsksNoMacro := by
    refine asksNoMacro_of_not_isMacro ?_
    unfold lantern
    rewrite [String.toList_append]
    repeat rewrite [String.toList_ofList]
    decide +kernel
  have hmasks : lantern.stages.toList.map (lantern.bareInputs [1]) =
      [(⟨3⟩ : InputSet)].map .ok := by
    unfold lantern
    rewrite [String.toList_append]
    repeat rewrite [String.toList_ofList]
    decide +kernel
  obtain ⟨block, placements, hplaced⟩ : ∃ block placements,
      placeInputs ([(⟨3⟩ : InputSet)].foldl InputSet.union .empty) (lantern.instanceCount? [1])
        (.empty lantern.settings.packing) lantern.inputs = .ok (block, placements) :=
    ⟨_, _, rfl⟩
  obtain ⟨variant, hvariant, -⟩ := exists_variant_of_bare (wellFormed_of_read hread) rfl
    (by decide) hasks hmasks hplaced
  exact ⟨hread, hfree, variant, hvariant, variant_reanalyzed hread hfree hvariant⟩

end Program

end ShaderVariants
