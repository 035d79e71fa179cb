import ShaderVariants.Proofs.Condition.Blind
import ShaderVariants.Proofs.Program.Mentions
import ShaderVariants.Proofs.Variant.SourceText

/-!
# Mutators that no code refers to

The value of a mutator whose name stands nowhere in a program matters to nothing but the line of
the header that defines it (`Program.variant_alike_of_unreferenced`): no condition asks for it, and
it is not the number of elements of any input.
-/

namespace ShaderVariants

/-! ## 1. Words of a program -/

theorem Text.hasWord_unlines_of_mem {ls : List Text} {line word : Text} (hword : IsWord word)
    (hline : line ∈ ls) (h : HasWord line word) : HasWord (unlines ls) word := by
  induction ls with
  | nil => cases hline
  | cons first rest ih =>
    rw [unlines_cons]
    rcases List.mem_cons.mp hline with rfl | hline
    · exact h.append_right _ isWordChar_lineFeed
    · have hrest := (ih hline).of_cons isWordChar_lineFeed hword
      exact hrest.append_left hword first (Or.inr isWordChar_lineFeed)

namespace Program

variable {program : Program} {mutator : Mutator}

theorem mem_mutators_of_unreferenced (h : mutator ∈ program.unreferenced) :
    mutator ∈ program.mutators :=
  (List.mem_filter.mp h).1

/-- The name of an unreferenced mutator is a whole word of no code. -/
theorem not_hasWord_of_unreferenced (hword : Text.IsWord mutator.name)
    (h : mutator ∈ program.unreferenced) {text : Text} (htext : text ∈ program.codeTexts) :
    ¬ Text.HasWord text mutator.name := by
  intro hhas
  have hnone := (List.mem_filter.mp h).2
  rw [Bool.not_eq_true', ← Bool.not_eq_true, any_containsWord_iff hword] at hnone
  exact hnone (mentions_iff.mpr ⟨text, htext, Text.mentions_iff_hasWord.mpr hhas⟩)

theorem globals_mem_codeTexts (program : Program) :
    Text.unlines program.globals ∈ program.codeTexts := by
  simp [codeTexts]

theorem members_mem_codeTexts (program : Program) :
    Text.unlines program.members ∈ program.codeTexts := by
  simp [codeTexts]

theorem stageCode_mem_codeTexts (program : Program) (stage : Stage) :
    Text.unlines (program.stageCode.get stage) ∈ program.codeTexts := by
  rw [codeTexts]
  refine List.mem_cons_of_mem _ (List.mem_cons_of_mem _ ?_)
  exact List.mem_map_of_mem (Stage.mem_all stage)

/-! ## 2. Active inputs -/

/-- No line of the code asks for the value of an unreferenced mutator. -/
theorem lineBlindTo_of_unreferenced (hword : Text.IsWord mutator.name)
    (h : mutator ∈ program.unreferenced) {text line : Text} (htext : text ∈ program.codeTexts)
    (hline : line ∈ Text.lines text) : Condition.LineBlindTo mutator.name line := by
  intro asked hasked expr hexpr hname
  have hhas := Condition.hasWord_of_expressionOf? hword hasked hexpr hname
  exact not_hasWord_of_unreferenced hword h htext (hhas.of_mem_lines hword hline)

variable {first second : Mutation} {place : Nat} {value value' : Int}

theorem activeInputs_eq_of_unreferenced (hprogram : program.WellFormed)
    (hunreferenced : mutator ∈ program.unreferenced)
    (hplace : program.mutators[place]? = some mutator) (hfirst : first[place]? = some value)
    (hsecond : second[place]? = some value')
    (hagree : ∀ other, other ≠ place → first[other]? = second[other]?) (stage : Stage) :
    Condition.activeInputs (program.analyzedText first stage) program.inputs =
      Condition.activeInputs (program.analyzedText second stage) program.inputs := by
  have hname := hprogram.mutators.identifiers mutator (mem_mutators_of_unreferenced hunreferenced)
  have hword := Text.IsWord.of_isIdentifier hname
  obtain ⟨before, after, heq, heq'⟩ := Header.exists_lines_eq hplace hfirst hsecond hagree stage
  have hquiet : ∀ line ∈ before ++ after, Condition.IsQuiet line := by
    intro line hline
    have hmem : line ∈ Header.lines program first stage := by
      rw [heq]
      simp only [List.mem_append, List.mem_cons] at hline ⊢
      exact hline.imp_right Or.inr
    exact Header.isQuiet_of_mem_lines hmem
  have hsource := lines_analyzedText hprogram first stage
  have hother := lines_analyzedText hprogram second stage
  rw [heq, List.append_assoc, List.cons_append] at hsource
  rw [heq', List.append_assoc, List.cons_append] at hother
  refine Condition.activeInputs_congr hsource hother
    (fun line hline => hquiet line (List.mem_append_left _ hline))
    (Header.ofLine?_defineLine_ofInt hword value) (Header.ofLine?_defineLine_ofInt hword value') ?_
  intro line hline
  rcases List.mem_append.mp hline with hline | hline
  · intro asked hasked
    rw [(hquiet line (List.mem_append_right _ hline)).expressionOf?] at hasked
    cases hasked
  rcases List.mem_append.mp hline with hline | hline
  · exact lineBlindTo_of_unreferenced hword hunreferenced program.globals_mem_codeTexts hline
  · exact lineBlindTo_of_unreferenced hword hunreferenced (program.stageCode_mem_codeTexts stage)
      hline

theorem activeIn_congr {known : InputSet} {stages : List Stage}
    (h : ∀ stage ∈ stages,
      Condition.activeInputs (program.analyzedText first stage) program.inputs =
        Condition.activeInputs (program.analyzedText second stage) program.inputs) :
    program.activeIn first known stages = program.activeIn second known stages := by
  induction stages generalizing known with
  | nil => rfl
  | cons stage rest ih =>
    obtain ⟨hstage, hrest⟩ := List.forall_mem_cons.mp h
    rw [activeIn, activeIn, hstage]
    generalize Condition.activeInputs (program.analyzedText second stage) program.inputs = outcome
    cases outcome with
    | error obstacle => rfl
    | ok found => exact ih hrest

/-! ## 3. Instance counts -/

theorem instanceCount?_congr
    (hagree : ∀ other, other ≠ place → first[other]? = second[other]?)
    (hcounter : program.instanceMutator ≠ some place) :
    program.instanceCount? first = program.instanceCount? second := by
  rw [instanceCount?, instanceCount?]
  cases hother : program.instanceMutator with
  | none => rfl
  | some other =>
    have hne : other ≠ place := fun heq => hcounter (heq ▸ hother)
    simp only [Option.bind_some, hagree other hne]

/-- An instanced input names the mutator that counts instances among the block members. -/
theorem hasWord_members_of_instanced (hprogram : program.WellFormed) {input : Input}
    (hinput : input ∈ program.inputs) (hinstanced : input.instanced = true)
    (hcounter : program.instanceCounter? = some mutator) :
    Text.HasWord (Text.unlines program.members) mutator.name := by
  have hcounted : mutator ∈ program.mutators := by
    rw [instanceCounter?] at hcounter
    obtain ⟨index, -, hmutator⟩ := Option.bind_eq_some_iff.mp hcounter
    exact List.mem_of_getElem? hmutator
  have hword := Text.IsWord.of_isIdentifier (hprogram.mutators.identifiers mutator hcounted)
  -- The counter stands between the brackets of the input's own member line.
  have hline : '\t' :: input.type.spelling ++ " _m_".toList ++ input.name ++
      Draft.extent program.instanceCounter? input ++ [';'] ∈ program.members := by
    rw [hprogram.inputs.members_eq]
    refine List.mem_flatMap_of_mem (a := input) ?_ ?_
    · exact List.mem_filter.mpr ⟨hinput, ((hprogram.inputs.each input hinput).instanced hinstanced).1⟩
    · simp [Draft.memberLines]
  have hopen : Text.isWordChar '[' = false := by decide
  have hclose : Text.isWordChar ']' = false := by decide
  have hend : Text.isWordChar ';' = false := by decide
  have hextent : Text.HasWord ('[' :: mutator.name ++ [']']) mutator.name :=
    ((Text.HasWord.self mutator.name).append_right [']'] hclose).of_cons hopen hword
  refine Text.hasWord_unlines_of_mem hword hline (.append_right ?_ [';'] hend)
  rw [hcounter, Draft.extent, if_pos hinstanced]
  exact hextent.append_left hword _ (Or.inr hopen)

theorem instanced_eq_false_of_unreferenced (hprogram : program.WellFormed)
    (hunreferenced : mutator ∈ program.unreferenced)
    (hcounter : program.instanceCounter? = some mutator) {input : Input}
    (hinput : input ∈ program.inputs) : input.instanced = false := by
  have hname := hprogram.mutators.identifiers mutator (mem_mutators_of_unreferenced hunreferenced)
  cases hinstanced : input.instanced with
  | false => rfl
  | true =>
    have hhas := hasWord_members_of_instanced hprogram hinput hinstanced hcounter
    exact absurd hhas (not_hasWord_of_unreferenced (.of_isIdentifier hname) hunreferenced
      program.members_mem_codeTexts)

end Program

theorem placeInputs_congr {active : InputSet} {count count' : Option Nat} {block : Block}
    {inputs : List Input} (h : ∀ input ∈ inputs, input.instanced = true → count = count') :
    placeInputs active count block inputs = placeInputs active count' block inputs := by
  induction inputs generalizing block with
  | nil => rfl
  | cons input rest ih =>
    obtain ⟨hinput, hrest⟩ := List.forall_mem_cons.mp h
    have hcount : (if input.instanced then count else none) =
        if input.instanced then count' else none := by
      cases hinstanced : input.instanced with
      | false => rfl
      | true => rw [hinput hinstanced]
    simp only [placeInputs, hcount, ih hrest]

/-! ## 4. Variants -/

/-- Two variants that differ at most in one line of their headers. -/
structure Variant.AlikeBut (program : Program) (line line' : Text) (variant other : Variant) :
    Prop where
  active : variant.active = other.active
  placements : variant.placements = other.placements
  bindings : variant.bindings = other.bindings
  blockSize : variant.blockSize = other.blockSize
  usesPushConstants : variant.usesPushConstants = other.usesPushConstants
  sources : List.Forall₂
    (fun source source' => source.1 = source'.1 ∧ ∃ before after rest,
      Header.lines program variant.mutation source.1 = before ++ line :: after ∧
        source.2 = Text.unlines (before ++ line :: after ++ rest) ∧
        source'.2 = Text.unlines (before ++ line' :: after ++ rest))
    variant.sources other.sources

namespace Program

variable {program : Program} {mutator : Mutator} {first second : Mutation} {place : Nat}
  {value value' : Int}

theorem assemble_alike (hplace : program.mutators[place]? = some mutator)
    (hfirst : first[place]? = some value) (hsecond : second[place]? = some value')
    (hagree : ∀ other, other ≠ place → first[other]? = second[other]?) (active : InputSet)
    (block : Block) (placements : List (Option Placement)) :
    Matching
      (Variant.AlikeBut program (Header.defineLine mutator.name (Numeral.ofInt value))
        (Header.defineLine mutator.name (Numeral.ofInt value')))
      (program.assemble first active block placements)
      (program.assemble second active block placements) := by
  rw [assemble, assemble]
  split
  · exact .error _
  next pushConstants _ =>
    refine .ok ⟨rfl, rfl, rfl, rfl, rfl, ?_⟩
    rw [List.forall₂_map_left_iff, List.forall₂_map_right_iff, List.forall₂_same]
    intro stage _
    obtain ⟨before, after, heq, heq'⟩ := Header.exists_lines_eq hplace hfirst hsecond hagree stage
    exact ⟨rfl, before, after, _, heq, by rw [sourceLines_eq_append, heq],
      by rw [sourceLines_eq_append, heq']⟩

/-- The variants of two mutations that differ in an unreferenced mutator alone are the same but for
the line that defines it, and if there is none, it is for the same reason. -/
theorem variant_alike_of_unreferenced {reader : FileReader} {settings : Settings} {fileName : Text}
    (hread : Program.read reader settings fileName = .ok program)
    (hunreferenced : mutator ∈ program.unreferenced)
    (hplace : program.mutators[place]? = some mutator)
    (hfirst : program.validate first = .ok ()) (hsecond : program.validate second = .ok ())
    (hagree : ∀ other, other ≠ place → first[other]? = second[other]?) :
    ∃ value value', first[place]? = some value ∧ second[place]? = some value' ∧
      Matching
        (Variant.AlikeBut program (Header.defineLine mutator.name (Numeral.ofInt value))
          (Header.defineLine mutator.name (Numeral.ofInt value')))
        (program.variant first) (program.variant second) := by
  have hprogram := wellFormed_of_read hread
  have hlt := (List.getElem?_eq_some_iff.mp hplace).1
  have hvalue := List.getElem?_eq_getElem (Mutation.length_of_validate hfirst ▸ hlt)
  have hvalue' := List.getElem?_eq_getElem (Mutation.length_of_validate hsecond ▸ hlt)
  refine ⟨_, _, hvalue, hvalue', ?_⟩
  have hactive : program.activeIn first .empty program.stages.toList =
      program.activeIn second .empty program.stages.toList :=
    activeIn_congr fun stage _ =>
      activeInputs_eq_of_unreferenced hprogram hunreferenced hplace hvalue hvalue' hagree stage
  have hcount : ∀ input ∈ program.inputs, input.instanced = true →
      program.instanceCount? first = program.instanceCount? second := by
    intro input hinput hinstanced
    refine instanceCount?_congr hagree fun hcounter => ?_
    -- Were the mutator the counter, an instanced input would refer to it.
    have hcounter' : program.instanceCounter? = some mutator := by
      rw [instanceCounter?, hcounter, Option.bind_some, hplace]
    rw [instanced_eq_false_of_unreferenced hprogram hunreferenced hcounter' hinput] at hinstanced
    cases hinstanced
  simp only [variant, hfirst, hsecond, hactive, placeInputs_congr hcount]
  cases program.activeIn second .empty program.stages.toList with
  | error e => exact .error e
  | ok active =>
    simp only
    split
    · exact .error _
    · exact assemble_alike hplace hvalue hvalue' hagree _ _ _

/-- A file that guards an input by one of its mutators and leaves the other one alone. -/
def idleFile : Text :=
  Text.unlines
    ["#pragma anki mutator LOD 0 1".toList, "#pragma anki mutator QUALITY -1 3".toList,
     "#pragma anki start frag".toList, "#if LOD == 1".toList,
     "#pragma anki input Vec4 u_color".toList, "#endif".toList, "#pragma anki end".toList]

/-- The program of that file. -/
def idle : Program where
  fileName := "idle".toList
  settings := .default
  mutators := [⟨"LOD".toList, [0, 1], false⟩, ⟨"QUALITY".toList, [-1, 3], false⟩]
  rewrites := []
  inputs := [⟨"u_color".toList, 0, .vec4, false, none, none⟩]
  stages := .singleton .fragment
  descriptorSet := 0
  instanceMutator := none
  globals := []
  stageCode :=
    { PerStage.const [] with
      fragment :=
        ["#if LOD == 1".toList, "#define _ANKI_INPUT_SITE_u_color".toList,
         "#define u_color _anki_unis._m_u_color".toList, "#endif".toList] }
  members :=
    ["#if defined(_ANKI_ACTIVATE_INPUT_u_color)".toList, "\tvec4 _m_u_color;".toList,
     "#endif".toList]

theorem variant_alike_of_unreferenced_idle :
    Program.read (.ofFiles [("idle".toList, idleFile)]) .default "idle".toList = .ok idle ∧
      (⟨"QUALITY".toList, [-1, 3], false⟩ : Mutator) ∈ idle.unreferenced ∧
      ∃ value value', ([1, -1] : Mutation)[1]? = some value ∧ ([1, 3] : Mutation)[1]? = some value' ∧
        Matching
          (Variant.AlikeBut idle (Header.defineLine "QUALITY".toList (Numeral.ofInt value))
            (Header.defineLine "QUALITY".toList (Numeral.ofInt value')))
          (idle.variant [1, -1]) (idle.variant [1, 3]) := by
  have hread : Program.read (.ofFiles [("idle".toList, idleFile)]) .default "idle".toList =
      .ok idle := by
    -- A literal is spelled out once, in the goal, and not wherever the evaluation looks at it.
    unfold idleFile idle
    repeat rewrite [String.toList_ofList]
    decide +kernel
  have hunreferenced : (⟨"QUALITY".toList, [-1, 3], false⟩ : Mutator) ∈ idle.unreferenced := by
    unfold idle
    repeat rewrite [String.toList_ofList]
    decide +kernel
  have hagree : ∀ other, other ≠ 1 → ([1, -1] : Mutation)[other]? = ([1, 3] : Mutation)[other]? := by
    intro other hother
    match other with
    | 0 => rfl
    | 1 => exact absurd rfl hother
    | _ + 2 => rfl
  exact ⟨hread, hunreferenced,
    variant_alike_of_unreferenced hread hunreferenced rfl (by decide +kernel) (by decide +kernel)
      hagree⟩

end Program

end ShaderVariants
