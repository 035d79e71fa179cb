import ShaderVariants.Proofs.Program.Followed
import ShaderVariants.Proofs.Program.Numbering

/-!
# Programs read back from their directives

A program that has been read is rendered as directives, and these are read as the same program but
for its code (`Program.read_render`).  The invariant says of a draft that the directives written for
it lead to it again.
-/

namespace ShaderVariants

namespace Draft

/-! ## 1. Drafts that can be made again -/

/-- The mutators of a draft and nothing else. -/
def switches (draft : Draft) : Draft :=
  { empty with mutators := draft.mutators, instanceMutator := draft.instanceMutator }

/-- A draft whose directives lead to it again. -/
structure Replayable (draft : Draft) : Prop where
  formed : draft.WellFormed
  inRange : ∀ mutator ∈ draft.mutators, ∀ value ∈ mutator.values, Numeral.Fits 32 value
  avoids : ∀ rule ∈ draft.rewrites, rule.Avoids draft.mutators "to".toList
  setInRange : ∀ set, draft.descriptorSet = some set → set < Numeral.wordCount 32
  mutators : empty.Follows (draft.mutators.map mutatorTokens) draft.switches
  /-- The inputs are declared again wherever none is declared yet, with the same numbers. -/
  inputs : ∀ base : Draft, base.inputs = [] → base.nextConstant = 0 →
    (draft.instanceCounter?.isSome = true → base.instanceCounter?.isSome = true) →
      ∃ members globals stageCode, base.Follows (draft.inputs.map inputTokens)
        { base with
          inputs := draft.inputs
          nextConstant := draft.nextConstant
          members := members
          globals := globals
          stageCode := stageCode }

theorem replayable_empty : Replayable .empty where
  formed := wellFormed_empty
  inRange := by simp [empty]
  avoids := by simp [empty]
  setInRange := by simp [empty]
  mutators := .nil _
  inputs := by
    intro base hinputs hconstant _
    refine ⟨base.members, base.globals, base.stageCode, ?_⟩
    show base.Follows [] { base with inputs := [], nextConstant := 0 }
    rw [← hinputs, ← hconstant]
    exact .nil base

namespace Replayable

variable {draft : Draft}

theorem pushCode (h : draft.Replayable) (line : Text) : (draft.pushCode line).Replayable := by
  obtain ⟨globals, stageCode, heq⟩ := draft.pushCode_eq line
  rw [heq]
  exact ⟨⟨h.formed.mutators, h.formed.inputs⟩, h.inRange, h.avoids, h.setInRange, h.mutators,
    h.inputs⟩

theorem addMutator (h : draft.Replayable) {counts : Bool} {name : Text} {values : List Int}
    (new : draft.NewMutator counts name values)
    (hformed : (draft.addMutator counts name values).WellFormed) :
    (draft.addMutator counts name values).Replayable where
  formed := hformed
  inRange := List.forall_mem_append.mpr ⟨h.inRange, by simpa using new.inRange⟩
  avoids := fun rule hrule => (h.avoids rule hrule).append (h.formed.mutators.rules rule hrule) _
  setInRange := h.setInRange
  mutators := by
    have hnew : draft.switches.NewMutator counts name values :=
      ⟨new.identifier, new.fresh, new.nonempty, new.increasing, new.inRange, new.positive,
        new.single, new.notKeyword⟩
    show empty.Follows ((draft.mutators ++ [(⟨name, values, counts⟩ : Mutator)]).map
      mutatorTokens) _
    rw [List.map_append]
    exact h.mutators.append (follows_mutator hnew)
  inputs := by
    intro base hinputs hconstant hcounter
    refine h.inputs base hinputs hconstant fun hsome => hcounter ?_
    rw [instanceCounter?_addMutator h.formed new hsome]
    exact hsome

theorem addInput (h : draft.Replayable) {constant instanced : Bool} {type : DataType} {name : Text}
    (new : draft.NewInput constant instanced type name)
    (hformed : (draft.addInput constant instanced type name).WellFormed) :
    (draft.addInput constant instanced type name).Replayable := by
  have hnext := draft.nextConstant_addInput constant instanced type name
  obtain ⟨nextConstant, globals, stageCode, heq⟩ :=
    draft.addInput_eq constant instanced type name
  rw [heq] at hformed hnext ⊢
  refine ⟨hformed, h.inRange, h.avoids, h.setInRange, h.mutators, ?_⟩
  intro base hinputs hconstant hcounter
  obtain ⟨members, globals, stageCode, hfollows⟩ := h.inputs base hinputs hconstant hcounter
  -- The new input is declared again behind the ones before it, with the same number and ids.
  let middle : Draft :=
    { base with
      inputs := draft.inputs
      nextConstant := draft.nextConstant
      members := members
      globals := globals
      stageCode := stageCode }
  have hnew : middle.NewInput constant instanced type name := new.transfer rfl hcounter
  have hnext' := middle.nextConstant_addInput constant instanced type name
  obtain ⟨nextConstant', globals', stageCode', heq'⟩ :=
    middle.addInput_eq constant instanced type name
  have hlast := follows_input hnew
  rw [heq'] at hlast hnext'
  obtain rfl : nextConstant' = nextConstant := hnext'.trans hnext.symm
  refine ⟨if (draft.newInput constant instanced type name).inBlock then
      members ++ memberLines base.instanceCounter? (draft.newInput constant instanced type name)
    else members, globals', stageCode', ?_⟩
  show base.Follows ((draft.inputs ++ [draft.newInput constant instanced type name]).map
    inputTokens) _
  rw [List.map_append]
  exact hfollows.append hlast

theorem step {next : Draft} {file : Text} {line : Nat} (h : draft.Replayable)
    (hstep : Step draft file line next) : next.Replayable := by
  have hformed := h.formed.step hstep
  cases hstep with
  | mutator new => exact h.addMutator new hformed
  | rewrite sound avoids =>
    exact ⟨hformed, h.inRange, List.forall_mem_cons.mpr ⟨avoids, h.avoids⟩, h.setInRange,
      h.mutators, h.inputs⟩
  | input new => exact h.addInput new hformed
  | openStage | closeStage =>
    exact ⟨hformed, h.inRange, h.avoids, h.setInRange, h.mutators, h.inputs⟩
  | firstSet _ inRange =>
    refine ⟨hformed, h.inRange, h.avoids, fun set hset => ?_, h.mutators, h.inputs⟩
    exact Option.some.inj hset ▸ inRange
  | sameSet => exact h

end Replayable

theorem invariant_replayable : Invariant Replayable where
  code := fun _ line _ h => h.pushCode line
  once := fun _ _ h =>
    ⟨⟨h.formed.mutators, h.formed.inputs⟩, h.inRange, h.avoids, h.setInRange, h.mutators, h.inputs⟩
  step := fun _ _ _ _ hstep h => h.step hstep

/-! ## 2. All that a draft declares -/

/-- What is kept when the directives of a draft are followed again. -/
structure SameDeclarations (draft other : Draft) : Prop where
  mutators : other.mutators = draft.mutators
  rewrites : other.rewrites = draft.rewrites
  inputs : other.inputs = draft.inputs
  stages : other.stages = draft.stages
  descriptorSet : other.descriptorSet = some (draft.descriptorSet.getD 0)
  instanceMutator : other.instanceMutator = draft.instanceMutator
  openStage : other.openStage = none

theorem Replayable.exists_follows {draft : Draft} (h : draft.Replayable)
    (hstages : draft.BlocksSound) :
    ∃ other, empty.Follows
        (draft.mutators.map mutatorTokens ++
          (draft.rewrites.reverse.map (ruleTokens draft.mutators) ++
            (draft.inputs.map inputTokens ++
              ["descriptor_set".toList, Numeral.ofNat (draft.descriptorSet.getD 0)] ::
                draft.stages.toList.flatMap stageTokens))) other ∧
      draft.SameDeclarations other := by
  have hrules : draft.switches.Follows (draft.rewrites.reverse.map (ruleTokens draft.mutators))
      { draft.switches with rewrites := draft.rewrites.reverse.reverse ++ [] } := by
    have hreadable : Readable draft.switches.mutators := ⟨h.formed.mutators.distinct, h.inRange⟩
    refine follows_rules hreadable fun rule hrule => ?_
    have hmem := List.mem_reverse.mp hrule
    exact ⟨h.formed.mutators.rules rule hmem, h.avoids rule hmem⟩
  rw [List.reverse_reverse, List.append_nil] at hrules
  obtain ⟨members, globals, stageCode, hinputs⟩ :=
    h.inputs { draft.switches with rewrites := draft.rewrites } rfl rfl id
  have hset : draft.descriptorSet.getD 0 < Numeral.wordCount 32 := by
    cases hdeclared : draft.descriptorSet with
    | none => exact Numeral.wordCount_pos 32
    | some set => exact h.setInRange set hdeclared
  let declared : Draft :=
    { draft.switches with
      rewrites := draft.rewrites
      inputs := draft.inputs
      nextConstant := draft.nextConstant
      members := members
      globals := globals
      stageCode := stageCode
      descriptorSet := some (draft.descriptorSet.getD 0) }
  have hblocks : declared.Follows (draft.stages.toList.flatMap stageTokens)
      { declared with stages := draft.stages.toList.foldl StageSet.insert .empty } := by
    refine follows_stages hstages.sound.alone (fun stage hstage => ?_) rfl
      draft.stages.toList_nodup fun stage _ => StageSet.mem_empty stage
    rcases hstage with hlisted | hopened
    · exact StageSet.mem_toList.mp hlisted
    · rw [show declared.stages = .empty from rfl, StageSet.mem_empty] at hopened
      cases hopened
  refine ⟨_, h.mutators.append (hrules.append (hinputs.append
    ((follows_descriptorSet rfl hset).append hblocks))), ?_⟩
  exact ⟨rfl, rfl, rfl, StageSet.foldl_insert_toList _, rfl, rfl, rfl⟩

end Draft

/-! ## 3. Rendered programs -/

theorem isPlain_of_mem_mutatorTokens {mutator : Mutator}
    (hname : Text.isIdentifier mutator.name = true) :
    ∀ token ∈ mutatorTokens mutator, Token.IsPlain token := by
  have hword : ∀ word : Text, Text.isIdentifier word = true → Token.IsPlain word := fun _ =>
    Token.isPlain_of_isIdentifier
  refine List.forall_mem_cons.mpr ⟨hword _ (by decide), List.forall_mem_append.mpr ⟨?_,
    List.forall_mem_cons.mpr ⟨hword _ hname, fun token htoken => ?_⟩⟩⟩
  · cases mutator.countsInstances with
    | false => simp
    | true => simpa using hword _ (by decide)
  · obtain ⟨value, -, rfl⟩ := List.mem_map.mp htoken
    exact Token.isPlain_ofInt value

theorem isPlain_of_mem_sideTokens {mutators : List Mutator}
    (hnames : ∀ mutator ∈ mutators, Text.isIdentifier mutator.name = true)
    (value : RewriteRecord → Int) {records : List RewriteRecord}
    (hrecords : ∀ record ∈ records, DeclaredAt mutators record.mutator (value record)) :
    ∀ token ∈ sideTokens mutators value records, Token.IsPlain token := by
  induction records with
  | nil => simp [sideTokens]
  | cons record rest ih =>
    obtain ⟨⟨mutator, hmutator, -⟩, hrest⟩ := List.forall_mem_cons.mp hrecords
    have hname : nameAt mutators record.mutator = mutator.name := by
      rw [nameAt, hmutator]
      rfl
    rw [sideTokens, hname]
    exact List.forall_mem_cons.mpr
      ⟨Token.isPlain_of_isIdentifier (hnames mutator (List.mem_of_getElem? hmutator)),
        List.forall_mem_cons.mpr ⟨Token.isPlain_ofInt _, ih hrest⟩⟩

theorem isPlain_of_mem_ruleTokens {mutators : List Mutator}
    (hnames : ∀ mutator ∈ mutators, Text.isIdentifier mutator.name = true) {rule : Rewrite}
    (hrule : rule.WellFormed mutators) :
    ∀ token ∈ ruleTokens mutators rule, Token.IsPlain token := by
  have hword : ∀ word : Text, Text.isIdentifier word = true → Token.IsPlain word := fun _ =>
    Token.isPlain_of_isIdentifier
  refine List.forall_mem_cons.mpr ⟨hword _ (by decide), List.forall_mem_append.mpr ⟨?_,
    List.forall_mem_cons.mpr ⟨hword _ (by decide), ?_⟩⟩⟩
  · exact isPlain_of_mem_sideTokens hnames _ fun record hrecord => (hrule.declared record hrecord).1
  · exact isPlain_of_mem_sideTokens hnames _ fun record hrecord => (hrule.declared record hrecord).2

theorem isPlain_of_mem_inputTokens {input : Input} (hname : Text.isIdentifier input.name = true) :
    ∀ token ∈ inputTokens input, Token.IsPlain token := by
  have hword : ∀ word : Text, Text.isIdentifier word = true → Token.IsPlain word := fun _ =>
    Token.isPlain_of_isIdentifier
  have hspelling : Text.isIdentifier input.type.spelling = true := by
    cases input.type <;> decide
  refine List.forall_mem_cons.mpr ⟨hword _ (by decide), List.forall_mem_append.mpr ⟨?_, ?_⟩⟩
  · have hqualifiers : ∀ constant instanced, ∀ token ∈ qualifiers constant instanced,
        Text.isIdentifier token = true := by decide
    exact fun token htoken => hword token (hqualifiers _ _ token htoken)
  · simpa using ⟨hword _ hspelling, hword _ hname⟩

theorem isPlain_of_mem_stageTokens (stage : Stage) :
    ∀ tokens ∈ stageTokens stage, ∀ token ∈ tokens, Token.IsPlain token := by
  have hwords : ∀ tokens ∈ stageTokens stage, ∀ token ∈ tokens, Text.isIdentifier token = true := by
    cases stage <;> decide
  exact fun tokens htokens token htoken =>
    Token.isPlain_of_isIdentifier (hwords tokens htokens token htoken)

namespace Program

variable {program : Program}

theorem isPlain_of_mem_directives (hprogram : program.WellFormed) :
    ∀ tokens ∈ program.directives, ∀ token ∈ tokens, Token.IsPlain token := by
  intro tokens htokens
  simp only [directives, List.mem_append, List.mem_cons, List.mem_map, List.mem_flatMap] at htokens
  rcases htokens with
    ⟨mutator, hmutator, rfl⟩ | ⟨rule, hrule, rfl⟩ | ⟨input, hinput, rfl⟩ | rfl | ⟨stage, -, htokens⟩
  · exact isPlain_of_mem_mutatorTokens (hprogram.mutators.identifiers mutator hmutator)
  · exact isPlain_of_mem_ruleTokens hprogram.mutators.identifiers
      (hprogram.mutators.rules rule hrule)
  · exact isPlain_of_mem_inputTokens (hprogram.inputs.each input hinput).identifier
  · have hword : Token.IsPlain "descriptor_set".toList :=
      Token.isPlain_of_isIdentifier (by decide)
    simpa using ⟨hword, Token.isPlain_ofInt program.descriptorSet⟩
  · exact isPlain_of_mem_stageTokens stage tokens htokens

/-- A program that has been read is read again from the file that its directives make. -/
theorem read_render {reader : FileReader} {settings : Settings} {fileName : Text}
    (hread : Program.read reader settings fileName = .ok program) {other : FileReader} {name : Text}
    (hfile : other name = .ok program.render) :
    ∃ again, Program.read other settings name = .ok again ∧
      again.mutators = program.mutators ∧ again.rewrites = program.rewrites ∧
      again.inputs = program.inputs ∧ again.stages = program.stages ∧
      again.descriptorSet = program.descriptorSet ∧
      again.instanceMutator = program.instanceMutator := by
  have hplain := isPlain_of_mem_directives (wellFormed_of_read hread)
  obtain ⟨draft, ⟨hreplayable, hblocks⟩, lastLine, hfinish⟩ :=
    (Draft.invariant_replayable.and Draft.invariant_blocksSound).read hread
      ⟨Draft.replayable_empty, Draft.blocksSound_empty⟩
  rw [Draft.finish] at hfinish
  split at hfinish
  · cases hfinish
  split at hfinish
  · cases hfinish
  next hstages =>
  obtain rfl := Except.ok.inj hfinish
  obtain ⟨draft', hfollows, hsame⟩ := hreplayable.exists_follows hblocks
  -- A binding is not written, since it is given out again.
  rw [← InputsSound.map_bindResources (fun _ _ => rfl) (Draft.firstBinding draft.inputs)] at hfollows
  have hread' : ∃ lastLine', Program.read other settings name =
      draft'.finish name lastLine' settings := read_of_follows hplain hfile hfollows
  obtain ⟨lastLine', hagain⟩ := hread'
  rw [hagain, Draft.finish, hsame.openStage]
  simp only
  rw [if_neg (by rw [hsame.stages]; exact hstages)]
  refine ⟨_, rfl, hsame.mutators, ?_, ?_, hsame.stages, ?_, hsame.instanceMutator⟩
  · exact congrArg List.reverse hsame.rewrites
  · show Draft.bindResources _ draft'.inputs = _
    rw [hsame.inputs]
  · show draft'.descriptorSet.getD 0 = _
    rw [hsame.descriptorSet]
    rfl

/-- A file that names what it declares by the words of the directives. -/
def wordsFile : Text :=
  Text.unlines
    ["#pragma anki descriptor_set +3".toList, "#pragma anki mutator to -1 0".toList,
     "#pragma anki mutator instanced instanced 1 2".toList,
     "#pragma anki rewrite_mutation instanced 2 to instanced 1".toList,
     "#pragma anki start vert".toList, "#pragma anki input const IVec2 input".toList,
     "#pragma anki input instanced Mat3 const".toList, "#pragma anki end".toList]

/-- The program of that file. -/
def words : Program where
  fileName := "words".toList
  settings := .default
  mutators := [⟨"to".toList, [-1, 0], false⟩, ⟨"instanced".toList, [1, 2], true⟩]
  rewrites := [⟨[⟨1, 2, 1⟩]⟩]
  inputs :=
    [⟨"input".toList, 0, .ivec2, false, some 0, none⟩,
     ⟨"const".toList, 1, .mat3, true, none, none⟩]
  stages := .singleton .vertex
  descriptorSet := 3
  instanceMutator := some 1
  globals := []
  stageCode :=
    { PerStage.const [] with
      vertex :=
        ["#define _ANKI_INPUT_SITE_input".toList,
         "ANKI_SPECIALIZATION_CONSTANT_IVEC2(input, 0);".toList,
         "#define _ANKI_INPUT_SITE_const".toList,
         "#define const _anki_unis._m_const".toList] }
  members :=
    ["#if defined(_ANKI_ACTIVATE_INPUT_const)".toList, "\tmat3 _m_const[instanced];".toList,
     "#endif".toList]

theorem read_render_words :
    Program.read (.ofFiles [("words".toList, wordsFile)]) .default "words".toList = .ok words ∧
      FileReader.ofFiles [("copy".toList, words.render)] "copy".toList = .ok words.render ∧
      ∃ again,
        Program.read (.ofFiles [("copy".toList, words.render)]) .default "copy".toList =
          .ok again ∧
        again.mutators = words.mutators ∧ again.rewrites = words.rewrites ∧
        again.inputs = words.inputs ∧ again.stages = words.stages ∧
        again.descriptorSet = words.descriptorSet ∧
        again.instanceMutator = words.instanceMutator := by
  have hread : Program.read (.ofFiles [("words".toList, wordsFile)]) .default "words".toList =
      .ok words := by
    -- A literal is spelled out once, in the goal, and not wherever the evaluation looks at it.
    unfold wordsFile words
    repeat rewrite [String.toList_ofList]
    decide +kernel
  have hfile : FileReader.ofFiles [("copy".toList, words.render)] "copy".toList =
      .ok words.render := rfl
  exact ⟨hread, hfile, read_render hread hfile⟩

end Program

end ShaderVariants
