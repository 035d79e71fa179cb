import ShaderVariants.Proofs.Program.Stages
import ShaderVariants.Proofs.Variant.Definitions
import ShaderVariants.Proofs.Variant.Discarded
import ShaderVariants.Proofs.Variant.GuardedChain

/-!
# Inputs behind guards

A program whose lines outside of all stage blocks are one chain of guarded input lines, with guards
that are expressions over its mutators.  Every mutation chooses one arm, and of all inputs of the
chain only that of this arm is active (`Program.uses_iff_chosen`).  What stands in a stage block can
still fail, or forge the marks that the analysis goes by (`Program.guards_forged`).
-/

namespace ShaderVariants

open Condition (Directive IsQuiet Scan siteMark)
open Condition.Eager (Leads)
open Guarded (definedNames mem_definedNames)

/-! ## 1. Where the chain stands -/

/-- The lines of a program that stand for code outside of all stage blocks are the chain, the guards
are over mutators, and no other line of a header defines a mutator or marks an input by it. -/
structure GuardedInputs.FormGlobals (chain : GuardedInputs) (reader : FileReader) (fileName : Text)
    (program : Program) : Prop where
  lines : (linesIn none none (Program.linesRead reader fileName)).filter
    (fun line => (Line.ofText line).givesCode) = chain.lines
  names : ∀ guard ∈ chain.guards, ∀ name ∈ guard.expr.names,
    name ∈ program.mutators.map Mutator.name
  marks : ∀ mutator ∈ program.mutators, ¬ siteMark <+: mutator.name
  macros : ∀ mutator ∈ program.mutators, ∀ stage, program.stages.mem stage = true →
    mutator.name ∉ definedNames (Header.lines program [] stage)

/-- Nothing but the declarations of the chain's inputs defines their marks: no code that was written
by hand, and no other input by its name. -/
structure GuardedInputs.Unforged (chain : GuardedInputs) (reader : FileReader) (fileName : Text)
    (program : Program) : Prop where
  code : ∀ line ∈ Program.linesRead reader fileName, Line.ofText line = .code →
    ∀ input ∈ chain.inputLines, siteMark ++ input.name ∉ definedNames [line]
  inputs : ∀ other ∈ program.inputs, ∀ input ∈ chain.inputLines,
    other.name ≠ siteMark ++ input.name

theorem emitted_eq_nil {line : Text} (h : (Line.ofText line).givesCode = false)
    (inputs : List Input) : emitted inputs line = [] := by
  rw [Line.givesCode, Bool.or_eq_false_iff, beq_eq_false_iff_ne] at h
  obtain ⟨hcode, hdeclared⟩ := h
  have hnone : (Line.ofText line).declaredName? = none := by
    rwa [Option.isSome_eq_false_iff, Option.isNone_iff_eq_none] at hdeclared
  rw [emitted_of_ne_code hcode, Line.declared?, hnone]
  rfl

theorem flatMap_emitted_filter (inputs : List Input) (lines : List Text) :
    (lines.filter fun line => (Line.ofText line).givesCode).flatMap (emitted inputs) =
      lines.flatMap (emitted inputs) := by
  induction lines with
  | nil => rfl
  | cons line rest ih =>
    rw [List.filter_cons, List.flatMap_cons]
    cases hgives : (Line.ofText line).givesCode with
    | true => rw [if_pos rfl, List.flatMap_cons, ih]
    | false => rw [if_neg Bool.false_ne_true, emitted_eq_nil hgives, ih, List.nil_append]

/-- No name is declared both outside of all blocks and in the block of a stage. -/
theorem disjoint_declaredNames_linesIn {lines : List Text} (h : (declaredNames lines).Nodup)
    (stage : Stage) :
    List.Disjoint (declaredNames (linesIn none none lines))
      (declaredNames (linesIn (some stage) none lines)) := by
  have hflat : ∀ lines, declaredNames lines =
      lines.flatMap fun line => (Line.ofText line).declaredName?.toList :=
    fun lines => List.filterMap_eq_flatMap_toList _ lines
  have hspread := flatMap_linesIn_perm
    (fun line => (Line.ofText line).declaredName?.toList) none lines
  rw [← hflat] at hspread
  have hdistinct := hspread.nodup_iff.mpr h
  rw [codePlaces, List.flatMap_cons] at hdistinct
  intro name hglobal hstage
  refine List.disjoint_of_nodup_append hdistinct (hflat _ ▸ hglobal) ?_
  refine List.mem_flatMap.mpr ⟨some stage, List.mem_map_of_mem (Stage.mem_all stage), ?_⟩
  exact hflat _ ▸ hstage

namespace GuardedInputs

variable {chain : GuardedInputs} {reader : FileReader} {settings : Settings} {fileName : Text}
  {program : Program} {mutation : Mutation} {stage : Stage}

theorem globals_eq (hread : Program.read reader settings fileName = .ok program)
    (h : chain.FormGlobals reader fileName program) :
    program.globals = chain.lines.flatMap (emitted program.inputs) := by
  rw [← h.lines, flatMap_emitted_filter]
  exact Program.codeIn_of_linesRead hread none

theorem mem_lines_of_mem_inputLines {line : InputLine} (h : line ∈ chain.inputLines) :
    line.text ∈ chain.lines := by
  obtain ⟨first, rest, fallback⟩ := chain
  simp only [inputLines, guards, List.map_cons, List.mem_append, List.mem_cons, List.mem_map,
    List.not_mem_nil, or_false] at h
  simp only [lines, List.mem_append, List.mem_cons, List.mem_flatMap]
  rcases h with (rfl | ⟨guard, hguard, rfl⟩) | rfl
  · simp
  · exact Or.inl (Or.inr ⟨guard, hguard, by simp [Guard.lines]⟩)
  · simp

/-- The input lines of the chain are declared outside of all blocks. -/
theorem name_mem_declaredNames (h : chain.FormGlobals reader fileName program) {line : InputLine}
    (hline : line ∈ chain.inputLines) :
    line.name ∈ declaredNames (linesIn none none (Program.linesRead reader fileName)) := by
  have hmem := mem_lines_of_mem_inputLines hline
  rw [← h.lines] at hmem
  exact List.mem_filterMap.mpr ⟨line.text, List.mem_of_mem_filter hmem, line.declares⟩

theorem name_mem_inputs (hread : Program.read reader settings fileName = .ok program)
    (h : chain.FormGlobals reader fileName program) {line : InputLine}
    (hline : line ∈ chain.inputLines) : line.name ∈ program.inputs.map Input.name := by
  rw [← Program.declaredNames_linesRead hread]
  obtain ⟨text, htext, hname⟩ := List.mem_filterMap.mp (name_mem_declaredNames h hline)
  exact List.mem_filterMap.mpr ⟨text, mem_of_mem_linesIn htext, hname⟩

/-- The block of a stage marks none of the chain's inputs. -/
theorem notMem_definedNames_stageCode (hread : Program.read reader settings fileName = .ok program)
    (h : chain.FormGlobals reader fileName program)
    (hunforged : chain.Unforged reader fileName program) {line : InputLine}
    (hline : line ∈ chain.inputLines) (stage : Stage) :
    siteMark ++ line.name ∉ definedNames (program.stageCode.get stage) := by
  have hprogram := Program.wellFormed_of_read hread
  intro hmem
  obtain ⟨part, hpart, value, hdefine⟩ := mem_definedNames.mp hmem
  have hcode := Program.codeIn_of_linesRead hread (some stage)
  rw [show program.stageCode.get stage = _ from hcode] at hpart
  obtain ⟨source, hsource, hpart⟩ := List.mem_flatMap.mp hpart
  by_cases hkind : Line.ofText source = .code
  · rw [emitted_of_code hkind, List.mem_singleton] at hpart
    subst hpart
    exact hunforged.code part (mem_of_mem_linesIn hsource) hkind line hline
      (mem_definedNames.mpr ⟨part, List.mem_singleton_self part, value, hdefine⟩)
  · rw [emitted_of_ne_code hkind] at hpart
    cases hdeclared : (Line.ofText source).declared? program.inputs with
    | none =>
      rw [hdeclared] at hpart
      cases hpart
    | some other =>
      rw [hdeclared] at hpart
      obtain ⟨hname, hother, -⟩ := Scan.eq_of_declared? hdeclared
      have hidentifier := (hprogram.inputs.each other hother).identifier
      have hlines : part = Draft.siteLine other ∨ part = Draft.declarationLine other := by
        simpa [Input.codeLines] using hpart
      rcases hlines with rfl | rfl
      · -- The mark of an input that is declared in the block as well.
        rw [Draft.ofLine?_siteLine hidentifier] at hdefine
        obtain ⟨hsame, -⟩ := Directive.define.inj (Option.some.inj hdefine)
        have hdistinct : (declaredNames (Program.linesRead reader fileName)).Nodup := by
          rw [Program.declaredNames_linesRead hread]
          exact hprogram.inputs.distinct
        refine disjoint_declaredNames_linesIn hdistinct stage (name_mem_declaredNames h hline) ?_
        refine List.mem_filterMap.mpr ⟨source, hsource, ?_⟩
        rw [hname, List.append_cancel_left hsame]
      · cases hblock : other.inBlock with
        | true =>
          rw [Draft.ofLine?_declarationLine_of_inBlock hidentifier hblock] at hdefine
          obtain ⟨hsame, -⟩ := Directive.define.inj (Option.some.inj hdefine)
          exact hunforged.inputs other hother line hline hsame
        | false =>
          rw [Draft.ofLine?_declarationLine_eq_none hblock] at hdefine
          cases hdefine

/-! ## 2. The analysis of a stage -/

/-- What stands in front of the block of a stage reaches the mark of the chosen input, and no mark
of another input of the chain. -/
theorem exists_leads_front (hread : Program.read reader settings fileName = .ok program)
    (h : chain.FormGlobals reader fileName program)
    (hvalid : program.validate mutation = .ok ()) (hstage : program.stages.mem stage = true) :
    ∃ pass, Leads (Header.lines program mutation stage ++ program.globals) .start pass ∧
      pass.levels = [] ∧
      ∀ name, (∀ line ∈ chain.inputLines, line.name ≠ siteMark ++ name) →
        (name ∈ pass.sites ↔ name = (chain.chosen (program.valueUnder mutation)).name) := by
  have hprogram := Program.wellFormed_of_read hread
  obtain ⟨header, hheader⟩ := Program.exists_headerPass hread hvalid
    (fun mutator hmutator => Program.strip?_eq_none_of_not_prefix (h.marks mutator hmutator)) stage
  have hdefined : ∀ guard ∈ chain.guards,
      guard.Defined header.symbols (program.valueUnder mutation) := by
    intro guard hguard name hname
    have hmutator := h.names guard hguard name hname
    refine hheader.symbols name hmutator ?_
    obtain ⟨mutator, hmem, rfl⟩ := List.mem_map.mp hmutator
    exact h.macros mutator hmem stage hstage
  obtain ⟨pass, hleads, hlevels, hsites⟩ := chain.exists_leads_lines
    (fun input hinput => (hprogram.inputs.each input hinput).identifier)
    (fun line hline => name_mem_inputs hread h hline) hdefined hheader.levels hheader.sites
  rw [← globals_eq hread h] at hleads
  exact ⟨pass, hheader.leads.append hleads, hlevels, hsites⟩

theorem activeInputs_analyzedText (hread : Program.read reader settings fileName = .ok program) :
    Condition.activeInputs (program.analyzedText mutation stage) program.inputs =
      match Scan.run program.inputs .start 1
        (Header.lines program mutation stage ++ program.globals ++ program.stageCode.get stage) with
      | .error e => .error e
      | .ok scan => scan.finish := by
  have hidentifiers := (Program.wellFormed_of_read hread).mutators.identifiers
  refine Scan.activeInputs_unlines ?_
  simp only [List.forall_mem_append]
  refine ⟨⟨fun line hline => ?_, fun line hline => ?_⟩, fun line hline => ?_⟩
  · exact (Header.onOneLine_of_mem_lines hidentifiers hline).isLine.1
  · exact Program.lineFeed_notMem_of_mem_codeIn hread (show line ∈ program.codeIn none from hline)
  · exact Program.lineFeed_notMem_of_mem_codeIn hread
      (show line ∈ program.codeIn (some stage) from hline)

/-- The analysis follows what stands in front of the block of a stage. -/
theorem exists_run_front (hread : Program.read reader settings fileName = .ok program)
    (h : chain.FormGlobals reader fileName program)
    (hvalid : program.validate mutation = .ok ()) (hstage : program.stages.mem stage = true) :
    ∃ front, Scan.run program.inputs .start 1
        (Header.lines program mutation stage ++ program.globals) = .ok front ∧
      front.chains = [] ∧
      ∀ input ∈ program.inputs, (∀ line ∈ chain.inputLines, line.name ≠ siteMark ++ input.name) →
        (front.active.mem input.index = true ↔
          input.name = (chain.chosen (program.valueUnder mutation)).name) := by
  have hinputs := (Program.wellFormed_of_read hread).inputs
  obtain ⟨pass, hleads, hlevels, hsites⟩ := exists_leads_front hread h hvalid hstage
  obtain ⟨front, hfront, hfollows⟩ :=
    hleads.run hinputs.distinct hinputs.index_lt_capacity (Scan.follows_start program.inputs) 1
  refine ⟨front, hfront, ?_, fun input hinput hplain => ?_⟩
  · have hlength := Condition.Chain.length_of_allFollow hfollows.chains
    rw [hlevels] at hlength
    exact List.length_eq_zero_iff.mp hlength.symm
  · rw [hfollows.active, ← hsites input.name hplain]
    constructor
    · rintro ⟨other, hother, hindex, hmem⟩
      obtain rfl := List.inj_on_of_nodup_map hinputs.nodup_index hother hinput hindex
      exact hmem
    · exact fun hmem => ⟨input, hinput, rfl, hmem⟩

/-- A stage whose block holds no conditional line can be analyzed. -/
theorem exists_activeInputs_of_isQuiet
    (hread : Program.read reader settings fileName = .ok program)
    (h : chain.FormGlobals reader fileName program)
    (hvalid : program.validate mutation = .ok ()) (hstage : program.stages.mem stage = true)
    (hquiet : ∀ line ∈ program.stageCode.get stage, IsQuiet line) :
    ∃ active, Condition.activeInputs (program.analyzedText mutation stage) program.inputs =
      .ok active := by
  have hinputs := (Program.wellFormed_of_read hread).inputs
  obtain ⟨pass, hleads, hlevels, -⟩ := exists_leads_front hread h hvalid hstage
  have hall := hleads.append (Condition.Eager.leads_of_isQuiet hquiet pass)
  obtain ⟨last, hrun, hfollows⟩ :=
    hall.run hinputs.distinct hinputs.index_lt_capacity (Scan.follows_start program.inputs) 1
  have hchains : last.chains = [] := by
    have hlength := Condition.Chain.length_of_allFollow hfollows.chains
    rw [Condition.Eager.levels_of_isQuiet hquiet, hlevels] at hlength
    exact List.length_eq_zero_iff.mp hlength.symm
  refine ⟨last.active, ?_⟩
  rw [activeInputs_analyzedText hread, hrun]
  dsimp only [Scan.finish]
  rw [hchains]

/-- Of the chain's inputs a stage finds only the chosen one active. -/
theorem mem_iff_chosen (hread : Program.read reader settings fileName = .ok program)
    (h : chain.FormGlobals reader fileName program)
    (hunforged : chain.Unforged reader fileName program)
    (hvalid : program.validate mutation = .ok ()) (hstage : program.stages.mem stage = true)
    {active : InputSet}
    (hactive : Condition.activeInputs (program.analyzedText mutation stage) program.inputs =
      .ok active)
    {input : Input} (hinput : input ∈ program.inputs)
    (hname : input.name ∈ chain.inputLines.map InputLine.name) :
    active.mem input.index =
      decide (input.name = (chain.chosen (program.valueUnder mutation)).name) := by
  have hinputs := (Program.wellFormed_of_read hread).inputs
  obtain ⟨line, hline, hsame⟩ := List.mem_map.mp hname
  obtain ⟨front, hfront, -, hchosen⟩ := exists_run_front hread h hvalid hstage
  rw [activeInputs_analyzedText hread, Scan.run_append, hfront] at hactive
  dsimp only at hactive
  split at hactive
  · cases hactive
  next last hlast =>
  have hmask : last.active = active := by
    rw [Scan.finish] at hactive
    split at hactive
    · exact Except.ok.inj hactive
    · cases hactive
  -- Behind the chain nothing can mark the input, so it is active as the chain leaves it.
  have hunmarked : ∀ part ∈ program.stageCode.get stage, ∀ value,
      Directive.ofLine? part ≠ some (.define (siteMark ++ input.name) value) := by
    intro part hpart value hdefine
    refine notMem_definedNames_stageCode hread h hunforged hline stage ?_
    rw [hsame]
    exact mem_definedNames.mpr ⟨part, hpart, value, hdefine⟩
  have hplain : ∀ other ∈ chain.inputLines, other.name ≠ siteMark ++ input.name := by
    intro other hother
    obtain ⟨declared, hdeclared, hdeclaredName⟩ := List.mem_map.mp (name_mem_inputs hread h hother)
    rw [← hdeclaredName, ← hsame]
    exact hunforged.inputs declared hdeclared line hline
  rw [← hmask, Scan.mem_active_of_run hinput hinputs.nodup_index hunmarked hlast, Bool.eq_iff_iff,
    decide_eq_true_iff]
  exact hchosen input hinput hplain

end GuardedInputs

/-! ## 3. Programs -/

namespace Program

variable {program : Program} {mutation : Mutation}

/-- A program whose globals are a chain of guarded inputs.  Only a stage whose own block holds a
conditional line can have one that cannot be followed; and where the marks of the chain's inputs are
not forged, every variant has exactly one of these inputs active, the one that the mutation chooses:
that of the first guard whose value is not zero, or else the last one. -/
theorem uses_iff_chosen {chain : GuardedInputs} {reader : FileReader} {settings : Settings}
    {fileName : Text} (hread : Program.read reader settings fileName = .ok program)
    (hglobals : chain.FormGlobals reader fileName program) :
    (∀ stage obstacle,
      program.variant mutation = .error (.unsupportedConditional stage obstacle) →
        ∃ line ∈ program.stageCode.get stage, ¬ IsQuiet line) ∧
    (chain.Unforged reader fileName program →
      ∀ variant, program.variant mutation = .ok variant →
        ∃ kept ∈ program.inputs,
          kept.name = (chain.chosen (program.valueUnder mutation)).name ∧
          ∀ input ∈ program.inputs, input.name ∈ chain.inputLines.map InputLine.name →
            (variant.uses input = true ↔ input = kept)) := by
  constructor
  · intro stage obstacle hvariant
    obtain ⟨hvalid, hstage, herror⟩ := activeInputs_of_unsupportedConditional hvariant
    by_contra hnone
    have hquiet : ∀ line ∈ program.stageCode.get stage, IsQuiet line := by
      intro line hline
      by_contra hline'
      exact hnone ⟨line, hline, hline'⟩
    obtain ⟨active, hactive⟩ :=
      GuardedInputs.exists_activeInputs_of_isQuiet hread hglobals hvalid hstage hquiet
    rw [herror] at hactive
    cases hactive
  · intro hunforged variant hvariant
    obtain ⟨block, generated⟩ := generated_of_variant hvariant
    have hinputs := (wellFormed_of_read hread).inputs
    obtain ⟨kept, hkept, hkeptName⟩ := List.mem_map.mp
      (GuardedInputs.name_mem_inputs hread hglobals
        (chain.chosen_mem (program.valueUnder mutation)))
    refine ⟨kept, hkept, hkeptName, fun input hinput hname => ?_⟩
    obtain ⟨stage, hstage⟩ := (stagesSound_of_read hread).1
    have hstages : program.stages.toList.isEmpty = false := by
      rw [List.isEmpty_eq_false_iff]
      exact List.ne_nil_of_mem (StageSet.mem_toList.mpr hstage)
    have hmem := mem_activeIn (fun stage hstage mask hmask =>
      GuardedInputs.mem_iff_chosen hread hglobals hunforged generated.valid
        (StageSet.mem_toList.mp hstage) hmask hinput hname) generated.active
    rw [InputSet.mem_empty, hstages, Bool.false_or, Bool.not_false, Bool.and_true] at hmem
    rw [Variant.uses, hmem, decide_eq_true_iff, ← hkeptName]
    constructor
    · exact fun hsame => List.inj_on_of_nodup_map hinputs.distinct hinput hkept hsame
    · exact fun hsame => congrArg Input.name hsame

/-- A file with guards that compare a mutator, which can be negative, and that take two of them
together. -/
def turnstileFile : Text :=
  Text.unlines
    ["#pragma anki mutator LEVEL -2147483648 -1 0 7".toList, "#pragma anki mutator MODE 0 1".toList,
     "#if LEVEL < -1 && MODE".toList, "#pragma anki input const F32 cellar".toList,
     "#elif (LEVEL==0x7)".toList, "#pragma anki input sampler attic".toList,
     "#else".toList, "#pragma anki input const U32 yard".toList, "#endif".toList,
     "#pragma anki start frag".toList, "void main();".toList, "#pragma anki end".toList]

/-- The program of that file. -/
def turnstile : Program where
  fileName := "turnstile".toList
  settings := .default
  mutators := [⟨"LEVEL".toList, [-2147483648, -1, 0, 7], false⟩, ⟨"MODE".toList, [0, 1], false⟩]
  rewrites := []
  inputs :=
    [⟨"cellar".toList, 0, .f32, false, some 0, none⟩,
     ⟨"attic".toList, 1, .sampler, false, none, some 0⟩,
     ⟨"yard".toList, 2, .u32, false, some 1, none⟩]
  stages := .singleton .fragment
  descriptorSet := 0
  instanceMutator := none
  globals :=
    ["#if LEVEL < -1 && MODE".toList, "#define _ANKI_INPUT_SITE_cellar".toList,
     "ANKI_SPECIALIZATION_CONSTANT_FLOAT(cellar, 0);".toList, "#elif (LEVEL==0x7)".toList,
     "#define _ANKI_INPUT_SITE_attic".toList,
     ("layout(set = _ANKI_DESCRIPTOR_SET, binding = _ANKI_BINDING_attic) " ++
      "uniform sampler attic;").toList,
     "#else".toList, "#define _ANKI_INPUT_SITE_yard".toList,
     "ANKI_SPECIALIZATION_CONSTANT_UINT(yard, 1);".toList, "#endif".toList]
  stageCode := { PerStage.const [] with fragment := ["void main();".toList] }
  members := []

def turnstileReader : FileReader :=
  .ofFiles [("turnstile".toList, turnstileFile)]

theorem writtenAs_cellar :
    (Condition.Expr.binary .and (.binary .lt (.symbol "LEVEL".toList) (.literal (-1)))
      (.symbol "MODE".toList)).WrittenAs "LEVEL < -1 && MODE".toList := by
  have hlevel : Condition.Lexeme.Written (.ident "LEVEL".toList) "LEVEL".toList :=
    .ident (by decide) (by decide)
  have hone : Condition.IsLiteral "-1".toList (-1) :=
    .negative (.decimal (by decide) (List.all_eq_true.mp (by decide))) (by decide)
  have hmode : Condition.Lexeme.Written (.ident "MODE".toList) "MODE".toList :=
    .ident (by decide) (by decide)
  have hless := Condition.Derives.binary (show Condition.Operator.lt.rank = 0 + 1 from rfl)
    (.tighter (.symbol "LEVEL".toList)) (.literal (-1))
  have hand := Condition.Derives.binary (show Condition.Operator.and.rank = 2 + 1 from rfl)
    (.tighter (.tighter hless)) (.tighter (.tighter (.symbol "MODE".toList)))
  refine ⟨_, .tighter hand, ?_⟩
  exact .lexeme hlevel <| .blank rfl <| .lexeme (.operator .lt) <| .blank rfl <|
    .lexeme (.int hone) <| .blank rfl <| .lexeme (.operator .and) <| .blank rfl <|
    .lexeme hmode .nil

theorem writtenAs_attic :
    (Condition.Expr.binary .eq (.symbol "LEVEL".toList) (.literal 7)).WrittenAs
      "(LEVEL==0x7)".toList := by
  have hlevel : Condition.Lexeme.Written (.ident "LEVEL".toList) "LEVEL".toList :=
    .ident (by decide) (by decide)
  have hseven : Condition.IsLiteral "0x7".toList 7 :=
    .positive (.hexadecimal (Or.inl rfl) (by decide) (List.all_eq_true.mp (by decide))) (by decide)
  have hequal := Condition.Derives.binary (show Condition.Operator.eq.rank = 1 + 1 from rfl)
    (.tighter (.tighter (.symbol "LEVEL".toList))) (.tighter (.literal 7))
  refine ⟨_, .tighter (.tighter (.tighter (.tighter (.paren (.tighter (.tighter hequal)))))), ?_⟩
  exact .lexeme .openParen <| .lexeme hlevel <| .lexeme (.operator .eq) <|
    .lexeme (.int hseven) <| .lexeme .closeParen .nil

/-- The chain of that file. -/
def turnstileChain : GuardedInputs where
  first := ⟨_, _, writtenAs_cellar, "#pragma anki input const F32 cellar".toList, "cellar".toList,
    by decide +kernel⟩
  rest := [⟨_, _, writtenAs_attic, "#pragma anki input sampler attic".toList, "attic".toList,
    by decide +kernel⟩]
  fallback := ⟨"#pragma anki input const U32 yard".toList, "yard".toList,
    by decide +kernel⟩

theorem read_turnstile : Program.read turnstileReader .default "turnstile".toList = .ok turnstile := by
  -- A literal is spelled out once, in the goal, and not wherever the evaluation looks at it.
  unfold turnstileReader turnstileFile turnstile
  rewrite [String.toList_append]
  repeat rewrite [String.toList_ofList]
  decide +kernel

theorem linesRead_turnstile :
    linesRead turnstileReader "turnstile".toList = Text.lines turnstileFile := by
  refine linesRead_of_read ?_ ?_ read_turnstile
  · rfl
  · unfold turnstileFile
    repeat rewrite [String.toList_ofList]
    decide +kernel

theorem formGlobals_turnstile :
    turnstileChain.FormGlobals turnstileReader "turnstile".toList turnstile where
  lines := by
    rw [linesRead_turnstile, turnstileFile]
    repeat rewrite [String.toList_ofList]
    decide +kernel
  names := by decide
  marks := by decide
  macros := by
    have hplain : ∀ mutator ∈ turnstile.mutators, Header.isMacro mutator.name = false := by decide
    intro mutator hmutator stage _
    exact Header.notMem_definedNames_of_not_isMacro (hplain mutator hmutator)

/-- The least value of 32 bits chooses the first arm, and only its input is active. -/
theorem uses_iff_chosen_turnstile :
    Program.read turnstileReader .default "turnstile".toList = .ok turnstile ∧
      turnstileChain.FormGlobals turnstileReader "turnstile".toList turnstile ∧
      turnstileChain.Unforged turnstileReader "turnstile".toList turnstile ∧
      ∃ variant, turnstile.variant [-2147483648, 1] = .ok variant ∧
        ∃ kept ∈ turnstile.inputs, kept.name = "cellar".toList ∧
          ∀ input ∈ turnstile.inputs,
            input.name ∈ turnstileChain.inputLines.map InputLine.name →
              (variant.uses input = true ↔ input = kept) := by
  have hunforged : turnstileChain.Unforged turnstileReader "turnstile".toList turnstile := by
    refine ⟨?_, by decide⟩
    rw [linesRead_turnstile, turnstileFile]
    repeat rewrite [String.toList_ofList]
    decide +kernel
  have hvalid : turnstile.validate [-2147483648, 1] = .ok () := by decide
  have hstages : turnstile.stages.toList = [.fragment] := by decide
  have hstage : turnstile.stages.mem .fragment = true := by decide
  have hquiet : ∀ line ∈ turnstile.stageCode.get .fragment, IsQuiet line := by
    have hcode : Directive.ofLine? "void main();".toList = none := by decide
    intro line hline directive hdirective
    rw [List.mem_singleton.mp hline, hcode] at hdirective
    cases hdirective
  have hchosen : (turnstileChain.chosen (turnstile.valueUnder [-2147483648, 1])).name =
      "cellar".toList := by
    decide
  obtain ⟨active, hactive⟩ := GuardedInputs.exists_activeInputs_of_isQuiet
    read_turnstile formGlobals_turnstile hvalid hstage hquiet
  have hall : turnstile.activeIn [-2147483648, 1] .empty turnstile.stages.toList =
      .ok (InputSet.empty.union active) := by
    rw [hstages, activeIn, hactive]
    rfl
  have hmembers : ∀ input ∈ turnstile.inputs, input.inBlock = false := by decide
  obtain ⟨placements, hplaced⟩ := exists_placements_of_no_members hmembers
    (InputSet.empty.union active) (turnstile.instanceCount? [-2147483648, 1])
    (.empty turnstile.settings.packing)
  obtain ⟨variant, hvariant, -⟩ := exists_variant_of_placed rfl hvalid hall hplaced
  refine ⟨read_turnstile, formGlobals_turnstile, hunforged, variant, hvariant, ?_⟩
  rw [← hchosen]
  exact (uses_iff_chosen read_turnstile formGlobals_turnstile).2 hunforged variant hvariant

/-- A file with one line of its own in the stage block. -/
def loftFile (line : Text) : Text :=
  Text.unlines
    ["#pragma anki mutator LEVEL 0 1".toList, "#if LEVEL == 0".toList,
     "#pragma anki input const F32 lamp".toList, "#else".toList,
     "#pragma anki input const F32 trunk".toList, "#endif".toList,
     "#pragma anki start frag".toList, line, "#pragma anki end".toList]

def loftReader (line : Text) : FileReader :=
  .ofFiles [("loft".toList, loftFile line)]

/-- The program of that file: the line becomes code of the block, or an input and its code. -/
def loft (code : List Text) (more : List Input) (members : List Text) : Program where
  fileName := "loft".toList
  settings := .default
  mutators := [⟨"LEVEL".toList, [0, 1], false⟩]
  rewrites := []
  inputs :=
    [⟨"lamp".toList, 0, .f32, false, some 0, none⟩,
     ⟨"trunk".toList, 1, .f32, false, some 1, none⟩] ++ more
  stages := .singleton .fragment
  descriptorSet := 0
  instanceMutator := none
  globals :=
    ["#if LEVEL == 0".toList, "#define _ANKI_INPUT_SITE_lamp".toList,
     "ANKI_SPECIALIZATION_CONSTANT_FLOAT(lamp, 0);".toList, "#else".toList,
     "#define _ANKI_INPUT_SITE_trunk".toList,
     "ANKI_SPECIALIZATION_CONSTANT_FLOAT(trunk, 1);".toList, "#endif".toList]
  stageCode := { PerStage.const [] with fragment := code }
  members := members

/-- The program where the line declares an input with the name of a mark. -/
def namedLoft : Program :=
  loft
    ["#define _ANKI_INPUT_SITE__ANKI_INPUT_SITE_trunk".toList,
     "#define _ANKI_INPUT_SITE_trunk _anki_unis._m__ANKI_INPUT_SITE_trunk".toList]
    [⟨"_ANKI_INPUT_SITE_trunk".toList, 2, .f32, false, none, none⟩]
    ["#if defined(_ANKI_ACTIVATE_INPUT__ANKI_INPUT_SITE_trunk)".toList,
     "\tfloat _m__ANKI_INPUT_SITE_trunk;".toList, "#endif".toList]

theorem exists_placements_namedLoft (active : InputSet) : ∃ block placements,
    placeInputs active none (.empty .std140) namedLoft.inputs = .ok (block, placements) := by
  -- Only the last input is a member, so what is placed depends on whether that one is active.
  cases hactive : active.mem 2 with
  | true =>
    obtain ⟨placement, block, hpush⟩ : ∃ placement block,
        (Block.empty .std140).push .f32 none = some (placement, block) := ⟨_, _, rfl⟩
    refine ⟨block, [none, none, some placement], ?_⟩
    simp [namedLoft, loft, placeInputs, Input.inBlock, Input.isConstant, DataType.isResource,
      DataType.isTexture, DataType.isSampler, hactive, hpush]
  | false =>
    refine ⟨.empty .std140, [none, none, none], ?_⟩
    simp [namedLoft, loft, placeInputs, Input.inBlock, Input.isConstant, hactive]

theorem writtenAs_lamp :
    (Condition.Expr.binary .eq (.symbol "LEVEL".toList) (.literal 0)).WrittenAs
      "LEVEL == 0".toList := by
  have hlevel : Condition.Lexeme.Written (.ident "LEVEL".toList) "LEVEL".toList :=
    .ident (by decide) (by decide)
  have hzero : Condition.IsLiteral "0".toList 0 :=
    .positive (.decimal (by decide) (List.all_eq_true.mp (by decide))) (by decide)
  have hequal := Condition.Derives.binary (show Condition.Operator.eq.rank = 1 + 1 from rfl)
    (.tighter (.tighter (.symbol "LEVEL".toList))) (.tighter (.literal 0))
  refine ⟨_, .tighter (.tighter hequal), ?_⟩
  exact .lexeme hlevel <| .blank rfl <| .lexeme (.operator .eq) <| .blank rfl <|
    .lexeme (.int hzero) .nil

/-- The chain of that file. -/
def loftChain : GuardedInputs where
  first := ⟨_, _, writtenAs_lamp, "#pragma anki input const F32 lamp".toList, "lamp".toList,
    by decide +kernel⟩
  rest := []
  fallback := ⟨"#pragma anki input const F32 trunk".toList, "trunk".toList, by decide +kernel⟩

section

variable {line : Text} {code : List Text} {more : List Input} {members : List Text}

/-- The lines of that file in front of the line of the block. -/
def loftFront : List Text :=
  ["#pragma anki mutator LEVEL 0 1".toList, "#if LEVEL == 0".toList,
   "#pragma anki input const F32 lamp".toList, "#else".toList,
   "#pragma anki input const F32 trunk".toList, "#endif".toList,
   "#pragma anki start frag".toList]

theorem lines_loftFile (hline : Text.IsLine line) :
    Text.lines (loftFile line) = loftFront ++ [line, "#pragma anki end".toList] := by
  have hfront : ∀ other ∈ loftFront, '\n' ∉ other ∧ other.getLast? ≠ some '\r' := by
    unfold loftFront
    repeat rewrite [String.toList_ofList]
    decide +kernel
  have hfile : loftFile line = Text.unlines (loftFront ++ [line, "#pragma anki end".toList]) := rfl
  rw [hfile]
  refine Text.lines_unlines fun other hother => ?_
  rcases List.mem_append.mp hother with hother | hother
  · exact hfront other hother
  · rcases List.mem_pair.mp hother with rfl | rfl
    · exact hline
    · exact ⟨by decide, by decide⟩

/-- The chain is what the file has outside of its block, whatever line the block holds. -/
theorem formGlobals_loft
    (hread : Program.read (loftReader line) .default "loft".toList = .ok (loft code more members))
    (hline : Text.IsLine line) (hinclude : (Line.ofText line).isInclude = false)
    (hblock : (Line.ofText line).blockAfter (some .fragment) = some .fragment) :
    loftChain.FormGlobals (loftReader line) "loft".toList (loft code more members) where
  lines := by
    have hincludes : ∀ other ∈ Text.lines (loftFile line),
        (Line.ofText other).isInclude = false := by
      have hfront : ∀ other ∈ loftFront, (Line.ofText other).isInclude = false := by
        unfold loftFront
        repeat rewrite [String.toList_ofList]
        decide +kernel
      rw [lines_loftFile hline]
      intro other hother
      rcases List.mem_append.mp hother with hother | hother
      · exact hfront other hother
      · rcases List.mem_pair.mp hother with rfl | rfl
        · exact hinclude
        · decide +kernel
    have hopen : blockBehind none loftFront = some .fragment := by decide +kernel
    rw [linesRead_of_read (show loftReader line "loft".toList = .ok (loftFile line) from rfl)
      hincludes hread, lines_loftFile hline, linesIn_append, hopen, linesIn,
      if_neg (Option.some_ne_none _), hblock, linesIn, if_neg (Option.some_ne_none _), linesIn,
      List.append_nil]
    unfold loftFront loftChain
    repeat rewrite [String.toList_ofList]
    decide +kernel
  names := by
    show ∀ guard ∈ loftChain.guards, ∀ name ∈ guard.expr.names, name ∈ ["LEVEL".toList]
    decide
  marks := by
    show ∀ mutator ∈ (loft [] [] []).mutators, ¬ siteMark <+: mutator.name
    decide
  macros := by
    have hplain : ∀ mutator ∈ (loft [] [] []).mutators, Header.isMacro mutator.name = false := by
      decide
    intro mutator hmutator stage _
    exact Header.notMem_definedNames_of_not_isMacro (hplain mutator hmutator)

/-- In front of the stage block the lamp has been found active. -/
theorem exists_front_loft
    (hread : Program.read (loftReader line) .default "loft".toList = .ok (loft code more members))
    (hglobals : loftChain.FormGlobals (loftReader line) "loft".toList (loft code more members)) :
    (loft code more members).validate [0] = .ok () ∧
      ∃ front : Scan, front.chains = [] ∧ front.active.mem 0 = true ∧
        Condition.activeInputs ((loft code more members).analyzedText [0] .fragment)
            (loft code more members).inputs =
          match Scan.run (loft code more members).inputs front
            (1 + (Header.lines (loft code more members) [0] .fragment ++
              (loft code more members).globals).length) code with
          | .error e => .error e
          | .ok scan => scan.finish := by
  have hvalid : (loft code more members).validate [0] = .ok () := by
    show Mutation.validate (loft [] [] []).mutators [0] = .ok ()
    decide
  have hstage : (loft code more members).stages.mem .fragment = true := by
    show (loft [] [] []).stages.mem .fragment = true
    decide
  have hplain : ∀ line ∈ loftChain.inputLines, line.name ≠ siteMark ++ "lamp".toList := by
    decide
  have hchosen : (loftChain.chosen ((loft [] [] []).valueUnder [0])).name = "lamp".toList := by
    decide
  obtain ⟨front, hfront, hopen, hactive⟩ :=
    GuardedInputs.exists_run_front hread hglobals hvalid hstage
  refine ⟨hvalid, front, hopen, ?_, ?_⟩
  · exact (hactive ⟨"lamp".toList, 0, .f32, false, some 0, none⟩ List.mem_cons_self hplain).mpr
      hchosen.symm
  · rw [GuardedInputs.activeInputs_analyzedText hread, Scan.run_append, hfront]
    rfl

/-- Both inputs of the chain are active if the block makes the second one active as well. -/
theorem uses_loft
    (hread : Program.read (loftReader line) .default "loft".toList = .ok (loft code more members))
    (hglobals : loftChain.FormGlobals (loftReader line) "loft".toList (loft code more members))
    (hrun : ∀ (front : Scan) (number : Nat), front.chains = [] → front.active.mem 0 = true →
      ∃ last, Scan.run (loft code more members).inputs front number code = .ok last ∧
        last.chains = [] ∧ last.active.mem 0 = true ∧ last.active.mem 1 = true)
    (hplaced : ∀ active, ∃ block placements,
      placeInputs active none (.empty .std140) (loft code more members).inputs =
        .ok (block, placements)) :
    ∃ variant, (loft code more members).variant [0] = .ok variant ∧
      ∀ input ∈ (loft code more members).inputs.take 2, variant.uses input = true := by
  obtain ⟨hvalid, front, hopen, hlamp, hfound⟩ := exists_front_loft hread hglobals
  obtain ⟨last, hlast, hclosed, hlast0, hlast1⟩ := hrun front _ hopen hlamp
  have hall : (loft code more members).activeIn [0] .empty (loft code more members).stages.toList =
      .ok (InputSet.empty.union last.active) := by
    have hstages : (loft code more members).stages.toList = [.fragment] := by
      show (loft [] [] []).stages.toList = [.fragment]
      decide
    rw [hlast] at hfound
    dsimp only [Scan.finish] at hfound
    rw [hclosed] at hfound
    rw [hstages, activeIn, hfound]
    rfl
  obtain ⟨block, placements, hplaced⟩ := hplaced (InputSet.empty.union last.active)
  obtain ⟨variant, hvariant, hactive⟩ := exists_variant_of_placed rfl hvalid hall hplaced
  refine ⟨variant, hvariant, ?_⟩
  show ∀ input ∈ [_, _], variant.uses input = true
  simp [Variant.uses, hactive, InputSet.mem_union, hlast0, hlast1]

end

/-- The chain alone settles neither that all conditionals can be followed nor which of its inputs
are active.  A stage block may close a chain that it has not opened; and both inputs of the chain are
active if the block defines the mark of one of them, as code or by the name of an input. -/
theorem guards_forged :
    (∃ program, Program.read (loftReader "#endif".toList) .default "loft".toList = .ok program ∧
      loftChain.FormGlobals (loftReader "#endif".toList) "loft".toList program ∧
      ∃ obstacle, program.variant [0] = .error (.unsupportedConditional .fragment obstacle)) ∧
    ∀ line ∈ ["#define _ANKI_INPUT_SITE_trunk".toList,
        "#pragma anki input F32 _ANKI_INPUT_SITE_trunk".toList],
      ∃ program, Program.read (loftReader line) .default "loft".toList = .ok program ∧
        loftChain.FormGlobals (loftReader line) "loft".toList program ∧
        ∃ variant, program.variant [0] = .ok variant ∧
          ∀ input ∈ program.inputs.take 2, variant.uses input = true := by
  constructor
  · have hread : Program.read (loftReader "#endif".toList) .default "loft".toList =
        .ok (loft ["#endif".toList] [] []) := by
      unfold loftReader loftFile loft
      repeat rewrite [String.toList_ofList]
      decide +kernel
    have hglobals : loftChain.FormGlobals (loftReader "#endif".toList) "loft".toList
        (loft ["#endif".toList] [] []) :=
      formGlobals_loft hread ⟨by decide, by decide⟩ (by decide +kernel) (by decide +kernel)
    obtain ⟨hvalid, front, hopen, -, hfound⟩ := exists_front_loft hread hglobals
    have hstages : (loft ["#endif".toList] [] []).stages.toList = [.fragment] := by decide
    rw [Scan.run, Scan.step, Condition.ofLine?_endif] at hfound
    dsimp only at hfound
    rw [hopen] at hfound
    refine ⟨_, hread, hglobals, ?_⟩
    rw [variant, hvalid, hstages, activeIn, hfound]
    exact ⟨_, rfl⟩
  · intro line hline
    have htrunk : (loft [] [] []).inputs.find? (fun other => other.name == "trunk".toList) =
        some ⟨"trunk".toList, 1, .f32, false, some 1, none⟩ := by
      decide
    rcases List.mem_cons.mp hline with rfl | hline
    · have hread : Program.read (loftReader "#define _ANKI_INPUT_SITE_trunk".toList) .default
          "loft".toList = .ok (loft ["#define _ANKI_INPUT_SITE_trunk".toList] [] []) := by
        unfold loftReader loftFile loft
        repeat rewrite [String.toList_ofList]
        decide +kernel
      have hglobals : loftChain.FormGlobals (loftReader "#define _ANKI_INPUT_SITE_trunk".toList)
          "loft".toList (loft ["#define _ANKI_INPUT_SITE_trunk".toList] [] []) :=
        formGlobals_loft hread ⟨by decide, by decide⟩ (by decide +kernel) (by decide +kernel)
      have hmark : Directive.ofLine? "#define _ANKI_INPUT_SITE_trunk".toList =
          some (.define (siteMark ++ "trunk".toList) none) := by
        decide
      refine ⟨_, hread, hglobals, uses_loft hread hglobals ?_ fun active => ?_⟩
      · intro front number hopen hlamp
        refine ⟨_, (Scan.run_mark hopen hmark htrunk).trans rfl, hopen, ?_, ?_⟩
        · simp [hlamp]
        · simp [inputCapacity]
      · exact ⟨_, exists_placements_of_no_members (by decide) active none _⟩
    · obtain rfl := List.mem_singleton.mp hline
      have hread : Program.read
          (loftReader "#pragma anki input F32 _ANKI_INPUT_SITE_trunk".toList) .default
          "loft".toList = .ok namedLoft := by
        unfold loftReader loftFile namedLoft loft
        repeat rewrite [String.toList_ofList]
        decide +kernel
      have hglobals : loftChain.FormGlobals
          (loftReader "#pragma anki input F32 _ANKI_INPUT_SITE_trunk".toList) "loft".toList
          namedLoft :=
        formGlobals_loft hread ⟨by decide, by decide⟩ (by decide +kernel) (by decide +kernel)
      have hname : Directive.ofLine? "#define _ANKI_INPUT_SITE__ANKI_INPUT_SITE_trunk".toList =
          some (.define (siteMark ++ "_ANKI_INPUT_SITE_trunk".toList) none) := by
        decide
      have hmark : Directive.ofLine?
          "#define _ANKI_INPUT_SITE_trunk _anki_unis._m__ANKI_INPUT_SITE_trunk".toList =
            some (.define (siteMark ++ "trunk".toList) none) := by
        decide
      have hnamed : namedLoft.inputs.find?
          (fun other => other.name == "_ANKI_INPUT_SITE_trunk".toList) =
            some ⟨"_ANKI_INPUT_SITE_trunk".toList, 2, .f32, false, none, none⟩ := by
        decide
      have htrunk : namedLoft.inputs.find? (fun other => other.name == "trunk".toList) =
          some ⟨"trunk".toList, 1, .f32, false, some 1, none⟩ := by
        decide
      refine ⟨_, hread, hglobals, uses_loft hread hglobals ?_ fun active => ?_⟩
      · intro front number hopen hlamp
        refine ⟨_, (Scan.run_mark hopen hname hnamed).trans
          ((Scan.run_mark (by exact hopen) hmark htrunk).trans rfl), hopen, ?_, ?_⟩
        · simp [hlamp]
        · simp [inputCapacity]
      · exact exists_placements_namedLoft active

end Program

end ShaderVariants
