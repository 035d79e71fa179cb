import ShaderVariants.Proofs.Variant.BehindHeader
import ShaderVariants.Proofs.Variant.Marks

/-!
# Guards around inputs

The lines of a file are moved into the source of a stage, those outside of all stage blocks in
front of those in the block of the stage.  A guard keeps its hold on an input line that is moved
along with it: if a preprocessor that reads the lines in this order drops every line that declares
the input, then the input is not active (`Program.uses_eq_false_of_drops`).  In the order of the
file the same does not hold (`Program.guard_left_behind`).
-/

namespace ShaderVariants

open Condition (Directive LineSpares Nest Preprocessor Scan Unmarked askedNames siteMark)

/-! ## 1. Walks over the lines of a file -/

/-- Whether a line is a definition. -/
def Condition.defines (line : Text) : Bool :=
  match Directive.ofLine? line with
  | some (.define _ _) => true
  | _ => false

namespace Condition.Nest

/-- Reads a line of a program's file.  An input line stands for the macro that its declaration
defines. -/
def read (p : Preprocessor) (inputs : List Input) (nest : Nest) (line : Text) : Nest :=
  if Line.ofText line = .code then nest.step p line
  else
    match (Line.ofText line).declared? inputs with
    | some input => if input.inBlock then nest.define input.name none else nest
    | none => nest

/-- Whether every line that declares the name is dropped. -/
def drops (p : Preprocessor) (inputs : List Input) (name : Text) (nest : Nest) : List Text → Bool
  | [] => true
  | line :: rest =>
    ((Line.ofText line).declaredName? != some name || !nest.keeps) &&
      (nest.read p inputs line).drops p inputs name rest

namespace Alike

variable {hidden : Text → Prop} {nest other : Nest} {inputs : List Input}

theorem read (h : nest.Alike hidden other) {line : Text} (hline : LineSpares hidden line) :
    (nest.read .eager inputs line).Alike hidden (other.read .eager inputs line) := by
  unfold Nest.read
  split
  · exact h.step hline
  · split
    · split
      · exact h.define _ _
      · exact h
    · exact h

/-- Where no line asks for a hidden symbol, the same lines are dropped. -/
theorem drops_eq (h : nest.Alike hidden other) {name : Text} {lines : List Text}
    (hlines : ∀ line ∈ lines, LineSpares hidden line) :
    nest.drops .eager inputs name lines = other.drops .eager inputs name lines := by
  induction lines generalizing nest other with
  | nil => rfl
  | cons line rest ih =>
    obtain ⟨hline, hrest⟩ := List.forall_mem_cons.mp hlines
    have hkeeps : nest.keeps = other.keeps := by rw [Nest.keeps, Nest.keeps, h.levels]
    rw [Nest.drops, Nest.drops, hkeeps, ih (h.read hline) hrest]

end Alike

end Condition.Nest

/-! ## 2. Lines that stand for others -/

namespace Condition.Scan

variable {p : Preprocessor} {inputs : List Input} {scan last : Scan} {nest : Nest} {number : Nat}

/-- The lines that stand for an input line make the input active where the preprocessor keeps the
input line, and define what it defines. -/
theorem Mirrors.runCodeLines (h : scan.Mirrors p nest) {input : Input}
    (hname : Text.isIdentifier input.name = true) (hmark : Text.strip? siteMark input.name = none)
    (hfind : (inputs.find? fun other => other.name == input.name) = some input)
    (hrun : Scan.run inputs scan number input.codeLines = .ok last) :
    last.Mirrors p (if input.inBlock then nest.define input.name none else nest) ∧
      last.active = if nest.keeps then scan.active.insert input.index else scan.active := by
  rw [Input.codeLines, Scan.run, Scan.step, Draft.ofLine?_siteLine hname] at hrun
  simp only [Scan.define, Text.strip?_append, hfind] at hrun
  split at hrun
  · cases hrun
  next next hnext =>
  obtain ⟨hmirror, hactive⟩ := h.reach hnext
  have hdeclaration : ∀ line ∈ [Draft.declarationLine input], Unmarked line := by
    rw [List.forall_mem_singleton]
    cases hblock : input.inBlock with
    | true =>
      exact Header.unmarked_of_define (Draft.ofLine?_declarationLine_of_inBlock hname hblock) hmark
    | false =>
      intro name value hline
      rw [Draft.ofLine?_declarationLine_eq_none hblock] at hline
      cases hline
  obtain ⟨hlast, hkept⟩ := hmirror.run hdeclaration hrun
  refine ⟨?_, hkept.trans hactive⟩
  rw [Nest.after, List.foldl_cons, List.foldl_nil, Nest.step] at hlast
  cases hblock : input.inBlock with
  | true =>
    rw [Draft.ofLine?_declarationLine_of_inBlock hname hblock] at hlast
    exact hlast
  | false =>
    rw [Draft.ofLine?_declarationLine_eq_none hblock] at hlast
    exact hlast

theorem eq_of_declared? {kind : Line} {other : Input} (h : kind.declared? inputs = some other) :
    kind.declaredName? = some other.name ∧ other ∈ inputs ∧
      (inputs.find? fun input => input.name == other.name) = some other := by
  obtain ⟨name, hname, hfind⟩ := Option.bind_eq_some_iff.mp h
  obtain rfl : other.name = name := by simpa using List.find?_some hfind
  exact ⟨hname, List.mem_of_find?_eq_some hfind, hfind⟩

/-- An input all of whose lines are dropped does not become active. -/
theorem Mirrors.runEmitted {lines : List Text} (h : scan.Mirrors p nest)
    (hnames : ∀ input ∈ inputs, Text.isIdentifier input.name = true)
    (hmarks : ∀ input ∈ inputs, Text.strip? siteMark input.name = none)
    (hindices : (inputs.map Input.index).Nodup)
    (hlines : ∀ line ∈ lines, defines line = false)
    {input : Input} (hinput : input ∈ inputs)
    (hdrops : nest.drops p inputs input.name lines = true)
    (hrun : Scan.run inputs scan number (lines.flatMap (emitted inputs)) = .ok last) :
    last.active.mem input.index = scan.active.mem input.index := by
  -- The induction is on the lines of the file; `Mirrors` is what each of them keeps.
  induction lines generalizing scan nest number with
  | nil =>
    obtain rfl := Except.ok.inj hrun
    rfl
  | cons line rest ih =>
    obtain ⟨hline, hrest⟩ := List.forall_mem_cons.mp hlines
    rw [Nest.drops, Bool.and_eq_true] at hdrops
    obtain ⟨hdropped, hdrops⟩ := hdrops
    rw [List.flatMap_cons, Scan.run_append] at hrun
    split at hrun
    · cases hrun
    next next hnext =>
    have hstep : next.Mirrors p (nest.read p inputs line) ∧
        next.active.mem input.index = scan.active.mem input.index := by
      by_cases hcode : Line.ofText line = .code
      · rw [emitted_of_code hcode, Scan.run] at hnext
        rw [Nest.read, if_pos hcode]
        split at hnext
        · cases hnext
        next after hafter =>
        obtain rfl := Except.ok.inj hnext
        have hunmarked : Unmarked line := by
          intro name value hdefine
          rw [defines, hdefine] at hline
          cases hline
        obtain ⟨hmirror, hactive⟩ := h.step hunmarked hafter
        exact ⟨hmirror, by rw [hactive]⟩
      · rw [emitted_of_ne_code hcode] at hnext
        rw [Nest.read, if_neg hcode]
        cases hdeclared : (Line.ofText line).declared? inputs with
        | none =>
          rw [hdeclared] at hnext
          obtain rfl := Except.ok.inj hnext
          exact ⟨h, rfl⟩
        | some other =>
          rw [hdeclared] at hnext
          obtain ⟨hname, hother, hfind⟩ := eq_of_declared? hdeclared
          obtain ⟨hmirror, hactive⟩ :=
            h.runCodeLines (hnames other hother) (hmarks other hother) hfind hnext
          refine ⟨hmirror, ?_⟩
          rw [hactive]
          cases hkeeps : nest.keeps with
          | false => rfl
          | true =>
            -- The line is kept, so it does not declare `input`, and another index is added.
            have hne : other.index ≠ input.index := by
              intro hindex
              obtain rfl := List.inj_on_of_nodup_map hindices hother hinput hindex
              simp [hname, hkeeps] at hdropped
            simp [hne]
    rw [ih hstep.1 hrest hdrops hrun, hstep.2]

end Condition.Scan

/-! ## 3. Programs -/

namespace Program

variable {program : Program} {mutation : Mutation}

/-- Whether a preprocessor that has read the header of a stage drops every one of the given lines
that declares the input.  Of the inputs of the program it knows the given ones. -/
def drops (program : Program) (p : Preprocessor) (mutation : Mutation) (stage : Stage)
    (inputs : List Input) (input : Input) (lines : List Text) : Bool :=
  (Nest.start.after p (Header.lines program mutation stage)).drops p inputs input.name lines

theorem drops_eq_of_spares {stage : Stage} {inputs : List Input} {input : Input}
    {lines : List Text} (h : ∀ line ∈ lines, LineSpares (Header.Defines program stage) line) :
    program.drops .eager mutation stage inputs input lines =
      (Nest.start.after .eager (Header.mutatorLines program.mutators mutation)).drops .eager inputs
        input.name lines :=
  ((Header.alike_after_lines program mutation stage).drops_eq h).symm

/-- An index that is found in no stage is not among those found in all of them. -/
theorem mem_of_activeIn {known active : InputSet} {stages : List Stage} {index : Nat}
    (hstages : ∀ stage ∈ stages, ∀ mask,
      Condition.activeInputs (program.analyzedText mutation stage) program.inputs = .ok mask →
        mask.mem index = false)
    (h : program.activeIn mutation known stages = .ok active) :
    active.mem index = known.mem index := by
  rw [mem_activeIn hstages h, Bool.false_and, Bool.or_false]

theorem onOneLine_of_mem_codeLines {input : Input} (hname : Text.isIdentifier input.name = true)
    {line : Text} (h : line ∈ input.codeLines) : Text.OnOneLine line := by
  simp only [Input.codeLines, List.mem_cons, List.not_mem_nil, or_false] at h
  rcases h with rfl | rfl
  · exact Draft.onOneLine_siteLine hname
  · exact Draft.onOneLine_declarationLine hname

/-- A line that is emitted holds no line feed if the line that it stands for holds none. -/
theorem lineFeed_notMem_of_mem_emitted {inputs : List Input} {line part : Text}
    (hnames : ∀ input ∈ inputs, Text.isIdentifier input.name = true) (hline : '\n' ∉ line)
    (h : part ∈ emitted inputs line) : '\n' ∉ part := by
  by_cases hcode : Line.ofText line = .code
  · rw [emitted_of_code hcode] at h
    exact List.mem_singleton.mp h ▸ hline
  · rw [emitted_of_ne_code hcode] at h
    cases hdeclared : (Line.ofText line).declared? inputs with
    | none =>
      rw [hdeclared] at h
      cases h
    | some input =>
      rw [hdeclared] at h
      obtain ⟨-, hinput, -⟩ := Scan.eq_of_declared? hdeclared
      exact fun hfeed => (onOneLine_of_mem_codeLines (hnames input hinput) h _ hfeed).1 rfl

/-- The code of a program holds no line feed within a line. -/
theorem lineFeed_notMem_of_mem_codeIn {reader : FileReader} {settings : Settings} {fileName : Text}
    (hread : Program.read reader settings fileName = .ok program) {place : Option Stage}
    {line : Text} (h : line ∈ program.codeIn place) : '\n' ∉ line := by
  rw [codeIn_of_linesRead hread] at h
  obtain ⟨source, hsource, hline⟩ := List.mem_flatMap.mp h
  exact lineFeed_notMem_of_mem_emitted
    (fun input hinput => ((wellFormed_of_read hread).inputs.each input hinput).identifier)
    (lineFeed_notMem_of_mem_linesRead (mem_of_mem_linesIn hsource)) hline

theorem strip?_eq_none_of_not_prefix {lead t : Text} (h : ¬ lead <+: t) :
    Text.strip? lead t = none := by
  cases hstrip : Text.strip? lead t with
  | none => rfl
  | some rest => exact absurd ⟨rest, (Text.strip?_eq_some_iff.mp hstrip).symm⟩ h

/-- An input is not active if, in the lines that the source of each stage is made of, every line
that declares it is dropped, whatever else the preprocessor makes of them. -/
theorem uses_eq_false_of_drops {reader : FileReader} {settings : Settings} {fileName text : Text}
    {variant : Variant} {input : Input} (p : Stage → Preprocessor)
    (hfile : reader fileName = .ok text)
    (hincludes : ∀ line ∈ Text.lines text, (Line.ofText line).isInclude = false)
    (hdefines : ∀ line ∈ Text.lines text, Condition.defines line = false)
    (hread : Program.read reader settings fileName = .ok program)
    (hmutators : ∀ mutator ∈ program.mutators, ¬ siteMark <+: mutator.name)
    (hinputs : ∀ other ∈ program.inputs, ¬ siteMark <+: other.name)
    (hvariant : program.variant mutation = .ok variant) (hinput : input ∈ program.inputs)
    (hdrops : ∀ stage, program.stages.mem stage = true →
      program.drops (p stage) mutation stage program.inputs input
        (linesOfStage stage (Text.lines text)) = true) :
    variant.uses input = false := by
  have hprogram := wellFormed_of_read hread
  obtain ⟨block, generated⟩ := generated_of_variant hvariant
  have hnames := fun other hother => (hprogram.inputs.each other hother).identifier
  have hmarks := fun other hother => strip?_eq_none_of_not_prefix (hinputs other hother)
  have hindices : (program.inputs.map Input.index).Nodup := by
    rw [hprogram.inputs.indices]
    exact List.nodup_range
  rw [Variant.uses, mem_of_activeIn (fun stage hstage mask hmask => ?_) generated.active,
    InputSet.mem_empty]
  have hheader : ∀ line ∈ Header.lines program mutation stage, Unmarked line :=
    fun line hline => Header.unmarked_of_mem_lines (fun mutator hmutator =>
      ⟨hprogram.mutators.identifiers mutator hmutator,
        strip?_eq_none_of_not_prefix (hmutators mutator hmutator)⟩) hline
  have hfeeds : ∀ line ∈ Header.lines program mutation stage ++
      (linesOfStage stage (Text.lines text)).flatMap (emitted program.inputs), '\n' ∉ line := by
    refine List.forall_mem_append.mpr ⟨fun line hline => ?_, fun part hpart => ?_⟩
    · exact (Header.onOneLine_of_mem_lines hprogram.mutators.identifiers hline).isLine.1
    · obtain ⟨line, hline, hpart⟩ := List.mem_flatMap.mp hpart
      exact lineFeed_notMem_of_mem_emitted hnames
        (Text.lineFeed_notMem_of_mem_lines (mem_of_mem_linesOfStage hline)) hpart
  rw [analyzedText, List.append_assoc, code_of_read hfile hincludes hread] at hmask
  obtain ⟨last, hrun, rfl⟩ := Scan.exists_run_of_activeInputs hfeeds hmask
  rw [Scan.run_append] at hrun
  split at hrun
  · cases hrun
  next scan hscan =>
  obtain ⟨hmirror, hempty⟩ := (Scan.mirrors_start (p := p stage)).run hheader hscan
  rw [hmirror.runEmitted hnames hmarks hindices
    (fun line hline => hdefines line (mem_of_mem_linesOfStage hline)) hinput
    (hdrops stage (StageSet.mem_toList.mp hstage)) hrun, hempty]
  exact InputSet.mem_empty _

/-- A file with an input that is always kept, and one whose guard never holds. -/
def porchFile : Text :=
  Text.unlines
    ["#pragma anki mutator LOD 0 1".toList, "#pragma anki input F32 base".toList,
     "#pragma anki start frag".toList, "#ifndef LOD".toList,
     "#pragma anki input F32 tint".toList, "#endif".toList, "#pragma anki end".toList]

/-- The program of that file. -/
def porch : Program where
  fileName := "porch".toList
  settings := .default
  mutators := [⟨"LOD".toList, [0, 1], false⟩]
  rewrites := []
  inputs :=
    [⟨"base".toList, 0, .f32, false, none, none⟩, ⟨"tint".toList, 1, .f32, false, none, none⟩]
  stages := .singleton .fragment
  descriptorSet := 0
  instanceMutator := none
  globals :=
    ["#define _ANKI_INPUT_SITE_base".toList, "#define base _anki_unis._m_base".toList]
  stageCode :=
    { PerStage.const [] with
      fragment :=
        ["#ifndef LOD".toList, "#define _ANKI_INPUT_SITE_tint".toList,
         "#define tint _anki_unis._m_tint".toList, "#endif".toList] }
  members :=
    ["#if defined(_ANKI_ACTIVATE_INPUT_base)".toList, "\tfloat _m_base;".toList,
     "#endif".toList, "#if defined(_ANKI_ACTIVATE_INPUT_tint)".toList,
     "\tfloat _m_tint;".toList, "#endif".toList]

def porchReader : FileReader :=
  .ofFiles [("porch".toList, porchFile)]

/-- The input whose guard never holds. -/
def porchTint : Input :=
  ⟨"tint".toList, 1, .f32, false, none, none⟩

theorem uses_eq_false_of_drops_porch :
    porchReader "porch".toList = .ok porchFile ∧
      (∀ line ∈ Text.lines porchFile, (Line.ofText line).isInclude = false) ∧
      (∀ line ∈ Text.lines porchFile, Condition.defines line = false) ∧
      Program.read porchReader .default "porch".toList = .ok porch ∧
      (∀ mutator ∈ porch.mutators, ¬ siteMark <+: mutator.name) ∧
      (∀ other ∈ porch.inputs, ¬ siteMark <+: other.name) ∧
      porchTint ∈ porch.inputs ∧
      (∀ stage, porch.stages.mem stage = true →
        porch.drops .eager [1] stage porch.inputs porchTint
          (linesOfStage stage (Text.lines porchFile)) = true) ∧
      ∃ variant, porch.variant [1] = .ok variant ∧ variant.uses porchTint = false := by
  have hfile : porchReader "porch".toList = .ok porchFile := by decide +kernel
  -- A literal is spelled out once, in the goal, and not wherever the evaluation looks at it.
  have hlines : ∀ line ∈ Text.lines porchFile,
      (Line.ofText line).isInclude = false ∧ Condition.defines line = false ∧
        ∀ name ∈ askedNames line, Header.isMacro name = false := by
    unfold porchFile
    repeat rewrite [String.toList_ofList]
    decide +kernel
  have hincludes := fun line hline => (hlines line hline).1
  have hdefines := fun line hline => (hlines line hline).2.1
  have hread : Program.read porchReader .default "porch".toList = .ok porch := by
    unfold porchReader porchFile porch
    repeat rewrite [String.toList_ofList]
    decide +kernel
  have hmutators : ∀ mutator ∈ porch.mutators, ¬ siteMark <+: mutator.name := by decide +kernel
  have hinputs : ∀ other ∈ porch.inputs, ¬ siteMark <+: other.name := by decide +kernel
  have htint : porchTint ∈ porch.inputs := by decide +kernel
  have hbare : (Nest.start.after .eager (Header.mutatorLines porch.mutators [1])).drops .eager
      porch.inputs porchTint.name (linesOfStage .fragment (Text.lines porchFile)) = true := by
    unfold porch porchTint porchFile
    repeat rewrite [String.toList_ofList]
    decide +kernel
  have hstages : ∀ stage, porch.stages.mem stage = true → .fragment = stage := by
    intro stage
    cases stage <;> decide +kernel
  have hdrops : ∀ stage, porch.stages.mem stage = true →
      porch.drops .eager [1] stage porch.inputs porchTint
        (linesOfStage stage (Text.lines porchFile)) = true := by
    intro stage hstage
    obtain rfl : .fragment = stage := hstages stage hstage
    rw [drops_eq_of_spares fun line hline => Header.lineSpares_of_not_isMacro
      (hlines line (mem_of_mem_linesOfStage hline)).2.2]
    exact hbare
  have hasks : porch.AsksNoMacro := by
    refine asksNoMacro_of_not_isMacro ?_
    unfold porch
    repeat rewrite [String.toList_ofList]
    decide +kernel
  have hmasks : porch.stages.toList.map (porch.bareInputs [1]) = [(⟨1⟩ : InputSet)].map .ok := by
    unfold porch
    repeat rewrite [String.toList_ofList]
    decide +kernel
  obtain ⟨block, placements, hplaced⟩ : ∃ block placements,
      placeInputs ([(⟨1⟩ : InputSet)].foldl InputSet.union .empty) (porch.instanceCount? [1])
        (.empty porch.settings.packing) porch.inputs = .ok (block, placements) :=
    ⟨_, _, rfl⟩
  obtain ⟨variant, hvariant, -⟩ := exists_variant_of_bare (wellFormed_of_read hread) rfl
    (by decide) hasks hmasks hplaced
  exact ⟨hfile, hincludes, hdefines, hread, hmutators, hinputs, htint, hdrops, variant, hvariant,
    uses_eq_false_of_drops (fun _ => .eager) hfile hincludes hdefines hread hmutators hinputs
      hvariant htint hdrops⟩

/-- A file whose guards do not hold in the order of the file.  The macro of another input is known to
the first one; inside of the second one a mutator marks the site of an input, and a stage block is
cut off. -/
def mislaidFile : Text :=
  Text.unlines
    ["#pragma anki mutator _ANKI_INPUT_SITE_mark 0 1".toList, "#pragma anki input F32 base".toList,
     "#ifdef base".toList, "#pragma anki input F32 glow".toList, "#endif".toList,
     "#ifdef ANKI_VERTEX_SHADER".toList, "#pragma anki input F32 mark".toList,
     "#pragma anki start frag".toList, "#pragma anki input F32 tint".toList,
     "#pragma anki end".toList, "#endif".toList]

/-- The program of that file. -/
def mislaid : Program where
  fileName := "mislaid".toList
  settings := .default
  mutators := [⟨"_ANKI_INPUT_SITE_mark".toList, [0, 1], false⟩]
  rewrites := []
  inputs :=
    [⟨"base".toList, 0, .f32, false, none, none⟩, ⟨"glow".toList, 1, .f32, false, none, none⟩,
     ⟨"mark".toList, 2, .f32, false, none, none⟩, ⟨"tint".toList, 3, .f32, false, none, none⟩]
  stages := .singleton .fragment
  descriptorSet := 0
  instanceMutator := none
  globals :=
    ["#define _ANKI_INPUT_SITE_base".toList, "#define base _anki_unis._m_base".toList,
     "#ifdef base".toList, "#define _ANKI_INPUT_SITE_glow".toList,
     "#define glow _anki_unis._m_glow".toList, "#endif".toList,
     "#ifdef ANKI_VERTEX_SHADER".toList, "#define _ANKI_INPUT_SITE_mark".toList,
     "#define mark _anki_unis._m_mark".toList, "#endif".toList]
  stageCode :=
    { PerStage.const [] with
      fragment :=
        ["#define _ANKI_INPUT_SITE_tint".toList, "#define tint _anki_unis._m_tint".toList] }
  members :=
    ["#if defined(_ANKI_ACTIVATE_INPUT_base)".toList, "\tfloat _m_base;".toList,
     "#endif".toList, "#if defined(_ANKI_ACTIVATE_INPUT_glow)".toList,
     "\tfloat _m_glow;".toList, "#endif".toList,
     "#if defined(_ANKI_ACTIVATE_INPUT_mark)".toList, "\tfloat _m_mark;".toList,
     "#endif".toList, "#if defined(_ANKI_ACTIVATE_INPUT_tint)".toList,
     "\tfloat _m_tint;".toList, "#endif".toList]

def mislaidReader : FileReader :=
  .ofFiles [("mislaid".toList, mislaidFile)]

/-- In the order of the file the guards drop all inputs but the first one, and all are active. -/
theorem guard_left_behind :
    mislaidReader "mislaid".toList = .ok mislaidFile ∧
      (∀ line ∈ Text.lines mislaidFile, (Line.ofText line).isInclude = false) ∧
      (∀ line ∈ Text.lines mislaidFile, Condition.defines line = false) ∧
      Program.read mislaidReader .default "mislaid".toList = .ok mislaid ∧
      ∃ variant, mislaid.variant [0] = .ok variant ∧
        ∀ input ∈ mislaid.inputs.tail,
          (∀ stage, mislaid.stages.mem stage = true →
            mislaid.drops .eager [0] stage [] input (Text.lines mislaidFile) = true) ∧
          variant.uses input = true := by
  have hfile : mislaidReader "mislaid".toList = .ok mislaidFile := by decide +kernel
  have hlines : ∀ line ∈ Text.lines mislaidFile,
      (Line.ofText line).isInclude = false ∧ Condition.defines line = false := by
    unfold mislaidFile
    repeat rewrite [String.toList_ofList]
    decide +kernel
  have hread : Program.read mislaidReader .default "mislaid".toList = .ok mislaid := by
    unfold mislaidReader mislaidFile mislaid
    repeat rewrite [String.toList_ofList]
    decide +kernel
  have hstages : ∀ stage, mislaid.stages.mem stage = true → .fragment = stage := by
    intro stage
    cases stage <;> decide +kernel
  -- One test asks for the macro of a stage, but not of the one that is looked at.
  have hasked : ∀ line ∈ Text.lines mislaidFile ++ mislaid.codeLines .fragment,
      ∀ name ∈ askedNames line, Header.isMacro name = false ∨ name = Stage.vertex.define := by
    unfold mislaidFile mislaid
    repeat rewrite [String.toList_ofList]
    decide +kernel
  have hspares : ∀ line ∈ Text.lines mislaidFile ++ mislaid.codeLines .fragment,
      LineSpares (Header.Defines mislaid .fragment) line := by
    refine fun line hline => Condition.lineSpares_of_askedNames fun name hname => ?_
    rcases hasked line hline name hname with hmacro | rfl
    · exact Header.notMem_definedNames_of_not_isMacro hmacro
    · exact Header.not_defines_define (by decide)
  obtain ⟨hfileSpares, hcodeSpares⟩ := List.forall_mem_append.mp hspares
  have hbare : ∀ input ∈ mislaid.inputs.tail,
      (Nest.start.after .eager (Header.mutatorLines mislaid.mutators [0])).drops .eager []
        input.name (Text.lines mislaidFile) = true := by
    unfold mislaidFile mislaid
    repeat rewrite [String.toList_ofList]
    decide +kernel
  have hasks : mislaid.AsksNoMacro := by
    intro stage hstage
    obtain rfl : .fragment = stage := hstages stage (StageSet.mem_toList.mp hstage)
    exact hcodeSpares
  have hmasks : mislaid.stages.toList.map (mislaid.bareInputs [0]) =
      [(⟨15⟩ : InputSet)].map .ok := by
    unfold mislaid
    repeat rewrite [String.toList_ofList]
    decide +kernel
  obtain ⟨block, placements, hplaced⟩ : ∃ block placements,
      placeInputs ([(⟨15⟩ : InputSet)].foldl InputSet.union .empty) (mislaid.instanceCount? [0])
        (.empty mislaid.settings.packing) mislaid.inputs = .ok (block, placements) :=
    ⟨_, _, rfl⟩
  obtain ⟨variant, hvariant, hactive⟩ := exists_variant_of_bare (wellFormed_of_read hread) rfl
    (by decide) hasks hmasks hplaced
  have huses : ∀ input ∈ mislaid.inputs.tail,
      ([(⟨15⟩ : InputSet)].foldl InputSet.union .empty).mem input.index = true := by
    decide +kernel
  refine ⟨hfile, fun line hline => (hlines line hline).1, fun line hline => (hlines line hline).2,
    hread, variant, hvariant, fun input hinput => ⟨fun stage hstage => ?_, ?_⟩⟩
  · obtain rfl : .fragment = stage := hstages stage hstage
    rw [drops_eq_of_spares hfileSpares]
    exact hbare input hinput
  · rw [Variant.uses, hactive]
    exact huses input hinput

end Program

end ShaderVariants
