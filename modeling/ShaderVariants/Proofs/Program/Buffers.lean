import ShaderVariants.Proofs.Program.Numbering
import ShaderVariants.Proofs.Program.Trace
import ShaderVariants.Proofs.Program.WellFormed

/-!
# Where the lines of a program go

The code of a program is cut from the lines that are read by the stage block that each line stands
in, in the order of the lines; an input line stands for two lines of code
(`Program.codeIn_of_linesRead`).  If no other file is included, these are the lines of one file
(`Program.codeIn_of_read`).
-/

namespace ShaderVariants

/-! ## 1. Lines of a file -/

namespace Line

/-- The name that an input line declares. -/
def declaredName? : Line → Option Text
  | .anki (word :: tokens) => if word = "input".toList then tokens.getLast? else none
  | _ => none

/-- The input that an input line declares, among those that a program has. -/
def declared? (inputs : List Input) (line : Line) : Option Input :=
  line.declaredName?.bind fun name => inputs.find? fun input => input.name == name

/-- The stage whose block is open after a line, with `block` open before it. -/
def blockAfter (block : Option Stage) : Line → Option Stage
  | .anki (word :: tokens) =>
    if word = "start".toList then tokens.head?.bind Stage.ofName?
    else if word = "end".toList then none
    else block
  | _ => block

end Line

/-- The lines that stand in `place`, which is a stage block or, if `none`, outside of all blocks;
`block` is open before the first line. -/
def linesIn (place block : Option Stage) : List Text → List Text
  | [] => []
  | line :: rest =>
    if block = place then line :: linesIn place ((Line.ofText line).blockAfter block) rest
    else linesIn place ((Line.ofText line).blockAfter block) rest

/-- The names that the input lines among some lines declare. -/
def declaredNames (lines : List Text) : List Text :=
  lines.filterMap fun line => (Line.ofText line).declaredName?

/-- The stage whose block is open behind some lines. -/
def blockBehind (block : Option Stage) (lines : List Text) : Option Stage :=
  lines.foldl (fun block line => (Line.ofText line).blockAfter block) block

theorem blockBehind_append (block : Option Stage) (lines more : List Text) :
    blockBehind block (lines ++ more) = blockBehind (blockBehind block lines) more :=
  List.foldl_append

theorem linesIn_append (place block : Option Stage) (lines more : List Text) :
    linesIn place block (lines ++ more) =
      linesIn place block lines ++ linesIn place (blockBehind block lines) more := by
  induction lines generalizing block with
  | nil => rfl
  | cons line rest ih =>
    rw [List.cons_append, linesIn, linesIn, ih, blockBehind, blockBehind, List.foldl_cons]
    by_cases hplace : block = place
    · rw [if_pos hplace, if_pos hplace, List.cons_append]
    · rw [if_neg hplace, if_neg hplace]

theorem mem_of_mem_linesIn {place block : Option Stage} {lines : List Text} {line : Text}
    (h : line ∈ linesIn place block lines) : line ∈ lines := by
  induction lines generalizing block with
  | nil => cases h
  | cons first rest ih =>
    rw [linesIn] at h
    split at h
    · rcases List.mem_cons.mp h with rfl | h
      · exact List.mem_cons_self
      · exact List.mem_cons_of_mem first (ih h)
    · exact List.mem_cons_of_mem first (ih h)

/-- The lines of a file that the source of a stage is made of: those outside of all blocks and
behind them those in the block of the stage. -/
def linesOfStage (stage : Stage) (lines : List Text) : List Text :=
  linesIn none none lines ++ linesIn (some stage) none lines

theorem mem_of_mem_linesOfStage {stage : Stage} {lines : List Text} {line : Text}
    (h : line ∈ linesOfStage stage lines) : line ∈ lines := by
  rcases List.mem_append.mp h with h | h
  · exact mem_of_mem_linesIn h
  · exact mem_of_mem_linesIn h

/-- The lines of code that stand for an input line. -/
def Input.codeLines (input : Input) : List Text :=
  [Draft.siteLine input, Draft.declarationLine input]

/-- The lines of code that stand for a line of a file. -/
def emitted (inputs : List Input) (line : Text) : List Text :=
  if Line.ofText line = .code then [line]
  else (((Line.ofText line).declared? inputs).map Input.codeLines).getD []

theorem emitted_of_code {line : Text} (h : Line.ofText line = .code) (inputs : List Input) :
    emitted inputs line = [line] :=
  if_pos h

theorem emitted_of_ne_code {line : Text} (h : Line.ofText line ≠ .code) (inputs : List Input) :
    emitted inputs line = (((Line.ofText line).declared? inputs).map Input.codeLines).getD [] :=
  if_neg h

/-! ## 2. Directives -/

namespace Draft

/-- The code in a stage block or outside of all blocks, the last line first. -/
def codeIn (draft : Draft) : Option Stage → List Text
  | none => draft.globals
  | some stage => draft.stageCode.get stage

/-- The stage whose block is open. -/
def block (draft : Draft) : Option Stage :=
  draft.openStage.map OpenStage.stage

theorem block_pushCode (draft : Draft) (line : Text) :
    (draft.pushCode line).block = draft.block := by
  obtain ⟨globals, stageCode, heq⟩ := draft.pushCode_eq line
  rw [heq]
  rfl

/-- A line of code goes to the block that is open. -/
theorem codeIn_pushCode (draft : Draft) (line : Text) (place : Option Stage) :
    (draft.pushCode line).codeIn place =
      (if draft.block = place then [line] else []) ++ draft.codeIn place := by
  rw [pushCode, block]
  cases draft.openStage with
  | none => cases place <;> simp [codeIn]
  | some block =>
    cases place with
    | none => simp [codeIn]
    | some stage =>
      by_cases hstage : block.stage = stage
      · simp [codeIn, hstage]
      · simp [codeIn, hstage, PerStage.get_modify_of_ne _ _ (Ne.symm hstage)]

theorem block_addInput (draft : Draft) (constant instanced : Bool) (type : DataType)
    (name : Text) : (draft.addInput constant instanced type name).block = draft.block := by
  unfold addInput
  rw [block_pushCode, block_pushCode]
  rfl

theorem inputs_addInput (draft : Draft) (constant instanced : Bool) (type : DataType)
    (name : Text) : (draft.addInput constant instanced type name).inputs =
      draft.inputs ++ [draft.newInput constant instanced type name] := by
  unfold addInput
  rw [inputs_pushCode, inputs_pushCode]

theorem codeIn_addInput (draft : Draft) (constant instanced : Bool) (type : DataType)
    (name : Text) (place : Option Stage) :
    (draft.addInput constant instanced type name).codeIn place =
      (if draft.block = place then
        (draft.newInput constant instanced type name).codeLines.reverse else []) ++
        draft.codeIn place := by
  unfold addInput
  rw [codeIn_pushCode, codeIn_pushCode, block_pushCode]
  show (if draft.block = place then _ else _) ++ ((if draft.block = place then _ else _) ++
    draft.codeIn place) = _
  by_cases hplace : draft.block = place
  · simp [hplace, Input.codeLines]
  · simp [hplace]

/-- What is the same of two drafts if neither inputs nor code came in between. -/
structure SameCode (draft next : Draft) : Prop where
  inputs : next.inputs = draft.inputs
  code : ∀ place, next.codeIn place = draft.codeIn place

theorem suffix_of_readQualifiers {constant instanced constant' instanced' : Bool}
    {tokens rest : List Text}
    (h : readQualifiers constant instanced tokens = .ok (constant', instanced', rest)) :
    rest <:+ tokens := by
  induction tokens generalizing constant instanced with
  | nil =>
    obtain ⟨-, -, rfl⟩ := by simpa [readQualifiers] using h
    exact List.suffix_refl _
  | cons token tokens ih =>
    rw [readQualifiers] at h
    split at h
    · split at h
      · cases h
      · exact (ih h).trans (List.suffix_cons _ _)
    split at h
    · split at h
      · cases h
      · exact (ih h).trans (List.suffix_cons _ _)
    · obtain ⟨-, -, rfl⟩ := by simpa using h
      exact List.suffix_refl _

theorem getLast?_of_readQualifiers {constant instanced : Bool} {tokens : List Text}
    {typeName name : Text}
    (h : readQualifiers false false tokens = .ok (constant, instanced, [typeName, name])) :
    tokens.getLast? = some name := by
  obtain ⟨qualifiers, rfl⟩ := suffix_of_readQualifiers h
  simp

/-- A directive declares an input, named by its last token, or it leaves inputs and code alone; it
opens and closes stage blocks as its line says. -/
theorem cases_of_follow {draft next : Draft} {file : Text} {number : Nat} {tokens : List Text}
    (h : draft.follow file number tokens = .ok next) :
    next.block = (Line.anki tokens).blockAfter draft.block ∧
      ((∃ constant instanced type name, draft.NewInput constant instanced type name ∧
          (Line.anki tokens).declaredName? = some name ∧
          next = draft.addInput constant instanced type name) ∨
        ((Line.anki tokens).declaredName? = none ∧ draft.SameCode next)) := by
  -- One case for each word a directive can start with, in the order in which they are tried.
  rw [follow.eq_def] at h
  split at h
  · cases h
  next word tokens =>
  rw [Line.blockAfter, Line.declaredName?]
  split at h
  next hword =>
    obtain ⟨counts, name, values, -, rfl⟩ := exists_of_readMutator h
    subst hword
    exact ⟨rfl, Or.inr ⟨rfl, rfl, fun place => by cases place <;> rfl⟩⟩
  split at h
  next hword =>
    obtain ⟨rule, -, -, rfl⟩ := exists_of_readRewrite h
    subst hword
    exact ⟨rfl, Or.inr ⟨rfl, rfl, fun place => by cases place <;> rfl⟩⟩
  split at h
  next hword =>
    obtain ⟨constant, instanced, typeName, name, type, hqualifiers, new, rfl⟩ :=
      exists_of_readInput h
    subst hword
    refine ⟨block_addInput _ _ _ _ _, Or.inl ⟨constant, instanced, type, name, new, ?_, rfl⟩⟩
    exact getLast?_of_readQualifiers hqualifiers
  split at h
  next hword =>
    obtain ⟨name, stage, rfl, hstage, -, rfl⟩ := exists_of_readStart h
    subst hword
    exact ⟨hstage.symm, Or.inr ⟨rfl, rfl, fun place => by cases place <;> rfl⟩⟩
  split at h
  next hword =>
    obtain ⟨-, rfl⟩ := eq_of_readEnd h
    subst hword
    exact ⟨rfl, Or.inr ⟨rfl, rfl, fun place => by cases place <;> rfl⟩⟩
  split at h
  next hword =>
    obtain ⟨set, -, -, rfl⟩ := exists_of_readDescriptorSet h
    subst hword
    exact ⟨rfl, Or.inr ⟨rfl, rfl, fun place => by cases place <;> rfl⟩⟩
  · cases h

/-! ## 3. Files -/

/-- An input is found by its name among inputs that are declared later as well. -/
theorem declared?_of_fresh {tokens : List Text} {name : Text} {input : Input}
    {inputs more : List Input} (hname : (Line.anki tokens).declaredName? = some name)
    (hinput : input.name = name) (hfresh : ∀ other ∈ inputs, other.name ≠ name) :
    (Line.anki tokens).declared? (inputs ++ [input] ++ more) = some input := by
  have hnone : (inputs.find? fun other => other.name == name) = none := by
    rw [List.find?_eq_none]
    intro other hother
    simpa using hfresh other hother
  rw [Line.declared?, hname, Option.bind_some, List.append_assoc, List.find?_append, hnone]
  simp [hinput]

/-- What a reading does to code: each part of it gets what the lines that are read in it are
written as. -/
structure Routed (draft : Draft) (events : List Event) (outcome : Except ParseError Draft) :
    Prop where
  block : ∀ last, outcome = .ok last →
    last.block = blockBehind draft.block (events.filterMap Event.line?)
  inputs : ∀ last, outcome = .ok last → ∃ more, last.inputs = draft.inputs ++ more ∧
    more.map Input.name = declaredNames (events.filterMap Event.line?)
  /-- Inputs that are declared later do not matter to the lines. -/
  code : ∀ last, outcome = .ok last → ∀ more place, last.codeIn place =
    ((linesIn place draft.block (events.filterMap Event.line?)).flatMap
      (emitted (last.inputs ++ more))).reverse ++ draft.codeIn place

/-- A line that adds to the part that is open. -/
theorem routed_line {draft next : Draft} {file : Text} {number : Nat} {line : Text}
    (hblock : next.block = (Line.ofText line).blockAfter draft.block)
    (hinputs : ∃ more, next.inputs = draft.inputs ++ more ∧
      more.map Input.name = declaredNames [line])
    (hcode : ∀ more place, next.codeIn place =
      (if draft.block = place then (emitted (next.inputs ++ more) line).reverse else []) ++
        draft.codeIn place) :
    draft.Routed [.reads file number line] (.ok next) := by
  constructor
  · intro last hlast
    obtain rfl := Except.ok.inj hlast
    exact hblock
  · intro last hlast
    obtain rfl := Except.ok.inj hlast
    exact hinputs
  · intro last hlast more place
    obtain rfl := Except.ok.inj hlast
    show next.codeIn place = ((linesIn place draft.block [line]).flatMap _).reverse ++ _
    rw [hcode more place, linesIn, linesIn]
    by_cases hplace : draft.block = place
    · simp [hplace]
    · simp [hplace]

/-- A line that is passed over. -/
theorem routed_skip {draft next : Draft} {file : Text} {number : Nat} {line : Text}
    (hblock : next.block = (Line.ofText line).blockAfter draft.block) (hsame : draft.SameCode next)
    (hkind : Line.ofText line ≠ .code) (hname : (Line.ofText line).declaredName? = none) :
    draft.Routed [.reads file number line] (.ok next) := by
  have hnames : declaredNames [line] = [] := by simp [declaredNames, hname]
  refine routed_line hblock ⟨[], by rw [hsame.inputs, List.append_nil], hnames.symm⟩
    fun more place => ?_
  rw [hsame.code, emitted_of_ne_code hkind, Line.declared?, hname]
  simp

/-- A line that includes a file. -/
theorem routed_include {draft : Draft} {file : Text} {number : Nat} {line name : Text}
    (hname : (Line.ofText line).included? = some name) :
    draft.Routed [.reads file number line] (.ok draft) := by
  have hinclude := Line.isInclude_of_included? hname
  cases hkind : Line.ofText line with
  | fileInclude tokens =>
    refine routed_skip ?_ ⟨rfl, fun place => rfl⟩ (by simp [hkind]) ?_
    · rw [hkind]
      rfl
    · rw [hkind]
      rfl
  | once | onceWithArguments | anki | code =>
    rw [hkind] at hinclude
    cases hinclude

/-- What one reading and behind it another one do to code. -/
theorem Routed.append {draft next : Draft} {events events' : List Event}
    {outcome : Except ParseError Draft} (hfirst : draft.Routed events (.ok next))
    (hsecond : next.Routed events' outcome) : draft.Routed (events ++ events') outcome := by
  have hblock := hfirst.block next rfl
  constructor
  · intro last hlast
    rw [hsecond.block last hlast, hblock, List.filterMap_append, blockBehind_append]
  · intro last hlast
    obtain ⟨more, hmore, hnames⟩ := hfirst.inputs next rfl
    obtain ⟨more', hmore', hnames'⟩ := hsecond.inputs last hlast
    refine ⟨more ++ more', by rw [hmore', hmore, List.append_assoc], ?_⟩
    rw [List.map_append, hnames, hnames', List.filterMap_append, declaredNames, declaredNames,
      declaredNames, List.filterMap_append]
  · intro last hlast more place
    obtain ⟨later, hlater, -⟩ := hsecond.inputs last hlast
    rw [hsecond.code last hlast more, hfirst.code next rfl (later ++ more), hblock,
      List.filterMap_append, linesIn_append, List.flatMap_append, List.reverse_append,
      List.append_assoc, hlater, List.append_assoc]

/-- Events that read no line do nothing to code. -/
theorem routed_of_filterMap_eq_nil (draft : Draft) {events : List Event}
    (hlines : events.filterMap Event.line? = []) : draft.Routed events (.ok draft) := by
  constructor
  · intro last hlast
    rw [hlines, ← Except.ok.inj hlast]
    rfl
  · intro last hlast
    rw [hlines, ← Except.ok.inj hlast]
    exact ⟨[], (List.append_nil _).symm, rfl⟩
  · intro last hlast more place
    rw [hlines, ← Except.ok.inj hlast]
    rfl

theorem traceable_routed (reader : FileReader) : Traceable reader Routed where
  nil := fun draft => draft.routed_of_filterMap_eq_nil rfl
  append := fun draft events next events' outcome hfirst hsecond => hfirst.append hsecond
  fault := by
    intro draft file number line cause
    constructor <;> intro last hlast <;> cases hlast
  once := by
    intro draft file number line hline
    refine routed_skip ?_ ⟨rfl, fun place => by cases place <;> rfl⟩ (by simp [hline]) ?_
    · rw [hline]
      rfl
    · rw [hline]
      rfl
  follow := by
    intro draft file number line tokens next hline hfollow
    obtain ⟨hblock, hinput | hother⟩ := cases_of_follow hfollow
    · obtain ⟨constant, instanced, type, name, new, hname, rfl⟩ := hinput
      refine routed_line (hline ▸ hblock) ?_ fun more place => ?_
      · refine ⟨_, inputs_addInput draft constant instanced type name, ?_⟩
        rw [declaredNames, List.filterMap_cons_some (hline ▸ hname)]
        rfl
      · rw [codeIn_addInput, emitted_of_ne_code (by simp [hline]), hline, inputs_addInput,
          declared?_of_fresh hname rfl new.fresh]
        rfl
    · obtain ⟨hname, hsame⟩ := hother
      exact routed_skip (hline ▸ hblock) hsame (by simp [hline]) (hline ▸ hname)
  code := by
    intro draft file number line hline
    refine routed_line ?_ ?_ fun more place => ?_
    · rw [block_pushCode, hline]
      rfl
    · refine ⟨[], by rw [inputs_pushCode, List.append_nil], ?_⟩
      rw [declaredNames, List.filterMap_cons_none (by rw [hline]; rfl)]
      rfl
    · rw [codeIn_pushCode, emitted_of_code hline]
      rfl
  skip := by
    intro draft file number line name hname honce
    exact routed_include hname
  unreadable := by
    intro draft file number line name cause hname honce
    constructor <;> intro last hlast <;> cases hlast
  enter := by
    intro draft file number line name room included hname honce hread hfile
    have hopens : draft.Routed [.opens name] (.ok draft) := draft.routed_of_filterMap_eq_nil rfl
    exact (routed_include hname).append (hopens.append hfile)

/-- Lines none of which includes a file are read one after the other. -/
theorem lines_of_linesEvents
    {enter : (line : Nat) → (name : Text) → Draft → Except ParseError Draft}
    {entered : (name : Text) → Draft → List Event} {file : Text} {number : Nat} {seenOnce : Bool}
    {lines : List Text} {draft last : Draft}
    (hlines : ∀ line ∈ lines, (Line.ofText line).isInclude = false)
    (hread : readLines enter file number seenOnce lines draft = .ok last) :
    (linesEvents enter entered file number seenOnce lines draft).filterMap Event.line? = lines := by
  induction lines generalizing number seenOnce draft with
  | nil => rfl
  | cons line rest ih =>
    obtain ⟨hline, hrest⟩ := List.forall_mem_cons.mp hlines
    obtain ⟨next, hnext, hread⟩ := exists_of_readLines_cons hread
    have hnone : (Line.ofText line).included? = none := by
      cases hname : (Line.ofText line).included? with
      | none => rfl
      | some name =>
        rw [Line.isInclude_of_included? hname] at hline
        cases hline
    rw [linesEvents, lineEvents, hnone, hnext]
    exact congrArg (List.cons line) (ih hrest hread)

/-- The binding that an input is given matters neither to its name nor to its lines. -/
theorem find?_bindResources (inputs : List Input) (next : Nat) (name : Text) :
    ((bindResources next inputs).find? fun input => input.name == name).map Input.codeLines =
      (inputs.find? fun input => input.name == name).map Input.codeLines := by
  induction inputs generalizing next with
  | nil => rfl
  | cons input rest ih =>
    have hbound : ∀ (binding : Option Nat) (others : List Input),
        (others.find? fun input => input.name == name).map Input.codeLines =
          (rest.find? fun input => input.name == name).map Input.codeLines →
        (({ input with binding := binding } :: others).find? fun input =>
            input.name == name).map Input.codeLines =
          ((input :: rest).find? fun input => input.name == name).map Input.codeLines := by
      intro binding others hothers
      rw [List.find?_cons, List.find?_cons]
      cases input.name == name with
      | true => rfl
      | false => exact hothers
    rw [bindResources]
    split
    · exact hbound _ _ (ih _)
    · exact hbound input.binding _ (ih _)

theorem emitted_bindResources (inputs : List Input) (next : Nat) (line : Text) :
    emitted (bindResources next inputs) line = emitted inputs line := by
  have hdeclared : ∀ kind : Line, (kind.declared? (bindResources next inputs)).map
      Input.codeLines = (kind.declared? inputs).map Input.codeLines := by
    intro kind
    rw [Line.declared?, Line.declared?]
    cases kind.declaredName? with
    | none => rfl
    | some name => exact find?_bindResources inputs next name
  rw [emitted, emitted, hdeclared]

end Draft

/-! ## 4. Programs -/

namespace Program

/-- The code in a stage block or outside of all blocks. -/
def codeIn (program : Program) : Option Stage → List Text
  | none => program.globals
  | some stage => program.stageCode.get stage

/-- Behind its last line a program is what has been declared on the way. -/
theorem exists_routed_of_read {reader : FileReader} {settings : Settings} {fileName : Text}
    {program : Program} (hread : Program.read reader settings fileName = .ok program) :
    ∃ draft : Draft, Draft.Routed .empty (events reader fileName) (.ok draft) ∧
      program.inputs = Draft.bindResources (Draft.firstBinding draft.inputs) draft.inputs ∧
      ∀ place, program.codeIn place = (draft.codeIn place).reverse := by
  obtain ⟨text, draft, hfile, hdraft, hfinish⟩ := exists_of_read hread
  have hopens : Draft.Routed .empty [.opens fileName] (.ok .empty) :=
    Draft.empty.routed_of_filterMap_eq_nil rfl
  have hrouted : Draft.Routed .empty (events reader fileName) (.ok draft) := by
    rw [events, hfile, ← hdraft]
    exact hopens.append
      ((Draft.traceable_routed reader).readFile maxIncludeDepth fileName text .empty)
  obtain ⟨-, -, rfl⟩ := Draft.finish_eq_ok_iff.mp hfinish
  refine ⟨draft, hrouted, rfl, fun place => ?_⟩
  cases place with
  | none => rfl
  | some stage => exact PerStage.get_map _ _ _

/-- The code of a program is cut from the lines that are read. -/
theorem codeIn_of_linesRead {reader : FileReader} {settings : Settings} {fileName : Text}
    {program : Program} (hread : Program.read reader settings fileName = .ok program)
    (place : Option Stage) :
    program.codeIn place =
      (linesIn place none (linesRead reader fileName)).flatMap (emitted program.inputs) := by
  obtain ⟨draft, hrouted, hinputs, hcode⟩ := exists_routed_of_read hread
  have hempty : Draft.empty.codeIn place = [] := by
    cases place with
    | none => rfl
    | some stage => exact PerStage.get_const _ _
  have hdraft := hrouted.code draft rfl [] place
  rw [hempty, List.append_nil, List.append_nil] at hdraft
  rw [hcode, hdraft, List.reverse_reverse, hinputs]
  exact List.flatMap_congr fun line _ => (Draft.emitted_bindResources _ _ line).symm

/-- The inputs of a program are those that its lines declare. -/
theorem declaredNames_linesRead {reader : FileReader} {settings : Settings} {fileName : Text}
    {program : Program} (hread : Program.read reader settings fileName = .ok program) :
    declaredNames (linesRead reader fileName) = program.inputs.map Input.name := by
  obtain ⟨draft, hrouted, hinputs, -⟩ := exists_routed_of_read hread
  obtain ⟨more, hmore, hnames⟩ := hrouted.inputs draft rfl
  rw [hinputs, InputsSound.map_bindResources fun _ _ => rfl, hmore, linesRead, ← hnames]
  rfl

/-- A program that includes no other file is read from the lines of its file. -/
theorem linesRead_of_read {reader : FileReader} {settings : Settings} {fileName text : Text}
    {program : Program} (hfile : reader fileName = .ok text)
    (hlines : ∀ line ∈ Text.lines text, (Line.ofText line).isInclude = false)
    (hread : Program.read reader settings fileName = .ok program) :
    linesRead reader fileName = Text.lines text := by
  obtain ⟨root, draft, hroot, hdraft, -⟩ := exists_of_read hread
  obtain rfl : root = text := Except.ok.inj (hroot.symm.trans hfile)
  rw [Draft.readFile_eq] at hdraft
  rw [linesRead, events, hfile, List.filterMap_cons_none (by rfl)]
  dsimp only
  rw [Draft.fileEvents_eq]
  exact Draft.lines_of_linesEvents hlines hdraft

theorem codeIn_of_read {reader : FileReader} {settings : Settings} {fileName text : Text}
    {program : Program} (hfile : reader fileName = .ok text)
    (hlines : ∀ line ∈ Text.lines text, (Line.ofText line).isInclude = false)
    (hread : Program.read reader settings fileName = .ok program) (place : Option Stage) :
    program.codeIn place =
      (linesIn place none (Text.lines text)).flatMap (emitted program.inputs) := by
  rw [codeIn_of_linesRead hread, linesRead_of_read hfile hlines hread]

/-- The code in the source of a stage. -/
theorem code_of_read {reader : FileReader} {settings : Settings} {fileName text : Text}
    {program : Program} (hfile : reader fileName = .ok text)
    (hlines : ∀ line ∈ Text.lines text, (Line.ofText line).isInclude = false)
    (hread : Program.read reader settings fileName = .ok program) (stage : Stage) :
    program.globals ++ program.stageCode.get stage =
      (linesOfStage stage (Text.lines text)).flatMap (emitted program.inputs) := by
  have hcode := codeIn_of_read hfile hlines hread
  rw [linesOfStage, List.flatMap_append, ← hcode, ← hcode]
  rfl

end Program

end ShaderVariants
