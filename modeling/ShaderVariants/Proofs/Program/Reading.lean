import ShaderVariants.Program.Parser

/-!
# Reading line by line

What a single line of a file does to what has been declared (`Draft.readLine`), how the reading of
some lines follows from the reading of parts of them (`Draft.readLines_append`), and what a program
that was read has been made of (`Program.exists_of_read`, `Draft.finish_eq_ok_iff`).
-/

namespace ShaderVariants

/-! ## 1. Kinds of lines -/

namespace Line

def isInclude : Line → Bool
  | .fileInclude _ => true
  | _ => false

/-- Whether the line is the pragma that lets a file be read only once. -/
def isOnce : Line → Bool
  | .once => true
  | _ => false

/-- The file that an include line names. -/
def included? : Line → Option Text
  | .fileInclude tokens => (Include.target tokens).toOption
  | _ => none

theorem isInclude_of_included? {line : Line} {name : Text} (h : line.included? = some name) :
    line.isInclude = true := by
  cases line with
  | fileInclude tokens => rfl
  | once | onceWithArguments | anki | code => cases h

theorem isOnce_of_included? {line : Line} {name : Text} (h : line.included? = some name) :
    line.isOnce = false := by
  cases line with
  | fileInclude tokens => rfl
  | once | onceWithArguments | anki | code => cases h

end Line

/-- Whether one of the lines is the pragma that lets a file be read only once. -/
def hasOnce (lines : List Text) : Bool :=
  lines.any fun line => (Line.ofText line).isOnce

namespace Draft

/-! ## 2. Lines -/

/-- Reads the file that the include in a given line names, with `room` levels of includes left. -/
def enter (reader : FileReader) (room : Nat) (file : Text) (number : Nat) (name : Text)
    (draft : Draft) : Except ParseError Draft :=
  match Include.resolve reader draft.once room name with
  | .error cause => .error ⟨file, number, cause⟩
  | .ok none => .ok draft
  | .ok (some included) =>
    match room with
    | 0 => .ok draft
    | room + 1 => readFile reader room name included draft

theorem readFile_eq (reader : FileReader) (room : Nat) (file text : Text) (draft : Draft) :
    readFile reader room file text draft =
      readLines (enter reader room file) file 1 false (Text.lines text) draft := by
  cases room with
  | zero =>
    rw [readFile]
    congr 1
    funext line name draft
    rw [enter]
    cases Include.resolve reader draft.once 0 name with
    | error cause => rfl
    | ok found => cases found <;> rfl
  | succ room => rfl

variable {enter : (line : Nat) → (name : Text) → Draft → Except ParseError Draft} {file : Text}

/-- What one line of a file comes to; `seenOnce` tells whether the file has been barred before. -/
def readLine (enter : (line : Nat) → (name : Text) → Draft → Except ParseError Draft) (file : Text)
    (number : Nat) (seenOnce : Bool) (line : Text) (draft : Draft) : Except ParseError Draft :=
  match Line.ofText line with
  | .fileInclude tokens =>
    match Include.target tokens with
    | .error cause => .error ⟨file, number, cause⟩
    | .ok name => enter number name draft
  | .once =>
    if seenOnce then .error ⟨file, number, .duplicateOnce⟩ else .ok (draft.markOnce file)
  | .onceWithArguments => .error ⟨file, number, .malformedPragma .onceArguments⟩
  | .anki tokens =>
    match draft.follow file number tokens with
    | .error cause => .error ⟨file, number, cause⟩
    | .ok next => .ok next
  | .code => .ok (draft.pushCode line)

/-- A line that includes a file is what the file comes to. -/
theorem readLine_of_included? {number : Nat} {seenOnce : Bool} {line name : Text} {draft : Draft}
    (h : (Line.ofText line).included? = some name) :
    readLine enter file number seenOnce line draft = enter number name draft := by
  rw [readLine]
  cases hkind : Line.ofText line with
  | fileInclude tokens =>
    rw [hkind, Line.included?] at h
    dsimp only
    cases htarget : Include.target tokens with
    | error cause =>
      rw [htarget] at h
      cases h
    | ok target =>
      rw [htarget] at h
      dsimp only
      rw [Option.some.inj h]
  | once | onceWithArguments | anki | code =>
    rw [hkind] at h
    cases h

/-- What a line that could be read has done. -/
inductive LineRead (enter : (line : Nat) → (name : Text) → Draft → Except ParseError Draft)
    (file : Text) (number : Nat) (line : Text) (draft : Draft) : Draft → Prop
  | entered {name : Text} {next : Draft} (names : (Line.ofText line).included? = some name)
      (entered : enter number name draft = .ok next) : LineRead enter file number line draft next
  | once (kind : Line.ofText line = .once) :
      LineRead enter file number line draft (draft.markOnce file)
  | follow {tokens : List Text} {next : Draft} (kind : Line.ofText line = .anki tokens)
      (followed : draft.follow file number tokens = .ok next) :
      LineRead enter file number line draft next
  | code (kind : Line.ofText line = .code) :
      LineRead enter file number line draft (draft.pushCode line)

theorem lineRead_of_readLine {number : Nat} {seenOnce : Bool} {line : Text} {draft next : Draft}
    (h : readLine enter file number seenOnce line draft = .ok next) :
    LineRead enter file number line draft next := by
  rw [readLine] at h
  cases hkind : Line.ofText line with
  | fileInclude tokens =>
    rw [hkind] at h
    dsimp only at h
    cases htarget : Include.target tokens with
    | error cause =>
      rw [htarget] at h
      cases h
    | ok name =>
      rw [htarget] at h
      exact .entered (by rw [hkind, Line.included?, htarget]; rfl) h
  | once =>
    rw [hkind] at h
    dsimp only at h
    split at h
    · cases h
    · exact Except.ok.inj h ▸ .once hkind
  | onceWithArguments =>
    rw [hkind] at h
    cases h
  | anki tokens =>
    rw [hkind] at h
    dsimp only at h
    split at h
    · cases h
    next followed hfollow => exact Except.ok.inj h ▸ .follow hkind hfollow
  | code =>
    rw [hkind] at h
    exact Except.ok.inj h ▸ .code hkind

theorem readLines_cons (number : Nat) (seenOnce : Bool) (line : Text) (rest : List Text)
    (draft : Draft) :
    readLines enter file number seenOnce (line :: rest) draft =
      match readLine enter file number seenOnce line draft with
      | .error e => .error e
      | .ok next =>
        readLines enter file (number + 1) (seenOnce || (Line.ofText line).isOnce) rest next := by
  rw [readLines, readLine]
  -- Only the pragma itself changes what is known of the file, and only if it was not seen before.
  cases Line.ofText line with
  | fileInclude tokens =>
    dsimp only
    cases Include.target tokens with
    | error cause => rfl
    | ok name =>
      dsimp only
      cases enter number name draft with
      | error e => rfl
      | ok next => simp [Line.isOnce]
  | once => cases seenOnce <;> rfl
  | onceWithArguments => rfl
  | anki tokens =>
    dsimp only
    cases draft.follow file number tokens with
    | error cause => rfl
    | ok next => simp [Line.isOnce]
  | code => simp [Line.isOnce]

/-- A file is read line by line: reading it comes to what its first line does, and what the other
lines do behind it. -/
theorem exists_of_readLines_cons {number : Nat} {seenOnce : Bool} {line : Text} {rest : List Text}
    {draft last : Draft}
    (h : readLines enter file number seenOnce (line :: rest) draft = .ok last) :
    ∃ next, readLine enter file number seenOnce line draft = .ok next ∧
      readLines enter file (number + 1) (seenOnce || (Line.ofText line).isOnce) rest next =
        .ok last := by
  rw [readLines_cons] at h
  split at h
  · cases h
  next next hnext => exact ⟨next, hnext, h⟩

/-- The lines behind some others are read with what has been declared by those. -/
theorem readLines_append (number : Nat) (seenOnce : Bool) (lines more : List Text)
    (draft : Draft) :
    readLines enter file number seenOnce (lines ++ more) draft =
      match readLines enter file number seenOnce lines draft with
      | .error e => .error e
      | .ok next =>
        readLines enter file (number + lines.length) (seenOnce || hasOnce lines) more next := by
  induction lines generalizing number seenOnce draft with
  | nil => simp [readLines, hasOnce]
  | cons line rest ih =>
    rw [List.cons_append, readLines_cons, readLines_cons]
    cases readLine enter file number seenOnce line draft with
    | error e => rfl
    | ok next =>
      simp only [ih, List.length_cons, hasOnce, List.any_cons, Bool.or_assoc]
      rw [show number + 1 + rest.length = number + (rest.length + 1) by omega]

/-- What is known of a file that could be read by the line that includes it. -/
theorem cases_of_enter {reader : FileReader} {room number : Nat} {name : Text}
    {draft next : Draft} (h : Draft.enter reader room file number name draft = .ok next) :
    (name ∈ draft.once ∧ next = draft) ∨
      (name ∉ draft.once ∧ ∃ below included, room = below + 1 ∧ reader name = .ok included ∧
        readFile reader below name included draft = .ok next) := by
  rw [Draft.enter, Include.resolve.eq_def] at h
  by_cases honce : name ∈ draft.once
  · rw [if_pos (List.contains_iff_mem.mpr honce)] at h
    exact Or.inl ⟨honce, (Except.ok.inj h).symm⟩
  · rw [if_neg (mt List.contains_iff_mem.mp honce)] at h
    cases room with
    | zero => cases h
    | succ below =>
      simp only at h
      cases hread : reader name with
      | error reason =>
        rw [hread] at h
        cases h
      | ok included =>
        rw [hread] at h
        exact Or.inr ⟨honce, below, included, rfl, rfl, h⟩

/-! ## 3. Ends -/

/-- The program that a draft makes where the root file ends. -/
def toProgram (draft : Draft) (fileName : Text) (settings : Settings) : Program where
  fileName := fileName
  settings := settings
  mutators := draft.mutators
  rewrites := draft.rewrites.reverse
  inputs := bindResources (firstBinding draft.inputs) draft.inputs
  stages := draft.stages
  descriptorSet := draft.descriptorSet.getD 0
  instanceMutator := draft.instanceMutator
  globals := draft.globals.reverse
  stageCode := draft.stageCode.map List.reverse
  members := draft.members

/-- A program is made of a draft with some stage and without an open block. -/
theorem finish_eq_ok_iff {draft : Draft} {fileName : Text} {lastLine : Nat} {settings : Settings}
    {program : Program} :
    draft.finish fileName lastLine settings = .ok program ↔
      draft.openStage = none ∧ draft.stages.isEmpty = false ∧
        draft.toProgram fileName settings = program := by
  rw [finish]
  cases draft.openStage with
  | some block => simp
  | none => cases draft.stages.isEmpty <;> simp [toProgram]

end Draft

/-- What a program has been read from: the text of its root file, and the draft that it leaves. -/
theorem Program.exists_of_read {reader : FileReader} {settings : Settings} {fileName : Text}
    {program : Program} (h : Program.read reader settings fileName = .ok program) :
    ∃ text draft, reader fileName = .ok text ∧
      Draft.readFile reader maxIncludeDepth fileName text .empty = .ok draft ∧
      draft.finish fileName (max 1 (Text.lines text).length) settings = .ok program := by
  rw [Program.read] at h
  split at h
  · cases h
  next text htext =>
  split at h
  · cases h
  next draft hdraft => exact ⟨text, draft, htext, hdraft, h⟩

end ShaderVariants
