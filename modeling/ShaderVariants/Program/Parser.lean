import ShaderVariants.Include
import ShaderVariants.Program.Declaration
import ShaderVariants.Program.Line

/-!
# Reading programs

A program file is read line by line, and a file that is included is read in place of its include
line.  Includes nest only so deep, which is why reading ends whatever the files include.
-/

namespace ShaderVariants

namespace Draft

/-- Reads the lines of a file from the given number on.  `enter` reads the file that an include in
a given line names, and `seenOnce` tells whether the file has already been barred from being read
again. -/
def readLines (enter : (line : Nat) → (name : Text) → Draft → Except ParseError Draft)
    (file : Text) : (number : Nat) → (seenOnce : Bool) → List Text → Draft →
    Except ParseError Draft
  | _, _, [], draft => .ok draft
  | number, seenOnce, line :: rest, draft =>
    match Line.ofText line with
    | .fileInclude tokens =>
      match Include.target tokens with
      | .error cause => .error ⟨file, number, cause⟩
      | .ok name =>
        match enter number name draft with
        | .error e => .error e
        | .ok next => readLines enter file (number + 1) seenOnce rest next
    | .once =>
      if seenOnce then .error ⟨file, number, .duplicateOnce⟩
      else readLines enter file (number + 1) true rest (draft.markOnce file)
    | .onceWithArguments => .error ⟨file, number, .malformedPragma .onceArguments⟩
    | .anki tokens =>
      match draft.follow file number tokens with
      | .error cause => .error ⟨file, number, cause⟩
      | .ok next => readLines enter file (number + 1) seenOnce rest next
    | .code => readLines enter file (number + 1) seenOnce rest (draft.pushCode line)

/-- Reads a file with the given text, below which includes may nest `room` levels deep. -/
def readFile (reader : FileReader) : (room : Nat) → (file text : Text) → Draft →
    Except ParseError Draft
  | 0, file, text, draft =>
    readLines
      (fun line name draft =>
        match Include.resolve reader draft.once 0 name with
        | .error cause => .error ⟨file, line, cause⟩
        | .ok _ => .ok draft)
      file 1 false (Text.lines text) draft
  | room + 1, file, text, draft =>
    readLines
      (fun line name draft =>
        match Include.resolve reader draft.once (room + 1) name with
        | .error cause => .error ⟨file, line, cause⟩
        | .ok none => .ok draft
        | .ok (some included) => readFile reader room name included draft)
      file 1 false (Text.lines text) draft

/-- Gives textures and samplers consecutive bindings from `next` on. -/
def bindResources (next : Nat) : List Input → List Input
  | [] => []
  | input :: rest =>
    if input.type.isResource then
      { input with binding := some next } :: bindResources (next + 1) rest
    else input :: bindResources next rest

/-- The first binding of a texture or sampler: binding zero belongs to the uniform buffer whenever
there may be one. -/
def firstBinding (inputs : List Input) : Nat :=
  if inputs.any Input.inBlock then 1 else 0

/-- The program that has been declared when the root file ends; `lastLine` is the number of its
last line. -/
def finish (draft : Draft) (fileName : Text) (lastLine : Nat) (settings : Settings) :
    Except ParseError Program :=
  match draft.openStage with
  | some block => .error ⟨block.file, block.line, .stageNesting (.neverClosed block.stage.name)⟩
  | none =>
    if draft.stages.isEmpty then .error ⟨fileName, lastLine, .noStages⟩
    else
      .ok
        { fileName := fileName
          settings := settings
          mutators := draft.mutators
          rewrites := draft.rewrites.reverse
          inputs := bindResources (firstBinding draft.inputs) draft.inputs
          stages := draft.stages
          descriptorSet := draft.descriptorSet.getD 0
          instanceMutator := draft.instanceMutator
          globals := draft.globals.reverse
          stageCode := draft.stageCode.map List.reverse
          members := draft.members }

end Draft

/-- Reads a program from its root file and all that the file includes. -/
def Program.read (reader : FileReader) (settings : Settings) (fileName : Text) :
    Except ParseError Program :=
  match reader fileName with
  | .error reason => .error ⟨fileName, 0, .unreadable fileName reason⟩
  | .ok text =>
    match Draft.readFile reader maxIncludeDepth fileName text .empty with
    | .error e => .error e
    | .ok draft => draft.finish fileName (max 1 (Text.lines text).length) settings

end ShaderVariants
