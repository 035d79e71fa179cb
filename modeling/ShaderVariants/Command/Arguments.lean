import ShaderVariants.Command.Generate
import ShaderVariants.Command.Show

/-!
# Arguments

A command line names a command and gives its file and options.  An option is written `--name VALUE`
or `--name=VALUE`.  Options for directories and selections may be repeated, any other is given at
most once.
-/

namespace ShaderVariants

/-- A command and what it is told. -/
inductive Command where
  | showProgram (options : ProgramOptions)
  | generate (options : GenerateOptions)
  deriving Repr, DecidableEq

/-- Why a command line is refused. -/
inductive UsageFault where
  | noCommand
  | unknownCommand (name : Text)
  | noFile
  | unexpected (argument : Text)
  | noValue (name : Text)
  | invalidValue (name value : Text)
  | repeated (name : Text)
  | missing (name : Text)
  | selection (fault : Selection.Fault)
  deriving Repr, DecidableEq

def UsageFault.message : UsageFault → String
  | .noCommand => "expected a command, `show` or `generate`"
  | .unknownCommand name => s!"unknown command `{String.ofList name}`"
  | .noFile => "expected the file of a shader program"
  | .unexpected argument => s!"unexpected argument `{String.ofList argument}`"
  | .noValue name => s!"`--{String.ofList name}` needs a value"
  | .invalidValue name value =>
    s!"`{String.ofList value}` is no value of `--{String.ofList name}`"
  | .repeated name => s!"`--{String.ofList name}` is given more than once"
  | .missing name => s!"missing `--{String.ofList name}`"
  | .selection fault => fault.message

namespace Arguments

/-! ## 1. Splitting -/

/-- What a command line gives: files, and options by name. -/
structure Given where
  files : List Text
  options : List (Text × Text)
  deriving Repr, DecidableEq

def split : List Text → Except UsageFault Given
  | [] => .ok ⟨[], []⟩
  | argument :: rest =>
    match Text.strip? ['-', '-'] argument with
    | none => (split rest).map fun given => { given with files := argument :: given.files }
    | some option =>
      match Text.cutAt? '=' option with
      | some pair => (split rest).map fun given => { given with options := pair :: given.options }
      | none =>
        match rest with
        | [] => .error (.noValue option)
        | value :: rest =>
          (split rest).map fun given => { given with options := (option, value) :: given.options }

def Given.values (given : Given) (name : String) : List Text :=
  (given.options.filter fun option => option.1 == name.toList).map Prod.snd

def Given.value? (given : Given) (name : String) : Except UsageFault (Option Text) :=
  match given.values name with
  | [] => .ok none
  | [value] => .ok (some value)
  | _ => .error (.repeated name.toList)

def Given.path? (given : Given) (name : String) : Except UsageFault (Option Text) :=
  match given.value? name with
  | .ok (some []) => .error (.noValue name.toList)
  | found => found

def Given.check (given : Given) (known : List String) : Except UsageFault Unit :=
  match given.options.find? fun option => !known.any fun name => name.toList == option.1 with
  | some option => .error (.unexpected ('-' :: '-' :: option.1))
  | none => .ok ()

/-! ## 2. Settings -/

/-- The options that are numbers, with the keys of their settings. -/
def numberOptions : List (String × String) :=
  [("push-constants-size", "push_constants_size"), ("backend-major", "backend_major"),
   ("backend-minor", "backend_minor")]

/-- The options that choose a name, with the keys of their settings. -/
def choiceOptions : List (String × String) :=
  [("gpu-vendor", "gpu_vendor"), ("packing", "packing"), ("uniform-storage", "uniform_storage")]

/-- The setting that an option gives, read from its value by `read`. -/
def Given.setting (given : Given) (read : Text → Option Json) (name key : String) :
    Except UsageFault (List (Text × Json)) :=
  match given.value? name with
  | .error fault => .error fault
  | .ok none => .ok []
  | .ok (some value) =>
    match read value with
    | none => .error (.invalidValue name.toList value)
    | some json =>
      if (Settings.ofJson? (.obj [(key.toList, json)])).isSome then .ok [(key.toList, json)]
      else .error (.invalidValue name.toList value)

def numberValue (value : Text) : Option Json :=
  match Numeral.readNat 10 32 value with
  | .ok n => some (.num n)
  | .error _ => none

/-- A name given as an option: words are joined by hyphens there. -/
def choiceValue (value : Text) : Option Json :=
  some (.str (value.map fun c => if c = '-' then '_' else c))

def Given.settings (given : Given) : Except UsageFault Settings := do
  let numbers ← numberOptions.mapM fun option => given.setting numberValue option.1 option.2
  let choices ← choiceOptions.mapM fun option => given.setting choiceValue option.1 option.2
  return (Settings.ofJson? (.obj (numbers.flatten ++ choices.flatten))).getD .default

/-! ## 3. Commands -/

def programOptions : List String :=
  ["include-path", "config"] ++ (numberOptions ++ choiceOptions).map Prod.fst

def Given.program (given : Given) : Except UsageFault ProgramOptions := do
  let file ← match given.files with
    | [] => .error .noFile
    | [[]] => .error .noFile
    | [file] => .ok file
    | _ :: argument :: _ => .error (.unexpected argument)
  let includePaths := given.values "include-path"
  if includePaths.any List.isEmpty then .error (.noValue "include-path".toList)
  let configFile ← given.path? "config"
  let settings ← given.settings
  return ⟨file, includePaths, configFile, settings⟩

def selections : List Text → Except UsageFault (List Selection)
  | [] => .ok []
  | t :: rest =>
    match Selection.ofText t with
    | .error fault => .error (.selection fault)
    | .ok selection => (selections rest).map (selection :: ·)

/-- Reads the arguments of the command that generates variants. -/
def Given.generate (given : Given) : Except UsageFault GenerateOptions := do
  given.check (programOptions ++ ["output-dir", "mutation", "manifest-file"])
  let program ← given.program
  let outputDir ← given.path? "output-dir"
  let selections ← selections (given.values "mutation")
  let manifestFile ← given.value? "manifest-file"
  match outputDir with
  | none => .error (.missing "output-dir".toList)
  | some outputDir =>
    return ⟨program, outputDir, selections, manifestFile.getD defaultManifestFile⟩

/-- Reads a command line. -/
def command : List Text → Except UsageFault Command
  | [] => .error .noCommand
  | name :: rest => do
    if name = "show".toList then
      let given ← split rest
      given.check programOptions
      return .showProgram (← given.program)
    else if name = "generate".toList then
      return .generate (← (← split rest).generate)
    else .error (.unknownCommand name)

end Arguments

namespace Command

def program : Command → ProgramOptions
  | .showProgram options => options
  | .generate options => options.program

def run (command : Command) (disk : Disk) : Outcome :=
  match command with
  | .showProgram options => options.showProgram disk
  | .generate options => options.generate disk

end Command

end ShaderVariants
