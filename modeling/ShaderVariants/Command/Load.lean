import ShaderVariants.ConfigFile
import ShaderVariants.Disk.Search
import ShaderVariants.Program.Parser

/-!
# Loading programs

Finding a program on the disk, its settings, and everything that it includes.
-/

namespace ShaderVariants

/-- What commands are told about a program. -/
structure ProgramOptions where
  file : Text
  /-- Directories searched for includes after all others. -/
  includePaths : List Text
  /-- The config file, if it is not the one beside the program. -/
  configFile : Option Text
  /-- Settings that are laid over those of the config file. -/
  settings : Settings
  deriving Repr, DecidableEq

/-- Why a program was not loaded. -/
inductive LoadFault where
  | noProgram (file : Text) (fault : DiskFault)
  | noParent
  | config (fault : ConfigFault)
  /-- The settings cannot be laid over one another. -/
  | settings
  | noIncludePath (fault : DiskFault)
  | unparsable (place : Place) (error : ParseError)
  deriving Repr, DecidableEq

def LoadFault.message : LoadFault → String
  | .noProgram file fault =>
    s!"shader program '{String.ofList file}' does not exist: {fault.message}"
  | .noParent => "shader program has no parent directory"
  | .config fault => fault.message
  | .settings => "settings out of range"
  | .noIncludePath fault => s!"an include path does not exist: {fault.message}"
  | .unparsable place error =>
    s!"could not parse '{String.ofList place.toText}': {error.message}"

namespace ProgramOptions

/-- Loads the program at a place: the file `name` of the directory `dir`. -/
def loadAt (options : ProgramOptions) (disk : Disk) (dir : Place) (name : Text) :
    Except LoadFault Program :=
  match ConfigFile.discover disk options.configFile dir.toText with
  | .error fault => .error (.config fault)
  | .ok config =>
    match config.settings.merge? options.settings with
    | none => .error .settings
    | some settings =>
      match Search.places disk [] (dir.toText :: config.includePaths ++ options.includePaths) with
      | .error fault => .error (.noIncludePath fault)
      | .ok dirs =>
        match Program.read (Search.reader disk dirs) settings name with
        | .error error => .error (.unparsable (dir ++ [name]) error)
        | .ok program => .ok program

/-- Loads the program. -/
def load (options : ProgramOptions) (disk : Disk) : Except LoadFault Program :=
  match disk.resolve options.file with
  | .error fault => .error (.noProgram options.file fault)
  | .ok place =>
    match place.getLast? with
    | none => .error .noParent
    | some name => options.loadAt disk place.dropLast name

end ProgramOptions

end ShaderVariants
