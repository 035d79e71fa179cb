import ShaderVariants.Disk.Basic
import ShaderVariants.Settings
import ShaderVariants.Toml.Reader

/-!
# Config files

A config file lists directories searched for includes and gives settings.  It is either named
explicitly or found beside the program.
-/

namespace ShaderVariants

/-- Why there is no config. -/
inductive ConfigFault where
  | unreadable (path : Text) (fault : DiskFault)
  | malformed (path : Text)
  deriving Repr, DecidableEq

def ConfigFault.message : ConfigFault → String
  | .unreadable path fault =>
    s!"could not read config file '{String.ofList path}': {fault.message}"
  | .malformed path => s!"could not parse config file '{String.ofList path}': toml"

/-- What a config file says. -/
structure ConfigFile where
  /-- The directories searched for includes. -/
  includePaths : List Text
  settings : Settings
  deriving Repr, DecidableEq

namespace ConfigFile

/-- The config where there is no file. -/
def default : ConfigFile :=
  ⟨[], .default⟩

def fileName : Text := "glslp.toml".toList

/-! ## 1. Contents -/

def includePathsKey : Text := "include_paths".toList

def settingsKey : Text := "parser".toList

def texts? : List Toml.Value → Option (List Text)
  | [] => some []
  | .text t :: rest => (texts? rest).map (t :: ·)
  | _ :: _ => none

def includePaths? : Toml.Value → Option (List Text)
  | .array items => texts? items
  | _ => none

def number? : Toml.Value → Option Nat
  | .integer base written => (Toml.integer? base written).bind Settings.ofInt?
  | _ => none

/-- The name that chooses a setting; a table with nothing but an empty table or array names the key
of it. -/
def choice? : Toml.Value → Option Text
  | .text name => some name
  | .table [(name, .table [])] => some name
  | .table [(name, .array [])] => some name
  | _ => none

def settingsKeys : List Text :=
  match Settings.default.toJson with
  | .obj fields => fields.map Prod.fst
  | _ => []

/-- The settings that a value gives.  An array gives the first ones in their order.  A table gives
them by key; its other numbers are not used, but have to be readable.  A moment gives none of
them. -/
def settings? : Toml.Value → Option Settings
  | .array items => Settings.ofFields? number? choice? (settingsKeys.zip items)
  | .table fields =>
    if Toml.Value.areFieldsReadable fields then Settings.ofFields? number? choice? fields else none
  | .moment _ => some .default
  | _ => none

/-- What fields say as a config; it has no other keys. -/
def ofFields? (fields : List (Text × Toml.Value)) : Option ConfigFile :=
  if fields.all fun field => field.1 == includePathsKey || field.1 == settingsKey then
    match (fields.lookup includePathsKey).elim (some []) includePaths?,
      (fields.lookup settingsKey).elim (some .default) settings? with
    | some includePaths, some settings => some ⟨includePaths, settings⟩
    | _, _ => none
  else none

/-! ## 2. Files -/

/-- The config with its directories as seen from `dir`. -/
def relativeTo (config : ConfigFile) (dir : Text) : ConfigFile :=
  { config with includePaths := config.includePaths.map (Path.join dir) }

def read (disk : Disk) (path : Text) : Except ConfigFault ConfigFile :=
  match disk.read path with
  | .error fault => .error (.unreadable path fault)
  | .ok t =>
    match (Toml.read t).bind ofFields? with
    | none => .error (.malformed path)
    | some config => .ok (config.relativeTo (Path.parent path))

/-- Reads the config file that is named, else the one in the program's directory if there is one. -/
def discover (disk : Disk) (named : Option Text) (dir : Text) : Except ConfigFault ConfigFile :=
  match named with
  | some path => read disk path
  | none =>
    if disk.leadsToFile (Path.join dir fileName) then read disk (Path.join dir fileName)
    else .ok default

end ConfigFile

end ShaderVariants
