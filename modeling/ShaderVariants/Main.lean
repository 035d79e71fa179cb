import ShaderVariants.Command.Arguments

/-!
The program: it copies the part of the real disk that a command looks at, carries the command out on
the copy, and writes back what has changed.
-/

namespace ShaderVariants.Shell

/-- Copies what stands at a place, and the directories above it. -/
def copyPlace (disk : Disk) (place : Place) : IO Disk := do
  let mut disk := disk
  for place in Disk.beginnings place ++ [place] do
    if (disk.node? place).isNone then
      let path := (← IO.currentDir) / String.ofList (Place.toText place)
      if ← path.isDir then
        disk := disk.put place .directory
      else if ← path.pathExists then
        disk := disk.put place (.file (← IO.FS.readBinFile path).data.toList)
  return disk

/-- Copies what stands where a path leads and on the way. -/
def copyPath (disk : Disk) (path : Text) : IO Disk := do
  let mut disk := disk
  let mut place := if Path.isAbsolute path then [] else disk.home
  for segment in Path.segments path do
    place := Search.step place segment
    disk ← copyPlace disk place
  return disk

/-- Copies the files that a program includes.  Reading stops at the first name that has not been
looked for; the files of that name are copied, and reading starts again. -/
partial def copyIncludes (disk : Disk) (dirs : List Place) (known : List Text) (root : Text) :
    IO Disk := do
  let reader : FileReader := fun name =>
    if known.contains name then Search.reader disk dirs name else .error []
  match Program.read reader .default root with
  | .error ⟨_, _, .unreadable name _⟩ =>
    if known.contains name then return disk
    let mut disk := disk
    for dir in dirs do
      disk ← copyPlace disk (Search.locate dir name)
    copyIncludes disk dirs (name :: known) root
  | _ => return disk

def copyProgram (disk : Disk) (options : ProgramOptions) : IO Disk := do
  let mut disk ← copyPath disk options.file
  match disk.resolve options.file with
  | .error _ => return disk
  | .ok place =>
    let dir := Place.toText place.dropLast
    disk ← copyPath disk (options.configFile.getD (Path.join dir ConfigFile.fileName))
    match ConfigFile.discover disk options.configFile dir with
    | .error _ => return disk
    | .ok config =>
      let paths := dir :: config.includePaths ++ options.includePaths
      for path in paths do
        disk ← copyPath disk path
      match Search.places disk [] paths with
      | .error _ => return disk
      | .ok dirs => copyIncludes disk dirs [] (place.getLast?.getD [])

def copy (command : Command) : IO Disk := do
  let home := Path.segments (← IO.currentDir).toString.toList
  let disk ← copyPlace (Disk.empty (home.filter fun name => !name.isEmpty)) []
  let disk ← copyProgram disk command.program
  match command with
  | .showProgram _ => return disk
  | .generate options => copyPath disk options.outputDir

def writeBack (before after : Disk) : IO Unit := do
  for (place, node) in after.nodes do
    unless before.node? place == some node do
      let path := String.ofList (Place.toText place)
      match node with
      | .directory => IO.FS.createDirAll path
      | .file bytes => IO.FS.writeBinFile path ⟨bytes.toArray⟩

def run (arguments : List String) : IO UInt32 := do
  match Arguments.command (arguments.map String.toList) with
  | .error fault =>
    IO.eprintln s!"error: {fault.message}"
    return 2
  | .ok command =>
    let disk ← copy command
    let outcome := command.run disk
    IO.print (String.ofList outcome.output)
    writeBack disk outcome.disk
    for entry in outcome.log do
      IO.eprintln entry.message
    match outcome.failure with
    | none => return 0
    | some failure =>
      IO.eprintln s!"Error: {failure.message}"
      return 1

end ShaderVariants.Shell

def main (arguments : List String) : IO UInt32 :=
  ShaderVariants.Shell.run arguments
