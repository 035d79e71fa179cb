import ShaderVariants.Command.Manifest
import ShaderVariants.Command.Outcome

/-!
# Generating variants

The command that writes the sources of all variants of a program and a manifest of them.  Variants
are numbered by their place in the manifest; a mutation without a variant is logged and left out.
-/

namespace ShaderVariants

/-- What the command is told. -/
structure GenerateOptions where
  program : ProgramOptions
  /-- The directory that is written to. -/
  outputDir : Text
  /-- The values of the only mutation to generate; all mutations if there are none. -/
  selections : List Selection
  manifestFile : Text
  deriving Repr, DecidableEq

def defaultManifestFile : Text := "manifest.json".toList

/-! ## 1. Mutations -/

/-- The canonical mutations to generate: of the selected mutation if there are selections, of all
mutations otherwise. -/
def Program.requestedForms (program : Program) (selections : List Selection) :
    Except Failure (List Mutation) :=
  match (if selections.isEmpty then .ok program.mutations
      else (program.selectedMutation selections).map fun mutation => [mutation]) with
  | .error fault => .error (.selection fault)
  | .ok mutations => (program.distinctForms mutations).mapError .cycle

/-! ## 2. Sources -/

/-- Where files are written to, and how source files are named. -/
structure Destination where
  dir : Place
  stem : Text
  deriving Repr, DecidableEq

/-- The path of a file in the directory that is written to. -/
def Destination.path (destination : Destination) (file : Text) : Text :=
  Path.join destination.dir.toText file

/-- How far generating has come. -/
structure Progress where
  disk : Disk
  log : List LogLine
  /-- What has been written. -/
  entries : List ManifestEntry
  /-- How many mutations had no variant. -/
  failed : Nat

/-- Writes the sources of the variant with the given number, up to the first that cannot be
written. -/
def writeSources (destination : Destination) (number : Nat) (disk : Disk) :
    List (Stage × Text) → Disk × Option Failure
  | [] => (disk, none)
  | (stage, source) :: rest =>
    let path := destination.path (sourceFileName destination.stem number stage)
    match disk.write path source with
    | .error fault => (disk, some (.unwritable path fault))
    | .ok next => writeSources destination number next rest

/-- What is logged about a mutation without a variant. -/
def variantLog (program : Program) (mutation : Mutation) (error : VariantError) : LogLine :=
  .error
    (s!"variant {String.ofList mutation.toText} of {String.ofList program.fileName}: " ++
      error.message)

/-- Generates and writes the variants of the given mutations. -/
def writeVariants (program : Program) (destination : Destination) (progress : Progress) :
    List Mutation → Progress × Option Failure
  | [] => (progress, none)
  | mutation :: rest =>
    match program.variant mutation with
    | .error error =>
      writeVariants program destination
        { progress with
          log := progress.log ++ [variantLog program mutation error]
          failed := progress.failed + 1 } rest
    | .ok variant =>
      let number := progress.entries.length
      match writeSources destination number progress.disk variant.sources with
      | (disk, some failure) => ({ progress with disk := disk }, some failure)
      | (disk, none) =>
        writeVariants program destination
          { progress with
            disk := disk
            entries :=
              progress.entries ++
                [ManifestEntry.ofVariant program destination.stem number variant] } rest

/-! ## 3. The command -/

namespace GenerateOptions

/-- The path of the program from the directory that is written to. -/
def programPath (options : GenerateOptions) (disk : Disk) (dir : Place) : Text :=
  match disk.resolve options.program.file with
  | .ok place => Path.relative dir place
  | .error _ => options.program.file

def manifest (options : GenerateOptions) (program : Program) (dir : Place) (progress : Progress) :
    Manifest :=
  ⟨options.programPath progress.disk dir, program.mutators.map Mutator.name, progress.entries⟩

def announcement (options : GenerateOptions) (mutations : List Mutation) : Text :=
  "Generating ".toList ++ Numeral.ofNat mutations.length ++ " variants of ".toList ++
    options.program.file ++ "...\n".toList

/-- Writes the manifest after the variants; fails if a mutation had none. -/
def conclude (options : GenerateOptions) (program : Program) (destination : Destination)
    (progress : Progress) (total : Nat) : Disk × Option Failure :=
  let path := destination.path options.manifestFile
  let content := (options.manifest program destination.dir progress).toJson.toText
  match progress.disk.write path content with
  | .error fault => (progress.disk, some (.manifestUnwritable path fault))
  | .ok next => (next, if progress.failed = 0 then none else some (.variants progress.failed total))

/-- Writes the variants of the given mutations and the manifest to a directory. -/
def writeAll (options : GenerateOptions) (program : Program) (mutations : List Mutation)
    (disk : Disk) (dir : Place) : Outcome :=
  let destination : Destination := ⟨dir, Path.stem program.fileName⟩
  let output := options.announcement mutations
  match writeVariants program destination ⟨disk, program.log, [], 0⟩ mutations with
  | (progress, some failure) => ⟨progress.disk, output, progress.log, some failure⟩
  | (progress, none) =>
    match options.conclude program destination progress mutations.length with
    | (disk, failure) => ⟨disk, output, progress.log, failure⟩

/-- Generates the variants of the given mutations in the directory that is written to. -/
def generateForms (options : GenerateOptions) (program : Program) (mutations : List Mutation)
    (disk : Disk) : Outcome :=
  let output := options.announcement mutations
  match disk.ensurePath options.outputDir with
  | (disk, some fault) =>
    ⟨disk, output, program.log, some (.outputDirectory options.outputDir fault)⟩
  | (disk, none) =>
    match disk.resolve options.outputDir with
    | .error fault => ⟨disk, output, program.log, some (.disk fault)⟩
    | .ok dir => options.writeAll program mutations disk dir

/-- Generates the variants of a program. -/
def generate (options : GenerateOptions) (disk : Disk) : Outcome :=
  match options.program.load disk with
  | .error fault => ⟨disk, [], [], some (.load fault)⟩
  | .ok program =>
    match program.requestedForms options.selections with
    | .error failure => ⟨disk, [], program.log, some failure⟩
    | .ok mutations => options.generateForms program mutations disk

end GenerateOptions

end ShaderVariants
