import ShaderVariants.Json.Printer
import ShaderVariants.Variant.Basic

/-!
# Manifests

What is recorded about generated variants: the files that hold their sources, the inputs that are
active in them, and their uniform block.
-/

namespace ShaderVariants

/-- An active input of a variant. -/
structure ManifestInput where
  name : Text
  inputClass : InputClass
  type : DataType
  placement : Option Placement
  binding : Option Nat
  constantId : Option Nat
  deriving Repr, DecidableEq

/-- A variant and its files. -/
structure ManifestEntry where
  mutation : Mutation
  /-- The file of each stage, in pipeline order. -/
  files : List (Stage × Text)
  inputs : List ManifestInput
  blockSize : Nat
  usesPushConstants : Bool
  deriving Repr, DecidableEq

/-- What was generated from a program. -/
structure Manifest where
  /-- The path of the program from the directory of the manifest. -/
  program : Text
  mutators : List Text
  entries : List ManifestEntry
  deriving Repr, DecidableEq

/-! ## 1. What is recorded -/

/-- The name of the file with the source of a stage, in the variant with the given number. -/
def sourceFileName (stem : Text) (number : Nat) (stage : Stage) : Text :=
  stem ++ '_' :: Numeral.ofNat number ++ '.' :: stage.name ++ ".glsl".toList

def ManifestInput.ofVariant (variant : Variant) (input : Input) : ManifestInput :=
  { name := input.name
    inputClass := input.inputClass
    type := input.type
    placement := variant.placement? input
    binding := variant.binding? input
    constantId := input.constantId }

/-- What is recorded about the variant of a program with the given number. -/
def ManifestEntry.ofVariant (program : Program) (stem : Text) (number : Nat) (variant : Variant) :
    ManifestEntry :=
  { mutation := variant.mutation
    files := variant.sources.map fun source => (source.1, sourceFileName stem number source.1)
    inputs := (program.inputs.filter variant.uses).map (ManifestInput.ofVariant variant)
    blockSize := variant.blockSize
    usesPushConstants := variant.usesPushConstants }

/-! ## 2. Manifests as JSON -/

/-- Every stage, in the order of the short names. -/
def Stage.byName : List Stage :=
  [.compute, .fragment, .geometry, .tessControl, .tessEvaluation, .vertex]

def numberField (key : String) (value : Option Nat) : List (Text × Json) :=
  match value with
  | some n => [(key.toList, .num n)]
  | none => []

/-- The object that records a place in the uniform block. -/
def Placement.toJson (placement : Placement) : Json :=
  .obj
    [("offset".toList, .num placement.offset), ("size".toList, .num placement.size),
     ("array_size".toList, .num placement.arraySize),
     ("array_stride".toList, .num placement.arrayStride),
     ("matrix_stride".toList, .num placement.matrixStride)]

def ManifestInput.toJson (input : ManifestInput) : Json :=
  .obj
    ([("name".toList, .str input.name), ("class".toList, .str input.inputClass.key),
      ("data_type".toList, .str input.type.title)] ++
      (match input.placement with
       | some placement => [("block_info".toList, placement.toJson)]
       | none => []) ++
      numberField "binding" input.binding ++ numberField "spec_constant_id" input.constantId)

def ManifestEntry.toJson (entry : ManifestEntry) : Json :=
  .obj
    [("mutation".toList, .arr (entry.mutation.map Json.num)),
     ("sources".toList,
       .obj (Stage.byName.filterMap fun stage =>
         (entry.files.lookup stage).map fun file => (stage.name, .str file))),
     ("active_inputs".toList, .arr (entry.inputs.map ManifestInput.toJson)),
     ("uniform_block_size".toList, .num entry.blockSize),
     ("uses_push_constants".toList, .bool entry.usesPushConstants)]

def Manifest.toJson (manifest : Manifest) : Json :=
  .obj
    [("program".toList, .str manifest.program),
     ("mutators".toList, .arr (manifest.mutators.map Json.str)),
     ("variants".toList, .arr (manifest.entries.map ManifestEntry.toJson))]

end ShaderVariants
