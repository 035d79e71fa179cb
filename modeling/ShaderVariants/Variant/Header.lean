import ShaderVariants.Program.Declaration

/-!
# Generated lines

The lines that a source gets besides those of its program: the header, which fixes the backend, the
stage and the mutation and defines the numeric types; the lines that activate inputs; and the
declaration of the uniform block.
-/

namespace ShaderVariants

namespace Header

def defineLine (name value : Text) : Text :=
  "#define ".toList ++ name ++ ' ' :: value

/-! ## 1. Specialization constants -/

/-- The parts that declare the components of a vector constant, each with the next id. -/
def componentParts (scalar : Scalar) (count : Nat) : Text :=
  (List.range count).flatMap fun component =>
    "layout(constant_id = id_".toList ++
      (if component = 0 then [] else " + ".toList ++ Numeral.ofNat component) ++
      ") const ".toList ++ scalar.spelling ++ " n_##_".toList ++ Numeral.ofNat component ++
      " = ".toList ++ scalar.zero ++ "; ".toList

def componentNames (count : Nat) : Text :=
  List.intercalate ", ".toList
    ((List.range count).map fun component => "n_##_".toList ++ Numeral.ofNat component)

/-- What the macro that declares a constant of the given type stands for. -/
def constantBody (type : DataType) (scalar : Scalar) : Text :=
  if type.componentCount = 1 then
    "layout(constant_id = id_) const ".toList ++ scalar.spelling ++ " n_ = ".toList ++ scalar.zero
  else
    componentParts scalar type.componentCount ++ "const ".toList ++ type.spelling ++
      " n_ = ".toList ++ type.spelling ++ '(' :: componentNames type.componentCount ++ [')']

/-- The line that defines the macro declaring constants of a type, for types that have them. -/
def constantLine? (type : DataType) : Option Text :=
  if type.isMatrix then none
  else
    type.scalar?.map fun scalar =>
      defineLine
        ("ANKI_SPECIALIZATION_CONSTANT_".toList ++ type.constantSuffix ++ "(n_, id_)".toList)
        (constantBody type scalar)

/-! ## 2. The header -/

/-- The lines that do not depend on the mutation nor the stage. -/
def typeLines : List Text :=
  (DataType.numeric.map fun type => defineLine type.title type.spelling) ++
    DataType.numeric.filterMap constantLine?

def mutatorLines (mutators : List Mutator) (mutation : Mutation) : List Text :=
  List.zipWith (fun mutator value => defineLine mutator.name (Numeral.ofInt value)) mutators
    mutation

/-- The lines that rename what the vertex stage knows by other names. -/
def stageLines (stage : Stage) : List Text :=
  if stage = .vertex then
    ["#define gl_VertexID gl_VertexIndex".toList,
     "#define gl_InstanceID gl_InstanceIndex".toList]
  else []

/-- The lines that the source of a stage starts with. -/
def lines (program : Program) (mutation : Mutation) (stage : Stage) : List Text :=
  ["#version 450 core".toList,
   defineLine "ANKI_BACKEND_MINOR".toList (Numeral.ofNat program.settings.backendMinor),
   defineLine "ANKI_BACKEND_MAJOR".toList (Numeral.ofNat program.settings.backendMajor),
   defineLine program.settings.vendor.define ['1'],
   defineLine stage.define ['1'],
   defineLine Draft.descriptorSetMacro (Numeral.ofNat program.descriptorSet)] ++
    mutatorLines program.mutators mutation ++ typeLines ++ stageLines stage

end Header

/-! ## 3. Active inputs -/

/-- The lines that activate an input and give its binding, if it has one. -/
def activationLines (input : Input) : List Text :=
  Header.defineLine (Draft.activationMark ++ input.name) ['1'] ::
    match input.binding with
    | some binding =>
      [Header.defineLine (Draft.bindingMark ++ input.name) (Numeral.ofNat binding)]
    | none => []

def activations (program : Program) (active : InputSet) : List Text :=
  (program.inputs.filter fun input => active.mem input.index).flatMap activationLines

def blockQualifiers (packing : Packing) (pushConstants : Bool) : Text :=
  if pushConstants then "push_constant, ".toList ++ packing.qualifier
  else
    "set = ".toList ++ Draft.descriptorSetMacro ++ ", binding = 0, ".toList ++ packing.qualifier

/-- The lines that declare the uniform block. -/
def blockDeclaration (program : Program) (pushConstants : Bool) : List Text :=
  ["layout(".toList ++ blockQualifiers program.settings.packing pushConstants ++
      ") uniform _anki_uniforms_".toList,
   ['\x7b']] ++
    program.members ++ ['\x7d' :: ' ' :: Draft.blockInstance ++ [';']]

end ShaderVariants
