import ShaderVariants.Condition.ActiveInputs
import ShaderVariants.Program.Basic
import ShaderVariants.Program.Error

/-!
# Declarations

The directives of a program and what each of them changes.  Every check of a directive comes before
any change, so a directive that fails leaves nothing behind.
-/

namespace ShaderVariants

/-- A stage block that has been opened, and where. -/
structure OpenStage where
  stage : Stage
  file : Text
  line : Nat
  deriving Repr, DecidableEq

/-- What has been declared so far. -/
structure Draft where
  mutators : List Mutator
  /-- The rewrite rules, the last one first. -/
  rewrites : List Rewrite
  inputs : List Input
  stages : StageSet
  openStage : Option OpenStage
  descriptorSet : Option Nat
  instanceMutator : Option Nat
  /-- The id of the next specialization constant. -/
  nextConstant : Nat
  /-- The lines outside of all stage blocks, the last one first. -/
  globals : List Text
  /-- The lines of each stage block, the last one first. -/
  stageCode : PerStage (List Text)
  /-- The lines that declare the members of the uniform block. -/
  members : List Text
  /-- The files that must not be read again. -/
  once : List Text
  deriving Repr, DecidableEq

namespace Draft

def empty : Draft :=
  ⟨[], [], [], .empty, none, none, none, 0, [], .const [], [], []⟩

/-! ## 1. Code -/

/-- Adds a line of code to the open stage block, or to the globals outside of all blocks. -/
def pushCode (draft : Draft) (line : Text) : Draft :=
  match draft.openStage with
  | some block =>
    { draft with stageCode := draft.stageCode.modify block.stage (line :: ·) }
  | none => { draft with globals := line :: draft.globals }

/-- Bars a file from being read again. -/
def markOnce (draft : Draft) (file : Text) : Draft :=
  { draft with once := file :: draft.once }

def instanceCounter? (draft : Draft) : Option Mutator :=
  draft.instanceMutator.bind fun index => draft.mutators[index]?

/-! ## 2. Mutators -/

/-- Reads an integer of 32 bits. -/
def readValue (token : Text) : Option Int :=
  (Numeral.readInt 10 32 token).toOption

/-- Reads values; fails with the first token that is none. -/
def readValues : List Text → Except Text (List Int)
  | [] => .ok []
  | token :: rest =>
    match readValue token with
    | none => .error token
    | some value => (readValues rest).map (value :: ·)

/-- Whether every value is larger than the one before it. -/
def increasing : List Int → Bool
  | a :: b :: rest => decide (a < b) && increasing (b :: rest)
  | _ => true

def checkValues (counts : Bool) (tokens : List Text) : Except ValuesFault (List Int) :=
  if tokens.isEmpty then .error .missing
  else
    match readValues tokens with
    | .error token => .error (.notAnInteger token)
    | .ok values =>
      if !increasing values then .error .notIncreasing
      else if counts && values.any (· < 1) then .error .instanceCountBelowOne
      else .ok values

/-- Adds a mutator; `counts` says whether it is to count instances. -/
def addMutator (draft : Draft) (counts : Bool) (name : Text) (values : List Int) : Draft :=
  { draft with
    mutators := draft.mutators ++ [⟨name, values, counts⟩]
    instanceMutator := if counts then some draft.mutators.length else draft.instanceMutator }

/-- Declares a mutator by its name and the tokens of its values. -/
def declareMutator (draft : Draft) (counts : Bool) (name : Text) (tokens : List Text) :
    Except Cause Draft :=
  if !Text.isIdentifier name then .error (.malformedPragma (.notAnIdentifier name))
  else if draft.mutators.any fun mutator => mutator.name == name then
    .error (.duplicateMutator name)
  else
    match checkValues counts tokens with
    | .error fault => .error (.invalidValues name fault)
    | .ok values =>
      match if counts then draft.instanceCounter? else none with
      | some previous => .error (.duplicateInstanceCount name previous.name)
      | none => .ok (draft.addMutator counts name values)

/-- The directive `mutator [instanced] NAME VALUE0 [VALUE1 ...]`. -/
def readMutator (draft : Draft) (tokens : List Text) : Except Cause Draft :=
  let counts := tokens.head? == some "instanced".toList
  match if counts then tokens.drop 1 else tokens with
  | [] => .error (.malformedPragma .mutatorForm)
  | name :: values => draft.declareMutator counts name values

/-! ## 3. Rewrite rules -/

/-- A mutator, by its place, and a value of it. -/
abbrev Assignment := Nat × Int

/-- Reads one pair of a side of a rule, after the assignments before it. -/
def readPair (mutators : List Mutator) (side : List Assignment) (name value : Text) :
    Except RewriteFault Assignment :=
  match mutators.findIdx? fun mutator => mutator.name == name with
  | none => .error (.unknownMutator name)
  | some index =>
    match readValue value with
    | none => .error (.notAnInteger value)
    | some number =>
      if !mutators[index]?.any fun mutator => mutator.hasValue number then
        .error (.undeclaredValue number name)
      else if side.any fun assignment => assignment.1 == index then
        .error (.repeatedMutator name)
      else .ok (index, number)

/-- Reads pairs of names and values, after the assignments before them. -/
def readPairs (mutators : List Mutator) (side : List Assignment) :
    List Text → Except RewriteFault (List Assignment)
  | name :: value :: rest =>
    match readPair mutators side name value with
    | .error fault => .error fault
    | .ok assignment => readPairs mutators (side ++ [assignment]) rest
  | _ => .ok side

/-- Puts an assignment in front of the first one whose mutator is not declared before its own. -/
def insertInOrder (assignment : Assignment) : List Assignment → List Assignment
  | [] => [assignment]
  | other :: rest =>
    if assignment.1 ≤ other.1 then assignment :: other :: rest
    else other :: insertInOrder assignment rest

def inOrder (side : List Assignment) : List Assignment :=
  side.foldr insertInOrder []

/-- Reads a side of a rule; its assignments are put in the order of the mutators. -/
def readSide (mutators : List Mutator) (tokens : List Text) :
    Except RewriteFault (List Assignment) :=
  if tokens.length % 2 ≠ 0 then .error .unpaired
  else (readPairs mutators [] tokens).map inOrder

/-- The two sides of the only `to` among the tokens. -/
def sides? (tokens : List Text) : Option (List Text × List Text) :=
  match tokens.dropWhile (· != "to".toList) with
  | [] => none
  | _ :: right =>
    if right.contains "to".toList then none
    else some (tokens.takeWhile (· != "to".toList), right)

def joinSides (left right : List Assignment) : Except RewriteFault Rewrite :=
  if left.isEmpty then .error .empty
  else if left.map Prod.fst ≠ right.map Prod.fst then .error .differentMutators
  else
    let records := List.zipWith (fun a b => ⟨a.1, a.2, b.2⟩) left right
    if records.all fun record => record.source == record.target then .error .noChange
    else .ok ⟨records⟩

def readRule (mutators : List Mutator) (tokens : List Text) : Except RewriteFault Rewrite :=
  match sides? tokens with
  | none => .error .form
  | some (left, right) =>
    match readSide mutators left with
    | .error fault => .error fault
    | .ok sources =>
      match readSide mutators right with
      | .error fault => .error fault
      | .ok targets => joinSides sources targets

/-- The directive `rewrite_mutation NAME VALUE ... to NAME VALUE ...`. -/
def readRewrite (draft : Draft) (tokens : List Text) : Except Cause Draft :=
  match readRule draft.mutators tokens with
  | .error fault => .error (.malformedRewrite fault)
  | .ok rule => .ok { draft with rewrites := rule :: draft.rewrites }

/-! ## 4. Inputs -/

/-- Reads the qualifiers in front of an input's type, given those seen before them. -/
def readQualifiers (constant instanced : Bool) :
    List Text → Except Cause (Bool × Bool × List Text)
  | [] => .ok (constant, instanced, [])
  | token :: rest =>
    if token = "const".toList then
      if constant then .error (.malformedPragma (.repeatedQualifier token))
      else readQualifiers true instanced rest
    else if token = "instanced".toList then
      if instanced then .error (.malformedPragma (.repeatedQualifier token))
      else readQualifiers constant true rest
    else .ok (constant, instanced, token :: rest)

/-- The contradiction among the qualifiers of an input and its type, if there is one. -/
def conflict? (draft : Draft) (constant instanced : Bool) (type : DataType) :
    Option QualifierConflict :=
  if constant && instanced then some .constantInstanced
  else if instanced && type.isResource then some .instancedResource
  else if constant && (type.isResource || type.isMatrix) then some .constantNotVector
  else if instanced && draft.instanceCounter?.isNone then some .noInstanceCount
  else none

/-- The macro that holds the binding of a texture or sampler starts with this. -/
def bindingMark : Text := "_ANKI_BINDING_".toList

/-- The macro that a source defines for an active input starts with this. -/
def activationMark : Text := "_ANKI_ACTIVATE_INPUT_".toList

def descriptorSetMacro : Text := "_ANKI_DESCRIPTOR_SET".toList

def blockInstance : Text := "_anki_unis".toList

def siteLine (input : Input) : Text :=
  "#define ".toList ++ Condition.siteMark ++ input.name

def declarationLine (input : Input) : Text :=
  match input.constantId with
  | some id =>
    "ANKI_SPECIALIZATION_CONSTANT_".toList ++ input.type.constantSuffix ++ '(' :: input.name ++
      ", ".toList ++ Numeral.ofNat id ++ ");".toList
  | none =>
    if input.type.isResource then
      "layout(set = ".toList ++ descriptorSetMacro ++ ", binding = ".toList ++ bindingMark ++
        input.name ++ ") uniform ".toList ++ input.type.spelling ++ ' ' :: input.name ++ [';']
    else
      "#define ".toList ++ input.name ++ ' ' :: blockInstance ++ "._m_".toList ++ input.name

/-- How many elements an input has as a member of the uniform block, as its declaration says: an
instanced input has as many as the counter says. -/
def extent (counter : Option Mutator) (input : Input) : Text :=
  match counter with
  | some mutator => if input.instanced then '[' :: mutator.name ++ [']'] else []
  | none => []

/-- The lines that declare an input as a member of the uniform block, guarded by the macro that
activates it. -/
def memberLines (counter : Option Mutator) (input : Input) : List Text :=
  ["#if defined(".toList ++ activationMark ++ input.name ++ [')'],
   '\t' :: input.type.spelling ++ " _m_".toList ++ input.name ++ extent counter input ++ [';'],
   "#endif".toList]

def newInput (draft : Draft) (constant instanced : Bool) (type : DataType) (name : Text) : Input :=
  ⟨name, draft.inputs.length, type, instanced,
    if constant then some draft.nextConstant else none, none⟩

/-- Adds an input and the lines that stand for its declaration. -/
def addInput (draft : Draft) (constant instanced : Bool) (type : DataType) (name : Text) : Draft :=
  let input := draft.newInput constant instanced type name
  let declared :=
    { draft with
      inputs := draft.inputs ++ [input]
      nextConstant :=
        if constant then draft.nextConstant + type.componentCount else draft.nextConstant
      members :=
        if input.inBlock then draft.members ++ memberLines draft.instanceCounter? input
        else draft.members }
  (declared.pushCode (siteLine input)).pushCode (declarationLine input)

/-- Declares an input by the names of its type and itself. -/
def declareInput (draft : Draft) (constant instanced : Bool) (typeName name : Text) :
    Except Cause Draft :=
  if !Text.isIdentifier name then .error (.malformedPragma (.notAnIdentifier name))
  else if draft.inputs.any fun input => input.name == name then .error (.duplicateInput name)
  else
    match DataType.ofName? typeName with
    | none => .error (.unknownType typeName)
    | some type =>
      match draft.conflict? constant instanced type with
      | some conflict => .error (.conflictingQualifiers name conflict)
      | none =>
        if inputCapacity ≤ draft.inputs.length then .error .tooManyInputs
        else .ok (draft.addInput constant instanced type name)

/-- The directive `input [const | instanced] TYPE NAME`. -/
def readInput (draft : Draft) (tokens : List Text) : Except Cause Draft :=
  match readQualifiers false false tokens with
  | .error cause => .error cause
  | .ok (constant, instanced, [typeName, name]) =>
    draft.declareInput constant instanced typeName name
  | .ok _ => .error (.malformedPragma .inputForm)

/-! ## 5. Stage blocks -/

def startFault? (draft : Draft) (stage : Stage) : Option NestingFault :=
  match draft.openStage with
  | some block => some (.startInside stage.name block.stage.name)
  | none =>
    if draft.stages.mem stage then some (.declaredTwice stage.name)
    else if (stage == .compute && !draft.stages.isEmpty) ||
        (stage != .compute && draft.stages.mem .compute) then
      some .computeWithGraphics
    else none

/-- The directive `start STAGE`, at a line of a file. -/
def readStart (draft : Draft) (file : Text) (line : Nat) : List Text → Except Cause Draft
  | [name] =>
    match Stage.ofName? name with
    | none => .error (.malformedPragma (.unknownStage name))
    | some stage =>
      match draft.startFault? stage with
      | some fault => .error (.stageNesting fault)
      | none =>
        .ok { draft with
          stages := draft.stages.insert stage
          openStage := some ⟨stage, file, line⟩ }
  | _ => .error (.malformedPragma .startForm)

/-- The directive `end`. -/
def readEnd (draft : Draft) (tokens : List Text) : Except Cause Draft :=
  if !tokens.isEmpty then .error (.malformedPragma .endForm)
  else if draft.openStage.isNone then .error (.stageNesting .endWithoutStart)
  else .ok { draft with openStage := none }

/-! ## 6. The descriptor set -/

/-- The number that `descriptor_set` is followed by. -/
def readSet? : List Text → Option Nat
  | [token] => (Numeral.readNat 10 32 token).toOption
  | _ => none

/-- The directive `descriptor_set N`. -/
def readDescriptorSet (draft : Draft) (tokens : List Text) : Except Cause Draft :=
  match readSet? tokens with
  | none => .error (.malformedPragma .descriptorSetForm)
  | some set =>
    match draft.descriptorSet with
    | some previous =>
      if previous ≠ set then .error (.descriptorSetRedeclared previous set) else .ok draft
    | none => .ok { draft with descriptorSet := some set }

/-! ## 7. All directives -/

/-- Follows a directive, by its tokens, at a line of a file. -/
def follow (draft : Draft) (file : Text) (line : Nat) : List Text → Except Cause Draft
  | [] => .error (.malformedPragma .noDirective)
  | word :: tokens =>
    if word = "mutator".toList then draft.readMutator tokens
    else if word = "rewrite_mutation".toList then draft.readRewrite tokens
    else if word = "input".toList then draft.readInput tokens
    else if word = "start".toList then draft.readStart file line tokens
    else if word = "end".toList then draft.readEnd tokens
    else if word = "descriptor_set".toList then draft.readDescriptorSet tokens
    else .error (.malformedPragma (.unknownDirective word))

end Draft

end ShaderVariants
