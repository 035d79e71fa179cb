import ShaderVariants.Variant.Header

/-!
# Variants

What a program becomes under one mutation: the source of each stage, the inputs that are active in
any of them, the layout of the uniform block, and where the block lives.  The active inputs are
found in the sources as they are before anything about the inputs is generated.
-/

namespace ShaderVariants

/-! ## 1. Faults -/

/-- Why a mutation has no variant. -/
inductive VariantError where
  | invalidMutation (misfit : Mutation.Misfit)
  | unsupportedConditional (stage : Stage) (obstacle : Condition.Obstacle)
  | pushConstantsOverflow (size budget : Nat)
  | blockTooLarge (input : Text)
  deriving Repr, DecidableEq

def VariantError.message : VariantError → String
  | .invalidMutation misfit => s!"invalid mutation: {misfit.message}"
  | .unsupportedConditional stage obstacle =>
    s!"unsupported conditional in {stage.title} source at line {obstacle.line} " ++
      s!"(`{String.ofList obstacle.text}`): {obstacle.reason.message}"
  | .pushConstantsOverflow size budget =>
    s!"uniform block needs {size} bytes but only {budget} bytes of push constants are available"
  | .blockTooLarge input =>
    s!"uniform block does not fit in 4 GiB once `{String.ofList input}` is added"

/-! ## 2. Active inputs -/

/-- The text in which the active inputs of a stage are looked for. -/
def Program.analyzedText (program : Program) (mutation : Mutation) (stage : Stage) : Text :=
  Text.unlines
    (Header.lines program mutation stage ++ program.globals ++ program.stageCode.get stage)

/-- The inputs that are active in any of the given stages, besides those known already. -/
def Program.activeIn (program : Program) (mutation : Mutation) (known : InputSet) :
    List Stage → Except VariantError InputSet
  | [] => .ok known
  | stage :: rest =>
    match Condition.activeInputs (program.analyzedText mutation stage) program.inputs with
    | .error obstacle => .error (.unsupportedConditional stage obstacle)
    | .ok found => program.activeIn mutation (known.union found) rest

/-! ## 3. The uniform block -/

/-- How many elements an instanced input has under a mutation. -/
def Program.instanceCount? (program : Program) (mutation : Mutation) : Option Nat :=
  (program.instanceMutator.bind fun index => mutation[index]?).bind fun value =>
    if 0 ≤ value then some value.toNat else none

/-- Places the active members of a block in order, after those placed already; returns the block
and the place of each input.  Fails with the name of the first input that does not fit. -/
def placeInputs (active : InputSet) (count : Option Nat) (block : Block) :
    List Input → Except Text (Block × List (Option Placement))
  | [] => .ok (block, [])
  | input :: rest =>
    if active.mem input.index && input.inBlock then
      match block.push input.type (if input.instanced then count else none) with
      | none => .error input.name
      | some (placement, next) =>
        match placeInputs active count next rest with
        | .error name => .error name
        | .ok (last, placements) => .ok (last, some placement :: placements)
    else
      match placeInputs active count block rest with
      | .error name => .error name
      | .ok (last, placements) => .ok (last, none :: placements)

/-- Whether a block of the given size lives in push constants; `none` if it has to and does not
fit the budget. -/
def Storage.inPushConstants? (storage : Storage) (budget size : Nat) : Option Bool :=
  match storage with
  | .auto => some (decide (0 < size) && decide (size ≤ budget))
  | .pushConstants => if budget < size then none else some (decide (0 < size))
  | .uniformBuffer => some false

/-! ## 4. Variants -/

/-- A program under one mutation. -/
structure Variant where
  mutation : Mutation
  active : InputSet
  /-- The place of each input in the uniform block, for active members of it. -/
  placements : List (Option Placement)
  /-- The binding of each input, for active textures and samplers. -/
  bindings : List (Option Nat)
  blockSize : Nat
  usesPushConstants : Bool
  /-- The source of each stage, in pipeline order. -/
  sources : List (Stage × Text)
  deriving Repr, DecidableEq

namespace Variant

def uses (variant : Variant) (input : Input) : Bool :=
  variant.active.mem input.index

/-- The place of an input in the uniform block, if it is an active member. -/
def placement? (variant : Variant) (input : Input) : Option Placement :=
  variant.placements[input.index]?.join

/-- The binding of an input, if it is an active texture or sampler. -/
def binding? (variant : Variant) (input : Input) : Option Nat :=
  variant.bindings[input.index]?.join

def source? (variant : Variant) (stage : Stage) : Option Text :=
  variant.sources.lookup stage

end Variant

/-- The lines of a source: the header, what the active inputs need, and the program's own lines. -/
def Program.sourceLines (program : Program) (mutation : Mutation) (active : InputSet)
    (blockSize : Nat) (pushConstants : Bool) (stage : Stage) : List Text :=
  Header.lines program mutation stage ++ activations program active ++
    (if 0 < blockSize then blockDeclaration program pushConstants else []) ++ program.globals ++
    program.stageCode.get stage

/-- The bindings of the active textures and samplers, input by input. -/
def Program.activeBindings (program : Program) (active : InputSet) : List (Option Nat) :=
  program.inputs.map fun input =>
    if active.mem input.index && !input.inBlock then input.binding else none

/-- Puts together the variant whose active inputs and block layout are known. -/
def Program.assemble (program : Program) (mutation : Mutation) (active : InputSet)
    (block : Block) (placements : List (Option Placement)) : Except VariantError Variant :=
  match program.settings.storage.inPushConstants? program.settings.pushConstantsSize
      block.size with
  | none => .error (.pushConstantsOverflow block.size program.settings.pushConstantsSize)
  | some pushConstants =>
    .ok
      { mutation := mutation
        active := active
        placements := placements
        bindings := program.activeBindings active
        blockSize := block.size
        usesPushConstants := pushConstants
        sources := program.stages.toList.map fun stage =>
          (stage,
            Text.unlines
              (program.sourceLines mutation active block.size pushConstants stage)) }

/-- The variant of a program under a mutation, which is used as it is given. -/
def Program.variant (program : Program) (mutation : Mutation) : Except VariantError Variant :=
  match program.validate mutation with
  | .error misfit => .error (.invalidMutation misfit)
  | .ok () =>
    match program.activeIn mutation .empty program.stages.toList with
    | .error e => .error e
    | .ok active =>
      match placeInputs active (program.instanceCount? mutation)
          (.empty program.settings.packing) program.inputs with
      | .error name => .error (.blockTooLarge name)
      | .ok (block, placements) => program.assemble mutation active block placements

end ShaderVariants
