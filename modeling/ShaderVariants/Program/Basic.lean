import ShaderVariants.Input
import ShaderVariants.Rewrite
import ShaderVariants.Settings
import ShaderVariants.Stage
import ShaderVariants.Text.Lines
import ShaderVariants.Text.Word

/-!
# Programs

What is known of a program once its file and everything it includes have been read: its mutators,
rewrite rules and inputs, its stages, its lines of code and the members of its uniform block.
-/

namespace ShaderVariants

/-- A shader program. -/
structure Program where
  /-- The name of the root file. -/
  fileName : Text
  settings : Settings
  mutators : List Mutator
  rewrites : List Rewrite
  inputs : List Input
  stages : StageSet
  descriptorSet : Nat
  /-- The mutator that counts instances, by its place among the mutators. -/
  instanceMutator : Option Nat
  /-- The lines outside of all stage blocks. -/
  globals : List Text
  /-- The lines of each stage block. -/
  stageCode : PerStage (List Text)
  /-- The lines that declare the members of the uniform block, each member guarded by the macro
  that activates it. -/
  members : List Text
  deriving Repr, DecidableEq

namespace Program

/-! ## 1. Looking up -/

def mutator? (program : Program) (name : Text) : Option Mutator :=
  program.mutators.find? fun mutator => mutator.name == name

def input? (program : Program) (name : Text) : Option Input :=
  program.inputs.find? fun input => input.name == name

def instanceCounter? (program : Program) : Option Mutator :=
  program.instanceMutator.bind fun index => program.mutators[index]?

/-! ## 2. Mutators that no code refers to -/

/-- The code that may refer to a mutator, as separate texts. -/
def codeTexts (program : Program) : List Text :=
  Text.unlines program.globals :: Text.unlines program.members ::
    Stage.all.map fun stage => Text.unlines (program.stageCode.get stage)

/-- The mutators whose values only multiply the variants, because no code refers to them. -/
def unreferenced (program : Program) : List Mutator :=
  let texts := program.codeTexts
  program.mutators.filter fun mutator =>
    !texts.any fun text => Text.containsWord text mutator.name

/-- What is said about the mutators that no code refers to. -/
def warnings (program : Program) : List String :=
  program.unreferenced.map fun mutator =>
    s!"{String.ofList program.fileName}: mutator `{String.ofList mutator.name}` is never " ++
      "referenced, its values only multiply the variants"

/-! ## 3. Mutations -/

def mutations (program : Program) : List Mutation :=
  Mutation.all program.mutators

/-- Checks that a mutation has one declared value for each mutator. -/
def validate (program : Program) (mutation : Mutation) : Except Mutation.Misfit Unit :=
  Mutation.validate program.mutators mutation

/-- Rewrites a mutation until no rule matches. -/
def canonicalize (program : Program) (mutation : Mutation) :
    Except Rewrite.Cycle (Nat × Mutation) :=
  Rewrite.canonicalize program.rewrites mutation

end Program

end ShaderVariants
