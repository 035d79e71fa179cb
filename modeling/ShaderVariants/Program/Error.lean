import ShaderVariants.InputSet
import ShaderVariants.Text.Numeral

/-!
# Faults of program files

Everything that can be wrong with a program file, by cause, and what is said about it.  A fault
that stops the reading of a program also has a place: a file and a line of it.
-/

namespace ShaderVariants

/-- How deep includes may nest below the root file. -/
def maxIncludeDepth : Nat := 8

/-! ## 1. Causes -/

/-- What is wrong with the values of a mutator. -/
inductive ValuesFault where
  | missing
  | notAnInteger (token : Text)
  | notIncreasing
  | instanceCountBelowOne
  deriving Repr, DecidableEq

/-- Which qualifiers of an input contradict each other or its type. -/
inductive QualifierConflict where
  | constantInstanced
  | instancedResource
  | constantNotVector
  | noInstanceCount
  deriving Repr, DecidableEq

/-- What is wrong with the opening or closing of a stage block. -/
inductive NestingFault where
  | startInside (inner outer : Text)
  | declaredTwice (stage : Text)
  | computeWithGraphics
  | endWithoutStart
  | neverClosed (stage : Text)
  deriving Repr, DecidableEq

/-- What is wrong with a rewrite rule. -/
inductive RewriteFault where
  | form
  | unpaired
  | unknownMutator (name : Text)
  | notAnInteger (token : Text)
  | undeclaredValue (value : Int) (name : Text)
  | repeatedMutator (name : Text)
  | empty
  | differentMutators
  | noChange
  deriving Repr, DecidableEq

/-- What is wrong with the tokens of a directive. -/
inductive FormFault where
  | includeForm
  | includeName (token : Text)
  | onceArguments
  | noDirective
  | unknownDirective (name : Text)
  | mutatorForm
  | inputForm
  | startForm
  | endForm
  | descriptorSetForm
  | notAnIdentifier (token : Text)
  | repeatedQualifier (token : Text)
  | unknownStage (name : Text)
  deriving Repr, DecidableEq

/-- Why a program file cannot be read. -/
inductive Cause where
  | unreadable (name : Text) (reason : Text)
  | tooDeep (name : Text)
  | duplicateOnce
  | duplicateMutator (name : Text)
  | invalidValues (name : Text) (fault : ValuesFault)
  | duplicateInstanceCount (name previous : Text)
  | duplicateInput (name : Text)
  | conflictingQualifiers (name : Text) (conflict : QualifierConflict)
  | unknownType (name : Text)
  | tooManyInputs
  | stageNesting (fault : NestingFault)
  | descriptorSetRedeclared (previous new : Nat)
  | malformedRewrite (fault : RewriteFault)
  | malformedPragma (fault : FormFault)
  | noStages
  deriving Repr, DecidableEq

/-! ## 2. Messages -/

def ValuesFault.message : ValuesFault → String
  | .missing => "at least one value is required"
  | .notAnInteger token => s!"`{String.ofList token}` is not an integer"
  | .notIncreasing => "values must be strictly increasing"
  | .instanceCountBelowOne => "instance counts must be at least 1"

def QualifierConflict.message : QualifierConflict → String
  | .constantInstanced => "`const` and `instanced` can not be combined"
  | .instancedResource => "textures and samplers can not be `instanced`"
  | .constantNotVector => "only scalars and vectors can be `const`"
  | .noInstanceCount => "`instanced` needs a previously declared `instanced` mutator"

def NestingFault.message : NestingFault → String
  | .startInside inner outer =>
    s!"`#pragma anki start {String.ofList inner}` inside the `{String.ofList outer}` stage, " ++
      "missing `#pragma anki end`"
  | .declaredTwice stage => s!"stage `{String.ofList stage}` is declared more than once"
  | .computeWithGraphics => "the compute stage can not be combined with graphics stages"
  | .endWithoutStart => "`#pragma anki end` without `#pragma anki start`"
  | .neverClosed stage =>
    s!"stage `{String.ofList stage}` is never closed with `#pragma anki end`"

def RewriteFault.message : RewriteFault → String
  | .form => "expected `NAME VALUE ... to NAME VALUE ...`"
  | .unpaired => "expected `NAME VALUE` pairs"
  | .unknownMutator name => s!"unknown mutator `{String.ofList name}`"
  | .notAnInteger token => s!"`{String.ofList token}` is not an integer"
  | .undeclaredValue value name =>
    s!"{String.ofList (Numeral.ofInt value)} is not a value of mutator `{String.ofList name}`"
  | .repeatedMutator name => s!"mutator `{String.ofList name}` appears twice on one side"
  | .empty => "a rule needs at least one mutator"
  | .differentMutators => "both sides must name the same mutators"
  | .noChange => "the rule does not change any value"

def FormFault.message : FormFault → String
  | .includeForm => "expected `#include \"name\"` or `#include <name>`"
  | .includeName token => s!"invalid include file name {String.ofList token}"
  | .onceArguments => "`#pragma once` takes no arguments"
  | .noDirective => "missing directive after `#pragma anki`"
  | .unknownDirective name => s!"unknown directive `#pragma anki {String.ofList name}`"
  | .mutatorForm => "expected `#pragma anki mutator [instanced] NAME VALUE0 [VALUE1 ...]`"
  | .inputForm => "expected `#pragma anki input [const | instanced] TYPE NAME`"
  | .startForm => "expected `#pragma anki start \x7bvert|tessc|tesse|geom|frag|comp\x7d`"
  | .endForm => "`#pragma anki end` takes no arguments"
  | .descriptorSetForm =>
    "expected `#pragma anki descriptor_set N` with N a non-negative integer"
  | .notAnIdentifier token => s!"`{String.ofList token}` is not a valid identifier"
  | .repeatedQualifier token => s!"`{String.ofList token}` is repeated"
  | .unknownStage name => s!"unknown shader stage `{String.ofList name}`"

def Cause.message : Cause → String
  | .unreadable name reason =>
    s!"could not read `{String.ofList name}`: {String.ofList reason}"
  | .tooDeep name =>
    s!"including `{String.ofList name}` exceeds the maximum include depth of {maxIncludeDepth}"
  | .duplicateOnce => "`#pragma once` can only appear once per file"
  | .duplicateMutator name => s!"mutator `{String.ofList name}` is already declared"
  | .invalidValues name fault =>
    s!"invalid values for mutator `{String.ofList name}`: {fault.message}"
  | .duplicateInstanceCount name previous =>
    s!"mutator `{String.ofList name}` is `instanced` but `{String.ofList previous}` " ++
      "already drives the instance count"
  | .duplicateInput name => s!"input `{String.ofList name}` is already declared"
  | .conflictingQualifiers name conflict =>
    s!"input `{String.ofList name}`: {conflict.message}"
  | .unknownType name => s!"unknown input type `{String.ofList name}`"
  | .tooManyInputs => s!"a shader program can not declare more than {inputCapacity} inputs"
  | .stageNesting fault => fault.message
  | .descriptorSetRedeclared previous new =>
    s!"descriptor set already declared as {previous}, can not redeclare it as {new}"
  | .malformedRewrite fault => s!"malformed mutation rewrite: {fault.message}"
  | .malformedPragma fault => s!"malformed pragma: {fault.message}"
  | .noStages => "no shader stage found, expected at least one `#pragma anki start`"

/-! ## 3. Located faults -/

/-- A cause and where it was found.  Lines count from one; a root file that cannot be read at all
has its fault in line zero. -/
structure ParseError where
  file : Text
  line : Nat
  cause : Cause
  deriving Repr, DecidableEq

def ParseError.message (error : ParseError) : String :=
  s!"{String.ofList error.file}:{error.line}: {error.cause.message}"

end ShaderVariants
