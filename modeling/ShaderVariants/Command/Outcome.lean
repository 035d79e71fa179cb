import ShaderVariants.Command.Load
import ShaderVariants.Command.Selection
import ShaderVariants.Variant.Basic

/-!
# Outcomes

What a command leaves behind: the disk, what it printed, what it logged, and why it failed, if it
did.
-/

namespace ShaderVariants

/-- Why a command failed. -/
inductive Failure where
  | load (fault : LoadFault)
  | cycle (found : Rewrite.Cycle)
  | selection (fault : SelectionFault)
  | outputDirectory (path : Text) (fault : DiskFault)
  | disk (fault : DiskFault)
  | unwritable (path : Text) (fault : DiskFault)
  | manifestUnwritable (path : Text) (fault : DiskFault)
  | variants (failed total : Nat)
  deriving Repr, DecidableEq

def Failure.message : Failure → String
  | .load fault => fault.message
  | .cycle found => found.message
  | .selection fault => fault.message
  | .outputDirectory path fault =>
    s!"could not create output dir '{String.ofList path}': {fault.message}"
  | .disk fault => fault.message
  | .unwritable path fault => s!"could not write '{String.ofList path}': {fault.message}"
  | .manifestUnwritable path fault =>
    s!"could not write shader manifest file '{String.ofList path}': {fault.message}"
  | .variants failed total => s!"{failed} of {total} variants failed to generate"

/-- A line of the log. -/
inductive LogLine where
  | warning (text : String)
  | error (text : String)
  deriving Repr, DecidableEq

def LogLine.message : LogLine → String
  | .warning text => "WARN: " ++ text
  | .error text => "ERROR: " ++ text

/-- What a command leaves behind. -/
structure Outcome where
  disk : Disk
  output : Text
  log : List LogLine
  failure : Option Failure

def Program.log (program : Program) : List LogLine :=
  program.warnings.map .warning

end ShaderVariants
