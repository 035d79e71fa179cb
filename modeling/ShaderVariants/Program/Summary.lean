import ShaderVariants.Program.Canonical

/-!
# Summaries

A readable summary of what a program declares and of how many variants its mutations fold down to.
-/

namespace ShaderVariants.Program

def mutatorSummary (counter : Option Mutator) (mutator : Mutator) : Text :=
  "    ".toList ++ mutator.name ++ " = \x7b".toList ++
    List.intercalate ", ".toList (mutator.values.map Numeral.ofInt) ++ ['\x7d'] ++
    if counter.any fun other => other.name == mutator.name then " (instance count)".toList else []

def inputSummary (input : Input) : Text :=
  "    ".toList ++ input.inputClass.word ++ ' ' :: input.type.title ++ ' ' :: input.name ++
    (if input.instanced then " (instanced)".toList else []) ++
    (match input.constantId with
     | some id => " constant_id = ".toList ++ Numeral.ofNat id
     | none => []) ++
    (match input.binding with
     | some binding => " binding = ".toList ++ Numeral.ofNat binding
     | none => [])

def declarationSummary (program : Program) : List Text :=
  [program.fileName,
   "  stages: ".toList ++ List.intercalate [' '] (program.stages.toList.map Stage.name),
   "  descriptor set: ".toList ++ Numeral.ofNat program.descriptorSet,
   "  mutators:".toList] ++
    program.mutators.map (mutatorSummary program.instanceCounter?) ++
    ["  rewrite rules: ".toList ++ Numeral.ofNat program.rewrites.length,
     "  inputs:".toList] ++
    program.inputs.map inputSummary

/-- Counts the canonical forms of the given mutations, together with those found before; fails with
the first mutation that has none. -/
def countForms (program : Program) (found : Std.HashSet Mutation) :
    List Mutation → Except Rewrite.Cycle Nat
  | [] => .ok found.size
  | mutation :: rest =>
    match program.canonicalize mutation with
    | .error cycle => .error cycle
    | .ok (_, form) => program.countForms (found.insert form) rest

/-- The line that counts the mutations and their canonical forms. -/
def mutationSummary (program : Program) (variants : Nat) : Text :=
  "  mutations: ".toList ++ Numeral.ofNat (Mutation.reportedCount program.mutators) ++
    " (".toList ++ Numeral.ofNat variants ++ " distinct variants)".toList

/-- The summary of a program; there is none if rewriting some mutation does not end. -/
def summary (program : Program) : Except Rewrite.Cycle Text :=
  (program.countForms ∅ program.mutations).map fun variants =>
    Text.unlines (program.declarationSummary ++ [program.mutationSummary variants])

end ShaderVariants.Program
