import ShaderVariants.Program.Canonical

/-!
# Selections

Texts `NAME=VALUE` select values of mutators, and selections of all mutators make up a mutation.
Main fact: a written selection is read back, if its name holds neither blanks nor an equals sign.
-/

namespace ShaderVariants

/-! ## 1. One mutator -/

/-- A value selected for the mutator of the given name. -/
structure Selection where
  mutator : Text
  value : Int
  deriving Repr, DecidableEq

namespace Selection

/-- Why a text is no selection. -/
inductive Fault where
  | form (text : Text)
  | value (mutator : Text) (fault : Numeral.Fault)
  deriving Repr, DecidableEq

def Fault.message : Fault → String
  | .form text => s!"expected `NAME=VALUE`, found `{String.ofList text}`"
  | .value mutator fault => s!"invalid value for `{String.ofList mutator}`: {fault.message}"

/-- Reads a text `NAME=VALUE`. -/
def ofText (t : Text) : Except Fault Selection :=
  match Text.cutAt? '=' t with
  | none => .error (.form t)
  | some (name, value) =>
    match Numeral.readInt 10 32 (Text.trim value) with
    | .error fault => .error (.value name fault)
    | .ok value => .ok ⟨Text.trim name, value⟩

def toText (selection : Selection) : Text :=
  selection.mutator ++ '=' :: Numeral.ofInt selection.value

theorem ofText_toText {selection : Selection} (hname : '=' ∉ selection.mutator)
    (hblank : ∀ c ∈ selection.mutator, Text.isBlank c = false)
    (hlow : -2147483648 ≤ selection.value) (hhigh : selection.value < 2147483648) :
    ofText selection.toText = .ok selection := by
  rw [ofText, toText, Text.cutAt?_append hname]
  simp only
  rw [Text.trim_eq_self fun c => Numeral.isBlank_of_mem_ofInt,
    Numeral.readInt_ofInt hlow hhigh, Text.trim_eq_self hblank]

end Selection

/-! ## 2. All mutators -/

/-- Why selections do not make up a mutation. -/
inductive SelectionFault where
  | unknownMutator (file name : Text)
  | missing (mutator : Text)
  | misfit (fault : Mutation.Misfit)
  deriving Repr, DecidableEq

/-- What is said about selections that do not make up a mutation. -/
def SelectionFault.message : SelectionFault → String
  | .unknownMutator file name =>
    s!"`{String.ofList file}` declares no mutator `{String.ofList name}`"
  | .missing mutator => s!"missing `--mutation {String.ofList mutator}=VALUE`"
  | .misfit fault => fault.message

/-- The value that was selected last for a mutator. -/
def lastSelected? (selections : List Selection) (mutator : Mutator) : Option Int :=
  (selections.reverse.find? fun selection => selection.mutator == mutator.name).map
    Selection.value

/-- The last values selected for the given mutators; fails with the first one without any. -/
def selectedValues (selections : List Selection) :
    List Mutator → Except SelectionFault Mutation
  | [] => .ok []
  | mutator :: rest =>
    match lastSelected? selections mutator with
    | none => .error (.missing mutator.name)
    | some value => (selectedValues selections rest).map (value :: ·)

namespace Program

def selectedMutation (program : Program) (selections : List Selection) :
    Except SelectionFault Mutation :=
  match selections.find? fun selection => (program.mutator? selection.mutator).isNone with
  | some selection => .error (.unknownMutator program.fileName selection.mutator)
  | none =>
    match selectedValues selections program.mutators with
    | .error fault => .error fault
    | .ok mutation =>
      match program.validate mutation with
      | .error misfit => .error (.misfit misfit)
      | .ok () => .ok mutation

end Program

end ShaderVariants
