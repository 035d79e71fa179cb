import ShaderVariants.Condition.Chain
import ShaderVariants.Input
import ShaderVariants.InputSet
import ShaderVariants.Text.Lines

/-!
# Active inputs

An input is active in a source when conditional compilation keeps the line that marks where it was
declared.  The source is read once: chains are opened and closed as their lines come, symbols are
taken from the definitions outside of all chains, and whether a chain takes its current arm is asked
only at the marks it encloses.
-/

namespace ShaderVariants.Condition

/-- The name that marks the site of an input's declaration starts with this. -/
def siteMark : Text := "_ANKI_INPUT_SITE_".toList

/-- What is known after some lines of a source. -/
structure Scan where
  symbols : Symbols
  /-- The open chains, the innermost first. -/
  chains : List Chain
  active : InputSet

namespace Scan

def start : Scan := ⟨∅, [], .empty⟩

def openChain (scan : Scan) (arm : Arm) : Scan :=
  { scan with chains := .ofArm arm :: scan.chains }

/-- Adds an arm to the innermost chain; `reason` is the fault if there is none. -/
def pushArm (scan : Scan) (arm : Arm) (reason : Reason) : Except Obstacle Scan :=
  match scan.chains with
  | [] => .error ⟨arm.line, arm.text, reason⟩
  | chain :: outer => .ok { scan with chains := chain.push arm :: outer }

/-- Reaches the mark of an input, which is active if all chains around the mark keep it. -/
def reach (scan : Scan) (index : Nat) : Except Obstacle Scan :=
  match Chain.askAll scan.symbols scan.chains with
  | .error obstacle => .error obstacle
  | .ok (kept, chains) =>
    .ok
      { scan with
        chains := chains
        active := if kept then scan.active.insert index else scan.active }

/-- Reaches a definition: the mark of a declared input, or a symbol if no chain is open. -/
def define (inputs : List Input) (scan : Scan) (name : Text) (value : Option Int) :
    Except Obstacle Scan :=
  match Text.strip? siteMark name with
  | some inputName =>
    match inputs.find? fun input => input.name == inputName with
    | some input => scan.reach input.index
    | none => .ok scan
  | none =>
    if scan.chains.isEmpty then .ok { scan with symbols := scan.symbols.insert name value }
    else .ok scan

def step (inputs : List Input) (scan : Scan) (number : Nat) (line : Text) : Except Obstacle Scan :=
  match Directive.ofLine? line with
  | none => .ok scan
  | some (.openChain test) => .ok (scan.openChain ⟨test, number, Text.trim line⟩)
  | some (.elseIf text) =>
    scan.pushArm ⟨.expression text, number, Text.trim line⟩ .elifWithoutIf
  | some .elseArm => scan.pushArm ⟨.otherwise, number, Text.trim line⟩ .elseWithoutIf
  | some .closeChain =>
    match scan.chains with
    | [] => .error ⟨number, Text.trim line, .endifWithoutIf⟩
    | _ :: outer => .ok { scan with chains := outer }
  | some (.define name value) => scan.define inputs name value

def run (inputs : List Input) (scan : Scan) (number : Nat) : List Text → Except Obstacle Scan
  | [] => .ok scan
  | line :: rest =>
    match scan.step inputs number line with
    | .error e => .error e
    | .ok next => run inputs next (number + 1) rest

/-- What was found once the source has ended: every chain has to be closed. -/
def finish (scan : Scan) : Except Obstacle InputSet :=
  match scan.chains with
  | [] => .ok scan.active
  | chain :: _ => .error ⟨chain.opening.line, chain.opening.text, .ifWithoutEndif⟩

end Scan

/-- The inputs whose declaration is kept in a source. -/
@[irreducible] def activeInputs (source : Text) (inputs : List Input) : Except Obstacle InputSet :=
  match Scan.run inputs .start 1 (Text.lines source) with
  | .error e => .error e
  | .ok scan => scan.finish

end ShaderVariants.Condition
