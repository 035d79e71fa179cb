import ShaderVariants.Condition.Parser
import ShaderVariants.Condition.Directive

/-!
# Conditional chains

A chain is an `#if` with the arms after it.  Its current arm, the last one seen, is taken when no
earlier arm was and its own test holds.  A test is decided when it is first asked for and then
remembered, so a chain that nobody asks about may hold any text.  What the innermost of several
chains keeps is asked from the outermost one inwards.
-/

namespace ShaderVariants.Condition

/-! ## 1. Faults -/

/-- Why a conditional line cannot be followed. -/
inductive Reason where
  | expression (error : ExprError)
  | elifWithoutIf
  | elseWithoutIf
  | endifWithoutIf
  | ifWithoutEndif
  deriving Repr, DecidableEq

/-- What is said about a conditional line that cannot be followed. -/
def Reason.message : Reason → String
  | .expression error => error.message
  | .elifWithoutIf => "`#elif` without `#if`"
  | .elseWithoutIf => "`#else` without `#if`"
  | .endifWithoutIf => "`#endif` without `#if`"
  | .ifWithoutEndif => "`#if` without `#endif`"

/-- A conditional line that cannot be followed. -/
structure Obstacle where
  /-- The number of the line, from one. -/
  line : Nat
  /-- The line without the blanks around it. -/
  text : Text
  reason : Reason
  deriving Repr, DecidableEq

def Obstacle.message (obstacle : Obstacle) : String :=
  s!"line {obstacle.line} (`{String.ofList obstacle.text}`): {obstacle.reason.message}"

/-! ## 2. Arms -/

/-- Whether something holds, or what stands in the way of telling. -/
abbrev Verdict := Except Obstacle Bool

/-- An arm of a chain and the line that starts it. -/
structure Arm where
  test : Test
  line : Nat
  text : Text
  deriving Repr, DecidableEq

/-- Whether the arm's own test holds. -/
def Arm.verdict (symbols : Symbols) (arm : Arm) : Verdict :=
  match arm.test with
  | .expression text =>
    match Expr.ofText text with
    | .error e => .error ⟨arm.line, arm.text, .expression e⟩
    | .ok expr =>
      match expr.eval symbols with
      | .error e => .error ⟨arm.line, arm.text, .expression e⟩
      | .ok value => .ok (value != 0)
  | .defined name => .ok (symbols.contains name)
  | .notDefined name => .ok (!symbols.contains name)
  | .otherwise => .ok true

/-! ## 3. Remembered tests -/

/-- An arm and what is remembered of its test. -/
structure Branch where
  arm : Arm
  /-- Whether the test holds, once that was asked. -/
  known : Option Bool
  deriving Repr, DecidableEq

namespace Branch

/-- An arm whose test nobody has asked for. -/
def ofArm (arm : Arm) : Branch := ⟨arm, none⟩

/-- Whether the test of an arm holds, and the arm with that remembered. -/
def ask (symbols : Symbols) (branch : Branch) : Except Obstacle (Bool × Branch) :=
  match branch.known with
  | some holds => .ok (holds, branch)
  | none =>
    match branch.arm.verdict symbols with
    | .error obstacle => .error obstacle
    | .ok holds => .ok (holds, { branch with known := some holds })

/-- Whether the test of any of some arms holds, where the last arm stands first.  The arms are asked
in their own order, and none after one whose test holds. -/
def askAny (symbols : Symbols) : List Branch → Except Obstacle (Bool × List Branch)
  | [] => .ok (false, [])
  | branch :: earlier =>
    match askAny symbols earlier with
    | .error obstacle => .error obstacle
    | .ok (true, asked) => .ok (true, branch :: asked)
    | .ok (false, asked) =>
      match branch.ask symbols with
      | .error obstacle => .error obstacle
      | .ok (holds, branch) => .ok (holds, branch :: asked)

end Branch

/-! ## 4. Chains -/

/-- An open chain. -/
structure Chain where
  /-- The arm that the last line belongs to. -/
  current : Branch
  /-- The arms before it, the last one first. -/
  earlier : List Branch
  deriving Repr, DecidableEq

namespace Chain

def ofArm (arm : Arm) : Chain := ⟨.ofArm arm, []⟩

def push (chain : Chain) (arm : Arm) : Chain := ⟨.ofArm arm, chain.current :: chain.earlier⟩

def opening (chain : Chain) : Arm :=
  (chain.earlier.getLastD chain.current).arm

/-- Whether the current arm is the one that is taken. -/
def ask (symbols : Symbols) (chain : Chain) : Except Obstacle (Bool × Chain) :=
  match Branch.askAny symbols chain.earlier with
  | .error obstacle => .error obstacle
  | .ok (true, earlier) => .ok (false, { chain with earlier := earlier })
  | .ok (false, earlier) =>
    match chain.current.ask symbols with
    | .error obstacle => .error obstacle
    | .ok (taken, current) => .ok (taken, ⟨current, earlier⟩)

/-- Whether the current arms of all chains are taken, where the innermost chain stands first.  The
chains are asked from the outermost one inwards, and none inside of an arm that is not taken. -/
def askAll (symbols : Symbols) : List Chain → Except Obstacle (Bool × List Chain)
  | [] => .ok (true, [])
  | chain :: outer =>
    match askAll symbols outer with
    | .error obstacle => .error obstacle
    | .ok (false, asked) => .ok (false, chain :: asked)
    | .ok (true, asked) =>
      match chain.ask symbols with
      | .error obstacle => .error obstacle
      | .ok (taken, chain) => .ok (taken, chain :: asked)

end Chain

end ShaderVariants.Condition
