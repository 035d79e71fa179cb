import Std.Data.TreeMap
import ShaderVariants.Text.Numeral

/-!
# Expressions of conditions

Expressions over integers and named symbols with eight binary operators.  Zero is false and
everything else is true; `&&` and `||` leave their right operand alone when the left one decides.
-/

namespace ShaderVariants.Condition

/-! ## 1. Expressions -/

/-- A binary operator. -/
inductive Operator where
  | or
  | and
  | eq
  | ne
  | lt
  | gt
  | le
  | ge
  deriving Repr, DecidableEq

namespace Operator

def spelling : Operator → Text
  | .or => ['|', '|']
  | .and => ['&', '&']
  | .eq => ['=', '=']
  | .ne => ['!', '=']
  | .lt => ['<']
  | .gt => ['>']
  | .le => ['<', '=']
  | .ge => ['>', '=']

/-- How loosely an operator binds: relations bind tightest, then equality, `&&` and `||`. -/
def rank : Operator → Nat
  | .or => 4
  | .and => 3
  | .eq => 2
  | .ne => 2
  | .lt => 1
  | .gt => 1
  | .le => 1
  | .ge => 1

theorem rank_pos (op : Operator) : 0 < op.rank := by
  cases op <;> decide

theorem rank_le (op : Operator) : op.rank ≤ 4 := by
  cases op <;> decide

end Operator

/-- The rank of the loosest operators, and so of whole expressions. -/
def loosestRank : Nat := 4

/-- An expression. -/
inductive Expr where
  | literal (value : Int)
  | symbol (name : Text)
  | binary (op : Operator) (lhs rhs : Expr)
  deriving Repr, DecidableEq

/-! ## 2. Faults -/

/-- What an expression may not contain. -/
inductive Unsupported where
  /-- The word `defined`. -/
  | definedTest
  /-- A character that only starts operators outside of the supported ones. -/
  | operator (c : Char)
  /-- Any other character. -/
  | character (c : Char)
  deriving Repr, DecidableEq

/-- Why an expression cannot be read or evaluated. -/
inductive ExprError where
  | unsupported (what : Unsupported)
  | invalidLiteral (text : Text)
  | unexpected (token : Text)
  | unexpectedEnd
  | missingClose
  | undefined (name : Text)
  | notAnInteger (name : Text)
  deriving Repr, DecidableEq

def Unsupported.message : Unsupported → String
  | .definedTest => "`defined` is not supported"
  | .operator c => s!"operator `{String.singleton c}` is not supported"
  | .character c => s!"`{String.singleton c}` is not supported"

/-- What is said about an expression that cannot be read or evaluated. -/
def ExprError.message : ExprError → String
  | .unsupported what => what.message
  | .invalidLiteral text => s!"invalid integer literal `{String.ofList text}`"
  | .unexpected token => s!"unexpected `{String.ofList token}`"
  | .unexpectedEnd => "expression ends unexpectedly"
  | .missingClose => "missing `)`"
  | .undefined name => s!"`{String.ofList name}` is not defined"
  | .notAnInteger name => s!"`{String.ofList name}` has no integer value"

/-! ## 3. Evaluation -/

/-- The symbols that are defined, each with its value if that is an integer. -/
abbrev Symbols := Std.TreeMap Text (Option Int)

def truth (b : Bool) : Int :=
  if b then 1 else 0

/-- What an operator whose operands are both needed makes of their values; `||` and `&&` look at
the right one only. -/
def Operator.decide : Operator → Int → Int → Bool
  | .or, _, r => r != 0
  | .and, _, r => r != 0
  | .eq, l, r => l == r
  | .ne, l, r => l != r
  | .lt, l, r => l < r
  | .gt, l, r => l > r
  | .le, l, r => l ≤ r
  | .ge, l, r => l ≥ r

/-- What the left operand alone decides. -/
def Operator.settled? : Operator → Int → Option Bool
  | .or, l => if l != 0 then some true else none
  | .and, l => if l != 0 then none else some false
  | _, _ => none

/-- The value of an expression. -/
def Expr.eval (symbols : Symbols) : Expr → Except ExprError Int
  | .literal value => .ok value
  | .symbol name =>
    match symbols[name]? with
    | some (some value) => .ok value
    | some none => .error (.notAnInteger name)
    | none => .error (.undefined name)
  | .binary op lhs rhs =>
    match lhs.eval symbols with
    | .error e => .error e
    | .ok l =>
      match op.settled? l with
      | some b => .ok (truth b)
      | none =>
        match rhs.eval symbols with
        | .error e => .error e
        | .ok r => .ok (truth (op.decide l r))

@[simp] theorem Expr.eval_literal (symbols : Symbols) (value : Int) :
    (Expr.literal value).eval symbols = .ok value := rfl

end ShaderVariants.Condition
