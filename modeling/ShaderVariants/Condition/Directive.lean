import ShaderVariants.Condition.Literal

/-!
# Directives of conditional compilation

The lines that open, continue and close conditional chains, and the lines that define a symbol.
All other lines say nothing about conditions.
-/

namespace ShaderVariants.Condition

/-- What decides whether an arm of a chain is taken. -/
inductive Test where
  /-- An expression is not zero. -/
  | expression (text : Text)
  /-- A symbol is defined. -/
  | defined (name : Text)
  /-- A symbol is not defined. -/
  | notDefined (name : Text)
  /-- Nothing: the arm is taken if no earlier one was. -/
  | otherwise
  deriving Repr, DecidableEq

/-- A line that matters to conditional compilation. -/
inductive Directive where
  | openChain (test : Test)
  | elseIf (text : Text)
  | elseArm
  | closeChain
  /-- A definition, with its value if that is an integer. -/
  | define (name : Text) (value : Option Int)
  deriving Repr, DecidableEq

namespace Directive

/-- The keyword of a preprocessor line and the text behind it, without comments and blanks. -/
def keyword? (line : Text) : Option (Text × Text) :=
  match Text.trimStart line with
  | '#' :: rest =>
    let body := Text.beforeComment (Text.trimStart rest)
    some (body.takeWhile Text.isWordChar, Text.trim (body.dropWhile Text.isWordChar))
  | _ => none

/-- Reads what follows `#define`: a name, and a value unless parameters follow the name. -/
def ofDefinition? (body : Text) : Option Directive :=
  match body.takeWhile Text.isWordChar with
  | [] => none
  | name =>
    match body.dropWhile Text.isWordChar with
    | '(' :: _ => some (.define name none)
    | value => some (.define name (literal? (Text.trim value)))

def ofLine? (line : Text) : Option Directive :=
  match keyword? line with
  | none => none
  | some (keyword, body) =>
    if keyword = "if".toList then some (.openChain (.expression body))
    else if keyword = "ifdef".toList then some (.openChain (.defined body))
    else if keyword = "ifndef".toList then some (.openChain (.notDefined body))
    else if keyword = "elif".toList then some (.elseIf body)
    else if keyword = "else".toList then some .elseArm
    else if keyword = "endif".toList then some .closeChain
    else if keyword = "define".toList then ofDefinition? body
    else none

end Directive

end ShaderVariants.Condition
