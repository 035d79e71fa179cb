import ShaderVariants.Condition.Expr
import ShaderVariants.Condition.Literal

/-!
# Lexemes of conditions

The text of a condition is cut into literals, names, operators and parentheses, with blanks
between them.  A minus sign belongs to the literal that follows it, unless it stands after an
operand: there is no arithmetic.  Each lexeme takes at least one character (`read_length_le`).
-/

namespace ShaderVariants.Condition

/-- A lexeme of a condition. -/
inductive Lexeme where
  | int (value : Int)
  | ident (name : Text)
  | operator (op : Operator)
  | openParen
  | closeParen
  deriving Repr, DecidableEq

namespace Lexeme

/-- A lexeme as messages quote it; a literal is quoted by its value. -/
def spelling : Lexeme → Text
  | .int value => Numeral.ofInt value
  | .ident name => name
  | .operator op => op.spelling
  | .openParen => ['(']
  | .closeParen => [')']

def endsOperand : Lexeme → Bool
  | .int _ => true
  | .ident _ => true
  | .closeParen => true
  | _ => false

/-! ## 1. One lexeme -/

/-- The literal that starts with `c`, and the text after it. -/
def literalAt (c : Char) (rest : Text) : Except ExprError (Lexeme × Text) :=
  match literal? (c :: rest.takeWhile Char.isAlphanum) with
  | some value => .ok (.int value, rest.dropWhile Char.isAlphanum)
  | none => .error (.invalidLiteral (c :: rest.takeWhile Char.isAlphanum))

/-- The name that starts with `c`, and the text after it. -/
def nameAt (c : Char) (rest : Text) : Except ExprError (Lexeme × Text) :=
  if c :: rest.takeWhile Text.isWordChar = "defined".toList then
    .error (.unsupported .definedTest)
  else .ok (.ident (c :: rest.takeWhile Text.isWordChar), rest.dropWhile Text.isWordChar)

/-- The operator at the front of a text, and the text after it. -/
def operatorAt : Text → Except ExprError (Lexeme × Text)
  | '|' :: '|' :: rest => .ok (.operator .or, rest)
  | '&' :: '&' :: rest => .ok (.operator .and, rest)
  | '=' :: '=' :: rest => .ok (.operator .eq, rest)
  | '!' :: '=' :: rest => .ok (.operator .ne, rest)
  | '<' :: '=' :: rest => .ok (.operator .le, rest)
  | '>' :: '=' :: rest => .ok (.operator .ge, rest)
  | '<' :: rest => .ok (.operator .lt, rest)
  | '>' :: rest => .ok (.operator .gt, rest)
  | c :: _ => .error (.unsupported (.operator c))
  | [] => .error .unexpectedEnd

def startsOperator (c : Char) : Bool :=
  c == '|' || c == '&' || c == '=' || c == '!' || c == '<' || c == '>'

/-- Whether a literal starts with the character: a digit, or a minus sign that stands in front of a
digit and not after an operand. -/
def startsLiteral (afterOperand : Bool) (c : Char) (rest : Text) : Bool :=
  c.isDigit || (c == '-' && rest.head?.any Char.isDigit && !afterOperand)

/-- The lexeme that starts with `c`, which is no blank, and the text after it.  `afterOperand`
tells whether an operand may end with the lexeme before it. -/
def read (afterOperand : Bool) (c : Char) (rest : Text) : Except ExprError (Lexeme × Text) :=
  if c = '(' then .ok (.openParen, rest)
  else if c = ')' then .ok (.closeParen, rest)
  else if startsLiteral afterOperand c rest then literalAt c rest
  else if Text.isWordStart c then nameAt c rest
  else if startsOperator c then operatorAt (c :: rest)
  else .error (.unsupported (.character c))

theorem literalAt_length_le {c : Char} {rest after : Text} {lexeme : Lexeme}
    (h : literalAt c rest = .ok (lexeme, after)) : after.length ≤ rest.length := by
  unfold literalAt at h
  split at h
  · simp only [Except.ok.injEq, Prod.mk.injEq] at h
    exact h.2 ▸ (List.dropWhile_sublist _).length_le
  · cases h

theorem nameAt_length_le {c : Char} {rest after : Text} {lexeme : Lexeme}
    (h : nameAt c rest = .ok (lexeme, after)) : after.length ≤ rest.length := by
  unfold nameAt at h
  split at h
  · cases h
  · simp only [Except.ok.injEq, Prod.mk.injEq] at h
    exact h.2 ▸ (List.dropWhile_sublist _).length_le

theorem operatorAt_length_le {c : Char} {rest after : Text} {lexeme : Lexeme}
    (h : operatorAt (c :: rest) = .ok (lexeme, after)) : after.length ≤ rest.length := by
  unfold operatorAt at h
  split at h <;> simp_all

theorem read_length_le {afterOperand : Bool} {c : Char} {rest after : Text} {lexeme : Lexeme}
    (h : read afterOperand c rest = .ok (lexeme, after)) : after.length ≤ rest.length := by
  unfold read at h
  split at h
  · simp_all
  split at h
  · simp_all
  split at h
  · exact literalAt_length_le h
  split at h
  · exact nameAt_length_le h
  split at h
  · exact operatorAt_length_le h
  · cases h

/-! ## 2. All lexemes -/

/-- The lexemes of a text that stands behind a lexeme of the given kind. -/
def readAll (afterOperand : Bool) : Text → Except ExprError (List Lexeme)
  | [] => .ok []
  | c :: rest =>
    if Text.isBlank c then readAll afterOperand rest
    else
      match _h : read afterOperand c rest with
      | .error e => .error e
      | .ok (lexeme, after) =>
        (readAll lexeme.endsOperand after).map fun lexemes => lexeme :: lexemes
termination_by t => t.length
decreasing_by
  · simp
  · exact Nat.lt_succ_of_le (read_length_le _h)

def ofText (t : Text) : Except ExprError (List Lexeme) :=
  readAll false t

end Lexeme

end ShaderVariants.Condition
