import ShaderVariants.Condition.Lexeme

/-!
# Reading expressions

Operators of one rank form chains that lean to the left, over operands of the next tighter rank;
an operand of rank zero is a literal, a name or an expression in parentheses.  Each step returns
the lexemes it leaves together with the fact that they are fewer, which is why reading ends.
-/

namespace ShaderVariants.Condition

/-- An expression read from the front of some lexemes, and the fewer ones left behind it. -/
abbrev Reading (lexemes : List Lexeme) :=
  Expr × { rest : List Lexeme // rest.length < lexemes.length }

/-- A chain read on behind its first operand, and the lexemes left behind it. -/
abbrev ChainReading (lexemes : List Lexeme) :=
  Expr × { rest : List Lexeme // rest.length ≤ lexemes.length }

mutual

/-- Reads an expression whose operators have at most the given rank. -/
def readExpr (rank : Nat) (lexemes : List Lexeme) : Except ExprError (Reading lexemes) :=
  match rank with
  | 0 =>
    match lexemes with
    | [] => .error .unexpectedEnd
    | .int value :: rest => .ok (.literal value, ⟨rest, by simp⟩)
    | .ident name :: rest => .ok (.symbol name, ⟨rest, by simp⟩)
    | .openParen :: rest =>
      match readExpr loosestRank rest with
      | .error e => .error e
      | .ok (inner, ⟨.closeParen :: after, h⟩) =>
        .ok (inner, ⟨after, by simp only [List.length_cons] at h ⊢; omega⟩)
      | .ok (_, _) => .error .missingClose
    | lexeme :: _ => .error (.unexpected lexeme.spelling)
  | tighter + 1 =>
    match readExpr tighter lexemes with
    | .error e => .error e
    | .ok (first, ⟨rest, h⟩) =>
      match readChain tighter first rest with
      | .error e => .error e
      | .ok (whole, ⟨after, h'⟩) => .ok (whole, ⟨after, Nat.lt_of_le_of_lt h' h⟩)
termination_by (lexemes.length, rank)

/-- Reads the operators of the rank above `tighter` that follow `lhs`, each with its right
operand. -/
def readChain (tighter : Nat) (lhs : Expr) (lexemes : List Lexeme) :
    Except ExprError (ChainReading lexemes) :=
  match lexemes with
  | .operator op :: rest =>
    if op.rank = tighter + 1 then
      match readExpr tighter rest with
      | .error e => .error e
      | .ok (rhs, ⟨after, h⟩) =>
        match readChain tighter (.binary op lhs rhs) after with
        | .error e => .error e
        | .ok (whole, ⟨left, h'⟩) =>
          .ok (whole, ⟨left, by simp only [List.length_cons]; omega⟩)
    else .ok (lhs, ⟨.operator op :: rest, Nat.le_refl _⟩)
  | rest => .ok (lhs, ⟨rest, Nat.le_refl _⟩)
termination_by (lexemes.length, tighter)

end

def Expr.ofLexemes (lexemes : List Lexeme) : Except ExprError Expr :=
  match readExpr loosestRank lexemes with
  | .error e => .error e
  | .ok (expr, ⟨[], _⟩) => .ok expr
  | .ok (_, ⟨lexeme :: _, _⟩) => .error (.unexpected lexeme.spelling)

/-- Reads the expression of a condition. -/
def Expr.ofText (t : Text) : Except ExprError Expr :=
  match Lexeme.ofText t with
  | .error e => .error e
  | .ok lexemes => Expr.ofLexemes lexemes

end ShaderVariants.Condition
