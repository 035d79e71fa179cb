import ShaderVariants.Proofs.Condition.Names
import ShaderVariants.Proofs.Condition.Written

/-!
# The grammar of conditions

The expressions that a row of lexemes stands for, by ranks of operators that lean to the left, and
the value that an expression has where every name stands for an integer.  An expression is read back
from every text that is written for it (`Expr.ofText_of_writtenAs`), and evaluates to its value
(`Expr.eval_eq_value`).
-/

namespace ShaderVariants.Condition

/-! ## 1. Derivations -/

/-- The lexemes of an expression whose operators outside of parentheses have at most the given
rank. -/
inductive Derives : (rank : Nat) → Expr → List Lexeme → Prop
  | literal (value : Int) : Derives 0 (.literal value) [.int value]
  | symbol (name : Text) : Derives 0 (.symbol name) [.ident name]
  | paren {expr : Expr} {lexemes : List Lexeme} (inner : Derives loosestRank expr lexemes) :
      Derives 0 expr (.openParen :: (lexemes ++ [.closeParen]))
  | tighter {rank : Nat} {expr : Expr} {lexemes : List Lexeme}
      (operand : Derives rank expr lexemes) : Derives (rank + 1) expr lexemes
  | binary {rank : Nat} {op : Operator} {lhs rhs : Expr} {left right : List Lexeme}
      (opRank : op.rank = rank + 1) (first : Derives (rank + 1) lhs left)
      (second : Derives rank rhs right) :
      Derives (rank + 1) (.binary op lhs rhs) (left ++ .operator op :: right)

/-- Whether a text is written for an expression. -/
def Expr.WrittenAs (expr : Expr) (t : Text) : Prop :=
  ∃ lexemes, Derives loosestRank expr lexemes ∧ Lexeme.Writes lexemes t

theorem Expr.WrittenAs.trim {expr : Expr} {t : Text} (h : expr.WrittenAs t) :
    expr.WrittenAs (Text.trim t) := by
  obtain ⟨lexemes, hderives, hwrites⟩ := h
  exact ⟨lexemes, hderives, hwrites.trim⟩

/-- In an expression operands and operators take turns. -/
theorem Derives.takeTurns {rank : Nat} {expr : Expr} {lexemes : List Lexeme}
    (h : Derives rank expr lexemes) {more : List Lexeme} (hmore : Lexeme.TakeTurns true more) :
    Lexeme.TakeTurns false (lexemes ++ more) := by
  induction h generalizing more with
  | literal value => exact ⟨rfl, hmore⟩
  | symbol name => exact ⟨rfl, hmore⟩
  | paren _ ih =>
    rw [List.cons_append, List.append_assoc]
    exact ⟨rfl, ih ⟨rfl, hmore⟩⟩
  | tighter _ ih => exact ih hmore
  | binary _ _ _ ihl ihr =>
    rw [List.append_assoc, List.cons_append]
    exact ihl ⟨rfl, ihr hmore⟩

/-! ## 2. Reading -/

/-- An expression is read from the front of some lexemes, and others are left behind it. -/
def Reads (rank : Nat) (lexemes : List Lexeme) (expr : Expr) (rest : List Lexeme) : Prop :=
  ∃ h, readExpr rank lexemes = .ok (expr, ⟨rest, h⟩)

/-- A chain of operators is read on behind its first operand. -/
def ReadsOn (tighter : Nat) (lhs : Expr) (lexemes : List Lexeme) (expr : Expr)
    (rest : List Lexeme) : Prop :=
  ∃ h, readChain tighter lhs lexemes = .ok (expr, ⟨rest, h⟩)

/-- Whether an operator that stands first binds looser than the given rank. -/
def StopsAt (rank : Nat) (lexemes : List Lexeme) : Prop :=
  ∀ op rest, lexemes = .operator op :: rest → rank < op.rank

theorem StopsAt.tighter {rank : Nat} {lexemes : List Lexeme} (h : StopsAt (rank + 1) lexemes) :
    StopsAt rank lexemes := fun op rest heq => Nat.lt_of_succ_lt (h op rest heq)

theorem Reads.literal (value : Int) (more : List Lexeme) :
    Reads 0 (.int value :: more) (.literal value) more := by
  refine ⟨by simp, ?_⟩
  rw [readExpr]

theorem Reads.symbol (name : Text) (more : List Lexeme) :
    Reads 0 (.ident name :: more) (.symbol name) more := by
  refine ⟨by simp, ?_⟩
  rw [readExpr]

theorem Reads.paren {lexemes more : List Lexeme} {expr : Expr}
    (h : Reads loosestRank lexemes expr (.closeParen :: more)) :
    Reads 0 (.openParen :: lexemes) expr more := by
  obtain ⟨hlt, hread⟩ := h
  refine ⟨by simp only [List.length_cons] at hlt ⊢; omega, ?_⟩
  rw [readExpr, hread]

theorem Reads.chain {tighter : Nat} {lexemes rest left : List Lexeme} {first whole : Expr}
    (hfirst : Reads tighter lexemes first rest) (hchain : ReadsOn tighter first rest whole left) :
    Reads (tighter + 1) lexemes whole left := by
  obtain ⟨hrest, hread⟩ := hfirst
  obtain ⟨hleft, hreadOn⟩ := hchain
  refine ⟨Nat.lt_of_le_of_lt hleft hrest, ?_⟩
  rw [readExpr, hread]
  dsimp only
  rw [hreadOn]

/-- A chain ends in front of an operator that binds looser. -/
theorem readsOn_of_stopsAt {tighter : Nat} {lexemes : List Lexeme} (lhs : Expr)
    (h : StopsAt (tighter + 1) lexemes) : ReadsOn tighter lhs lexemes lhs lexemes := by
  refine ⟨Nat.le_refl _, ?_⟩
  unfold readChain
  split
  next op rest =>
    have hrank := h op rest rfl
    rw [if_neg (by omega)]
  · rfl

theorem ReadsOn.operand {tighter : Nat} {op : Operator} {lhs rhs whole : Expr}
    {lexemes rest left : List Lexeme} (hop : op.rank = tighter + 1)
    (hrhs : Reads tighter lexemes rhs rest)
    (hrest : ReadsOn tighter (.binary op lhs rhs) rest whole left) :
    ReadsOn tighter lhs (.operator op :: lexemes) whole left := by
  obtain ⟨hlt, hread⟩ := hrhs
  obtain ⟨hle, hreadOn⟩ := hrest
  refine ⟨by rw [List.length_cons]; omega, ?_⟩
  rw [readChain, if_pos hop, hread]
  dsimp only
  rw [hreadOn]

/-- An expression is read back in front of anything that it does not run into, and so is a chain
that it starts. -/
theorem Derives.reads {rank : Nat} {expr : Expr} {lexemes : List Lexeme}
    (h : Derives rank expr lexemes) {more : List Lexeme} :
    (StopsAt rank more → Reads rank (lexemes ++ more) expr more) ∧
      ∀ tighter, rank = tighter + 1 → StopsAt tighter more → ∀ whole left,
        ReadsOn tighter expr more whole left → Reads rank (lexemes ++ more) whole left := by
  -- A chain is what the induction is about: it goes on behind the operand that is derived.
  have hstop : ∀ {tighter : Nat} {expr : Expr} {lexemes more : List Lexeme},
      (StopsAt tighter more → ∀ whole left, ReadsOn tighter expr more whole left →
        Reads (tighter + 1) (lexemes ++ more) whole left) →
      StopsAt (tighter + 1) more → Reads (tighter + 1) (lexemes ++ more) expr more :=
    fun hchain hmore => hchain hmore.tighter _ _ (readsOn_of_stopsAt _ hmore)
  induction h generalizing more with
  | literal value =>
    exact ⟨fun _ => .literal value more, fun _ hrank => by cases hrank⟩
  | symbol name =>
    exact ⟨fun _ => .symbol name more, fun _ hrank => by cases hrank⟩
  | @paren expr lexemes _ ih =>
    refine ⟨fun _ => ?_, fun _ hrank => by cases hrank⟩
    have hinner : Reads loosestRank (lexemes ++ .closeParen :: more) expr (.closeParen :: more) :=
      ih.1 fun op rest heq => by cases heq
    rw [List.cons_append, List.append_assoc]
    exact hinner.paren
  | @tighter rank expr lexemes _ ih =>
    have hchain : StopsAt rank more → ∀ whole left, ReadsOn rank expr more whole left →
        Reads (rank + 1) (lexemes ++ more) whole left :=
      fun hmore whole left hreadOn => (ih.1 hmore).chain hreadOn
    refine ⟨hstop hchain, fun tighter hrank => ?_⟩
    obtain rfl := Nat.succ.inj hrank
    exact hchain
  | @binary rank op lhs rhs left right hop _ _ ihl ihr =>
    have hchain : StopsAt rank more → ∀ whole rest,
        ReadsOn rank (.binary op lhs rhs) more whole rest →
          Reads (rank + 1) (left ++ .operator op :: right ++ more) whole rest := by
      intro hmore whole rest hreadOn
      rw [List.append_assoc, List.cons_append]
      refine ihl.2 rank rfl (fun other behind heq => ?_) whole rest ?_
      · obtain ⟨rfl, -⟩ : op = other ∧ right ++ more = behind := by simpa using heq
        omega
      · exact ReadsOn.operand hop (ihr.1 hmore) hreadOn
    refine ⟨hstop hchain, fun tighter hrank => ?_⟩
    obtain rfl := Nat.succ.inj hrank
    exact hchain

/-- An expression is read back from lexemes that it derives. -/
theorem Expr.ofLexemes_of_derives {expr : Expr} {lexemes : List Lexeme}
    (h : Derives loosestRank expr lexemes) : Expr.ofLexemes lexemes = .ok expr := by
  have hstops : StopsAt loosestRank [] := fun op rest heq => by cases heq
  have hreads : Reads loosestRank lexemes expr [] := by
    have hread := h.reads.1 hstops
    rwa [List.append_nil] at hread
  obtain ⟨hlt, hread⟩ := hreads
  rw [Expr.ofLexemes, hread]

/-- An expression is read back from every text that is written for it. -/
theorem Expr.ofText_of_writtenAs {expr : Expr} {t : Text} (h : expr.WrittenAs t) :
    Expr.ofText t = .ok expr := by
  obtain ⟨lexemes, hderives, hwrites⟩ := h
  have hturns : Lexeme.TakeTurns false lexemes := by
    have hnil : Lexeme.TakeTurns true [] := trivial
    have happend := hderives.takeTurns hnil
    rwa [List.append_nil] at happend
  rw [Expr.ofText, Lexeme.ofText, hwrites.readAll_eq hturns]
  exact Expr.ofLexemes_of_derives hderives

/-! ## 3. Values -/

/-- Whether a relation or connective holds between two values. -/
def Operator.holds : Operator → Int → Int → Prop
  | .or, l, r => l ≠ 0 ∨ r ≠ 0
  | .and, l, r => l ≠ 0 ∧ r ≠ 0
  | .eq, l, r => l = r
  | .ne, l, r => l ≠ r
  | .lt, l, r => l < r
  | .gt, l, r => l > r
  | .le, l, r => l ≤ r
  | .ge, l, r => l ≥ r

instance (op : Operator) (l r : Int) : Decidable (op.holds l r) := by
  cases op <;> unfold Operator.holds <;> infer_instance

/-- The value of an expression whose names stand for integers. -/
def Expr.value (values : Text → Int) : Expr → Int
  | .literal value => value
  | .symbol name => values name
  | .binary op lhs rhs => if op.holds (lhs.value values) (rhs.value values) then 1 else 0

/-- A right operand that is passed over does not matter. -/
theorem Operator.getD_settled? (op : Operator) (l r : Int) :
    (op.settled? l).getD (op.decide l r) = Decidable.decide (op.holds l r) := by
  rw [Bool.eq_iff_iff, decide_eq_true_iff]
  cases op with
  | or | and => by_cases hl : l = 0 <;> simp [settled?, decide, holds, hl]
  | eq | ne | lt | gt | le | ge => simp [settled?, decide, holds]

/-- An expression whose names are defined as integers has its value. -/
theorem Expr.eval_eq_value {symbols : Symbols} {values : Text → Int} {expr : Expr}
    (h : ∀ name ∈ expr.names, symbols[name]? = some (some (values name))) :
    expr.eval symbols = .ok (expr.value values) := by
  induction expr with
  | literal value => rfl
  | symbol name => rw [Expr.eval, h name (by simp [names]), Expr.value]
  | binary op lhs rhs ihl ihr =>
    rw [names, List.forall_mem_append] at h
    have hdecided := op.getD_settled? (lhs.value values) (rhs.value values)
    rw [Expr.eval, ihl h.1, ihr h.2, Expr.value]
    dsimp only
    cases hsettled : op.settled? (lhs.value values) with
    | some b =>
      rw [hsettled, Option.getD_some] at hdecided
      simp [truth, hdecided]
    | none =>
      rw [hsettled, Option.getD_none] at hdecided
      simp [truth, hdecided]

end ShaderVariants.Condition
