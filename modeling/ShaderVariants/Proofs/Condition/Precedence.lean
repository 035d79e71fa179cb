import ShaderVariants.Proofs.Condition.Lexing

/-!
# What a condition is read as

A condition is read as the expression that the grammar derives from its lexemes, which is the only
one (`Expr.ofText_eq_ok_iff_derives`).  So an expression can be written with parentheses around
those operands only that bind looser than their place allows, which is as few as any text of it has,
and is read back from that.
-/

namespace ShaderVariants.Condition

/-! ## 1. Derivations of what is read -/

-- The induction follows the two readers.  A chain goes on behind a first operand, so its
-- derivation is put behind one of that.
mutual

theorem derives_of_readExpr {rank : Nat} {lexemes : List Lexeme} {expr : Expr}
    {rest : { rest : List Lexeme // rest.length < lexemes.length }}
    (h : readExpr rank lexemes = .ok (expr, rest)) :
    ∃ front, lexemes = front ++ rest.1 ∧ Derives rank expr front := by
  rw [readExpr.eq_def] at h
  split at h
  · split at h
    · cases h
    next value _ =>
      obtain ⟨rfl, rfl⟩ := Prod.mk.inj (Except.ok.inj h)
      exact ⟨[.int value], rfl, .literal value⟩
    next name _ =>
      obtain ⟨rfl, rfl⟩ := Prod.mk.inj (Except.ok.inj h)
      exact ⟨[.ident name], rfl, .symbol name⟩
    next inside =>
      split at h
      · cases h
      next inner after hlength hinner =>
        obtain ⟨rfl, rfl⟩ := Prod.mk.inj (Except.ok.inj h)
        obtain ⟨front, hfront, hderives⟩ := derives_of_readExpr hinner
        refine ⟨.openParen :: (front ++ [.closeParen]), ?_, .paren hderives⟩
        show .openParen :: inside = .openParen :: (front ++ [.closeParen]) ++ after
        rw [hfront, List.cons_append, List.append_assoc, List.singleton_append]
      · cases h
    · cases h
  next tighter =>
    split at h
    · cases h
    next first behind hlength hfirst =>
      split at h
      · cases h
      next whole after hlength' hchain =>
        obtain ⟨rfl, rfl⟩ := Prod.mk.inj (Except.ok.inj h)
        obtain ⟨left, hleft, hderives⟩ := derives_of_readExpr hfirst
        obtain ⟨more, hmore, hwhole⟩ := derives_of_readChain (.tighter hderives) hchain
        refine ⟨left ++ more, ?_, hwhole⟩
        show lexemes = left ++ more ++ after
        rw [hleft, List.append_assoc, ← hmore]
termination_by (lexemes.length, rank)

theorem derives_of_readChain {tighter : Nat} {lhs whole : Expr} {lexemes left : List Lexeme}
    {rest : { rest : List Lexeme // rest.length ≤ lexemes.length }}
    (hlhs : Derives (tighter + 1) lhs left)
    (h : readChain tighter lhs lexemes = .ok (whole, rest)) :
    ∃ more, lexemes = more ++ rest.1 ∧ Derives (tighter + 1) whole (left ++ more) := by
  rw [readChain.eq_def] at h
  split at h
  next op behind =>
    split at h
    next hop =>
      split at h
      · cases h
      next rhs after hlength hrhs =>
        split at h
        · cases h
        next whole' last hlength' hchain =>
          obtain ⟨rfl, rfl⟩ := Prod.mk.inj (Except.ok.inj h)
          obtain ⟨right, hright, hderives⟩ := derives_of_readExpr hrhs
          obtain ⟨more, hmore, hwhole⟩ :=
            derives_of_readChain (.binary hop hlhs hderives) hchain
          refine ⟨.operator op :: right ++ more, ?_, ?_⟩
          · show .operator op :: behind = .operator op :: right ++ more ++ last
            rw [hright, List.append_assoc, List.cons_append, ← hmore]
          · rwa [← List.append_assoc]
    · obtain ⟨rfl, rfl⟩ := Prod.mk.inj (Except.ok.inj h)
      exact ⟨[], rfl, by rwa [List.append_nil]⟩
  · obtain ⟨rfl, rfl⟩ := Prod.mk.inj (Except.ok.inj h)
    exact ⟨[], rfl, by rwa [List.append_nil]⟩
termination_by (lexemes.length, tighter)
decreasing_by
  all_goals
    subst_vars
    apply Prod.Lex.left
    simp only [List.length_cons]
    omega

end

theorem Expr.ofLexemes_eq_ok_iff {lexemes : List Lexeme} {expr : Expr} :
    Expr.ofLexemes lexemes = .ok expr ↔ Derives loosestRank expr lexemes := by
  refine ⟨fun h => ?_, ofLexemes_of_derives⟩
  rw [Expr.ofLexemes] at h
  split at h
  · cases h
  next found _ hread =>
    obtain rfl := Except.ok.inj h
    obtain ⟨front, hfront, hderives⟩ := derives_of_readExpr hread
    rwa [hfront, List.append_nil]
  · cases h

/-- No lexemes are derived from two expressions. -/
theorem Derives.unique {expr other : Expr} {lexemes : List Lexeme}
    (h : Derives loosestRank expr lexemes) (h' : Derives loosestRank other lexemes) :
    expr = other :=
  Except.ok.inj ((Expr.ofLexemes_of_derives h).symm.trans (Expr.ofLexemes_of_derives h'))

/-! ## 2. Writing -/

namespace Expr

/-- The lexemes of an expression where operators of at most the given rank need no parentheses. -/
def lexemes (rank : Nat) : Expr → List Lexeme
  | .literal value => [.int value]
  | .symbol name => [.ident name]
  | .binary op lhs rhs =>
    let bare := lhs.lexemes op.rank ++ .operator op :: rhs.lexemes (op.rank - 1)
    if op.rank ≤ rank then bare else .openParen :: (bare ++ [.closeParen])

/-- The text of an expression, without blanks and with parentheses only where they are needed. -/
def toText (expr : Expr) : Text :=
  (expr.lexemes loosestRank).flatMap Lexeme.spelling

/-- An expression whose literals have 63 bits and whose names can stand in a condition. -/
def Printable : Expr → Prop
  | .literal value => value.natAbs < 2 ^ 63
  | .symbol name => Text.isIdentifier name = true ∧ name ≠ "defined".toList
  | .binary _ lhs rhs => lhs.Printable ∧ rhs.Printable

instance Printable.decidable : (expr : Expr) → Decidable expr.Printable
  | .literal value => inferInstanceAs (Decidable (value.natAbs < 2 ^ 63))
  | .symbol name =>
    inferInstanceAs (Decidable (Text.isIdentifier name = true ∧ name ≠ "defined".toList))
  | .binary _ lhs rhs =>
    @instDecidableAnd _ _ (Printable.decidable lhs) (Printable.decidable rhs)

end Expr

theorem Derives.loosen {rank looser : Nat} {expr : Expr} {lexemes : List Lexeme}
    (h : Derives rank expr lexemes) (hle : rank ≤ looser) : Derives looser expr lexemes := by
  induction hle with
  | refl => exact h
  | step _ ih => exact .tighter ih

namespace Expr

theorem derives_lexemes (rank : Nat) (expr : Expr) : Derives rank expr (expr.lexemes rank) := by
  induction expr generalizing rank with
  | literal value => exact (Derives.literal value).loosen (Nat.zero_le rank)
  | symbol name => exact (Derives.symbol name).loosen (Nat.zero_le rank)
  | binary op lhs rhs ihl ihr =>
    have hrank : op.rank = op.rank - 1 + 1 := by
      have := op.rank_pos
      omega
    have hbare : Derives op.rank (.binary op lhs rhs)
        (lhs.lexemes op.rank ++ .operator op :: rhs.lexemes (op.rank - 1)) := by
      have hderives := Derives.binary hrank (hrank ▸ ihl op.rank) (ihr (op.rank - 1))
      rwa [← hrank] at hderives
    rw [lexemes]
    split
    next hle => exact hbare.loosen hle
    -- Between parentheses any expression may stand, and the pair fits everywhere.
    · exact (Derives.paren (hbare.loosen op.rank_le)).loosen (Nat.zero_le rank)

/-- A looser place takes no more parentheses. -/
theorem count_lexemes_le_of_le {rank looser : Nat} (hle : rank ≤ looser) (expr : Expr) :
    (expr.lexemes looser).count .openParen ≤ (expr.lexemes rank).count .openParen := by
  cases expr with
  | literal value => exact Nat.le_refl _
  | symbol name => exact Nat.le_refl _
  | binary op lhs rhs =>
    rw [lexemes, lexemes]
    by_cases htight : op.rank ≤ rank
    · rw [if_pos htight, if_pos (Nat.le_trans htight hle)]
    · rw [if_neg htight]
      split
      · simp only [List.count_cons, List.count_append]
        omega
      · exact Nat.le_refl _

/-- In the tightest place one pair of parentheses is enough. -/
theorem count_lexemes_zero_le (expr : Expr) :
    (expr.lexemes 0).count .openParen ≤ (expr.lexemes loosestRank).count .openParen + 1 := by
  cases expr with
  | literal value => exact Nat.le_succ _
  | symbol name => exact Nat.le_succ _
  | binary op lhs rhs =>
    have hpos := op.rank_pos
    rw [lexemes, lexemes]
    rw [if_neg (by omega), if_pos (show op.rank ≤ loosestRank from op.rank_le)]
    simp [List.count_append]

/-- No lexemes of an expression have fewer parentheses. -/
theorem count_lexemes_le {rank : Nat} {expr : Expr} {lexemes : List Lexeme}
    (h : Derives rank expr lexemes) :
    (expr.lexemes rank).count .openParen ≤ lexemes.count .openParen := by
  -- The induction is on the derivation.  Where that has a pair of parentheses, the expression needs
  -- none or this one.
  induction h with
  | literal value => exact Nat.le_refl _
  | symbol name => exact Nat.le_refl _
  | @paren expr lexemes _ ih =>
    have hone := count_lexemes_zero_le expr
    simp only [List.count_cons_self, List.count_append]
    omega
  | @tighter rank expr lexemes _ ih =>
    exact Nat.le_trans (count_lexemes_le_of_le (Nat.le_succ rank) expr) ih
  | @binary rank op lhs rhs left right hop _ _ ihl ihr =>
    rw [Expr.lexemes]
    rw [if_pos (Nat.le_of_eq hop), hop, Nat.add_sub_cancel]
    simp only [List.count_append, List.count_cons]
    omega

/-- Every lexeme of an expression that can be written is a word of a condition. -/
theorem written_of_mem_lexemes {expr : Expr} (h : expr.Printable) {rank : Nat} {lexeme : Lexeme}
    (hmem : lexeme ∈ expr.lexemes rank) : lexeme.Written lexeme.spelling := by
  induction expr generalizing rank with
  | literal value =>
    obtain rfl := List.mem_singleton.mp hmem
    exact .int (isLiteral_ofInt h)
  | symbol name =>
    obtain rfl := List.mem_singleton.mp hmem
    exact .ident h.1 h.2
  | binary op lhs rhs ihl ihr =>
    have hbare : lexeme ∈ lhs.lexemes op.rank ++ .operator op :: rhs.lexemes (op.rank - 1) →
        lexeme.Written lexeme.spelling := by
      intro hmem
      rcases List.mem_append.mp hmem with hmem | hmem
      · exact ihl h.1 hmem
      rcases List.mem_cons.mp hmem with rfl | hmem
      · exact .operator op
      · exact ihr h.2 hmem
    rw [lexemes] at hmem
    split at hmem
    · exact hbare hmem
    · rcases List.mem_cons.mp hmem with rfl | hmem
      · exact .openParen
      rcases List.mem_append.mp hmem with hmem | hmem
      · exact hbare hmem
      · obtain rfl := List.mem_singleton.mp hmem
        exact .closeParen

theorem writes_toText {expr : Expr} (h : expr.Printable) :
    Lexeme.Writes (expr.lexemes loosestRank) expr.toText := by
  have hwrites : ∀ lexemes : List Lexeme, (∀ lexeme ∈ lexemes, lexeme.Written lexeme.spelling) →
      Lexeme.Writes lexemes (lexemes.flatMap Lexeme.spelling) := by
    intro lexemes hlexemes
    induction lexemes with
    | nil => exact .nil
    | cons lexeme rest ih =>
      obtain ⟨hlexeme, hrest⟩ := List.forall_mem_cons.mp hlexemes
      rw [List.flatMap_cons]
      exact .lexeme hlexeme (ih hrest)
  exact hwrites _ fun lexeme hlexeme => written_of_mem_lexemes h hlexeme

/-! ## 3. Reading and writing -/

/-- A text is read as an expression exactly if its lexemes are derived from that, which they are
from one expression at most; and an expression is read back from its text with the fewest
parentheses, wherever blanks are put and however its literals are spelled. -/
theorem ofText_eq_ok_iff_derives (t : Text) (expr : Expr) :
    (Expr.ofText t = .ok expr ↔
      ∃ lexemes, Lexeme.Cut false t lexemes ∧ Derives loosestRank expr lexemes) ∧
    (∀ lexemes other, Derives loosestRank expr lexemes → Derives loosestRank other lexemes →
      other = expr) ∧
    (expr.Printable →
      Expr.ofText expr.toText = .ok expr ∧
      (∀ s, Lexeme.Writes (expr.lexemes loosestRank) s → Expr.ofText s = .ok expr) ∧
      ∀ lexemes, Derives loosestRank expr lexemes →
        (expr.lexemes loosestRank).count .openParen ≤ lexemes.count .openParen) := by
  have hwritten : ∀ s, Lexeme.Writes (expr.lexemes loosestRank) s → Expr.ofText s = .ok expr :=
    fun s hs => ofText_of_writtenAs ⟨_, derives_lexemes loosestRank expr, hs⟩
  refine ⟨?_, fun lexemes other h h' => h'.unique h, fun hprintable =>
    ⟨hwritten _ (writes_toText hprintable), hwritten, fun lexemes h => count_lexemes_le h⟩⟩
  rw [Expr.ofText]
  constructor
  · intro h
    split at h
    · cases h
    next lexemes hlexemes =>
      exact ⟨lexemes, Lexeme.readAll_eq_ok_iff.mp hlexemes, ofLexemes_eq_ok_iff.mp h⟩
  · rintro ⟨lexemes, hcut, hderives⟩
    rw [Lexeme.ofText, Lexeme.readAll_eq_ok_iff.mpr hcut]
    exact ofLexemes_eq_ok_iff.mpr hderives

/-- A disjunction among the operands of a conjunction. -/
def fence : Expr :=
  .binary .and
    (.binary .or (.symbol "A".toList) (.binary .eq (.symbol "B".toList) (.literal (-1))))
    (.binary .lt (.symbol "C".toList) (.literal 2))

theorem ofText_fence :
    fence.Printable ∧ fence.toText = "(A||B==-1)&&C<2".toList ∧
      Expr.ofText "(A||B==-1)&&C<2".toList = .ok fence := by
  have hprintable : fence.Printable := by decide +kernel
  have htext : fence.toText = "(A||B==-1)&&C<2".toList := by decide +kernel
  obtain ⟨-, -, hprinted⟩ := ofText_eq_ok_iff_derives fence.toText fence
  exact ⟨hprintable, htext, htext ▸ (hprinted hprintable).1⟩

end Expr

end ShaderVariants.Condition
