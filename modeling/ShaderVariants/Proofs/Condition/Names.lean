import ShaderVariants.Condition.Directive
import ShaderVariants.Condition.Parser
import ShaderVariants.Proofs.Text.Words

/-!
# Names in conditions

The value of an expression depends only on the symbols that it names, and an expression that can be
read names only whole words of its text (`hasWord_of_mem_names`).  A name that follows a literal
directly is no whole word, but nothing that has one can be read.
-/

namespace ShaderVariants.Condition

/-! ## 1. What the value of an expression depends on -/

/-- The symbols that an expression names. -/
def Expr.names : Expr → List Text
  | .literal _ => []
  | .symbol name => [name]
  | .binary _ lhs rhs => lhs.names ++ rhs.names

/-- Symbols that an expression does not name do not matter to it. -/
theorem Expr.eval_congr {symbols others : Symbols} {expr : Expr}
    (h : ∀ name ∈ expr.names, symbols[name]? = others[name]?) :
    expr.eval symbols = expr.eval others := by
  induction expr with
  | literal value => rfl
  | symbol name => rw [Expr.eval, Expr.eval, h name (by simp [names])]
  | binary op lhs rhs ihl ihr =>
    rw [names, List.forall_mem_append] at h
    rw [Expr.eval, Expr.eval, ihl h.1, ihr h.2]

/-! ## 2. Names that are read as operands -/

/-- The name that a lexeme is, if an operand is expected there. -/
def Lexeme.operandName? (afterOperand : Bool) : Lexeme → Option Text
  | .ident name => if afterOperand then none else some name
  | _ => none

/-- The names that stand where an operand is expected, that is not directly behind one. -/
def operandNames (afterOperand : Bool) : List Lexeme → List Text
  | [] => []
  | lexeme :: rest =>
    (lexeme.operandName? afterOperand).toList ++ operandNames lexeme.endsOperand rest

@[simp] theorem operandName?_true (lexeme : Lexeme) : lexeme.operandName? true = none := by
  cases lexeme <;> rfl

theorem mem_operandNames_of_suffix {before : Bool} {rest lexemes : List Lexeme} {name : Text}
    (hrest : rest <:+ lexemes) (h : name ∈ operandNames true rest) :
    name ∈ operandNames before lexemes := by
  induction lexemes generalizing before with
  | nil =>
    obtain rfl := List.suffix_nil.mp hrest
    exact h
  | cons lexeme lexemes ih =>
    rw [operandNames, List.mem_append]
    rcases List.suffix_cons_iff.mp hrest with rfl | hrest
    · rw [operandNames, operandName?_true] at h
      exact Or.inr h
    · exact Or.inr (ih hrest)

theorem mem_operandNames_cons {before : Bool} {lexeme : Lexeme} {rest : List Lexeme} {name : Text}
    (hlexeme : lexeme.endsOperand = false) (h : name ∈ operandNames false rest) :
    name ∈ operandNames before (lexeme :: rest) := by
  rw [operandNames, hlexeme]
  exact List.mem_append_right _ h

-- The induction follows the two readers.  What is behind the first operand is read with an operand
-- in front, so its own first name does not count.
mutual

/-- An expression names only what stands where an operand is expected. -/
theorem names_of_readExpr {rank : Nat} {lexemes : List Lexeme} {expr : Expr}
    {rest : { rest : List Lexeme // rest.length < lexemes.length }}
    (h : readExpr rank lexemes = .ok (expr, rest)) :
    rest.1 <:+ lexemes ∧ ∀ name ∈ expr.names, name ∈ operandNames false lexemes := by
  rw [readExpr.eq_def] at h
  split at h
  · split at h
    · cases h
    · obtain ⟨rfl, rfl⟩ := Prod.mk.inj (Except.ok.inj h)
      exact ⟨List.suffix_cons _ _, by simp [Expr.names]⟩
    · obtain ⟨rfl, rfl⟩ := Prod.mk.inj (Except.ok.inj h)
      exact ⟨List.suffix_cons _ _, by simp [Expr.names, operandNames, Lexeme.operandName?]⟩
    next inside =>
      split at h
      · cases h
      next inner after hlength hinner =>
        obtain ⟨rfl, rfl⟩ := Prod.mk.inj (Except.ok.inj h)
        obtain ⟨hsuffix, hnames⟩ := names_of_readExpr hinner
        refine ⟨(List.suffix_cons _ _).trans (hsuffix.trans (List.suffix_cons _ _)), ?_⟩
        exact fun name hname => mem_operandNames_cons rfl (hnames name hname)
      · cases h
    · cases h
  next tighter =>
    split at h
    · cases h
    next first behind hlength hfirst =>
      split at h
      · cases h
      next whole after hlength' hchain =>
        obtain ⟨rfl, rfl⟩ := Prod.mk.inj (Except.ok.inj h)
        obtain ⟨hsuffix, hnames⟩ := names_of_readExpr hfirst
        obtain ⟨hsuffix', hnames'⟩ := names_of_readChain hchain
        refine ⟨hsuffix'.trans hsuffix, fun name hname => ?_⟩
        rcases hnames' name hname with hname | hname
        · exact hnames name hname
        · exact mem_operandNames_of_suffix hsuffix hname
termination_by (lexemes.length, rank)

theorem names_of_readChain {tighter : Nat} {lhs whole : Expr} {lexemes : List Lexeme}
    {rest : { rest : List Lexeme // rest.length ≤ lexemes.length }}
    (h : readChain tighter lhs lexemes = .ok (whole, rest)) :
    rest.1 <:+ lexemes ∧
      ∀ name ∈ whole.names, name ∈ lhs.names ∨ name ∈ operandNames true lexemes := by
  rw [readChain.eq_def] at h
  split at h
  next op behind =>
    split at h
    · split at h
      · cases h
      next rhs after hlength hrhs =>
        split at h
        · cases h
        next whole' left hlength' hchain =>
          obtain ⟨rfl, rfl⟩ := Prod.mk.inj (Except.ok.inj h)
          obtain ⟨hsuffix, hnames⟩ := names_of_readExpr hrhs
          obtain ⟨hsuffix', hnames'⟩ := names_of_readChain hchain
          have hbehind := hsuffix.trans (List.suffix_cons (.operator op) behind)
          refine ⟨hsuffix'.trans hbehind, fun name hname => ?_⟩
          rcases hnames' name hname with hname | hname
          · rw [Expr.names, List.mem_append] at hname
            exact hname.imp_right fun hname => mem_operandNames_cons rfl (hnames name hname)
          · exact Or.inr (mem_operandNames_of_suffix hbehind hname)
    · obtain ⟨rfl, rfl⟩ := Prod.mk.inj (Except.ok.inj h)
      exact ⟨List.suffix_refl _, fun _ => Or.inl⟩
  · obtain ⟨rfl, rfl⟩ := Prod.mk.inj (Except.ok.inj h)
    exact ⟨List.suffix_refl _, fun _ => Or.inl⟩
termination_by (lexemes.length, tighter)
decreasing_by
  all_goals
    subst_vars
    apply Prod.Lex.left
    simp only [List.length_cons]
    omega

end

/-! ## 3. Names as they are written -/

/-- What a lexeme takes from the front of a text. -/
structure Lexeme.Takes (lexeme : Lexeme) (text taken after : Text) : Prop where
  text_eq : text = taken ++ after
  nonempty : taken ≠ []
  /-- A name is taken as a whole. -/
  ident : ∀ name, lexeme = .ident name →
    taken = name ∧ after.head?.any Text.isWordChar = false
  /-- What may stand before an operand does not run into it. -/
  apart : lexeme.endsOperand = false → taken.getLast?.any Text.isWordChar = false

theorem Lexeme.takes_of_operatorAt {text after : Text} {lexeme : Lexeme}
    (h : operatorAt text = .ok (lexeme, after)) :
    ∃ taken, lexeme.Takes text taken after := by
  unfold operatorAt at h
  split at h
  case h_9 | h_10 => cases h
  all_goals
    obtain ⟨rfl, rfl⟩ := Prod.mk.inj (Except.ok.inj h)
    first
    | exact ⟨[_, _], rfl, by simp, by simp, fun _ => by decide⟩
    | exact ⟨[_], rfl, by simp, by simp, fun _ => by decide⟩

theorem Lexeme.takes_of_nameAt {c : Char} {rest after : Text} {lexeme : Lexeme}
    (h : nameAt c rest = .ok (lexeme, after)) :
    ∃ taken, lexeme.Takes (c :: rest) taken after := by
  unfold nameAt at h
  split at h
  · cases h
  · simp only [Except.ok.injEq, Prod.mk.injEq] at h
    obtain ⟨rfl, rfl⟩ := h
    refine ⟨c :: rest.takeWhile Text.isWordChar, ?_, by simp, ?_, fun hends => by cases hends⟩
    · rw [List.cons_append, List.takeWhile_append_dropWhile]
    · intro name hname
      exact ⟨Lexeme.ident.inj hname, Text.any_head?_dropWhile_isWordChar rest⟩

theorem Lexeme.takes_of_read {afterOperand : Bool} {c : Char} {rest after : Text} {lexeme : Lexeme}
    (h : read afterOperand c rest = .ok (lexeme, after)) :
    ∃ taken, lexeme.Takes (c :: rest) taken after := by
  unfold read at h
  split at h
  next hc =>
    obtain ⟨rfl, rfl⟩ := Prod.mk.inj (Except.ok.inj h)
    exact ⟨[c], rfl, by simp, by simp, fun _ => by rw [hc]; decide⟩
  split at h
  next hc =>
    obtain ⟨rfl, rfl⟩ := Prod.mk.inj (Except.ok.inj h)
    exact ⟨[c], rfl, by simp, by simp, fun hends => by cases hends⟩
  split at h
  · rw [literalAt] at h
    split at h
    · obtain ⟨rfl, rfl⟩ := Prod.mk.inj (Except.ok.inj h)
      refine ⟨c :: rest.takeWhile Char.isAlphanum, ?_, by simp, by simp, fun hends => by cases hends⟩
      rw [List.cons_append, List.takeWhile_append_dropWhile]
    · cases h
  split at h
  · exact takes_of_nameAt h
  split at h
  · exact takes_of_operatorAt h
  · cases h

/-- A name that is read as an operand is a whole word of the text, where `front` has been read
before. -/
theorem Lexeme.hasWord_of_readAll {afterOperand : Bool} {t front : Text} {lexemes : List Lexeme}
    (h : readAll afterOperand t = .ok lexemes)
    (hfront : afterOperand = false → front.getLast?.any Text.isWordChar = false) {name : Text}
    (hname : name ∈ operandNames afterOperand lexemes) : Text.HasWord (front ++ t) name := by
  fun_induction readAll afterOperand t generalizing front lexemes with
  | case1 afterOperand =>
    obtain rfl := Except.ok.inj h
    simp [operandNames] at hname
  -- A blank continues no word, so a name may start behind it.
  | case2 afterOperand c rest hblank ih =>
    rw [List.append_cons]
    refine ih h (fun _ => ?_) hname
    simpa using Text.isWordChar_eq_false_of_isBlank hblank
  | case3 afterOperand c rest hblank e hread => cases h
  | case4 afterOperand c rest hblank lexeme after hread ih =>
    obtain ⟨taken, htakes⟩ := takes_of_read hread
    cases hrest : readAll lexeme.endsOperand after with
    | error e => simp [hrest, Except.map] at h
    | ok more =>
      obtain rfl : lexeme :: more = lexemes := by simpa [hrest, Except.map] using h
      rw [operandNames, List.mem_append] at hname
      rcases hname with hname | hname
      · cases lexeme with
        | ident found =>
          cases afterOperand with
          | true => simp at hname
          | false =>
            obtain rfl : name = found := by simpa [operandName?] using hname
            -- A name is taken as a whole, and what was read before it does not run into it.
            obtain ⟨rfl, hafter⟩ := htakes.ident name rfl
            refine ⟨front, after, by rw [htakes.text_eq, List.append_assoc], ?_⟩
            exact Text.standsAlone_iff.mpr ⟨hfront rfl, hafter⟩
        | _ => simp [operandName?] at hname
      · rw [htakes.text_eq, ← List.append_assoc]
        refine ih hrest (fun hends => ?_) hname
        have hlast := htakes.apart hends
        rw [List.getLast?_eq_some_getLast htakes.nonempty] at hlast
        rw [List.getLast?_append, List.getLast?_eq_some_getLast htakes.nonempty]
        exact hlast

/-- An expression that can be read names only whole words of its text. -/
theorem hasWord_of_mem_names {t : Text} {expr : Expr} (h : Expr.ofText t = .ok expr) {name : Text}
    (hname : name ∈ expr.names) : Text.HasWord t name := by
  rw [Expr.ofText] at h
  split at h
  · cases h
  next lexemes hlexemes =>
    rw [Expr.ofLexemes] at h
    split at h
    · cases h
    next found _ hread =>
      obtain rfl := Except.ok.inj h
      have hoperand := (names_of_readExpr hread).2 name hname
      have hword : Text.HasWord ([] ++ t) name :=
        Lexeme.hasWord_of_readAll hlexemes (fun _ => rfl) hoperand
      exact hword
    · cases h

/-! ## 4. Lines -/

theorem hasWord_of_keyword? {line keyword body name : Text} (hname : Text.IsWord name)
    (hline : Directive.keyword? line = some (keyword, body)) (h : Text.HasWord body name) :
    Text.HasWord line name := by
  rw [Directive.keyword?] at hline
  split at hline
  next rest hrest =>
    obtain ⟨-, rfl⟩ := Prod.mk.inj (Option.some.inj hline)
    have hbody := ((h.of_trim hname).of_dropWhile_isWordChar hname).of_beforeComment
    have hcons := (hbody.of_trimStart hname).of_cons (by decide : Text.isWordChar '#' = false) hname
    exact (hrest ▸ hcons).of_trimStart hname
  · cases hline

/-- The expression that a line asks for the value of. -/
def expressionOf? (line : Text) : Option Text :=
  match Directive.ofLine? line with
  | some (.openChain (.expression text)) => some text
  | some (.elseIf text) => some text
  | _ => none

theorem exists_define_of_ofDefinition? {body : Text} {directive : Directive}
    (h : Directive.ofDefinition? body = some directive) :
    ∃ name value, directive = .define name value := by
  unfold Directive.ofDefinition? at h
  split at h
  · cases h
  · split at h
    · exact ⟨_, _, (Option.some.inj h).symm⟩
    · exact ⟨_, _, (Option.some.inj h).symm⟩

/-- A line that at most defines something: it opens, continues and closes no chain. -/
def IsQuiet (line : Text) : Prop :=
  ∀ directive, Directive.ofLine? line = some directive →
    ∃ name value, directive = .define name value

theorem IsQuiet.expressionOf? {line : Text} (h : IsQuiet line) : expressionOf? line = none := by
  rw [Condition.expressionOf?]
  cases hline : Directive.ofLine? line with
  | none => rfl
  | some directive =>
    obtain ⟨name, value, rfl⟩ := h directive hline
    rfl

theorem exists_keyword?_of_expressionOf? {line text : Text} (h : expressionOf? line = some text) :
    ∃ keyword, Directive.keyword? line = some (keyword, text) := by
  have hopen : Directive.ofLine? line = some (.openChain (.expression text)) ∨
      Directive.ofLine? line = some (.elseIf text) := by
    unfold expressionOf? at h
    split at h <;> simp_all
  cases hkeyword : Directive.keyword? line with
  | none => simp [Directive.ofLine?, hkeyword] at hopen
  | some found =>
    obtain ⟨keyword, body⟩ := found
    refine ⟨keyword, ?_⟩
    simp only [Directive.ofLine?, hkeyword] at hopen
    split at hopen
    · simpa using hopen
    split at hopen
    · simp at hopen
    split at hopen
    · simp at hopen
    split at hopen
    · simpa using hopen
    split at hopen
    · simp at hopen
    split at hopen
    · simp at hopen
    split at hopen
    · rcases hopen with hopen | hopen
      · obtain ⟨_, _, hdefine⟩ := exists_define_of_ofDefinition? hopen
        cases hdefine
      · obtain ⟨_, _, hdefine⟩ := exists_define_of_ofDefinition? hopen
        cases hdefine
    · simp at hopen

/-- What an expression names stands in the line that asks for its value. -/
theorem hasWord_of_expressionOf? {line text name : Text} {expr : Expr} (hname : Text.IsWord name)
    (hline : expressionOf? line = some text) (hexpr : Expr.ofText text = .ok expr)
    (h : name ∈ expr.names) : Text.HasWord line name := by
  obtain ⟨keyword, hkeyword⟩ := exists_keyword?_of_expressionOf? hline
  exact hasWord_of_keyword? hname hkeyword (hasWord_of_mem_names hexpr h)

end ShaderVariants.Condition
