import ShaderVariants.Proofs.Condition.Literals
import ShaderVariants.Proofs.Condition.Nesting
import ShaderVariants.Proofs.Condition.Outline
import ShaderVariants.Proofs.Text.Comments

/-!
# Definedness

The lines of an outline, and what the analysis finds in them: it gets through, and the active inputs
are those of `Outline.found` (`activeInputs_of_outline`).  Lines that an eager preprocessor follows
and that leave the open chains as they are can be put one behind the other, and a chain is made of
such lines again (`Covers`).
-/

namespace ShaderVariants.Condition

/-! ## 1. Lines of an outline -/

/-- A preprocessor line with the given keyword and the given text behind it.  There are blanks around
both, and the line may end in a remark. -/
inductive DirectiveLine (keyword body : Text) : Text → Prop
  | mk {indent gap space tail : Text} (blanks : ∀ c ∈ indent ++ gap ++ space, Text.isBlank c = true)
      (apart : body ≠ [] → space ≠ []) (remark : Text.Remark tail) :
      DirectiveLine keyword body (preprocessorLine indent gap keyword (space ++ (body ++ tail)))

theorem DirectiveLine.of_keyword (keyword : Text) : DirectiveLine keyword [] ('#' :: keyword) := by
  have hline : preprocessorLine [] [] keyword ([] ++ ([] ++ [])) = '#' :: keyword := by
    simp [preprocessorLine]
  exact hline ▸ .mk (by simp) (fun hne => absurd rfl hne) .nil

theorem DirectiveLine.of_space (keyword body : Text) {tail : Text} (remark : Text.Remark tail) :
    DirectiveLine keyword body ('#' :: (keyword ++ ' ' :: (body ++ tail))) := by
  have hline : preprocessorLine [] [] keyword ([' '] ++ (body ++ tail)) =
      '#' :: (keyword ++ ' ' :: (body ++ tail)) := by
    simp [preprocessorLine]
  have hblank : ∀ c ∈ ([] ++ [] ++ [' '] : Text), Text.isBlank c = true :=
    List.forall_mem_singleton.mpr (by decide)
  exact hline ▸ .mk hblank (fun _ => List.cons_ne_nil _ _) remark

/-- The text of a definition behind its keyword: a name, and an integer or nothing. -/
inductive Definition (name : Text) : Text → Prop
  | bare : Definition name name
  | integer {space t : Text} {v : Int} (blanks : ∀ c ∈ space, Text.isBlank c = true)
      (apart : space ≠ []) (value : IsInteger t v) : Definition name (name ++ (space ++ t))

/-- The lines of an outline. -/
inductive Outline.Written : Outline → List Text → Prop
  | done : Written .done []
  | define {name body line : Text} {rest : Outline} {lines : List Text}
      (identifier : Text.isIdentifier name = true) (unmarked : Text.strip? siteMark name = none)
      (defines : Definition name body) (first : DirectiveLine "define".toList body line)
      (after : Written rest lines) : Written (.define name rest) (line :: lines)
  | undefine {name line : Text} {rest : Outline} {lines : List Text}
      (identifier : Text.isIdentifier name = true) (first : DirectiveLine "undef".toList name line)
      (after : Written rest lines) : Written (.undefine name rest) (line :: lines)
  | mark {site body line : Text} {rest : Outline} {lines : List Text}
      (identifier : Text.isIdentifier (siteMark ++ site) = true)
      (defines : Definition (siteMark ++ site) body)
      (first : DirectiveLine "define".toList body line)
      (after : Written rest lines) : Written (.mark site rest) (line :: lines)
  /-- A guard without `#else`. -/
  | guard {negated : Bool} {name opening closing : Text} {first rest : Outline}
      {inside lines : List Text} (identifier : Text.isIdentifier name = true)
      (opens : DirectiveLine (if negated then "ifndef".toList else "ifdef".toList) name opening)
      (one : Written first inside) (closes : DirectiveLine "endif".toList [] closing)
      (after : Written rest lines) :
      Written (.guard negated name first .done rest) (opening :: (inside ++ closing :: lines))
  | guardElse {negated : Bool} {name opening middle closing : Text} {first second rest : Outline}
      {inside other lines : List Text} (identifier : Text.isIdentifier name = true)
      (opens : DirectiveLine (if negated then "ifndef".toList else "ifdef".toList) name opening)
      (one : Written first inside) (turns : DirectiveLine "else".toList [] middle)
      (two : Written second other) (closes : DirectiveLine "endif".toList [] closing)
      (after : Written rest lines) :
      Written (.guard negated name first second rest)
        (opening :: (inside ++ middle :: (other ++ closing :: lines)))

/-- A text behind a keyword that is read as it is written. -/
structure Bodied (body : Text) : Prop where
  slash : ∀ c ∈ body, c ≠ '/'
  first : body.head?.all (fun c => !Text.isBlank c) = true
  last : body.getLast?.all (fun c => !Text.isBlank c) = true

theorem Bodied.nil : Bodied [] :=
  ⟨by simp, rfl, rfl⟩

theorem Bodied.of_isWord {word : Text} (hword : Text.IsWord word) : Bodied word where
  slash := hword.ne_slash
  first := by
    rw [Option.all_eq_true]
    intro c hc
    simpa using Text.isBlank_eq_false_of_isWordChar (hword.chars c (List.mem_of_head? hc))
  last := by
    rw [Option.all_eq_true]
    intro c hc
    simpa using Text.isBlank_eq_false_of_isWordChar (hword.chars c (List.mem_of_getLast? hc))

/-- The keyword and the text behind it are read back. -/
theorem DirectiveLine.keyword?_eq {keyword body line : Text} (h : DirectiveLine keyword body line)
    (hkeyword : Text.isIdentifier keyword = true) (hbody : Bodied body) :
    Directive.keyword? line = some (keyword, body) := by
  obtain @⟨indent, gap, space, tail, blanks, apart, remark⟩ := h
  obtain ⟨hfront, hspace⟩ := List.forall_mem_append.mp blanks
  have hends : (space ++ (body ++ tail)).head?.all (fun c => !Text.isWordChar c) = true := by
    cases space with
    | nil =>
      -- Without a blank behind the keyword there is no body, and a remark starts no word.
      have hnil : body = [] := by
        by_contra hne
        exact apart hne rfl
      rw [hnil]
      exact remark.head?
    | cons c space => exact Text.head?_cons_of_isBlank (hspace c List.mem_cons_self) _
  have hbefore : Text.beforeComment (space ++ (body ++ tail)) =
      space ++ (body ++ Text.beforeComment tail) := by
    rw [Text.beforeComment_append (Text.ne_slash_of_blanks hspace),
      Text.beforeComment_append hbody.slash]
  have htrim : Text.trim (space ++ (body ++ Text.beforeComment tail)) = body := by
    rw [Text.trim, Text.trimStart_append hspace]
    show Text.trim (body ++ Text.beforeComment tail) = body
    rw [Text.trim_append_blanks remark.beforeComment,
      Text.trim_eq_self_of_ends hbody.first hbody.last]
  rw [keyword?_preprocessorLine hfront (.of_isIdentifier hkeyword) hends, hbefore, htrim]

/-- An integer is one word but for its sign. -/
theorem IsInteger.ne_nil_and_forall {t : Text} {v : Int} (h : IsInteger t v) :
    t ≠ [] ∧ ∀ c ∈ t, Text.isBlank c = false ∧ c ≠ '/' := by
  obtain @⟨negative, t, n, marks, number, written, -⟩ := h
  have hword : ∀ c : Char, c.isAlphanum = true → Text.isBlank c = false ∧ c ≠ '/' := by
    intro c hc
    refine ⟨Text.isBlank_eq_false_of_isWordChar (by simp [Text.isWordChar, hc]), ?_⟩
    rintro rfl
    exact absurd hc (by decide)
  have hchars : ∀ c ∈ t ++ marks, Text.isBlank c = false ∧ c ≠ '/' := by
    refine List.forall_mem_append.mpr ⟨fun c hc => hword c (number.isAlphanum hc), fun c hc => ?_⟩
    rcases written c hc with rfl | rfl <;> exact hword _ (by decide)
  have hnonempty : t ≠ [] := by
    obtain ⟨c, rest, rfl, -⟩ := number.magnitude.chars_all
    exact List.cons_ne_nil c rest
  cases negative with
  | false => exact ⟨by simpa [negated] using fun hnil => absurd hnil hnonempty, hchars⟩
  | true => exact ⟨List.cons_ne_nil _ _, List.forall_mem_cons.mpr ⟨by decide, hchars⟩⟩

theorem Definition.bodied {name body : Text} (h : Definition name body) (hname : Text.IsWord name) :
    Bodied body := by
  cases h with
  | bare => exact .of_isWord hname
  | @integer space t v blanks apart value =>
    obtain ⟨hnonempty, hchars⟩ := value.ne_nil_and_forall
    refine ⟨?_, ?_, ?_⟩
    · refine List.forall_mem_append.mpr ⟨hname.ne_slash, List.forall_mem_append.mpr ⟨?_, ?_⟩⟩
      · exact Text.ne_slash_of_blanks blanks
      · exact fun c hc => (hchars c hc).2
    · obtain ⟨c, rest, rfl⟩ := List.exists_cons_of_ne_nil hname.nonempty
      simpa using Text.isBlank_eq_false_of_isWordChar (hname.chars c List.mem_cons_self)
    · rw [← List.append_assoc, List.getLast?_append, List.getLast?_eq_some_getLast hnonempty]
      simpa using (hchars _ (List.getLast_mem hnonempty)).1

/-- A definition defines its name. -/
theorem Definition.exists_define {name body : Text} (h : Definition name body)
    (hname : Text.IsWord name) : ∃ value, Directive.ofDefinition? body = some (.define name value) := by
  obtain ⟨rest, rfl, hrest⟩ : ∃ rest, body = name ++ rest ∧
      rest.head?.all (fun c => !Text.isWordChar c) = true := by
    cases h with
    | bare => exact ⟨[], (List.append_nil _).symm, rfl⟩
    | @integer space t v blanks apart value =>
      obtain ⟨c, tail, rfl⟩ := List.exists_cons_of_ne_nil apart
      exact ⟨_, rfl, Text.head?_cons_of_isBlank (blanks c List.mem_cons_self) _⟩
  obtain ⟨htake, hdrop⟩ := Text.word_append hname hrest
  unfold Directive.ofDefinition?
  rw [htake, hdrop]
  obtain ⟨c, tail, rfl⟩ := List.exists_cons_of_ne_nil hname.nonempty
  dsimp only
  split
  · exact ⟨none, rfl⟩
  · exact ⟨_, rfl⟩

/-! ## 2. Lines that are followed -/

open Eager

/-- What an eager preprocessor does with some lines: it follows them, leaves the chains that were
open before, and keeps the marks of some sites if it keeps the lines at all. -/
structure Covers (pass : Pass) (lines sites : List Text) : Prop where
  leads : Leads lines pass (lines.foldl Pass.step pass)
  levels_eq : (lines.foldl Pass.step pass).levels = pass.levels
  symbols_eq : pass.levels ≠ [] → (lines.foldl Pass.step pass).symbols = pass.symbols
  mem_iff : ∀ site, site ∈ (lines.foldl Pass.step pass).sites ↔
    site ∈ pass.sites ∨ (keptIn pass.levels = true ∧ site ∈ sites)

namespace Covers

variable {pass : Pass} {line : Text} {lines more sites others : List Text}

theorem nil (pass : Pass) : Covers pass [] [] :=
  ⟨.nil pass, rfl, fun _ => rfl, by simp⟩

theorem append (h : Covers pass lines sites)
    (h' : Covers (lines.foldl Pass.step pass) more others) :
    Covers pass (lines ++ more) (sites ++ others) where
  leads := by
    rw [List.foldl_append]
    exact h.leads.append h'.leads
  levels_eq := by
    rw [List.foldl_append, h'.levels_eq, h.levels_eq]
  symbols_eq := by
    intro hopen
    rw [List.foldl_append, h'.symbols_eq (by rwa [h.levels_eq]), h.symbols_eq hopen]
  mem_iff := by
    intro site
    rw [List.foldl_append, h'.mem_iff, h.mem_iff, h.levels_eq, List.mem_append]
    tauto

/-- A line that opens, continues and closes no chain. -/
theorem quiet (hquiet : IsQuiet line) (hsites : ∀ site, site ∈ (pass.step line).sites ↔
      site ∈ pass.sites ∨ (keptIn pass.levels = true ∧ site ∈ sites)) :
    Covers pass [line] sites where
  leads := leads_of_isQuiet (List.forall_mem_singleton.mpr hquiet) pass
  levels_eq := levels_of_isQuiet (List.forall_mem_singleton.mpr hquiet) pass
  symbols_eq := fun hopen => Inside.symbols_step hopen line
  mem_iff := hsites

/-- A line that means nothing to the analysis. -/
theorem silent (hline : Directive.ofLine? line = none) : Covers pass [line] [] := by
  refine quiet (fun directive hdirective => ?_) fun site => ?_
  · rw [hline] at hdirective
    cases hdirective
  · rw [Pass.step, hline]
    simp

theorem isQuiet_of_define {name : Text} {value : Option Int}
    (hline : Directive.ofLine? line = some (.define name value)) : IsQuiet line := by
  intro directive hdirective
  rw [hline] at hdirective
  exact ⟨name, value, (Option.some.inj hdirective).symm⟩

theorem symbol {name : Text} {value : Option Int}
    (hline : Directive.ofLine? line = some (.define name value))
    (hmark : Text.strip? siteMark name = none) : Covers pass [line] [] := by
  refine quiet (isQuiet_of_define hline) fun site => ?_
  rw [Pass.step, hline]
  dsimp only [Pass.define]
  rw [hmark]
  dsimp only
  -- Whether the symbol is defined or passed over, it is no site.
  split <;> simp

theorem site {input : Text} {value : Option Int}
    (hline : Directive.ofLine? line = some (.define (siteMark ++ input) value)) :
    Covers pass [line] [input] := by
  refine quiet (isQuiet_of_define hline) fun site => ?_
  rw [Pass.step, hline]
  dsimp only [Pass.define]
  rw [Text.strip?_append]
  dsimp only
  cases keptIn pass.levels with
  | true => simp [or_comm]
  | false => simp

/-- A chain, of which it is known what happens between its first line and its last one.  It defines
nothing, wherever it stands. -/
theorem enclose {opening closing : Text} {test : Test} {body : List Text} {last : Pass}
    {level : Level} (opens : Directive.ofLine? opening = some (.openChain test))
    (plain : expressionOf? opening = none)
    (closes : Directive.ofLine? closing = some .closeChain)
    (hbody : Leads body (pass.openChain test) last) (hlevels : last.levels = level :: pass.levels)
    (hsymbols : last.symbols = pass.symbols)
    (hsites : ∀ site, site ∈ last.sites ↔
      site ∈ pass.sites ∨ (keptIn pass.levels = true ∧ site ∈ sites)) :
    Covers pass (opening :: (body ++ [closing])) sites ∧
      ((opening :: (body ++ [closing])).foldl Pass.step pass).symbols = pass.symbols := by
  have hopening : pass.step opening = pass.openChain test := by rw [Pass.step, opens]
  have hclosing : last.step closing = { last with levels := pass.levels } := by
    rw [Pass.step, closes]
    dsimp only
    rw [hlevels]
    rfl
  have hfinal : (opening :: (body ++ [closing])).foldl Pass.step pass =
      { last with levels := pass.levels } := by
    rw [List.foldl_cons, hopening, List.foldl_append, hbody.next_eq, List.foldl_cons, hclosing]
    rfl
  have hend : Leads [closing] last { last with levels := pass.levels } := by
    rw [← hclosing]
    refine .cons (fun text htext => by simp [expressionOf?, closes] at htext) ?_ (.nil _)
    rw [depthAfter?.eq_def, closes, hlevels]
    rfl
  have hleads : Leads (opening :: (body ++ [closing])) pass { last with levels := pass.levels } := by
    refine .cons (fun text htext => by simp [plain] at htext) ?_ ?_
    · rw [depthAfter?.eq_def, opens]
      rfl
    · rw [hopening]
      exact hbody.append hend
  have hclosed : ((opening :: (body ++ [closing])).foldl Pass.step pass).symbols = pass.symbols := by
    rw [hfinal]
    exact hsymbols
  refine ⟨⟨?_, ?_, fun _ => hclosed, ?_⟩, hclosed⟩ <;> rw [hfinal]
  · exact hleads
  · exact hsites

theorem keptIn_openChain (pass : Pass) (test : Test) :
    keptIn (pass.openChain test).levels = (keptIn pass.levels && holds pass.symbols test) := by
  simp [Pass.openChain, keptIn, Level.next]

/-- A chain of one arm. -/
theorem chain {opening closing : Text} {test : Test}
    (opens : Directive.ofLine? opening = some (.openChain test))
    (plain : expressionOf? opening = none)
    (closes : Directive.ofLine? closing = some .closeChain)
    (hfirst : Covers (pass.openChain test) lines sites) :
    Covers pass (opening :: (lines ++ [closing]))
        (if holds pass.symbols test then sites else []) ∧
      ((opening :: (lines ++ [closing])).foldl Pass.step pass).symbols = pass.symbols := by
  refine enclose opens plain closes hfirst.leads hfirst.levels_eq
    (hfirst.symbols_eq (List.cons_ne_nil _ _)) fun site => ?_
  rw [hfirst.mem_iff, keptIn_openChain]
  show site ∈ pass.sites ∨ _ ↔ _
  cases holds pass.symbols test <;> simp

/-- A chain of two arms, the second one without a test. -/
theorem chainElse {opening middle closing : Text} {test : Test}
    (opens : Directive.ofLine? opening = some (.openChain test))
    (plain : expressionOf? opening = none)
    (turns : Directive.ofLine? middle = some .elseArm)
    (closes : Directive.ofLine? closing = some .closeChain)
    (hfirst : Covers (pass.openChain test) lines sites)
    (hsecond : Covers ((lines.foldl Pass.step (pass.openChain test)).step middle) more others) :
    Covers pass (opening :: (lines ++ middle :: (more ++ [closing])))
        (if holds pass.symbols test then sites else others) ∧
      ((opening :: (lines ++ middle :: (more ++ [closing]))).foldl Pass.step pass).symbols =
        pass.symbols := by
  have hlines : opening :: (lines ++ middle :: (more ++ [closing])) =
      opening :: ((lines ++ middle :: more) ++ [closing]) := by simp
  have hsymbols := hfirst.symbols_eq (List.cons_ne_nil _ _)
  have hmem := hfirst.mem_iff
  have hleads := hfirst.leads
  have hlevels := hfirst.levels_eq
  generalize lines.foldl Pass.step (pass.openChain test) = turning
    at hsymbols hmem hleads hlevels hsecond
  -- The second arm is kept if the chain is and the first arm is not.
  have hturn : turning.step middle =
      { turning with
        levels := ⟨keptIn pass.levels, true, keptIn pass.levels && !holds pass.symbols test⟩ ::
          pass.levels } := by
    rw [Pass.step, turns]
    dsimp only [Pass.pushArm]
    rw [hlevels]
    simp [Pass.openChain, Level.next, holds]
  rw [hturn] at hsecond
  have hbody : Leads (middle :: more) turning (more.foldl Pass.step (turning.step middle)) := by
    refine .cons (fun text htext => by simp [expressionOf?, turns] at htext) ?_ ?_
    · rw [depthAfter?.eq_def, turns, hlevels]
      rfl
    · rw [hturn]
      exact hsecond.leads
  rw [hturn] at hbody
  rw [hlines]
  refine enclose opens plain closes (hleads.append hbody) hsecond.levels_eq
    ((hsecond.symbols_eq (List.cons_ne_nil _ _)).trans hsymbols) fun site => ?_
  rw [hsecond.mem_iff]
  show site ∈ turning.sites ∨ (keptIn pass.levels && !holds pass.symbols test) = true ∧ _ ↔ _
  rw [hmem, keptIn_openChain]
  show (site ∈ pass.sites ∨ _) ∨ _ ↔ _
  cases holds pass.symbols test <;> simp

/-- `#else` defines nothing and leaves the chain open. -/
theorem step_of_else {level : Level} {levels : List Level}
    (hline : Directive.ofLine? line = some .elseArm) (hlevels : pass.levels = level :: levels) :
    (pass.step line).symbols = pass.symbols ∧ (pass.step line).levels.isEmpty = false := by
  refine ⟨Inside.symbols_step (by rw [hlevels]; exact List.cons_ne_nil _ _) line, ?_⟩
  rw [Pass.step, hline]
  dsimp only [Pass.pushArm]
  rw [hlevels]
  rfl

end Covers

/-! ## 3. Outlines that are followed -/

theorem ofLine?_of_keyword {line keyword body : Text} (h : DirectiveLine keyword body line)
    (hkeyword : Text.isIdentifier keyword = true) (hbody : Bodied body) :
    Directive.ofLine? line =
      if keyword = "if".toList then some (.openChain (.expression body))
      else if keyword = "ifdef".toList then some (.openChain (.defined body))
      else if keyword = "ifndef".toList then some (.openChain (.notDefined body))
      else if keyword = "elif".toList then some (.elseIf body)
      else if keyword = "else".toList then some .elseArm
      else if keyword = "endif".toList then some .closeChain
      else if keyword = "define".toList then Directive.ofDefinition? body
      else none := by
  rw [Directive.ofLine?, h.keyword?_eq hkeyword hbody]

theorem Definition.exists_ofLine? {name body line : Text} (h : Definition name body)
    (hname : Text.isIdentifier name = true) (hline : DirectiveLine "define".toList body line) :
    ∃ value, Directive.ofLine? line = some (.define name value) := by
  have hword : Text.IsWord name := .of_isIdentifier hname
  obtain ⟨value, hvalue⟩ := h.exists_define hword
  exact ⟨value, (ofLine?_of_keyword hline (by decide) (h.bodied hword)).trans hvalue⟩

/-- The test of a guard. -/
def guardTest (negated : Bool) (name : Text) : Test :=
  if negated then .notDefined name else .defined name

theorem ofLine?_guard {negated : Bool} {name line : Text} (hname : Text.isIdentifier name = true)
    (h : DirectiveLine (if negated then "ifndef".toList else "ifdef".toList) name line) :
    Directive.ofLine? line = some (.openChain (guardTest negated name)) := by
  have hbody : Bodied name := .of_isWord (.of_isIdentifier hname)
  cases negated with
  | true => exact ofLine?_of_keyword h (by decide) hbody
  | false => exact ofLine?_of_keyword h (by decide) hbody

/-- A guard asks for no value. -/
theorem expressionOf?_guard {negated : Bool} {name line : Text}
    (h : Directive.ofLine? line = some (.openChain (guardTest negated name))) :
    expressionOf? line = none := by
  rw [expressionOf?, h]
  cases negated <;> rfl

theorem holds_guardTest {symbols : Symbols} {macros : List Text} (negated : Bool) (name : Text)
    (hmacros : name ∈ macros ↔ symbols.contains name = true) :
    holds symbols (guardTest negated name) = Outline.takesFirst negated name macros := by
  have hcontains : symbols.contains name = macros.contains name := by
    rw [Bool.eq_iff_iff, List.contains_iff_mem]
    exact hmacros.symm
  cases negated with
  | true =>
    show (!symbols.contains name) = (macros.contains name != true)
    rw [hcontains]
    cases macros.contains name <;> rfl
  | false =>
    show symbols.contains name = (macros.contains name != false)
    rw [hcontains]
    cases macros.contains name <;> rfl

/-- The sites that an outline is found to keep are those that an eager preprocessor keeps, if both
start from the same macros. -/
theorem Outline.Written.covers {outline : Outline} {lines : List Text} (h : outline.Written lines)
    {pass : Pass} {nested : Bool} (hnested : pass.levels.isEmpty = !nested) {macros : List Text}
    (hmacros : ∀ name, name ∈ macros ↔ pass.symbols.contains name = true) :
    Covers pass lines (outline.found nested macros) := by
  -- The induction is on the lines.  A chain leaves the open chains and the symbols as they were, so
  -- what follows it starts from the macros in front of it.
  induction h generalizing pass nested macros with
  | done => exact .nil pass
  | @define name body line rest lines identifier unmarked defines first after ih =>
    obtain ⟨value, hline⟩ := defines.exists_ofLine? identifier first
    have hfirst : Covers pass [line] [] := .symbol hline unmarked
    refine hfirst.append (ih (hfirst.levels_eq ▸ hnested) fun other => ?_)
    have hstep : [line].foldl Pass.step pass = pass.define name value := by
      rw [List.foldl_cons, List.foldl_nil, Pass.step, hline]
    rw [hstep, Pass.define, unmarked]
    dsimp only
    rw [hnested]
    cases nested with
    | true => exact hmacros other
    | false =>
      show other ∈ name :: macros ↔ (pass.symbols.insert name value).contains other = true
      rw [List.mem_cons, hmacros other, Std.TreeMap.contains_insert, Bool.or_eq_true, beq_iff_eq,
        Std.compare_eq_iff_eq, eq_comm]
  | @undefine name line rest lines identifier first after ih =>
    have hline : Directive.ofLine? line = none :=
      ofLine?_of_keyword first (by decide) (.of_isWord (.of_isIdentifier identifier))
    have hstep : [line].foldl Pass.step pass = pass := by
      rw [List.foldl_cons, List.foldl_nil, Pass.step, hline]
    exact (Covers.silent hline).append (by rw [hstep]; exact ih hnested hmacros)
  | @mark site body line rest lines identifier defines first after ih =>
    obtain ⟨value, hline⟩ := defines.exists_ofLine? identifier first
    have hfirst : Covers pass [line] [site] := .site hline
    refine hfirst.append (ih (hfirst.levels_eq ▸ hnested) fun other => ?_)
    have hsymbols : ([line].foldl Pass.step pass).symbols = pass.symbols := by
      rw [List.foldl_cons, List.foldl_nil, Pass.step, hline]
      dsimp only [Pass.define]
      rw [Text.strip?_append]
    rw [hsymbols]
    exact hmacros other
  | @guard negated name opening closing first rest inside lines identifier opens one closes after
      ihOne ihAfter =>
    have hopens := ofLine?_guard identifier opens
    have hplain := expressionOf?_guard hopens
    have hcloses : Directive.ofLine? closing = some .closeChain :=
      ofLine?_of_keyword closes (by decide) .nil
    have hone : Covers (pass.openChain (guardTest negated name)) inside (first.found true macros) :=
      ihOne rfl hmacros
    obtain ⟨hchain, hsymbols⟩ := Covers.chain hopens hplain hcloses hone
    have hrest := ihAfter (hchain.levels_eq ▸ hnested) (hsymbols ▸ hmacros)
    have hall := hchain.append hrest
    rw [holds_guardTest negated name (hmacros name)] at hall
    simpa [Outline.found] using hall
  | @guardElse negated name opening middle closing first second rest inside other lines identifier
      opens one turns two closes after ihOne ihTwo ihAfter =>
    have hopens := ofLine?_guard identifier opens
    have hplain := expressionOf?_guard hopens
    have hturns : Directive.ofLine? middle = some .elseArm :=
      ofLine?_of_keyword turns (by decide) .nil
    have hcloses : Directive.ofLine? closing = some .closeChain :=
      ofLine?_of_keyword closes (by decide) .nil
    have hone : Covers (pass.openChain (guardTest negated name)) inside (first.found true macros) :=
      ihOne rfl hmacros
    obtain ⟨hsymbols, hopen⟩ := Covers.step_of_else hturns hone.levels_eq
    have htwo : Covers
        ((inside.foldl Pass.step (pass.openChain (guardTest negated name))).step middle) other
        (second.found true macros) := by
      refine ihTwo hopen ?_
      rw [hsymbols, hone.symbols_eq (List.cons_ne_nil _ _)]
      exact hmacros
    obtain ⟨hchain, hsymbols⟩ := Covers.chainElse hopens hplain hturns hcloses hone htwo
    have hrest := ihAfter (hchain.levels_eq ▸ hnested) (hsymbols ▸ hmacros)
    have hall := hchain.append hrest
    rw [holds_guardTest negated name (hmacros name)] at hall
    simpa [Outline.found] using hall

/-! ## 4. Active inputs -/

/-- The analysis of an outline gets through.  It finds the inputs whose marks are kept if macros are
defined outside of all chains only and none is ever forgotten, and these are the ones a preprocessor
keeps where no guard asks for a name that changes unseen. -/
theorem activeInputs_of_outline {source : Text} {inputs : List Input} {outline : Outline}
    (hnames : (inputs.map Input.name).Nodup)
    (hindex : ∀ input ∈ inputs, input.index < inputCapacity)
    (hwritten : outline.Written (Text.lines source)) :
    ∃ active, activeInputs source inputs = .ok active ∧
      (∀ index, active.mem index = true ↔
        ∃ input ∈ inputs, input.index = index ∧ input.name ∈ outline.found false []) ∧
      ((∀ name ∈ outline.guarded, name ∉ outline.unseen false) →
        ∀ index, active.mem index = true ↔
          ∃ input ∈ inputs, input.index = index ∧ input.name ∈ outline.kept []) := by
  have hcovers : Covers .start (Text.lines source) (outline.found false []) :=
    hwritten.covers rfl fun name => by simp [Pass.start]
  obtain ⟨last, hlast, hfollows⟩ :=
    hcovers.leads.run hnames hindex (Scan.follows_start inputs) 1
  have hclosed : last.chains = [] := by
    have hlength := Chain.length_of_allFollow hfollows.chains
    rw [hcovers.levels_eq] at hlength
    exact List.length_eq_zero_iff.mp hlength.symm
  have hfound : ∀ index, last.active.mem index = true ↔
      ∃ input ∈ inputs, input.index = index ∧ input.name ∈ outline.found false [] := by
    intro index
    rw [hfollows.active]
    refine exists_congr fun input => and_congr_right fun _ => and_congr_right fun _ => ?_
    rw [hcovers.mem_iff]
    simp [Pass.start, keptIn]
  refine ⟨last.active, ?_, hfound, fun hseen => ?_⟩
  · rw [activeInputs, hlast]
    dsimp only
    rw [Scan.finish, hclosed]
  · rw [← Outline.found_eq_kept hseen]
    exact hfound

/-- An outline whose guard keeps its second arm. -/
def otherwiseFar : Outline :=
  .define "WIDE".toList <|
    .guard false "FAST".toList (.mark "near".toList .done) (.mark "far".toList .done) .done

/-- Its lines. -/
def otherwiseFarLines : List Text :=
  ["#define WIDE 1".toList, "#ifdef FAST // never".toList, "#define _ANKI_INPUT_SITE_near".toList,
   "#else".toList, "#define _ANKI_INPUT_SITE_far".toList, "#endif".toList]

theorem definition_wide : Definition "WIDE".toList "WIDE 1".toList := by
  have hnumber : Number "1".toList 1 :=
    .decimal ⟨by decide, List.all_eq_true.mp (by decide)⟩
  have hmarks : IsMarks [] := fun _ hu => absurd hu List.not_mem_nil
  have hone : IsInteger "1".toList 1 := .mk false hnumber hmarks (by decide)
  have hblank : ∀ c ∈ [' '], Text.isBlank c = true := List.forall_mem_singleton.mpr (by decide)
  exact .integer hblank (by decide) hone

theorem activeInputs_of_outline_otherwiseFar :
    otherwiseFar.Written (Text.lines (Text.unlines otherwiseFarLines)) ∧
      otherwiseFar.kept [] = ["far".toList] ∧
      ∃ active, activeInputs (Text.unlines otherwiseFarLines) twoInputs = .ok active ∧
        (∀ index, active.mem index = true ↔ ∃ input ∈ twoInputs, input.index = index ∧
          input.name ∈ otherwiseFar.found false []) ∧
        ((∀ name ∈ otherwiseFar.guarded, name ∉ otherwiseFar.unseen false) →
          ∀ index, active.mem index = true ↔ ∃ input ∈ twoInputs, input.index = index ∧
            input.name ∈ otherwiseFar.kept []) := by
  have hlines : Text.lines (Text.unlines otherwiseFarLines) = otherwiseFarLines := by decide +kernel
  have hwritten : otherwiseFar.Written (Text.lines (Text.unlines otherwiseFarLines)) := by
    rw [hlines]
    have hnear : (Outline.mark "near".toList .done).Written ["#define _ANKI_INPUT_SITE_near".toList] :=
      .mark (by decide) .bare (.of_space _ _ .nil) .done
    have hfar : (Outline.mark "far".toList .done).Written ["#define _ANKI_INPUT_SITE_far".toList] :=
      .mark (by decide) .bare (.of_space _ _ .nil) .done
    refine .define (by decide) (by decide) definition_wide (.of_space _ _ .nil) ?_
    exact .guardElse (by decide) (.of_space _ _ (.blank (by decide) (.line _))) hnear (.of_keyword _)
      hfar (.of_keyword _) .done
  exact ⟨hwritten, by decide +kernel,
    activeInputs_of_outline (by decide +kernel) (by decide) hwritten⟩

/-- An outline that forgets one symbol and defines another one inside of a chain. -/
def forgetful : Outline :=
  .define "FAST".toList <| .undefine "FAST".toList <|
    .guard false "FAST".toList (.mark "near".toList .done) .done <|
    .guard true "FAST".toList (.define "WIDE".toList .done) .done <|
    .guard false "WIDE".toList (.mark "far".toList .done) .done .done

/-- Its lines. -/
def forgetfulLines : List Text :=
  ["#define FAST".toList, "#undef FAST".toList, "#ifdef FAST".toList,
   "#define _ANKI_INPUT_SITE_near".toList, "#endif".toList, "#ifndef FAST".toList,
   "#define WIDE 1".toList, "#endif".toList, "#ifdef WIDE".toList,
   "#define _ANKI_INPUT_SITE_far".toList, "#endif".toList]

/-- A preprocessor keeps one input, and the analysis finds the other one. -/
theorem forgetful_found_otherwise :
    forgetful.Written (Text.lines (Text.unlines forgetfulLines)) ∧
      forgetful.kept [] = ["far".toList] ∧
      activeInputs (Text.unlines forgetfulLines) twoInputs = .ok (InputSet.empty.insert 0) := by
  have hlines : Text.lines (Text.unlines forgetfulLines) = forgetfulLines := by decide +kernel
  refine ⟨?_, by decide +kernel, by decide +kernel⟩
  rw [hlines]
  have hnear : (Outline.mark "near".toList .done).Written ["#define _ANKI_INPUT_SITE_near".toList] :=
    .mark (by decide) .bare (.of_space _ _ .nil) .done
  have hwide : (Outline.define "WIDE".toList .done).Written ["#define WIDE 1".toList] :=
    .define (by decide) (by decide) definition_wide (.of_space _ _ .nil) .done
  have hfar : (Outline.mark "far".toList .done).Written ["#define _ANKI_INPUT_SITE_far".toList] :=
    .mark (by decide) .bare (.of_space _ _ .nil) .done
  refine .define (by decide) (by decide) .bare (.of_space _ _ .nil) ?_
  refine .undefine (by decide) (.of_space _ _ .nil) ?_
  refine .guard (by decide) (.of_space _ _ .nil) hnear (.of_keyword _) ?_
  refine .guard (by decide) (.of_space _ _ .nil) hwide (.of_keyword _) ?_
  exact .guard (by decide) (.of_space _ _ .nil) hfar (.of_keyword _) .done

end ShaderVariants.Condition
