import ShaderVariants.Proofs.Condition.Arms
import ShaderVariants.Proofs.Program.Routing
import ShaderVariants.Proofs.Variant.Marks

/-!
# Chains of guarded input lines

One chain with an input line in every arm, and what an eager preprocessor makes of the code that it
stands for: it walks through the arms and reaches the mark of exactly one of the inputs, that of the
first guard whose value is not zero, or else of the last arm (`GuardedInputs.exists_leads_lines`).
-/

namespace ShaderVariants

open Condition (Directive IsQuiet siteMark)
open Condition.Eager (Leads Level Pass keptIn)

/-! ## 1. Chains of input lines -/

/-- A line that declares an input. -/
structure InputLine where
  text : Text
  name : Text
  declares : (Line.ofText text).declaredName? = some name

/-- An input line with the expression that guards it. -/
structure Guard where
  condition : Text
  expr : Condition.Expr
  written : expr.WrittenAs condition
  input : InputLine

/-- One chain with an input line in every arm: a guard, other guards, and what is left. -/
structure GuardedInputs where
  first : Guard
  rest : List Guard
  fallback : InputLine

/-- Whether a line stands for lines of code: it is code or declares an input. -/
def Line.givesCode (line : Line) : Bool :=
  line == .code || line.declaredName?.isSome

namespace Guard

/-- The lines of an arm that is not the first one. -/
def lines (guard : Guard) : List Text :=
  ["#elif ".toList ++ guard.condition, guard.input.text]

def holds (values : Text → Int) (guard : Guard) : Bool :=
  guard.expr.value values != 0

end Guard

namespace GuardedInputs

def guards (chain : GuardedInputs) : List Guard :=
  chain.first :: chain.rest

/-- The input lines, arm by arm. -/
def inputLines (chain : GuardedInputs) : List InputLine :=
  chain.guards.map Guard.input ++ [chain.fallback]

def lines (chain : GuardedInputs) : List Text :=
  ["#if ".toList ++ chain.first.condition, chain.first.input.text] ++
    chain.rest.flatMap Guard.lines ++ ["#else".toList, chain.fallback.text, "#endif".toList]

/-- The input of the first arm whose guard is not zero, or else of the last arm. -/
def chosen (chain : GuardedInputs) (values : Text → Int) : InputLine :=
  ((chain.guards.find? (Guard.holds values)).map Guard.input).getD chain.fallback

theorem chosen_mem (chain : GuardedInputs) (values : Text → Int) :
    chain.chosen values ∈ chain.inputLines := by
  unfold chosen inputLines
  cases hfind : chain.guards.find? (Guard.holds values) with
  | none => exact List.mem_append_right _ (List.mem_singleton_self _)
  | some guard =>
    exact List.mem_append_left _ (List.mem_map_of_mem (List.mem_of_find?_eq_some hfind))

end GuardedInputs

/-! ## 2. A walk through the chain -/

section

variable {symbols : Condition.Symbols} {values : Text → Int} {inputs : List Input}

/-- A state inside of one chain, of which an arm was taken or not and the current one is kept or
not. -/
structure InChain (symbols : Condition.Symbols) (taken kept : Bool) (pass : Pass) : Prop where
  symbols_eq : pass.symbols = symbols
  levels_eq : pass.levels = [⟨true, taken, kept⟩]

variable {pass : Pass} {taken kept : Bool}

/-- The lines of an input reach its mark if they are kept.  The name of an input could be a mark as
well, which is what the last condition leaves out. -/
theorem exists_leads_inputLine (hidentifiers : ∀ input ∈ inputs, Text.isIdentifier input.name = true)
    {line : InputLine} (hdeclared : line.name ∈ inputs.map Input.name)
    (h : InChain symbols taken kept pass) :
    ∃ next, Leads (emitted inputs line.text) pass next ∧ InChain symbols taken kept next ∧
      ∀ name, line.name ≠ siteMark ++ name →
        (name ∈ next.sites ↔ name ∈ pass.sites ∨ kept = true ∧ name = line.name) := by
  obtain ⟨input, hinput, hname, hemitted⟩ := exists_emitted_of_declaredName line.declares hdeclared
  have hidentifier := hidentifiers input hinput
  have hsite := Draft.ofLine?_siteLine hidentifier
  obtain ⟨next, hnext⟩ : ∃ next, next = input.codeLines.foldl Pass.step pass := ⟨_, rfl⟩
  -- The mark comes first; what the declaration defines behind it is no symbol inside of a chain.
  have hmarked : pass.step (Draft.siteLine input) =
      { pass with sites := if kept then input.name :: pass.sites else pass.sites } := by
    unfold Pass.step
    rw [hsite]
    dsimp only [Pass.define]
    rw [Text.strip?_append, h.levels_eq]
    rfl
  have hquiet : ∀ line ∈ input.codeLines, IsQuiet line := by
    refine List.forall_mem_cons.mpr ⟨fun directive hdirective => ?_, ?_⟩
    · exact ⟨_, _, Option.some.inj (hdirective.symm.trans hsite)⟩
    · rw [List.forall_mem_singleton]
      intro directive hdirective
      cases hblock : input.inBlock with
      | true =>
        rw [Draft.ofLine?_declarationLine_of_inBlock hidentifier hblock] at hdirective
        exact ⟨_, _, (Option.some.inj hdirective).symm⟩
      | false =>
        rw [Draft.ofLine?_declarationLine_eq_none hblock] at hdirective
        cases hdirective
  have hlast : next.symbols = pass.symbols ∧ ∀ name, input.name ≠ siteMark ++ name →
      (name ∈ next.sites ↔ name ∈ pass.sites ∨ kept = true ∧ name = input.name) := by
    have hmark : ∀ name, name ∈ (if kept then input.name :: pass.sites else pass.sites) ↔
        name ∈ pass.sites ∨ kept = true ∧ name = input.name := by
      intro name
      cases kept with
      | true => simp [or_comm]
      | false => simp
    rw [hnext, Input.codeLines, List.foldl_cons, List.foldl_cons, List.foldl_nil, hmarked]
    unfold Pass.step
    cases hblock : input.inBlock with
    | false =>
      rw [Draft.ofLine?_declarationLine_eq_none hblock]
      exact ⟨rfl, fun name _ => hmark name⟩
    | true =>
      rw [Draft.ofLine?_declarationLine_of_inBlock hidentifier hblock]
      dsimp only [Pass.define]
      split
      next other hother =>
        have hforged := Text.strip?_eq_some_iff.mp hother
        refine ⟨rfl, fun name hplain => ?_⟩
        have hne : name ≠ other := by
          rintro rfl
          exact hplain hforged
        dsimp only
        rw [h.levels_eq, ← hmark name]
        dsimp only [keptIn]
        cases kept with
        | true => simp [hne]
        | false => rfl
      next =>
        rw [h.levels_eq]
        exact ⟨rfl, fun name _ => hmark name⟩
  refine ⟨next, ?_, ⟨hlast.1.trans h.symbols_eq, ?_⟩, hname ▸ hlast.2⟩
  · rw [hemitted, hnext]
    exact Condition.Eager.leads_of_isQuiet hquiet pass
  · rw [hnext, Condition.Eager.levels_of_isQuiet hquiet, h.levels_eq]

theorem ofText_if (condition : Text) : Line.ofText ("#if ".toList ++ condition) = .code := rfl

theorem ofText_elif (condition : Text) : Line.ofText ("#elif ".toList ++ condition) = .code := rfl

namespace Guard

/-- What an expression has to be given for its guard to be decided. -/
def Defined (symbols : Condition.Symbols) (values : Text → Int) (guard : Guard) : Prop :=
  ∀ name ∈ guard.expr.names, symbols[name]? = some (some (values name))

variable {guard : Guard}

theorem hasValue_of_expressionOf? (hdefined : guard.Defined symbols values) {line text : Text}
    (hline : Condition.expressionOf? line = some (Text.trim guard.condition))
    (htext : Condition.expressionOf? line = some text) : Condition.HasValue symbols text := by
  obtain rfl := Option.some.inj (hline.symm.trans htext)
  exact Condition.Eager.hasValue_of_writtenAs guard.written hdefined

theorem holds_eq (hdefined : guard.Defined symbols values) :
    Condition.Eager.holds symbols (.expression (Text.trim guard.condition)) =
      guard.holds values := by
  rw [Condition.Eager.holds_of_writtenAs guard.written hdefined, holds, Bool.eq_iff_iff]
  simp

/-- Another arm is read: it is kept if no arm before it was taken and its guard holds. -/
theorem exists_leads_lines (hidentifiers : ∀ input ∈ inputs, Text.isIdentifier input.name = true)
    (hdeclared : guard.input.name ∈ inputs.map Input.name) (hdefined : guard.Defined symbols values)
    (h : InChain symbols taken kept pass) :
    ∃ next, Leads (guard.lines.flatMap (emitted inputs)) pass next ∧
      InChain symbols (taken || guard.holds values) (!taken && guard.holds values) next ∧
      ∀ name, guard.input.name ≠ siteMark ++ name →
        (name ∈ next.sites ↔ name ∈ pass.sites ∨
          (!taken && guard.holds values) = true ∧ name = guard.input.name) := by
  have hline := Condition.ofLine?_elif guard.written
  obtain ⟨hsymbols, hlevels⟩ := h
  have hstep : pass.step ("#elif ".toList ++ guard.condition) =
      { pass with levels := [⟨true, taken || guard.holds values, !taken && guard.holds values⟩] } := by
    unfold Pass.step
    rw [hline]
    dsimp only [Pass.pushArm]
    rw [hlevels, hsymbols, holds_eq hdefined]
    rfl
  have hinside : InChain symbols (taken || guard.holds values) (!taken && guard.holds values)
      (pass.step ("#elif ".toList ++ guard.condition)) := by
    rw [hstep]
    exact ⟨hsymbols, rfl⟩
  obtain ⟨next, hleads, hnext, hsites⟩ := exists_leads_inputLine hidentifiers hdeclared hinside
  refine ⟨next, ?_, hnext, ?_⟩
  · rw [lines, List.flatMap_cons, emitted_of_code (ofText_elif _), List.flatMap_singleton]
    refine .cons (fun text htext => ?_) ?_ hleads
    · rw [hsymbols]
      refine hasValue_of_expressionOf? hdefined ?_ htext
      rw [Condition.expressionOf?, hline]
    · unfold Condition.depthAfter?
      rw [hline, hlevels]
      rfl
  · rw [hstep] at hsites
    exact hsites

end Guard

/-- Arms are read one after the other: only the first one whose guard holds can be kept. -/
theorem exists_leads_arms (hidentifiers : ∀ input ∈ inputs, Text.isIdentifier input.name = true)
    {guards : List Guard} (hdeclared : ∀ guard ∈ guards, guard.input.name ∈ inputs.map Input.name)
    (hdefined : ∀ guard ∈ guards, guard.Defined symbols values)
    (h : InChain symbols taken kept pass) :
    ∃ next kept', Leads ((guards.flatMap Guard.lines).flatMap (emitted inputs)) pass next ∧
      InChain symbols (taken || guards.any (Guard.holds values)) kept' next ∧
      ∀ name, (∀ guard ∈ guards, guard.input.name ≠ siteMark ++ name) →
        (name ∈ next.sites ↔ name ∈ pass.sites ∨ taken = false ∧
          ∃ guard, guards.find? (Guard.holds values) = some guard ∧ name = guard.input.name) := by
  -- The induction is on the arms; `taken` collects whether a guard before the current one holds.
  induction guards generalizing pass taken kept with
  | nil => exact ⟨pass, kept, .nil pass, by simpa using h, by simp⟩
  | cons guard rest ih =>
    obtain ⟨hdeclaredFirst, hdeclared⟩ := List.forall_mem_cons.mp hdeclared
    obtain ⟨hdefinedFirst, hdefined⟩ := List.forall_mem_cons.mp hdefined
    obtain ⟨next, hleads, hnext, hsites⟩ :=
      guard.exists_leads_lines hidentifiers hdeclaredFirst hdefinedFirst h
    obtain ⟨last, kept', hrest, hlast, hsitesRest⟩ := ih hdeclared hdefined hnext
    refine ⟨last, kept', ?_, ?_, fun name hplain => ?_⟩
    · rw [List.flatMap_cons, List.flatMap_append]
      exact hleads.append hrest
    · rw [List.any_cons, ← Bool.or_assoc]
      exact hlast
    · obtain ⟨hplainFirst, hplain⟩ := List.forall_mem_cons.mp hplain
      rw [hsitesRest name hplain, hsites name hplainFirst, List.find?_cons]
      cases taken with
      | true => simp
      | false => cases guard.holds values <;> simp

/-- The first arm is read, and is kept if its guard holds. -/
theorem exists_leads_first (hidentifiers : ∀ input ∈ inputs, Text.isIdentifier input.name = true)
    {guard : Guard} (hdeclared : guard.input.name ∈ inputs.map Input.name)
    (hdefined : guard.Defined pass.symbols values) (hopen : pass.levels = []) :
    ∃ next, Leads (["#if ".toList ++ guard.condition, guard.input.text].flatMap (emitted inputs))
        pass next ∧
      InChain pass.symbols (guard.holds values) (guard.holds values) next ∧
      ∀ name, guard.input.name ≠ siteMark ++ name →
        (name ∈ next.sites ↔ name ∈ pass.sites ∨
          guard.holds values = true ∧ name = guard.input.name) := by
  have hline := Condition.ofLine?_if guard.written
  have hstep : pass.step ("#if ".toList ++ guard.condition) =
      { pass with levels := [⟨true, guard.holds values, guard.holds values⟩] } := by
    unfold Pass.step
    rw [hline]
    dsimp only [Pass.openChain]
    rw [hopen, Guard.holds_eq hdefined]
    rfl
  have hinside : InChain pass.symbols (guard.holds values) (guard.holds values)
      (pass.step ("#if ".toList ++ guard.condition)) := by
    rw [hstep]
    exact ⟨rfl, rfl⟩
  obtain ⟨next, hleads, hnext, hsites⟩ := exists_leads_inputLine hidentifiers hdeclared hinside
  refine ⟨next, ?_, hnext, ?_⟩
  · rw [List.flatMap_cons, emitted_of_code (ofText_if _), List.flatMap_singleton]
    refine .cons (fun text htext => ?_) ?_ hleads
    · refine Guard.hasValue_of_expressionOf? hdefined ?_ htext
      rw [Condition.expressionOf?, hline]
    · unfold Condition.depthAfter?
      rw [hline]
      rfl
  · rw [hstep] at hsites
    exact hsites

/-- The last arm is read, and is kept if no other arm was taken. -/
theorem exists_leads_last (hidentifiers : ∀ input ∈ inputs, Text.isIdentifier input.name = true)
    {fallback : InputLine} (hdeclared : fallback.name ∈ inputs.map Input.name)
    (h : InChain symbols taken kept pass) :
    ∃ next, Leads (["#else".toList, fallback.text, "#endif".toList].flatMap (emitted inputs))
        pass next ∧
      next.levels = [] ∧
      ∀ name, fallback.name ≠ siteMark ++ name →
        (name ∈ next.sites ↔ name ∈ pass.sites ∨ taken = false ∧ name = fallback.name) := by
  have helse : Line.ofText "#else".toList = .code := by decide
  have hendif : Line.ofText "#endif".toList = .code := by decide
  obtain ⟨hsymbols, hlevels⟩ := h
  have hstep : pass.step "#else".toList = { pass with levels := [⟨true, true, !taken⟩] } := by
    unfold Pass.step
    rw [Condition.ofLine?_else]
    dsimp only [Pass.pushArm]
    rw [hlevels]
    simp [Level.next, Condition.Eager.holds]
  have hinside : InChain symbols true (!taken) (pass.step "#else".toList) := by
    rw [hstep]
    exact ⟨hsymbols, rfl⟩
  obtain ⟨next, hleads, hnext, hsites⟩ := exists_leads_inputLine hidentifiers hdeclared hinside
  have hclose : next.step "#endif".toList = { next with levels := [] } := by
    unfold Pass.step
    rw [Condition.ofLine?_endif]
    dsimp only
    rw [hnext.levels_eq]
    rfl
  refine ⟨next.step "#endif".toList, ?_, ?_, fun name hplain => ?_⟩
  · simp only [List.flatMap_cons, List.flatMap_nil, List.append_nil, emitted_of_code helse,
      emitted_of_code hendif]
    refine .cons (fun text htext => ?_) ?_ (hleads.append (.cons (fun text htext => ?_) ?_ (.nil _)))
    · rw [Condition.expressionOf?, Condition.ofLine?_else] at htext
      cases htext
    · unfold Condition.depthAfter?
      rw [Condition.ofLine?_else, hlevels]
      rfl
    · rw [Condition.expressionOf?, Condition.ofLine?_endif] at htext
      cases htext
    · unfold Condition.depthAfter?
      rw [Condition.ofLine?_endif, hnext.levels_eq]
      rfl
  · rw [hclose]
  · rw [hstep] at hsites
    rw [hclose]
    simpa using hsites name hplain

/-- Outside of all other chains exactly the mark of the chosen input is reached. -/
theorem GuardedInputs.exists_leads_lines (chain : GuardedInputs)
    (hidentifiers : ∀ input ∈ inputs, Text.isIdentifier input.name = true)
    (hdeclared : ∀ line ∈ chain.inputLines, line.name ∈ inputs.map Input.name)
    (hdefined : ∀ guard ∈ chain.guards, guard.Defined pass.symbols values)
    (hopen : pass.levels = []) (hsites : pass.sites = []) :
    ∃ next, Leads (chain.lines.flatMap (emitted inputs)) pass next ∧ next.levels = [] ∧
      ∀ name, (∀ line ∈ chain.inputLines, line.name ≠ siteMark ++ name) →
        (name ∈ next.sites ↔ name = (chain.chosen values).name) := by
  obtain ⟨first, rest, fallback⟩ := chain
  simp only [inputLines, guards, List.forall_mem_append, List.forall_mem_singleton, List.map_cons,
    List.forall_mem_cons, List.forall_mem_map] at hdeclared hdefined ⊢
  obtain ⟨⟨hdeclaredFirst, hdeclaredRest⟩, hdeclaredLast⟩ := hdeclared
  obtain ⟨hdefinedFirst, hdefinedRest⟩ := hdefined
  obtain ⟨pass₁, hleads₁, hpass₁, hsites₁⟩ :=
    exists_leads_first hidentifiers hdeclaredFirst hdefinedFirst hopen
  obtain ⟨pass₂, kept, hleads₂, hpass₂, hsites₂⟩ :=
    exists_leads_arms hidentifiers hdeclaredRest hdefinedRest hpass₁
  obtain ⟨pass₃, hleads₃, hlevels₃, hsites₃⟩ :=
    exists_leads_last hidentifiers hdeclaredLast hpass₂
  refine ⟨pass₃, ?_, hlevels₃, fun name hplain => ?_⟩
  · rw [lines, List.flatMap_append, List.flatMap_append]
    exact (hleads₁.append hleads₂).append hleads₃
  · obtain ⟨⟨hplainFirst, hplainRest⟩, hplainLast⟩ := hplain
    rw [hsites₃ name hplainLast, hsites₂ name hplainRest, hsites₁ name hplainFirst, hsites, chosen,
      guards, List.find?_cons]
    -- The first guard decides, or else the first of the others that holds.
    cases first.holds values with
    | true => simp
    | false =>
      cases hfind : rest.find? (Guard.holds values) with
      | some guard =>
        have hany : rest.any (Guard.holds values) = true :=
          List.any_eq_true.mpr ⟨guard, List.mem_of_find?_eq_some hfind, List.find?_some hfind⟩
        simp [hany]
      | none =>
        have hany : rest.any (Guard.holds values) = false := by
          simpa using hfind
        simp [hany]

end

end ShaderVariants
