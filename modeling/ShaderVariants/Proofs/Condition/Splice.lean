import Mathlib.Data.List.Forall2
import ShaderVariants.Proofs.Condition.Runs

/-!
# Lines between the lines of a source

Symbols that no test asks for may be defined or not, and lines may stand elsewhere than before: a
scan that got through a source still gets through it and finds the same inputs
(`Scan.run_of_like`).
-/

namespace ShaderVariants.Condition

/-! ## 1. What a test asks for -/

/-- Whether a test asks for a symbol. -/
def Test.Asks (name : Text) : Test → Prop
  | .expression text => ∃ expr, Expr.ofText text = .ok expr ∧ name ∈ expr.names
  | .defined asked => asked = name
  | .notDefined asked => asked = name
  | .otherwise => False

/-- The text that a test is read from. -/
def Test.text? : Test → Option Text
  | .expression text => some text
  | .defined name => some name
  | .notDefined name => some name
  | .otherwise => none

/-- What a test asks for is a whole word of its text. -/
theorem Test.hasWord_of_asks {test : Test} {name : Text} (h : test.Asks name) :
    ∃ text, test.text? = some text ∧ Text.HasWord text name := by
  cases test with
  | expression text =>
    obtain ⟨expr, hexpr, hname⟩ := h
    exact ⟨text, rfl, hasWord_of_mem_names hexpr hname⟩
  | defined asked | notDefined asked =>
    obtain rfl : asked = name := h
    exact ⟨asked, rfl, .self asked⟩
  | otherwise => exact h.elim

/-- The symbols that a test asks for. -/
def Test.names : Test → List Text
  | .expression text =>
    match Expr.ofText text with
    | .error _ => []
    | .ok expr => expr.names
  | .defined name => [name]
  | .notDefined name => [name]
  | .otherwise => []

theorem Test.mem_names_of_asks {test : Test} {name : Text} (h : test.Asks name) :
    name ∈ test.names := by
  cases test with
  | expression text =>
    obtain ⟨expr, hexpr, hname⟩ := h
    rw [names, hexpr]
    exact hname
  | defined asked | notDefined asked =>
    obtain rfl : asked = name := h
    exact List.mem_singleton_self asked
  | otherwise => exact h.elim

/-- The test that a line starts. -/
def testOf? (line : Text) : Option Test :=
  match Directive.ofLine? line with
  | some (.openChain test) => some test
  | some (.elseIf text) => some (.expression text)
  | _ => none

section

variable {hidden : Text → Prop} {symbols others : Symbols}

/-- A test that asks for no hidden symbol. -/
def Test.Spares (hidden : Text → Prop) (test : Test) : Prop :=
  ∀ name, test.Asks name → ¬ hidden name

theorem Test.spares_otherwise : Test.otherwise.Spares hidden :=
  fun _ hasks => hasks.elim

/-- Symbols that differ at most in hidden ones. -/
def SymbolsAgree (hidden : Text → Prop) (symbols others : Symbols) : Prop :=
  ∀ name, ¬ hidden name → symbols[name]? = others[name]?

theorem SymbolsAgree.contains_eq (h : SymbolsAgree hidden symbols others) {name : Text}
    (hname : ¬ hidden name) : symbols.contains name = others.contains name := by
  rw [Std.TreeMap.contains_eq_isSome_getElem?, Std.TreeMap.contains_eq_isSome_getElem?, h name hname]

theorem SymbolsAgree.insert (h : SymbolsAgree hidden symbols others) (name : Text)
    (value : Option Int) :
    SymbolsAgree hidden (symbols.insert name value) (others.insert name value) := by
  intro asked hasked
  rw [Std.TreeMap.getElem?_insert, Std.TreeMap.getElem?_insert, h asked hasked]

theorem SymbolsAgree.insert_hidden (h : SymbolsAgree hidden symbols others) {name : Text}
    (hname : hidden name) (value : Option Int) :
    SymbolsAgree hidden symbols (others.insert name value) := by
  intro asked hasked
  have hne : compare name asked ≠ .eq := by
    intro heq
    exact hasked (Std.compare_eq_iff_eq.mp heq ▸ hname)
  rw [Std.TreeMap.getElem?_insert, if_neg hne]
  exact h asked hasked

/-- The symbols that the test of a line asks for. -/
def askedNames (line : Text) : List Text :=
  (testOf? line).elim [] Test.names

/-! ## 2. Arms and chains -/

theorem Arm.verdict_of_agree (h : SymbolsAgree hidden symbols others) {arm other : Arm}
    (hsame : other.test = arm.test) (hspares : arm.test.Spares hidden) {holds : Bool}
    (hverdict : arm.verdict symbols = .ok holds) : other.verdict others = .ok holds := by
  unfold verdict at hverdict ⊢
  rw [hsame]
  cases htest : arm.test with
  | expression text =>
    rw [htest] at hspares
    simp only [htest] at hverdict ⊢
    cases hexpr : Expr.ofText text with
    | error e =>
      rw [hexpr] at hverdict
      cases hverdict
    | ok expr =>
      have heval : expr.eval symbols = expr.eval others :=
        Expr.eval_congr fun name hname => h name (hspares name ⟨expr, hexpr, hname⟩)
      rw [hexpr] at hverdict
      simp only [heval] at hverdict ⊢
      cases hvalue : expr.eval others with
      | error e =>
        rw [hvalue] at hverdict
        cases hverdict
      | ok value =>
        rw [hvalue] at hverdict
        exact hverdict
  | defined name =>
    rw [htest] at hspares
    simp only [htest] at hverdict ⊢
    rw [← h.contains_eq (hspares name rfl)]
    exact hverdict
  | notDefined name =>
    rw [htest] at hspares
    simp only [htest] at hverdict ⊢
    rw [← h.contains_eq (hspares name rfl)]
    exact hverdict
  | otherwise =>
    simp only [htest] at hverdict ⊢
    exact hverdict

/-- Two branches with the same test, of which the same is remembered.  Where their lines stand and
how they are written does not matter. -/
structure Branch.Like (hidden : Text → Prop) (branch other : Branch) : Prop where
  test : other.arm.test = branch.arm.test
  known : other.known = branch.known
  spares : branch.arm.test.Spares hidden

/-- Two chains with the same tests, of which the same is remembered. -/
structure Chain.Like (hidden : Text → Prop) (chain other : Chain) : Prop where
  current : chain.current.Like hidden other.current
  earlier : List.Forall₂ (Branch.Like hidden) chain.earlier other.earlier

namespace Branch

theorem ask_of_like (h : SymbolsAgree hidden symbols others) {branch other asked : Branch}
    (hlike : branch.Like hidden other) {holds : Bool}
    (hask : branch.ask symbols = .ok (holds, asked)) :
    ∃ asked', other.ask others = .ok (holds, asked') ∧ asked.Like hidden asked' := by
  unfold ask at hask ⊢
  rw [hlike.known]
  cases hknown : branch.known with
  | some known =>
    rw [hknown] at hask
    obtain ⟨rfl, rfl⟩ := Prod.mk.inj (Except.ok.inj hask)
    exact ⟨other, rfl, hlike⟩
  | none =>
    rw [hknown] at hask
    simp only at hask ⊢
    cases hverdict : branch.arm.verdict symbols with
    | error obstacle =>
      rw [hverdict] at hask
      cases hask
    | ok found =>
      rw [hverdict] at hask
      obtain ⟨rfl, rfl⟩ := Prod.mk.inj (Except.ok.inj hask)
      rw [Arm.verdict_of_agree h hlike.test hlike.spares hverdict]
      exact ⟨_, rfl, hlike.test, rfl, hlike.spares⟩

theorem askAny_of_like (h : SymbolsAgree hidden symbols others) {branches branches' asked : List Branch}
    (hlike : List.Forall₂ (Like hidden) branches branches') {any : Bool}
    (hask : askAny symbols branches = .ok (any, asked)) :
    ∃ asked', askAny others branches' = .ok (any, asked') ∧
      List.Forall₂ (Like hidden) asked asked' := by
  induction hlike generalizing asked any with
  | nil =>
    obtain ⟨rfl, rfl⟩ := Prod.mk.inj (Except.ok.inj hask)
    exact ⟨[], rfl, .nil⟩
  | @cons branch branch' earlier earlier' hbranch hearlier ih =>
    -- The earlier arms are asked first, and this one only if none of them holds.
    rw [askAny] at hask
    split at hask
    · cases hask
    next asked hasked =>
      obtain ⟨rfl, rfl⟩ := Prod.mk.inj (Except.ok.inj hask)
      obtain ⟨asked', hasked', hlike⟩ := ih hasked
      exact ⟨branch' :: asked', by rw [askAny, hasked'], .cons hbranch hlike⟩
    next asked hasked =>
      split at hask
      · cases hask
      next holds last hlast =>
        obtain ⟨rfl, rfl⟩ := Prod.mk.inj (Except.ok.inj hask)
        obtain ⟨asked', hasked', hlike⟩ := ih hasked
        obtain ⟨last', hlast', hlikeLast⟩ := ask_of_like h hbranch hlast
        refine ⟨last' :: asked', ?_, .cons hlikeLast hlike⟩
        rw [askAny, hasked']
        simp only [hlast']

end Branch

namespace Chain

theorem ask_of_like (h : SymbolsAgree hidden symbols others) {chain other asked : Chain}
    (hlike : chain.Like hidden other) {taken : Bool}
    (hask : chain.ask symbols = .ok (taken, asked)) :
    ∃ asked', other.ask others = .ok (taken, asked') ∧ asked.Like hidden asked' := by
  rw [ask] at hask
  split at hask
  · cases hask
  next earlier hearlier =>
    obtain ⟨rfl, rfl⟩ := Prod.mk.inj (Except.ok.inj hask)
    obtain ⟨earlier', hearlier', hlikeEarlier⟩ := Branch.askAny_of_like h hlike.earlier hearlier
    refine ⟨⟨other.current, earlier'⟩, ?_, hlike.current, hlikeEarlier⟩
    rw [ask, hearlier']
  next earlier hearlier =>
    split at hask
    · cases hask
    next holds current hcurrent =>
      obtain ⟨rfl, rfl⟩ := Prod.mk.inj (Except.ok.inj hask)
      obtain ⟨earlier', hearlier', hlikeEarlier⟩ := Branch.askAny_of_like h hlike.earlier hearlier
      obtain ⟨current', hcurrent', hlikeCurrent⟩ := Branch.ask_of_like h hlike.current hcurrent
      refine ⟨⟨current', earlier'⟩, ?_, hlikeCurrent, hlikeEarlier⟩
      rw [ask, hearlier']
      simp only [hcurrent']

theorem askAll_of_like (h : SymbolsAgree hidden symbols others) {chains chains' asked : List Chain}
    (hlike : List.Forall₂ (Like hidden) chains chains') {kept : Bool}
    (hask : askAll symbols chains = .ok (kept, asked)) :
    ∃ asked', askAll others chains' = .ok (kept, asked') ∧
      List.Forall₂ (Like hidden) asked asked' := by
  induction hlike generalizing asked kept with
  | nil =>
    obtain ⟨rfl, rfl⟩ := Prod.mk.inj (Except.ok.inj hask)
    exact ⟨[], rfl, .nil⟩
  | @cons chain chain' outer outer' hchain houter ih =>
    rw [askAll] at hask
    split at hask
    · cases hask
    next asked hasked =>
      obtain ⟨rfl, rfl⟩ := Prod.mk.inj (Except.ok.inj hask)
      obtain ⟨asked', hasked', hlike⟩ := ih hasked
      exact ⟨chain' :: asked', by rw [askAll, hasked'], .cons hchain hlike⟩
    next asked hasked =>
      split at hask
      · cases hask
      next taken inner hinner =>
        obtain ⟨rfl, rfl⟩ := Prod.mk.inj (Except.ok.inj hask)
        obtain ⟨asked', hasked', hlike⟩ := ih hasked
        obtain ⟨inner', hinner', hlikeInner⟩ := ask_of_like h hchain hinner
        refine ⟨inner' :: asked', ?_, .cons hlikeInner hlike⟩
        rw [askAll, hasked']
        simp only [hinner']

end Chain

/-! ## 3. Scans -/

/-- Two scans that differ at most in hidden symbols and in where the open chains stand. -/
structure Scan.Like (hidden : Text → Prop) (scan other : Scan) : Prop where
  symbols : SymbolsAgree hidden scan.symbols other.symbols
  chains : List.Forall₂ (Chain.Like hidden) scan.chains other.chains
  active : other.active = scan.active

/-- A line whose test asks for no hidden symbol. -/
def LineSpares (hidden : Text → Prop) (line : Text) : Prop :=
  ∀ test, testOf? line = some test → test.Spares hidden

/-- A line that, if it is a directive at all, defines a hidden symbol. -/
def DefinesHidden (hidden : Text → Prop) (line : Text) : Prop :=
  ∀ directive, Directive.ofLine? line = some directive →
    ∃ name value, directive = .define name value ∧ hidden name ∧
      Text.strip? siteMark name = none

theorem lineSpares_of_askedNames {line : Text} (h : ∀ name ∈ askedNames line, ¬ hidden name) :
    LineSpares hidden line := by
  intro test htest name hasks
  refine h name ?_
  rw [askedNames, htest]
  exact Test.mem_names_of_asks hasks

/-- A line that tests nothing. -/
theorem lineSpares_of_isQuiet {line : Text} (h : IsQuiet line) : LineSpares hidden line := by
  intro test htest
  unfold testOf? at htest
  cases hdirective : Directive.ofLine? line with
  | none =>
    rw [hdirective] at htest
    cases htest
  | some directive =>
    obtain ⟨name, value, rfl⟩ := h directive hdirective
    rw [hdirective] at htest
    cases htest

namespace Scan

variable {inputs : List Input} {scan other next : Scan}

theorem like_refl (hopen : scan.chains = []) : scan.Like hidden scan where
  symbols := fun _ _ => rfl
  chains := by
    rw [hopen]
    exact .nil
  active := rfl

theorem Like.openChain (h : scan.Like hidden other) (arm : Arm) (hspares : arm.test.Spares hidden)
    (line : Nat) (text : Text) :
    (scan.openChain arm).Like hidden (other.openChain ⟨arm.test, line, text⟩) where
  symbols := h.symbols
  chains := .cons ⟨⟨rfl, rfl, hspares⟩, .nil⟩ h.chains
  active := h.active

theorem Like.pushArm (h : scan.Like hidden other) (arm : Arm) (hspares : arm.test.Spares hidden)
    (line : Nat) (text : Text) {reason : Reason} (hstep : scan.pushArm arm reason = .ok next) :
    ∃ next', other.pushArm ⟨arm.test, line, text⟩ reason = .ok next' ∧ next.Like hidden next' := by
  have hchains := h.chains
  unfold Scan.pushArm at hstep ⊢
  generalize hopen : scan.chains = chains at hstep hchains
  generalize hopen' : other.chains = chains' at hchains ⊢
  cases hchains with
  | nil => cases hstep
  | cons hchain houter =>
    obtain rfl := Except.ok.inj hstep
    exact ⟨_, rfl, h.symbols,
      .cons ⟨⟨rfl, rfl, hspares⟩, .cons hchain.current hchain.earlier⟩ houter, h.active⟩

theorem Like.closeChain (h : scan.Like hidden other) {chain : Chain} {outer : List Chain}
    (hopen : scan.chains = chain :: outer) :
    ∃ chain' outer', other.chains = chain' :: outer' ∧
      Scan.Like hidden { scan with chains := outer } { other with chains := outer' } := by
  have hchains := h.chains
  rw [hopen] at hchains
  generalize hopen' : other.chains = chains' at hchains
  cases hchains with
  | cons hchain houter => exact ⟨_, _, rfl, h.symbols, houter, h.active⟩

theorem Like.reach (h : scan.Like hidden other) {index : Nat} (hstep : scan.reach index = .ok next) :
    ∃ next', other.reach index = .ok next' ∧ next.Like hidden next' := by
  rw [Scan.reach] at hstep
  split at hstep
  · cases hstep
  next kept chains hask =>
    obtain rfl := Except.ok.inj hstep
    obtain ⟨chains', hask', hlike⟩ := Chain.askAll_of_like h.symbols h.chains hask
    rw [Scan.reach, hask']
    exact ⟨_, rfl, h.symbols, hlike, by simp only [h.active]⟩

theorem Like.isEmpty_chains (h : scan.Like hidden other) :
    other.chains.isEmpty = scan.chains.isEmpty := by
  have hchains := h.chains
  generalize scan.chains = chains at hchains
  generalize other.chains = chains' at hchains
  cases hchains <;> rfl

theorem Like.define (h : scan.Like hidden other) {name : Text} {value : Option Int}
    (hstep : scan.define inputs name value = .ok next) :
    ∃ next', other.define inputs name value = .ok next' ∧ next.Like hidden next' := by
  unfold Scan.define at hstep ⊢
  cases hsite : Text.strip? siteMark name with
  | some inputName =>
    rw [hsite] at hstep
    simp only at hstep ⊢
    cases hfound : inputs.find? fun input => input.name == inputName with
    | some input =>
      rw [hfound] at hstep
      exact h.reach hstep
    | none =>
      rw [hfound] at hstep
      exact ⟨other, rfl, Except.ok.inj hstep ▸ h⟩
  | none =>
    rw [hsite] at hstep
    simp only at hstep ⊢
    rw [h.isEmpty_chains]
    by_cases hopen : scan.chains.isEmpty = true
    · rw [if_pos hopen] at hstep ⊢
      obtain rfl := Except.ok.inj hstep
      exact ⟨_, rfl, h.symbols.insert name value, h.chains, h.active⟩
    · rw [if_neg hopen] at hstep ⊢
      exact ⟨other, rfl, Except.ok.inj hstep ▸ h⟩

/-- The same directive is followed alike, under whatever number its line is read. -/
theorem step_of_like (h : scan.Like hidden other) {line line' : Text}
    (hsame : Directive.ofLine? line' = Directive.ofLine? line) (hline : LineSpares hidden line)
    {number : Nat} (number' : Nat) (hstep : scan.step inputs number line = .ok next) :
    ∃ next', other.step inputs number' line' = .ok next' ∧ next.Like hidden next' := by
  unfold LineSpares testOf? at hline
  unfold step at hstep ⊢
  rw [hsame]
  cases hdirective : Directive.ofLine? line with
  | none =>
    rw [hdirective] at hstep
    exact ⟨other, rfl, Except.ok.inj hstep ▸ h⟩
  | some directive =>
    rw [hdirective] at hline hstep
    cases directive with
    | openChain test =>
      obtain rfl := Except.ok.inj hstep
      exact ⟨_, rfl, h.openChain ⟨test, number, Text.trim line⟩ (hline test rfl) number' _⟩
    | elseIf text =>
      exact h.pushArm ⟨.expression text, number, Text.trim line⟩ (hline _ rfl) number' _ hstep
    | elseArm =>
      exact h.pushArm ⟨.otherwise, number, Text.trim line⟩ Test.spares_otherwise number' _ hstep
    | closeChain =>
      simp only at hstep ⊢
      split at hstep
      · cases hstep
      next chain outer hopen =>
        obtain rfl := Except.ok.inj hstep
        obtain ⟨chain', outer', hopen', hlike⟩ := h.closeChain hopen
        rw [hopen']
        exact ⟨_, rfl, hlike⟩
    | define name value => exact h.define hstep

/-- Lines with the same directives are followed alike, wherever they start. -/
theorem run_of_like {lines lines' : List Text}
    (hsame : List.Forall₂ (fun line line' => Directive.ofLine? line' = Directive.ofLine? line)
      lines lines')
    (hlines : ∀ line ∈ lines, LineSpares hidden line)
    (h : scan.Like hidden other) {number : Nat} (number' : Nat)
    (hrun : run inputs scan number lines = .ok next) :
    ∃ next', run inputs other number' lines' = .ok next' ∧ next.Like hidden next' := by
  induction hsame generalizing scan other number number' with
  | nil => exact ⟨other, rfl, Except.ok.inj hrun ▸ h⟩
  | cons hfirst _ ih =>
    obtain ⟨hline, hrest⟩ := List.forall_mem_cons.mp hlines
    rw [run] at hrun
    split at hrun
    · cases hrun
    next middle hmiddle =>
      obtain ⟨middle', hmiddle', hlike⟩ := step_of_like h hfirst hline number' hmiddle
      rw [run, hmiddle']
      exact ih hrest hlike (number' + 1) hrun

theorem Like.finish (h : scan.Like hidden other) {active : InputSet}
    (hfinish : scan.finish = .ok active) : other.finish = .ok active := by
  have hchains := h.chains
  unfold Scan.finish at hfinish ⊢
  generalize scan.chains = chains at hfinish hchains
  generalize other.chains = chains' at hchains ⊢
  cases hchains with
  | nil =>
    rw [h.active]
    exact hfinish
  | cons => cases hfinish

/-! ## 4. Lines that are put in -/

/-- Lines that define hidden symbols outside of all chains go unnoticed. -/
theorem run_of_definesHidden {lines : List Text}
    (hlines : ∀ line ∈ lines, DefinesHidden hidden line)
    (h : scan.Like hidden other) (hopen : scan.chains = []) (number : Nat) :
    ∃ next, run inputs other number lines = .ok next ∧ scan.Like hidden next := by
  induction lines generalizing other number with
  | nil => exact ⟨other, rfl, h⟩
  | cons line rest ih =>
    obtain ⟨hline, hrest⟩ := List.forall_mem_cons.mp hlines
    obtain ⟨next, hstep, hnext⟩ : ∃ next, other.step inputs number line = .ok next ∧
        scan.Like hidden next := by
      cases hdirective : Directive.ofLine? line with
      | none => exact ⟨other, step_of_ofLine?_eq_none hdirective, h⟩
      | some directive =>
        obtain ⟨name, value, rfl, hhidden, hsite⟩ := hline directive hdirective
        have hclosed : other.chains.isEmpty = true := by rw [h.isEmpty_chains, hopen]; rfl
        refine ⟨{ other with symbols := other.symbols.insert name value }, ?_,
          h.symbols.insert_hidden hhidden value, h.chains, h.active⟩
        simp only [step, hdirective, define, hsite, hclosed, if_true]
    rw [run, hstep]
    exact ih hrest hnext (number + 1)

end Scan

end

end ShaderVariants.Condition
