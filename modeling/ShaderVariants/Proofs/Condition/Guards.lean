import ShaderVariants.Proofs.Condition.Eager
import ShaderVariants.Proofs.Condition.Runs

/-!
# Guards

Preprocessors differ in what they make of expressions that the analysis refuses.  Whatever they
make of them, the analysis asks no such expression without failing, so a line that one of them
drops is dropped by the analysis (`Scan.reach_of_mirrors`).
-/

namespace ShaderVariants.Condition

open Eager (Level keptIn)

/-! ## 1. Preprocessors -/

/-- How a preprocessor decides tests.  An expression that has no value here may hold or not. -/
structure Preprocessor where
  holds : Symbols → Test → Bool
  expression : ∀ {symbols : Symbols} {text : Text} {expr : Expr} {value : Int},
    Expr.ofText text = .ok expr → expr.eval symbols = .ok value →
      holds symbols (.expression text) = (value != 0)
  defined : ∀ symbols name, holds symbols (.defined name) = symbols.contains name
  notDefined : ∀ symbols name, holds symbols (.notDefined name) = !symbols.contains name
  otherwise : ∀ symbols, holds symbols .otherwise = true

namespace Preprocessor

/-- The preprocessor to which an expression without a value does not hold. -/
def eager : Preprocessor where
  holds := Eager.holds
  expression := by
    intro symbols text expr value hexpr hvalue
    simp [Eager.holds, hexpr, hvalue]
  defined := fun _ _ => rfl
  notDefined := fun _ _ => rfl
  otherwise := fun _ => rfl

/-- A test that the analysis can decide is decided alike. -/
theorem holds_of_verdict (p : Preprocessor) {symbols : Symbols} {arm : Arm} {truth : Bool}
    (h : arm.verdict symbols = .ok truth) : p.holds symbols arm.test = truth := by
  obtain ⟨test, line, text⟩ := arm
  cases test with
  | expression text =>
    simp only [Arm.verdict] at h
    split at h
    · cases h
    next expr hexpr =>
    split at h
    · cases h
    next value hvalue =>
    exact (p.expression hexpr hvalue).trans (Except.ok.inj h)
  | defined name => exact (p.defined symbols name).trans (Except.ok.inj h)
  | notDefined name => exact (p.notDefined symbols name).trans (Except.ok.inj h)
  | otherwise => exact (p.otherwise symbols).trans (Except.ok.inj h)

end Preprocessor

/-- What a preprocessor knows between two lines. -/
structure Nest where
  symbols : Symbols
  /-- The open chains, the innermost first. -/
  levels : List Level

namespace Nest

/-- What is known before the first line. -/
def start : Nest := ⟨∅, []⟩

/-- Whether the next line is kept. -/
def keeps (nest : Nest) : Bool :=
  keptIn nest.levels

def openChain (p : Preprocessor) (nest : Nest) (test : Test) : Nest :=
  { nest with
    levels := (Level.mk nest.keeps false false).next (p.holds nest.symbols test) :: nest.levels }

def pushArm (p : Preprocessor) (nest : Nest) (test : Test) : Nest :=
  match nest.levels with
  | [] => nest
  | level :: outer => { nest with levels := level.next (p.holds nest.symbols test) :: outer }

/-- Reaches a macro, which is known to later tests if it stands outside of all chains. -/
def define (nest : Nest) (name : Text) (value : Option Int) : Nest :=
  if nest.levels.isEmpty then { nest with symbols := nest.symbols.insert name value } else nest

/-- Reads a line. -/
def step (p : Preprocessor) (nest : Nest) (line : Text) : Nest :=
  match Directive.ofLine? line with
  | none => nest
  | some (.openChain test) => nest.openChain p test
  | some (.elseIf text) => nest.pushArm p (.expression text)
  | some .elseArm => nest.pushArm p .otherwise
  | some .closeChain => { nest with levels := nest.levels.tail }
  | some (.define name value) => nest.define name value

/-- What is known after some lines. -/
def after (p : Preprocessor) (nest : Nest) (lines : List Text) : Nest :=
  lines.foldl (step p) nest

end Nest

/-! ## 2. Remembered tests -/

variable {p : Preprocessor} {symbols : Symbols}

/-- An arm whose test is remembered, if it is, as the preprocessor decides it. -/
def Branch.Agrees (p : Preprocessor) (symbols : Symbols) (branch : Branch) : Prop :=
  ∀ truth, branch.known = some truth → p.holds symbols branch.arm.test = truth

/-- What the preprocessor makes of the test of an arm. -/
def Branch.decided (p : Preprocessor) (symbols : Symbols) (branch : Branch) : Bool :=
  p.holds symbols branch.arm.test

namespace Branch

theorem agrees_ofArm (arm : Arm) : (ofArm arm).Agrees p symbols := by
  intro truth htruth
  cases htruth

theorem ask_of_agrees {branch asked : Branch} {truth : Bool} (h : branch.Agrees p symbols)
    (hask : branch.ask symbols = .ok (truth, asked)) :
    branch.decided p symbols = truth ∧ asked.decided p symbols = truth ∧
      asked.Agrees p symbols := by
  rw [ask] at hask
  split at hask
  next known hknown =>
    obtain ⟨rfl, rfl⟩ := Prod.mk.inj (Except.ok.inj hask)
    exact ⟨h _ hknown, h _ hknown, h⟩
  next =>
    split at hask
    · cases hask
    next found hfound =>
      obtain ⟨rfl, rfl⟩ := Prod.mk.inj (Except.ok.inj hask)
      have hdecided := p.holds_of_verdict hfound
      exact ⟨hdecided, hdecided, fun truth htruth => hdecided.trans (Option.some.inj htruth)⟩

theorem askAny_of_agree {branches asked : List Branch} {found : Bool}
    (h : ∀ branch ∈ branches, branch.Agrees p symbols)
    (hask : askAny symbols branches = .ok (found, asked)) :
    branches.any (decided p symbols) = found ∧ asked.any (decided p symbols) = found ∧
      ∀ branch ∈ asked, branch.Agrees p symbols := by
  induction branches generalizing asked found with
  | nil =>
    obtain ⟨rfl, rfl⟩ := Prod.mk.inj (Except.ok.inj hask)
    exact ⟨rfl, rfl, h⟩
  | cons branch earlier ih =>
    obtain ⟨hbranch, hearlier⟩ := List.forall_mem_cons.mp h
    rw [askAny] at hask
    split at hask
    · cases hask
    next rest hrest =>
      obtain ⟨rfl, rfl⟩ := Prod.mk.inj (Except.ok.inj hask)
      obtain ⟨hany, hany', hagree⟩ := ih hearlier hrest
      exact ⟨by simp [hany], by simp [hany'], List.forall_mem_cons.mpr ⟨hbranch, hagree⟩⟩
    next rest hrest =>
      obtain ⟨hany, hany', hagree⟩ := ih hearlier hrest
      split at hask
      · cases hask
      next truth last hlast =>
        obtain ⟨rfl, rfl⟩ := Prod.mk.inj (Except.ok.inj hask)
        obtain ⟨htruth, htruth', hlastAgrees⟩ := ask_of_agrees hbranch hlast
        exact ⟨by simp [hany, htruth], by simp [hany', htruth'],
          List.forall_mem_cons.mpr ⟨hlastAgrees, hagree⟩⟩

end Branch

/-! ## 3. Chains -/

/-- A chain and what the preprocessor knows of it, with the levels around it. -/
structure Chain.Mirrors (p : Preprocessor) (symbols : Symbols) (chain : Chain)
    (around : List Level) (level : Level) : Prop where
  current : chain.current.Agrees p symbols
  earlier : ∀ branch ∈ chain.earlier, branch.Agrees p symbols
  around_eq : level.around = keptIn around
  taken_eq : level.taken = (chain.current :: chain.earlier).any (Branch.decided p symbols)
  kept_eq : level.kept = (level.around &&
    (!chain.earlier.any (Branch.decided p symbols) && chain.current.decided p symbols))

namespace Chain

variable {chain : Chain} {around : List Level} {level : Level}

theorem mirrors_ofArm (arm : Arm) (around : List Level) :
    (ofArm arm).Mirrors p symbols around
      ((Level.mk (keptIn around) false false).next (p.holds symbols arm.test)) where
  current := Branch.agrees_ofArm arm
  earlier := by simp [ofArm]
  around_eq := rfl
  taken_eq := by simp [Level.next, ofArm, Branch.decided, Branch.ofArm]
  kept_eq := by simp [Level.next, ofArm, Branch.decided, Branch.ofArm]

theorem Mirrors.push (h : chain.Mirrors p symbols around level) (arm : Arm) :
    (chain.push arm).Mirrors p symbols around (level.next (p.holds symbols arm.test)) where
  current := Branch.agrees_ofArm arm
  earlier := List.forall_mem_cons.mpr ⟨h.current, h.earlier⟩
  around_eq := h.around_eq
  taken_eq := by
    simp [Level.next, Chain.push, h.taken_eq, Branch.decided, Branch.ofArm, Bool.or_comm]
  kept_eq := by
    rw [Level.next, h.taken_eq, Bool.and_assoc]
    rfl

/-- A chain that can be asked is taken where the preprocessor takes it. -/
theorem Mirrors.ask (h : chain.Mirrors p symbols around level) {taken : Bool} {asked : Chain}
    (hask : chain.ask symbols = .ok (taken, asked)) :
    level.kept = (level.around && taken) ∧ asked.Mirrors p symbols around level := by
  rw [Chain.ask] at hask
  split at hask
  · cases hask
  next earlier hearlier =>
    obtain ⟨hany, hany', hagree⟩ := Branch.askAny_of_agree h.earlier hearlier
    obtain ⟨rfl, rfl⟩ := Prod.mk.inj (Except.ok.inj hask)
    refine ⟨by simp [h.kept_eq, hany], h.current, hagree, h.around_eq, ?_, ?_⟩
    · rw [h.taken_eq, List.any_cons, List.any_cons, hany, hany']
    · rw [h.kept_eq, hany, hany']
  next earlier hearlier =>
    obtain ⟨hany, hany', hagree⟩ := Branch.askAny_of_agree h.earlier hearlier
    split at hask
    · cases hask
    next truth current hcurrent =>
      obtain ⟨htruth, htruth', hcurrentAgrees⟩ := Branch.ask_of_agrees h.current hcurrent
      obtain ⟨rfl, rfl⟩ := Prod.mk.inj (Except.ok.inj hask)
      refine ⟨by simp [h.kept_eq, hany, htruth], hcurrentAgrees, hagree, h.around_eq, ?_, ?_⟩
      · rw [h.taken_eq, List.any_cons, List.any_cons, hany, hany', htruth, htruth']
      · rw [h.kept_eq, hany, hany', htruth, htruth']

/-- The open chains and what the preprocessor knows of them. -/
inductive AllMirror (p : Preprocessor) (symbols : Symbols) : List Chain → List Level → Prop
  | nil : AllMirror p symbols [] []
  | cons {chain : Chain} {level : Level} {chains : List Chain} {levels : List Level}
      (outer : AllMirror p symbols chains levels)
      (inner : chain.Mirrors p symbols levels level) :
      AllMirror p symbols (chain :: chains) (level :: levels)

/-- Where all chains can be asked, the current line is kept if the preprocessor keeps it. -/
theorem AllMirror.askAll {chains asked : List Chain} {levels : List Level} {kept : Bool}
    (h : AllMirror p symbols chains levels)
    (hask : Chain.askAll symbols chains = .ok (kept, asked)) :
    keptIn levels = kept ∧ AllMirror p symbols asked levels := by
  induction h generalizing asked kept with
  | nil =>
    obtain ⟨rfl, rfl⟩ := Prod.mk.inj (Except.ok.inj hask)
    exact ⟨rfl, .nil⟩
  | @cons chain level chains levels outer inner ih =>
    rw [Chain.askAll] at hask
    split at hask
    · cases hask
    next rest hrest =>
      obtain ⟨haround, hmirror⟩ := ih hrest
      obtain ⟨rfl, rfl⟩ := Prod.mk.inj (Except.ok.inj hask)
      refine ⟨?_, .cons hmirror inner⟩
      show level.kept = false
      rw [inner.kept_eq, inner.around_eq, haround, Bool.false_and]
    next rest hrest =>
      obtain ⟨haround, hmirror⟩ := ih hrest
      split at hask
      · cases hask
      next taken innermost hinnermost =>
        obtain ⟨hkept, hinner⟩ := inner.ask hinnermost
        obtain ⟨rfl, rfl⟩ := Prod.mk.inj (Except.ok.inj hask)
        refine ⟨?_, .cons hmirror hinner⟩
        show level.kept = taken
        rw [hkept, inner.around_eq, haround, Bool.true_and]

theorem AllMirror.isEmpty_eq {chains : List Chain} {levels : List Level}
    (h : AllMirror p symbols chains levels) : chains.isEmpty = levels.isEmpty := by
  cases h <;> rfl

end Chain

/-! ## 4. The analysis -/

/-- A line that marks the site of no input. -/
def Unmarked (line : Text) : Prop :=
  ∀ name value, Directive.ofLine? line = some (.define name value) →
    Text.strip? siteMark name = none

/-- The state of the analysis and what the preprocessor knows after the same lines. -/
structure Scan.Mirrors (p : Preprocessor) (scan : Scan) (nest : Nest) : Prop where
  symbols_eq : scan.symbols = nest.symbols
  chains : Chain.AllMirror p nest.symbols scan.chains nest.levels

namespace Scan

variable {inputs : List Input} {scan next last : Scan} {nest : Nest} {number : Nat}

theorem mirrors_start : start.Mirrors p .start where
  symbols_eq := rfl
  chains := .nil

theorem Mirrors.openChain (h : scan.Mirrors p nest) (arm : Arm) :
    (scan.openChain arm).Mirrors p (nest.openChain p arm.test) where
  symbols_eq := h.symbols_eq
  chains := .cons h.chains (Chain.mirrors_ofArm arm _)

theorem Mirrors.pushArm (h : scan.Mirrors p nest) {arm : Arm} {reason : Reason}
    (hpush : scan.pushArm arm reason = .ok next) :
    next.Mirrors p (nest.pushArm p arm.test) ∧ next.active = scan.active := by
  obtain ⟨symbols, chains, active⟩ := scan
  obtain ⟨symbols', levels⟩ := nest
  obtain ⟨hsymbols, hchains⟩ := h
  cases hchains with
  | nil => cases hpush
  | cons outer inner =>
    obtain rfl := Except.ok.inj hpush
    exact ⟨⟨hsymbols, .cons outer (inner.push arm)⟩, rfl⟩

/-- A macro that marks no input is known to both or to neither. -/
theorem Mirrors.symbol (h : scan.Mirrors p nest) {name : Text} {value : Option Int}
    (hmark : Text.strip? siteMark name = none)
    (hdefine : scan.define inputs name value = .ok next) :
    next.Mirrors p (nest.define name value) ∧ next.active = scan.active := by
  rw [Scan.define, hmark] at hdefine
  simp only [h.chains.isEmpty_eq] at hdefine
  rw [Nest.define]
  obtain ⟨symbols, levels⟩ := nest
  cases levels with
  | nil =>
    obtain rfl := Except.ok.inj hdefine
    refine ⟨⟨?_, ?_⟩, rfl⟩
    · show scan.symbols.insert name value = symbols.insert name value
      rw [h.symbols_eq]
    · have hchains := h.chains
      show Chain.AllMirror p (symbols.insert name value) scan.chains []
      cases hchains' : scan.chains with
      | nil => exact .nil
      | cons chain outer =>
        rw [hchains'] at hchains
        cases hchains
  | cons level outer =>
    obtain rfl := Except.ok.inj hdefine
    exact ⟨h, rfl⟩

/-- The mark of an input makes it active where the preprocessor keeps the line. -/
theorem Mirrors.reach (h : scan.Mirrors p nest) {index : Nat}
    (hreach : scan.reach index = .ok next) :
    next.Mirrors p nest ∧
      next.active = if nest.keeps then scan.active.insert index else scan.active := by
  rw [Scan.reach, h.symbols_eq] at hreach
  split at hreach
  · cases hreach
  next kept asked hask =>
    obtain ⟨hkept, hmirror⟩ := h.chains.askAll hask
    obtain rfl := Except.ok.inj hreach
    refine ⟨⟨rfl, hmirror⟩, ?_⟩
    rw [Nest.keeps, hkept]

/-- A line that marks no input is read alike and makes no input active. -/
theorem Mirrors.step (h : scan.Mirrors p nest) {line : Text} (hmark : Unmarked line)
    (hstep : scan.step inputs number line = .ok next) :
    next.Mirrors p (nest.step p line) ∧ next.active = scan.active := by
  rw [Nest.step]
  rw [Scan.step] at hstep
  cases hline : Directive.ofLine? line with
  | none =>
    rw [hline] at hstep
    exact Except.ok.inj hstep ▸ ⟨h, rfl⟩
  | some directive =>
    rw [hline] at hstep
    cases directive with
    | openChain test =>
      obtain rfl := Except.ok.inj hstep
      exact ⟨h.openChain _, rfl⟩
    | elseIf text => exact h.pushArm hstep
    | elseArm => exact h.pushArm hstep
    | closeChain =>
      obtain ⟨symbols, chains, active⟩ := scan
      obtain ⟨symbols', levels⟩ := nest
      obtain ⟨hsymbols, hchains⟩ := h
      cases hchains with
      | nil => cases hstep
      | cons outer inner =>
        obtain rfl := Except.ok.inj hstep
        exact ⟨⟨hsymbols, outer⟩, rfl⟩
    | define name value => exact h.symbol (hmark name value hline) hstep

theorem Mirrors.run (h : scan.Mirrors p nest) {lines : List Text}
    (hmark : ∀ line ∈ lines, Unmarked line)
    (hrun : Scan.run inputs scan number lines = .ok last) :
    last.Mirrors p (nest.after p lines) ∧ last.active = scan.active := by
  induction lines generalizing scan nest number with
  | nil =>
    obtain rfl := Except.ok.inj hrun
    exact ⟨h, rfl⟩
  | cons line rest ih =>
    obtain ⟨hline, hrest⟩ := List.forall_mem_cons.mp hmark
    rw [Scan.run] at hrun
    split at hrun
    · cases hrun
    next next hnext =>
      obtain ⟨hmirror, hactive⟩ := h.step hline hnext
      obtain ⟨hlast, hactive'⟩ := ih hmirror hrest hrun
      exact ⟨hlast, hactive'.trans hactive⟩

end Scan

end ShaderVariants.Condition
