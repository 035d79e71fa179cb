import Mathlib.Data.List.Nodup
import ShaderVariants.Condition.ActiveInputs
import ShaderVariants.Proofs.Condition.Names

/-!
# Eager preprocessing

A preprocessor that decides every arm when it reaches it, as a second account of what conditional
compilation keeps.  The analysis puts decisions off until a mark asks for them and remembers them;
it finds the same, because no symbol changes while a chain is open (`Scan.run_of_follows`).
-/

namespace ShaderVariants.Condition

/-! ## 1. The preprocessor -/

namespace Eager

/-- Whether a test holds; an expression that has no value does not. -/
def holds (symbols : Symbols) : Test → Bool
  | .expression text =>
    match Expr.ofText text with
    | .error _ => false
    | .ok expr =>
      match expr.eval symbols with
      | .error _ => false
      | .ok value => value != 0
  | .defined name => symbols.contains name
  | .notDefined name => !symbols.contains name
  | .otherwise => true

/-- An open chain. -/
structure Level where
  /-- Whether the lines around the chain are kept. -/
  around : Bool
  /-- Whether the test of some arm held, the current one included. -/
  taken : Bool
  /-- Whether the lines of the current arm are kept. -/
  kept : Bool
  deriving Repr, DecidableEq

/-- The chain with another arm, which is kept if all around is, no arm before it was taken and its
own test holds. -/
def Level.next (level : Level) (own : Bool) : Level :=
  ⟨level.around, level.taken || own, level.around && !level.taken && own⟩

/-- Whether a line inside the given chains is kept, the innermost chain first. -/
def keptIn : List Level → Bool
  | [] => true
  | level :: _ => level.kept

/-- What the preprocessor knows after some lines. -/
structure Pass where
  symbols : Symbols
  /-- The open chains, the innermost first. -/
  levels : List Level
  /-- The names of the inputs whose marks were kept, the last one first. -/
  sites : List Text

namespace Pass

/-- What is known before the first line. -/
def start : Pass := ⟨∅, [], []⟩

/-- Opens a chain and decides its first arm. -/
def openChain (pass : Pass) (test : Test) : Pass :=
  { pass with
    levels := (Level.mk (keptIn pass.levels) false false).next (holds pass.symbols test) ::
      pass.levels }

/-- Decides another arm of the innermost chain. -/
def pushArm (pass : Pass) (test : Test) : Pass :=
  match pass.levels with
  | [] => pass
  | level :: outer => { pass with levels := level.next (holds pass.symbols test) :: outer }

/-- Reaches a definition: a mark, or outside of all chains a symbol. -/
def define (pass : Pass) (name : Text) (value : Option Int) : Pass :=
  match Text.strip? siteMark name with
  | some input =>
    { pass with sites := if keptIn pass.levels then input :: pass.sites else pass.sites }
  | none =>
    if pass.levels.isEmpty then { pass with symbols := pass.symbols.insert name value } else pass

/-- Reads a line. -/
def step (pass : Pass) (line : Text) : Pass :=
  match Directive.ofLine? line with
  | none => pass
  | some (.openChain test) => pass.openChain test
  | some (.elseIf text) => pass.pushArm (.expression text)
  | some .elseArm => pass.pushArm .otherwise
  | some .closeChain => { pass with levels := pass.levels.tail }
  | some (.define name value) => pass.define name value

/-- What is known after all of the lines. -/
def ofLines (lines : List Text) : Pass :=
  lines.foldl step start

end Pass

end Eager

/-! ## 2. Nesting and values -/

/-- How many chains are open after a line, with `depth` open ones before it; `none` if the line
continues or closes a chain and there is none. -/
def depthAfter? (depth : Nat) (line : Text) : Option Nat :=
  match Directive.ofLine? line, depth with
  | some (.openChain _), depth => some (depth + 1)
  | some (.elseIf _), 0 => none
  | some .elseArm, 0 => none
  | some .closeChain, 0 => none
  | some .closeChain, depth + 1 => some depth
  | _, depth => some depth

/-- Every line that continues or closes a chain has an open one, and every chain is closed. -/
def Balanced (lines : List Text) : Prop :=
  lines.foldlM depthAfter? 0 = some 0

/-- Whether the text of an expression can be read and evaluated. -/
def HasValue (symbols : Symbols) (text : Text) : Prop :=
  ∃ expr value, Expr.ofText text = .ok expr ∧ expr.eval symbols = .ok value

/-- Every expression of the lines behind `pass` has a value under the symbols that the lines before
it define outside of all chains. -/
inductive Evaluable : Eager.Pass → List Text → Prop
  | nil (pass : Eager.Pass) : Evaluable pass []
  | cons {pass : Eager.Pass} {line : Text} {rest : List Text}
      (value : ∀ text, expressionOf? line = some text → HasValue pass.symbols text)
      (after : Evaluable (pass.step line) rest) : Evaluable pass (line :: rest)

theorem HasValue.of_lexemes {symbols : Symbols} {text : Text} (lexemes : List Lexeme) (expr : Expr)
    (value : Int) (hlexemes : Lexeme.ofText text = .ok lexemes)
    (hexpr : Expr.ofLexemes lexemes = .ok expr) (hvalue : expr.eval symbols = .ok value) :
    HasValue symbols text :=
  ⟨expr, value, by rw [Expr.ofText, hlexemes]; exact hexpr, hvalue⟩

namespace Evaluable

variable {pass : Eager.Pass} {line : Text} {rest : List Text}

theorem skip (hline : expressionOf? line = none) (h : Evaluable (pass.step line) rest) :
    Evaluable pass (line :: rest) :=
  .cons (fun text htext => by simp [hline] at htext) h

theorem ask {text : Text} (hline : expressionOf? line = some text)
    (hvalue : HasValue pass.symbols text) (h : Evaluable (pass.step line) rest) :
    Evaluable pass (line :: rest) :=
  .cons (fun text' htext => by
    obtain rfl : text = text' := Option.some.inj (hline.symm.trans htext)
    exact hvalue) h

end Evaluable

/-! ## 3. Remembered tests -/

open Eager

theorem Arm.verdict_eq_ok {symbols : Symbols} {arm : Arm}
    (h : ∀ text, arm.test = .expression text → HasValue symbols text) :
    arm.verdict symbols = .ok (holds symbols arm.test) := by
  obtain ⟨test, line, text⟩ := arm
  cases test with
  | expression text =>
    obtain ⟨expr, value, hexpr, hvalue⟩ := h text rfl
    simp [Arm.verdict, holds, hexpr, hvalue]
  | defined name => rfl
  | notDefined name => rfl
  | otherwise => rfl

/-- An arm whose test can be decided, and is remembered as it holds if it is remembered. -/
structure Branch.Sound (symbols : Symbols) (branch : Branch) : Prop where
  verdict : branch.arm.verdict symbols = .ok (holds symbols branch.arm.test)
  known : ∀ truth, branch.known = some truth → truth = holds symbols branch.arm.test

/-- Whether the test of an arm holds. -/
def Branch.holds (symbols : Symbols) (branch : Branch) : Bool :=
  Eager.holds symbols branch.arm.test

namespace Branch

theorem sound_ofArm {symbols : Symbols} {arm : Arm}
    (h : arm.verdict symbols = .ok (Eager.holds symbols arm.test)) :
    (ofArm arm).Sound symbols :=
  ⟨h, by simp [ofArm]⟩

/-- Asking tells whether the test holds and changes nothing but what is remembered. -/
theorem ask_of_sound {symbols : Symbols} {branch : Branch} (h : branch.Sound symbols) :
    ∃ asked, branch.ask symbols = .ok (branch.holds symbols, asked) ∧
      asked.Sound symbols ∧ asked.arm = branch.arm := by
  rw [ask]
  cases hknown : branch.known with
  | some truth =>
    exact ⟨branch, by rw [h.known truth hknown]; rfl, h, rfl⟩
  | none =>
    rw [h.verdict]
    exact ⟨_, rfl, ⟨h.verdict, fun truth ht => (Option.some.inj ht).symm⟩, rfl⟩

theorem askAny_of_sound {symbols : Symbols} {branches : List Branch}
    (h : ∀ branch ∈ branches, branch.Sound symbols) :
    ∃ asked, askAny symbols branches = .ok (branches.any (holds symbols), asked) ∧
      (∀ branch ∈ asked, branch.Sound symbols) ∧
      asked.any (holds symbols) = branches.any (holds symbols) := by
  induction branches with
  | nil => exact ⟨[], rfl, by simp, rfl⟩
  | cons branch earlier ih =>
    obtain ⟨asked, hasked, hsound, hany⟩ := ih fun b hb => h b (List.mem_cons_of_mem branch hb)
    have hbranch := h branch List.mem_cons_self
    rw [askAny, hasked]
    -- The arms are asked in their own order, so a test that held before this one settles it.
    cases hearlier : earlier.any (holds symbols) with
    | true =>
      refine ⟨branch :: asked, by simp [hearlier], ?_, by simp [hany]⟩
      exact List.forall_mem_cons.mpr ⟨hbranch, hsound⟩
    | false =>
      obtain ⟨branch', hask, hsound', harm⟩ := ask_of_sound hbranch
      refine ⟨branch' :: asked, by simp [hask, hearlier], ?_, by simp [hany, holds, harm]⟩
      exact List.forall_mem_cons.mpr ⟨hsound', hsound⟩

end Branch

/-! ## 4. Chains -/

/-- A chain and what eager preprocessing knows of it, with the levels around it. -/
structure Chain.Follows (symbols : Symbols) (chain : Chain) (around : List Level)
    (level : Level) : Prop where
  current : chain.current.Sound symbols
  earlier : ∀ branch ∈ chain.earlier, branch.Sound symbols
  around_eq : level.around = keptIn around
  taken_eq : level.taken = (chain.current :: chain.earlier).any (Branch.holds symbols)
  kept_eq : level.kept = (level.around &&
    (!chain.earlier.any (Branch.holds symbols) && chain.current.holds symbols))

namespace Chain

/-- Asking a chain tells whether its current arm is the one that is taken. -/
theorem ask_of_follows {symbols : Symbols} {chain : Chain} {around : List Level} {level : Level}
    (h : chain.Follows symbols around level) :
    ∃ asked, chain.ask symbols =
        .ok (!chain.earlier.any (Branch.holds symbols) && chain.current.holds symbols, asked) ∧
      asked.Follows symbols around level := by
  obtain ⟨earlier, hask, hsound, hany⟩ := Branch.askAny_of_sound h.earlier
  rw [ask, hask]
  -- An arm that was taken before spares the test of the current one.
  cases htaken : chain.earlier.any (Branch.holds symbols) with
  | true =>
    refine ⟨_, rfl, h.current, hsound, h.around_eq, ?_, ?_⟩
    · rw [h.taken_eq, List.any_cons, List.any_cons, hany]
    · rw [h.kept_eq, hany]
  | false =>
    obtain ⟨current, hcurrent, hsound', harm⟩ := Branch.ask_of_sound h.current
    have hholds : current.holds symbols = chain.current.holds symbols := by
      rw [Branch.holds, harm, Branch.holds]
    refine ⟨⟨current, earlier⟩, by simp [hcurrent], hsound', hsound, h.around_eq, ?_, ?_⟩
    · rw [h.taken_eq, List.any_cons, List.any_cons, hany, hholds]
    · rw [h.kept_eq, hany, hholds]

theorem follows_ofArm {symbols : Symbols} {arm : Arm} {around : List Level}
    (h : arm.verdict symbols = .ok (holds symbols arm.test)) :
    (ofArm arm).Follows symbols around
      ((Level.mk (keptIn around) false false).next (holds symbols arm.test)) where
  current := Branch.sound_ofArm h
  earlier := by simp [ofArm]
  around_eq := rfl
  taken_eq := by simp [Level.next, ofArm, Branch.holds, Branch.ofArm]
  kept_eq := by simp [Level.next, ofArm, Branch.holds, Branch.ofArm]

theorem follows_push {symbols : Symbols} {chain : Chain} {arm : Arm} {around : List Level}
    {level : Level} (h : chain.Follows symbols around level)
    (harm : arm.verdict symbols = .ok (holds symbols arm.test)) :
    (chain.push arm).Follows symbols around (level.next (holds symbols arm.test)) where
  current := Branch.sound_ofArm harm
  earlier := List.forall_mem_cons.mpr ⟨h.current, h.earlier⟩
  around_eq := h.around_eq
  taken_eq := by
    simp [Level.next, push, h.taken_eq, Branch.holds, Branch.ofArm, Bool.or_comm]
  kept_eq := by
    rw [Level.next, h.taken_eq, Bool.and_assoc]
    rfl

end Chain

/-- The open chains and what eager preprocessing knows of them. -/
inductive Chain.AllFollow (symbols : Symbols) : List Chain → List Level → Prop
  | nil : Chain.AllFollow symbols [] []
  | cons {chain : Chain} {level : Level} {chains : List Chain} {levels : List Level}
      (outer : Chain.AllFollow symbols chains levels)
      (inner : chain.Follows symbols levels level) :
      Chain.AllFollow symbols (chain :: chains) (level :: levels)

/-- Asking all chains tells whether the current line is kept. -/
theorem Chain.askAll_of_allFollow {symbols : Symbols} {chains : List Chain} {levels : List Level}
    (h : Chain.AllFollow symbols chains levels) :
    ∃ asked, Chain.askAll symbols chains = .ok (keptIn levels, asked) ∧
      Chain.AllFollow symbols asked levels := by
  induction h with
  | nil => exact ⟨[], rfl, .nil⟩
  | @cons chain level chains levels outer inner ih =>
    obtain ⟨asked, hask, hfollow⟩ := ih
    have hkept : keptIn (level :: levels) = (keptIn levels &&
        (!chain.earlier.any (Branch.holds symbols) && chain.current.holds symbols)) := by
      rw [← inner.around_eq]
      exact inner.kept_eq
    rw [Chain.askAll, hask, hkept]
    cases keptIn levels with
    -- Nothing inside of an arm that is not taken is asked.
    | false => exact ⟨chain :: asked, rfl, .cons hfollow inner⟩
    | true =>
      obtain ⟨chain', hchain, hinner⟩ := Chain.ask_of_follows inner
      exact ⟨chain' :: asked, by simp [hchain], .cons hfollow hinner⟩

theorem Chain.length_of_allFollow {symbols : Symbols} {chains : List Chain}
    {levels : List Level} (h : Chain.AllFollow symbols chains levels) :
    levels.length = chains.length := by
  induction h with
  | nil => rfl
  | cons _ _ ih => simp [ih]

/-! ## 5. The analysis -/

/-- The state of the analysis and what eager preprocessing knows after the same lines. -/
structure Scan.Follows (inputs : List Input) (scan : Scan) (pass : Pass) : Prop where
  symbols_eq : scan.symbols = pass.symbols
  chains : Chain.AllFollow pass.symbols scan.chains pass.levels
  active : ∀ index, scan.active.mem index = true ↔
    ∃ input ∈ inputs, input.index = index ∧ input.name ∈ pass.sites

namespace Scan

variable {inputs : List Input} {scan : Scan} {pass : Pass}

theorem follows_start (inputs : List Input) : start.Follows inputs .start where
  symbols_eq := rfl
  chains := .nil
  active := by simp [start, Pass.start]

theorem Follows.openChain (h : scan.Follows inputs pass) {arm : Arm}
    (hvalue : ∀ text, arm.test = .expression text → HasValue pass.symbols text) :
    (scan.openChain arm).Follows inputs (pass.openChain arm.test) where
  symbols_eq := h.symbols_eq
  chains := .cons h.chains (Chain.follows_ofArm (Arm.verdict_eq_ok hvalue))
  active := h.active

/-- Another arm is a fault exactly when no chain is open. -/
theorem Follows.pushArm (h : scan.Follows inputs pass) (arm : Arm) (reason : Reason)
    (hvalue : ∀ text, arm.test = .expression text → HasValue pass.symbols text)
    (hopen : scan.chains ≠ []) :
    ∃ next, scan.pushArm arm reason = .ok next ∧ next.Follows inputs (pass.pushArm arm.test) ∧
      next.chains.length = scan.chains.length := by
  obtain ⟨symbols, chains, active⟩ := scan
  obtain ⟨symbols', levels, sites⟩ := pass
  obtain ⟨hsymbols, hchains, hactive⟩ := h
  cases hchains with
  | nil => exact absurd rfl hopen
  | cons outer inner =>
    refine ⟨_, rfl, ⟨hsymbols, ?_, hactive⟩, rfl⟩
    exact .cons outer (Chain.follows_push inner (Arm.verdict_eq_ok hvalue))

theorem Follows.closeChain (h : scan.Follows inputs pass) {chain : Chain} {outer : List Chain}
    (hopen : scan.chains = chain :: outer) :
    Scan.Follows inputs { scan with chains := outer } { pass with levels := pass.levels.tail } := by
  obtain ⟨symbols, levels, sites⟩ := pass
  refine ⟨h.symbols_eq, ?_, h.active⟩
  have hchains := h.chains
  rw [hopen] at hchains
  cases hchains with
  | cons outer inner => exact outer

/-- The mark of a declared input makes it active exactly when the mark is kept. -/
theorem Follows.reach (h : scan.Follows inputs pass) (hnames : (inputs.map Input.name).Nodup)
    {input : Input} (hmem : input ∈ inputs) (hindex : input.index < inputCapacity) :
    ∃ next, scan.reach input.index = .ok next ∧
      next.Follows inputs
        { pass with
          sites := if keptIn pass.levels then input.name :: pass.sites else pass.sites } ∧
      next.chains.length = scan.chains.length := by
  obtain ⟨asked, hask, hchains⟩ := Chain.askAll_of_allFollow h.chains
  have hlength : asked.length = scan.chains.length := by
    rw [← Chain.length_of_allFollow hchains, Chain.length_of_allFollow h.chains]
  refine ⟨_, by rw [Scan.reach, h.symbols_eq, hask], ?_, hlength⟩
  cases keptIn pass.levels with
  | false => exact ⟨rfl, hchains, h.active⟩
  | true =>
    refine ⟨rfl, hchains, fun index => ?_⟩
    simp only [if_true, InputSet.mem_insert, Bool.or_eq_true, Bool.and_eq_true,
      decide_eq_true_eq, h.active index, hindex, true_and, List.mem_cons]
    constructor
    · rintro (⟨other, hother, hi, hs⟩ | hi)
      · exact ⟨other, hother, hi, Or.inr hs⟩
      · exact ⟨input, hmem, hi, Or.inl rfl⟩
    -- Names are distinct, so the mark belongs to `input` alone.
    · rintro ⟨other, hother, hi, hname | hs⟩
      · have : other = input := List.inj_on_of_nodup_map hnames hother hmem hname
        exact Or.inr (this ▸ hi)
      · exact Or.inl ⟨other, hother, hi, hs⟩

/-- A mark is followed; one that names no declared input changes nothing. -/
theorem Follows.mark (h : scan.Follows inputs pass) (hnames : (inputs.map Input.name).Nodup)
    (hindex : ∀ input ∈ inputs, input.index < inputCapacity) {name site : Text}
    (hmark : Text.strip? siteMark name = some site) (value : Option Int) :
    ∃ next, scan.define inputs name value = .ok next ∧
      next.Follows inputs (pass.define name value) ∧
      next.chains.length = scan.chains.length := by
  simp only [Scan.define, Pass.define, hmark]
  cases hfind : inputs.find? fun input => input.name == site with
  | some input =>
    have hmem := List.mem_of_find?_eq_some hfind
    have hname : input.name = site := by simpa using List.find?_some hfind
    rw [← hname]
    exact h.reach hnames hmem (hindex input hmem)
  | none =>
    have hnone : ∀ input ∈ inputs, input.name ≠ site := by simpa using hfind
    refine ⟨scan, rfl, ?_, rfl⟩
    cases keptIn pass.levels with
    | false => exact h
    | true =>
      refine ⟨h.symbols_eq, h.chains, fun index => ?_⟩
      rw [h.active index]
      refine exists_congr fun input => and_congr_right fun hmem => and_congr_right fun _ => ?_
      simp [hnone input hmem]

/-- Every other definition is followed: a symbol is defined only outside of all chains. -/
theorem Follows.symbol (h : scan.Follows inputs pass) {name : Text}
    (hmark : Text.strip? siteMark name = none) (value : Option Int) :
    ∃ next, scan.define inputs name value = .ok next ∧
      next.Follows inputs (pass.define name value) ∧
      next.chains.length = scan.chains.length := by
  simp only [Scan.define, Pass.define, hmark]
  obtain ⟨symbols, chains, active⟩ := scan
  obtain ⟨symbols', levels, sites⟩ := pass
  obtain ⟨rfl, hchains, hactive⟩ := h
  cases hchains with
  | nil => exact ⟨_, rfl, ⟨rfl, .nil, hactive⟩, rfl⟩
  -- Inside of a chain neither side defines the symbol: this is why remembered tests stay true.
  | cons outer inner => exact ⟨_, rfl, ⟨rfl, .cons outer inner, hactive⟩, rfl⟩

/-- A line is followed whose expression has a value, if it asks for one.  The line is a fault
exactly when it continues or closes a chain and none is open. -/
theorem step_of_follows (h : scan.Follows inputs pass) (hnames : (inputs.map Input.name).Nodup)
    (hindex : ∀ input ∈ inputs, input.index < inputCapacity) {line : Text}
    (hvalue : ∀ text, expressionOf? line = some text → HasValue pass.symbols text)
    (number : Nat) :
    match depthAfter? scan.chains.length line with
    | none => ∃ obstacle, scan.step inputs number line = .error obstacle
    | some depth =>
      ∃ next, scan.step inputs number line = .ok next ∧ next.Follows inputs (pass.step line) ∧
        next.chains.length = depth := by
  simp only [expressionOf?] at hvalue
  simp only [depthAfter?, Scan.step, Pass.step]
  cases hline : Directive.ofLine? line with
  | none => exact ⟨scan, rfl, h, rfl⟩
  | some directive =>
    rw [hline] at hvalue
    cases directive with
    | openChain test =>
      refine ⟨_, rfl, h.openChain fun text htext => hvalue text ?_, rfl⟩
      rw [show test = .expression text from htext]
    | elseIf text =>
      obtain ⟨symbols, chains, active⟩ := scan
      cases chains with
      | nil => exact ⟨_, rfl⟩
      | cons chain outer =>
        refine h.pushArm ⟨.expression text, number, Text.trim line⟩ _ ?_ (by simp)
        exact fun text htext => hvalue text (by rw [Test.expression.inj htext])
    | elseArm =>
      obtain ⟨symbols, chains, active⟩ := scan
      cases chains with
      | nil => exact ⟨_, rfl⟩
      | cons chain outer =>
        exact h.pushArm ⟨.otherwise, number, Text.trim line⟩ _ (by simp) (by simp)
    | closeChain =>
      obtain ⟨symbols, chains, active⟩ := scan
      cases chains with
      | nil => exact ⟨_, rfl⟩
      | cons chain outer => exact ⟨_, rfl, h.closeChain rfl, rfl⟩
    | define name value =>
      cases hmark : Text.strip? siteMark name with
      | some site => exact h.mark hnames hindex hmark value
      | none => exact h.symbol hmark value

/-- A run that meets only expressions with a value follows the eager one.  It fails exactly when a
line continues or closes a chain and none is open. -/
theorem run_of_follows (hnames : (inputs.map Input.name).Nodup)
    (hindex : ∀ input ∈ inputs, input.index < inputCapacity) {lines : List Text}
    (hvalue : Evaluable pass lines) (h : scan.Follows inputs pass) (number : Nat) :
    match lines.foldlM depthAfter? scan.chains.length with
    | none => ∃ obstacle, run inputs scan number lines = .error obstacle
    | some depth =>
      ∃ last, run inputs scan number lines = .ok last ∧
        last.Follows inputs (lines.foldl Pass.step pass) ∧ last.chains.length = depth := by
  -- The induction is on the lines; `Follows` is what each of them keeps.
  induction hvalue generalizing scan number with
  | nil pass => exact ⟨scan, rfl, h, rfl⟩
  | @cons pass line rest hline _ ih =>
    have hstep := step_of_follows h hnames hindex hline number
    rw [List.foldlM_cons]
    cases hdepth : depthAfter? scan.chains.length line with
    | none =>
      rw [hdepth] at hstep
      obtain ⟨obstacle, hobstacle⟩ := hstep
      exact ⟨obstacle, by rw [run, hobstacle]⟩
    | some depth =>
      rw [hdepth] at hstep
      obtain ⟨next, hnext, hfollows, rfl⟩ := hstep
      rw [run, hnext]
      exact ih hfollows (number + 1)

end Scan

/-! ## 6. Agreement -/

/-- Where every expression has a value, the analysis succeeds exactly on balanced nesting, and the
active inputs are those with a mark that an eager preprocessor keeps. -/
theorem activeInputs_agrees_with_eager {source : Text} {inputs : List Input}
    (hnames : (inputs.map Input.name).Nodup)
    (hindex : ∀ input ∈ inputs, input.index < inputCapacity)
    (hvalue : Evaluable .start (Text.lines source)) :
    ((∃ active, activeInputs source inputs = .ok active) ↔ Balanced (Text.lines source)) ∧
      ∀ active, activeInputs source inputs = .ok active → ∀ index,
        active.mem index = true ↔ ∃ input ∈ inputs, input.index = index ∧
          input.name ∈ (Pass.ofLines (Text.lines source)).sites := by
  have hrun := Scan.run_of_follows hnames hindex hvalue (Scan.follows_start inputs) 1
  rw [show Scan.start.chains.length = 0 from rfl] at hrun
  rw [activeInputs, Balanced]
  cases hdepth : (Text.lines source).foldlM depthAfter? 0 with
  | none =>
    rw [hdepth] at hrun
    obtain ⟨obstacle, hobstacle⟩ := hrun
    simp [hobstacle]
  | some depth =>
    rw [hdepth] at hrun
    obtain ⟨last, hlast, hfollows, rfl⟩ := hrun
    rw [hlast]
    -- The run is balanced exactly if it leaves no chain open, and that is what `finish` looks at.
    cases hchains : last.chains with
    | nil => simpa [Scan.finish, hchains, Pass.ofLines] using hfollows.active
    | cons chain outer => simp [Scan.finish, hchains]

/-- A source whose second arm is kept, by the value of a symbol. -/
def twoArms : List Text :=
  ["#define LOD 1".toList, "#if LOD == 0".toList, "#define _ANKI_INPUT_SITE_near".toList,
   "#elif LOD > 0".toList, "#define _ANKI_INPUT_SITE_far".toList, "#endif".toList]

/-- The inputs of that source. -/
def twoInputs : List Input :=
  [⟨"near".toList, 0, .f32, false, none, none⟩, ⟨"far".toList, 1, .f32, false, none, none⟩]

theorem activeInputs_agrees_with_eager_twoArms :
    (twoInputs.map Input.name).Nodup ∧
    (∀ input ∈ twoInputs, input.index < inputCapacity) ∧
    Evaluable .start (Text.lines (Text.unlines twoArms)) ∧
    ((∃ active, activeInputs (Text.unlines twoArms) twoInputs = .ok active) ↔
      Balanced (Text.lines (Text.unlines twoArms))) ∧
      ∀ active, activeInputs (Text.unlines twoArms) twoInputs = .ok active → ∀ index,
        active.mem index = true ↔ ∃ input ∈ twoInputs, input.index = index ∧
          input.name ∈ (Pass.ofLines (Text.lines (Text.unlines twoArms))).sites := by
  have hnames : (twoInputs.map Input.name).Nodup := by decide +kernel
  have hindex : ∀ input ∈ twoInputs, input.index < inputCapacity := by decide
  have hlines : Text.lines (Text.unlines twoArms) = twoArms := by decide +kernel
  have hvalue : Evaluable .start (Text.lines (Text.unlines twoArms)) := by
    rw [hlines]
    have hfirst : HasValue (Pass.ofLines (twoArms.take 1)).symbols "LOD == 0".toList :=
      .of_lexemes [.ident "LOD".toList, .operator .eq, .int 0]
        (.binary .eq (.symbol "LOD".toList) (.literal 0)) 0
        (by decide +kernel)
        (by simp [Expr.ofLexemes, readExpr, readChain, loosestRank, Operator.rank])
        (by decide +kernel)
    have hsecond : HasValue (Pass.ofLines (twoArms.take 3)).symbols "LOD > 0".toList :=
      .of_lexemes [.ident "LOD".toList, .operator .gt, .int 0]
        (.binary .gt (.symbol "LOD".toList) (.literal 0)) 1
        (by decide +kernel)
        (by simp [Expr.ofLexemes, readExpr, readChain, loosestRank, Operator.rank])
        (by decide +kernel)
    exact .skip (by decide +kernel) <| .ask (by decide +kernel) hfirst <|
      .skip (by decide +kernel) <| .ask (by decide +kernel) hsecond <|
      .skip (by decide +kernel) <| .skip (by decide +kernel) <| .nil _
  exact ⟨hnames, hindex, hvalue, activeInputs_agrees_with_eager hnames hindex hvalue⟩

end ShaderVariants.Condition
