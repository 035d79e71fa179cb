import ShaderVariants.Proofs.Condition.Nesting

/-!
# Faults

The analysis refuses a source for the text of one line, and only if something is wrong with that line
(`activeInputs_at_fault`).  A line that continues or closes a chain has none to do it with; a line
that opens a chain has none that closes it; or the condition of a line has no value, although the mark
of an input asks for it.  A mark asks for a condition only if all chains around the condition's own
keep their arm there and no arm in front of the condition holds.
-/

namespace ShaderVariants.Condition

open Eager (Pass)

/-! ## 1. Remembered tests -/

/-- Whether the last arm of a chain is the one that is taken, the arms being given from the last one
to the first. -/
def Taken (symbols : Symbols) : List Arm → Prop
  | [] => False
  | current :: earlier =>
    current.verdict symbols = .ok true ∧ ∀ arm ∈ earlier, arm.verdict symbols = .ok false

/-- The test of an arm whose verdict is an obstacle is an expression without a value. -/
theorem Arm.exists_error {symbols : Symbols} {arm : Arm} {obstacle : Obstacle}
    (h : arm.verdict symbols = .error obstacle) :
    ∃ text error, arm.test = .expression text ∧
      (Expr.ofText text).bind (·.eval symbols) = .error error ∧
      obstacle = ⟨arm.line, arm.text, .expression error⟩ := by
  unfold verdict at h
  cases htest : arm.test with
  | expression text =>
    simp only [htest] at h
    cases hexpr : Expr.ofText text with
    | error e =>
      rw [hexpr] at h
      exact ⟨text, e, rfl, by rw [hexpr]; rfl, (Except.error.inj h).symm⟩
    | ok expr =>
      simp only [hexpr] at h
      cases hvalue : expr.eval symbols with
      | error e =>
        rw [hvalue] at h
        exact ⟨text, e, rfl, by rw [hexpr]; exact hvalue, (Except.error.inj h).symm⟩
      | ok value =>
        rw [hvalue] at h
        cases h
  | defined name | notDefined name | otherwise =>
    simp only [htest] at h
    cases h

/-- What is remembered of the test of an arm is what the test says. -/
def Branch.Recalls (symbols : Symbols) (branch : Branch) : Prop :=
  ∀ holds, branch.known = some holds → branch.arm.verdict symbols = .ok holds

namespace Branch

variable {symbols : Symbols}

theorem recalls_ofArm (arm : Arm) : (ofArm arm).Recalls symbols := by
  intro holds hknown
  cases hknown

theorem ask_eq_ok {branch asked : Branch} {holds : Bool} (h : branch.Recalls symbols)
    (hask : branch.ask symbols = .ok (holds, asked)) :
    branch.arm.verdict symbols = .ok holds ∧ asked.Recalls symbols := by
  unfold ask at hask
  split at hask
  next known hknown =>
    obtain ⟨rfl, rfl⟩ := Prod.mk.inj (Except.ok.inj hask)
    exact ⟨h known hknown, h⟩
  next =>
    split at hask
    · cases hask
    next found hfound =>
      obtain ⟨rfl, rfl⟩ := Prod.mk.inj (Except.ok.inj hask)
      exact ⟨hfound, fun holds hholds => Option.some.inj hholds ▸ hfound⟩

theorem ask_eq_error {branch : Branch} {obstacle : Obstacle}
    (h : branch.ask symbols = .error obstacle) : branch.arm.verdict symbols = .error obstacle := by
  unfold ask at h
  split at h
  · cases h
  · split at h
    next hfound => exact Except.error.inj h ▸ hfound
    · cases h

/-- If none of some arms holds, every one of them was asked. -/
theorem askAny_eq_ok {branches asked : List Branch} {any : Bool}
    (h : ∀ branch ∈ branches, branch.Recalls symbols)
    (hask : askAny symbols branches = .ok (any, asked)) :
    (any = false → ∀ branch ∈ branches, branch.arm.verdict symbols = .ok false) ∧
      ∀ branch ∈ asked, branch.Recalls symbols := by
  induction branches generalizing asked any with
  | nil =>
    obtain ⟨-, rfl⟩ := Prod.mk.inj (Except.ok.inj hask)
    simp
  | cons branch earlier ih =>
    obtain ⟨hbranch, hearlier⟩ := List.forall_mem_cons.mp h
    unfold askAny at hask
    split at hask
    · cases hask
    -- An earlier arm holds, so this one is not asked and nothing is said of it.
    next kept hkept =>
      obtain ⟨rfl, rfl⟩ := Prod.mk.inj (Except.ok.inj hask)
      obtain ⟨-, hrecalls⟩ := ih hearlier hkept
      exact ⟨fun hany => absurd hany (by decide), List.forall_mem_cons.mpr ⟨hbranch, hrecalls⟩⟩
    next kept hkept =>
      obtain ⟨hfalse, hrecalls⟩ := ih hearlier hkept
      split at hask
      · cases hask
      next holds again hagain =>
        obtain ⟨rfl, rfl⟩ := Prod.mk.inj (Except.ok.inj hask)
        obtain ⟨hverdict, hrecalls'⟩ := ask_eq_ok hbranch hagain
        refine ⟨fun hany => ?_, List.forall_mem_cons.mpr ⟨hrecalls', hrecalls⟩⟩
        exact List.forall_mem_cons.mpr ⟨hany ▸ hverdict, hfalse rfl⟩

/-- An obstacle is that of one arm, and none in front of it holds. -/
theorem askAny_eq_error {branches : List Branch} {obstacle : Obstacle}
    (h : ∀ branch ∈ branches, branch.Recalls symbols)
    (hask : askAny symbols branches = .error obstacle) :
    ∃ later arm earlier, branches.map Branch.arm = later ++ arm :: earlier ∧
      arm.verdict symbols = .error obstacle ∧
      ∀ arm ∈ earlier, arm.verdict symbols = .ok false := by
  induction branches with
  | nil => cases hask
  | cons branch earlier ih =>
    obtain ⟨hbranch, hearlier⟩ := List.forall_mem_cons.mp h
    unfold askAny at hask
    split at hask
    next hfirst =>
      obtain rfl := Except.error.inj hask
      obtain ⟨later, arm, before, harms, hverdict, hbefore⟩ := ih hearlier hfirst
      exact ⟨branch.arm :: later, arm, before, by simp [harms], hverdict, hbefore⟩
    · cases hask
    next kept hkept =>
      split at hask
      next hlast =>
        obtain rfl := Except.error.inj hask
        obtain ⟨hfalse, -⟩ := askAny_eq_ok hearlier hkept
        exact ⟨[], branch.arm, earlier.map Branch.arm, rfl, ask_eq_error hlast,
          List.forall_mem_map.mpr (hfalse rfl)⟩
      · cases hask

end Branch

namespace Chain

variable {symbols : Symbols}

/-- What is remembered of the tests of a chain is what they say. -/
def Recalls (symbols : Symbols) (chain : Chain) : Prop :=
  ∀ branch ∈ chain.current :: chain.earlier, branch.Recalls symbols

theorem recalls_ofArm (arm : Arm) : (ofArm arm).Recalls symbols := by
  intro branch hbranch
  obtain rfl := List.mem_singleton.mp hbranch
  exact Branch.recalls_ofArm arm

theorem Recalls.push {chain : Chain} (h : chain.Recalls symbols) (arm : Arm) :
    (chain.push arm).Recalls symbols :=
  List.forall_mem_cons.mpr ⟨Branch.recalls_ofArm arm, h⟩

theorem ask_eq_ok {chain asked : Chain} {taken : Bool} (h : chain.Recalls symbols)
    (hask : chain.ask symbols = .ok (taken, asked)) :
    (taken = true → Taken symbols chain.arms) ∧ asked.Recalls symbols := by
  obtain ⟨hcurrent, hearlier⟩ := List.forall_mem_cons.mp h
  unfold ask at hask
  split at hask
  · cases hask
  next kept hkept =>
    obtain ⟨rfl, rfl⟩ := Prod.mk.inj (Except.ok.inj hask)
    obtain ⟨-, hrecalls⟩ := Branch.askAny_eq_ok hearlier hkept
    exact ⟨fun htaken => absurd htaken (by decide), List.forall_mem_cons.mpr ⟨hcurrent, hrecalls⟩⟩
  next kept hkept =>
    obtain ⟨hfalse, hrecalls⟩ := Branch.askAny_eq_ok hearlier hkept
    split at hask
    · cases hask
    next holds again hagain =>
      obtain ⟨rfl, rfl⟩ := Prod.mk.inj (Except.ok.inj hask)
      obtain ⟨hverdict, hrecalls'⟩ := Branch.ask_eq_ok hcurrent hagain
      refine ⟨fun htaken => ⟨htaken ▸ hverdict, ?_⟩, List.forall_mem_cons.mpr ⟨hrecalls', hrecalls⟩⟩
      exact List.forall_mem_map.mpr (hfalse rfl)

theorem ask_eq_error {chain : Chain} {obstacle : Obstacle} (h : chain.Recalls symbols)
    (hask : chain.ask symbols = .error obstacle) :
    ∃ later arm earlier, chain.arms = later ++ arm :: earlier ∧
      arm.verdict symbols = .error obstacle ∧
      ∀ arm ∈ earlier, arm.verdict symbols = .ok false := by
  -- Asking for the current arm looks at the same tests as asking for any of the arms.
  have hany : Branch.askAny symbols (chain.current :: chain.earlier) = .error obstacle := by
    unfold ask at hask
    unfold Branch.askAny
    split at hask
    · rw [Except.error.inj hask]
    · cases hask
    · split at hask
      · rw [Except.error.inj hask]
      · cases hask
  exact Branch.askAny_eq_error h hany

theorem askAll_eq_ok {chains asked : List Chain} {kept : Bool}
    (h : ∀ chain ∈ chains, chain.Recalls symbols)
    (hask : askAll symbols chains = .ok (kept, asked)) :
    (kept = true → ∀ arms ∈ chains.map Chain.arms, Taken symbols arms) ∧
      ∀ chain ∈ asked, chain.Recalls symbols := by
  induction chains generalizing asked kept with
  | nil =>
    obtain ⟨-, rfl⟩ := Prod.mk.inj (Except.ok.inj hask)
    simp
  | cons chain outer ih =>
    obtain ⟨hchain, houter⟩ := List.forall_mem_cons.mp h
    unfold askAll at hask
    split at hask
    · cases hask
    next around haround =>
      obtain ⟨rfl, rfl⟩ := Prod.mk.inj (Except.ok.inj hask)
      obtain ⟨-, hrecalls⟩ := ih houter haround
      exact ⟨fun hkept => absurd hkept (by decide), List.forall_mem_cons.mpr ⟨hchain, hrecalls⟩⟩
    next around haround =>
      obtain ⟨htaken, hrecalls⟩ := ih houter haround
      split at hask
      · cases hask
      next taken again hagain =>
        obtain ⟨rfl, rfl⟩ := Prod.mk.inj (Except.ok.inj hask)
        obtain ⟨htaken', hrecalls'⟩ := ask_eq_ok hchain hagain
        refine ⟨fun hkept => ?_, List.forall_mem_cons.mpr ⟨hrecalls', hrecalls⟩⟩
        exact List.forall_mem_cons.mpr ⟨htaken' hkept, htaken rfl⟩

/-- An obstacle is that of one arm of a chain: none in front of it holds, and all chains around it
take their current arm. -/
theorem askAll_eq_error {chains : List Chain} {obstacle : Obstacle}
    (h : ∀ chain ∈ chains, chain.Recalls symbols)
    (hask : askAll symbols chains = .error obstacle) :
    ∃ inner later arm earlier outer,
      chains.map Chain.arms = inner ++ (later ++ arm :: earlier) :: outer ∧
      arm.verdict symbols = .error obstacle ∧
      (∀ arm ∈ earlier, arm.verdict symbols = .ok false) ∧ ∀ arms ∈ outer, Taken symbols arms := by
  induction chains with
  | nil => cases hask
  | cons chain outer ih =>
    obtain ⟨hchain, houter⟩ := List.forall_mem_cons.mp h
    unfold askAll at hask
    split at hask
    -- A chain further out is refused before this one is asked.
    next haround =>
      obtain rfl := Except.error.inj hask
      obtain ⟨inner, later, arm, earlier, around, harms, hverdict, hearlier, htaken⟩ :=
        ih houter haround
      exact ⟨chain.arms :: inner, later, arm, earlier, around, by simp [harms], hverdict, hearlier,
        htaken⟩
    · cases hask
    next kept hkept =>
      split at hask
      next hfound =>
        obtain rfl := Except.error.inj hask
        obtain ⟨htaken, -⟩ := askAll_eq_ok houter hkept
        obtain ⟨later, arm, earlier, harms, hverdict, hearlier⟩ := ask_eq_error hchain hfound
        exact ⟨[], later, arm, earlier, outer.map Chain.arms, by simp [harms], hverdict, hearlier,
          htaken rfl⟩
      · cases hask

end Chain

/-! ## 2. What a scan has read -/

/-- A scan that has read some lines without a fault: it holds the chains that are open behind them,
and remembers of their tests what those say. -/
structure Scan.Reads (before : List Text) (scan : Scan) : Prop where
  inStep : scan.InStep (Pass.ofLines before)
  inside : ∃ top, Inside top before (scan.chains.map Chain.arms)
  recalls : ∀ chain ∈ scan.chains, chain.Recalls scan.symbols

/-- What is wrong with a line of a source, given the lines around it. -/
inductive AtFault (inputs : List Input) (before : List Text) (line : Text) (after : List Text) :
    Reason → Prop
  | elifWithoutIf {text : Text} (complete : Balanced before)
      (reads : Directive.ofLine? line = some (.elseIf text)) :
      AtFault inputs before line after .elifWithoutIf
  | elseWithoutIf (complete : Balanced before)
      (reads : Directive.ofLine? line = some .elseArm) :
      AtFault inputs before line after .elseWithoutIf
  | endifWithoutIf (complete : Balanced before)
      (reads : Directive.ofLine? line = some .closeChain) :
      AtFault inputs before line after .endifWithoutIf
  /-- The line opens a chain and no line behind it closes that one. -/
  | ifWithoutEndif {test : Test} (reads : Directive.ofLine? line = some (.openChain test))
      (unclosed : ∀ chain, IsChain chain → ¬ chain <+: line :: after) :
      AtFault inputs before line after .ifWithoutEndif
  /-- The line has a condition without a value, and a mark further on asks for it. -/
  | expression {text : Text} {error : ExprError} {top between rest : List Text} {mark : Text}
      {inner outer : List (List Arm)} {later earlier : List Arm}
      (asks : expressionOf? line = some text)
      (fails : (Expr.ofText text).bind (·.eval (Pass.ofLines top).symbols) = .error error)
      (behind : after = between ++ mark :: rest) (marks : marksInput inputs mark = true)
      (inside : Inside top (before ++ line :: between)
        (inner ++ (later ++ armAt before line (.expression text) :: earlier) :: outer))
      (unmet : ∀ arm ∈ earlier, arm.verdict (Pass.ofLines top).symbols = .ok false)
      (kept : ∀ arms ∈ outer, Taken (Pass.ofLines top).symbols arms) :
      AtFault inputs before line after (.expression error)

/-- One line of some lines is at fault, and an obstacle says which and why. -/
def Blames (inputs : List Input) (lines : List Text) (obstacle : Obstacle) : Prop :=
  ∃ before line after, lines = before ++ line :: after ∧ obstacle.line = before.length + 1 ∧
    obstacle.text = Text.trim line ∧ AtFault inputs before line after obstacle.reason

namespace Scan

variable {inputs : List Input} {before rest : List Text} {scan next : Scan} {line : Text}
  {obstacle : Obstacle}

theorem reads_start : start.Reads [] where
  inStep := ⟨rfl, rfl⟩
  inside := ⟨[], .outside .nil⟩
  recalls := by simp [start]

namespace Reads

theorem inStep_snoc (h : scan.Reads before) {number : Nat}
    (hstep : scan.step inputs number line = .ok next) :
    next.InStep (Pass.ofLines (before ++ [line])) := by
  rw [Inside.ofLines_append]
  exact h.inStep.step hstep

theorem balanced (h : scan.Reads before) (hclosed : scan.chains = []) : Balanced before := by
  obtain ⟨top, hinside⟩ := h.inside
  rw [hclosed] at hinside
  obtain ⟨rfl, htop⟩ := hinside.eq_top
  exact htop

/-- Inside of a chain the symbols are those that are defined in front of the outermost one. -/
theorem symbols_eq (h : scan.Reads before) {top : List Text}
    (hinside : Inside top before (scan.chains.map Chain.arms)) :
    scan.symbols = (Pass.ofLines top).symbols :=
  h.inStep.symbols_eq.trans hinside.symbols_eq_and_length.1

/-- A definition keeps what the open chains are and what is remembered of them. -/
theorem define (h : scan.Reads before) {name : Text} {value : Option Int}
    (hdefine : scan.define inputs name value = .ok next) :
    next.chains.map Chain.arms = scan.chains.map Chain.arms ∧
      ∀ chain ∈ next.chains, chain.Recalls next.symbols := by
  unfold Scan.define at hdefine
  split at hdefine
  · split at hdefine
    · unfold Scan.reach at hdefine
      split at hdefine
      · cases hdefine
      next kept asked hasked =>
        obtain rfl := Except.ok.inj hdefine
        exact ⟨Chain.map_arms_of_askAll hasked, (Chain.askAll_eq_ok h.recalls hasked).2⟩
    · obtain rfl := Except.ok.inj hdefine
      exact ⟨rfl, h.recalls⟩
  · split at hdefine
    next hclosed =>
      obtain rfl := Except.ok.inj hdefine
      have hchains : scan.chains = [] := List.isEmpty_iff.mp hclosed
      exact ⟨rfl, by simp [hchains]⟩
    next =>
      obtain rfl := Except.ok.inj hdefine
      exact ⟨rfl, h.recalls⟩

/-- Another arm of the innermost chain, which has to be there. -/
theorem pushArm (h : scan.Reads before) {directive : Directive} {test : Test}
    (hline : Directive.ofLine? line = some directive) (htest : directive.nextTest? = some test)
    {reason : Reason} (hpush : scan.pushArm (armAt before line test) reason = .ok next) :
    (∃ top, Inside top (before ++ [line]) (next.chains.map Chain.arms)) ∧
      ∀ chain ∈ next.chains, chain.Recalls next.symbols := by
  obtain ⟨top, hinside⟩ := h.inside
  have hrecalls := h.recalls
  unfold Scan.pushArm at hpush
  split at hpush
  · cases hpush
  next chain outer hchains =>
    obtain rfl := Except.ok.inj hpush
    rw [hchains] at hinside hrecalls
    obtain ⟨hchain, houter⟩ := List.forall_mem_cons.mp hrecalls
    refine ⟨⟨top, ?_⟩, List.forall_mem_cons.mpr ⟨hchain.push _, houter⟩⟩
    exact Inside.continued hinside hline htest

theorem step (h : scan.Reads before)
    (hstep : scan.step inputs (before.length + 1) line = .ok next) : next.Reads (before ++ [line]) := by
  have hinStep : next.InStep (Pass.ofLines (before ++ [line])) := h.inStep_snoc hstep
  -- The symbols are known to be in step; what is left is the chains and what they remember.
  suffices hnext : (∃ top, Inside top (before ++ [line]) (next.chains.map Chain.arms)) ∧
      ∀ chain ∈ next.chains, chain.Recalls next.symbols from ⟨hinStep, hnext.1, hnext.2⟩
  obtain ⟨top, hinside⟩ := h.inside
  unfold Scan.step at hstep
  cases hline : Directive.ofLine? line with
  | none =>
    rw [hline] at hstep
    obtain rfl := Except.ok.inj hstep
    exact ⟨hinside.quiet (by rw [depthAfter?.eq_def, hline]), h.recalls⟩
  | some directive =>
    rw [hline] at hstep
    cases directive with
    | openChain test =>
      obtain rfl := Except.ok.inj hstep
      exact ⟨⟨top, .opened hinside hline⟩,
        List.forall_mem_cons.mpr ⟨Chain.recalls_ofArm _, h.recalls⟩⟩
    | elseIf text => exact h.pushArm hline rfl hstep
    | elseArm => exact h.pushArm hline rfl hstep
    | closeChain =>
      have hrecalls := h.recalls
      dsimp only at hstep
      split at hstep
      · cases hstep
      next chain outer hchains =>
        obtain rfl := Except.ok.inj hstep
        rw [hchains] at hinside hrecalls
        exact ⟨hinside.closed hline, (List.forall_mem_cons.mp hrecalls).2⟩
    | define name value =>
      obtain ⟨harms, hrecalls⟩ := h.define hstep
      rw [harms]
      exact ⟨hinside.quiet (by rw [depthAfter?.eq_def, hline]), hrecalls⟩

/-! ## 3. The line at fault -/

/-- A mark that cannot be decided blames a condition of one of the lines in front of it. -/
theorem blames_of_reach (h : scan.Reads before) (hmark : marksInput inputs line = true)
    {index : Nat} (hreach : scan.reach index = .error obstacle) (rest : List Text) :
    Blames inputs (before ++ line :: rest) obstacle := by
  obtain ⟨top, hinside⟩ := h.inside
  unfold Scan.reach at hreach
  split at hreach
  next hask =>
    obtain rfl := Except.error.inj hreach
    obtain ⟨inner, later, arm, earlier, outer, harms, hverdict, hearlier, htaken⟩ :=
      Chain.askAll_eq_error h.recalls hask
    rw [h.symbols_eq hinside] at hverdict hearlier htaken
    rw [harms] at hinside
    obtain ⟨text, error, htest, hfails, rfl⟩ := Arm.exists_error hverdict
    have hchain : later ++ arm :: earlier ∈ inner ++ (later ++ arm :: earlier) :: outer :=
      List.mem_append_right inner List.mem_cons_self
    -- The arm was started by a line further up, and that is the line to blame.
    obtain ⟨front, culprit, between, directive, rfl, harm, hculprit, hadds⟩ :=
      hinside.exists_line hchain (List.mem_append_right later List.mem_cons_self)
    rw [htest] at harm hadds
    have hasks : expressionOf? culprit = some text := by
      rw [expressionOf?, hculprit]
      rcases hadds with rfl | hnext
      · rfl
      · cases directive with
        | elseIf other => rw [Test.expression.inj (Option.some.inj hnext)]
        | elseArm => cases Option.some.inj hnext
        | openChain _ | closeChain | define _ _ => cases hnext
    rw [harm] at hinside
    have hnumber : arm.line = front.length + 1 := congrArg Arm.line harm
    have htext : arm.text = Text.trim culprit := congrArg Arm.text harm
    refine ⟨front, culprit, between ++ line :: rest, by simp, hnumber, htext, ?_⟩
    exact .expression hasks hfails rfl hmark hinside hearlier htaken
  · cases hreach

theorem blames_of_pushArm (h : scan.Reads before) {arm : Arm} {reason : Reason}
    (harm : arm.line = before.length + 1 ∧ arm.text = Text.trim line)
    (hfault : Balanced before → AtFault inputs before line rest reason)
    (hpush : scan.pushArm arm reason = .error obstacle) :
    Blames inputs (before ++ line :: rest) obstacle := by
  unfold Scan.pushArm at hpush
  split at hpush
  next hclosed =>
    obtain rfl := Except.error.inj hpush
    exact ⟨before, line, rest, rfl, harm.1, harm.2, hfault (h.balanced hclosed)⟩
  · cases hpush

theorem blames_of_step (h : scan.Reads before)
    (hstep : scan.step inputs (before.length + 1) line = .error obstacle) (rest : List Text) :
    Blames inputs (before ++ line :: rest) obstacle := by
  unfold Scan.step at hstep
  cases hline : Directive.ofLine? line with
  | none =>
    rw [hline] at hstep
    cases hstep
  | some directive =>
    rw [hline] at hstep
    cases directive with
    | openChain test => cases hstep
    | elseIf text =>
      exact h.blames_of_pushArm ⟨rfl, rfl⟩ (fun hbefore => .elifWithoutIf hbefore hline) hstep
    | elseArm =>
      exact h.blames_of_pushArm ⟨rfl, rfl⟩ (fun hbefore => .elseWithoutIf hbefore hline) hstep
    | closeChain =>
      dsimp only at hstep
      split at hstep
      next hclosed =>
        obtain rfl := Except.error.inj hstep
        exact ⟨before, line, rest, rfl, rfl, rfl, .endifWithoutIf (h.balanced hclosed) hline⟩
      · cases hstep
    | define name value =>
      dsimp only [Scan.define] at hstep
      split at hstep
      next inputName hmark =>
        split at hstep
        next input hfind =>
          -- Only the mark of a declared input asks for anything.
          have hname : input.name = inputName := by simpa using List.find?_some hfind
          have hmarked : marksInput inputs line = true := by
            rw [marksInput, hline]
            refine List.any_eq_true.mpr ⟨input, List.mem_of_find?_eq_some hfind, ?_⟩
            rw [Text.strip?_eq_some_iff.mp hmark, hname]
            exact BEq.rfl
          exact h.blames_of_reach hmarked hstep rest
        · cases hstep
      · split at hstep <;> cases hstep

/-- A run either blames a line or has read all of them. -/
theorem run {lines : List Text} (h : scan.Reads before) :
    match Scan.run inputs scan (before.length + 1) lines with
    | .error obstacle => Blames inputs (before ++ lines) obstacle
    | .ok last => last.Reads (before ++ lines) := by
  -- The induction is on the lines that are left; `Reads` is what each step keeps of those before.
  induction lines generalizing scan before with
  | nil => simpa [Scan.run] using h
  | cons line rest ih =>
    rw [Scan.run]
    cases hstep : scan.step inputs (before.length + 1) line with
    | error obstacle => exact h.blames_of_step hstep rest
    | ok next =>
      have hnext : next.Reads (before ++ [line]) := h.step hstep
      have hrest := ih hnext
      rw [List.length_append, List.append_assoc] at hrest
      exact hrest

/-- A chain that is open at the end is closed by none of the lines behind its first one. -/
theorem blames_of_finish (h : scan.Reads before) (hfinish : scan.finish = .error obstacle) :
    Blames inputs before obstacle := by
  obtain ⟨top, hinside⟩ := h.inside
  unfold Scan.finish at hfinish
  split at hfinish
  · cases hfinish
  next chain outer hchains =>
    obtain rfl := Except.error.inj hfinish
    rw [hchains] at hinside
    obtain ⟨front, line, rest, test, rfl, -, hline, hrest, hlast⟩ := hinside.exists_opening
    have hopening : chain.opening = armAt front line test := by
      rw [Chain.arms, List.getLast?_map, List.getLast?_cons] at hlast
      rw [Chain.opening, List.getLastD_eq_getLast?]
      exact Option.some.inj hlast
    refine ⟨front, line, rest, rfl, by rw [hopening]; rfl, by rw [hopening]; rfl, ?_⟩
    refine .ifWithoutEndif hline fun complete hcomplete hprefix => ?_
    obtain @⟨opening, closing, body, -, -, hbody, hcloses⟩ := hcomplete
    obtain ⟨-, tail, htail⟩ := List.cons_prefix_cons.mp hprefix
    -- The line that closes the chain would leave none open, but all of them leave it open.
    rw [← htail, List.append_assoc, List.foldlM_append, hbody] at hrest
    have hclosing : insideAfter? 0 closing = none := by rw [insideAfter?.eq_def, hcloses]
    have hnone : (closing :: tail).foldlM insideAfter? 0 = none := by
      rw [List.foldlM_cons, hclosing]
      rfl
    exact absurd (hnone.symm.trans hrest) (by simp)

end Reads

end Scan

/-! ## 4. Faults of a source -/

/-- A source is refused for one of its lines: the line is named by its number and its text, and it
is at fault. -/
theorem activeInputs_at_fault {source : Text} {inputs : List Input} {obstacle : Obstacle}
    (h : activeInputs source inputs = .error obstacle) :
    ∃ before line after, Text.lines source = before ++ line :: after ∧
      obstacle.line = before.length + 1 ∧ obstacle.text = Text.trim line ∧
      AtFault inputs before line after obstacle.reason := by
  have hrun := @Scan.Reads.run inputs [] .start (Text.lines source) Scan.reads_start
  rw [activeInputs] at h
  cases hlast : Scan.run inputs .start 1 (Text.lines source) with
  | error found =>
    rw [show ([] : List Text).length + 1 = 1 from rfl, hlast] at hrun
    rw [hlast] at h
    exact Except.error.inj h ▸ hrun
  | ok last =>
    rw [show ([] : List Text).length + 1 = 1 from rfl, hlast] at hrun
    rw [hlast] at h
    exact hrun.blames_of_finish h

/-- A source whose mark stands behind a condition that cannot be read, in a chain inside of another
one. -/
def unreadable : Text :=
  Text.unlines ["#define WIDE 1".toList, "#ifdef WIDE".toList, "#ifdef FAST".toList,
    "  #elif LOD[0]".toList, "#else".toList, "#define _ANKI_INPUT_SITE_far".toList,
    "#endif".toList, "#endif".toList]

/-- The `#elif` is blamed, not the line of the mark. -/
theorem activeInputs_at_fault_unreadable :
    activeInputs unreadable [farInput] =
        .error ⟨4, "#elif LOD[0]".toList, .expression (.unsupported (.character '['))⟩ ∧
      ∃ before line after, Text.lines unreadable = before ++ line :: after ∧
        4 = before.length + 1 ∧ "#elif LOD[0]".toList = Text.trim line ∧
        AtFault [farInput] before line after (.expression (.unsupported (.character '['))) := by
  have hfault : activeInputs unreadable [farInput] =
      .error ⟨4, "#elif LOD[0]".toList, .expression (.unsupported (.character '['))⟩ := by
    decide +kernel
  exact ⟨hfault, activeInputs_at_fault hfault⟩

end ShaderVariants.Condition
