import ShaderVariants.Proofs.Condition.Runs

/-!
# Symbols that no condition asks for

The analysis of a source does not depend on the value of a symbol that no expression names: two
scans whose symbols differ in that value alone take every step alike (`Scan.step_alike`), so they
end with the same fault or the same active inputs (`activeInputs_congr`).
-/

namespace ShaderVariants

/-- Two outcomes that are the same fault, or two results in a relation. -/
inductive Matching {ε α β : Type} (R : α → β → Prop) : Except ε α → Except ε β → Prop
  | error (e : ε) : Matching R (.error e) (.error e)
  | ok {a : α} {b : β} (related : R a b) : Matching R (.ok a) (.ok b)

theorem Matching.refl {ε α : Type} {R : α → α → Prop} {x : Except ε α}
    (h : ∀ a, x = .ok a → R a a) : Matching R x x := by
  cases x with
  | error e => exact .error e
  | ok a => exact .ok (h a rfl)

namespace Condition

/-! ## 1. Symbols that agree but for a value -/

/-- Symbols that differ at most in the value of one that both define. -/
structure SymbolsAlike (name : Text) (symbols others : Symbols) : Prop where
  value : ∀ other, other ≠ name → symbols[other]? = others[other]?
  defined : ∀ other, symbols.contains other = others.contains other

theorem SymbolsAlike.refl (name : Text) (symbols : Symbols) : SymbolsAlike name symbols symbols :=
  ⟨fun _ _ => rfl, fun _ => rfl⟩

theorem SymbolsAlike.insert {name : Text} {symbols others : Symbols}
    (h : SymbolsAlike name symbols others) (other : Text) (value : Option Int) :
    SymbolsAlike name (symbols.insert other value) (others.insert other value) where
  value := by
    intro asked hasked
    rw [Std.TreeMap.getElem?_insert, Std.TreeMap.getElem?_insert, h.value asked hasked]
  defined := by
    intro asked
    rw [Std.TreeMap.contains_insert, Std.TreeMap.contains_insert, h.defined asked]

theorem SymbolsAlike.of_insert (symbols : Symbols) (name : Text) (value value' : Option Int) :
    SymbolsAlike name (symbols.insert name value) (symbols.insert name value') where
  value := by
    intro asked hasked
    have hne : compare name asked ≠ .eq := fun heq => hasked (Std.compare_eq_iff_eq.mp heq).symm
    rw [Std.TreeMap.getElem?_insert, Std.TreeMap.getElem?_insert, if_neg hne, if_neg hne]
  defined := by
    intro asked
    rw [Std.TreeMap.contains_insert, Std.TreeMap.contains_insert]

/-! ## 2. Tests -/

/-- No expression that can be read from a text names the symbol. -/
def BlindTo (name text : Text) : Prop :=
  ∀ expr, Expr.ofText text = .ok expr → name ∉ expr.names

/-- An arm whose test does not name the symbol as a value. -/
def Arm.BlindTo (name : Text) (arm : Arm) : Prop :=
  ∀ text, arm.test = .expression text → Condition.BlindTo name text

/-- Whether a symbol is defined may still be asked. -/
theorem Arm.verdict_congr {name : Text} {symbols others : Symbols} {arm : Arm}
    (h : SymbolsAlike name symbols others) (harm : arm.BlindTo name) :
    arm.verdict symbols = arm.verdict others := by
  rw [verdict, verdict]
  cases htest : arm.test with
  | expression text =>
    cases hexpr : Expr.ofText text with
    | error e => simp only [hexpr]
    | ok expr =>
      -- The symbols differ in one name only, and the expression does not have it.
      have hvalue : expr.eval symbols = expr.eval others := by
        refine Expr.eval_congr fun other hother => h.value other ?_
        rintro rfl
        exact harm text htest expr hexpr hother
      simp only [hexpr, hvalue]
  | defined other => simp only [h.defined other]
  | notDefined other => simp only [h.defined other]
  | otherwise => rfl

/-! ## 3. Chains -/

namespace Branch

variable {name : Text} {symbols others : Symbols}

theorem ask_congr {branch : Branch} (h : SymbolsAlike name symbols others)
    (hbranch : branch.arm.BlindTo name) : branch.ask symbols = branch.ask others := by
  rw [ask, ask, Arm.verdict_congr h hbranch]

theorem askAny_congr {branches : List Branch} (h : SymbolsAlike name symbols others)
    (hbranches : ∀ branch ∈ branches, branch.arm.BlindTo name) :
    askAny symbols branches = askAny others branches := by
  induction branches with
  | nil => rfl
  | cons branch earlier ih =>
    obtain ⟨hbranch, hearlier⟩ := List.forall_mem_cons.mp hbranches
    rw [askAny, askAny, ih hearlier, ask_congr h hbranch]

theorem arm_of_ask {branch asked : Branch} {holds : Bool}
    (h : branch.ask symbols = .ok (holds, asked)) : asked.arm = branch.arm := by
  rw [ask] at h
  split at h
  · obtain ⟨-, rfl⟩ := Prod.mk.inj (Except.ok.inj h)
    rfl
  · split at h
    · cases h
    · obtain ⟨-, rfl⟩ := Prod.mk.inj (Except.ok.inj h)
      rfl

theorem map_arm_of_askAny {branches asked : List Branch} {any : Bool}
    (h : askAny symbols branches = .ok (any, asked)) : asked.map arm = branches.map arm := by
  induction branches generalizing asked any with
  | nil =>
    obtain ⟨-, rfl⟩ := Prod.mk.inj (Except.ok.inj h)
    rfl
  | cons branch earlier ih =>
    rw [askAny] at h
    split at h
    · cases h
    next hearlier =>
      obtain ⟨-, rfl⟩ := Prod.mk.inj (Except.ok.inj h)
      simp [ih hearlier]
    next hearlier =>
      split at h
      · cases h
      next hbranch =>
        obtain ⟨-, rfl⟩ := Prod.mk.inj (Except.ok.inj h)
        simp [ih hearlier, arm_of_ask hbranch]

end Branch

namespace Chain

variable {name : Text} {symbols others : Symbols}

/-- The arms of a chain, the current one first. -/
def arms (chain : Chain) : List Arm :=
  (chain.current :: chain.earlier).map Branch.arm

/-- A chain none of whose tests names the symbol as a value. -/
def BlindTo (name : Text) (chain : Chain) : Prop :=
  ∀ arm ∈ chain.arms, arm.BlindTo name

theorem blindTo_iff {chain : Chain} :
    chain.BlindTo name ↔ chain.current.arm.BlindTo name ∧
      ∀ branch ∈ chain.earlier, branch.arm.BlindTo name := by
  simp [BlindTo, arms]

theorem ask_congr {chain : Chain} (h : SymbolsAlike name symbols others)
    (hchain : chain.BlindTo name) : chain.ask symbols = chain.ask others := by
  obtain ⟨hcurrent, hearlier⟩ := blindTo_iff.mp hchain
  rw [ask, ask, Branch.askAny_congr h hearlier, Branch.ask_congr h hcurrent]

theorem askAll_congr {chains : List Chain} (h : SymbolsAlike name symbols others)
    (hchains : ∀ chain ∈ chains, chain.BlindTo name) :
    askAll symbols chains = askAll others chains := by
  induction chains with
  | nil => rfl
  | cons chain outer ih =>
    obtain ⟨hchain, houter⟩ := List.forall_mem_cons.mp hchains
    rw [askAll, askAll, ih houter, ask_congr h hchain]

theorem arms_of_ask {chain asked : Chain} {taken : Bool}
    (h : chain.ask symbols = .ok (taken, asked)) : asked.arms = chain.arms := by
  rw [ask] at h
  split at h
  · cases h
  next hearlier =>
    obtain ⟨-, rfl⟩ := Prod.mk.inj (Except.ok.inj h)
    simp [arms, Branch.map_arm_of_askAny hearlier]
  next hearlier =>
    split at h
    · cases h
    next hcurrent =>
      obtain ⟨-, rfl⟩ := Prod.mk.inj (Except.ok.inj h)
      simp [arms, Branch.map_arm_of_askAny hearlier, Branch.arm_of_ask hcurrent]

theorem map_arms_of_askAll {chains asked : List Chain} {kept : Bool}
    (h : askAll symbols chains = .ok (kept, asked)) : asked.map arms = chains.map arms := by
  induction chains generalizing asked kept with
  | nil =>
    obtain ⟨-, rfl⟩ := Prod.mk.inj (Except.ok.inj h)
    rfl
  | cons chain outer ih =>
    rw [askAll] at h
    split at h
    · cases h
    next houter =>
      obtain ⟨-, rfl⟩ := Prod.mk.inj (Except.ok.inj h)
      simp [ih houter]
    next houter =>
      split at h
      · cases h
      next hchain =>
        obtain ⟨-, rfl⟩ := Prod.mk.inj (Except.ok.inj h)
        simp [ih houter, arms_of_ask hchain]

theorem blindTo_of_askAll {chains asked : List Chain} {kept : Bool}
    (h : askAll symbols chains = .ok (kept, asked))
    (hchains : ∀ chain ∈ chains, chain.BlindTo name) : ∀ chain ∈ asked, chain.BlindTo name := by
  intro chain hchain
  -- What is remembered does not matter to blindness, only the arms do, and asking keeps them.
  have hmem : chain.arms ∈ chains.map arms := by
    rw [← map_arms_of_askAll h]
    exact List.mem_map_of_mem hchain
  obtain ⟨original, horiginal, harms⟩ := List.mem_map.mp hmem
  rw [BlindTo, ← harms]
  exact hchains original horiginal

end Chain

/-! ## 4. Scans -/

/-- Two scans that differ at most in the value of a symbol that no open chain names. -/
structure Scan.Alike (name : Text) (scan other : Scan) : Prop where
  symbols : SymbolsAlike name scan.symbols other.symbols
  chains : scan.chains = other.chains
  active : scan.active = other.active
  blind : ∀ chain ∈ scan.chains, chain.BlindTo name

/-- A line that asks for no value of the symbol. -/
def LineBlindTo (name line : Text) : Prop :=
  ∀ text, expressionOf? line = some text → BlindTo name text

namespace Scan

variable {name : Text} {inputs : List Input} {scan other : Scan}

theorem Alike.openChain (h : scan.Alike name other) {arm : Arm} (harm : arm.BlindTo name) :
    (scan.openChain arm).Alike name (other.openChain arm) where
  symbols := h.symbols
  chains := by rw [Scan.openChain, Scan.openChain, h.chains]
  active := h.active
  blind := List.forall_mem_cons.mpr ⟨Chain.blindTo_iff.mpr ⟨harm, by simp [Chain.ofArm]⟩, h.blind⟩

theorem Alike.pushArm (h : scan.Alike name other) {arm : Arm} (harm : arm.BlindTo name)
    (reason : Reason) :
    Matching (Alike name) (scan.pushArm arm reason) (other.pushArm arm reason) := by
  rw [Scan.pushArm, Scan.pushArm, ← h.chains]
  cases hchains : scan.chains with
  | nil => exact .error _
  | cons chain outer =>
    have hblind := h.blind
    rw [hchains] at hblind
    obtain ⟨hchain, houter⟩ := List.forall_mem_cons.mp hblind
    refine .ok ⟨h.symbols, rfl, h.active, List.forall_mem_cons.mpr ⟨?_, houter⟩⟩
    obtain ⟨hcurrent, hearlier⟩ := Chain.blindTo_iff.mp hchain
    exact Chain.blindTo_iff.mpr ⟨harm, List.forall_mem_cons.mpr ⟨hcurrent, hearlier⟩⟩

theorem Alike.reach (h : scan.Alike name other) (index : Nat) :
    Matching (Alike name) (scan.reach index) (other.reach index) := by
  rw [Scan.reach, Scan.reach, ← h.chains, ← Chain.askAll_congr h.symbols h.blind, ← h.active]
  cases hask : Chain.askAll scan.symbols scan.chains with
  | error obstacle => exact .error obstacle
  | ok found => exact .ok ⟨h.symbols, rfl, rfl, Chain.blindTo_of_askAll hask h.blind⟩

theorem Alike.define (h : scan.Alike name other) (symbol : Text) (value : Option Int) :
    Matching (Alike name) (scan.define inputs symbol value) (other.define inputs symbol value) := by
  rw [Scan.define, Scan.define]
  split
  · split
    · exact h.reach _
    · exact .ok h
  · rw [← h.chains]
    split
    · exact .ok ⟨h.symbols.insert symbol value, rfl, h.active, h.blind⟩
    · exact .ok h

theorem step_alike (h : scan.Alike name other) {line : Text} (hline : LineBlindTo name line)
    (number : Nat) :
    Matching (Alike name) (scan.step inputs number line) (other.step inputs number line) := by
  simp only [LineBlindTo, expressionOf?] at hline
  rw [Scan.step, Scan.step]
  cases hdirective : Directive.ofLine? line with
  | none => exact .ok h
  | some directive =>
    rw [hdirective] at hline
    cases directive with
    | openChain test =>
      refine .ok (h.openChain fun text htext => hline text ?_)
      rw [show test = .expression text from htext]
    | elseIf text =>
      refine h.pushArm (fun asked hasked => ?_) _
      exact hline asked (congrArg some (Test.expression.inj hasked))
    | elseArm => exact h.pushArm (fun asked hasked => by cases hasked) _
    | closeChain =>
      simp only [← h.chains]
      cases hchains : scan.chains with
      | nil => exact .error _
      | cons chain outer =>
        have hblind := h.blind
        rw [hchains] at hblind
        exact .ok ⟨h.symbols, rfl, h.active, (List.forall_mem_cons.mp hblind).2⟩
    | define symbol value => exact h.define symbol value

theorem run_alike {lines : List Text} (hlines : ∀ line ∈ lines, LineBlindTo name line)
    (h : scan.Alike name other) (number : Nat) :
    Matching (Alike name) (run inputs scan number lines) (run inputs other number lines) := by
  induction lines generalizing scan other number with
  | nil => exact .ok h
  | cons line rest ih =>
    obtain ⟨hline, hrest⟩ := List.forall_mem_cons.mp hlines
    have hstep : Matching _ (scan.step inputs number line) (other.step inputs number line) :=
      step_alike h hline number
    rw [run, run]
    -- Both runs go on only if both steps do, and then with scans that are alike again.
    generalize scan.step inputs number line = first at hstep ⊢
    generalize other.step inputs number line = second at hstep ⊢
    cases hstep with
    | error e => exact .error e
    | ok hnext => exact ih hrest hnext (number + 1)

/-! ## 5. Sources that define the symbol differently -/

theorem alike_refl (name : Text) (hopen : scan.chains = []) : scan.Alike name scan :=
  ⟨.refl name _, rfl, rfl, by simp [hopen]⟩

/-- Outside of all chains a symbol can be defined one way or another; a mark has no value at all. -/
theorem define_alike (hopen : scan.chains = []) (value value' : Option Int) :
    Matching (Alike name) (scan.define inputs name value) (scan.define inputs name value') := by
  cases hmark : Text.strip? siteMark name with
  | some site =>
    have hsame : scan.define inputs name value' = scan.define inputs name value := by
      simp only [define, hmark]
    rw [hsame]
    exact .refl fun next hnext => alike_refl name (chains_of_define hopen hnext)
  | none =>
    simp only [define, hmark, hopen, List.isEmpty_nil, if_true]
    exact .ok ⟨.of_insert _ _ _ _, rfl, rfl, by simp⟩

end Scan

/-- The active inputs of two sources are the same if the sources differ in the line that defines a
symbol alone, and no line behind it asks for the value. -/
theorem activeInputs_congr {source other : Text} {before after : List Text} {first second : Text}
    {name : Text} {value value' : Option Int} {inputs : List Input}
    (hsource : Text.lines source = before ++ first :: after)
    (hother : Text.lines other = before ++ second :: after)
    (hbefore : ∀ line ∈ before, IsQuiet line)
    (hfirst : Directive.ofLine? first = some (.define name value))
    (hsecond : Directive.ofLine? second = some (.define name value'))
    (hafter : ∀ line ∈ after, LineBlindTo name line) :
    activeInputs source inputs = activeInputs other inputs := by
  have hrun : Matching (Scan.Alike name) (Scan.run inputs .start 1 (Text.lines source))
      (Scan.run inputs .start 1 (Text.lines other)) := by
    rw [hsource, hother, Scan.run_append, Scan.run_append]
    cases hstart : Scan.run inputs .start 1 before with
    | error e => exact .error e
    | ok scan =>
      -- Up to the definition the sources are the same and no chain is open, so both define the
      -- symbol.
      have hopen := Scan.chains_of_run hbefore rfl hstart
      have hdefine : Matching (Scan.Alike name) (scan.define inputs name value)
          (scan.define inputs name value') := Scan.define_alike hopen value value'
      simp only [Scan.run, Scan.step, hfirst, hsecond]
      generalize scan.define inputs name value = next at hdefine ⊢
      generalize scan.define inputs name value' = next' at hdefine ⊢
      cases hdefine with
      | error e => exact .error e
      | ok halike => exact Scan.run_alike hafter halike _
  rw [activeInputs, activeInputs]
  generalize Scan.run inputs .start 1 (Text.lines source) = last at hrun ⊢
  generalize Scan.run inputs .start 1 (Text.lines other) = last' at hrun ⊢
  cases hrun with
  | error e => rfl
  | ok halike => simp only [Scan.finish, halike.chains, halike.active]

end Condition

end ShaderVariants
