import ShaderVariants.Proofs.Condition.Arms
import ShaderVariants.Proofs.Condition.Blind
import ShaderVariants.Proofs.Condition.Unasked

/-!
# Nesting

The chains that are open behind some lines, each with its arms and the lines that start them, told
from the lines alone (`Inside`).  A chain that is closed leaves nothing behind (`Inside.closed`), and
inside of a chain the symbols stay those of the lines in front of the outermost one
(`Inside.symbols_eq_and_length`).  A scan knows the same symbols, inside of as many chains
(`Scan.InStep`).
-/

namespace ShaderVariants.Condition

open Eager (Pass)

/-! ## 1. Depth -/

/-- Lines that nest on their own nest inside of a chain as well. -/
theorem insideAfter?_of_depthAfter? {depth after : Nat} {line : Text}
    (h : depthAfter? depth line = some after) : insideAfter? depth line = some after := by
  unfold depthAfter? at h
  unfold insideAfter?
  cases hline : Directive.ofLine? line with
  | none =>
    rw [hline] at h
    exact h
  | some directive =>
    rw [hline] at h
    cases directive with
    | openChain test | define name value => exact h
    | elseIf _ | elseArm | closeChain =>
      cases depth with
      | zero => cases h
      | succ depth => exact h

theorem depthAfter?_of_insideAfter? {depth after : Nat} {line : Text}
    (h : insideAfter? depth line = some after) (around : Nat) :
    depthAfter? (around + depth + 1) line = some (around + after + 1) := by
  unfold insideAfter? at h
  unfold depthAfter?
  cases hline : Directive.ofLine? line with
  | none =>
    rw [hline] at h
    obtain rfl := Option.some.inj h
    rfl
  | some directive =>
    rw [hline] at h
    cases directive with
    | openChain test | define name value | elseIf _ | elseArm =>
      obtain rfl := Option.some.inj h
      rfl
    | closeChain =>
      cases depth with
      | zero => cases h
      | succ depth =>
        obtain rfl := Option.some.inj h
        rfl

theorem foldlM_insideAfter?_of_depthAfter? {depth after : Nat} {lines : List Text}
    (h : lines.foldlM depthAfter? depth = some after) :
    lines.foldlM insideAfter? depth = some after := by
  induction lines generalizing depth with
  | nil => exact h
  | cons line rest ih =>
    rw [List.foldlM_cons, Option.bind_eq_bind, Option.bind_eq_some_iff] at h
    obtain ⟨between, hline, hrest⟩ := h
    rw [List.foldlM_cons, insideAfter?_of_depthAfter? hline]
    exact ih hrest

theorem foldlM_depthAfter?_of_insideAfter? {depth after : Nat} {lines : List Text}
    (h : lines.foldlM insideAfter? depth = some after) (around : Nat) :
    lines.foldlM depthAfter? (around + depth + 1) = some (around + after + 1) := by
  induction lines generalizing depth with
  | nil =>
    obtain rfl := Option.some.inj h
    rfl
  | cons line rest ih =>
    rw [List.foldlM_cons, Option.bind_eq_bind, Option.bind_eq_some_iff] at h
    obtain ⟨between, hline, hrest⟩ := h
    rw [List.foldlM_cons, depthAfter?_of_insideAfter? hline around]
    exact ih hrest

theorem Balanced.nil : Balanced [] :=
  rfl

theorem Balanced.append {lines more : List Text} (h : Balanced lines) (h' : Balanced more) :
    Balanced (lines ++ more) := by
  unfold Balanced at h ⊢
  rw [List.foldlM_append, h]
  exact h'

/-- A line that neither opens a chain nor belongs to one stands for itself. -/
theorem Balanced.singleton {line : Text} (h : depthAfter? 0 line = some 0) : Balanced [line] := by
  rw [Balanced, List.foldlM_cons, h]
  rfl

theorem IsChain.balanced {chain : List Text} (h : IsChain chain) : Balanced chain := by
  obtain @⟨opening, closing, body, test, opens, inside, closes⟩ := h
  have hopening : depthAfter? 0 opening = some 1 := by rw [depthAfter?.eq_def, opens]
  have hclosing : depthAfter? 1 closing = some 0 := by rw [depthAfter?.eq_def, closes]
  rw [Balanced, List.foldlM_cons, hopening]
  show (body ++ [closing]).foldlM depthAfter? 1 = some 0
  rw [List.foldlM_append, foldlM_depthAfter?_of_insideAfter? inside 0]
  show [closing].foldlM depthAfter? 1 = some 0
  rw [List.foldlM_cons, hclosing]
  rfl

/-! ## 2. Open chains -/

/-- The test of the arm that a line adds to its chain. -/
def Directive.nextTest? : Directive → Option Test
  | .elseIf text => some (.expression text)
  | .elseArm => some .otherwise
  | _ => none

theorem insideAfter?_of_nextTest? {line : Text} {directive : Directive} {test : Test} (depth : Nat)
    (hline : Directive.ofLine? line = some directive) (htest : directive.nextTest? = some test) :
    insideAfter? depth line = some depth := by
  rw [insideAfter?.eq_def, hline]
  cases directive with
  | elseIf _ | elseArm => rfl
  | openChain _ | closeChain | define _ _ => cases htest

/-- The arm that a line behind some others starts. -/
def armAt (before : List Text) (line : Text) (test : Test) : Arm :=
  ⟨test, before.length + 1, Text.trim line⟩

/-- The chains that are open behind some lines, the innermost first, with the arms that they have by
then, the current one first.  In front of the outermost one stand the lines `top`. -/
inductive Inside (top : List Text) : List Text → List (List Arm) → Prop
  /-- Behind complete chains none is open. -/
  | outside (complete : Balanced top) : Inside top top []
  /-- A line opens a chain. -/
  | opened {before : List Text} {line : Text} {test : Test} {chains : List (List Arm)}
      (around : Inside top before chains)
      (opens : Directive.ofLine? line = some (.openChain test)) :
      Inside top (before ++ [line]) ([armAt before line test] :: chains)
  /-- A line adds an arm to the innermost chain. -/
  | continued {before : List Text} {line : Text} {directive : Directive} {test : Test}
      {arms : List Arm} {chains : List (List Arm)} (around : Inside top before (arms :: chains))
      (reads : Directive.ofLine? line = some directive) (adds : directive.nextTest? = some test) :
      Inside top (before ++ [line]) ((armAt before line test :: arms) :: chains)
  /-- Complete chains are passed inside of an arm. -/
  | passed {before body : List Text} {arms : List Arm} {chains : List (List Arm)}
      (around : Inside top before (arms :: chains)) (complete : Balanced body) :
      Inside top (before ++ body) (arms :: chains)

namespace Inside

variable {top before : List Text} {line : Text} {arms : List Arm} {chains : List (List Arm)}

theorem eq_top (h : Inside top before []) : before = top ∧ Balanced top := by
  cases h with
  | outside complete => exact ⟨rfl, complete⟩

/-- The line that opened the innermost chain, and those behind it, which do not close it. -/
theorem exists_opening (h : Inside top before (arms :: chains)) :
    ∃ outer opening inner test, before = outer ++ opening :: inner ∧ Inside top outer chains ∧
      Directive.ofLine? opening = some (.openChain test) ∧
      inner.foldlM insideAfter? 0 = some 0 ∧ arms.getLast? = some (armAt outer opening test) := by
  generalize hchains : arms :: chains = all at h
  induction h generalizing arms chains with
  | outside => cases hchains
  | @opened before line test chains around opens =>
    obtain ⟨rfl, rfl⟩ := List.cons.inj hchains
    exact ⟨before, line, [], test, rfl, around, opens, rfl, rfl⟩
  | @continued before line directive test arms chains around reads adds ih =>
    obtain ⟨rfl, rfl⟩ := List.cons.inj hchains
    obtain ⟨outer, opening, inner, first, rfl, houter, hopening, hinner, hlast⟩ := ih rfl
    have hline : insideAfter? 0 line = some 0 := insideAfter?_of_nextTest? 0 reads adds
    refine ⟨outer, opening, inner ++ [line], first, by simp, houter, hopening, ?_, ?_⟩
    · rw [List.foldlM_append, hinner]
      show [line].foldlM insideAfter? 0 = some 0
      rw [List.foldlM_cons, hline]
      rfl
    · rw [List.getLast?_cons, hlast]
      rfl
  | @passed before body arms chains around complete ih =>
    obtain ⟨rfl, rfl⟩ := List.cons.inj hchains
    obtain ⟨outer, opening, inner, first, rfl, houter, hopening, hinner, hlast⟩ := ih rfl
    refine ⟨outer, opening, inner ++ body, first, by simp, houter, hopening, ?_, hlast⟩
    rw [List.foldlM_append, hinner]
    exact foldlM_insideAfter?_of_depthAfter? complete

/-- A closed chain is one that has been passed. -/
theorem closed (h : Inside top before (arms :: chains))
    (closes : Directive.ofLine? line = some .closeChain) :
    ∃ top', Inside top' (before ++ [line]) chains := by
  obtain ⟨outer, opening, inner, test, rfl, houter, hopening, hinner, -⟩ := h.exists_opening
  have hchain : Balanced (opening :: (inner ++ [line])) := (IsChain.lines hopening hinner closes).balanced
  have hlines : outer ++ opening :: inner ++ [line] = outer ++ opening :: (inner ++ [line]) := by simp
  -- From its first line to this one the chain is complete, and so it is passed like any other.
  rw [hlines]
  cases chains with
  | nil =>
    obtain ⟨rfl, htop⟩ := houter.eq_top
    exact ⟨_, .outside (htop.append hchain)⟩
  | cons around chains => exact ⟨top, .passed houter hchain⟩

/-- A line that neither opens nor adds nor closes anything. -/
theorem quiet (h : Inside top before chains) (hline : depthAfter? 0 line = some 0) :
    ∃ top', Inside top' (before ++ [line]) chains := by
  cases chains with
  | nil =>
    obtain ⟨rfl, htop⟩ := h.eq_top
    exact ⟨_, .outside (htop.append (.singleton hline))⟩
  | cons arms chains => exact ⟨top, .passed h (.singleton hline)⟩

/-- Every arm of an open chain was started by one of the lines. -/
theorem exists_line (h : Inside top before chains) (harms : arms ∈ chains) {arm : Arm}
    (harm : arm ∈ arms) :
    ∃ front line back directive, before = front ++ line :: back ∧
      arm = armAt front line arm.test ∧ Directive.ofLine? line = some directive ∧
      (directive = .openChain arm.test ∨ directive.nextTest? = some arm.test) := by
  -- A line further on moves neither an arm nor the line that started it.
  have hlater : ∀ {before more : List Text},
      (∃ front line back directive, before = front ++ line :: back ∧
        arm = armAt front line arm.test ∧ Directive.ofLine? line = some directive ∧
        (directive = .openChain arm.test ∨ directive.nextTest? = some arm.test)) →
      ∃ front line back directive, before ++ more = front ++ line :: back ∧
        arm = armAt front line arm.test ∧ Directive.ofLine? line = some directive ∧
        (directive = .openChain arm.test ∨ directive.nextTest? = some arm.test) := by
    rintro before more ⟨front, line, back, directive, rfl, hrest⟩
    exact ⟨front, line, back ++ more, directive, by simp, hrest⟩
  induction h generalizing arms with
  | outside => cases harms
  | @opened before line test chains around opens ih =>
    rcases List.mem_cons.mp harms with rfl | harms
    · obtain rfl := List.mem_singleton.mp harm
      exact ⟨before, line, [], _, rfl, rfl, opens, Or.inl rfl⟩
    · exact hlater (ih harms harm)
  | @continued before line directive test innermost chains around reads adds ih =>
    rcases List.mem_cons.mp harms with rfl | harms
    · rcases List.mem_cons.mp harm with rfl | harm
      · exact ⟨before, line, [], directive, rfl, rfl, reads, Or.inr adds⟩
      · exact hlater (ih List.mem_cons_self harm)
    · exact hlater (ih (List.mem_cons_of_mem _ harms) harm)
  | passed around complete ih => exact hlater (ih harms harm)

/-! ## 3. Symbols -/

/-- Inside of a chain no line defines a symbol. -/
theorem symbols_step {pass : Pass} (hopen : pass.levels ≠ []) (line : Text) :
    (pass.step line).symbols = pass.symbols := by
  have hlevels : pass.levels.isEmpty = false := by simpa using hopen
  unfold Pass.step
  cases Directive.ofLine? line with
  | none => rfl
  | some directive =>
    cases directive with
    | openChain test | closeChain => rfl
    | elseIf _ | elseArm =>
      dsimp only [Pass.pushArm]
      split <;> rfl
    | define name value =>
      dsimp only [Pass.define]
      split
      · rfl
      · rw [hlevels]
        rfl

/-- Nor do lines that leave the chain open. -/
theorem symbols_foldl {lines : List Text} {pass : Pass} {around depth after : Nat}
    (hdepth : pass.levels.length = around + depth + 1)
    (h : lines.foldlM insideAfter? depth = some after) :
    (lines.foldl Pass.step pass).symbols = pass.symbols ∧
      (lines.foldl Pass.step pass).levels.length = around + after + 1 := by
  induction lines generalizing pass depth with
  | nil =>
    obtain rfl := Option.some.inj h
    exact ⟨rfl, hdepth⟩
  | cons line rest ih =>
    rw [List.foldlM_cons, Option.bind_eq_bind, Option.bind_eq_some_iff] at h
    obtain ⟨between, hline, hrest⟩ := h
    have hnext : (pass.step line).levels.length = around + between + 1 := by
      refine Eager.depthAfter?_eq_some ?_
      rw [hdepth]
      exact depthAfter?_of_insideAfter? hline around
    have hopen : pass.levels ≠ [] := by
      rw [← List.length_pos_iff, hdepth]
      exact Nat.succ_pos _
    obtain ⟨hsymbols, hlevels⟩ := ih hnext hrest
    exact ⟨hsymbols.trans (symbols_step hopen line), hlevels⟩

theorem levels_of_balanced {lines : List Text} {pass : Pass} {depth : Nat}
    (h : lines.foldlM depthAfter? pass.levels.length = some depth) :
    (lines.foldl Pass.step pass).levels.length = depth := by
  induction lines generalizing pass with
  | nil => exact Option.some.inj h
  | cons line rest ih =>
    rw [List.foldlM_cons, Option.bind_eq_bind, Option.bind_eq_some_iff] at h
    obtain ⟨between, hline, hrest⟩ := h
    rw [List.foldl_cons]
    refine ih ?_
    rw [Eager.depthAfter?_eq_some hline]
    exact hrest

theorem ofLines_append (lines more : List Text) :
    Pass.ofLines (lines ++ more) = more.foldl Pass.step (Pass.ofLines lines) := by
  rw [Pass.ofLines, List.foldl_append]
  rfl

/-- Inside of chains the symbols are those of the lines in front of the outermost one. -/
theorem symbols_eq_and_length (h : Inside top before chains) :
    (Pass.ofLines before).symbols = (Pass.ofLines top).symbols ∧
      (Pass.ofLines before).levels.length = chains.length := by
  induction h with
  | outside complete => exact ⟨rfl, levels_of_balanced complete⟩
  | @opened before line test chains around opens ih =>
    obtain ⟨hsymbols, hlength⟩ := ih
    have hstep : Pass.ofLines (before ++ [line]) = (Pass.ofLines before).openChain test := by
      rw [ofLines_append, List.foldl_cons, List.foldl_nil, Pass.step, opens]
    rw [hstep]
    exact ⟨hsymbols, congrArg (· + 1) hlength⟩
  | @continued before line directive test arms chains around reads adds ih =>
    obtain ⟨hsymbols, hlength⟩ := ih
    have hline : insideAfter? 0 line = some 0 := insideAfter?_of_nextTest? 0 reads adds
    have hinside : [line].foldlM insideAfter? 0 = some 0 := by
      rw [List.foldlM_cons, hline]
      rfl
    obtain ⟨hkept, hlevels⟩ := symbols_foldl hlength hinside
    rw [ofLines_append]
    exact ⟨hkept.trans hsymbols, hlevels⟩
  | passed around complete ih =>
    obtain ⟨hsymbols, hlength⟩ := ih
    obtain ⟨hkept, hlevels⟩ := symbols_foldl hlength (foldlM_insideAfter?_of_depthAfter? complete)
    rw [ofLines_append]
    exact ⟨hkept.trans hsymbols, hlevels⟩

end Inside

/-! ## 4. Symbols of a scan -/

/-- A scan knows the symbols that eager preprocessing knows, inside of as many open chains. -/
structure Scan.InStep (scan : Scan) (pass : Pass) : Prop where
  symbols_eq : scan.symbols = pass.symbols
  depth_eq : scan.chains.length = pass.levels.length

namespace Scan.InStep

variable {inputs : List Input} {scan next : Scan} {pass : Pass}

theorem define (h : scan.InStep pass) {name : Text} {value : Option Int}
    (hdefine : scan.define inputs name value = .ok next) :
    next.InStep (pass.define name value) := by
  unfold Scan.define at hdefine
  unfold Pass.define
  cases hmark : Text.strip? siteMark name with
  -- The mark of an input asks the chains around it, but closes none and defines no symbol.
  | some inputName =>
    rw [hmark] at hdefine
    cases hfind : inputs.find? fun input => input.name == inputName with
    | none =>
      simp only [hfind] at hdefine
      obtain rfl := Except.ok.inj hdefine
      exact ⟨h.symbols_eq, h.depth_eq⟩
    | some input =>
      simp only [hfind, Scan.reach] at hdefine
      split at hdefine
      · cases hdefine
      next kept asked hasked =>
        obtain rfl := Except.ok.inj hdefine
        have hlength := congrArg List.length (Chain.map_arms_of_askAll hasked)
        rw [List.length_map, List.length_map] at hlength
        exact ⟨h.symbols_eq, hlength.trans h.depth_eq⟩
  | none =>
    have hopen : scan.chains.isEmpty = pass.levels.isEmpty := by
      rw [Bool.eq_iff_iff, List.isEmpty_iff_length_eq_zero, List.isEmpty_iff_length_eq_zero,
        h.depth_eq]
    simp only [hmark] at hdefine
    rw [hopen, h.symbols_eq] at hdefine
    cases hlevels : pass.levels.isEmpty with
    | true =>
      rw [hlevels] at hdefine
      obtain rfl := Except.ok.inj hdefine
      exact ⟨rfl, h.depth_eq⟩
    | false =>
      rw [hlevels] at hdefine
      obtain rfl := Except.ok.inj hdefine
      exact ⟨h.symbols_eq, h.depth_eq⟩

theorem pushArm (h : scan.InStep pass) {arm : Arm} {reason : Reason}
    (hpush : scan.pushArm arm reason = .ok next) : next.InStep (pass.pushArm arm.test) := by
  unfold Scan.pushArm at hpush
  unfold Pass.pushArm
  have hdepth := h.depth_eq
  split at hpush
  · cases hpush
  next chain outer hchains =>
    obtain rfl := Except.ok.inj hpush
    cases hlevels : pass.levels with
    | nil =>
      rw [hchains, hlevels] at hdepth
      cases hdepth
    | cons level levels =>
      rw [hchains, hlevels] at hdepth
      exact ⟨h.symbols_eq, hdepth⟩

theorem step (h : scan.InStep pass) {number : Nat} {line : Text}
    (hstep : scan.step inputs number line = .ok next) : next.InStep (pass.step line) := by
  unfold Scan.step at hstep
  unfold Pass.step
  cases hline : Directive.ofLine? line with
  | none =>
    rw [hline] at hstep
    exact Except.ok.inj hstep ▸ h
  | some directive =>
    rw [hline] at hstep
    cases directive with
    | openChain test =>
      obtain rfl := Except.ok.inj hstep
      exact ⟨h.symbols_eq, congrArg (· + 1) h.depth_eq⟩
    | elseIf text => exact h.pushArm hstep
    | elseArm => exact h.pushArm hstep
    | closeChain =>
      have hdepth := h.depth_eq
      dsimp only at hstep
      split at hstep
      · cases hstep
      next chain outer hchains =>
        obtain rfl := Except.ok.inj hstep
        rw [hchains, List.length_cons] at hdepth
        refine ⟨h.symbols_eq, ?_⟩
        rw [List.length_tail, ← hdepth, Nat.add_sub_cancel]
    | define name value => exact h.define hstep

theorem run (h : scan.InStep pass) {number : Nat} {lines : List Text} {last : Scan}
    (hrun : scan.run inputs number lines = .ok last) : last.InStep (lines.foldl Pass.step pass) := by
  induction lines generalizing scan pass number with
  | nil => exact Except.ok.inj hrun ▸ h
  | cons line rest ih =>
    rw [Scan.run] at hrun
    split at hrun
    · cases hrun
    next next hnext => exact ih (h.step hnext) hrun

end Scan.InStep

end ShaderVariants.Condition
