import Mathlib.Logic.Function.Iterate
import ShaderVariants.Proofs.Rewriting

/-!
# Where rewriting leads

Rewriting in place, and the mutations that it goes through.  Rewriting until no rule matches stops
at the first of these that no rule matches if that is reached within the limit, and reports the
last one that it has reached otherwise (`Program.canonicalizeInPlace_iterates`).
-/

namespace ShaderVariants.Rewrite

/-! ## 1. Rewriting in place -/

/-- Rewrites the mutation by the first rule that matches it; returns whether one does. -/
def rewriteInPlace (rules : List Rewrite) : StateM Mutation Bool := fun mutation =>
  match step? rules mutation with
  | none => (false, mutation)
  | some next => (true, next)

/-- Rewrites the mutation at most `budget` times, after `applied` times already. -/
def settleInPlace (rules : List Rewrite) : (budget applied : Nat) → StateM Mutation (Except Cycle Nat)
  | 0, applied => do return .error ⟨applied, ← get⟩
  | budget + 1, applied => do
    if ← rewriteInPlace rules then settleInPlace rules budget (applied + 1)
    else return .ok applied

/-- Rewrites the mutation until no rule matches it; returns how often that was done. -/
def canonicalizeInPlace (rules : List Rewrite) : StateM Mutation (Except Cycle Nat) :=
  settleInPlace rules (rules.length + 1) 0

/-- How often a mutation was rewritten, or why that was given up, and the mutation that is left. -/
def leave : Except Cycle (Nat × Mutation) → Except Cycle Nat × Mutation
  | .ok (count, left) => (.ok count, left)
  | .error cycle => (.error cycle, cycle.mutation)

section

variable {rules : List Rewrite} {mutation left : Mutation} {count : Nat}

theorem settleInPlace_succ (rules : List Rewrite) (budget applied : Nat) (mutation : Mutation) :
    settleInPlace rules (budget + 1) applied mutation =
      match step? rules mutation with
      | none => (.ok applied, mutation)
      | some next => settleInPlace rules budget (applied + 1) next := by
  simp only [settleInPlace, rewriteInPlace, bind, StateT.bind]
  cases step? rules mutation <;> rfl

theorem settleInPlace_eq (rules : List Rewrite) (budget applied : Nat) (mutation : Mutation) :
    settleInPlace rules budget applied mutation = leave (settle rules budget applied mutation) := by
  induction budget generalizing applied mutation with
  | zero => rfl
  | succ budget ih =>
    rw [settleInPlace_succ, settle]
    cases step? rules mutation with
    | none => rfl
    | some next => exact ih (applied + 1) next

theorem canonicalizeInPlace_eq (rules : List Rewrite) (mutation : Mutation) :
    canonicalizeInPlace rules mutation = leave (canonicalize rules mutation) :=
  settleInPlace_eq rules (rules.length + 1) 0 mutation

theorem leave_eq_ok_iff {outcome : Except Cycle (Nat × Mutation)} :
    leave outcome = (.ok count, left) ↔ outcome = .ok (count, left) := by
  cases outcome with
  | ok found => simp [leave, Prod.ext_iff]
  | error found => simp [leave]

theorem leave_eq_error_iff {outcome : Except Cycle (Nat × Mutation)} {cycle : Cycle} :
    leave outcome = (.error cycle, left) ↔ outcome = .error cycle ∧ left = cycle.mutation := by
  cases outcome with
  | ok found => simp [leave]
  | error found =>
    simp only [leave, Prod.mk.injEq, Except.error.injEq]
    constructor
    · rintro ⟨rfl, rfl⟩
      exact ⟨rfl, rfl⟩
    · rintro ⟨rfl, rfl⟩
      exact ⟨rfl, rfl⟩

/-! ## 2. Iterates -/

/-- What is left of a mutation that is rewritten in place that many times. -/
def iterate (rules : List Rewrite) (count : Nat) (mutation : Mutation) : Mutation :=
  (fun current => (rewriteInPlace rules current).2)^[count] mutation

/-- No rule matches. -/
def Settled (rules : List Rewrite) (mutation : Mutation) : Prop :=
  ∀ rule ∈ rules, rule.fits mutation = false

/-- The first iterate that no rule matches is the one of the given number. -/
def StopsAfter (rules : List Rewrite) (mutation : Mutation) (count : Nat) : Prop :=
  Settled rules (iterate rules count mutation) ∧
    ∀ earlier < count, ¬ Settled rules (iterate rules earlier mutation)

instance (rules : List Rewrite) (mutation : Mutation) : Decidable (Settled rules mutation) :=
  inferInstanceAs (Decidable (∀ rule ∈ rules, rule.fits mutation = false))

instance (rules : List Rewrite) (mutation : Mutation) (count : Nat) :
    Decidable (StopsAfter rules mutation count) :=
  inferInstanceAs (Decidable (Settled rules (iterate rules count mutation) ∧
    ∀ earlier < count, ¬ Settled rules (iterate rules earlier mutation)))

theorem step?_eq_none_iff : step? rules mutation = none ↔ Settled rules mutation := by
  simp [step?, Settled]

theorem iterate_succ_of_step {next : Mutation} (h : step? rules mutation = some next) (count : Nat) :
    iterate rules (count + 1) mutation = iterate rules count next := by
  rw [iterate, Function.iterate_succ_apply, rewriteInPlace, h, iterate]

/-- A run goes through the iterates, of which all but the last are matched by a rule. -/
theorem iterate_of_run {fired : List Rewrite} (h : Run rules mutation fired left) :
    left = iterate rules fired.length mutation ∧
      ∀ earlier < fired.length, ¬ Settled rules (iterate rules earlier mutation) := by
  -- The induction is on the run, whose first rule leads to the next iterate.
  induction h with
  | stop mutation => exact ⟨rfl, fun earlier hearlier => absurd hearlier (Nat.not_lt_zero earlier)⟩
  | @apply mutation left rule fired found _ ih =>
    have hstep : step? rules mutation = some (rule.apply mutation) := by simp [step?, found]
    refine ⟨ih.1.trans (iterate_succ_of_step hstep fired.length).symm, fun earlier hearlier => ?_⟩
    cases earlier with
    | zero =>
      intro hsettled
      have hnone : step? rules mutation = none := step?_eq_none_iff.mpr hsettled
      rw [hstep] at hnone
      cases hnone
    | succ earlier =>
      rw [iterate_succ_of_step hstep]
      exact ih.2 earlier (Nat.lt_of_succ_lt_succ hearlier)

/-- As long as no iterate is settled, the iterates are reached by a run. -/
theorem exists_run_iterate (h : ∀ earlier < count, ¬ Settled rules (iterate rules earlier mutation)) :
    ∃ fired, fired.length = count ∧ Run rules mutation fired (iterate rules count mutation) := by
  obtain ⟨fired, reached, hrun, hlength | ⟨hlength, hend⟩⟩ := exists_run rules mutation count
  · subst hlength
    exact ⟨fired, rfl, (iterate_of_run hrun).1 ▸ hrun⟩
  · rw [step?_eq_none_iff, (iterate_of_run hrun).1] at hend
    exact absurd hend (h fired.length hlength)

theorem canonicalize_eq_ok_iff_stopsAfter :
    canonicalize rules mutation = .ok (count, left) ↔
      count ≤ rules.length ∧ StopsAfter rules mutation count ∧
        left = iterate rules count mutation := by
  rw [canonicalize_eq_ok_iff]
  constructor
  · rintro ⟨fired, hrun, rfl, hend, hlength⟩
    obtain ⟨rfl, hearlier⟩ := iterate_of_run hrun
    exact ⟨hlength, ⟨step?_eq_none_iff.mp hend, hearlier⟩, rfl⟩
  · rintro ⟨hlength, ⟨hend, hearlier⟩, rfl⟩
    obtain ⟨fired, rfl, hrun⟩ := exists_run_iterate hearlier
    exact ⟨fired, hrun, rfl, step?_eq_none_iff.mpr hend, hlength⟩

theorem cycle_of_canonicalize {cycle : Cycle} (h : canonicalize rules mutation = .error cycle) :
    cycle = ⟨rules.length + 1, iterate rules (rules.length + 1) mutation⟩ := by
  obtain ⟨fired, reached, hrun, hlength | ⟨hlength, hend⟩⟩ :=
    exists_run rules mutation (rules.length + 1)
  · rw [canonicalize_of_long_run hrun hlength] at h
    rw [← Except.error.inj h, (iterate_of_run hrun).1, hlength]
  · rw [canonicalize_of_run hrun hend (Nat.le_of_lt_succ hlength)] at h
    cases h

theorem canonicalize_eq_error_iff {cycle : Cycle} :
    canonicalize rules mutation = .error cycle ↔
      (∀ count ≤ rules.length, ¬ StopsAfter rules mutation count) ∧
        cycle = ⟨rules.length + 1, iterate rules (rules.length + 1) mutation⟩ := by
  constructor
  · refine fun h => ⟨fun count hcount hstops => ?_, cycle_of_canonicalize h⟩
    rw [canonicalize_eq_ok_iff_stopsAfter.mpr ⟨hcount, hstops, rfl⟩] at h
    cases h
  · rintro ⟨hnever, rfl⟩
    cases hresult : canonicalize rules mutation with
    | ok found =>
      obtain ⟨hcount, hstops, -⟩ := canonicalize_eq_ok_iff_stopsAfter.mp hresult
      exact absurd hstops (hnever found.1 hcount)
    | error cycle => rw [cycle_of_canonicalize hresult]

theorem canonicalizeInPlace_eq_ok_iff :
    canonicalizeInPlace rules mutation = (.ok count, left) ↔
      count ≤ rules.length ∧ StopsAfter rules mutation count ∧
        left = iterate rules count mutation := by
  rw [canonicalizeInPlace_eq, leave_eq_ok_iff, canonicalize_eq_ok_iff_stopsAfter]

theorem canonicalizeInPlace_eq_error_iff {cycle : Cycle} :
    canonicalizeInPlace rules mutation = (.error cycle, left) ↔
      (∀ count ≤ rules.length, ¬ StopsAfter rules mutation count) ∧
        cycle = ⟨rules.length + 1, iterate rules (rules.length + 1) mutation⟩ ∧
        left = iterate rules (rules.length + 1) mutation := by
  rw [canonicalizeInPlace_eq, leave_eq_error_iff, canonicalize_eq_error_iff, and_assoc]
  refine and_congr_right fun _ => and_congr_right fun hcycle => ?_
  rw [hcycle]

/-- The mutation that is left is an iterate. -/
theorem exists_iterate_of_canonicalizeInPlace (rules : List Rewrite) (mutation : Mutation) :
    ∃ count, (canonicalizeInPlace rules mutation).2 = iterate rules count mutation := by
  cases hresult : canonicalizeInPlace rules mutation with
  | mk outcome left =>
    cases outcome with
    | ok count => exact ⟨count, (canonicalizeInPlace_eq_ok_iff.mp hresult).2.2⟩
    | error cycle => exact ⟨rules.length + 1, (canonicalizeInPlace_eq_error_iff.mp hresult).2.2⟩

/-- A mutation that no rule matches is left as it is. -/
theorem canonicalizeInPlace_of_settled (h : Settled rules mutation) :
    canonicalizeInPlace rules mutation = (.ok 0, mutation) :=
  canonicalizeInPlace_eq_ok_iff.mpr
    ⟨Nat.zero_le _, ⟨h, fun earlier hearlier => absurd hearlier (Nat.not_lt_zero earlier)⟩, rfl⟩

/-! ## 3. Validity -/

/-- A rule whose targets are declared keeps a mutation valid. -/
theorem validate_apply {mutators : List Mutator} {rule : Rewrite}
    (hrule : rule.WellFormed mutators) (hvalid : Mutation.validate mutators mutation = .ok ()) :
    Mutation.validate mutators (rule.apply mutation) = .ok () := by
  have hlength := Mutation.length_of_validate hvalid
  refine Mutation.validate_of_hasValue ((length_apply rule mutation).trans hlength)
    fun place mutator hplace => ?_
  -- A mutator that the rule names gets a target, which is declared; any other keeps its value.
  by_cases hnamed : ∃ record ∈ rule.records, record.mutator = place
  · obtain ⟨record, hrecord, rfl⟩ := hnamed
    obtain ⟨named, hnamed, hvalue⟩ := (hrule.declared record hrecord).2
    obtain rfl := Option.some.inj (hplace.symm.trans hnamed)
    have hlt : record.mutator < mutation.length :=
      hlength ▸ (List.getElem?_eq_some_iff.mp hplace).1
    exact ⟨record.target,
      getElem?_apply_of_mem (hrule.increasing.imp Nat.ne_of_lt) hrecord hlt, hvalue⟩
  · rw [getElem?_apply_of_ne fun record hrecord heq => hnamed ⟨record, hrecord, heq⟩]
    exact Mutation.exists_hasValue_of_validate hvalid hplace

theorem validate_iterate {mutators : List Mutator}
    (hrules : ∀ rule ∈ rules, rule.WellFormed mutators)
    (hvalid : Mutation.validate mutators mutation = .ok ()) (count : Nat) :
    Mutation.validate mutators (iterate rules count mutation) = .ok () := by
  induction count with
  | zero => exact hvalid
  | succ count ih =>
    rw [iterate, Function.iterate_succ_apply', ← iterate, rewriteInPlace, step?]
    cases hfind : rules.find? fun rule => rule.fits (iterate rules count mutation) with
    | none => exact ih
    | some rule => exact validate_apply (hrules rule (List.mem_of_find?_eq_some hfind)) ih

end

end ShaderVariants.Rewrite

/-! ## 4. Programs -/

namespace ShaderVariants.Program

open Rewrite

/-- What becomes of a valid mutation of a program that has been read when it is rewritten until no
rule matches: it is left at its first settled iterate if that is reached within as many rewrites as
there are rules, and is reported where the rewrite after these has left it otherwise. -/
theorem canonicalizeInPlace_iterates {reader : FileReader} {settings : Settings} {fileName : Text}
    {program : Program} (hread : Program.read reader settings fileName = .ok program)
    {mutation : Mutation} (hvalid : program.validate mutation = .ok ()) :
    (∀ count left, canonicalizeInPlace program.rewrites mutation = (.ok count, left) ↔
      count ≤ program.rewrites.length ∧ StopsAfter program.rewrites mutation count ∧
        left = iterate program.rewrites count mutation) ∧
    (∀ cycle left, canonicalizeInPlace program.rewrites mutation = (.error cycle, left) ↔
      (∀ count ≤ program.rewrites.length, ¬ StopsAfter program.rewrites mutation count) ∧
        cycle = ⟨program.rewrites.length + 1,
          iterate program.rewrites (program.rewrites.length + 1) mutation⟩ ∧
        left = iterate program.rewrites (program.rewrites.length + 1) mutation) ∧
    program.validate (canonicalizeInPlace program.rewrites mutation).2 = .ok () ∧
    (∀ count left, canonicalizeInPlace program.rewrites mutation = (.ok count, left) →
      canonicalizeInPlace program.rewrites left = (.ok 0, left)) ∧
    ((∀ count, ¬ Settled program.rewrites (iterate program.rewrites count mutation)) →
      ∃ cycle left, canonicalizeInPlace program.rewrites mutation = (.error cycle, left)) ∧
    canonicalizeInPlace program.rewrites mutation = leave (program.canonicalize mutation) := by
  refine ⟨fun _ _ => canonicalizeInPlace_eq_ok_iff, fun _ _ => canonicalizeInPlace_eq_error_iff,
    ?valid, ?again, ?never, canonicalizeInPlace_eq _ _⟩
  case valid =>
    obtain ⟨count, hcount⟩ := exists_iterate_of_canonicalizeInPlace program.rewrites mutation
    rw [hcount]
    exact validate_iterate (wellFormed_of_read hread).mutators.rules hvalid count
  case again =>
    intro count left hleft
    obtain ⟨-, hstops, rfl⟩ := canonicalizeInPlace_eq_ok_iff.mp hleft
    exact canonicalizeInPlace_of_settled hstops.1
  case never =>
    exact fun hnever => ⟨_, _, canonicalizeInPlace_eq_error_iff.mpr
      ⟨fun count _ hstops => hnever count hstops.1, rfl, rfl⟩⟩

theorem canonicalizeInPlace_iterates_fading :
    Program.read (.ofFiles [("fading".toList, fadingFile)]) .default "fading".toList =
        .ok fading ∧
      fading.validate [0, 1] = .ok () ∧
      canonicalizeInPlace fading.rewrites [0, 1] = (.ok 2, [2, 0]) := by
  have hvalid : fading.validate [0, 1] = .ok () := by decide +kernel
  exact ⟨read_fading, hvalid,
    ((canonicalizeInPlace_iterates read_fading hvalid).1 2 [2, 0]).mpr (by decide)⟩

/-- A mutation that is given up is left where it is reported. -/
example : canonicalizeInPlace wandering.rewrites [0, 0] = (.error ⟨3, [1, 1]⟩, [1, 1]) :=
  rfl

end ShaderVariants.Program
