import Mathlib.Data.List.Perm.Subperm
import Mathlib.Logic.Relation
import ShaderVariants.Proofs.Program.WellFormed

/-!
# How long rewriting goes on

A mutation is rewritten as often as there are rules, and given up if a rule still matches it then.
That is often enough for rules of which none feeds itself, directly or through others: such rules
are applied at most once each (`length_le_of_run`).  Other rules may take longer than that and
still come to an end.
-/

namespace ShaderVariants.Rewrite

/-! ## 1. Runs -/

/-- Rewriting a mutation with each of the listed rules in turn, where each is the first one that
matches. -/
inductive Run (rules : List Rewrite) : Mutation → List Rewrite → Mutation → Prop
  | stop (mutation : Mutation) : Run rules mutation [] mutation
  | apply {mutation result : Mutation} {rule : Rewrite} {fired : List Rewrite}
      (found : (rules.find? fun rule => rule.fits mutation) = some rule)
      (after : Run rules (rule.apply mutation) fired result) :
      Run rules mutation (rule :: fired) result

section

variable {rules : List Rewrite} {mutation result : Mutation} {fired : List Rewrite}

/-- Rewriting with a budget follows a run and goes on from its end with what is left. -/
theorem settle_of_run (h : Run rules mutation fired result) (budget applied : Nat) :
    settle rules (fired.length + budget) applied mutation =
      settle rules budget (applied + fired.length) result := by
  -- The induction is on the run: each of its rules takes one from the budget.
  induction h generalizing applied with
  | stop mutation => simp
  | @apply mutation result rule fired found _ ih =>
    have hstep : step? rules mutation = some (rule.apply mutation) := by
      simp [step?, found]
    rw [List.length_cons, show fired.length + 1 + budget = fired.length + budget + 1 by omega,
      settle, hstep]
    rw [show applied + (fired.length + 1) = applied + 1 + fired.length by omega]
    exact ih (applied + 1)

theorem canonicalize_of_run (h : Run rules mutation fired result)
    (hend : step? rules result = none) (hlength : fired.length ≤ rules.length) :
    canonicalize rules mutation = .ok (fired.length, result) := by
  obtain ⟨rest, hrest⟩ := Nat.exists_eq_add_of_le hlength
  rw [canonicalize, show rules.length + 1 = fired.length + (rest + 1) by omega, settle_of_run h,
    settle, hend, Nat.zero_add]

theorem canonicalize_of_long_run (h : Run rules mutation fired result)
    (hlength : fired.length = rules.length + 1) :
    canonicalize rules mutation = .error ⟨rules.length + 1, result⟩ := by
  have hsettle := settle_of_run h 0 0
  rw [Nat.add_zero, Nat.zero_add, hlength] at hsettle
  rw [canonicalize, hsettle, settle]

/-- Rewriting goes on for as long as asked, or ends before. -/
theorem exists_run (rules : List Rewrite) (mutation : Mutation) (length : Nat) :
    ∃ fired result, Run rules mutation fired result ∧
      (fired.length = length ∨ fired.length < length ∧ step? rules result = none) := by
  induction length generalizing mutation with
  | zero => exact ⟨[], mutation, .stop mutation, Or.inl rfl⟩
  | succ length ih =>
    cases hfind : rules.find? fun rule => rule.fits mutation with
    | none =>
      exact ⟨[], mutation, .stop mutation, Or.inr ⟨Nat.succ_pos length, by simp [step?, hfind]⟩⟩
    | some rule =>
      obtain ⟨fired, result, hrun, hlength | ⟨hlength, hend⟩⟩ := ih (rule.apply mutation)
      · exact ⟨rule :: fired, result, .apply hfind hrun, Or.inl (by simp [hlength])⟩
      · exact ⟨rule :: fired, result, .apply hfind hrun, Or.inr ⟨by simpa using hlength, hend⟩⟩

/-- Rewriting succeeds exactly with the end of a run within the limit. -/
theorem canonicalize_eq_ok_iff {count : Nat} :
    canonicalize rules mutation = .ok (count, result) ↔
      ∃ fired, Run rules mutation fired result ∧ fired.length = count ∧
        step? rules result = none ∧ count ≤ rules.length := by
  constructor
  · intro h
    obtain ⟨fired, reached, hrun, hlength | ⟨hlength, hend⟩⟩ :=
      exists_run rules mutation (rules.length + 1)
    · rw [canonicalize_of_long_run hrun hlength] at h
      cases h
    · have hle := Nat.le_of_lt_succ hlength
      rw [canonicalize_of_run hrun hend hle] at h
      obtain ⟨rfl, rfl⟩ := Prod.mk.inj (Except.ok.inj h)
      exact ⟨fired, hrun, rfl, hend, hle⟩
  · rintro ⟨fired, hrun, rfl, hend, hlength⟩
    exact canonicalize_of_run hrun hend hlength

/-- A run in two parts. -/
theorem run_append_iff {first second : List Rewrite} :
    Run rules mutation (first ++ second) result ↔
      ∃ between, Run rules mutation first between ∧ Run rules between second result := by
  induction first generalizing mutation with
  | nil =>
    constructor
    · exact fun h => ⟨mutation, .stop mutation, h⟩
    · rintro ⟨between, hfirst, hsecond⟩
      cases hfirst
      exact hsecond
  | cons rule first ih =>
    constructor
    · intro h
      cases h with
      | apply found after =>
        obtain ⟨between, hfirst, hsecond⟩ := ih.mp after
        exact ⟨between, .apply found hfirst, hsecond⟩
    · rintro ⟨between, hfirst, hsecond⟩
      cases hfirst with
      | apply found after => exact .apply found (ih.mpr ⟨between, after, hsecond⟩)

/-! ## 2. What a rule does to one value -/

theorem fits_iff {rule : Rewrite} :
    rule.fits mutation = true ↔
      ∀ record ∈ rule.records, mutation[record.mutator]? = some record.source := by
  simp [fits]

theorem getElem?_apply_of_ne {rule : Rewrite} {place : Nat}
    (h : ∀ record ∈ rule.records, record.mutator ≠ place) (mutation : Mutation) :
    (rule.apply mutation)[place]? = mutation[place]? := by
  obtain ⟨records⟩ := rule
  simp only [apply] at h ⊢
  induction records generalizing mutation with
  | nil => rfl
  | cons record records ih =>
    obtain ⟨hrecord, hrecords⟩ := List.forall_mem_cons.mp h
    rw [List.foldl_cons, ih _ hrecords, List.getElem?_set_ne hrecord]

theorem getElem?_apply_of_mem {rule : Rewrite}
    (hdistinct : (rule.records.map RewriteRecord.mutator).Nodup) {record : RewriteRecord}
    (hrecord : record ∈ rule.records) (hplace : record.mutator < mutation.length) :
    (rule.apply mutation)[record.mutator]? = some record.target := by
  obtain ⟨records⟩ := rule
  simp only [apply] at hdistinct hrecord ⊢
  induction records generalizing mutation with
  | nil => cases hrecord
  | cons first records ih =>
    rw [List.map_cons, List.nodup_cons] at hdistinct
    rw [List.foldl_cons]
    rcases List.mem_cons.mp hrecord with rfl | hrecord
    -- No later record touches the same mutator, so the value that is set first stays.
    · have hne : ∀ other ∈ records, other.mutator ≠ record.mutator := by
        intro other hother heq
        exact hdistinct.1 (heq ▸ List.mem_map_of_mem hother)
      have hkeep : (apply ⟨records⟩ (mutation.set record.mutator record.target))[record.mutator]? =
          (mutation.set record.mutator record.target)[record.mutator]? :=
        getElem?_apply_of_ne hne _
      rw [apply] at hkeep
      rw [hkeep, List.getElem?_set_self hplace]
    · exact ih (by simpa using hplace) hdistinct.2 hrecord

theorem getElem?_apply_of_unchanged {rule : Rewrite}
    (hdistinct : (rule.records.map RewriteRecord.mutator).Nodup) (hfits : rule.fits mutation = true)
    {place : Nat}
    (h : ∀ record ∈ rule.records, record.mutator = place → record.source = record.target) :
    (rule.apply mutation)[place]? = mutation[place]? := by
  by_cases hnamed : ∃ record ∈ rule.records, record.mutator = place
  · obtain ⟨record, hrecord, rfl⟩ := hnamed
    have hvalue := fits_iff.mp hfits record hrecord
    have hplace := (List.getElem?_eq_some_iff.mp hvalue).1
    rw [getElem?_apply_of_mem hdistinct hrecord hplace, hvalue, h record hrecord rfl]
  · exact getElem?_apply_of_ne (fun record hrecord heq => hnamed ⟨record, hrecord, heq⟩) mutation

/-! ## 3. Rules that feed rules -/

/-- A rule feeds another one if it changes a mutator to a value that the other one asks of it. -/
def Feeds (rules : List Rewrite) (rule next : Rewrite) : Prop :=
  rule ∈ rules ∧ next ∈ rules ∧ ∃ record ∈ rule.records, record.source ≠ record.target ∧
    ∃ asked ∈ next.records, asked.mutator = record.mutator ∧ asked.source = record.target

instance (rules : List Rewrite) (rule next : Rewrite) : Decidable (Feeds rules rule next) :=
  inferInstanceAs (Decidable (rule ∈ rules ∧ next ∈ rules ∧ ∃ record ∈ rule.records,
    record.source ≠ record.target ∧ ∃ asked ∈ next.records,
      asked.mutator = record.mutator ∧ asked.source = record.target))

/-- No rule feeds itself, directly or through other rules. -/
def Acyclic (rules : List Rewrite) : Prop :=
  ∀ rule, ¬ Relation.TransGen (Feeds rules) rule rule

/-- Rules that only feed rules of a higher rank are acyclic. -/
theorem acyclic_of_rank (rank : Rewrite → Nat)
    (h : ∀ rule next, Feeds rules rule next → rank rule < rank next) : Acyclic rules := by
  intro rule hcycle
  have hlt : ∀ last, Relation.TransGen (Feeds rules) rule last → rank rule < rank last := by
    intro last hpath
    induction hpath with
    | single hfeeds => exact h _ _ hfeeds
    | tail _ hfeeds ih => exact Nat.lt_trans ih (h _ _ hfeeds)
  exact Nat.lt_irrefl _ (hlt rule hcycle)

/-- If a rule has just given a mutator its value and a later match asks for a value of that
mutator, the rule feeds the one that matches: the value is passed on by whatever changes it in
between. -/
theorem transGen_feeds_of_run
    (hdistinct : ∀ rule ∈ rules, (rule.records.map RewriteRecord.mutator).Nodup)
    (h : Run rules mutation fired result) {rule last : Rewrite} (hrule : rule ∈ rules)
    {record asked : RewriteRecord} (hrecord : record ∈ rule.records)
    (hchange : record.source ≠ record.target)
    (hvalue : mutation[record.mutator]? = some record.target)
    (hlast : last ∈ rules) (hfits : last.fits result = true) (hasked : asked ∈ last.records)
    (hplace : asked.mutator = record.mutator) :
    Relation.TransGen (Feeds rules) rule last := by
  -- The induction is on the run.  Its invariant is that `record` has just given its mutator the
  -- value; where the next rule changes the mutator again, that rule takes the place of `rule`.
  induction h generalizing rule record with
  | stop mutation =>
    have hsource := fits_iff.mp hfits asked hasked
    rw [hplace, hvalue] at hsource
    exact .single ⟨hrule, hlast, record, hrecord, hchange, asked, hasked, hplace,
      (Option.some.inj hsource).symm⟩
  | @apply mutation result next fired found _ ih =>
    have hnext := List.mem_of_find?_eq_some found
    have hmatch : next.fits mutation = true := by simpa using List.find?_some found
    by_cases hchanged : ∃ change ∈ next.records, change.mutator = record.mutator ∧
        change.source ≠ change.target
    · obtain ⟨change, hmem, hsame, hne⟩ := hchanged
      have hsource := fits_iff.mp hmatch change hmem
      have hlt := (List.getElem?_eq_some_iff.mp hsource).1
      have hfeeds : Feeds rules rule next := by
        refine ⟨hrule, hnext, record, hrecord, hchange, change, hmem, hsame, ?_⟩
        rw [hsame, hvalue] at hsource
        exact (Option.some.inj hsource).symm
      refine .head hfeeds (ih hnext hmem hne ?_ hfits (hplace.trans hsame.symm))
      exact getElem?_apply_of_mem (hdistinct next hnext) hmem hlt
    · refine ih hrule hrecord hchange ?_ hfits hplace
      rw [getElem?_apply_of_unchanged (hdistinct next hnext) hmatch, hvalue]
      intro change hmem hsame
      by_contra hne
      exact hchanged ⟨change, hmem, hsame, hne⟩

/-- Acyclic rules are applied at most once each. -/
theorem nodup_of_run {mutators : List Mutator}
    (hrules : ∀ rule ∈ rules, rule.WellFormed mutators) (hacyclic : Acyclic rules)
    (h : Run rules mutation fired result) : fired.Nodup := by
  have hdistinct : ∀ rule ∈ rules, (rule.records.map RewriteRecord.mutator).Nodup :=
    fun rule hrule => (hrules rule hrule).increasing.imp Nat.ne_of_lt
  induction h with
  | stop mutation => exact List.nodup_nil
  | @apply mutation result rule fired found after ih =>
    refine List.nodup_cons.mpr ⟨fun hagain => hacyclic rule ?_, ih⟩
    -- Between its two applications the rule feeds itself: the second one asks for what the first
    -- one has changed.
    obtain ⟨before, rest, rfl⟩ := List.append_of_mem hagain
    obtain ⟨between, hbefore, hrest⟩ := run_append_iff.mp after
    have hmatch : rule.fits mutation = true := by simpa using List.find?_some found
    have hrule := List.mem_of_find?_eq_some found
    obtain ⟨record, hrecord, hchange⟩ := (hrules rule hrule).changes
    have hlt := (List.getElem?_eq_some_iff.mp (fits_iff.mp hmatch record hrecord)).1
    have hvalue := getElem?_apply_of_mem (hdistinct rule hrule) hrecord hlt
    cases hrest with
    | apply again _ =>
      have hfits : rule.fits between = true := by simpa using List.find?_some again
      exact transGen_feeds_of_run hdistinct hbefore hrule hrecord hchange hvalue hrule hfits hrecord
        rfl

theorem mem_of_run (h : Run rules mutation fired result) : ∀ rule ∈ fired, rule ∈ rules := by
  induction h with
  | stop mutation => simp
  | apply found _ ih => exact List.forall_mem_cons.mpr ⟨List.mem_of_find?_eq_some found, ih⟩

theorem length_le_of_run {mutators : List Mutator}
    (hrules : ∀ rule ∈ rules, rule.WellFormed mutators) (hacyclic : Acyclic rules)
    (h : Run rules mutation fired result) : fired.length ≤ rules.length :=
  (List.subperm_of_subset (nodup_of_run hrules hacyclic h) (mem_of_run h)).length_le

theorem canonicalize_of_acyclic {mutators : List Mutator}
    (hrules : ∀ rule ∈ rules, rule.WellFormed mutators) (hacyclic : Acyclic rules)
    (mutation : Mutation) :
    ∃ count result, canonicalize rules mutation = .ok (count, result) ∧
      step? rules result = none := by
  obtain ⟨fired, result, hrun, hlength | ⟨hlength, hend⟩⟩ :=
    exists_run rules mutation (rules.length + 1)
  -- A longer run would repeat a rule.
  · have := length_le_of_run hrules hacyclic hrun
    omega
  · exact ⟨_, result, canonicalize_of_run hrun hend (Nat.le_of_lt_succ hlength), hend⟩

end

end ShaderVariants.Rewrite

/-! ## 4. Programs -/

namespace ShaderVariants.Program

open Rewrite

/-- The mutations of a program that has been read are rewritten to their end if that takes no more
rules than there are, and always if the rules are acyclic. -/
theorem canonicalize_settles {reader : FileReader} {settings : Settings} {fileName : Text}
    {program : Program} (hread : Program.read reader settings fileName = .ok program)
    (mutation : Mutation) :
    (∀ count result, program.canonicalize mutation = .ok (count, result) ↔
      ∃ fired, Run program.rewrites mutation fired result ∧ fired.length = count ∧
        step? program.rewrites result = none ∧ count ≤ program.rewrites.length) ∧
    (Acyclic program.rewrites → ∃ count result,
      program.canonicalize mutation = .ok (count, result) ∧
        step? program.rewrites result = none) :=
  ⟨fun _ _ => canonicalize_eq_ok_iff,
    fun hacyclic => canonicalize_of_acyclic (wellFormed_of_read hread).mutators.rules hacyclic _⟩

/-- A file whose first rule feeds the second one. -/
def fadingFile : Text :=
  Text.unlines
    ["#pragma anki mutator LOD 0 1 2".toList, "#pragma anki mutator SHADOWS 0 1".toList,
     "#pragma anki rewrite_mutation LOD 0 to LOD 1".toList,
     "#pragma anki rewrite_mutation LOD 1 SHADOWS 1 to LOD 2 SHADOWS 0".toList,
     "#pragma anki start comp".toList, "#pragma anki end".toList]

/-- The program of that file. -/
def fading : Program where
  fileName := "fading".toList
  settings := .default
  mutators := [⟨"LOD".toList, [0, 1, 2], false⟩, ⟨"SHADOWS".toList, [0, 1], false⟩]
  rewrites := [⟨[⟨0, 0, 1⟩]⟩, ⟨[⟨0, 1, 2⟩, ⟨1, 1, 0⟩]⟩]
  inputs := []
  stages := .singleton .compute
  descriptorSet := 0
  instanceMutator := none
  globals := []
  stageCode := .const []
  members := []

theorem read_fading :
    Program.read (.ofFiles [("fading".toList, fadingFile)]) .default "fading".toList =
      .ok fading := by
  -- A literal is spelled out once, in the goal, and not wherever the evaluation looks at it.
  unfold fadingFile fading
  repeat rewrite [String.toList_ofList]
  decide +kernel

/-- Its rules feed only rules that ask more of the first mutator. -/
theorem acyclic_fading : Acyclic fading.rewrites := by
  have hrank : ∀ rule ∈ fading.rewrites, ∀ next ∈ fading.rewrites,
      Feeds fading.rewrites rule next →
        (rule.records.map fun record => record.source.toNat).headD 0 <
          (next.records.map fun record => record.source.toNat).headD 0 := by
    decide
  exact acyclic_of_rank _ fun rule next hfeeds => hrank rule hfeeds.1 next hfeeds.2.1 hfeeds

theorem canonicalize_settles_fading :
    Program.read (.ofFiles [("fading".toList, fadingFile)]) .default "fading".toList =
        .ok fading ∧
      Acyclic fading.rewrites ∧
      ∃ count result, fading.canonicalize [0, 1] = .ok (count, result) ∧
        step? fading.rewrites result = none := by
  exact ⟨read_fading, acyclic_fading,
    (canonicalize_settles read_fading [0, 1]).2 acyclic_fading⟩

/-- A file with a rule that turns back what the first one does, and ends all the same. -/
def wanderingFile : Text :=
  Text.unlines
    ["#pragma anki mutator A 0 1".toList, "#pragma anki mutator B 0 1".toList,
     "#pragma anki rewrite_mutation A 0 to A 1".toList,
     "#pragma anki rewrite_mutation A 1 B 0 to A 0 B 1".toList,
     "#pragma anki start comp".toList, "#pragma anki end".toList]

/-- The program of that file. -/
def wandering : Program where
  fileName := "wandering".toList
  settings := .default
  mutators := [⟨"A".toList, [0, 1], false⟩, ⟨"B".toList, [0, 1], false⟩]
  rewrites := [⟨[⟨0, 0, 1⟩]⟩, ⟨[⟨0, 1, 0⟩, ⟨1, 0, 1⟩]⟩]
  inputs := []
  stages := .singleton .compute
  descriptorSet := 0
  instanceMutator := none
  globals := []
  stageCode := .const []
  members := []

/-- Rewriting that ends after more applications than there are rules is given up. -/
theorem not_canonicalize_of_terminating :
    ¬ ∀ (reader : FileReader) (settings : Settings) (fileName : Text) (program : Program)
        (mutation : Mutation) (fired : List Rewrite) (result : Mutation),
        Program.read reader settings fileName = .ok program →
        program.validate mutation = .ok () →
        Run program.rewrites mutation fired result →
        step? program.rewrites result = none →
        ∃ count, program.canonicalize mutation = .ok (count, result) := by
  intro h
  have hread : Program.read (.ofFiles [("wandering".toList, wanderingFile)]) .default
      "wandering".toList = .ok wandering := by
    unfold wanderingFile wandering
    repeat rewrite [String.toList_ofList]
    decide +kernel
  have hvalid : wandering.validate [0, 0] = .ok () := by decide +kernel
  have hrun : Run wandering.rewrites [0, 0]
      [⟨[⟨0, 0, 1⟩]⟩, ⟨[⟨0, 1, 0⟩, ⟨1, 0, 1⟩]⟩, ⟨[⟨0, 0, 1⟩]⟩] [1, 1] :=
    .apply (by decide) (.apply (by decide) (.apply (by decide) (.stop _)))
  have hend : step? wandering.rewrites [1, 1] = none := by decide
  obtain ⟨count, hcount⟩ := h _ _ _ _ _ _ _ hread hvalid hrun hend
  have hgiven : wandering.canonicalize [0, 0] = .error ⟨3, [1, 1]⟩ := by decide +kernel
  rw [hgiven] at hcount
  cases hcount

end ShaderVariants.Program
