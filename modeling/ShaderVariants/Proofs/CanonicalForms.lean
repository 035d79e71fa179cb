import ShaderVariants.Command.Generate
import ShaderVariants.Program.Summary
import ShaderVariants.Proofs.Enumeration
import ShaderVariants.Proofs.Iterates

/-!
# Canonical forms of all mutations

The forms that a run goes through are the canonical forms of the mutations, each once and in the
order in which the mutations lead to them, and the summary of a program counts the same forms one
by one (`Program.requestedForms_canonical`).
-/

namespace ShaderVariants

/-! ## 1. Repetitions -/

theorem length_distinctFrom_le {α : Type} [BEq α] [Hashable α] (seen : Std.HashSet α)
    (as : List α) : (distinctFrom seen as).length ≤ as.length := by
  induction as generalizing seen with
  | nil => exact Nat.le_refl 0
  | cons a rest ih =>
    rw [distinctFrom]
    split
    · exact Nat.le_succ_of_le (ih seen)
    · exact Nat.succ_le_succ (ih _)

section

variable {α : Type} [BEq α] [LawfulBEq α] [Hashable α] [LawfulHashable α]

/-- Only what has been seen matters, not the order in which it was. -/
theorem distinctFrom_congr {seen other : Std.HashSet α} (h : ∀ a, a ∈ seen ↔ a ∈ other)
    (as : List α) : distinctFrom seen as = distinctFrom other as := by
  induction as generalizing seen other with
  | nil => rfl
  | cons a rest ih =>
    rw [distinctFrom, distinctFrom]
    by_cases ha : a ∈ seen
    · rw [if_pos (by simpa using ha), if_pos (by simpa using (h a).mp ha)]
      exact ih h
    · rw [if_neg (by simpa using ha), if_neg (by simpa using mt (h a).mpr ha)]
      refine congrArg (a :: ·) (ih fun b => ?_)
      rw [Std.HashSet.mem_insert, Std.HashSet.mem_insert, h b]

/-- The elements are kept in the order of their first places. -/
theorem pairwise_distinctFrom (seen : Std.HashSet α) (as : List α) :
    (distinctFrom seen as).Pairwise fun a b => as.idxOf a < as.idxOf b := by
  induction as generalizing seen with
  | nil => exact List.Pairwise.nil
  | cons c rest ih =>
    -- What is kept of the rest is not `c`, so it stands one place further on.
    have hplace : ∀ a, a ≠ c → (c :: rest).idxOf a = rest.idxOf a + 1 := by
      intro a hne
      rw [List.idxOf_cons_ne rest (Ne.symm hne)]
    have hlater : ∀ later : Std.HashSet α, c ∈ later →
        (distinctFrom later rest).Pairwise fun a b =>
          (c :: rest).idxOf a < (c :: rest).idxOf b := by
      intro later hc
      have hne : ∀ a ∈ distinctFrom later rest, a ≠ c := by
        rintro a ha rfl
        exact (mem_distinctFrom.mp ha).2 hc
      apply (ih later).imp_of_mem
      intro a b ha hb hlt
      rw [hplace a (hne a ha), hplace b (hne b hb)]
      omega
    rw [distinctFrom]
    by_cases hc : c ∈ seen
    · rw [if_pos (by simpa using hc)]
      exact hlater seen hc
    · rw [if_neg (by simpa using hc)]
      have hinsert : c ∈ seen.insert c := by simp
      refine List.pairwise_cons.mpr ⟨fun a ha => ?_, hlater _ hinsert⟩
      have hne : a ≠ c := by
        rintro rfl
        exact (mem_distinctFrom.mp ha).2 hinsert
      rw [hplace a hne, List.idxOf_cons_self]
      omega

end

namespace Program

/-! ## 2. Forms of some mutations -/

/-- The canonical form of a mutation, if it has one. -/
def form? (program : Program) (mutation : Mutation) : Option Mutation :=
  (program.canonicalize mutation).toOption.map Prod.snd

/-- The place in the enumeration of the first mutation that leads to a form. -/
def firstPlace (program : Program) (form : Mutation) : Nat :=
  program.mutations.findIdx fun mutation => program.form? mutation == some form

section

variable {program : Program} {mutations forms : List Mutation}

theorem form?_eq_some_iff {mutation form : Mutation} :
    program.form? mutation = some form ↔
      ∃ count, program.canonicalize mutation = .ok (count, form) := by
  rw [form?]
  cases program.canonicalize mutation with
  | error cycle => simp [Except.toOption]
  | ok found =>
    obtain ⟨count, left⟩ := found
    simp [Except.toOption]

theorem map_some_of_canonicalForms (h : program.canonicalForms mutations = .ok forms) :
    forms.map some = mutations.map program.form? := by
  induction mutations generalizing forms with
  | nil =>
    obtain rfl : [] = forms := Except.ok.inj h
    rfl
  | cons mutation rest ih =>
    rw [canonicalForms] at h
    split at h
    · cases h
    next count form hform =>
      cases hrest : program.canonicalForms rest with
      | error cycle =>
        rw [hrest] at h
        cases h
      | ok more =>
        rw [hrest] at h
        obtain rfl : form :: more = forms := Except.ok.inj h
        rw [List.map_cons, List.map_cons, ih hrest, form?_eq_some_iff.mpr ⟨count, hform⟩]

/-- The forms are missing exactly if one mutation has none. -/
theorem exists_canonicalForms_iff :
    (∃ forms, program.canonicalForms mutations = .ok forms) ↔
      ∀ mutation ∈ mutations, ∃ count form, program.canonicalize mutation = .ok (count, form) := by
  induction mutations with
  | nil => simp [canonicalForms]
  | cons mutation rest ih =>
    rw [List.forall_mem_cons, ← ih, canonicalForms]
    cases program.canonicalize mutation with
    | error cycle => simp
    | ok found =>
      obtain ⟨count, form⟩ := found
      cases program.canonicalForms rest <;> simp [Except.map]

/-- Counting one form after the other comes to the number of different forms that are new. -/
theorem countForms_eq (found : Std.HashSet Mutation) (mutations : List Mutation) :
    program.countForms found mutations = (program.canonicalForms mutations).map fun forms =>
      found.size + (distinctFrom found forms).length := by
  induction mutations generalizing found with
  | nil => rfl
  | cons mutation rest ih =>
    rw [countForms, canonicalForms]
    cases program.canonicalize mutation with
    | error cycle => rfl
    | ok reached =>
      obtain ⟨count, form⟩ := reached
      dsimp only
      rw [ih]
      cases program.canonicalForms rest with
      | error cycle => rfl
      | ok forms =>
        show Except.ok
            ((found.insert form).size + (distinctFrom (found.insert form) forms).length) =
          Except.ok (found.size + (distinctFrom found (form :: forms)).length)
        rw [Std.HashSet.size_insert, distinctFrom.eq_def found]
        dsimp only
        by_cases hform : form ∈ found
        -- A form that was found before adds nothing to what has been found.
        · have hsame : ∀ a, a ∈ found.insert form ↔ a ∈ found := by
            intro a
            rw [Std.HashSet.mem_insert, beq_iff_eq]
            refine ⟨?_, Or.inr⟩
            rintro (rfl | ha)
            · exact hform
            · exact ha
          rw [if_pos hform, if_pos (by simpa using hform), distinctFrom_congr hsame]
        · rw [if_neg hform, if_neg (by simpa using hform), List.length_cons]
          congr 1
          omega

theorem summary_eq (program : Program) :
    program.summary = (program.distinctForms program.mutations).map fun forms =>
      Text.unlines (program.declarationSummary ++ [program.mutationSummary forms.length]) := by
  rw [summary, countForms_eq, distinctForms]
  cases program.canonicalForms program.mutations with
  | error cycle => rfl
  | ok forms => simp [Except.map, distinct]

theorem requestedForms_nil (program : Program) :
    program.requestedForms [] =
      (program.distinctForms program.mutations).mapError .cycle := rfl

theorem pairwise_firstPlace (h : program.distinctForms program.mutations = .ok forms) :
    forms.Pairwise fun a b => program.firstPlace a < program.firstPlace b := by
  rw [distinctForms] at h
  cases hall : program.canonicalForms program.mutations with
  | error cycle =>
    rw [hall] at h
    cases h
  | ok all =>
    rw [hall] at h
    obtain rfl : distinct all = forms := Except.ok.inj h
    have hplace : ∀ form, all.idxOf form = program.firstPlace form := by
      intro form
      calc all.idxOf form = (all.map some).findIdx (· == some form) := by
            rw [List.findIdx_map, List.idxOf]
            rfl
        _ = program.firstPlace form := by
            rw [map_some_of_canonicalForms hall, List.findIdx_map]
            rfl
    simp only [← hplace]
    exact pairwise_distinctFrom ∅ all

end

/-! ## 3. Forms of all mutations -/

/-- A form that has been reached is valid, and no rule changes it. -/
theorem settled_of_canonicalize {program : Program}
    (hrules : ∀ rule ∈ program.rewrites, rule.WellFormed program.mutators)
    {mutation form : Mutation} {count : Nat} (hvalid : program.validate mutation = .ok ())
    (h : program.canonicalize mutation = .ok (count, form)) :
    program.validate form = .ok () ∧
      Rewrite.rewriteInPlace program.rewrites form = (false, form) := by
  obtain ⟨-, hstops, rfl⟩ := Rewrite.canonicalize_eq_ok_iff_stopsAfter.mp h
  refine ⟨Rewrite.validate_iterate hrules hvalid count, ?_⟩
  rw [Rewrite.rewriteInPlace, Rewrite.step?_eq_none_iff.mpr hstops.1]

/-- The forms of all mutations of a program that has been read.  If every mutation has one, a run
without selections goes through the forms of the mutations, each of them once and in the order of
the first mutations that lead to them, and the summary tells how many they are; they are valid, and
rewriting leaves them as they are.  If some mutation has none, there is neither a run nor a summary,
for the same reason. -/
theorem requestedForms_canonical {reader : FileReader} {settings : Settings} {fileName : Text}
    {program : Program} (hread : Program.read reader settings fileName = .ok program) :
    ((∀ mutation ∈ program.mutations, ∃ count form,
        program.canonicalize mutation = .ok (count, form)) →
      ∃ forms, program.requestedForms [] = .ok forms ∧ forms.Nodup ∧
        (∀ form, form ∈ forms ↔ ∃ mutation ∈ program.mutations, ∃ count,
          program.canonicalize mutation = .ok (count, form)) ∧
        (∀ form ∈ forms, program.validate form = .ok () ∧
          Rewrite.rewriteInPlace program.rewrites form = (false, form)) ∧
        (forms.Pairwise fun a b => program.firstPlace a < program.firstPlace b) ∧
        forms.length ≤ (program.mutators.map fun mutator => mutator.values.length).prod ∧
        program.summary = .ok (Text.unlines
          (program.declarationSummary ++ [program.mutationSummary forms.length]))) ∧
    (∀ mutation ∈ program.mutations, ∀ cycle, program.canonicalize mutation = .error cycle →
      ∃ first, program.requestedForms [] = .error (.cycle first) ∧
        program.summary = .error first) := by
  rw [summary_eq, requestedForms_nil]
  constructor
  · intro hall
    obtain ⟨all, hforms⟩ := exists_canonicalForms_iff.mpr hall
    have hdistinct : program.distinctForms program.mutations = .ok (distinct all) := by
      rw [distinctForms, hforms]
      rfl
    have hmem : ∀ form, form ∈ distinct all ↔ ∃ mutation ∈ program.mutations, ∃ count,
        program.canonicalize mutation = .ok (count, form) := by
      intro form
      have hsome : form ∈ all ↔ some form ∈ all.map some := by simp
      rw [mem_distinct, hsome, map_some_of_canonicalForms hforms, List.mem_map]
      simp only [form?_eq_some_iff]
    have hlength : all.length = program.mutations.length := by
      have := congrArg List.length (map_some_of_canonicalForms hforms)
      simpa using this
    rw [hdistinct]
    refine ⟨distinct all, rfl, nodup_distinct all, hmem, fun form hform => ?settled,
      pairwise_firstPlace hdistinct, ?bound, rfl⟩
    case settled =>
      obtain ⟨mutation, hmutation, count, hcount⟩ := (hmem form).mp hform
      exact settled_of_canonicalize (wellFormed_of_read hread).mutators.rules
        (Mutation.validate_eq_ok_iff.mpr hmutation) hcount
    case bound =>
      rw [← Mutation.count_eq_prod, ← Mutation.length_all]
      show (distinct all).length ≤ program.mutations.length
      rw [← hlength]
      exact length_distinctFrom_le ∅ all
  · intro mutation hmutation cycle hcycle
    cases hforms : program.canonicalForms program.mutations with
    | ok all =>
      obtain ⟨count, form, hform⟩ := exists_canonicalForms_iff.mp ⟨all, hforms⟩ mutation hmutation
      rw [hcycle] at hform
      cases hform
    | error first =>
      rw [distinctForms, hforms]
      exact ⟨first, rfl, rfl⟩

theorem requestedForms_canonical_fading :
    Program.read (.ofFiles [("fading".toList, fadingFile)]) .default "fading".toList =
        .ok fading ∧
      fading.mutations.length = 6 ∧
      (∀ mutation ∈ fading.mutations, ∃ count form,
        fading.canonicalize mutation = .ok (count, form)) ∧
      ∃ forms, fading.requestedForms [] = .ok forms ∧ forms.Nodup ∧
        [2, 0] ∈ forms ∧ [0, 1] ∉ forms ∧ forms.length ≤ 6 := by
  have hall : ∀ mutation ∈ fading.mutations, ∃ count form,
      fading.canonicalize mutation = .ok (count, form) := by
    intro mutation _
    obtain ⟨count, form, hform, -⟩ := Rewrite.canonicalize_of_acyclic
      (wellFormed_of_read read_fading).mutators.rules acyclic_fading mutation
    exact ⟨count, form, hform⟩
  obtain ⟨forms, hforms, hnodup, hmem, hsettled, -, hlength, -⟩ :=
    (requestedForms_canonical read_fading).1 hall
  refine ⟨read_fading, by decide, hall, forms, hforms, hnodup, ?_, fun h => ?_, hlength⟩
  · exact (hmem [2, 0]).mpr ⟨[0, 1], by decide, 2, by decide⟩
  · have hmoved : Rewrite.rewriteInPlace fading.rewrites [0, 1] = (true, [1, 1]) := rfl
    have hkept := (hsettled _ h).2
    rw [hmoved] at hkept
    cases hkept

end Program

end ShaderVariants
