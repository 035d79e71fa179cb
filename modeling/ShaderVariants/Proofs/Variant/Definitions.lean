import ShaderVariants.Proofs.Condition.Arms
import ShaderVariants.Proofs.Program.RoundTrip
import ShaderVariants.Proofs.Variant.Marks

/-!
# What a header defines

Behind its header the source of a stage stands outside of all chains, no mark has been reached, and
every mutator that no other line of the header defines is a symbol with the value that the mutation
gives to it (`Program.exists_headerPass`).
-/

namespace ShaderVariants

open Condition (Directive IsQuiet Unmarked siteMark)
open Condition.Eager (Leads Pass)

/-! ## 1. Names that lines define -/

namespace Guarded

theorem mem_definedNames {lines : List Text} {name : Text} :
    name ∈ definedNames lines ↔
      ∃ line ∈ lines, ∃ value, Directive.ofLine? line = some (.define name value) := by
  rw [definedNames, List.mem_filterMap]
  refine exists_congr fun line => and_congr_right fun _ => ?_
  split
  next defined value hline => simp [hline]
  next hother =>
    constructor
    · intro h
      cases h
    · rintro ⟨value, hline⟩
      exact absurd hline (hother name value)

theorem definedNames_append (lines more : List Text) :
    definedNames (lines ++ more) = definedNames lines ++ definedNames more :=
  List.filterMap_append

end Guarded

open Guarded (definedNames mem_definedNames definedNames_append)

namespace Condition.Eager.Pass

/-- A symbol that a line does not define stays as it is. -/
theorem getElem?_symbols_step {line name : Text} (h : name ∉ definedNames [line]) (pass : Pass) :
    (pass.step line).symbols[name]? = pass.symbols[name]? := by
  unfold step
  cases hline : Directive.ofLine? line with
  | none => rfl
  | some directive =>
    cases directive with
    | openChain test => rfl
    | elseIf _ | elseArm =>
      dsimp only [pushArm]
      split <;> rfl
    | closeChain => rfl
    | define defined value =>
      have hne : compare defined name ≠ .eq := by
        intro heq
        obtain rfl := Std.compare_eq_iff_eq.mp heq
        exact h (mem_definedNames.mpr ⟨line, List.mem_singleton_self line, value, hline⟩)
      dsimp only [define]
      split
      · rfl
      · split
        · rw [Std.TreeMap.getElem?_insert, if_neg hne]
        · rfl

theorem getElem?_symbols_of_notMem {lines : List Text} {name : Text}
    (h : name ∉ definedNames lines) (pass : Pass) :
    (lines.foldl step pass).symbols[name]? = pass.symbols[name]? := by
  induction lines generalizing pass with
  | nil => rfl
  | cons line rest ih =>
    rw [← List.singleton_append, definedNames_append, List.mem_append, not_or] at h
    rw [List.foldl_cons, ih h.2, getElem?_symbols_step h.1]

/-- A definition outside of all chains is known behind its line. -/
theorem getElem?_symbols_define {line name : Text} {value : Option Int} {pass : Pass}
    (hline : Directive.ofLine? line = some (.define name value))
    (hmark : Text.strip? siteMark name = none) (hopen : pass.levels = []) :
    (pass.step line).symbols[name]? = some value := by
  have hstep : pass.step line = { pass with symbols := pass.symbols.insert name value } := by
    rw [step, hline]
    dsimp only [define]
    rw [hmark, hopen]
    rfl
  rw [hstep]
  exact Std.TreeMap.getElem?_insert_self

/-- Lines that mark no input reach no mark. -/
theorem sites_of_unmarked {lines : List Text} (h : ∀ line ∈ lines, Unmarked line) (pass : Pass) :
    (lines.foldl step pass).sites = pass.sites := by
  induction lines generalizing pass with
  | nil => rfl
  | cons line rest ih =>
    obtain ⟨hline, hrest⟩ := List.forall_mem_cons.mp h
    rw [List.foldl_cons, ih hrest, step]
    cases hdirective : Directive.ofLine? line with
    | none => rfl
    | some directive =>
      cases directive with
      | openChain test => rfl
      | elseIf _ | elseArm =>
        dsimp only [pushArm]
        split <;> rfl
      | closeChain => rfl
      | define name value =>
        dsimp only [define]
        rw [hline name value hdirective]
        dsimp only
        split <;> rfl

end Condition.Eager.Pass

/-! ## 2. Mutators -/

namespace Header

/-- A header without mutators defines its own macros only. -/
theorem notMem_definedNames_of_not_isMacro {program : Program} {stage : Stage} {name : Text}
    (h : isMacro name = false) : name ∉ definedNames (lines program [] stage) := by
  intro hmem
  obtain ⟨line, hline, value, hdefine⟩ := mem_definedNames.mp hmem
  rcases definesMacro_of_mem_lines hline with hmutator | hmacro
  · rw [mutatorLines, List.zipWith_nil_right] at hmutator
    cases hmutator
  · rw [definesMacro, hdefine] at hmacro
    exact absurd hmacro (by simp [h])

theorem mem_of_mem_definedNames_mutatorLines {mutators : List Mutator} {mutation : Mutation}
    (hnames : ∀ mutator ∈ mutators, Text.isIdentifier mutator.name = true) {name : Text}
    (h : name ∈ definedNames (mutatorLines mutators mutation)) :
    name ∈ mutators.map Mutator.name := by
  obtain ⟨line, hline, value, hdefine⟩ := mem_definedNames.mp h
  obtain ⟨mutator, hmutator, number, rfl⟩ := exists_of_mem_mutatorLines hline
  rw [ofLine?_defineLine_ofInt (.of_isIdentifier (hnames mutator hmutator))] at hdefine
  obtain ⟨rfl, -⟩ := Directive.define.inj (Option.some.inj hdefine)
  exact List.mem_map_of_mem hmutator

/-- A mutator is defined as the value that the mutation gives to it, unless its name is a mark. -/
theorem getElem?_symbols_mutatorLines {mutators : List Mutator} {mutation : Mutation}
    (hnames : ∀ mutator ∈ mutators, Text.isIdentifier mutator.name = true)
    (hdistinct : (mutators.map Mutator.name).Nodup)
    (hfits : ∀ value ∈ mutation, Numeral.Fits 32 value) {pass : Pass} (hopen : pass.levels = [])
    {name : Text} {value : Int} (hmark : Text.strip? siteMark name = none)
    (h : ((mutators.map Mutator.name).zip mutation).lookup name = some value) :
    ((mutatorLines mutators mutation).foldl Pass.step pass).symbols[name]? =
      some (some value) := by
  induction mutators generalizing mutation pass with
  | nil => cases h
  | cons mutator rest ih =>
    cases mutation with
    | nil => cases h
    | cons number numbers =>
      obtain ⟨hname, hnames⟩ := List.forall_mem_cons.mp hnames
      obtain ⟨hfresh, hdistinct⟩ := List.nodup_cons.mp hdistinct
      obtain ⟨hnumber, hfits⟩ := List.forall_mem_cons.mp hfits
      have hline := ofLine?_defineLine_ofInt (.of_isIdentifier hname) number
      rw [Condition.literal?_ofInt hnumber] at hline
      rw [List.map_cons, List.zip_cons_cons, List.lookup_cons] at h
      show ((mutatorLines rest numbers).foldl Pass.step (pass.step _)).symbols[name]? = _
      by_cases hsame : name = mutator.name
      · -- No mutator behind this one has the same name.
        subst hsame
        rw [beq_self_eq_true] at h
        obtain rfl := Option.some.inj h
        have hlater : mutator.name ∉ definedNames (mutatorLines rest numbers) :=
          fun hmem => hfresh (mem_of_mem_definedNames_mutatorLines hnames hmem)
        rw [Pass.getElem?_symbols_of_notMem hlater]
        exact Pass.getElem?_symbols_define hline hmark hopen
      · rw [beq_eq_false_iff_ne.mpr hsame] at h
        refine ih hnames hdistinct hfits ?_ h
        rw [← hopen]
        exact Condition.Eager.levels_of_isQuiet
          (fun line hline => List.mem_singleton.mp hline ▸ isQuiet_defineLine _ _) pass

end Header

/-! ## 3. Headers -/

namespace Program

variable {program : Program} {mutation : Mutation}

/-- The value that a mutation gives to the mutator of a name. -/
def valueUnder (program : Program) (mutation : Mutation) (name : Text) : Int :=
  (((program.mutators.map Mutator.name).zip mutation).lookup name).getD 0

/-- All values of mutators are numbers of 32 bits. -/
theorem fits_of_mem_mutation {reader : FileReader} {settings : Settings} {fileName : Text}
    (hread : Program.read reader settings fileName = .ok program)
    (hvalid : program.validate mutation = .ok ()) :
    ∀ value ∈ mutation, Numeral.Fits 32 value := by
  have hrange : ∀ mutator ∈ program.mutators, ∀ value ∈ mutator.values, Numeral.Fits 32 value := by
    obtain ⟨draft, hdraft, _, hfinish⟩ :=
      Draft.invariant_replayable.read hread Draft.replayable_empty
    obtain ⟨-, -, rfl⟩ := Draft.finish_eq_ok_iff.mp hfinish
    exact hdraft.inRange
  intro value hvalue
  obtain ⟨place, hplace⟩ := List.getElem?_of_mem hvalue
  have hlength := Mutation.length_of_validate hvalid
  have hlt : place < program.mutators.length :=
    hlength ▸ (List.getElem?_eq_some_iff.mp hplace).1
  obtain ⟨number, hnumber, hhas⟩ :=
    Mutation.exists_hasValue_of_validate hvalid (List.getElem?_eq_getElem hlt)
  obtain rfl : value = number := Option.some.inj (hplace.symm.trans hnumber)
  exact hrange _ (List.getElem_mem hlt) value (List.contains_iff_mem.mp hhas)

/-- A valid mutation gives a value to every mutator. -/
theorem lookup_eq_valueUnder (hvalid : program.validate mutation = .ok ()) {name : Text}
    (hname : name ∈ program.mutators.map Mutator.name) :
    ((program.mutators.map Mutator.name).zip mutation).lookup name =
      some (program.valueUnder mutation name) := by
  have hlength := Mutation.length_of_validate hvalid
  cases hlookup : ((program.mutators.map Mutator.name).zip mutation).lookup name with
  | some value => rw [valueUnder, hlookup, Option.getD_some]
  | none =>
    have hkeys : ((program.mutators.map Mutator.name).zip mutation).map Prod.fst =
        program.mutators.map Mutator.name :=
      List.map_fst_zip (by rw [List.length_map]; omega)
    rw [← hkeys] at hname
    obtain ⟨pair, hpair, rfl⟩ := List.mem_map.mp hname
    exact absurd (List.lookup_eq_none_iff.mp hlookup pair hpair) (by simp)

/-- A mutator that no line of a header defines once more has its value behind the header. -/
theorem getElem?_symbols_lines {reader : FileReader} {settings : Settings} {fileName : Text}
    (hread : Program.read reader settings fileName = .ok program)
    (hvalid : program.validate mutation = .ok ()) {stage : Stage} {name : Text}
    (hname : name ∈ program.mutators.map Mutator.name) (hmark : Text.strip? siteMark name = none)
    (hfree : name ∉ definedNames (Header.typeLines ++ Header.stageLines stage)) :
    ((Header.lines program mutation stage).foldl Pass.step .start).symbols[name]? =
      some (some (program.valueUnder mutation name)) := by
  have hmutators := (wellFormed_of_read hread).mutators
  obtain ⟨front, hlines⟩ := Header.exists_lines_eq_append program stage
  have hfront : ∀ line ∈ front, IsQuiet line := by
    intro line hline
    have hmem : line ∈ Header.lines program mutation stage := by
      rw [hlines]
      exact List.mem_append_left _ hline
    exact Header.isQuiet_of_mem_lines hmem
  -- The lines in front of the mutators do not matter, and those behind them define other names.
  rw [hlines, List.foldl_append, List.foldl_append, Pass.getElem?_symbols_of_notMem hfree]
  exact Header.getElem?_symbols_mutatorLines hmutators.identifiers hmutators.distinct
    (fits_of_mem_mutation hread hvalid) (Condition.Eager.levels_of_isQuiet hfront .start) hmark
    (lookup_eq_valueUnder hvalid hname)

/-- What is known behind the header of a stage. -/
structure HeaderPass (program : Program) (mutation : Mutation) (stage : Stage) (pass : Pass) :
    Prop where
  leads : Leads (Header.lines program mutation stage) .start pass
  levels : pass.levels = []
  sites : pass.sites = []
  symbols : ∀ name ∈ program.mutators.map Mutator.name,
    name ∉ definedNames (Header.lines program [] stage) →
      pass.symbols[name]? = some (some (program.valueUnder mutation name))

theorem exists_headerPass {reader : FileReader} {settings : Settings} {fileName : Text}
    (hread : Program.read reader settings fileName = .ok program)
    (hvalid : program.validate mutation = .ok ())
    (hmarks : ∀ mutator ∈ program.mutators, Text.strip? siteMark mutator.name = none)
    (stage : Stage) : ∃ pass, program.HeaderPass mutation stage pass := by
  have hmutators := (wellFormed_of_read hread).mutators
  have hquiet : ∀ line ∈ Header.lines program mutation stage, IsQuiet line :=
    fun line hline => Header.isQuiet_of_mem_lines hline
  refine ⟨_, Condition.Eager.leads_of_isQuiet hquiet .start,
    Condition.Eager.levels_of_isQuiet hquiet .start, ?_, fun name hname hfree => ?_⟩
  · refine Pass.sites_of_unmarked (fun line hline => ?_) .start
    exact Header.unmarked_of_mem_lines (fun mutator hmutator =>
      ⟨hmutators.identifiers mutator hmutator, hmarks mutator hmutator⟩) hline
  · obtain ⟨mutator, hmutator, rfl⟩ := List.mem_map.mp hname
    refine getElem?_symbols_lines hread hvalid hname (hmarks mutator hmutator) fun hmem => hfree ?_
    obtain ⟨front, hlines⟩ := Header.exists_lines_eq_append program stage
    rw [hlines, definedNames_append, definedNames_append]
    exact List.mem_append_right _ (List.mem_append_right _ hmem)

end Program

end ShaderVariants
