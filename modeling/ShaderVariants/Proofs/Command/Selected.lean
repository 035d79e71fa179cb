import ShaderVariants.Command.Arguments
import ShaderVariants.Proofs.Enumeration
import ShaderVariants.Proofs.Variant.Definitions

/-!
# Selected mutations

Selections make up a mutation exactly if they name mutators of the program only, leave none out and
select a declared value last; the mutation has these last values.  A mutation that is written as
selections, in whatever order and with blanks in between, is read back
(`Program.selectedMutation_exact`).
-/

namespace ShaderVariants

/-! ## 1. Last values -/

/-- The value that is selected last for the mutator of a name. -/
def SelectedLast (selections : List Selection) (name : Text) (value : Int) : Prop :=
  ∃ earlier later, selections = earlier ++ ⟨name, value⟩ :: later ∧
    ∀ selection ∈ later, selection.mutator ≠ name

section

variable {selections : List Selection} {name : Text} {value other : Int}

theorem SelectedLast.mem (h : SelectedLast selections name value) :
    (⟨name, value⟩ : Selection) ∈ selections := by
  obtain ⟨earlier, later, rfl, -⟩ := h
  exact List.mem_append_right earlier List.mem_cons_self

theorem lastSelected?_eq_some_iff {mutator : Mutator} :
    lastSelected? selections mutator = some value ↔
      SelectedLast selections mutator.name value := by
  rw [lastSelected?, Option.map_eq_some_iff]
  constructor
  · rintro ⟨⟨found, _⟩, hfound, rfl⟩
    obtain ⟨hname, before, after, hsplit, hbefore⟩ := List.find?_eq_some_iff_append.mp hfound
    obtain rfl : found = mutator.name := by simpa using hname
    -- What is in front of the selection in the reversed list stands behind it.
    refine ⟨after.reverse, before.reverse, ?_, fun selection hselection => ?_⟩
    · rw [← List.reverse_reverse selections, hsplit, List.reverse_append, List.reverse_cons,
        List.append_assoc, List.singleton_append]
    · simpa using hbefore selection (List.mem_reverse.mp hselection)
  · rintro ⟨earlier, later, rfl, hlater⟩
    refine ⟨⟨mutator.name, value⟩, List.find?_eq_some_iff_append.mpr ⟨by simp, ?_⟩, rfl⟩
    refine ⟨later.reverse, earlier.reverse, by simp, fun selection hselection => ?_⟩
    simpa using hlater selection (List.mem_reverse.mp hselection)

/-- There is no other value that is selected last. -/
theorem SelectedLast.unique (h : SelectedLast selections name value)
    (h' : SelectedLast selections name other) : value = other := by
  have hsome : lastSelected? selections ⟨name, [], false⟩ = some value :=
    lastSelected?_eq_some_iff.mpr h
  exact Option.some.inj (hsome.symm.trans (lastSelected?_eq_some_iff.mpr h'))

theorem exists_selectedLast_iff :
    (∃ value, SelectedLast selections name value) ↔
      ∃ selection ∈ selections, selection.mutator = name := by
  constructor
  · rintro ⟨value, h⟩
    exact ⟨_, h.mem, rfl⟩
  · rintro ⟨selection, hmem, rfl⟩
    cases hlast : lastSelected? selections ⟨selection.mutator, [], false⟩ with
    | some value => exact ⟨value, lastSelected?_eq_some_iff.mp hlast⟩
    | none =>
      rw [lastSelected?, Option.map_eq_none_iff, List.find?_eq_none] at hlast
      exact absurd (beq_self_eq_true _) (hlast selection (List.mem_reverse.mpr hmem))

/-- If no name is selected twice, each value is the last one of its name. -/
theorem selectedLast_of_nodup (hnodup : (selections.map Selection.mutator).Nodup)
    (hmem : (⟨name, value⟩ : Selection) ∈ selections) : SelectedLast selections name value := by
  obtain ⟨earlier, later, rfl⟩ := List.append_of_mem hmem
  refine ⟨earlier, later, rfl, fun selection hselection heq => ?_⟩
  rw [List.map_append, List.map_cons] at hnodup
  have hfresh : name ∉ later.map Selection.mutator :=
    (List.nodup_cons.mp (List.nodup_append.mp hnodup).2.1).1
  rw [← heq] at hfresh
  exact hfresh (List.mem_map_of_mem hselection)

end

/-! ## 2. Selections of all mutators -/

theorem selectedValues_eq_ok_iff {selections : List Selection} {mutators : List Mutator}
    {mutation : Mutation} :
    selectedValues selections mutators = .ok mutation ↔
      List.Forall₂ (fun mutator value => SelectedLast selections mutator.name value) mutators
        mutation := by
  induction mutators generalizing mutation with
  | nil => simp [selectedValues, eq_comm]
  | cons mutator rest ih =>
    rw [selectedValues, List.forall₂_cons_left_iff]
    simp only [← ih]
    constructor
    · intro h
      cases hlast : lastSelected? selections mutator with
      | none =>
        rw [hlast] at h
        cases h
      | some value =>
        rw [hlast] at h
        cases hrest : selectedValues selections rest with
        | error fault =>
          rw [hrest] at h
          cases h
        | ok values =>
          rw [hrest] at h
          exact ⟨value, values, lastSelected?_eq_some_iff.mp hlast, rfl, (Except.ok.inj h).symm⟩
    · rintro ⟨value, values, hlast, hrest, rfl⟩
      rw [lastSelected?_eq_some_iff.mpr hlast, hrest]
      rfl

namespace Program

variable {program : Program} {selections : List Selection} {mutation : Mutation}

theorem isNone_mutator?_iff {name : Text} :
    (program.mutator? name).isNone = true ↔ ∀ mutator ∈ program.mutators, mutator.name ≠ name := by
  rw [mutator?, Option.isNone_iff_eq_none, List.find?_eq_none]
  simp

/-- Selections make up the mutation of their last values, if they name mutators of the program and
these values are declared. -/
theorem selectedMutation_eq_ok_iff :
    program.selectedMutation selections = .ok mutation ↔
      (∀ selection ∈ selections, ∃ mutator ∈ program.mutators,
        mutator.name = selection.mutator) ∧
      List.Forall₂ (fun mutator value => SelectedLast selections mutator.name value)
        program.mutators mutation ∧
      List.Forall₂ (fun mutator value => mutator.hasValue value = true) program.mutators
        mutation := by
  rw [selectedMutation, ← selectedValues_eq_ok_iff, ← Mutation.mem_all_iff_forall₂,
    ← Mutation.validate_eq_ok_iff]
  cases hunknown : selections.find? fun selection =>
      (program.mutator? selection.mutator).isNone with
  | some selection =>
    have hnone : ∀ mutator ∈ program.mutators, mutator.name ≠ selection.mutator :=
      isNone_mutator?_iff.mp (by simpa using List.find?_some hunknown)
    refine ⟨fun h => (by cases h), fun ⟨hnames, _⟩ => ?_⟩
    obtain ⟨mutator, hmutator, hname⟩ := hnames selection (List.mem_of_find?_eq_some hunknown)
    exact absurd hname (hnone mutator hmutator)
  | none =>
    have hnames : ∀ selection ∈ selections, ∃ mutator ∈ program.mutators,
        mutator.name = selection.mutator := by
      intro selection hselection
      have hknown := List.find?_eq_none.mp hunknown selection hselection
      rw [isNone_mutator?_iff] at hknown
      simpa using hknown
    dsimp only
    cases selectedValues selections program.mutators with
    | error fault => simp
    | ok values =>
      dsimp only [validate]
      constructor
      · intro h
        cases hvalid : Mutation.validate program.mutators values with
        | error misfit =>
          rw [hvalid] at h
          cases h
        | ok =>
          rw [hvalid] at h
          obtain rfl := Except.ok.inj h
          exact ⟨hnames, rfl, hvalid⟩
      · rintro ⟨-, heq, hvalid⟩
        obtain rfl := Except.ok.inj heq
        rw [hvalid]

/-- What has to hold of selections for them to make up some mutation. -/
theorem exists_selectedMutation_iff :
    (∃ mutation, program.selectedMutation selections = .ok mutation) ↔
      (∀ selection ∈ selections, ∃ mutator ∈ program.mutators,
        mutator.name = selection.mutator) ∧
      (∀ mutator ∈ program.mutators, ∃ selection ∈ selections,
        selection.mutator = mutator.name) ∧
      ∀ mutator ∈ program.mutators, ∀ value, SelectedLast selections mutator.name value →
        mutator.hasValue value = true := by
  simp only [selectedMutation_eq_ok_iff, exists_and_left, ← exists_selectedLast_iff]
  refine and_congr_right fun _ => ?_
  generalize program.mutators = mutators
  induction mutators with
  | nil => simp
  | cons mutator rest ih =>
    simp only [List.forall_mem_cons]
    constructor
    · rintro ⟨_, hlast | ⟨hlast, hrest⟩, hvalues⟩
      obtain ⟨hvalue, hvalues⟩ := List.forall₂_cons.mp hvalues
      obtain ⟨hassigned, hdeclared⟩ := ih.mp ⟨_, hrest, hvalues⟩
      exact ⟨⟨⟨_, hlast⟩, hassigned⟩, fun value h => hlast.unique h ▸ hvalue, hdeclared⟩
    · rintro ⟨⟨⟨value, hlast⟩, hassigned⟩, hvalue, hdeclared⟩
      obtain ⟨values, hrest, hvalues⟩ := ih.mpr ⟨hassigned, hdeclared⟩
      exact ⟨value :: values, .cons hlast hrest, .cons (hvalue value hlast) hvalues⟩

end Program

/-! ## 3. Written selections -/

/-- A text `NAME=VALUE` with blanks around the name and the value. -/
inductive Selection.Spells (selection : Selection) : Text → Prop
  | spaced (before behind front back : Text)
      (outer : ∀ c ∈ before ++ behind, Text.isBlank c = true)
      (inner : ∀ c ∈ front ++ back, Text.isBlank c = true) :
      Spells selection (before ++ (selection.mutator ++ behind) ++
        '=' :: (front ++ (Numeral.ofInt selection.value ++ back)))

/-- Blanks around a word are trimmed. -/
theorem Text.trim_spaced {before word behind : Text} (hword : ∀ c ∈ word, isBlank c = false)
    (h : ∀ c ∈ before ++ behind, isBlank c = true) :
    trim (before ++ (word ++ behind)) = word := by
  obtain ⟨hbefore, hbehind⟩ := List.forall_mem_append.mp h
  rw [← List.append_assoc, trim_append_blanks hbehind, trim, trimStart,
    List.dropWhile_append_of_pos hbefore]
  exact trim_eq_self hword

theorem Selection.Spells.ofText {selection : Selection} {t : Text} (h : selection.Spells t)
    (hname : Text.isIdentifier selection.mutator = true)
    (hfits : Numeral.Fits 32 selection.value) : Selection.ofText t = .ok selection := by
  obtain ⟨before, behind, front, back, outer, inner⟩ := h
  have hword : ∀ c ∈ selection.mutator, Text.isWordChar c = true :=
    List.all_eq_true.mp (Text.all_isWordChar_of_isIdentifier hname)
  have hmark : '=' ∉ before ++ (selection.mutator ++ behind) := by
    intro hmem
    rw [← List.append_assoc, List.append_assoc, List.mem_append, List.mem_append] at hmem
    rcases hmem with hmem | hmem | hmem
    · exact absurd (outer '=' (List.mem_append_left _ hmem)) (by decide)
    · exact absurd (hword '=' hmem) (by decide)
    · exact absurd (outer '=' (List.mem_append_right _ hmem)) (by decide)
  rw [Selection.ofText, Text.cutAt?_append hmark]
  simp only
  rw [Text.trim_spaced (fun c => Numeral.isBlank_of_mem_ofInt) inner,
    Numeral.readInt_ofInt hfits.1 hfits.2,
    Text.trim_spaced (fun c hc => Text.isBlank_eq_false_of_isWordChar (hword c hc)) outer]

theorem Arguments.selections_of_spells {selections : List Selection} {texts : List Text}
    (h : List.Forall₂ Selection.Spells selections texts)
    (hnames : ∀ selection ∈ selections, Text.isIdentifier selection.mutator = true)
    (hfits : ∀ selection ∈ selections, Numeral.Fits 32 selection.value) :
    Arguments.selections texts = .ok selections := by
  induction h with
  | nil => rfl
  | cons hspells _ ih =>
    obtain ⟨hname, hnames⟩ := List.forall_mem_cons.mp hnames
    obtain ⟨hfit, hfits⟩ := List.forall_mem_cons.mp hfits
    rw [Arguments.selections, hspells.ofText hname hfit, ih hnames hfits]
    rfl

/-- The selections that give each mutator its value of a mutation. -/
def Mutation.selections (mutators : List Mutator) (mutation : Mutation) : List Selection :=
  (mutators.zip mutation).map fun (mutator, value) => ⟨mutator.name, value⟩

section

variable {mutators : List Mutator} {mutation : Mutation}

theorem Mutation.map_mutator_selections (hlength : mutation.length = mutators.length) :
    (selections mutators mutation).map Selection.mutator = mutators.map Mutator.name := by
  have hfst := congrArg (List.map Mutator.name) (List.map_fst_zip (Nat.le_of_eq hlength.symm))
  rw [List.map_map] at hfst
  rw [selections, List.map_map]
  exact hfst

theorem Mutation.map_value_selections (hlength : mutation.length = mutators.length) :
    (selections mutators mutation).map Selection.value = mutation := by
  have hsnd := List.map_snd_zip (Nat.le_of_eq hlength)
  rw [selections, List.map_map]
  exact hsnd

theorem Mutation.forall₂_mem_selections (hlength : mutation.length = mutators.length) :
    List.Forall₂ (fun mutator value =>
      (⟨mutator.name, value⟩ : Selection) ∈ selections mutators mutation) mutators mutation :=
  List.forall₂_iff_zip.mpr ⟨hlength.symm, fun hmem => List.mem_map.mpr ⟨_, hmem, rfl⟩⟩

end

/-! ## 4. Programs -/

namespace Program

/-- Selections make up a mutation of a program exactly if they name its mutators only and leave none
of them out, and the value that is selected last for each is declared; the mutation has these
values.  A valid mutation is read back from texts that select its values, in any order and with any
blanks around names and values. -/
theorem selectedMutation_exact {reader : FileReader} {settings : Settings} {fileName : Text}
    {program : Program} (hread : Program.read reader settings fileName = .ok program) :
    (∀ selections,
      ((∃ mutation, program.selectedMutation selections = .ok mutation) ↔
        (∀ selection ∈ selections, ∃ mutator ∈ program.mutators,
          mutator.name = selection.mutator) ∧
        (∀ mutator ∈ program.mutators, ∃ selection ∈ selections,
          selection.mutator = mutator.name) ∧
        ∀ mutator ∈ program.mutators, ∀ value, SelectedLast selections mutator.name value →
          mutator.hasValue value = true) ∧
      ∀ mutation, program.selectedMutation selections = .ok mutation →
        List.Forall₂ (fun mutator value => SelectedLast selections mutator.name value)
          program.mutators mutation) ∧
    ∀ mutation, program.validate mutation = .ok () →
      ∀ selections texts, selections.Perm (mutation.selections program.mutators) →
        List.Forall₂ Selection.Spells selections texts →
          Arguments.selections texts = .ok selections ∧
            program.selectedMutation selections = .ok mutation := by
  refine ⟨fun selections => ⟨exists_selectedMutation_iff, fun mutation h => ?_⟩, ?_⟩
  · exact (selectedMutation_eq_ok_iff.mp h).2.1
  intro mutation hvalid selections texts hperm hspells
  have hmutators := (wellFormed_of_read hread).mutators
  have hlength := Mutation.length_of_validate hvalid
  have hnames : (selections.map Selection.mutator).Perm (program.mutators.map Mutator.name) :=
    Mutation.map_mutator_selections hlength ▸ hperm.map Selection.mutator
  have hvalues : (selections.map Selection.value).Perm mutation := by
    have hmap := hperm.map Selection.value
    rwa [Mutation.map_value_selections hlength] at hmap
  have hdeclared : ∀ selection ∈ selections, ∃ mutator ∈ program.mutators,
      mutator.name = selection.mutator := fun selection hselection =>
    List.mem_map.mp (hnames.subset (List.mem_map_of_mem hselection))
  constructor
  · refine Arguments.selections_of_spells hspells (fun selection hselection => ?_) ?_
    · obtain ⟨mutator, hmutator, hname⟩ := hdeclared selection hselection
      exact hname ▸ hmutators.identifiers mutator hmutator
    · exact fun selection hselection => fits_of_mem_mutation hread hvalid selection.value
        (hvalues.subset (List.mem_map_of_mem hselection))
  · refine selectedMutation_eq_ok_iff.mpr ⟨hdeclared, ?_, ?_⟩
    -- No mutator is selected twice, so each value is the last one.
    · have hnodup := hnames.nodup_iff.mpr hmutators.distinct
      exact (Mutation.forall₂_mem_selections hlength).imp fun mutator value hmem =>
        selectedLast_of_nodup hnodup (hperm.symm.subset hmem)
    · exact Mutation.mem_all_iff_forall₂.mp (Mutation.validate_eq_ok_iff.mp hvalid)

/-- A program with two mutators, one of which has a negative value. -/
def beaconReader : FileReader :=
  .ofFiles [("beacon".toList,
    Text.unlines
      ["#pragma anki mutator WICK 0 1".toList, "#pragma anki mutator GLOW -3 0 7".toList,
       "#pragma anki start frag".toList, "float g = GLOW * WICK;".toList,
       "#pragma anki end".toList])]

theorem selectedMutation_exact_beacon :
    ∃ program, Program.read beaconReader .default "beacon".toList = .ok program ∧
      program.validate [1, -3] = .ok () ∧
      Arguments.selections [" GLOW\t=\u00a0-3".toList, "WICK = 1 ".toList] =
        .ok [⟨"GLOW".toList, -3⟩, ⟨"WICK".toList, 1⟩] ∧
      program.selectedMutation [⟨"GLOW".toList, -3⟩, ⟨"WICK".toList, 1⟩] = .ok [1, -3] ∧
      ¬ ∃ mutation, program.selectedMutation [⟨"WICK".toList, 1⟩] = .ok mutation := by
  have hmutators : (Program.read beaconReader .default "beacon".toList).map Program.mutators =
      .ok [⟨"WICK".toList, [0, 1], false⟩, ⟨"GLOW".toList, [-3, 0, 7], false⟩] := by
    -- A literal is spelled out once, in the goal, and not wherever the evaluation looks at it.
    unfold beaconReader
    repeat rewrite [String.toList_ofList]
    decide +kernel
  cases hread : Program.read beaconReader .default "beacon".toList with
  | error e =>
    rw [hread] at hmutators
    cases hmutators
  | ok program =>
    rw [hread] at hmutators
    have heq := Except.ok.inj hmutators
    obtain ⟨hall, hwritten⟩ := selectedMutation_exact hread
    have hvalid : program.validate [1, -3] = .ok () := by
      rw [validate, heq]
      decide
    have hperm : [⟨"GLOW".toList, -3⟩, ⟨"WICK".toList, 1⟩].Perm
        (Mutation.selections program.mutators [1, -3]) := by
      rw [heq]
      exact List.Perm.swap _ _ _
    obtain ⟨htexts, hmutation⟩ := hwritten [1, -3] hvalid _ _ hperm
      (.cons (.spaced [' '] ['\t'] ['\u00a0'] [] (List.all_eq_true.mp (by decide))
          (List.all_eq_true.mp (by decide)))
        (.cons (.spaced [] [' '] [' '] [' '] (List.all_eq_true.mp (by decide))
          (List.all_eq_true.mp (by decide))) .nil))
    refine ⟨program, rfl, hvalid, htexts, hmutation, ?_⟩
    rw [(hall _).1]
    rintro ⟨-, hcomplete, -⟩
    rw [heq] at hcomplete
    exact absurd hcomplete (by decide)

end Program

end ShaderVariants
