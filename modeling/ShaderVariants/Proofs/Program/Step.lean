import ShaderVariants.Proofs.Program.Rules
import ShaderVariants.Proofs.Text.Numerals

/-!
# Steps of a draft

What a directive can do to what has been declared (`Draft.Step`), with all that its checks have
established by then.  Whatever is to hold of programs is shown step by step, and no later proof
opens the directives again.
-/

namespace ShaderVariants.Draft

/-! ## 1. What may be declared -/

/-- What is known of a mutator when it is added. -/
structure NewMutator (draft : Draft) (counts : Bool) (name : Text) (values : List Int) :
    Prop where
  identifier : Text.isIdentifier name = true
  fresh : ∀ mutator ∈ draft.mutators, mutator.name ≠ name
  nonempty : values ≠ []
  increasing : values.Pairwise (· < ·)
  inRange : ∀ value ∈ values, Numeral.Fits 32 value
  positive : counts = true → ∀ value ∈ values, 1 ≤ value
  single : counts = true → draft.instanceCounter? = none
  /-- A name that is the keyword is only reached behind the keyword. -/
  notKeyword : counts = false → name ≠ "instanced".toList

/-- What is known of an input when it is added. -/
structure NewInput (draft : Draft) (constant instanced : Bool) (type : DataType) (name : Text) :
    Prop where
  identifier : Text.isIdentifier name = true
  fresh : ∀ input ∈ draft.inputs, input.name ≠ name
  typed : type ≠ .void
  consistent : draft.conflict? constant instanced type = none
  room : draft.inputs.length < inputCapacity

/-- What a directive in the given line of a file can make of a draft. -/
inductive Step (draft : Draft) (file : Text) (line : Nat) : Draft → Prop
  | mutator {counts : Bool} {name : Text} {values : List Int}
      (new : NewMutator draft counts name values) :
      Step draft file line (draft.addMutator counts name values)
  | rewrite {rule : Rewrite} (sound : rule.WellFormed draft.mutators)
      (avoids : rule.Avoids draft.mutators "to".toList) :
      Step draft file line { draft with rewrites := rule :: draft.rewrites }
  | input {constant instanced : Bool} {type : DataType} {name : Text}
      (new : NewInput draft constant instanced type name) :
      Step draft file line (draft.addInput constant instanced type name)
  | openStage {stage : Stage} (free : draft.startFault? stage = none) :
      Step draft file line
        { draft with
          stages := draft.stages.insert stage
          openStage := some ⟨stage, file, line⟩ }
  | closeStage (isOpen : draft.openStage ≠ none) :
      Step draft file line { draft with openStage := none }
  | firstSet {set : Nat} (undeclared : draft.descriptorSet = none)
      (inRange : set < Numeral.wordCount 32) :
      Step draft file line { draft with descriptorSet := some set }
  | sameSet {set : Nat} (declared : draft.descriptorSet = some set) : Step draft file line draft

/-! ## 2. What a step leaves alone -/

/-- A line of code changes nothing but the code. -/
theorem pushCode_eq (draft : Draft) (line : Text) :
    ∃ globals stageCode,
      draft.pushCode line = { draft with globals := globals, stageCode := stageCode } := by
  rw [pushCode]
  split
  · exact ⟨_, _, rfl⟩
  · exact ⟨_, _, rfl⟩

theorem once_pushCode (draft : Draft) (line : Text) : (draft.pushCode line).once = draft.once := by
  obtain ⟨globals, stageCode, heq⟩ := draft.pushCode_eq line
  rw [heq]

/-- An input changes nothing but the inputs, the block members and the code. -/
theorem addInput_eq (draft : Draft) (constant instanced : Bool) (type : DataType) (name : Text) :
    ∃ nextConstant globals stageCode,
      draft.addInput constant instanced type name =
        { draft with
          inputs := draft.inputs ++ [draft.newInput constant instanced type name]
          nextConstant := nextConstant
          members :=
            if (draft.newInput constant instanced type name).inBlock then
              draft.members ++
                memberLines draft.instanceCounter? (draft.newInput constant instanced type name)
            else draft.members
          globals := globals
          stageCode := stageCode } := by
  rw [addInput]
  -- Both lines that stand for the declaration are code.
  obtain ⟨globals, stageCode, hsite⟩ := pushCode_eq
    { draft with
      inputs := draft.inputs ++ [draft.newInput constant instanced type name]
      nextConstant :=
        if constant then draft.nextConstant + type.componentCount else draft.nextConstant
      members :=
        if (draft.newInput constant instanced type name).inBlock then
          draft.members ++
            memberLines draft.instanceCounter? (draft.newInput constant instanced type name)
        else draft.members }
    (siteLine (draft.newInput constant instanced type name))
  rw [hsite]
  obtain ⟨globals, stageCode, hdeclaration⟩ := pushCode_eq _ _
  rw [hdeclaration]
  exact ⟨_, _, _, rfl⟩

/-! ## 3. Values -/

theorem pairwise_of_increasing {values : List Int} (h : increasing values = true) :
    values.Pairwise (· < ·) := by
  induction values with
  | nil => exact List.Pairwise.nil
  | cons a rest ih =>
    cases rest with
    | nil => exact List.pairwise_singleton _ _
    | cons b rest =>
      simp only [increasing, Bool.and_eq_true, decide_eq_true_eq] at h
      have hrest := ih h.2
      refine List.pairwise_cons.mpr ⟨fun c hc => ?_, hrest⟩
      rcases List.mem_cons.mp hc with rfl | hc
      · exact h.1
      · exact Int.lt_trans h.1 ((List.pairwise_cons.mp hrest).1 c hc)

theorem length_of_readValues {tokens : List Text} {values : List Int}
    (h : readValues tokens = .ok values) : values.length = tokens.length := by
  induction tokens generalizing values with
  | nil => exact Except.ok.inj h ▸ rfl
  | cons token rest ih =>
    rw [readValues] at h
    split at h
    · cases h
    · cases hrest : readValues rest with
      | error bad => simp [hrest, Except.map] at h
      | ok more =>
        obtain rfl : _ :: more = values := by simpa [hrest, Except.map] using h
        simp [ih hrest]

theorem fits_of_readValues {tokens : List Text} {values : List Int}
    (h : readValues tokens = .ok values) : ∀ value ∈ values, Numeral.Fits 32 value := by
  induction tokens generalizing values with
  | nil =>
    obtain rfl : [] = values := Except.ok.inj h
    simp
  | cons token rest ih =>
    rw [readValues] at h
    split at h
    · cases h
    next first hfirst =>
      cases hrest : readValues rest with
      | error bad =>
        rw [hrest] at h
        cases h
      | ok more =>
        rw [hrest] at h
        obtain rfl : first :: more = values := Except.ok.inj h
        refine List.forall_mem_cons.mpr ⟨?_, ih hrest⟩
        rw [readValue] at hfirst
        cases hread : Numeral.readInt 10 32 token with
        | error fault =>
          rw [hread] at hfirst
          cases hfirst
        | ok value =>
          rw [hread] at hfirst
          obtain rfl : value = first := Option.some.inj hfirst
          exact Numeral.fits_of_readInt hread

theorem sound_of_checkValues {counts : Bool} {tokens : List Text} {values : List Int}
    (h : checkValues counts tokens = .ok values) :
    values ≠ [] ∧ values.Pairwise (· < ·) ∧ (∀ value ∈ values, Numeral.Fits 32 value) ∧
      (counts = true → ∀ value ∈ values, 1 ≤ value) := by
  rw [checkValues] at h
  split at h
  · cases h
  next htokens =>
  split at h
  · cases h
  next found hfound =>
  split at h
  · cases h
  next hincreasing =>
  split at h
  · cases h
  next hpositive =>
  obtain rfl := Except.ok.inj h
  refine ⟨fun hnil => htokens ?_, pairwise_of_increasing (by simpa using hincreasing),
    fits_of_readValues hfound, ?_⟩
  · rw [List.isEmpty_iff_length_eq_zero, ← length_of_readValues hfound, hnil, List.length_nil]
  · intro hcounts value hvalue
    rw [hcounts, Bool.true_and, List.any_eq_true, not_exists] at hpositive
    have := hpositive value
    simp only [hvalue, decide_eq_true_eq, true_and] at this
    omega

/-! ## 4. Directives -/

section

variable {draft next : Draft} {file : Text} {line : Nat}

theorem newMutator_of_declareMutator {counts : Bool} {name : Text} {tokens : List Text}
    (hkeyword : counts = false → name ≠ "instanced".toList)
    (h : draft.declareMutator counts name tokens = .ok next) :
    ∃ values, NewMutator draft counts name values ∧ next = draft.addMutator counts name values := by
  rw [declareMutator] at h
  split at h
  · cases h
  next hidentifier =>
  split at h
  · cases h
  next hfresh =>
  split at h
  · cases h
  next values hvalues =>
  split at h
  · cases h
  next hcounter =>
  obtain ⟨hnonempty, hincreasing, hrange, hpositive⟩ := sound_of_checkValues hvalues
  refine ⟨values, ?_, (Except.ok.inj h).symm⟩
  constructor
  · simpa using hidentifier
  · simpa using hfresh
  · exact hnonempty
  · exact hincreasing
  · exact hrange
  · exact hpositive
  · intro hcounts
    simpa [hcounts] using hcounter
  · exact hkeyword

theorem exists_of_readMutator {tokens : List Text} (h : draft.readMutator tokens = .ok next) :
    ∃ counts name values, NewMutator draft counts name values ∧
      next = draft.addMutator counts name values := by
  rw [readMutator] at h
  split at h
  · cases h
  next name rest htokens =>
    have hkeyword : (tokens.head? == some "instanced".toList) = false →
        name ≠ "instanced".toList := by
      rintro hplain rfl
      rw [hplain, if_neg (by decide)] at htokens
      rw [htokens] at hplain
      simp at hplain
    obtain ⟨values, hnew, hnext⟩ := newMutator_of_declareMutator hkeyword h
    exact ⟨_, name, values, hnew, hnext⟩

theorem exists_of_readRewrite {tokens : List Text} (h : draft.readRewrite tokens = .ok next) :
    ∃ rule : Rewrite, rule.WellFormed draft.mutators ∧ rule.Avoids draft.mutators "to".toList ∧
      next = { draft with rewrites := rule :: draft.rewrites } := by
  rw [readRewrite] at h
  split at h
  · cases h
  next rule hrule =>
  exact ⟨rule, wellFormed_of_readRule hrule, avoids_of_readRule hrule, (Except.ok.inj h).symm⟩

/-- No name is read as the type that no value has. -/
theorem ne_void_of_ofName? {name : Text} {type : DataType} (h : DataType.ofName? name = some type) :
    type ≠ .void := by
  have := List.find?_some h
  rintro rfl
  simp at this

theorem exists_of_readInput {tokens : List Text} (h : draft.readInput tokens = .ok next) :
    ∃ constant instanced typeName name type,
      readQualifiers false false tokens = .ok (constant, instanced, [typeName, name]) ∧
        NewInput draft constant instanced type name ∧
        next = draft.addInput constant instanced type name := by
  rw [readInput] at h
  split at h
  · cases h
  next constant instanced typeName name hqualifiers =>
    rw [declareInput] at h
    split at h
    · cases h
    next hidentifier =>
    split at h
    · cases h
    next hfresh =>
    split at h
    · cases h
    next type htype =>
    split at h
    · cases h
    next hconflict =>
    split at h
    · cases h
    next hroom =>
    refine ⟨constant, instanced, typeName, name, type, hqualifiers, ?_, (Except.ok.inj h).symm⟩
    exact ⟨by simpa using hidentifier, by simpa using hfresh, ne_void_of_ofName? htype,
      hconflict, by omega⟩
  · cases h

theorem exists_of_readStart {tokens : List Text} (h : draft.readStart file line tokens = .ok next) :
    ∃ name stage, tokens = [name] ∧ Stage.ofName? name = some stage ∧
      draft.startFault? stage = none ∧
        next = { draft with
          stages := draft.stages.insert stage
          openStage := some ⟨stage, file, line⟩ } := by
  rw [readStart.eq_def] at h
  split at h
  next name =>
    split at h
    · cases h
    next stage hstage =>
    split at h
    · cases h
    next hfree =>
    exact ⟨name, stage, rfl, hstage, hfree, (Except.ok.inj h).symm⟩
  · cases h

theorem eq_of_readEnd {tokens : List Text} (h : draft.readEnd tokens = .ok next) :
    draft.openStage ≠ none ∧ next = { draft with openStage := none } := by
  rw [readEnd] at h
  split at h
  · cases h
  split at h
  · cases h
  next hopen =>
  exact ⟨by simpa using hopen, (Except.ok.inj h).symm⟩

theorem lt_of_readSet? {tokens : List Text} {set : Nat} (h : readSet? tokens = some set) :
    set < Numeral.wordCount 32 := by
  unfold readSet? at h
  split at h
  next token =>
    cases hread : Numeral.readNat 10 32 token with
    | error fault =>
      rw [hread] at h
      cases h
    | ok n =>
      rw [hread] at h
      obtain rfl : n = set := Option.some.inj h
      exact Numeral.lt_of_readNat hread
  · cases h

theorem exists_of_readDescriptorSet {tokens : List Text}
    (h : draft.readDescriptorSet tokens = .ok next) :
    ∃ set, set < Numeral.wordCount 32 ∧ (draft.descriptorSet = none ∨ draft.descriptorSet = some set) ∧
      next = { draft with descriptorSet := some set } := by
  rw [readDescriptorSet] at h
  split at h
  · cases h
  next set hset =>
  split at h
  · split at h
    · cases h
    next previous hdeclared hsame =>
    obtain rfl := Except.ok.inj h
    obtain rfl := Decidable.not_not.mp hsame
    exact ⟨_, lt_of_readSet? hset, Or.inr hdeclared, by rw [← hdeclared]⟩
  next hundeclared =>
    exact ⟨set, lt_of_readSet? hset, Or.inl hundeclared, (Except.ok.inj h).symm⟩

/-- A directive that is followed does one of the steps. -/
theorem step_of_follow {tokens : List Text} (h : draft.follow file line tokens = .ok next) :
    Step draft file line next := by
  -- One case for each word a directive can start with, in the order in which they are tried.
  rw [follow.eq_def] at h
  split at h
  · cases h
  split at h
  · obtain ⟨counts, name, values, new, rfl⟩ := exists_of_readMutator h
    exact .mutator new
  split at h
  · obtain ⟨rule, sound, avoids, rfl⟩ := exists_of_readRewrite h
    exact .rewrite sound avoids
  split at h
  · obtain ⟨constant, instanced, typeName, name, type, -, new, rfl⟩ := exists_of_readInput h
    exact .input new
  split at h
  · obtain ⟨name, stage, -, -, free, rfl⟩ := exists_of_readStart h
    exact .openStage free
  split at h
  · obtain ⟨isOpen, rfl⟩ := eq_of_readEnd h
    exact .closeStage isOpen
  split at h
  · obtain ⟨set, inRange, undeclared | declared, rfl⟩ := exists_of_readDescriptorSet h
    · exact .firstSet undeclared inRange
    · rw [← declared]
      exact .sameSet declared
  · cases h

/-- No directive bars a file. -/
theorem once_of_follow {tokens : List Text} (h : draft.follow file line tokens = .ok next) :
    next.once = draft.once := by
  cases step_of_follow h with
  | mutator new => rfl
  | rewrite sound avoids => rfl
  | @input constant instanced type name new =>
    obtain ⟨nextConstant, globals, stageCode, heq⟩ :=
      draft.addInput_eq constant instanced type name
    rw [heq]
  | openStage free => rfl
  | closeStage isOpen => rfl
  | firstSet undeclared inRange => rfl
  | sameSet declared => rfl

end

end ShaderVariants.Draft
