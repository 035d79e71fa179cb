import ShaderVariants.Proofs.Program.Rendering
import ShaderVariants.Proofs.Program.Stages
import ShaderVariants.Proofs.Program.WellFormed

/-!
# Directives that are followed

Whatever a directive could declare, the directive that is written for it declares again: one lemma
for each kind, from what its checks ask for (`Draft.follows_mutator` and its companions).
-/

namespace ShaderVariants

namespace Draft

/-! ## 1. Mutators -/

theorem readValue_ofInt {value : Int} (h : Numeral.Fits 32 value) :
    readValue (Numeral.ofInt value) = some value := by
  rw [readValue, Numeral.readInt_ofInt h.1 h.2]
  rfl

theorem readValues_map_ofInt {values : List Int} (h : ∀ value ∈ values, Numeral.Fits 32 value) :
    readValues (values.map Numeral.ofInt) = .ok values := by
  induction values with
  | nil => rfl
  | cons value rest ih =>
    obtain ⟨hvalue, hrest⟩ := List.forall_mem_cons.mp h
    rw [List.map_cons, readValues, readValue_ofInt hvalue, ih hrest]
    rfl

theorem increasing_of_pairwise {values : List Int} (h : values.Pairwise (· < ·)) :
    increasing values = true := by
  induction values with
  | nil => rfl
  | cons a rest ih =>
    obtain ⟨hfirst, hrest⟩ := List.pairwise_cons.mp h
    cases rest with
    | nil => rfl
    | cons b rest =>
      rw [increasing, ih hrest, decide_eq_true (hfirst b List.mem_cons_self)]
      rfl

theorem checkValues_map_ofInt {draft : Draft} {counts : Bool} {name : Text} {values : List Int}
    (new : draft.NewMutator counts name values) :
    checkValues counts (values.map Numeral.ofInt) = .ok values := by
  have hnonempty : (values.map Numeral.ofInt).isEmpty = false := by
    simpa using new.nonempty
  have hpositive : (counts && values.any (· < 1)) = false := by
    cases hcounts : counts with
    | false => rfl
    | true =>
      have hvalues := new.positive hcounts
      rw [Bool.true_and, List.any_eq_false]
      intro value hvalue
      have := hvalues value hvalue
      simp only [decide_eq_true_eq]
      omega
  rw [checkValues, hnonempty, if_neg Bool.false_ne_true, readValues_map_ofInt new.inRange]
  simp only [increasing_of_pairwise new.increasing, hpositive, Bool.not_true, if_false,
    Bool.false_eq_true]

theorem declareMutator_of_new {draft : Draft} {counts : Bool} {name : Text} {values : List Int}
    (new : draft.NewMutator counts name values) :
    draft.declareMutator counts name (values.map Numeral.ofInt) =
      .ok (draft.addMutator counts name values) := by
  have hfresh : (draft.mutators.any fun mutator => mutator.name == name) = false := by
    rw [List.any_eq_false]
    intro mutator hmutator
    simpa using new.fresh mutator hmutator
  have hsingle : (if counts then draft.instanceCounter? else none) = none := by
    cases hcounts : counts with
    | false => rfl
    | true => exact new.single hcounts
  rw [declareMutator, new.identifier, hfresh, checkValues_map_ofInt new]
  simp only [hsingle, Bool.not_true, if_false, Bool.false_eq_true]

/-- The directive of a new mutator declares it.  The keyword is told from a name by its place. -/
theorem follows_mutator {draft : Draft} {counts : Bool} {name : Text} {values : List Int}
    (new : draft.NewMutator counts name values) :
    draft.Follows [mutatorTokens ⟨name, values, counts⟩] (draft.addMutator counts name values) := by
  apply Follows.single
  intro file line
  rw [mutatorTokens, follow, if_pos rfl]
  cases hcounts : counts with
  | false =>
    have hkeyword : (some name == some "instanced".toList) = false := by
      simpa using new.notKeyword hcounts
    show readMutator draft (name :: values.map Numeral.ofInt) = _
    rw [readMutator, List.head?_cons, hkeyword]
    exact declareMutator_of_new (hcounts ▸ new)
  | true =>
    show readMutator draft ("instanced".toList :: name :: values.map Numeral.ofInt) = _
    rw [readMutator, List.head?_cons, beq_self_eq_true]
    exact declareMutator_of_new (hcounts ▸ new)

/-! ## 2. Rules -/

section

variable {mutators : List Mutator}

theorem inOrder_eq_self {side : List Assignment} (h : side.Pairwise fun a b => a.1 < b.1) :
    inOrder side = side := by
  induction side with
  | nil => rfl
  | cons assignment rest ih =>
    obtain ⟨hfirst, hrest⟩ := List.pairwise_cons.mp h
    show insertInOrder assignment (inOrder rest) = assignment :: rest
    rw [ih hrest]
    cases rest with
    | nil => rfl
    | cons next rest =>
      rw [insertInOrder, if_pos (Nat.le_of_lt (hfirst next List.mem_cons_self))]

/-- What is asked of mutators for the pairs of a rule to be read. -/
structure Readable (mutators : List Mutator) : Prop where
  distinct : (mutators.map Mutator.name).Nodup
  inRange : ∀ mutator ∈ mutators, ∀ value ∈ mutator.values, Numeral.Fits 32 value

theorem readPair_of_declaredAt (hmutators : Readable mutators) {side : List Assignment}
    {place : Nat} {value : Int} (hdeclared : DeclaredAt mutators place value)
    (hfresh : place ∉ side.map Prod.fst) :
    readPair mutators side (nameAt mutators place) (Numeral.ofInt value) = .ok (place, value) := by
  obtain ⟨mutator, hmutator, hvalue⟩ := hdeclared
  have hname : nameAt mutators place = mutator.name := by
    rw [nameAt, hmutator]
    rfl
  have hrange := hmutators.inRange mutator (List.mem_of_getElem? hmutator) value
    (List.contains_iff_mem.mp hvalue)
  have hunused : (side.any fun assignment => assignment.1 == place) = false := by
    rw [List.any_eq_false]
    intro assignment hassignment heq
    exact hfresh (beq_iff_eq.mp heq ▸ List.mem_map_of_mem hassignment)
  rw [readPair, hname, findIdx?_name_of_nodup hmutators.distinct hmutator]
  simp only [readValue_ofInt hrange, hmutator, Option.any_some, hvalue, hunused, Bool.not_true,
    Bool.false_eq_true, if_false]

theorem readPairs_sideTokens (hmutators : Readable mutators) (value : RewriteRecord → Int)
    {records : List RewriteRecord}
    (hdeclared : ∀ record ∈ records, DeclaredAt mutators record.mutator (value record))
    (hincreasing : (records.map RewriteRecord.mutator).Pairwise (· < ·)) {side : List Assignment}
    (hside : ∀ place ∈ side.map Prod.fst, ∀ record ∈ records, place < record.mutator) :
    readPairs mutators side (sideTokens mutators value records) =
      .ok (side ++ records.map fun record => (record.mutator, value record)) := by
  induction records generalizing side with
  | nil =>
    rw [sideTokens, List.map_nil, List.append_nil]
    rfl
  | cons record rest ih =>
    obtain ⟨hrecord, hrest⟩ := List.forall_mem_cons.mp hdeclared
    obtain ⟨hfirst, hincreasing⟩ := List.pairwise_cons.mp hincreasing
    have hfresh : record.mutator ∉ side.map Prod.fst := fun hmem =>
      Nat.lt_irrefl _ (hside _ hmem record List.mem_cons_self)
    rw [sideTokens, readPairs, readPair_of_declaredAt hmutators hrecord hfresh]
    simp only
    rw [ih hrest hincreasing, List.append_assoc]
    · rfl
    -- The new place lies behind those before it and in front of the rest.
    · intro place hplace other hother
      rw [List.map_append, List.mem_append] at hplace
      rcases hplace with hplace | hplace
      · exact hside place hplace other (List.mem_cons_of_mem record hother)
      · obtain rfl := List.mem_singleton.mp hplace
        exact hfirst other.mutator (List.mem_map_of_mem hother)

theorem length_sideTokens (value : RewriteRecord → Int) (records : List RewriteRecord) :
    (sideTokens mutators value records).length = 2 * records.length := by
  induction records with
  | nil => rfl
  | cons record rest ih =>
    rw [sideTokens, List.length_cons, List.length_cons, ih, List.length_cons]
    omega

theorem readSide_sideTokens (hmutators : Readable mutators) (value : RewriteRecord → Int)
    {records : List RewriteRecord}
    (hdeclared : ∀ record ∈ records, DeclaredAt mutators record.mutator (value record))
    (hincreasing : (records.map RewriteRecord.mutator).Pairwise (· < ·)) :
    readSide mutators (sideTokens mutators value records) =
      .ok (records.map fun record => (record.mutator, value record)) := by
  have heven : ¬ (sideTokens mutators value records).length % 2 ≠ 0 := by
    rw [length_sideTokens]
    omega
  have hordered : (records.map fun record => (record.mutator, value record)).Pairwise
      fun a b => a.1 < b.1 := by
    rw [List.pairwise_map] at hincreasing ⊢
    exact hincreasing
  rw [readSide, if_neg heven,
    readPairs_sideTokens hmutators value hdeclared hincreasing (by simp)]
  exact congrArg Except.ok (inOrder_eq_self hordered)

theorem ne_to_of_mem_sideTokens {rule : Rewrite} (hrule : rule.WellFormed mutators)
    (havoids : rule.Avoids mutators "to".toList) (value : RewriteRecord → Int) :
    ∀ token ∈ sideTokens mutators value rule.records, token ≠ "to".toList := by
  have hnumber : ∀ v, Numeral.ofInt v ≠ "to".toList := by
    intro v heq
    have hmem : 't' ∈ Numeral.ofInt v := by
      rw [heq]
      decide
    rcases Numeral.eq_of_mem_ofInt hmem with h | h
    · exact absurd h (by decide)
    · exact absurd h (by decide)
  have hname : ∀ record ∈ rule.records, nameAt mutators record.mutator ≠ "to".toList := by
    intro record hrecord
    obtain ⟨mutator, hmutator, -⟩ := (hrule.declared record hrecord).1
    rw [nameAt, hmutator]
    exact havoids record hrecord mutator hmutator
  generalize rule.records = records at hname
  induction records with
  | nil => simp [sideTokens]
  | cons record rest ih =>
    obtain ⟨hrecord, hrest⟩ := List.forall_mem_cons.mp hname
    rw [sideTokens]
    exact List.forall_mem_cons.mpr ⟨hrecord,
      List.forall_mem_cons.mpr ⟨hnumber _, ih hrest⟩⟩

/-- The word between the sides of a rule is found where it was written. -/
theorem sides?_append {left right : List Text} (hleft : ∀ token ∈ left, token ≠ "to".toList)
    (hright : ∀ token ∈ right, token ≠ "to".toList) :
    sides? (left ++ "to".toList :: right) = some (left, right) := by
  have hkeep : ∀ token ∈ left, (token != "to".toList) = true := fun token htoken => by
    simpa using hleft token htoken
  have hstop : ("to".toList != "to".toList) = false := by decide
  have hnone : right.contains "to".toList = false := by
    rw [Bool.eq_false_iff]
    intro hmem
    exact hright _ (List.contains_iff_mem.mp hmem) rfl
  rw [sides?, List.dropWhile_append_of_pos hkeep, List.takeWhile_append_of_pos hkeep,
    List.dropWhile_cons, List.takeWhile_cons, hstop]
  simp only [Bool.false_eq_true, if_false, hnone, List.append_nil]

theorem joinSides_map {rule : Rewrite} (hrule : rule.WellFormed mutators) :
    joinSides (rule.records.map fun record => (record.mutator, record.source))
      (rule.records.map fun record => (record.mutator, record.target)) = .ok rule := by
  obtain ⟨record, hrecord, hchange⟩ := hrule.changes
  have hnonempty : (rule.records.map fun record => (record.mutator, record.source)).isEmpty =
      false := by
    cases hrecords : rule.records with
    | nil =>
      rw [hrecords] at hrecord
      cases hrecord
    | cons first rest => rfl
  have hzip : List.zipWith (fun a b => (⟨a.1, a.2, b.2⟩ : RewriteRecord))
      (rule.records.map fun record => (record.mutator, record.source))
      (rule.records.map fun record => (record.mutator, record.target)) = rule.records := by
    rw [List.zipWith_map, List.zipWith_self, List.map_id'']
    exact fun record => rfl
  have hall : (rule.records.all fun record => record.source == record.target) = false := by
    rw [List.all_eq_false]
    exact ⟨record, hrecord, by simpa using hchange⟩
  rw [joinSides, hnonempty, if_neg Bool.false_ne_true, if_neg (by simp)]
  simp only [hzip, hall, Bool.false_eq_true, if_false]

/-- The directive of a rule declares it in front of the rules before it. -/
theorem follows_rule {draft : Draft} {rule : Rewrite} (hmutators : Readable draft.mutators)
    (hrule : rule.WellFormed draft.mutators)
    (havoids : rule.Avoids draft.mutators "to".toList) :
    draft.Follows [ruleTokens draft.mutators rule]
      { draft with rewrites := rule :: draft.rewrites } := by
  have hread : readRule draft.mutators
      (sideTokens draft.mutators RewriteRecord.source rule.records ++
        "to".toList :: sideTokens draft.mutators RewriteRecord.target rule.records) = .ok rule := by
    rw [readRule, sides?_append (ne_to_of_mem_sideTokens hrule havoids _)
      (ne_to_of_mem_sideTokens hrule havoids _)]
    simp only [
      readSide_sideTokens hmutators RewriteRecord.source
        (fun record hrecord => (hrule.declared record hrecord).1) hrule.increasing,
      readSide_sideTokens hmutators RewriteRecord.target
        (fun record hrecord => (hrule.declared record hrecord).2) hrule.increasing]
    exact joinSides_map hrule
  apply Follows.single
  intro file line
  rw [ruleTokens, follow, if_neg (by decide), if_pos rfl, readRewrite, hread]

theorem follows_rules {draft : Draft} (hmutators : Readable draft.mutators) {rules : List Rewrite}
    (hrules : ∀ rule ∈ rules, rule.WellFormed draft.mutators ∧
      rule.Avoids draft.mutators "to".toList) :
    draft.Follows (rules.map (ruleTokens draft.mutators))
      { draft with rewrites := rules.reverse ++ draft.rewrites } := by
  induction rules generalizing draft with
  | nil => exact .nil draft
  | cons rule rest ih =>
    obtain ⟨⟨hrule, havoids⟩, hrest⟩ := List.forall_mem_cons.mp hrules
    have hfirst := follows_rule hmutators hrule havoids
    have hsecond : Follows { draft with rewrites := rule :: draft.rewrites } _ _ :=
      ih hmutators hrest
    rw [List.reverse_cons, List.append_assoc]
    exact hfirst.append hsecond

end

/-! ## 3. Inputs -/

theorem spelling_ne_qualifier (type : DataType) :
    type.spelling ≠ "const".toList ∧ type.spelling ≠ "instanced".toList := by
  cases type <;> decide

/-- The spelling of a type ends the qualifiers, whatever the input is called. -/
theorem readQualifiers_append {constant instanced : Bool} (type : DataType) (name : Text)
    (hexclusive : (constant && instanced) = false) :
    readQualifiers false false (qualifiers constant instanced ++ [type.spelling, name]) =
      .ok (constant, instanced, [type.spelling, name]) := by
  obtain ⟨hconst, hinstanced⟩ := spelling_ne_qualifier type
  have hend : ∀ constant instanced, readQualifiers constant instanced [type.spelling, name] =
      .ok (constant, instanced, [type.spelling, name]) := by
    intro constant instanced
    rw [readQualifiers, if_neg hconst, if_neg hinstanced]
  have hother : "instanced".toList ≠ "const".toList := by decide
  cases constant with
  | false =>
    cases instanced with
    | false => exact hend false false
    | true =>
      show readQualifiers false false ("instanced".toList :: [type.spelling, name]) = _
      rw [readQualifiers, if_neg hother, if_pos rfl, if_neg Bool.false_ne_true, hend]
  | true =>
    cases instanced with
    | false =>
      show readQualifiers false false ("const".toList :: [type.spelling, name]) = _
      rw [readQualifiers, if_pos rfl, if_neg Bool.false_ne_true, hend]
    | true => cases hexclusive

theorem declareInput_of_new {draft : Draft} {constant instanced : Bool} {type : DataType}
    {name : Text} (new : draft.NewInput constant instanced type name) :
    draft.declareInput constant instanced type.spelling name =
      .ok (draft.addInput constant instanced type name) := by
  have hfresh : (draft.inputs.any fun input => input.name == name) = false := by
    rw [List.any_eq_false]
    intro input hinput
    simpa using new.fresh input hinput
  rw [declareInput, new.identifier, hfresh, DataType.ofName?_spelling new.typed]
  simp only [new.consistent, Bool.not_true, Bool.false_eq_true, if_false]
  rw [if_neg (Nat.not_le.mpr new.room)]

theorem follows_input {draft : Draft} {constant instanced : Bool} {type : DataType} {name : Text}
    (new : draft.NewInput constant instanced type name) :
    draft.Follows [inputTokens (draft.newInput constant instanced type name)]
      (draft.addInput constant instanced type name) := by
  have hconstant : (draft.newInput constant instanced type name).isConstant = constant := by
    cases constant <;> rfl
  have hexclusive : (constant && instanced) = false := by
    cases hboth : constant && instanced with
    | false => rfl
    | true =>
      have hconsistent := new.consistent
      rw [conflict?, hboth] at hconsistent
      cases hconsistent
  have hqualifiers : readQualifiers false false
      (qualifiers constant instanced ++ [type.spelling, name]) =
        .ok (constant, instanced, [type.spelling, name]) :=
    readQualifiers_append type name hexclusive
  apply Follows.single
  intro file line
  rw [inputTokens, hconstant, follow, if_neg (by decide), if_neg (by decide), if_pos rfl]
  show draft.readInput (qualifiers constant instanced ++ [type.spelling, name]) = _
  rw [readInput, hqualifiers]
  exact declareInput_of_new new

/-- An input that could be declared can be declared as well where at least as much is known of
instance counts. -/
theorem NewInput.transfer {draft base : Draft} {constant instanced : Bool} {type : DataType}
    {name : Text} (new : draft.NewInput constant instanced type name)
    (hinputs : base.inputs = draft.inputs)
    (hcounter : draft.instanceCounter?.isSome = true → base.instanceCounter?.isSome = true) :
    base.NewInput constant instanced type name where
  identifier := new.identifier
  fresh := by
    rw [hinputs]
    exact new.fresh
  typed := new.typed
  consistent := by
    have hconsistent := new.consistent
    unfold conflict? at hconsistent ⊢
    cases hbase : base.instanceCounter? with
    | some counter =>
      cases constant <;> cases instanced <;> cases hresource : type.isResource <;> simp_all
    | none =>
      have hdraft : draft.instanceCounter? = none := by
        cases hdraft : draft.instanceCounter? with
        | none => rfl
        | some counter => simp [hdraft, hbase] at hcounter
      rw [hdraft] at hconsistent
      exact hconsistent
  room := by
    rw [hinputs]
    exact new.room

/-! ## 4. The descriptor set and the stages -/

theorem follows_descriptorSet {draft : Draft} {set : Nat} (hnone : draft.descriptorSet = none)
    (hset : set < Numeral.wordCount 32) :
    draft.Follows [["descriptor_set".toList, Numeral.ofNat set]]
      { draft with descriptorSet := some set } := by
  have hread : readSet? [Numeral.ofNat set] = some set := by
    rw [readSet?, Numeral.readNat_ofNat hset]
    rfl
  apply Follows.single
  intro file line
  rw [follow, if_neg (by decide), if_neg (by decide), if_neg (by decide), if_neg (by decide),
    if_neg (by decide), if_pos rfl, readDescriptorSet, hread]
  simp only [hnone]

theorem follows_stage {draft : Draft} {stage : Stage} (free : draft.startFault? stage = none) :
    draft.Follows (stageTokens stage) { draft with stages := draft.stages.insert stage } := by
  have hclosed := (startFault?_eq_none_iff.mp free).1
  intro file line
  have hstart : draft.follow file line ["start".toList, stage.name] =
      .ok { draft with
        stages := draft.stages.insert stage
        openStage := some ⟨stage, file, line⟩ } := by
    rw [follow, if_neg (by decide), if_neg (by decide), if_neg (by decide), if_pos rfl,
      readStart.eq_def]
    simp only [Stage.ofName?_name, free]
  have hend : ∀ block : OpenStage,
      follow { draft with stages := draft.stages.insert stage, openStage := some block } file
        (line + 1) ["end".toList] =
          .ok { draft with stages := draft.stages.insert stage, openStage := none } := by
    intro block
    rw [follow, if_neg (by decide), if_neg (by decide), if_neg (by decide), if_neg (by decide),
      if_pos rfl]
    rfl
  rw [stageTokens, followAll, hstart]
  simp only [followAll, hend, hclosed]

/-- Stages that may stand together are opened one after the other. -/
theorem follows_stages {draft : Draft} {whole : StageSet} {stages : List Stage}
    (halone : whole.mem .compute = true → ∀ stage, whole.mem stage = true → stage = .compute)
    (hwhole : ∀ stage, stage ∈ stages ∨ draft.stages.mem stage = true → whole.mem stage = true)
    (hclosed : draft.openStage = none) (hnodup : stages.Nodup)
    (hfresh : ∀ stage ∈ stages, draft.stages.mem stage = false) :
    draft.Follows (stages.flatMap stageTokens)
      { draft with stages := stages.foldl StageSet.insert draft.stages } := by
  induction stages generalizing draft with
  | nil => exact .nil draft
  | cons stage rest ih =>
    obtain ⟨hother, hnodup⟩ := List.nodup_cons.mp hnodup
    obtain ⟨hstage, hrest⟩ := List.forall_mem_cons.mp hfresh
    have hmember := hwhole stage (Or.inl List.mem_cons_self)
    have hfree : draft.startFault? stage = none := by
      refine startFault?_eq_none_iff.mpr ⟨hclosed, hstage, ?_, ?_⟩
      · rintro rfl other
        cases hmem : draft.stages.mem other with
        | false => rfl
        | true =>
          obtain rfl := halone hmember other (hwhole other (Or.inr hmem))
          rw [hstage] at hmem
          cases hmem
      · intro hne
        cases hmem : draft.stages.mem .compute with
        | false => rfl
        | true => exact absurd (halone (hwhole _ (Or.inr hmem)) stage hmember) hne
    have hsecond : Follows { draft with stages := draft.stages.insert stage }
        (rest.flatMap stageTokens)
        { draft with stages := rest.foldl StageSet.insert (draft.stages.insert stage) } := by
      refine ih (fun other hmem => hwhole other ?_) hclosed hnodup fun other hmem => ?_
      · simp only [StageSet.mem_insert, Bool.or_eq_true, decide_eq_true_eq] at hmem
        rcases hmem with hmem | hmem | rfl
        · exact Or.inl (List.mem_cons_of_mem stage hmem)
        · exact Or.inr hmem
        · exact Or.inl List.mem_cons_self
      · have hne : stage ≠ other := by
          rintro rfl
          exact hother hmem
        simp [hrest other hmem, hne]
    rw [List.flatMap_cons]
    exact (follows_stage hfree).append hsecond

end Draft

end ShaderVariants
