import ShaderVariants.Proofs.Program.Invariant

/-!
# Stages of a program

A compute stage stands alone among the stages of a program, and no code lands in a stage that the
program does not have (`Program.stagesSound_of_read`).
-/

namespace ShaderVariants

/-! ## 1. Sets of stages -/

namespace StageSet

theorem ext_mem {a b : StageSet} (h : ∀ stage, a.mem stage = b.mem stage) : a = b := by
  have hbits : a.bits = b.bits := by
    apply BitVec.eq_of_getLsbD_eq
    intro i hi
    have hstage : ∃ stage ∈ Stage.all, stage.index = i := by
      revert i
      decide
    obtain ⟨stage, -, rfl⟩ := hstage
    exact h stage
  cases a
  cases b
  simp_all

theorem isEmpty_iff {set : StageSet} : set.isEmpty = true ↔ ∀ stage, set.mem stage = false := by
  constructor
  · intro h stage
    have hbits : set.bits = 0 := beq_iff_eq.mp h
    simp [mem, hbits]
  · intro h
    have hempty : set = .empty := ext_mem fun stage => by rw [h stage, mem_empty]
    rw [hempty]
    rfl

theorem mem_foldl_insert (stages : List Stage) (set : StageSet) (stage : Stage) :
    (stages.foldl insert set).mem stage = (set.mem stage || decide (stage ∈ stages)) := by
  induction stages generalizing set with
  | nil => simp
  | cons first rest ih =>
    have hcons : decide (stage ∈ first :: rest) =
        (decide (first = stage) || decide (stage ∈ rest)) := by
      rw [Bool.eq_iff_iff, Bool.or_eq_true, decide_eq_true_eq, decide_eq_true_eq, decide_eq_true_eq,
        List.mem_cons, eq_comm]
    rw [List.foldl_cons, ih, mem_insert, Bool.or_assoc, hcons]

/-- A set of stages is what its members put together. -/
theorem foldl_insert_toList (set : StageSet) :
    set.toList.foldl insert .empty = set := by
  apply ext_mem
  intro stage
  rw [mem_foldl_insert, mem_empty, Bool.false_or, Bool.eq_iff_iff, decide_eq_true_eq, mem_toList]

end StageSet

/-- What is known of the stages of a program and of their code. -/
structure StagesSound (stages : StageSet) (code : PerStage (List Text)) : Prop where
  alone : stages.mem .compute = true → ∀ stage, stages.mem stage = true → stage = .compute
  absent : ∀ stage, stages.mem stage = false → code.get stage = []

/-! ## 2. Stage blocks -/

namespace Draft

/-- A stage may be opened outside of all blocks, once, and only with stages of its own kind. -/
theorem startFault?_eq_none_iff {draft : Draft} {stage : Stage} :
    draft.startFault? stage = none ↔
      draft.openStage = none ∧ draft.stages.mem stage = false ∧
        (stage = .compute → ∀ other, draft.stages.mem other = false) ∧
        (stage ≠ .compute → draft.stages.mem .compute = false) := by
  rw [← StageSet.isEmpty_iff, startFault?]
  cases draft.openStage with
  | some block => simp
  | none =>
    cases draft.stages.mem stage <;> cases draft.stages.isEmpty <;>
      cases draft.stages.mem .compute <;> by_cases h : stage = .compute <;> simp [h]

/-- The stages of a draft are sound, and an open block belongs to one of them. -/
structure BlocksSound (draft : Draft) : Prop where
  sound : StagesSound draft.stages draft.stageCode
  opened : ∀ block, draft.openStage = some block → draft.stages.mem block.stage = true

theorem blocksSound_empty : BlocksSound .empty where
  sound := ⟨by simp [empty], by simp [empty]⟩
  opened := by simp [empty]

theorem BlocksSound.pushCode {draft : Draft} (h : draft.BlocksSound) (line : Text) :
    (draft.pushCode line).BlocksSound := by
  unfold Draft.pushCode
  split
  next block hblock =>
    refine ⟨⟨h.sound.alone, fun stage habsent => ?_⟩, h.opened⟩
    have hne : stage ≠ block.stage := by
      rintro rfl
      rw [h.opened block hblock] at habsent
      cases habsent
    show (draft.stageCode.modify block.stage (line :: ·)).get stage = []
    rw [PerStage.get_modify_of_ne _ _ hne]
    exact h.sound.absent stage habsent
  · exact ⟨h.sound, h.opened⟩

theorem BlocksSound.addInput {draft : Draft} (h : draft.BlocksSound) (constant instanced : Bool)
    (type : DataType) (name : Text) :
    (draft.addInput constant instanced type name).BlocksSound := by
  unfold Draft.addInput
  refine BlocksSound.pushCode (BlocksSound.pushCode ?_ _) _
  exact ⟨h.sound, h.opened⟩

theorem BlocksSound.openStage {draft : Draft} (h : draft.BlocksSound) {stage : Stage}
    (free : draft.startFault? stage = none) (file : Text) (line : Nat) :
    BlocksSound { draft with
      stages := draft.stages.insert stage
      openStage := some ⟨stage, file, line⟩ } := by
  obtain ⟨-, -, hcompute, hgraphics⟩ := startFault?_eq_none_iff.mp free
  have hmem : ∀ other, (draft.stages.insert stage).mem other = true ↔
      draft.stages.mem other = true ∨ stage = other := by
    simp
  refine ⟨⟨fun halone other hother => ?_, fun other habsent => ?_⟩, fun block hblock => ?_⟩
  · by_cases hstage : stage = .compute
    · -- The compute stage is opened where there is no other stage.
      have hnone := hcompute hstage other
      rcases (hmem other).mp hother with hold | rfl
      · rw [hnone] at hold
        cases hold
      · exact hstage
    · have hnone := hgraphics hstage
      rcases (hmem .compute).mp halone with hold | hnew
      · rw [hnone] at hold
        cases hold
      · exact absurd hnew hstage
  · apply h.sound.absent
    cases hold : draft.stages.mem other with
    | false => rfl
    | true =>
      have hnew := (hmem other).mpr (Or.inl hold)
      rw [show (draft.stages.insert stage).mem other = false from habsent] at hnew
      cases hnew
  · obtain rfl : ⟨stage, file, line⟩ = block := Option.some.inj hblock
    exact (hmem stage).mpr (Or.inr rfl)

theorem invariant_blocksSound : Invariant BlocksSound where
  code := fun draft line _ h => h.pushCode line
  once := fun _ _ h => ⟨h.sound, h.opened⟩
  step := by
    intro draft file line next hstep h
    cases hstep with
    | mutator | rewrite | firstSet => exact ⟨h.sound, h.opened⟩
    | input => exact h.addInput _ _ _ _
    | openStage free => exact h.openStage free file line
    | closeStage => exact ⟨h.sound, by simp⟩
    | sameSet => exact h

end Draft

/-! ## 3. Programs -/

theorem Program.stagesSound_of_read {reader : FileReader} {settings : Settings} {fileName : Text}
    {program : Program} (h : Program.read reader settings fileName = .ok program) :
    (∃ stage, program.stages.mem stage = true) ∧ StagesSound program.stages program.stageCode := by
  obtain ⟨draft, hdraft, lastLine, hfinish⟩ :=
    Draft.invariant_blocksSound.read h Draft.blocksSound_empty
  obtain ⟨-, hstages, rfl⟩ := Draft.finish_eq_ok_iff.mp hfinish
  constructor
  · by_contra hnone
    rw [Bool.eq_false_iff] at hstages
    apply hstages
    rw [StageSet.isEmpty_iff]
    intro stage
    exact Bool.eq_false_iff.mpr fun hmem => hnone ⟨stage, hmem⟩
  · refine ⟨hdraft.sound.alone, fun stage habsent => ?_⟩
    show (draft.stageCode.map List.reverse).get stage = []
    rw [PerStage.get_map, hdraft.sound.absent stage habsent, List.reverse_nil]

end ShaderVariants
