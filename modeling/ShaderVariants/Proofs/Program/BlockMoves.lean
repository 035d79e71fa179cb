import ShaderVariants.Proofs.Program.BlockSequence
import ShaderVariants.Proofs.Program.SingleFile

/-!
# Moving stage blocks

A stage block of plain code does the same wherever it stands outside of the other blocks
(`Program.read_of_block_moved`): what is read behind it (`Draft.afterBlock`) is read as without it,
as long as its stage goes with the stages of the other blocks.
-/

namespace ShaderVariants

/-! ## 1. Stages that go together -/

/-- Two stages that one program can have blocks for. -/
structure Stage.GoesWith (stage other : Stage) : Prop where
  distinct : stage ≠ other
  graphics : stage ≠ .compute
  otherGraphics : other ≠ .compute

namespace StageSet

/-- Whether a block of the given stage can be opened behind blocks of the stages of a set. -/
structure Admits (set : StageSet) (stage : Stage) : Prop where
  fresh : set.mem stage = false
  alone : stage = .compute → ∀ other, set.mem other = false
  graphics : stage ≠ .compute → set.mem .compute = false

/-- One stage more is no hindrance if it goes with the other one. -/
theorem admits_insert_iff {set : StageSet} {stage other : Stage} :
    (set.insert other).Admits stage ↔ set.Admits stage ∧ other.GoesWith stage := by
  constructor
  · intro h
    have hfresh := h.fresh
    simp only [mem_insert, Bool.or_eq_false_iff, decide_eq_false_iff_not] at hfresh
    have hstage : stage ≠ .compute := fun hcompute => by
      simpa using h.alone hcompute other
    have hgraphics := h.graphics hstage
    simp only [mem_insert, Bool.or_eq_false_iff, decide_eq_false_iff_not] at hgraphics
    exact ⟨⟨hfresh.1, fun hcompute => absurd hcompute hstage, fun _ => hgraphics.1⟩,
      ⟨hfresh.2, hgraphics.2, hstage⟩⟩
  · rintro ⟨h, hwith⟩
    refine ⟨?_, fun hcompute => absurd hcompute hwith.otherGraphics, fun hstage => ?_⟩
    · simp [h.fresh, hwith.distinct]
    · simp [h.graphics hstage, hwith.graphics]

theorem insert_comm (set : StageSet) (stage other : Stage) :
    (set.insert stage).insert other = (set.insert other).insert stage := by
  apply ext_mem
  intro third
  simp only [mem_insert, Bool.or_assoc, Bool.or_comm (decide (stage = third))]

end StageSet

theorem Stage.GoesWith.symm {stage other : Stage} (h : stage.GoesWith other) :
    other.GoesWith stage :=
  ⟨h.distinct.symm, h.otherGraphics, h.graphics⟩

namespace PerStage

variable {α : Type}

/-- Changes that commute on every value commute. -/
theorem modify_comm {f g : α → α} (h : ∀ a, f (g a) = g (f a)) (values : PerStage α)
    (stage other : Stage) :
    (values.modify stage f).modify other g = (values.modify other g).modify stage f := by
  cases stage <;> cases other <;> simp [modify, h]

theorem modify_modify (values : PerStage α) (stage : Stage) (f g : α → α) :
    (values.modify stage f).modify stage g = values.modify stage fun a => g (f a) := by
  cases stage <;> rfl

theorem modify_congr {values : PerStage α} {stage : Stage} {f g : α → α}
    (h : f (values.get stage) = g (values.get stage)) :
    values.modify stage f = values.modify stage g := by
  cases stage <;> simp_all [modify, get]

end PerStage

/-! ## 2. What is declared behind a block -/

namespace Draft

theorem startFault?_eq_none_iff_admits {draft : Draft} {stage : Stage} :
    draft.startFault? stage = none ↔ draft.openStage = none ∧ draft.stages.Admits stage := by
  rw [startFault?_eq_none_iff]
  exact and_congr_right fun _ => ⟨fun h => ⟨h.1, h.2.1, h.2.2⟩, fun h => ⟨h.1, h.2, h.3⟩⟩

/-- The same declarations behind a stage block with the given code, the last line first. -/
def afterBlock (draft : Draft) (stage : Stage) (code : List Text) : Draft :=
  { draft with
    stages := draft.stages.insert stage
    stageCode := draft.stageCode.modify stage (· ++ code) }

section

variable {draft next : Draft} {stage : Stage} {code : List Text}

/-- Code that is read later goes in front of the code of the block, if it is of the same stage. -/
theorem pushCode_afterBlock (line : Text) :
    (draft.afterBlock stage code).pushCode line = (draft.pushCode line).afterBlock stage code := by
  rw [pushCode, pushCode]
  cases hopen : draft.openStage with
  | none =>
    simp only [afterBlock, hopen]
  | some block =>
    simp only [afterBlock, hopen]
    rw [PerStage.modify_comm fun lines => by rfl]

theorem addInput_afterBlock (constant instanced : Bool) (type : DataType) (name : Text) :
    (draft.afterBlock stage code).addInput constant instanced type name =
      (draft.addInput constant instanced type name).afterBlock stage code := by
  unfold addInput
  dsimp only
  rw [← pushCode_afterBlock, ← pushCode_afterBlock]
  rfl

theorem unnoticed_afterBlock (stage : Stage) (code : List Text) :
    Unnoticed fun draft => draft.afterBlock stage code :=
  ⟨fun _ => rfl, fun _ => rfl, fun _ => rfl, fun _ => rfl, fun _ _ _ _ => rfl, fun _ _ => rfl,
    fun _ _ => rfl⟩

theorem readEnd_afterBlock (tokens : List Text) :
    (draft.afterBlock stage code).readEnd tokens =
      (draft.readEnd tokens).map fun next => next.afterBlock stage code := by
  unfold readEnd afterBlock
  dsimp only
  split
  · rfl
  split
  · rfl
  · rfl

/-- A directive of the word that opens blocks is malformed if it opens none. -/
theorem exists_readStart_eq_error {tokens : List Text}
    (h : ∀ other, (Line.anki ("start".toList :: tokens)).blockMark? ≠ some (.start other)) :
    ∃ cause, ∀ (draft : Draft) (file : Text) (number : Nat),
      draft.readStart file number tokens = .error cause := by
  match tokens with
  | [] => exact ⟨_, fun _ _ _ => rfl⟩
  | [name] =>
    cases hname : Stage.ofName? name with
    | none =>
      refine ⟨.malformedPragma (.unknownStage name), fun draft file number => ?_⟩
      rw [readStart, hname]
    | some found => exact absurd (by rw [Line.blockMark?, if_pos rfl, hname]; rfl) (h found)
  | _ :: _ :: _ => exact ⟨_, fun _ _ _ => rfl⟩

/-- A directive that opens no block is followed behind the block as without it, and leaves the
stages alone. -/
theorem follow_afterBlock {tokens : List Text}
    (h : ∀ other, (Line.anki tokens).blockMark? ≠ some (.start other)) (draft : Draft)
    (stage : Stage) (code : List Text) (file : Text) (number : Nat) :
    (draft.afterBlock stage code).follow file number tokens =
        (draft.follow file number tokens).map (fun next => next.afterBlock stage code) ∧
      ∀ next, draft.follow file number tokens = .ok next → next.stages = draft.stages := by
  rw [follow.eq_def, follow.eq_def draft]
  split
  · exact ⟨rfl, by simp⟩
  next word tokens =>
  split
  next =>
    refine ⟨(unnoticed_afterBlock stage code).readMutator draft tokens, fun next hnext => ?_⟩
    obtain ⟨counts, name, values, -, rfl⟩ := exists_of_readMutator hnext
    rfl
  split
  next =>
    refine ⟨(unnoticed_afterBlock stage code).readRewrite draft tokens, fun next hnext => ?_⟩
    obtain ⟨rule, -, -, rfl⟩ := exists_of_readRewrite hnext
    rfl
  split
  next =>
    refine ⟨(unnoticed_afterBlock stage code).readInput draft addInput_afterBlock tokens,
      fun next hnext => ?_⟩
    obtain ⟨constant, instanced, typeName, name, type, -, -, rfl⟩ := exists_of_readInput hnext
    rw [addInput, pushCode_stages, pushCode_stages]
  split
  next hword =>
    subst hword
    obtain ⟨cause, hcause⟩ := exists_readStart_eq_error h
    rw [hcause, hcause]
    exact ⟨rfl, by simp⟩
  split
  next =>
    refine ⟨readEnd_afterBlock tokens, fun next hnext => ?_⟩
    obtain ⟨-, rfl⟩ := eq_of_readEnd hnext
    rfl
  split
  next =>
    refine ⟨(unnoticed_afterBlock stage code).readDescriptorSet draft tokens,
      fun next hnext => ?_⟩
    obtain ⟨set, -, -, rfl⟩ := exists_of_readDescriptorSet hnext
    rfl
  · exact ⟨rfl, by simp⟩

end

end Draft

/-! ## 3. Lines -/

/-- Whether the block that a line opens, if it opens one, is of a stage that goes with another. -/
def Line.FitsWith (stage : Stage) (line : Line) : Prop :=
  ∀ other, line.blockMark? = some (.start other) → other.GoesWith stage

/-- No file is included by an empty name. -/
theorem Line.included?_ne_nil (line : Line) : line.included? ≠ some [] := by
  cases line with
  | fileInclude tokens =>
    rw [included?, Include.target.eq_def]
    split
    · split
      · simp [Except.toOption]
      · simp [Except.toOption]
    · simp [Except.toOption]
  | once | onceWithArguments | anki | code => simp [included?]

namespace Draft

section

variable {enter : (line : Nat) → (name : Text) → Draft → Except ParseError Draft} {file : Text}
  {number : Nat} {seenOnce : Bool} {line : Text} {lines more : List Text} {draft last : Draft}
  {stage : Stage} {code : List Text}

theorem readLines_cons_eq_ok_iff :
    readLines enter file number seenOnce (line :: lines) draft = .ok last ↔
      ∃ next, readLine enter file number seenOnce line draft = .ok next ∧
        readLines enter file (number + 1) (seenOnce || (Line.ofText line).isOnce) lines next =
          .ok last := by
  rw [readLines_cons]
  cases readLine enter file number seenOnce line draft with
  | error e => simp
  | ok next => simp

theorem readLines_append_eq_ok_iff :
    readLines enter file number seenOnce (lines ++ more) draft = .ok last ↔
      ∃ next, readLines enter file number seenOnce lines draft = .ok next ∧
        readLines enter file (number + lines.length) (seenOnce || hasOnce lines) more next =
          .ok last := by
  rw [readLines_append]
  cases readLines enter file number seenOnce lines draft with
  | error e => simp
  | ok next => simp

theorem readLine_of_start_eq_ok_iff (h : (Line.ofText line).blockMark? = some (.start stage)) :
    readLine enter file number seenOnce line draft = .ok last ↔
      draft.openStage = none ∧ draft.stages.Admits stage ∧
        last = { draft with
          stages := draft.stages.insert stage
          openStage := some ⟨stage, file, number⟩ } := by
  rw [readLine_of_start h, ← and_assoc, ← startFault?_eq_none_iff_admits]
  cases draft.startFault? stage with
  | some fault => simp
  | none => simp [eq_comm]

/-- A line that opens no block is read behind a block as without it, and leaves the stages
alone. -/
theorem readLine_afterBlock_of_no_start
    (h : ∀ other, (Line.ofText line).blockMark? ≠ some (.start other)) (draft : Draft)
    (stage : Stage) (code : List Text) :
    readLine passOver file number seenOnce line (draft.afterBlock stage code) =
        (readLine passOver file number seenOnce line draft).map
          (fun next => next.afterBlock stage code) ∧
      ∀ next, readLine passOver file number seenOnce line draft = .ok next →
        next.stages = draft.stages := by
  rw [readLine, readLine]
  cases hkind : Line.ofText line with
  | fileInclude tokens =>
    dsimp only
    cases Include.target tokens with
    | error cause => exact ⟨rfl, by simp⟩
    | ok name => exact ⟨rfl, fun next hnext => Except.ok.inj hnext ▸ rfl⟩
  | once =>
    cases seenOnce with
    | true => exact ⟨rfl, by simp⟩
    | false => exact ⟨rfl, fun next hnext => Except.ok.inj hnext ▸ rfl⟩
  | onceWithArguments => exact ⟨rfl, by simp⟩
  | anki tokens =>
    rw [hkind] at h
    dsimp only
    obtain ⟨hsame, hstages⟩ := follow_afterBlock h draft stage code file number
    rw [hsame]
    cases hfollow : draft.follow file number tokens with
    | error cause => exact ⟨rfl, by simp⟩
    | ok next => exact ⟨rfl, fun last hlast => Except.ok.inj hlast ▸ hstages next hfollow⟩
  | code =>
    refine ⟨congrArg Except.ok (pushCode_afterBlock line), fun next hnext => ?_⟩
    exact Except.ok.inj hnext ▸ pushCode_stages draft line

/-- A line is read behind a block if it is read without it and opens no block that does not go with
it. -/
theorem readLine_afterBlock_eq_ok_iff :
    readLine passOver file number seenOnce line (draft.afterBlock stage code) = .ok last ↔
      ∃ next, readLine passOver file number seenOnce line draft = .ok next ∧
        (Line.ofText line).FitsWith stage ∧ last = next.afterBlock stage code := by
  by_cases hstart : ∃ other, (Line.ofText line).blockMark? = some (.start other)
  · obtain ⟨other, hother⟩ := hstart
    have hfits : (Line.ofText line).FitsWith stage ↔ other.GoesWith stage := by
      simp [Line.FitsWith, hother]
    -- The block that the line opens finds one stage more, and has to go with that as well.
    simp only [readLine_of_start_eq_ok_iff hother, hfits]
    show draft.openStage = none ∧ (draft.stages.insert stage).Admits other ∧ _ ↔ _
    rw [StageSet.admits_insert_iff]
    constructor
    · rintro ⟨hclosed, ⟨hadmits, hwith⟩, rfl⟩
      refine ⟨_, ⟨hclosed, hadmits, rfl⟩, hwith.symm, ?_⟩
      simp only [afterBlock, StageSet.insert_comm]
    · rintro ⟨next, ⟨hclosed, hadmits, rfl⟩, hwith, rfl⟩
      refine ⟨hclosed, ⟨hadmits, hwith.symm⟩, ?_⟩
      simp only [afterBlock, StageSet.insert_comm]
  · rw [not_exists] at hstart
    have hfits : (Line.ofText line).FitsWith stage := fun other hother =>
      absurd hother (hstart other)
    rw [(readLine_afterBlock_of_no_start hstart draft stage code).1]
    cases readLine passOver file number seenOnce line draft with
    | error e => simp [Except.map]
    | ok next => simp [Except.map, hfits, eq_comm]

/-- A line leaves room for the block of a stage if there was room before and the line takes none
of it. -/
theorem admits_of_readLine {next : Draft}
    (h : readLine passOver file number seenOnce line draft = .ok next) (stage : Stage) :
    next.stages.Admits stage ↔
      draft.stages.Admits stage ∧ (Line.ofText line).FitsWith stage := by
  by_cases hstart : ∃ other, (Line.ofText line).blockMark? = some (.start other)
  · obtain ⟨other, hother⟩ := hstart
    obtain ⟨-, -, rfl⟩ := (readLine_of_start_eq_ok_iff hother).mp h
    show (draft.stages.insert other).Admits stage ↔ _
    rw [StageSet.admits_insert_iff]
    simp [Line.FitsWith, hother]
  · rw [not_exists] at hstart
    have hfits : (Line.ofText line).FitsWith stage := fun other hother =>
      absurd hother (hstart other)
    rw [(readLine_afterBlock_of_no_start hstart draft stage []).2 next h]
    exact ⟨fun hadmits => ⟨hadmits, hfits⟩, fun hboth => hboth.1⟩

/-- The stage of the block that is open behind a line is told by the line. -/
theorem block_of_readLine {next : Draft}
    (h : readLine passOver file number seenOnce line draft = .ok next) :
    next.block = (Line.ofText line).blockAfter draft.block := by
  cases lineRead_of_readLine h with
  | entered names entered =>
    rw [← Except.ok.inj entered]
    cases hkind : Line.ofText line with
    | fileInclude | once | onceWithArguments | code => rfl
    | anki =>
      rw [hkind] at names
      cases names
  | once kind => rw [kind]; rfl
  | follow kind followed => rw [kind, (cases_of_follow followed).1]
  | code kind => rw [kind, block_pushCode]; rfl

/-! ## 4. Parts of a file -/

theorem readLines_afterBlock_eq_ok_iff :
    readLines passOver file number seenOnce lines (draft.afterBlock stage code) = .ok last ↔
      ∃ next, readLines passOver file number seenOnce lines draft = .ok next ∧
        (∀ line ∈ lines, (Line.ofText line).FitsWith stage) ∧
        last = next.afterBlock stage code := by
  induction lines generalizing number seenOnce draft with
  | nil => simp [readLines, eq_comm]
  | cons line rest ih =>
    simp only [readLines_cons_eq_ok_iff, readLine_afterBlock_eq_ok_iff, List.forall_mem_cons]
    constructor
    · rintro ⟨_, ⟨first, hfirst, hfits, rfl⟩, hrest⟩
      obtain ⟨next, hnext, hfitsRest, rfl⟩ := ih.mp hrest
      exact ⟨next, ⟨first, hfirst, hnext⟩, ⟨hfits, hfitsRest⟩, rfl⟩
    · rintro ⟨next, ⟨first, hfirst, hnext⟩, ⟨hfits, hfitsRest⟩, rfl⟩
      exact ⟨_, ⟨first, hfirst, hfits, rfl⟩, ih.mpr ⟨next, hnext, hfitsRest, rfl⟩⟩

theorem admits_of_readLines {next : Draft}
    (h : readLines passOver file number seenOnce lines draft = .ok next) (stage : Stage) :
    next.stages.Admits stage ↔
      draft.stages.Admits stage ∧ ∀ line ∈ lines, (Line.ofText line).FitsWith stage := by
  induction lines generalizing number seenOnce draft with
  | nil =>
    obtain rfl := Except.ok.inj h
    simp
  | cons line rest ih =>
    obtain ⟨first, hfirst, hrest⟩ := exists_of_readLines_cons h
    rw [ih hrest, admits_of_readLine hfirst, List.forall_mem_cons, and_assoc]

theorem block_of_readLines {next : Draft}
    (h : readLines passOver file number seenOnce lines draft = .ok next) :
    next.block = blockBehind draft.block lines := by
  induction lines generalizing number seenOnce draft with
  | nil => exact Except.ok.inj h ▸ rfl
  | cons line rest ih =>
    obtain ⟨first, hfirst, hrest⟩ := exists_of_readLines_cons h
    rw [ih hrest, block_of_readLine hfirst]
    rfl

theorem blocksSound_of_readLines {next : Draft}
    (h : readLines passOver file number seenOnce lines draft = .ok next)
    (hsound : draft.BlocksSound) : next.BlocksSound :=
  invariant_blocksSound.readLines (fun _ _ _ _ hnext hdraft => Except.ok.inj hnext ▸ hdraft) h
    hsound

/-- Lines that end outside of all blocks come to the same with other numbers. -/
theorem readLines_renumber {next : Draft}
    (h : readLines passOver file number seenOnce lines draft = .ok next)
    (hclosed : next.openStage = none) (number' : Nat) :
    readLines passOver file number' seenOnce lines draft = .ok next := by
  obtain ⟨next', hnext', halike⟩ := exists_alike_of_readLines (entersAlike_passOver [])
    (fun line _ => Line.included?_ne_nil _) (Or.inr ⟨rfl, rfl⟩) (.refl draft) h
  rw [hnext', halike.eq_of_none hclosed]

end

end Draft

/-! ## 5. Blocks -/

/-- The lines of a block of plain code. -/
inductive PlainBlock (stage : Stage) (code : List Text) : List Text → Prop
  | mk (start stop : Text) (opens : (Line.ofText start).blockMark? = some (.start stage))
      (plain : ∀ line ∈ code, Line.ofText line = .code)
      (closes : (Line.ofText stop).blockMark? = some .stop) :
      PlainBlock stage code (start :: (code ++ [stop]))

namespace PlainBlock

variable {stage : Stage} {code block : List Text}

/-- A block of plain code neither includes a file nor bars one. -/
theorem included?_and_isOnce (h : PlainBlock stage code block) :
    ∀ line ∈ block, (Line.ofText line).included? = none ∧ (Line.ofText line).isOnce = false := by
  cases h with
  | mk start stop opens plain closes =>
    obtain ⟨name, hstart, -⟩ := Line.eq_of_start opens
    refine List.forall_mem_cons.mpr ⟨by rw [hstart]; exact ⟨rfl, rfl⟩, ?_⟩
    refine List.forall_mem_append.mpr ⟨fun line hline => ?_, List.forall_mem_singleton.mpr ?_⟩
    · rw [plain line hline]
      exact ⟨rfl, rfl⟩
    · rw [Line.eq_of_stop closes]
      exact ⟨rfl, rfl⟩

theorem hasOnce_eq_false (h : PlainBlock stage code block) : hasOnce block = false := by
  rw [hasOnce, List.any_eq_false]
  intro line hline
  simp [(h.included?_and_isOnce line hline).2]

/-- Whether a file opens others does not depend on its blocks of plain code. -/
theorem opensNothing_around (h : PlainBlock stage code block) (file : Text)
    (before after : List Text) :
    opensNothing file false (before ++ (block ++ after)) =
      opensNothing file false (before ++ after) := by
  have hblock := opensNothing_of_no_includes file (false || hasOnce before)
    fun line hline => (h.included?_and_isOnce line hline).1
  rw [opensNothing_append, opensNothing_append, opensNothing_append, hblock, h.hasOnce_eq_false,
    Bool.or_false, Bool.true_and]

end PlainBlock

namespace Draft

section

variable {enter : (line : Nat) → (name : Text) → Draft → Except ParseError Draft} {file : Text}
  {number : Nat} {seenOnce : Bool} {lines block code : List Text} {draft last : Draft}
  {stage : Stage}

/-- Lines of code in an open block come in front of the code that its stage has. -/
theorem readLines_code {opened : OpenStage} (hcode : ∀ line ∈ code, Line.ofText line = .code)
    (hopen : draft.openStage = some opened) :
    readLines enter file number seenOnce code draft = .ok { draft with
      stageCode := draft.stageCode.modify opened.stage (code.reverse ++ ·) } := by
  induction code generalizing number seenOnce draft with
  | nil =>
    have hsame : draft.stageCode.modify opened.stage ([].reverse ++ ·) = draft.stageCode := by
      cases opened.stage <;> rfl
    rw [hsame, readLines]
  | cons line rest ih =>
    obtain ⟨hline, hrest⟩ := List.forall_mem_cons.mp hcode
    have hpush : draft.pushCode line =
        { draft with stageCode := draft.stageCode.modify opened.stage (line :: ·) } := by
      rw [pushCode, hopen]
    have hstill : (draft.pushCode line).openStage = some opened := by
      rw [pushCode_openStage, hopen]
    rw [readLines_cons, readLine_of_code hline]
    dsimp only
    rw [ih hrest hstill, hpush]
    simp only [PerStage.modify_modify, List.reverse_cons, List.append_assoc, List.singleton_append]

/-- A block is read outside of all others if its stage goes with theirs. -/
theorem readLines_block_eq_ok_iff (hblock : PlainBlock stage code block)
    (hsound : draft.BlocksSound) :
    readLines enter file number seenOnce block draft = .ok last ↔
      draft.openStage = none ∧ draft.stages.Admits stage ∧
        last = draft.afterBlock stage code.reverse := by
  cases hblock with
  | mk start stop opens plain closes =>
    -- What the block comes to once it is open.
    have hinside : draft.openStage = none → draft.stages.Admits stage → ∀ seenOnce,
        readLines enter file (number + 1) seenOnce (code ++ [stop]) { draft with
          stages := draft.stages.insert stage
          openStage := some ⟨stage, file, number⟩ } =
            .ok (draft.afterBlock stage code.reverse) := by
      intro hclosed hadmits seenOnce
      have hempty : draft.stageCode.get stage = [] := hsound.sound.absent stage hadmits.fresh
      have hcode : draft.stageCode.modify stage (code.reverse ++ ·) =
          draft.stageCode.modify stage (· ++ code.reverse) :=
        PerStage.modify_congr (by rw [hempty, List.append_nil, List.nil_append])
      rw [readLines_append, readLines_code plain rfl]
      dsimp only
      rw [readLines_cons, readLine_of_stop closes]
      simp only [Option.isNone_some, Bool.false_eq_true, if_false, readLines, hcode, afterBlock,
        hclosed]
    rw [readLines_cons_eq_ok_iff]
    simp only [readLine_of_start_eq_ok_iff opens]
    constructor
    · rintro ⟨_, ⟨hclosed, hadmits, rfl⟩, hrest⟩
      rw [hinside hclosed hadmits] at hrest
      exact ⟨hclosed, hadmits, (Except.ok.inj hrest).symm⟩
    · rintro ⟨hclosed, hadmits, rfl⟩
      exact ⟨_, ⟨hclosed, hadmits, rfl⟩, hinside hclosed hadmits _⟩

/-- A block of plain code comes to the same in front of lines and behind them, if they start and
end outside of all blocks. -/
theorem readLines_swap (hblock : PlainBlock stage code block) (hsound : draft.BlocksSound)
    (hclosed : draft.openStage = none) (hlines : blockBehind none lines = none) :
    readLines passOver file number seenOnce (block ++ lines) draft = .ok last ↔
      readLines passOver file number seenOnce (lines ++ block) draft = .ok last := by
  have houtside : ∀ {number next}, readLines passOver file number seenOnce lines draft = .ok next →
      next.openStage = none := by
    intro number next hnext
    have hnone : next.block = none := by
      rw [block_of_readLines hnext, Draft.block, hclosed, Option.map_none, hlines]
    exact Option.map_eq_none_iff.mp hnone
  rw [readLines_append_eq_ok_iff, readLines_append_eq_ok_iff, hblock.hasOnce_eq_false,
    Bool.or_false]
  simp only [readLines_block_eq_ok_iff hblock hsound]
  -- In front of the lines the block asks that they fit in with it, behind them that they have left
  -- room for it: by `admits_of_readLines` that is the same.
  constructor
  · rintro ⟨_, ⟨-, hadmits, rfl⟩, hrest⟩
    obtain ⟨next, hnext, hfits, rfl⟩ := readLines_afterBlock_eq_ok_iff.mp hrest
    refine ⟨next, readLines_renumber hnext (houtside hnext) number, ?_⟩
    rw [readLines_block_eq_ok_iff hblock (blocksSound_of_readLines hnext hsound)]
    exact ⟨houtside hnext, (admits_of_readLines hnext stage).mpr ⟨hadmits, hfits⟩, rfl⟩
  · rintro ⟨next, hnext, hrest⟩
    rw [readLines_block_eq_ok_iff hblock (blocksSound_of_readLines hnext hsound)] at hrest
    obtain ⟨-, hadmits, rfl⟩ := hrest
    obtain ⟨hadmits, hfits⟩ := (admits_of_readLines hnext stage).mp hadmits
    refine ⟨_, ⟨hclosed, hadmits, rfl⟩, readLines_afterBlock_eq_ok_iff.mpr ?_⟩
    exact ⟨next, readLines_renumber hnext (houtside hnext) _, hfits, rfl⟩

/-- A block of plain code can be moved over such lines within a file. -/
theorem readLines_moved (hblock : PlainBlock stage code block) {before after : List Text}
    (hbefore : blockBehind none before = none) (hlines : blockBehind none lines = none) :
    readLines passOver file number seenOnce (before ++ (block ++ (lines ++ after))) .empty =
        .ok last ↔
      readLines passOver file number seenOnce (before ++ (lines ++ (block ++ after))) .empty =
        .ok last := by
  have hlength : (block ++ lines).length = (lines ++ block).length := by
    rw [List.length_append, List.length_append, Nat.add_comm]
  have honce : hasOnce (block ++ lines) = hasOnce (lines ++ block) := by
    simp only [hasOnce, List.any_append, Bool.or_comm]
  rw [readLines_append_eq_ok_iff, readLines_append_eq_ok_iff]
  refine exists_congr fun next => and_congr_right fun hnext => ?_
  have hsound : next.BlocksSound := blocksSound_of_readLines hnext blocksSound_empty
  have hnone : next.block = none := (block_of_readLines hnext).trans hbefore
  rw [← List.append_assoc, ← List.append_assoc, readLines_append_eq_ok_iff,
    readLines_append_eq_ok_iff, hlength, honce]
  simp only [readLines_swap hblock hsound (Option.map_eq_none_iff.mp hnone) hlines]

/-- A block of plain code that could be read stands outside of all others. -/
theorem blockBehind_of_readLines {before rest : List Text} (hblock : PlainBlock stage code block)
    (hread : readLines passOver file number seenOnce (before ++ (block ++ rest)) .empty =
      .ok last) : blockBehind none before = none := by
  obtain ⟨next, hnext, hrest⟩ := readLines_append_eq_ok_iff.mp hread
  obtain ⟨behind, hbehind, -⟩ := readLines_append_eq_ok_iff.mp hrest
  have hsound : next.BlocksSound := blocksSound_of_readLines hnext blocksSound_empty
  obtain ⟨hclosed, -⟩ := (readLines_block_eq_ok_iff hblock hsound).mp hbehind
  rw [← show next.block = blockBehind none before from block_of_readLines hnext, Draft.block,
    hclosed, Option.map_none]

end

end Draft

/-! ## 6. Programs -/

namespace Program

/-- In a program of a single file, a stage block of plain code can be moved to any other place
outside of the other blocks, and the program stays the same. -/
theorem read_of_block_moved {reader reader' : FileReader} {settings : Settings}
    {fileName text text' : Text} {program : Program} {stage : Stage}
    {code block before after before' after' : List Text}
    (hread : read reader settings fileName = .ok program)
    (honly : ∀ name, .opens name ∈ events reader fileName → name = fileName)
    (htext : reader fileName = .ok text) (hlines : Text.lines text = before ++ (block ++ after))
    (hblock : PlainBlock stage code block) (hrest : before ++ after = before' ++ after')
    (houtside : blockBehind none before' = none) (htext' : reader' fileName = .ok text')
    (hlines' : Text.lines text' = before' ++ (block ++ after')) :
    read reader' settings fileName = .ok program := by
  obtain ⟨found, draft, hfound, hdraft, hfinish⟩ := exists_of_read hread
  obtain rfl := Except.ok.inj (hfound.symm.trans htext)
  have hnothing := opensNothing_of_read hread htext honly
  rw [Draft.readFile_eq, Draft.readLines_eq_passOver hnothing (by simp), hlines] at hdraft
  have hinside := Draft.blockBehind_of_readLines hblock hdraft
  -- The block is moved over the lines between the two places, in one way or the other.
  have hdraft' : Draft.readLines Draft.passOver fileName 1 false (before' ++ (block ++ after'))
      .empty = .ok draft := by
    rcases List.append_eq_append_iff.mp hrest with ⟨between, rfl, rfl⟩ | ⟨between, rfl, rfl⟩
    · rw [blockBehind_append, hinside] at houtside
      rw [List.append_assoc]
      exact (Draft.readLines_moved hblock hinside houtside).mp hdraft
    · rw [blockBehind_append, houtside] at hinside
      rw [List.append_assoc] at hdraft
      exact (Draft.readLines_moved hblock houtside hinside).mpr hdraft
  have hnothing' : opensNothing fileName false (Text.lines text') = true := by
    rw [hlines', hblock.opensNothing_around, ← hrest, ← hblock.opensNothing_around fileName,
      ← hlines]
    exact hnothing
  rw [read, htext']
  dsimp only
  rw [Draft.readFile_eq, Draft.readLines_eq_passOver hnothing' (by simp), hlines', hdraft']
  exact Draft.finish_eq_ok_iff.mpr (Draft.finish_eq_ok_iff.mp hfinish)

/-- The lines of a file with a vertex block in front of everything else. -/
def kiteBlock : List Text :=
  ["#pragma anki start vert".toList, "void soar();".toList, "#pragma anki end".toList]

def kiteRest : List Text :=
  ["#pragma anki mutator WIND 1 2".toList, "#include \"kite\"".toList,
   "#pragma anki start frag".toList, "#pragma anki input Vec3 tint".toList,
   "#pragma anki end".toList]

/-- A file that bars itself, includes itself, and has the vertex block behind some other lines. -/
def kiteReader (place : Nat) : FileReader :=
  .ofFiles [("kite".toList, Text.unlines ("#pragma once".toList ::
    (kiteRest.take place ++ (kiteBlock ++ kiteRest.drop place))))]

theorem read_of_block_moved_kite :
    ∃ program, read (kiteReader 1) .default "kite".toList = .ok program ∧
      read (kiteReader 5) .default "kite".toList = .ok program := by
  have hok : (read (kiteReader 1) .default "kite".toList).isOk = true := by
    -- A literal is spelled out once, in the goal, and not wherever the evaluation looks at it.
    unfold kiteReader kiteRest kiteBlock
    repeat rewrite [String.toList_ofList]
    decide +kernel
  have hevents : ∀ event ∈ events (kiteReader 1) "kite".toList,
      event.line? = none → event = .opens "kite".toList := by
    unfold kiteReader kiteRest kiteBlock
    repeat rewrite [String.toList_ofList]
    decide +kernel
  have hblock : PlainBlock .vertex ["void soar();".toList] kiteBlock :=
    .mk _ _ (by decide +kernel) (by decide +kernel) (by decide +kernel)
  have hlines : Text.lines (Text.unlines ("#pragma once".toList ::
      (kiteRest.take 1 ++ (kiteBlock ++ kiteRest.drop 1)))) =
        ("#pragma once".toList :: kiteRest.take 1) ++ (kiteBlock ++ kiteRest.drop 1) := by
    unfold kiteRest kiteBlock
    repeat rewrite [String.toList_ofList]
    decide +kernel
  have hlines' : Text.lines (Text.unlines ("#pragma once".toList ::
      (kiteRest.take 5 ++ (kiteBlock ++ kiteRest.drop 5)))) =
        ("#pragma once".toList :: kiteRest.take 5) ++ (kiteBlock ++ kiteRest.drop 5) := by
    unfold kiteRest kiteBlock
    repeat rewrite [String.toList_ofList]
    decide +kernel
  cases hread : read (kiteReader 1) .default "kite".toList with
  | error e =>
    rw [hread] at hok
    cases hok
  | ok program =>
    have hrest : ("#pragma once".toList :: kiteRest.take 1) ++ kiteRest.drop 1 =
        ("#pragma once".toList :: kiteRest.take 5) ++ kiteRest.drop 5 := rfl
    refine ⟨program, rfl, ?_⟩
    exact read_of_block_moved hread (fun name hname => Event.opens.inj (hevents _ hname rfl)) rfl
      hlines hblock hrest (by decide +kernel) rfl hlines'

end Program

end ShaderVariants
