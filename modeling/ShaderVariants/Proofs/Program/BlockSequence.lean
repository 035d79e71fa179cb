import ShaderVariants.Proofs.Program.Reading
import ShaderVariants.Proofs.Program.Stages

/-!
# Sequences of stage blocks

A file of code and stage blocks is read exactly if its directives open and close one block after
another, no stage twice and the compute stage alone (`Program.read_blockSequence`).  Otherwise the
first directive that no block sequence goes on with is reported, or the block that is still open
when the file ends.
-/

namespace ShaderVariants

/-! ## 1. The language of stage blocks -/

/-- A directive that opens or closes a stage block. -/
inductive BlockMark where
  | start (stage : Stage)
  | stop
  deriving Repr, DecidableEq

/-- The well-formed directive that opens or closes a block, if a line is one. -/
def Line.blockMark? : Line → Option BlockMark
  | .anki [word, name] =>
    if word = "start".toList then (Stage.ofName? name).map BlockMark.start else none
  | .anki [word] => if word = "end".toList then some .stop else none
  | _ => none

/-- The openings and closings of blocks among the lines of a file. -/
def blockMarks (lines : List Text) : List BlockMark :=
  lines.filterMap fun line => (Line.ofText line).blockMark?

/-- One block after another, for the given stages. -/
def blocksOf (stages : List Stage) : List BlockMark :=
  stages.flatMap fun stage => [.start stage, .stop]

/-- Stages that a program can have blocks for: none twice, and compute on its own. -/
structure Compatible (stages : List Stage) : Prop where
  distinct : stages.Nodup
  alone : .compute ∈ stages → stages.length = 1

/-- The language of stage blocks. -/
def IsBlocks (marks : List BlockMark) : Prop :=
  ∃ stages, stages ≠ [] ∧ Compatible stages ∧ marks = blocksOf stages

/-- Something can follow so that the whole is a sequence of blocks. -/
def Extendable (marks : List BlockMark) : Prop :=
  ∃ rest, IsBlocks (marks ++ rest)

theorem Extendable.of_append {marks rest : List BlockMark} (h : Extendable (marks ++ rest)) :
    Extendable marks := by
  obtain ⟨more, hblocks⟩ := h
  exact ⟨rest ++ more, List.append_assoc .. ▸ hblocks⟩

theorem IsBlocks.extendable {marks : List BlockMark} (h : IsBlocks marks) : Extendable marks :=
  ⟨[], by rwa [List.append_nil]⟩

theorem blockMarks_append (lines more : List Text) :
    blockMarks (lines ++ more) = blockMarks lines ++ blockMarks more :=
  List.filterMap_append

theorem blocksOf_append (stages more : List Stage) :
    blocksOf (stages ++ more) = blocksOf stages ++ blocksOf more :=
  List.flatMap_append

/-- Blocks can be taken off the front of a sequence of blocks. -/
theorem exists_tail_of_blocksOf {stages all : List Stage} {rest : List BlockMark}
    (h : blocksOf stages ++ rest = blocksOf all) :
    ∃ tail, all = stages ++ tail ∧ rest = blocksOf tail := by
  induction stages generalizing all with
  | nil => exact ⟨all, rfl, h⟩
  | cons stage stages ih =>
    cases all with
    | nil => cases h
    | cons first all =>
      obtain ⟨hfirst, hrest⟩ : BlockMark.start stage = .start first ∧
          blocksOf stages ++ rest = blocksOf all := by
        simpa [blocksOf] using h
      obtain ⟨tail, rfl, htail⟩ := ih hrest
      exact ⟨tail, by rw [BlockMark.start.inj hfirst, List.cons_append], htail⟩

theorem Compatible.of_append {stages more : List Stage} (h : Compatible (stages ++ more)) :
    Compatible stages where
  distinct := (List.nodup_append.mp h.distinct).1
  alone := fun hcompute => by
    have hlength := h.alone (List.mem_append_left more hcompute)
    have hpos := List.length_pos_of_mem hcompute
    rw [List.length_append] at hlength
    omega

theorem compatible_concat_iff {stages : List Stage} {stage : Stage} (h : Compatible stages) :
    Compatible (stages ++ [stage]) ↔
      stage ∉ stages ∧ (stage = .compute → stages = []) ∧
        (stage ≠ .compute → .compute ∉ stages) := by
  constructor
  · intro hall
    have hlength : .compute ∈ stages ++ [stage] → stages = [] := fun hcompute => by
      have hone := hall.alone hcompute
      rw [List.length_append, List.length_singleton] at hone
      exact List.length_eq_zero_iff.mp (by omega)
    refine ⟨?_, ?_, ?_⟩
    · intro hmem
      exact List.disjoint_of_nodup_append hall.distinct hmem (List.mem_singleton_self stage)
    · rintro rfl
      exact hlength (List.mem_append_right _ (List.mem_singleton_self _))
    · intro _ hcompute
      rw [hlength (List.mem_append_left _ hcompute)] at hcompute
      cases hcompute
  · rintro ⟨hfresh, hnone, hgraphics⟩
    constructor
    · exact h.distinct.append (List.nodup_singleton _) (List.disjoint_singleton.mpr hfresh)
    · intro hcompute
      by_cases hstage : stage = .compute
      · rw [hnone hstage]
        rfl
      · rcases List.mem_append.mp hcompute with hold | hnew
        · exact absurd hold (hgraphics hstage)
        · exact absurd (List.mem_singleton.mp hnew).symm hstage

theorem compatible_nil : Compatible [] :=
  ⟨List.nodup_nil, fun h => absurd h List.not_mem_nil⟩

theorem extendable_blocksOf {stages : List Stage} (h : Compatible stages) :
    Extendable (blocksOf stages) := by
  cases stages with
  | nil => exact ⟨blocksOf [.vertex], [.vertex], by decide, ⟨by decide, by decide⟩, rfl⟩
  | cons stage stages =>
    exact ⟨[], stage :: stages, by simp, h, List.append_nil _⟩

/-- A block can be opened behind others exactly if their stages go together. -/
theorem extendable_start_iff {stages : List Stage} {stage : Stage} :
    Extendable (blocksOf stages ++ [.start stage]) ↔ Compatible (stages ++ [stage]) := by
  constructor
  · rintro ⟨rest, all, -, hall, hmarks⟩
    rw [List.append_assoc] at hmarks
    -- What is left of the whole behind the blocks starts with the block that is opened.
    obtain ⟨tail, rfl, htail⟩ := exists_tail_of_blocksOf hmarks
    cases tail with
    | nil => cases htail
    | cons first tail =>
      obtain rfl : stage = first := BlockMark.start.inj (List.cons.inj htail).1
      rw [List.append_cons] at hall
      exact hall.of_append
  · intro h
    refine ⟨[.stop], stages ++ [stage], by simp, h, ?_⟩
    rw [blocksOf_append, List.append_assoc]
    rfl

/-- A block is not closed that is not open. -/
theorem not_extendable_stop (stages : List Stage) :
    ¬ Extendable (blocksOf stages ++ [.stop]) := by
  rintro ⟨rest, all, -, -, hmarks⟩
  rw [List.append_assoc] at hmarks
  obtain ⟨tail, -, htail⟩ := exists_tail_of_blocksOf hmarks
  cases tail <;> cases htail

/-- No block is opened within another one. -/
theorem not_extendable_start_start (stages : List Stage) (outer inner : Stage) :
    ¬ Extendable (blocksOf stages ++ [.start outer] ++ [.start inner]) := by
  rintro ⟨rest, all, -, -, hmarks⟩
  rw [List.append_assoc, List.append_assoc] at hmarks
  obtain ⟨tail, -, htail⟩ := exists_tail_of_blocksOf hmarks
  cases tail <;> cases htail

theorem isBlocks_blocksOf_iff {stages : List Stage} (h : Compatible stages) :
    IsBlocks (blocksOf stages) ↔ stages ≠ [] := by
  constructor
  · rintro ⟨all, hnonempty, -, hmarks⟩ rfl
    cases all with
    | nil => exact hnonempty rfl
    | cons first all => cases hmarks
  · exact fun hnonempty => ⟨stages, hnonempty, h, rfl⟩

theorem not_isBlocks_start (stages : List Stage) (stage : Stage) :
    ¬ IsBlocks (blocksOf stages ++ [.start stage]) := by
  rintro ⟨all, -, -, hmarks⟩
  obtain ⟨tail, -, htail⟩ := exists_tail_of_blocksOf hmarks
  cases tail <;> cases htail

theorem blocksOf_inj {stages all : List Stage} (h : blocksOf stages = blocksOf all) :
    stages = all := by
  rw [← List.append_nil (blocksOf stages)] at h
  obtain ⟨tail, rfl, htail⟩ := exists_tail_of_blocksOf h
  cases tail with
  | nil => rw [List.append_nil]
  | cons first tail => cases htail

/-! ## 2. Lines -/

/-- A line of code, or a well-formed directive that opens or closes a block. -/
def Line.OfBlocks (line : Line) : Prop :=
  line = .code ∨ ∃ mark, line.blockMark? = some mark

instance (line : Line) : Decidable line.OfBlocks :=
  decidable_of_iff (line = .code ∨ line.blockMark?.isSome = true)
    (or_congr_right Option.isSome_iff_exists)

theorem Line.eq_of_start {line : Line} {stage : Stage} (h : line.blockMark? = some (.start stage)) :
    ∃ name, line = .anki ["start".toList, name] ∧ Stage.ofName? name = some stage := by
  rw [blockMark?.eq_def] at h
  split at h
  next word name =>
    split at h
    next hword =>
      obtain ⟨found, hfound, heq⟩ := Option.map_eq_some_iff.mp h
      exact ⟨name, by rw [hword], hfound.trans (congrArg some (BlockMark.start.inj heq))⟩
    · cases h
  · split at h <;> cases h
  · cases h

theorem Line.eq_of_stop {line : Line} (h : line.blockMark? = some .stop) :
    line = .anki ["end".toList] := by
  rw [blockMark?.eq_def] at h
  split at h
  · split at h
    · obtain ⟨found, -, heq⟩ := Option.map_eq_some_iff.mp h
      cases heq
    · cases h
  · split at h
    next hword => rw [hword]
    · cases h
  · cases h

namespace Draft

variable {enter : (line : Nat) → (name : Text) → Draft → Except ParseError Draft} {file : Text}
  {number : Nat} {seenOnce : Bool} {line : Text} {draft : Draft}

theorem readLine_of_code (h : Line.ofText line = .code) :
    readLine enter file number seenOnce line draft = .ok (draft.pushCode line) := by
  rw [readLine, h]

theorem readLine_of_start {stage : Stage}
    (h : (Line.ofText line).blockMark? = some (.start stage)) :
    readLine enter file number seenOnce line draft =
      match draft.startFault? stage with
      | some fault => .error ⟨file, number, .stageNesting fault⟩
      | none => .ok { draft with
          stages := draft.stages.insert stage
          openStage := some ⟨stage, file, number⟩ } := by
  obtain ⟨name, hline, hname⟩ := Line.eq_of_start h
  have hfollow : draft.follow file number ["start".toList, name] =
      draft.readStart file number [name] := by
    rw [follow, if_neg (by decide), if_neg (by decide), if_neg (by decide), if_pos rfl]
  rw [readLine, hline]
  simp only [hfollow, readStart, hname]
  cases draft.startFault? stage <;> rfl

theorem readLine_of_stop (h : (Line.ofText line).blockMark? = some .stop) :
    readLine enter file number seenOnce line draft =
      if draft.openStage.isNone then .error ⟨file, number, .stageNesting .endWithoutStart⟩
      else .ok { draft with openStage := none } := by
  have hfollow : draft.follow file number ["end".toList] = draft.readEnd [] := by
    rw [follow, if_neg (by decide), if_neg (by decide), if_neg (by decide), if_neg (by decide),
      if_pos rfl]
  rw [readLine, Line.eq_of_stop h]
  simp only [hfollow, readEnd, List.isEmpty_nil, Bool.not_true, Bool.false_eq_true, if_false]
  cases draft.openStage <;> rfl

@[simp] theorem pushCode_openStage (draft : Draft) (line : Text) :
    (draft.pushCode line).openStage = draft.openStage := by
  unfold pushCode
  split <;> rfl

@[simp] theorem pushCode_stages (draft : Draft) (line : Text) :
    (draft.pushCode line).stages = draft.stages := by
  unfold pushCode
  split <;> rfl

/-! ## 3. Where reading stands -/

/-- Where reading stands among the blocks of a file after some of its lines: between blocks, or in
the block that the last directive among them has opened. -/
inductive Placed (file : Text) (lines : List Text) (draft : Draft) : Prop
  | outside (stages : List Stage)
      (marks : blockMarks lines = blocksOf stages)
      (fits : Compatible stages)
      (closed : draft.openStage = none)
      (mem : ∀ stage, draft.stages.mem stage = true ↔ stage ∈ stages)
  | inside (stages : List Stage) (stage : Stage) (before : List Text) (line : Text)
      (after : List Text)
      (split : lines = before ++ line :: after)
      (opens : (Line.ofText line).blockMark? = some (.start stage))
      (earlier : blockMarks before = blocksOf stages)
      (later : blockMarks after = [])
      (fits : Compatible (stages ++ [stage]))
      (opened : draft.openStage = some ⟨stage, file, before.length + 1⟩)
      (mem : ∀ other, draft.stages.mem other = true ↔ other ∈ stages ++ [stage])

theorem blockMarks_singleton {mark : BlockMark} (h : (Line.ofText line).blockMark? = some mark) :
    blockMarks [line] = [mark] := by
  simp [blockMarks, h]

theorem blockMarks_of_code (h : Line.ofText line = .code) : blockMarks [line] = [] := by
  simp [blockMarks, h, Line.blockMark?]

theorem blockMarks_of_split {lines before after : List Text} {stages : List Stage} {stage : Stage}
    (split : lines = before ++ line :: after)
    (opens : (Line.ofText line).blockMark? = some (.start stage))
    (earlier : blockMarks before = blocksOf stages) (later : blockMarks after = []) :
    blockMarks lines = blocksOf stages ++ [.start stage] := by
  rw [split, List.append_cons, blockMarks_append, blockMarks_append, earlier, later,
    blockMarks_singleton opens, List.append_nil]

theorem Placed.extendable {lines : List Text} (h : Placed file lines draft) :
    Extendable (blockMarks lines) := by
  cases h with
  | outside stages marks fits =>
    rw [marks]
    exact extendable_blocksOf fits
  | inside stages stage before line after split opens earlier later fits =>
    rw [blockMarks_of_split split opens earlier later]
    exact extendable_start_iff.mpr fits

/-- A line is followed, or it is refused where no sequence of blocks goes on with it. -/
inductive Placed.Next (file : Text) (lines : List Text) (line : Text)
    (outcome : Except ParseError Draft) : Prop
  | followed (next : Draft) (result : outcome = .ok next)
      (placed : Placed file (lines ++ [line]) next)
  | stuck (fault : NestingFault)
      (result : outcome = .error ⟨file, lines.length + 1, .stageNesting fault⟩)
      (bad : ¬ Extendable (blockMarks (lines ++ [line])))

theorem startFault?_eq_none_iff_compatible {stages : List Stage} (fits : Compatible stages)
    (closed : draft.openStage = none)
    (mem : ∀ stage, draft.stages.mem stage = true ↔ stage ∈ stages) (stage : Stage) :
    draft.startFault? stage = none ↔ Compatible (stages ++ [stage]) := by
  rw [startFault?_eq_none_iff, compatible_concat_iff fits, ← mem, ← mem, Bool.not_eq_true,
    Bool.not_eq_true, List.eq_nil_iff_forall_not_mem]
  simp only [closed, true_and, ← mem, Bool.not_eq_true]

/-- Code does not change where reading stands. -/
theorem Placed.code {lines : List Text} (h : Placed file lines draft)
    (hline : Line.ofText line = .code) : Placed file (lines ++ [line]) (draft.pushCode line) := by
  have hquiet : ∀ part, blockMarks (part ++ [line]) = blockMarks part := fun part => by
    rw [blockMarks_append, blockMarks_of_code hline, List.append_nil]
  cases h with
  | outside stages marks fits closed mem =>
    exact .outside stages ((hquiet lines).trans marks) fits (by simpa using closed)
      (by simpa using mem)
  | inside stages stage before first after split opens earlier later fits opened mem =>
    refine .inside stages stage before first (after ++ [line]) ?_ opens earlier
      ((hquiet after).trans later) fits (by simpa using opened) (by simpa using mem)
    rw [split, List.append_assoc, List.cons_append]

/-- A line that opens a block is followed exactly if some sequence of blocks goes on with it. -/
theorem Placed.start {lines : List Text} {stage : Stage} (h : Placed file lines draft)
    (hline : (Line.ofText line).blockMark? = some (.start stage)) :
    Placed.Next file lines line
      (readLine enter file (lines.length + 1) seenOnce line draft) := by
  have hmarks : blockMarks (lines ++ [line]) = blockMarks lines ++ [.start stage] := by
    rw [blockMarks_append, blockMarks_singleton hline]
  rw [readLine_of_start hline]
  cases h with
  | outside stages marks fits closed mem =>
    have hfits := startFault?_eq_none_iff_compatible fits closed mem stage
    cases hfault : draft.startFault? stage with
    | some fault =>
      refine .stuck fault rfl ?_
      rw [hmarks, marks, extendable_start_iff, ← hfits, hfault]
      exact Option.some_ne_none fault
    | none =>
      refine .followed _ rfl ?_
      refine .inside stages stage lines line [] rfl hline marks rfl (hfits.mp hfault) rfl ?_
      intro other
      rw [StageSet.mem_insert, Bool.or_eq_true, mem, decide_eq_true_eq, List.mem_append,
        List.mem_singleton, @eq_comm _ stage other]
  | inside stages outer before first after split opens earlier later fits opened mem =>
    have hfault : draft.startFault? stage = some (.startInside stage.name outer.name) := by
      rw [startFault?, opened]
    rw [hfault]
    refine .stuck _ rfl ?_
    rw [hmarks, blockMarks_of_split split opens earlier later]
    exact not_extendable_start_start stages outer stage

/-- A line that closes a block is followed exactly if some sequence of blocks goes on with it. -/
theorem Placed.stop {lines : List Text} (h : Placed file lines draft)
    (hline : (Line.ofText line).blockMark? = some .stop) :
    Placed.Next file lines line
      (readLine enter file (lines.length + 1) seenOnce line draft) := by
  have hmarks : blockMarks (lines ++ [line]) = blockMarks lines ++ [.stop] := by
    rw [blockMarks_append, blockMarks_singleton hline]
  rw [readLine_of_stop hline]
  cases h with
  | outside stages marks fits closed mem =>
    rw [closed]
    refine .stuck _ rfl ?_
    rw [hmarks, marks]
    exact not_extendable_stop stages
  | inside stages stage before first after split opens earlier later fits opened mem =>
    rw [opened]
    refine .followed _ rfl (.outside (stages ++ [stage]) ?_ fits rfl mem)
    rw [hmarks, blockMarks_of_split split opens earlier later, blocksOf_append,
      List.append_assoc]
    rfl

theorem Placed.readLine {lines : List Text} (h : Placed file lines draft)
    (hline : (Line.ofText line).OfBlocks) :
    Placed.Next file lines line
      (readLine enter file (lines.length + 1) seenOnce line draft) := by
  rcases hline with hcode | ⟨mark, hmark⟩
  · exact .followed _ (readLine_of_code hcode) (h.code hcode)
  · cases mark with
    | start stage => exact h.start hmark
    | stop => exact h.stop hmark

/-- Reading goes on as long as some sequence of blocks does. -/
theorem Placed.readLines {lines more : List Text} (h : Placed file lines draft)
    (hmore : ∀ line ∈ more, (Line.ofText line).OfBlocks) :
    (∃ last, readLines enter file (lines.length + 1) seenOnce more draft = .ok last ∧
      Placed file (lines ++ more) last) ∨
    ∃ before line after fault, more = before ++ line :: after ∧
      Extendable (blockMarks (lines ++ before)) ∧
      ¬ Extendable (blockMarks (lines ++ before ++ [line])) ∧
      readLines enter file (lines.length + 1) seenOnce more draft =
        .error ⟨file, (lines ++ before).length + 1, .stageNesting fault⟩ := by
  induction more generalizing lines draft seenOnce with
  | nil => exact Or.inl ⟨draft, rfl, by rwa [List.append_nil]⟩
  | cons line rest ih =>
    obtain ⟨hline, hrest⟩ := List.forall_mem_cons.mp hmore
    rw [readLines_cons]
    rcases h.readLine hline with ⟨next, hnext, hplaced⟩ | ⟨fault, hfault, hstuck⟩
    · rw [hnext, show lines.length + 1 = (lines ++ [line]).length by simp]
      -- The line has been read, so it counts among those before the rest.
      rcases ih hplaced hrest with
        ⟨last, hlast, hend⟩ | ⟨before, bad, after, fault, rfl, hgood, hbad, hfault⟩
      · exact Or.inl ⟨last, hlast, by rwa [List.append_cons]⟩
      · rw [← List.append_cons] at hgood hbad hfault
        exact Or.inr ⟨line :: before, bad, after, fault, rfl, hgood, hbad, hfault⟩
    · rw [hfault]
      refine Or.inr ⟨[], line, rest, fault, rfl, ?_, ?_, ?_⟩
      · rw [List.append_nil]
        exact h.extendable
      · rwa [List.append_nil]
      · rw [List.append_nil]

theorem placed_empty (file : Text) : Placed file [] .empty :=
  .outside [] rfl compatible_nil rfl (by simp [empty])

end Draft

/-! ## 4. Files -/

/-- What becomes of a file of code and stage blocks. -/
inductive BlockOutcome (fileName : Text) (lines : List Text) (outcome : Except ParseError Program) :
    Prop
  | accepted (stages : List Stage) (nonempty : stages ≠ []) (fits : Compatible stages)
      (marks : blockMarks lines = blocksOf stages) (program : Program)
      (result : outcome = .ok program)
      (mem : ∀ stage, program.stages.mem stage = true ↔ stage ∈ stages)
  | blank (marks : blockMarks lines = [])
      (result : outcome = .error ⟨fileName, max 1 lines.length, .noStages⟩)
  | unclosed (stages : List Stage) (stage : Stage) (before : List Text) (line : Text)
      (after : List Text) (split : lines = before ++ line :: after)
      (opens : (Line.ofText line).blockMark? = some (.start stage))
      (later : blockMarks after = [])
      (fits : Compatible (stages ++ [stage]))
      (marks : blockMarks lines = blocksOf stages ++ [.start stage])
      (result : outcome =
        .error ⟨fileName, before.length + 1, .stageNesting (.neverClosed stage.name)⟩)
  | stuck (before : List Text) (line : Text) (after : List Text) (fault : NestingFault)
      (split : lines = before ++ line :: after)
      (good : Extendable (blockMarks before))
      (bad : ¬ Extendable (blockMarks (before ++ [line])))
      (result : outcome = .error ⟨fileName, before.length + 1, .stageNesting fault⟩)

section

variable {reader : FileReader} {settings : Settings} {fileName text : Text}

theorem Draft.Placed.finish {lines : List Text} {draft : Draft}
    (h : Draft.Placed fileName lines draft) :
    BlockOutcome fileName lines (draft.finish fileName (max 1 lines.length) settings) := by
  cases h with
  | outside stages marks fits closed mem =>
    cases stages with
    | nil =>
      have hempty : draft.stages.isEmpty = true := by
        rw [StageSet.isEmpty_iff]
        intro stage
        exact Bool.eq_false_iff.mpr fun hmem => List.not_mem_nil ((mem stage).mp hmem)
      rw [Draft.finish, closed]
      dsimp only
      rw [if_pos hempty]
      exact .blank marks rfl
    | cons stage stages =>
      have hnonempty : draft.stages.isEmpty = false := by
        rw [Bool.eq_false_iff, ne_eq, StageSet.isEmpty_iff]
        intro hempty
        have habsent := hempty stage
        rw [(mem stage).mpr List.mem_cons_self] at habsent
        cases habsent
      have hfinish : draft.finish fileName (max 1 lines.length) settings =
          .ok (draft.toProgram fileName settings) :=
        Draft.finish_eq_ok_iff.mpr ⟨closed, hnonempty, rfl⟩
      exact .accepted (stage :: stages) (List.cons_ne_nil stage stages) fits marks _ hfinish mem
  | inside stages stage before line after split opens earlier later fits opened mem =>
    rw [Draft.finish, opened]
    exact .unclosed stages stage before line after split opens later fits
      (Draft.blockMarks_of_split split opens earlier later) rfl

theorem Program.blockOutcome_read (htext : reader fileName = .ok text)
    (hlines : ∀ line ∈ Text.lines text, (Line.ofText line).OfBlocks) :
    BlockOutcome fileName (Text.lines text) (Program.read reader settings fileName) := by
  rw [Program.read, htext]
  dsimp only
  rw [Draft.readFile_eq]
  rcases (Draft.placed_empty fileName).readLines hlines with
    ⟨last, hlast, hplaced⟩ | ⟨before, line, after, fault, hsplit, hgood, hbad, hfault⟩
  · rw [List.length_nil, Nat.zero_add] at hlast
    rw [hlast]
    exact hplaced.finish
  · rw [List.length_nil, Nat.zero_add] at hfault
    rw [hfault]
    exact .stuck before line after fault hsplit hgood hbad rfl

namespace BlockOutcome

variable {lines : List Text} {outcome : Except ParseError Program}

theorem not_extendable {before after : List Text} {line : Text}
    (split : lines = before ++ line :: after)
    (bad : ¬ Extendable (blockMarks (before ++ [line]))) : ¬ Extendable (blockMarks lines) := by
  rw [split, List.append_cons, blockMarks_append]
  exact fun h => bad h.of_append

theorem ok_iff (h : BlockOutcome fileName lines outcome) :
    (∃ program, outcome = .ok program) ↔ IsBlocks (blockMarks lines) := by
  cases h with
  | accepted stages nonempty fits marks program result =>
    rw [marks]
    exact ⟨fun _ => (isBlocks_blocksOf_iff fits).mpr nonempty, fun _ => ⟨program, result⟩⟩
  -- No block at all is not a sequence of blocks, although one can follow.
  | blank marks result =>
    have hno : ¬ IsBlocks (blockMarks lines) := by
      rw [marks]
      exact fun h => (isBlocks_blocksOf_iff compatible_nil).mp h rfl
    simp [result, hno]
  | unclosed stages stage before line after split opens later fits marks result =>
    simp [result, marks, not_isBlocks_start]
  | stuck before line after fault split good bad result =>
    simp [result, mt IsBlocks.extendable (not_extendable split bad)]

theorem mem_iff (h : BlockOutcome fileName lines outcome) {program : Program}
    (hprogram : outcome = .ok program) {stages : List Stage}
    (hmarks : blockMarks lines = blocksOf stages) (stage : Stage) :
    program.stages.mem stage = true ↔ stage ∈ stages := by
  cases h with
  | accepted found nonempty fits marks other result mem =>
    rw [result] at hprogram
    obtain rfl := Except.ok.inj hprogram
    obtain rfl := blocksOf_inj (marks.symm.trans hmarks)
    exact mem stage
  | blank _ result | unclosed _ _ _ _ _ _ _ _ _ _ result | stuck _ _ _ _ _ _ _ result =>
    rw [result] at hprogram
    cases hprogram

theorem noStages (h : BlockOutcome fileName lines outcome) (hmarks : blockMarks lines = []) :
    outcome = .error ⟨fileName, max 1 lines.length, .noStages⟩ := by
  cases h with
  | accepted stages nonempty fits marks =>
    rw [hmarks] at marks
    exact absurd (@blocksOf_inj [] stages marks).symm nonempty
  | blank _ result => exact result
  | unclosed _ _ _ _ _ _ _ _ _ marks =>
    rw [hmarks] at marks
    simp at marks
  | stuck before line after fault split good bad =>
    have hnot := not_extendable split bad
    rw [hmarks] at hnot
    exact absurd (extendable_blocksOf compatible_nil) hnot

/-- The first line that no sequence of blocks goes on with is the one that is reported. -/
theorem stuck_at (h : BlockOutcome fileName lines outcome) {number : Nat}
    (hgood : ∀ earlier < number, Extendable (blockMarks (lines.take earlier)))
    (hbad : ¬ Extendable (blockMarks (lines.take number))) :
    ∃ fault, outcome = .error ⟨fileName, number, .stageNesting fault⟩ := by
  have htake : ∀ {part : List Text}, Extendable (blockMarks part) →
      ∀ count, Extendable (blockMarks (part.take count)) := by
    intro part hpart count
    rw [← List.take_append_drop count part, blockMarks_append] at hpart
    exact hpart.of_append
  cases h with
  | accepted stages nonempty fits marks =>
    exact absurd (htake (marks ▸ extendable_blocksOf fits) number) hbad
  | blank marks =>
    have hempty : Extendable [] := extendable_blocksOf compatible_nil
    exact absurd (htake (marks ▸ hempty) number) hbad
  | unclosed _ _ _ _ _ _ _ _ fits marks =>
    exact absurd (htake (marks ▸ extendable_start_iff.mpr fits) number) hbad
  | stuck before line after fault split good bad result =>
    refine ⟨fault, ?_⟩
    -- The prefixes in front of the line can be extended, and those that hold it cannot.
    have hafter : ¬ number ≤ before.length := fun hle => by
      rw [split, List.take_append_of_le_length hle] at hbad
      exact hbad (htake good number)
    have hbefore : ¬ before.length + 1 < number := fun hlt => by
      have hnext := hgood _ hlt
      rw [split, List.append_cons, List.take_left' (by simp)] at hnext
      exact bad hnext
    rw [result, show number = before.length + 1 by omega]

theorem unclosed_at (h : BlockOutcome fileName lines outcome)
    (hextends : Extendable (blockMarks lines)) (hsome : blockMarks lines ≠ [])
    (hopen : ¬ IsBlocks (blockMarks lines)) :
    ∃ before line after stage, lines = before ++ line :: after ∧
      (Line.ofText line).blockMark? = some (.start stage) ∧ blockMarks after = [] ∧
      outcome = .error ⟨fileName, before.length + 1, .stageNesting (.neverClosed stage.name)⟩ := by
  cases h with
  | accepted stages nonempty fits marks =>
    rw [marks] at hopen
    exact absurd ((isBlocks_blocksOf_iff fits).mpr nonempty) hopen
  | blank marks => exact absurd marks hsome
  | unclosed stages stage before line after split opens later _ _ result =>
    exact ⟨before, line, after, stage, split, opens, later, result⟩
  | stuck before line after fault split good bad =>
    exact absurd hextends (not_extendable split bad)

end BlockOutcome

/-- A file of code and of directives that open and close blocks is read exactly if these form a
sequence of blocks, and the program has the stages of the blocks.  Otherwise there is no block at
all, or a first line that no sequence of blocks goes on with, or a block that is open at the end. -/
theorem Program.read_blockSequence (settings : Settings) (htext : reader fileName = .ok text)
    (hlines : ∀ line ∈ Text.lines text, (Line.ofText line).OfBlocks) :
    ((∃ program, Program.read reader settings fileName = .ok program) ↔
      IsBlocks (blockMarks (Text.lines text))) ∧
    (∀ program, Program.read reader settings fileName = .ok program →
      ∀ stages, blockMarks (Text.lines text) = blocksOf stages →
        ∀ stage, program.stages.mem stage = true ↔ stage ∈ stages) ∧
    (blockMarks (Text.lines text) = [] → Program.read reader settings fileName =
      .error ⟨fileName, max 1 (Text.lines text).length, .noStages⟩) ∧
    (∀ number, (∀ earlier < number, Extendable (blockMarks ((Text.lines text).take earlier))) →
      ¬ Extendable (blockMarks ((Text.lines text).take number)) →
      ∃ fault, Program.read reader settings fileName =
        .error ⟨fileName, number, .stageNesting fault⟩) ∧
    (Extendable (blockMarks (Text.lines text)) → blockMarks (Text.lines text) ≠ [] →
      ¬ IsBlocks (blockMarks (Text.lines text)) →
      ∃ before line after stage, Text.lines text = before ++ line :: after ∧
        (Line.ofText line).blockMark? = some (.start stage) ∧ blockMarks after = [] ∧
        Program.read reader settings fileName =
          .error ⟨fileName, before.length + 1, .stageNesting (.neverClosed stage.name)⟩) := by
  have h : BlockOutcome fileName (Text.lines text) (Program.read reader settings fileName) :=
    Program.blockOutcome_read htext hlines
  refine ⟨h.ok_iff, ?_, h.noStages, ?_, h.unclosed_at⟩
  · intro program hprogram stages hmarks stage
    exact h.mem_iff hprogram hmarks stage
  · intro number hgood hbad
    exact h.stuck_at hgood hbad

end

/-- A file with a vertex and a fragment block, and code inside and outside of them. -/
def jettyFile : Text :=
  Text.unlines
    ["#pragma anki start vert".toList, "void moor();".toList, "#pragma anki end".toList,
     "#define PLANKS 2".toList, "  #pragma anki start frag".toList, "#pragma anki end".toList]

theorem Program.read_blockSequence_jetty :
    FileReader.ofFiles [("jetty".toList, jettyFile)] "jetty".toList = .ok jettyFile ∧
      (∀ line ∈ Text.lines jettyFile, (Line.ofText line).OfBlocks) ∧
      ∃ program, Program.read (.ofFiles [("jetty".toList, jettyFile)]) .default "jetty".toList =
          .ok program ∧
        ∀ stage, program.stages.mem stage = true ↔ stage ∈ [Stage.vertex, .fragment] := by
  have hfile : FileReader.ofFiles [("jetty".toList, jettyFile)] "jetty".toList =
      .ok jettyFile :=
    rfl
  have hlines : ∀ line ∈ Text.lines jettyFile, (Line.ofText line).OfBlocks := by
    -- A literal is spelled out once, in the goal, and not wherever the evaluation looks at it.
    unfold jettyFile
    repeat rewrite [String.toList_ofList]
    decide +kernel
  have hmarks : blockMarks (Text.lines jettyFile) = blocksOf [.vertex, .fragment] := by
    unfold jettyFile
    repeat rewrite [String.toList_ofList]
    decide +kernel
  have h := Program.read_blockSequence .default hfile hlines
  obtain ⟨program, hread⟩ := h.1.mpr
    ⟨[.vertex, .fragment], by decide, ⟨by decide, by decide⟩, hmarks⟩
  exact ⟨hfile, hlines, program, hread, h.2.1 program hread _ hmarks⟩

end ShaderVariants
