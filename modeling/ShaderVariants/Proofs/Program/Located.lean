import ShaderVariants.Proofs.Program.BlockSequence
import ShaderVariants.Proofs.Program.Standing

/-!
# Where faults are found

The error of a reading that fails points at a line of a file that include lines lead to, and what
is wrong with a line of an included file keeps the place of that line on its way out of all the
files above it (`Program.read_error_located`).
-/

namespace ShaderVariants

/-- Whether a file that is included is to blame, and not the line itself. -/
def Cause.blamesInclude : Cause → Bool
  | .unreadable _ _ | .tooDeep _ => true
  | _ => false

/-- A file is named by its include line or not at all, and then the line is to blame. -/
theorem Include.blamesInclude_target {tokens : List Text} {cause : Cause}
    (h : target tokens = .error cause) : cause.blamesInclude = false := by
  rw [target.eq_def] at h
  split at h
  · split at h
    · cases h
    · exact Except.error.inj h ▸ rfl
  · exact Except.error.inj h ▸ rfl

namespace Draft

variable {draft : Draft} {cause : Cause}

/-! ## 1. Directives -/

theorem blamesInclude_readMutator {tokens : List Text}
    (h : draft.readMutator tokens = .error cause) : cause.blamesInclude = false := by
  rw [readMutator] at h
  split at h
  · exact Except.error.inj h ▸ rfl
  rw [declareMutator] at h
  split at h
  · exact Except.error.inj h ▸ rfl
  split at h
  · exact Except.error.inj h ▸ rfl
  split at h
  · exact Except.error.inj h ▸ rfl
  split at h
  · exact Except.error.inj h ▸ rfl
  · cases h

theorem blamesInclude_readQualifiers {constant instanced : Bool} {tokens : List Text}
    (h : readQualifiers constant instanced tokens = .error cause) :
    cause.blamesInclude = false := by
  induction tokens generalizing constant instanced with
  | nil => cases h
  | cons token rest ih =>
    rw [readQualifiers] at h
    split at h
    · split at h
      · exact Except.error.inj h ▸ rfl
      · exact ih h
    split at h
    · split at h
      · exact Except.error.inj h ▸ rfl
      · exact ih h
    · cases h

theorem blamesInclude_readInput {tokens : List Text} (h : draft.readInput tokens = .error cause) :
    cause.blamesInclude = false := by
  rw [readInput.eq_def] at h
  split at h
  next hqualifiers =>
    exact Except.error.inj h ▸ blamesInclude_readQualifiers hqualifiers
  next =>
    rw [declareInput] at h
    split at h
    · exact Except.error.inj h ▸ rfl
    split at h
    · exact Except.error.inj h ▸ rfl
    split at h
    · exact Except.error.inj h ▸ rfl
    split at h
    · exact Except.error.inj h ▸ rfl
    split at h
    · exact Except.error.inj h ▸ rfl
    · cases h
  · exact Except.error.inj h ▸ rfl

/-- No directive blames an include. -/
theorem blamesInclude_follow {file : Text} {number : Nat} {tokens : List Text}
    (h : draft.follow file number tokens = .error cause) : cause.blamesInclude = false := by
  -- One case for each word a directive can start with, in the order in which they are tried.
  rw [follow.eq_def] at h
  split at h
  · exact Except.error.inj h ▸ rfl
  split at h
  · exact blamesInclude_readMutator h
  split at h
  · rw [readRewrite] at h
    split at h
    · exact Except.error.inj h ▸ rfl
    · cases h
  split at h
  · exact blamesInclude_readInput h
  split at h
  · rw [readStart.eq_def] at h
    split at h
    · split at h
      · exact Except.error.inj h ▸ rfl
      split at h
      · exact Except.error.inj h ▸ rfl
      · cases h
    · exact Except.error.inj h ▸ rfl
  split at h
  · rw [readEnd] at h
    split at h
    · exact Except.error.inj h ▸ rfl
    split at h
    · exact Except.error.inj h ▸ rfl
    · cases h
  split at h
  · rw [readDescriptorSet.eq_def] at h
    split at h
    · exact Except.error.inj h ▸ rfl
    split at h
    · split at h
      · exact Except.error.inj h ▸ rfl
      · cases h
    · cases h
  · exact Except.error.inj h ▸ rfl

/-- Where an include is to blame, the line includes the file that could not be opened. -/
theorem Raises.resolve_of_blamesInclude {reader : FileReader} {depth : Nat} {file line : Text}
    {before : List Text} (h : Raises reader depth file before line draft cause)
    (hblames : cause.blamesInclude = true) :
    ∃ name, (Line.ofText line).included? = some name ∧
      Include.resolve reader draft.once (Include.room (depth + 1)) name = .error cause := by
  cases h with
  | target kind malformed => simp [Include.blamesInclude_target malformed] at hblames
  | resolve names refused => exact ⟨_, names, refused⟩
  | once | onceArguments => cases hblames
  | follow kind refused => simp [blamesInclude_follow refused] at hblames

/-! ## 2. Open blocks -/

/-- A block that is open behind a part of a reading was open before it or has been opened by one
of its lines. -/
def OpensBlocks (draft : Draft) (events : List Event) (outcome : Except ParseError Draft) : Prop :=
  ∀ next, outcome = .ok next → ∀ block, next.openStage = some block →
    draft.openStage = some block ∨ ∃ line, .reads block.file block.line line ∈ events

theorem opensBlocks_of_openStage_eq {next : Draft} {events : List Event}
    (h : next.openStage = draft.openStage) : OpensBlocks draft events (.ok next) := by
  intro last hlast block hblock
  obtain rfl := Except.ok.inj hlast
  exact Or.inl (h ▸ hblock)

theorem OpensBlocks.behind {events : List Event} {outcome : Except ParseError Draft}
    (h : OpensBlocks draft events outcome) (earlier : List Event) :
    OpensBlocks draft (earlier ++ events) outcome := by
  intro next hnext block hblock
  refine (h next hnext block hblock).imp_right ?_
  rintro ⟨line, hline⟩
  exact ⟨line, List.mem_append_right earlier hline⟩

theorem opensBlocks_of_step {file line : Text} {number : Nat} {next : Draft}
    (h : Step draft file number next) :
    OpensBlocks draft [.reads file number line] (.ok next) := by
  cases h with
  | @input constant instanced type name new =>
    refine opensBlocks_of_openStage_eq ?_
    rw [addInput]
    simp
  | openStage free =>
    intro last hlast block hblock
    obtain rfl := Except.ok.inj hlast
    obtain rfl := Option.some.inj hblock
    exact Or.inr ⟨line, List.mem_singleton_self _⟩
  | closeStage isOpen =>
    intro last hlast block hblock
    obtain rfl := Except.ok.inj hlast
    cases hblock
  | mutator | rewrite | firstSet | sameSet => exact opensBlocks_of_openStage_eq rfl

theorem traceable_opensBlocks (reader : FileReader) : Traceable reader OpensBlocks where
  nil := fun draft => opensBlocks_of_openStage_eq rfl
  append := by
    intro draft events next events' outcome hfirst hsecond last hlast block hblock
    rcases hsecond last hlast block hblock with hopen | ⟨line, hline⟩
    · refine (hfirst next rfl block hopen).imp_right ?_
      rintro ⟨line, hline⟩
      exact ⟨line, List.mem_append_left _ hline⟩
    · exact Or.inr ⟨line, List.mem_append_right _ hline⟩
  fault := fun draft file number line cause next hnext => by cases hnext
  once := fun draft file number line kind => opensBlocks_of_openStage_eq rfl
  follow := fun draft file number line tokens next kind hfollow =>
    opensBlocks_of_step (step_of_follow hfollow)
  code := fun draft file number line kind =>
    opensBlocks_of_openStage_eq (pushCode_openStage draft line)
  skip := fun draft file number line name names honce => opensBlocks_of_openStage_eq rfl
  unreadable := fun draft file number line name cause names honce next hnext => by cases hnext
  enter := fun draft file number line name room included names honce found hfile =>
    hfile.behind [.reads file number line, .opens name]

end Draft

/-! ## 3. Programs -/

namespace Program

variable {reader : FileReader} {settings : Settings} {root : Text}

/-- A block that is still open where the root ends was opened by a line that was read. -/
theorem exists_stands_of_openStage {text : Text} {draft : Draft} {block : OpenStage}
    (found : reader root = .ok text)
    (hdraft : Draft.restAt reader 0 root [] (Text.lines text) .empty = .ok draft)
    (hblock : draft.openStage = some block) :
    ∃ depth before line rest draft,
      Stands reader root depth block.file before (line :: rest) draft ∧
        block.line = before.length + 1 := by
  have hopens := (Draft.traceable_opensBlocks reader).readLines_self (Include.room 1) root 1 false
    (Text.lines text) .empty
  rcases hopens draft hdraft block hblock with hopen | ⟨line, hline⟩
  · cases hopen
  · have hevent : .reads block.file block.line line ∈ events reader root := by
      rw [events_eq found]
      exact List.mem_cons_of_mem _ hline
    obtain ⟨depth, before, rest, draft, hstands, hnumber⟩ := exists_stands_of_mem_events hevent
    exact ⟨depth, before, line, rest, draft, hstands, hnumber⟩

/-- The ways in which reading can fail, and where each of them is found. -/
inductive Fails (reader : FileReader) (root : Text) : ParseError → Prop
  | unreadable {reason : Text} (missing : reader root = .error reason) :
      Fails reader root ⟨root, 0, .unreadable root reason⟩
  | raised {depth : Nat} {file line : Text} {before rest : List Text} {draft : Draft}
      {cause : Cause} (stands : Stands reader root depth file before (line :: rest) draft)
      (raises : Draft.Raises reader depth file before line draft cause) :
      Fails reader root ⟨file, before.length + 1, cause⟩
  | neverClosed {depth : Nat} {file line : Text} {before rest : List Text} {draft : Draft}
      {stage : Text} (stands : Stands reader root depth file before (line :: rest) draft) :
      Fails reader root ⟨file, before.length + 1, .stageNesting (.neverClosed stage)⟩
  | noStages {text : Text} (found : reader root = .ok text) :
      Fails reader root ⟨root, max 1 (Text.lines text).length, .noStages⟩

theorem fails_of_read {e : ParseError} (h : read reader settings root = .error e) :
    Fails reader root e := by
  rcases cases_of_read_eq_error h with ⟨reason, missing, rfl⟩ |
    ⟨text, found, hrest | ⟨draft, hdraft, hfinish⟩⟩
  · exact .unreadable missing
  · obtain ⟨depth, file, before, line, rest, draft, cause, stands, raises, rfl⟩ :=
      (Stands.root found).exists_raises hrest
    exact .raised stands raises
  · rw [Draft.finish] at hfinish
    split at hfinish
    next block hblock =>
      obtain ⟨depth, before, line, rest, draft', stands, hnumber⟩ :=
        exists_stands_of_openStage found hdraft hblock
      rw [hnumber] at hfinish
      exact Except.error.inj hfinish ▸ .neverClosed stands
    · split at hfinish
      · exact Except.error.inj hfinish ▸ .noStages found
      · cases hfinish

/-- A line that reading stands at is a line of a file that include lines lead to. -/
theorem Stands.exists_line {depth : Nat} {file line : Text} {before rest : List Text}
    {draft : Draft} (h : Stands reader root depth file before (line :: rest) draft) :
    ∃ text, reader file = .ok text ∧ (Text.lines text)[before.length]? = some line ∧
      before.length + 1 ≤ (Text.lines text).length := by
  obtain ⟨text, found, hlines⟩ := h.exists_text
  refine ⟨text, found, ?_, ?_⟩
  · rw [hlines, List.getElem?_append_right (Nat.le_refl _), Nat.sub_self]
    rfl
  · rw [hlines, List.length_append, List.length_cons]
    omega

/-- The error of a reading that fails points at line zero of a root that cannot be read, or at a
line of a file that include lines lead to from the root; only for a root without lines there is no
such line.  What is wrong with a line is reported at that line, in whatever file below the root it
stands; what is wrong with a file that cannot be read or is too deep is wrong with the line that
includes it. -/
theorem read_error_located (reader : FileReader) (settings : Settings) (root : Text) :
    (∀ e, read reader settings root = .error e →
      (∃ reason, reader root = .error reason ∧ e = ⟨root, 0, .unreadable root reason⟩) ∨
      ∃ steps text, reader.Leads root steps e.file ∧ reader e.file = .ok text ∧
        (1 ≤ e.line ∧ e.line ≤ (Text.lines text).length ∨
          e.file = root ∧ Text.lines text = [] ∧ e.line = 1 ∧ e.cause = .noStages)) ∧
    (∀ depth file before line rest draft cause,
      Stands reader root depth file before (line :: rest) draft →
      Draft.Raises reader depth file before line draft cause →
      read reader settings root = .error ⟨file, before.length + 1, cause⟩) ∧
    (∀ e name, read reader settings root = .error e →
      e.cause = .tooDeep name ∨ (∃ reason, e.cause = .unreadable name reason ∧ e.line ≠ 0) →
      ∃ text line, reader e.file = .ok text ∧ (Text.lines text)[e.line - 1]? = some line ∧
        (Line.ofText line).included? = some name) := by
  refine ⟨fun e he => ?_, fun _ _ _ _ _ _ _ hstands hraises => hstands.read_of_raises hraises,
    fun e name he hcause => ?_⟩
  · cases fails_of_read he with
    | unreadable missing => exact Or.inl ⟨_, missing, rfl⟩
    | raised stands raises =>
      obtain ⟨text, found, -, hle⟩ := stands.exists_line
      exact Or.inr ⟨_, text, stands.leads, found, Or.inl ⟨Nat.succ_pos _, hle⟩⟩
    | neverClosed stands =>
      obtain ⟨text, found, -, hle⟩ := stands.exists_line
      exact Or.inr ⟨_, text, stands.leads, found, Or.inl ⟨Nat.succ_pos _, hle⟩⟩
    | @noStages text found =>
      refine Or.inr ⟨0, text, .root, found, ?_⟩
      cases hlines : Text.lines text with
      | nil => exact Or.inr ⟨rfl, rfl, rfl, rfl⟩
      | cons line rest => exact Or.inl ⟨Nat.le_max_left .., by simp⟩
  · have hblames : e.cause.blamesInclude = true := by
      rcases hcause with hcause | ⟨reason, hcause, -⟩
      · rw [hcause]
        rfl
      · rw [hcause]
        rfl
    cases fails_of_read he with
    | unreadable missing =>
      rcases hcause with hcause | ⟨reason, -, hline⟩
      · cases hcause
      · exact absurd rfl hline
    | raised stands raises =>
      obtain ⟨text, found, hline, -⟩ := stands.exists_line
      obtain ⟨other, names, refused⟩ := raises.resolve_of_blamesInclude hblames
      suffices hother : other = name from ⟨text, _, found, hline, hother ▸ names⟩
      -- What could not be opened is what the line includes.
      obtain ⟨-, ⟨-, rfl⟩ | ⟨-, reason, -, rfl⟩⟩ := Include.resolve_eq_error_iff.mp refused
      · simpa using hcause
      · simpa using hcause
    | neverClosed | noStages => cases hblames

/-- A root that includes a file behind an open block; the file includes one that is missing. -/
def gangplankReader : FileReader :=
  .ofFiles
    [("ferry".toList,
      Text.unlines ["#pragma anki start frag".toList, "#include \"gangplank\"".toList]),
     ("gangplank".toList, Text.unlines ["void board();".toList, "#include <rope>".toList])]

theorem read_error_located_gangplank :
    read gangplankReader .default "ferry".toList =
      .error ⟨"gangplank".toList, 2,
        .unreadable "rope".toList "no file named `rope` in memory".toList⟩ ∧
    (∃ steps, gangplankReader.Leads "ferry".toList steps "gangplank".toList) ∧
    ∃ text line, gangplankReader "gangplank".toList = .ok text ∧
      (Text.lines text)[1]? = some line ∧ (Line.ofText line).included? = some "rope".toList := by
  have hread : read gangplankReader .default "ferry".toList =
      .error ⟨"gangplank".toList, 2,
        .unreadable "rope".toList "no file named `rope` in memory".toList⟩ := by
    -- A literal is spelled out once, in the goal, and not wherever the evaluation looks at it.
    unfold gangplankReader
    repeat rewrite [String.toList_ofList]
    decide +kernel
  have h := read_error_located gangplankReader .default "ferry".toList
  refine ⟨hread, ?_, h.2.2 _ "rope".toList hread (Or.inr ⟨_, rfl, by decide⟩)⟩
  rcases h.1 _ hread with ⟨reason, -, heq⟩ | ⟨steps, text, hleads, -⟩
  · cases congrArg ParseError.line heq
  · exact ⟨steps, hleads⟩

end Program

end ShaderVariants
