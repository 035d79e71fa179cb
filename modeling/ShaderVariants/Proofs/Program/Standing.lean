import ShaderVariants.Proofs.Program.OnceOnly
import ShaderVariants.Proofs.Program.Reading

/-!
# Where reading stands

While a program is read, some lines of each file that has been entered are behind and others are
still to come (`Program.Stands`).  What one line and the rest of its file come to there is
`Draft.lineAt` and `Draft.restAt`.  A reading that fails is at a line that raises what it fails
with (`Program.Stands.exists_raises`), and that is where its error points
(`Program.Stands.read_of_raises`); every line that is read is one that reading stands at
(`Program.exists_stands_of_mem_events`).
-/

namespace ShaderVariants

/-! ## 1. Include lines -/

namespace Include

variable {reader : FileReader} {once : List Text} {room : Nat} {name : Text}

/-- A file is opened if it has not been barred, if there is room for it and if it can be read. -/
theorem resolve_eq_some_iff {text : Text} :
    resolve reader once room name = .ok (some text) ↔
      name ∉ once ∧ 0 < room ∧ reader name = .ok text := by
  rw [resolve.eq_def]
  by_cases honce : name ∈ once
  · simp [honce]
  · rw [if_neg (mt List.contains_iff_mem.mp honce)]
    cases room with
    | zero => simp
    | succ below => cases reader name <;> simp [honce]

theorem resolve_eq_none_iff : resolve reader once room name = .ok none ↔ name ∈ once := by
  rw [resolve.eq_def]
  by_cases honce : name ∈ once
  · simp [honce]
  · rw [if_neg (mt List.contains_iff_mem.mp honce)]
    cases room with
    | zero => simp [honce]
    | succ below => cases reader name <;> simp [honce]

/-- A file that has not been barred is refused if it is too deep, and otherwise if it cannot be
read. -/
theorem resolve_eq_error_iff {cause : Cause} :
    resolve reader once room name = .error cause ↔
      name ∉ once ∧ (room = 0 ∧ cause = .tooDeep name ∨
        0 < room ∧ ∃ reason, reader name = .error reason ∧ cause = .unreadable name reason) := by
  rw [resolve.eq_def]
  by_cases honce : name ∈ once
  · simp [honce]
  · rw [if_neg (mt List.contains_iff_mem.mp honce)]
    cases room with
    | zero => simp [honce, eq_comm]
    | succ below => cases reader name <;> simp [honce, eq_comm]

/-- There is room for a file as long as it is not deeper than includes may nest. -/
theorem room_pos_iff {depth : Nat} : 0 < Include.room depth ↔ depth ≤ maxIncludeDepth := by
  rw [Include.room]
  omega

theorem room_eq_succ {depth : Nat} (h : depth ≤ maxIncludeDepth) :
    Include.room depth = Include.room (depth + 1) + 1 := by
  rw [Include.room, Include.room]
  omega

end Include

/-- The files that include lines lead to from a root, by the number of the lines.  The last of them
need not exist. -/
inductive FileReader.Leads (reader : FileReader) (root : Text) : (steps : Nat) → Text → Prop
  | root : Leads reader root 0 root
  | step {steps : Nat} {file name text line : Text} (leads : Leads reader root steps file)
      (found : reader file = .ok text) (among : line ∈ Text.lines text)
      (names : (Line.ofText line).included? = some name) : Leads reader root (steps + 1) name

/-! ## 2. A line and the rest of its file -/

namespace Draft

/-- What a line of a file at the given depth comes to behind the lines `before` it. -/
def lineAt (reader : FileReader) (depth : Nat) (file : Text) (before : List Text) (line : Text)
    (draft : Draft) : Except ParseError Draft :=
  readLine (enter reader (Include.room (depth + 1)) file) file (before.length + 1) (hasOnce before)
    line draft

/-- What the rest of a file at the given depth comes to behind the lines `before` it. -/
def restAt (reader : FileReader) (depth : Nat) (file : Text) (before rest : List Text)
    (draft : Draft) : Except ParseError Draft :=
  readLines (enter reader (Include.room (depth + 1)) file) file (before.length + 1)
    (hasOnce before) rest draft

/-- What happens in the rest of a file at the given depth. -/
def restEvents (reader : FileReader) (depth : Nat) (file : Text) (before rest : List Text)
    (draft : Draft) : List Event :=
  linesEvents (enter reader (Include.room (depth + 1)) file)
    (entered reader (Include.room (depth + 1))) file (before.length + 1) (hasOnce before) rest draft

/-- What is wrong with a line of a file at the given depth. -/
inductive Raises (reader : FileReader) (depth : Nat) (file : Text) (before : List Text)
    (line : Text) (draft : Draft) : Cause → Prop
  | target {tokens : List Text} {cause : Cause} (kind : Line.ofText line = .fileInclude tokens)
      (malformed : Include.target tokens = .error cause) : Raises reader depth file before line
        draft cause
  | resolve {name : Text} {cause : Cause} (names : (Line.ofText line).included? = some name)
      (refused : Include.resolve reader draft.once (Include.room (depth + 1)) name =
        .error cause) : Raises reader depth file before line draft cause
  | once (kind : Line.ofText line = .once) (seen : hasOnce before = true) :
      Raises reader depth file before line draft .duplicateOnce
  | onceArguments (kind : Line.ofText line = .onceWithArguments) :
      Raises reader depth file before line draft (.malformedPragma .onceArguments)
  | follow {tokens : List Text} {cause : Cause} (kind : Line.ofText line = .anki tokens)
      (refused : draft.follow file (before.length + 1) tokens = .error cause) :
      Raises reader depth file before line draft cause

section

variable {reader : FileReader} {depth : Nat} {file line : Text} {before rest : List Text}
  {draft : Draft}

theorem hasOnce_concat (before : List Text) (line : Text) :
    hasOnce (before ++ [line]) = (hasOnce before || (Line.ofText line).isOnce) := by
  simp [hasOnce]

@[simp] theorem restAt_nil : restAt reader depth file before [] draft = .ok draft := rfl

/-- The rest of a file is its next line and the rest behind that one. -/
theorem restAt_cons : restAt reader depth file before (line :: rest) draft =
    match lineAt reader depth file before line draft with
    | .error e => .error e
    | .ok next => restAt reader depth file (before ++ [line]) rest next := by
  rw [restAt, readLines_cons, ← lineAt]
  cases lineAt reader depth file before line draft with
  | error e => rfl
  | ok next => simp only [restAt, List.length_append, List.length_singleton, hasOnce_concat]

theorem restEvents_cons : restEvents reader depth file before (line :: rest) draft =
    lineEvents (entered reader (Include.room (depth + 1))) file (before.length + 1) line draft ++
      match lineAt reader depth file before line draft with
      | .error _ => []
      | .ok next => restEvents reader depth file (before ++ [line]) rest next := by
  rw [restEvents, linesEvents, ← lineAt]
  cases lineAt reader depth file before line draft with
  | error e => rfl
  | ok next => simp only [restEvents, List.length_append, List.length_singleton, hasOnce_concat]

/-- What happens at an include line is that it is read, and what happens in its file. -/
theorem lineEvents_of_included {name : Text} (names : (Line.ofText line).included? = some name)
    (entered : Text → Draft → List Event) (number : Nat) :
    lineEvents entered file number line draft =
      .reads file number line :: entered name draft := by
  rw [lineEvents, names]

/-- A line that opens a file comes to what the file comes to one level deeper. -/
theorem lineAt_of_opened {name text : Text} (names : (Line.ofText line).included? = some name)
    (opened : Include.resolve reader draft.once (Include.room (depth + 1)) name =
      .ok (some text)) :
    lineAt reader depth file before line draft =
      restAt reader (depth + 1) name [] (Text.lines text) draft := by
  obtain ⟨-, hroom, -⟩ := Include.resolve_eq_some_iff.mp opened
  rw [lineAt, readLine_of_included? names, enter, opened]
  dsimp only
  rw [Include.room_eq_succ (Include.room_pos_iff.mp hroom)]
  exact readFile_eq reader _ name text draft

theorem entered_of_opened {name text : Text}
    (opened : Include.resolve reader draft.once (Include.room (depth + 1)) name =
      .ok (some text)) :
    entered reader (Include.room (depth + 1)) name draft =
      .opens name :: restEvents reader (depth + 1) name [] (Text.lines text) draft := by
  obtain ⟨hfree, hroom, hfound⟩ := Include.resolve_eq_some_iff.mp opened
  rw [Include.room_eq_succ (Include.room_pos_iff.mp hroom), entered,
    if_neg (mt List.contains_iff_mem.mp hfree), hfound]
  dsimp only
  rw [fileEvents_eq]
  rfl

/-- What happens in a file that is included: it is opened and, if it can be, read. -/
theorem cases_of_mem_entered {name : Text} {event : Event}
    (h : event ∈ entered reader (Include.room (depth + 1)) name draft) :
    event = .opens name ∨ ∃ text,
      Include.resolve reader draft.once (Include.room (depth + 1)) name = .ok (some text) ∧
      event ∈ restEvents reader (depth + 1) name [] (Text.lines text) draft := by
  cases hresolve : Include.resolve reader draft.once (Include.room (depth + 1)) name with
  | error cause =>
    obtain ⟨hfree, ⟨hroom, -⟩ | ⟨hroom, reason, hmissing, -⟩⟩ :=
      Include.resolve_eq_error_iff.mp hresolve
    · rw [hroom, entered] at h
      cases h
    · rw [Include.room_eq_succ (Include.room_pos_iff.mp hroom), entered,
        if_neg (mt List.contains_iff_mem.mp hfree), hmissing] at h
      exact Or.inl (List.mem_singleton.mp h)
  | ok found =>
    cases found with
    | none =>
      have hbarred := List.contains_iff_mem.mpr (Include.resolve_eq_none_iff.mp hresolve)
      rw [entered.eq_def] at h
      split at h
      · cases h
      · rw [if_pos hbarred] at h
        cases h
    | some text =>
      rw [entered_of_opened hresolve] at h
      exact (List.mem_cons.mp h).imp_right fun hevent => ⟨text, rfl, hevent⟩

/-- A line with something wrong is where reading fails. -/
theorem Raises.lineAt_eq {cause : Cause} (h : Raises reader depth file before line draft cause) :
    lineAt reader depth file before line draft = .error ⟨file, before.length + 1, cause⟩ := by
  cases h with
  | target kind malformed =>
    rw [lineAt, readLine, kind]
    dsimp only
    rw [malformed]
  | resolve names refused => rw [lineAt, readLine_of_included? names, enter, refused]
  | once kind seen =>
    rw [lineAt, readLine, kind]
    dsimp only
    rw [if_pos seen]
  | onceArguments kind => rw [lineAt, readLine, kind]
  | follow kind refused =>
    rw [lineAt, readLine, kind]
    dsimp only
    rw [refused]

/-- Either a line that fails has something wrong itself, or the fault is in the file that it
opens. -/
theorem cases_of_lineAt_eq_error {e : ParseError}
    (h : lineAt reader depth file before line draft = .error e) :
    (∃ cause, Raises reader depth file before line draft cause ∧
      e = ⟨file, before.length + 1, cause⟩) ∨
    ∃ name text, (Line.ofText line).included? = some name ∧
      Include.resolve reader draft.once (Include.room (depth + 1)) name = .ok (some text) ∧
      restAt reader (depth + 1) name [] (Text.lines text) draft = .error e := by
  have hraises : ∀ {cause}, Raises reader depth file before line draft cause →
      ∃ cause, Raises reader depth file before line draft cause ∧
        e = ⟨file, before.length + 1, cause⟩ := fun {cause} hcause =>
    ⟨cause, hcause, Except.error.inj (h.symm.trans hcause.lineAt_eq)⟩
  -- Only an include line can fail for what stands in another file.
  cases hkind : Line.ofText line with
  | fileInclude tokens =>
    cases htarget : Include.target tokens with
    | error cause => exact Or.inl (hraises (.target hkind htarget))
    | ok name =>
      have names : (Line.ofText line).included? = some name := by
        rw [hkind, Line.included?, htarget]
        rfl
      cases hresolve : Include.resolve reader draft.once (Include.room (depth + 1)) name with
      | error cause => exact Or.inl (hraises (.resolve names hresolve))
      | ok found =>
        cases found with
        | none =>
          rw [lineAt, readLine_of_included? names, enter, hresolve] at h
          cases h
        | some text =>
          rw [lineAt_of_opened names hresolve] at h
          exact Or.inr ⟨name, text, hkind ▸ names, hresolve, h⟩
  | once =>
    cases hseen : hasOnce before with
    | true => exact Or.inl (hraises (.once hkind hseen))
    | false =>
      rw [lineAt, readLine, hkind, hseen] at h
      cases h
  | onceWithArguments => exact Or.inl (hraises (.onceArguments hkind))
  | anki tokens =>
    cases hfollow : draft.follow file (before.length + 1) tokens with
    | error cause => exact Or.inl (hraises (.follow hkind hfollow))
    | ok next =>
      rw [lineAt, readLine, hkind] at h
      dsimp only at h
      rw [hfollow] at h
      cases h
  | code =>
    rw [lineAt, readLine, hkind] at h
    cases h

end

end Draft

/-! ## 3. Where reading stands -/

namespace Program

/-- Reading stands in a file at some depth below the root, with some of its lines behind and the
rest before it. -/
inductive Stands (reader : FileReader) (root : Text) :
    (depth : Nat) → (file : Text) → (before rest : List Text) → Draft → Prop
  | root {text : Text} (found : reader root = .ok text) :
      Stands reader root 0 root [] (Text.lines text) .empty
  | behind {depth : Nat} {file line : Text} {before rest : List Text} {draft next : Draft}
      (stands : Stands reader root depth file before (line :: rest) draft)
      (read : Draft.lineAt reader depth file before line draft = .ok next) :
      Stands reader root depth file (before ++ [line]) rest next
  | inside {depth : Nat} {file line name text : Text} {before rest : List Text} {draft : Draft}
      (stands : Stands reader root depth file before (line :: rest) draft)
      (names : (Line.ofText line).included? = some name)
      (opened : Include.resolve reader draft.once (Include.room (depth + 1)) name =
        .ok (some text)) :
      Stands reader root (depth + 1) name [] (Text.lines text) draft

namespace Stands

variable {reader : FileReader} {settings : Settings} {root : Text} {depth : Nat} {file line : Text}
  {before rest : List Text} {draft : Draft}

/-- A file in which reading stands has been read from its start on. -/
theorem exists_text (h : Stands reader root depth file before rest draft) :
    ∃ text, reader file = .ok text ∧ Text.lines text = before ++ rest := by
  induction h with
  | root found => exact ⟨_, found, rfl⟩
  | behind _ _ ih =>
    obtain ⟨text, found, hlines⟩ := ih
    exact ⟨text, found, hlines.trans (List.append_cons ..)⟩
  | inside _ _ opened _ => exact ⟨_, (Include.resolve_eq_some_iff.mp opened).2.2, rfl⟩

/-- Include lines lead to a file in which reading stands, one for each level. -/
theorem leads (h : Stands reader root depth file before rest draft) :
    reader.Leads root depth file := by
  induction h with
  | root => exact .root
  | behind _ _ ih => exact ih
  | inside stands names _ ih =>
    obtain ⟨text, found, hlines⟩ := stands.exists_text
    exact .step ih found (hlines ▸ List.mem_append_right _ List.mem_cons_self) names

/-- No file is read deeper than includes may nest. -/
theorem depth_le (h : Stands reader root depth file before rest draft) :
    depth ≤ maxIncludeDepth := by
  induction h with
  | root => exact Nat.zero_le _
  | behind _ _ ih => exact ih
  | inside _ _ opened _ =>
    exact Include.room_pos_iff.mp (Include.resolve_eq_some_iff.mp opened).2.1

/-! ## 4. What holds of all that is still to be read -/

/-- What holds where a file ends, and holds where reading stands if it holds behind the next line
and in the file that the line opens, holds wherever reading stands. -/
theorem rest_induction {motive : Nat → Text → List Text → List Text → Draft → Prop}
    (nil : ∀ {depth file before draft}, motive depth file before [] draft)
    (cons : ∀ {depth file before line rest draft},
      Stands reader root depth file before (line :: rest) draft →
      (∀ next, Draft.lineAt reader depth file before line draft = .ok next →
        motive depth file (before ++ [line]) rest next) →
      (∀ name text, (Line.ofText line).included? = some name →
        Include.resolve reader draft.once (Include.room (depth + 1)) name = .ok (some text) →
        motive (depth + 1) name [] (Text.lines text) draft) →
      motive depth file before (line :: rest) draft)
    (h : Stands reader root depth file before rest draft) :
    motive depth file before rest draft := by
  -- First by the levels that are left, which a file that is opened has one less of.
  induction hlevels : maxIncludeDepth - depth using Nat.strongRecOn
    generalizing depth file before rest draft with
  | ind levels ihLevels =>
    subst hlevels
    induction rest generalizing before draft with
    | nil => exact nil
    | cons line rest ihRest =>
      refine cons h (fun next hnext => ihRest (h.behind hnext)) fun name text names opened => ?_
      have hinside := h.inside names opened
      have hdepth := hinside.depth_le
      exact ihLevels _ (by omega) hinside rfl

/-- A reading that fails stands at a line with something wrong, and its error points there. -/
theorem exists_raises {e : ParseError} (h : Stands reader root depth file before rest draft)
    (hrest : Draft.restAt reader depth file before rest draft = .error e) :
    ∃ depth file before line rest draft cause,
      Stands reader root depth file before (line :: rest) draft ∧
        Draft.Raises reader depth file before line draft cause ∧
        e = ⟨file, before.length + 1, cause⟩ := by
  revert hrest
  refine rest_induction (motive := fun depth file before rest draft =>
    Draft.restAt reader depth file before rest draft = .error e → _) ?_ ?_ h
  · intro depth file before draft hrest
    cases hrest
  · intro depth file before line rest draft h ihNext ihInside hrest
    rw [Draft.restAt_cons] at hrest
    split at hrest
    next e' hline =>
      obtain rfl := Except.error.inj hrest
      rcases Draft.cases_of_lineAt_eq_error hline with ⟨cause, hraises, rfl⟩ |
        ⟨name, text, names, opened, hinside⟩
      · exact ⟨depth, file, before, line, rest, draft, cause, h, hraises, rfl⟩
      · exact ihInside name text names opened hinside
    next next hline => exact ihNext next hline hrest

end Stands

/-! ## 5. What the whole comes to -/

section

variable {reader : FileReader} {settings : Settings} {root text : Text}

theorem events_eq (found : reader root = .ok text) :
    events reader root =
      .opens root :: Draft.restEvents reader 0 root [] (Text.lines text) .empty := by
  rw [events, found]
  dsimp only
  rw [Draft.fileEvents_eq]
  rfl

/-- Reading fails at a root that cannot be read, at one of the lines below it, or where they
end. -/
theorem cases_of_read_eq_error {e : ParseError} (h : read reader settings root = .error e) :
    (∃ reason, reader root = .error reason ∧ e = ⟨root, 0, .unreadable root reason⟩) ∨
    ∃ text, reader root = .ok text ∧
      (Draft.restAt reader 0 root [] (Text.lines text) .empty = .error e ∨
        ∃ draft, Draft.restAt reader 0 root [] (Text.lines text) .empty = .ok draft ∧
          draft.finish root (max 1 (Text.lines text).length) settings = .error e) := by
  rw [read] at h
  split at h
  next reason missing => exact Or.inl ⟨reason, missing, (Except.error.inj h).symm⟩
  next text found =>
  refine Or.inr ⟨text, found, ?_⟩
  rw [Draft.readFile_eq] at h
  split at h
  next e' hrest => exact Or.inl (Except.error.inj h ▸ hrest)
  next draft hrest => exact Or.inr ⟨draft, hrest, h⟩

end

namespace Stands

variable {reader : FileReader} {settings : Settings} {root : Text} {depth : Nat} {file line : Text}
  {before rest : List Text} {draft : Draft}

/-- What fails in a file fails in all. -/
theorem read_eq_error {e : ParseError} (h : Stands reader root depth file before rest draft)
    (hrest : Draft.restAt reader depth file before rest draft = .error e) :
    read reader settings root = .error e := by
  -- By induction on how reading has come there: what fails behind a line or in its file fails
  -- where reading stood before.
  induction h with
  | @root text found =>
    have hfile : Draft.readFile reader maxIncludeDepth root text .empty = .error e := by
      rw [Draft.readFile_eq]
      exact hrest
    rw [read, found]
    dsimp only
    rw [hfile]
  | behind _ hline ih =>
    refine ih ?_
    rw [Draft.restAt_cons, hline]
    exact hrest
  | inside _ names opened ih =>
    refine ih ?_
    rw [Draft.restAt_cons, Draft.lineAt_of_opened names opened, hrest]

/-- Something wrong with the line that reading stands at is what reading fails with, and the error
points at that line, whatever includes have led there. -/
theorem read_of_raises {cause : Cause}
    (h : Stands reader root depth file before (line :: rest) draft)
    (hraises : Draft.Raises reader depth file before line draft cause) :
    read reader settings root = .error ⟨file, before.length + 1, cause⟩ := by
  refine h.read_eq_error ?_
  rw [Draft.restAt_cons, hraises.lineAt_eq]

section

variable {program : Program} (hread : read reader settings root = .ok program)
include hread

/-- If all could be read, so could the line that reading stands at. -/
theorem exists_behind (h : Stands reader root depth file before (line :: rest) draft) :
    ∃ next, Stands reader root depth file (before ++ [line]) rest next ∧
      Draft.lineAt reader depth file before line draft = .ok next := by
  cases hline : Draft.lineAt reader depth file before line draft with
  | error e =>
    have hfail : read reader settings root = .error e := by
      refine h.read_eq_error ?_
      rw [Draft.restAt_cons, hline]
    rw [hread] at hfail
    cases hfail
  | ok next => exact ⟨next, h.behind hline, rfl⟩

/-- If all could be read, reading has come to each line of a file. -/
theorem exists_forward {lines : List Text}
    (h : Stands reader root depth file before (lines ++ rest) draft) :
    ∃ next, Stands reader root depth file (before ++ lines) rest next := by
  induction lines generalizing before draft with
  | nil => exact ⟨draft, by rwa [List.append_nil]⟩
  | cons line lines ih =>
    obtain ⟨next, hnext, -⟩ := h.exists_behind hread
    obtain ⟨last, hlast⟩ := ih hnext
    exact ⟨last, by rwa [List.append_cons]⟩

/-- If all could be read, a file was opened by each line that includes it before it was barred. -/
theorem exists_inside {name : Text}
    (h : Stands reader root depth file before (line :: rest) draft)
    (names : (Line.ofText line).included? = some name) (hfree : name ∉ draft.once) :
    ∃ text, reader name = .ok text ∧
      Include.resolve reader draft.once (Include.room (depth + 1)) name = .ok (some text) ∧
      Stands reader root (depth + 1) name [] (Text.lines text) draft := by
  cases hresolve : Include.resolve reader draft.once (Include.room (depth + 1)) name with
  | error cause =>
    have hfail : read reader settings root = .error ⟨file, before.length + 1, cause⟩ :=
      h.read_of_raises (.resolve names hresolve)
    rw [hread] at hfail
    cases hfail
  | ok found =>
    cases found with
    | none => exact absurd (Include.resolve_eq_none_iff.mp hresolve) hfree
    | some text =>
      have hfound := (Include.resolve_eq_some_iff.mp hresolve).2.2
      exact ⟨text, hfound, rfl, h.inside names hresolve⟩

end

end Stands

/-! ## 6. Lines that are read -/

/-- Every line that is still to be read is one that reading will stand at. -/
theorem exists_stands_of_mem_restEvents {reader : FileReader} {root : Text} {depth : Nat}
    {file : Text} {before rest : List Text} {draft : Draft}
    (h : Stands reader root depth file before rest draft) {name line : Text} {number : Nat}
    (hevent : .reads name number line ∈ Draft.restEvents reader depth file before rest draft) :
    ∃ depth before rest draft, Stands reader root depth name before (line :: rest) draft ∧
      number = before.length + 1 := by
  revert hevent
  refine h.rest_induction (motive := fun depth file before rest draft =>
    .reads name number line ∈ Draft.restEvents reader depth file before rest draft → _) ?_ ?_
  · intro depth file before draft hevent
    cases hevent
  · intro depth file before first rest draft h ihNext ihInside hevent
    rw [Draft.restEvents_cons, Draft.lineEvents] at hevent
    rcases List.mem_append.mp hevent with hevent | hevent
    · rcases List.mem_cons.mp hevent with hevent | hevent
      · obtain ⟨rfl, rfl, rfl⟩ := Event.reads.inj hevent
        exact ⟨depth, before, rest, draft, h, rfl⟩
      · split at hevent
        next included names =>
          rcases Draft.cases_of_mem_entered hevent with hopens | ⟨text, opened, hinside⟩
          · cases hopens
          · exact ihInside included text names opened hinside
        · cases hevent
    · split at hevent
      · cases hevent
      next next hline => exact ihNext next hline hevent

/-- Every line that is read is one that reading stands at. -/
theorem exists_stands_of_mem_events {reader : FileReader} {root name line : Text} {number : Nat}
    (h : .reads name number line ∈ events reader root) :
    ∃ depth before rest draft, Stands reader root depth name before (line :: rest) draft ∧
      number = before.length + 1 := by
  cases found : reader root with
  | error reason => simp [events, found] at h
  | ok text =>
    rw [events_eq found] at h
    rcases List.mem_cons.mp h with hopens | hevent
    · cases hopens
    · exact exists_stands_of_mem_restEvents (.root found) hevent

end Program

end ShaderVariants
