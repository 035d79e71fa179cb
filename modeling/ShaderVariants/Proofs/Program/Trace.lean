import ShaderVariants.Proofs.Program.Reading
import ShaderVariants.Proofs.Text.Lines

/-!
# What is read, in order

The reading of a program as the events that happen on the way: a file is opened, a line is read.
Each event is recorded where the reader acts, so that a reading that fails has a trace as well, up
to the line that fails.  What is shown of every single
line holds of whole readings (`Draft.Traceable.readFile`), and the trace misses no file: a reader
that gives the same texts for the files that are opened leads to the same program
(`Program.read_congr`).
-/

namespace ShaderVariants

/-- What happens while a program is read. -/
inductive Event where
  /-- The text of a file is asked for. -/
  | opens (name : Text)
  /-- A line of a file is read. -/
  | reads (file : Text) (number : Nat) (line : Text)
  deriving Repr, DecidableEq

/-- The line that is read. -/
def Event.line? : Event → Option Text
  | .reads _ _ line => some line
  | _ => none

namespace Draft

/-! ## 1. Traces -/

/-- What happens when a line of a file is read; `entered` is what happens in a file that the line
includes. -/
def lineEvents (entered : (name : Text) → Draft → List Event) (file : Text) (number : Nat)
    (line : Text) (draft : Draft) : List Event :=
  .reads file number line ::
    match (Line.ofText line).included? with
    | some name => entered name draft
    | none => []

/-- What happens when lines of a file are read, up to the first one that fails. -/
def linesEvents (enter : (line : Nat) → (name : Text) → Draft → Except ParseError Draft)
    (entered : (name : Text) → Draft → List Event) (file : Text) :
    (number : Nat) → (seenOnce : Bool) → List Text → Draft → List Event
  | _, _, [], _ => []
  | number, seenOnce, line :: rest, draft =>
    lineEvents entered file number line draft ++
      match readLine enter file number seenOnce line draft with
      | .error _ => []
      | .ok next =>
        linesEvents enter entered file (number + 1) (seenOnce || (Line.ofText line).isOnce) rest
          next

/-- What happens when a file with the given text is read, below which includes may nest `room`
levels deep. -/
def fileEvents (reader : FileReader) : (room : Nat) → (file text : Text) → Draft → List Event
  | 0, file, text, draft =>
    linesEvents (enter reader 0 file) (fun _ _ => []) file 1 false (Text.lines text) draft
  | room + 1, file, text, draft =>
    linesEvents (enter reader (room + 1) file)
      (fun name draft =>
        if draft.once.contains name then []
        else
          .opens name ::
            match reader name with
            | .error _ => []
            | .ok included => fileEvents reader room name included draft)
      file 1 false (Text.lines text) draft

/-- What happens in a file that is included where `room` levels of includes are left: nothing if it
is passed over or too deep. -/
def entered (reader : FileReader) (room : Nat) (name : Text) (draft : Draft) : List Event :=
  match room with
  | 0 => []
  | room + 1 =>
    if draft.once.contains name then []
    else
      .opens name ::
        match reader name with
        | .error _ => []
        | .ok included => fileEvents reader room name included draft

theorem fileEvents_eq (reader : FileReader) (room : Nat) (file text : Text) (draft : Draft) :
    fileEvents reader room file text draft =
      linesEvents (enter reader room file) (entered reader room) file 1 false (Text.lines text)
        draft := by
  cases room <;> rfl

/-! ## 2. Properties of traces -/

/-- A property of what happens from a draft on and of what comes of it, which holds of single lines
and of what happens one after the other. -/
structure Traceable (reader : FileReader)
    (P : Draft → List Event → Except ParseError Draft → Prop) : Prop where
  nil : ∀ draft, P draft [] (.ok draft)
  append : ∀ draft events next events' outcome, P draft events (.ok next) →
    P next events' outcome → P draft (events ++ events') outcome
  /-- A line fails and nothing else happens. -/
  fault : ∀ draft file number line cause,
    P draft [.reads file number line] (.error ⟨file, number, cause⟩)
  once : ∀ draft file number line, Line.ofText line = .once →
    P draft [.reads file number line] (.ok (draft.markOnce file))
  follow : ∀ draft file number line tokens next, Line.ofText line = .anki tokens →
    draft.follow file number tokens = .ok next → P draft [.reads file number line] (.ok next)
  code : ∀ draft file number line, Line.ofText line = .code →
    P draft [.reads file number line] (.ok (draft.pushCode line))
  /-- A file is passed over. -/
  skip : ∀ draft file number line name, (Line.ofText line).included? = some name →
    name ∈ draft.once → P draft [.reads file number line] (.ok draft)
  /-- A file is opened and cannot be read. -/
  unreadable : ∀ draft file number line name cause, (Line.ofText line).included? = some name →
    name ∉ draft.once →
      P draft [.reads file number line, .opens name] (.error ⟨file, number, cause⟩)
  /-- A file is opened and read in place of a line. -/
  enter : ∀ draft file number line name room included,
    (Line.ofText line).included? = some name → name ∉ draft.once → reader name = .ok included →
      P draft (fileEvents reader room name included draft)
        (readFile reader room name included draft) →
      P draft (.reads file number line :: .opens name ::
        fileEvents reader room name included draft) (readFile reader room name included draft)

namespace Traceable

variable {reader : FileReader} {P : Draft → List Event → Except ParseError Draft → Prop}

/-- A line that includes a file. -/
theorem includeLine (h : Traceable reader P) {room : Nat}
    (hbelow : ∀ below, room = below + 1 → ∀ file text draft,
      P draft (fileEvents reader below file text draft) (readFile reader below file text draft))
    (draft : Draft) (file : Text) (number : Nat) {line name : Text}
    (hname : (Line.ofText line).included? = some name) :
    P draft (.reads file number line :: entered reader room name draft)
      (Draft.enter reader room file number name draft) := by
  rw [Draft.enter, Include.resolve.eq_def]
  by_cases honce : name ∈ draft.once
  · have hcontains := List.contains_iff_mem.mpr honce
    cases room with
    | zero =>
      rw [if_pos hcontains]
      exact h.skip draft file number line name hname honce
    | succ room =>
      rw [entered, if_pos hcontains, if_pos hcontains]
      exact h.skip draft file number line name hname honce
  · have hcontains := mt List.contains_iff_mem.mp honce
    cases room with
    | zero =>
      rw [if_neg hcontains]
      exact h.fault draft file number line _
    | succ room =>
      rw [entered, if_neg hcontains, if_neg hcontains]
      cases hread : reader name with
      | error reason => exact h.unreadable draft file number line name _ hname honce
      | ok included =>
        exact h.enter draft file number line name room included hname honce hread
          (hbelow room rfl name included draft)

theorem readLines (h : Traceable reader P) {room : Nat}
    (hbelow : ∀ below, room = below + 1 → ∀ file text draft,
      P draft (fileEvents reader below file text draft) (readFile reader below file text draft))
    (file : Text) (number : Nat) (seenOnce : Bool) (lines : List Text) (draft : Draft) :
    P draft (linesEvents (Draft.enter reader room file) (entered reader room) file number seenOnce
      lines draft) (Draft.readLines (Draft.enter reader room file) file number seenOnce lines
        draft) := by
  induction lines generalizing number seenOnce draft with
  | nil => exact h.nil draft
  | cons line rest ih =>
    -- What the first line comes to, by the kinds of lines.
    have hline : P draft (lineEvents (entered reader room) file number line draft)
        (readLine (Draft.enter reader room file) file number seenOnce line draft) := by
      rw [lineEvents, readLine]
      cases hkind : Line.ofText line with
      | fileInclude tokens =>
        dsimp only [Line.included?]
        cases htarget : Include.target tokens with
        | error cause => exact h.fault draft file number line _
        | ok name =>
          refine h.includeLine hbelow draft file number ?_
          rw [hkind, Line.included?, htarget]
          rfl
      | once =>
        cases seenOnce with
        | true => exact h.fault draft file number line _
        | false => exact h.once draft file number line hkind
      | onceWithArguments => exact h.fault draft file number line _
      | anki tokens =>
        dsimp only
        cases hfollow : draft.follow file number tokens with
        | error cause => exact h.fault draft file number line _
        | ok next => exact h.follow draft file number line tokens next hkind hfollow
      | code => exact h.code draft file number line hkind
    rw [linesEvents, readLines_cons]
    cases hnext : readLine (Draft.enter reader room file) file number seenOnce line draft with
    | error e =>
      rw [hnext] at hline
      simpa using hline
    | ok next =>
      rw [hnext] at hline
      exact h.append draft _ next _ _ hline (ih _ _ next)

/-- What holds of single lines holds of files, whatever they include. -/
theorem readFile (h : Traceable reader P) (room : Nat) (file text : Text) (draft : Draft) :
    P draft (fileEvents reader room file text draft)
      (Draft.readFile reader room file text draft) := by
  induction room generalizing file text draft with
  | zero =>
    rw [fileEvents_eq, readFile_eq]
    exact h.readLines (fun below hbelow => absurd hbelow (by omega)) file 1 false _ draft
  | succ room ih =>
    rw [fileEvents_eq, readFile_eq]
    refine h.readLines (fun below hbelow => ?_) file 1 false _ draft
    obtain rfl := Nat.succ.inj hbelow
    exact ih

/-- What holds of single lines holds of lines of a file. -/
theorem readLines_self (h : Traceable reader P) (room : Nat) (file : Text) (number : Nat)
    (seenOnce : Bool) (lines : List Text) (draft : Draft) :
    P draft (linesEvents (Draft.enter reader room file) (entered reader room) file number seenOnce
      lines draft) (Draft.readLines (Draft.enter reader room file) file number seenOnce lines
        draft) :=
  h.readLines (fun below _ => h.readFile below) file number seenOnce lines draft

end Traceable

/-! ## 3. Files that are opened -/

section

variable {reader other : FileReader}

/-- An include comes to the same if the file that it opens, and those opened in it, have the same
texts. -/
theorem enter_congr {room : Nat}
    (hbelow : ∀ below, room = below + 1 → ∀ file text draft,
      (∀ name, .opens name ∈ fileEvents reader below file text draft → other name = reader name) →
        readFile other below file text draft = readFile reader below file text draft)
    (file : Text) (number : Nat) {name : Text} {draft : Draft}
    (hopens : ∀ opened, .opens opened ∈ entered reader room name draft →
      other opened = reader opened) :
    enter other room file number name draft = enter reader room file number name draft := by
  rw [enter, enter, Include.resolve.eq_def, Include.resolve.eq_def]
  by_cases honce : draft.once.contains name = true
  · rw [if_pos honce, if_pos honce]
  · rw [if_neg honce, if_neg honce]
    cases room with
    | zero => rfl
    | succ room =>
      rw [entered, if_neg honce] at hopens
      rw [hopens name List.mem_cons_self]
      cases hread : reader name with
      | error reason => rfl
      | ok included =>
        rw [hread] at hopens
        exact hbelow room rfl name included draft fun opened hopened =>
          hopens opened (List.mem_cons_of_mem _ hopened)

theorem readLines_congr {room : Nat}
    (hbelow : ∀ below, room = below + 1 → ∀ file text draft,
      (∀ name, .opens name ∈ fileEvents reader below file text draft → other name = reader name) →
        readFile other below file text draft = readFile reader below file text draft)
    (file : Text) (number : Nat) (seenOnce : Bool) (lines : List Text) (draft : Draft)
    (hopens : ∀ name, .opens name ∈ linesEvents (enter reader room file) (entered reader room) file
      number seenOnce lines draft → other name = reader name) :
    readLines (enter other room file) file number seenOnce lines draft =
      readLines (enter reader room file) file number seenOnce lines draft := by
  induction lines generalizing number seenOnce draft with
  | nil => rfl
  | cons line rest ih =>
    rw [linesEvents] at hopens
    have hline : readLine (enter other room file) file number seenOnce line draft =
        readLine (enter reader room file) file number seenOnce line draft := by
      rw [readLine, readLine]
      cases hkind : Line.ofText line with
      | fileInclude tokens =>
        dsimp only
        cases htarget : Include.target tokens with
        | error cause => rfl
        | ok name =>
          refine enter_congr hbelow file number fun opened hopened => hopens opened ?_
          refine List.mem_append_left _ ?_
          rw [lineEvents, hkind, Line.included?, htarget]
          exact List.mem_cons_of_mem _ hopened
      | once | onceWithArguments | anki | code => rfl
    rw [readLines_cons, readLines_cons, hline]
    cases hnext : readLine (enter reader room file) file number seenOnce line draft with
    | error e => rfl
    | ok next =>
      rw [hnext] at hopens
      exact ih _ _ next fun name hname => hopens name (List.mem_append_right _ hname)

/-- Only the texts of the files that are opened matter to what a file comes to. -/
theorem readFile_congr {room : Nat} {file text : Text} {draft : Draft}
    (hopens : ∀ name, .opens name ∈ fileEvents reader room file text draft →
      other name = reader name) :
    readFile other room file text draft = readFile reader room file text draft := by
  induction room generalizing file text draft with
  | zero =>
    rw [fileEvents_eq] at hopens
    rw [readFile_eq, readFile_eq]
    exact readLines_congr (fun below hbelow => absurd hbelow (by omega)) file 1 false _ draft hopens
  | succ room ih =>
    rw [fileEvents_eq] at hopens
    rw [readFile_eq, readFile_eq]
    refine readLines_congr (fun below hbelow file text draft hopens => ?_) file 1 false _ draft hopens
    obtain rfl := Nat.succ.inj hbelow
    exact ih hopens

end

/-! ## 4. Lines that are read -/

theorem forall_lines_linesEvents {P : Text → Prop}
    {enter : (line : Nat) → (name : Text) → Draft → Except ParseError Draft}
    {entered : (name : Text) → Draft → List Event} {file : Text} {number : Nat} {seenOnce : Bool}
    {lines : List Text} {draft : Draft} (hlines : ∀ line ∈ lines, P line)
    (hentered : ∀ name draft, ∀ line ∈ (entered name draft).filterMap Event.line?, P line) :
    ∀ line ∈ (linesEvents enter entered file number seenOnce lines draft).filterMap Event.line?,
      P line := by
  induction lines generalizing number seenOnce draft with
  | nil => simp [linesEvents]
  | cons line rest ih =>
    obtain ⟨hline, hrest⟩ := List.forall_mem_cons.mp hlines
    rw [linesEvents, List.filterMap_append, List.forall_mem_append]
    constructor
    · rw [lineEvents, List.filterMap_cons_some (by rfl), List.forall_mem_cons]
      refine ⟨hline, ?_⟩
      split
      next name hname => exact hentered name draft
      · simp
    · split
      · simp
      next next hnext => exact ih hrest

/-- Every line that is read is a line of some text. -/
theorem exists_lines_of_mem_fileEvents {reader : FileReader} {room : Nat} {file text : Text}
    {draft : Draft} :
    ∀ line ∈ (fileEvents reader room file text draft).filterMap Event.line?,
      ∃ text, line ∈ Text.lines text := by
  induction room generalizing file text draft with
  | zero =>
    rw [fileEvents_eq]
    refine forall_lines_linesEvents (fun line hline => ⟨text, hline⟩) fun name draft => ?_
    simp [entered]
  | succ room ih =>
    rw [fileEvents_eq]
    refine forall_lines_linesEvents (fun line hline => ⟨text, hline⟩) fun name draft => ?_
    rw [entered]
    split
    · simp
    · rw [List.filterMap_cons_none (by rfl)]
      split
      · simp
      next included hincluded => exact ih

end Draft

/-! ## 5. Programs -/

namespace Program

/-- What happens when a program is read from its root file. -/
def events (reader : FileReader) (fileName : Text) : List Event :=
  .opens fileName ::
    match reader fileName with
    | .error _ => []
    | .ok text => Draft.fileEvents reader maxIncludeDepth fileName text .empty

/-- The lines that are read, in the order in which they are read. -/
def linesRead (reader : FileReader) (fileName : Text) : List Text :=
  (events reader fileName).filterMap Event.line?

theorem lineFeed_notMem_of_mem_linesRead {reader : FileReader} {fileName line : Text}
    (h : line ∈ linesRead reader fileName) : '\n' ∉ line := by
  rw [linesRead, events, List.filterMap_cons_none (by rfl)] at h
  split at h
  · cases h
  next text hfile =>
    obtain ⟨text, hline⟩ := Draft.exists_lines_of_mem_fileEvents line h
    exact Text.lineFeed_notMem_of_mem_lines hline

/-- No file matters to a program but those that are opened while it is read. -/
theorem read_congr {reader other : FileReader} {fileName : Text}
    (hopens : ∀ name, .opens name ∈ events reader fileName → other name = reader name)
    (settings : Settings) : read other settings fileName = read reader settings fileName := by
  rw [events] at hopens
  rw [read, read, hopens fileName List.mem_cons_self]
  cases hroot : reader fileName with
  | error reason => rfl
  | ok text =>
    rw [hroot] at hopens
    dsimp only
    rw [Draft.readFile_congr fun name hname => hopens name (List.mem_cons_of_mem _ hname)]

end Program

end ShaderVariants
