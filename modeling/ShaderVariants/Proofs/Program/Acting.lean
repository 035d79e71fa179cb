import ShaderVariants.Proofs.Program.Trace

/-!
# Acting upon lines

Every line that is read is code, or is acted upon, or is the one that the reading fails at
(`Draft.Ran.exists_at`); and every line of a file that is opened is read, unless the reading fails
(`Draft.traceable_readsAll`).
-/

namespace ShaderVariants

namespace Draft

/-! ## 1. Acting upon lines -/

/-- What a line that is no code does: it bars its file, it is followed, or it includes a file, which
is passed over or opened in its place. -/
inductive Acts (reader : FileReader) (draft : Draft) (file : Text) (number : Nat) (line : Text) :
    List Event → Draft → Prop
  | once (kind : Line.ofText line = .once) :
      Acts reader draft file number line [] (draft.markOnce file)
  | follow (tokens : List Text) (next : Draft) (kind : Line.ofText line = .anki tokens)
      (followed : draft.follow file number tokens = .ok next) :
      Acts reader draft file number line [] next
  | skip (name : Text) (names : (Line.ofText line).included? = some name)
      (barred : name ∈ draft.once) : Acts reader draft file number line [] draft
  | enter (name text : Text) (names : (Line.ofText line).included? = some name)
      (free : name ∉ draft.once) (found : reader name = .ok text) :
      Acts reader draft file number line [.opens name] draft

/-- Lines are read one after the other: code is kept and all others are acted upon. -/
inductive Runs (reader : FileReader) : Draft → List Event → Draft → Prop
  | nil (draft : Draft) : Runs reader draft [] draft
  | code {draft last : Draft} {file : Text} {number : Nat} {line : Text} {events : List Event}
      (kind : Line.ofText line = .code) (rest : Runs reader (draft.pushCode line) events last) :
      Runs reader draft (.reads file number line :: events) last
  | act {draft next last : Draft} {file : Text} {number : Nat} {line : Text}
      {opened events : List Event} (acts : Acts reader draft file number line opened next)
      (rest : Runs reader next events last) :
      Runs reader draft (.reads file number line :: (opened ++ events)) last

section

variable {reader : FileReader} {draft next last : Draft} {file : Text} {number : Nat} {line : Text}
  {opened events before after : List Event}

theorem Runs.append (h : Runs reader draft events next) (more : Runs reader next after last) :
    Runs reader draft (events ++ after) last := by
  induction h with
  | nil => exact more
  | code kind _ ih => exact .code kind (ih more)
  | act acts _ ih =>
    rw [List.cons_append, List.append_assoc]
    exact .act acts (ih more)

theorem Acts.run (h : Acts reader draft file number line opened next) :
    Runs reader draft (.reads file number line :: opened) next :=
  List.append_nil opened ▸ .act h (.nil next)

/-- A line that acts reads no other line itself. -/
theorem Acts.line?_eq_none (h : Acts reader draft file number line opened next) :
    ∀ event ∈ opened, event.line? = none := by
  cases h with
  | once | follow | skip => simp
  | enter => simp [Event.line?]

/-- What a line of a run does depends on what has been declared by the lines before it. -/
theorem Runs.exists_at (h : Runs reader draft (before ++ .reads file number line :: after) last) :
    ∃ mid, Runs reader draft before mid ∧ (Line.ofText line = .code ∨
      ∃ opened next rest, Acts reader mid file number line opened next ∧
        after = opened ++ rest) := by
  generalize hevents : before ++ .reads file number line :: after = events at h
  induction h generalizing before with
  | nil => simp at hevents
  | @code draft last other place first events kind rest ih =>
    cases before with
    | nil =>
      obtain ⟨hhead, -⟩ := List.cons.inj hevents
      obtain ⟨-, -, rfl⟩ := Event.reads.inj hhead
      exact ⟨draft, .nil draft, Or.inl kind⟩
    | cons event before =>
      obtain ⟨rfl, htail⟩ := List.cons.inj hevents
      obtain ⟨mid, hrun, hline⟩ := ih htail
      exact ⟨mid, .code kind hrun, hline⟩
  | @act draft next last other place first opened events acts rest ih =>
    cases before with
    | nil =>
      obtain ⟨hhead, rfl⟩ := List.cons.inj hevents
      obtain ⟨rfl, rfl, rfl⟩ := Event.reads.inj hhead
      exact ⟨draft, .nil draft, Or.inr ⟨opened, next, events, acts, rfl⟩⟩
    | cons event before =>
      obtain ⟨rfl, htail⟩ := List.cons.inj hevents
      -- The line is behind what the first one opens, since that is no line.
      rcases List.append_eq_append_iff.mp htail with ⟨back, hopened, hback⟩ | ⟨front, rfl, hfront⟩
      · cases back with
        | nil =>
          rw [List.append_nil] at hopened
          subst hopened
          obtain ⟨mid, hrun, hline⟩ := @ih [] hback
          exact ⟨mid, by simpa using acts.run.append hrun, hline⟩
        | cons event back =>
          obtain ⟨rfl, -⟩ := List.cons.inj hback
          have hnone := acts.line?_eq_none (.reads file number line) (by simp [hopened])
          cases hnone
      · obtain ⟨mid, hrun, hline⟩ := ih hfront.symm
        exact ⟨mid, .act acts hrun, hline⟩

/-! ## 2. Whole readings -/

/-- A reading that ends well is a run; one that fails is a run up to the line that fails, and no
line is read behind that one. -/
structure Ran (reader : FileReader) (draft : Draft) (events : List Event)
    (outcome : Except ParseError Draft) : Prop where
  ok : ∀ last, outcome = .ok last → Runs reader draft events last
  error : ∀ e, outcome = .error e → ∃ before line after mid,
    events = before ++ .reads e.file e.line line :: after ∧ Runs reader draft before mid ∧
      ∀ event ∈ after, event.line? = none

theorem ran_of_runs (h : Runs reader draft events next) : Ran reader draft events (.ok next) where
  ok := fun last hlast => Except.ok.inj hlast ▸ h
  error := by simp

theorem ran_of_fault {cause : Cause} (hafter : ∀ event ∈ after, event.line? = none) :
    Ran reader draft (.reads file number line :: after) (.error ⟨file, number, cause⟩) where
  ok := by simp
  error := by
    intro e he
    obtain rfl := Except.error.inj he
    exact ⟨[], line, after, draft, rfl, .nil draft, hafter⟩

theorem Ran.append {outcome : Except ParseError Draft} (h : Ran reader draft events (.ok next))
    (more : Ran reader next after outcome) : Ran reader draft (events ++ after) outcome where
  ok := fun last hlast => (h.ok next rfl).append (more.ok last hlast)
  error := by
    intro e he
    obtain ⟨before, line, rest, mid, rfl, hrun, hrest⟩ := more.error e he
    exact ⟨events ++ before, line, rest, mid, by rw [List.append_assoc],
      (h.ok next rfl).append hrun, hrest⟩

theorem traceable_ran (reader : FileReader) : Traceable reader (Ran reader) where
  nil := fun draft => ran_of_runs (.nil draft)
  append := fun draft events next events' outcome hfirst hsecond => hfirst.append hsecond
  fault := fun draft file number line cause => ran_of_fault (by simp)
  once := fun draft file number line kind => ran_of_runs (Acts.once kind).run
  follow := fun draft file number line tokens next kind hfollow =>
    ran_of_runs (Acts.follow tokens next kind hfollow).run
  code := fun draft file number line kind => ran_of_runs (.code kind (.nil _))
  skip := fun draft file number line name names honce =>
    ran_of_runs (Acts.skip name names honce).run
  unreadable := fun draft file number line name cause names honce =>
    ran_of_fault (by simp [Event.line?])
  enter := fun draft file number line name room included names honce hread hfile =>
    (ran_of_runs (Acts.enter name included names honce hread).run).append hfile

/-- Every line that is read is code, acts, or is the line that the reading fails at. -/
theorem Ran.exists_at {outcome : Except ParseError Draft}
    (h : Ran reader draft (before ++ .reads file number line :: after) outcome) :
    (∃ mid, Runs reader draft before mid ∧ (Line.ofText line = .code ∨
      ∃ opened next rest, Acts reader mid file number line opened next ∧ after = opened ++ rest)) ∨
    ((∃ cause, outcome = .error ⟨file, number, cause⟩) ∧ ∀ event ∈ after, event.line? = none) := by
  cases outcome with
  | ok last => exact Or.inl (h.ok last rfl).exists_at
  | error e =>
    obtain ⟨before', line', after', mid, hevents, hrun, hafter⟩ := h.error e rfl
    rcases List.append_eq_append_iff.mp hevents with ⟨front, rfl, hfront⟩ | ⟨back, rfl, hback⟩
    · cases front with
      | nil =>
        obtain ⟨hhead, rfl⟩ := List.cons.inj hfront
        obtain ⟨rfl, rfl, rfl⟩ := Event.reads.inj hhead
        exact Or.inr ⟨⟨e.cause, rfl⟩, hafter⟩
      | cons event front =>
        obtain ⟨rfl, rfl⟩ := List.cons.inj hfront
        obtain ⟨mid, hrun, hline⟩ := hrun.exists_at
        refine Or.inl ⟨mid, hrun, hline.imp_right ?_⟩
        rintro ⟨opened, next, rest, hacts, rfl⟩
        exact ⟨opened, next, _, hacts, List.append_assoc _ _ _⟩
    -- Behind the line that fails none is read.
    · cases back with
      | nil =>
        obtain ⟨hhead, rfl⟩ := List.cons.inj hback
        obtain ⟨rfl, rfl, rfl⟩ := Event.reads.inj hhead
        exact Or.inr ⟨⟨e.cause, rfl⟩, hafter⟩
      | cons event back =>
        obtain ⟨-, rfl⟩ := List.cons.inj hback
        have hnone := hafter (.reads file number line) (by simp)
        cases hnone

/-! ## 3. Lines of files that are opened -/

/-- All lines of the files that are opened are read. -/
def ReadsAll (reader : FileReader) (events : List Event) (outcome : Except ParseError Draft) :
    Prop :=
  ∀ last, outcome = .ok last → ∀ name text, .opens name ∈ events → reader name = .ok text →
    ∀ place line, (Text.lines text)[place]? = some line → .reads name (place + 1) line ∈ events

theorem mem_linesEvents
    {enter : (line : Nat) → (name : Text) → Draft → Except ParseError Draft}
    {entered : (name : Text) → Draft → List Event} {seenOnce : Bool} {lines : List Text}
    (h : readLines enter file number seenOnce lines draft = .ok last) {place : Nat}
    (hline : lines[place]? = some line) :
    .reads file (number + place) line ∈
      linesEvents enter entered file number seenOnce lines draft := by
  induction lines generalizing number seenOnce draft place with
  | nil => simp at hline
  | cons first rest ih =>
    obtain ⟨next, hnext, hrest⟩ := exists_of_readLines_cons h
    rw [linesEvents, hnext]
    cases place with
    | zero =>
      obtain rfl : first = line := Option.some.inj hline
      exact List.mem_append_left _ List.mem_cons_self
    | succ place =>
      refine List.mem_append_right _ ?_
      rw [show number + (place + 1) = number + 1 + place by omega]
      exact ih hrest hline

/-- A file that could be read was read to its end. -/
theorem mem_fileEvents {room : Nat} {text : Text}
    (h : Draft.readFile reader room file text draft = .ok last) {place : Nat}
    (hline : (Text.lines text)[place]? = some line) :
    .reads file (place + 1) line ∈ fileEvents reader room file text draft := by
  rw [readFile_eq] at h
  rw [fileEvents_eq, Nat.add_comm]
  exact mem_linesEvents h hline

theorem readsAll_of_notMem {outcome : Except ParseError Draft}
    (h : ∀ name, .opens name ∉ events) : ReadsAll reader events outcome :=
  fun _ _ name _ hopened => absurd hopened (h name)

/-- A file is read to its end where it is opened, and so are those that it includes. -/
theorem readsAll_opened {name text : Text} {room : Nat} (opening : List Event)
    (hopening : ∀ other, .opens other ∈ opening → other = name) (hread : reader name = .ok text)
    (h : ReadsAll reader (fileEvents reader room name text draft)
      (Draft.readFile reader room name text draft)) :
    ReadsAll reader (opening ++ fileEvents reader room name text draft)
      (Draft.readFile reader room name text draft) := by
  intro last hlast other found hopened hfound place line hline
  refine List.mem_append_right _ ?_
  rcases List.mem_append.mp hopened with hopened | hopened
  · obtain rfl := hopening other hopened
    obtain rfl : text = found := Except.ok.inj (hread.symm.trans hfound)
    exact mem_fileEvents hlast hline
  · exact h last hlast other found hopened hfound place line hline

theorem traceable_readsAll (reader : FileReader) :
    Traceable reader fun _ events outcome => ReadsAll reader events outcome where
  nil := fun draft => readsAll_of_notMem (by simp)
  append := by
    intro draft events next events' outcome hfirst hsecond last hlast name text hopened hread
      place line hline
    rcases List.mem_append.mp hopened with hopened | hopened
    · exact List.mem_append_left _ (hfirst next rfl name text hopened hread place line hline)
    · exact List.mem_append_right _ (hsecond last hlast name text hopened hread place line hline)
  fault := fun draft file number line cause => readsAll_of_notMem (by simp)
  once := fun draft file number line kind => readsAll_of_notMem (by simp)
  follow := fun draft file number line tokens next kind hfollow => readsAll_of_notMem (by simp)
  code := fun draft file number line kind => readsAll_of_notMem (by simp)
  skip := fun draft file number line name names honce => readsAll_of_notMem (by simp)
  unreadable := fun draft file number line name cause names honce last hlast => by cases hlast
  enter := fun draft file number line name room included names honce hread hfile =>
    readsAll_opened [.reads file number line, .opens name] (by simp) hread hfile

end

end Draft

end ShaderVariants
