import ShaderVariants.Proofs.Program.Step
import ShaderVariants.Proofs.Program.Trace

/-!
# Files that are read once

A file is not opened any more once its `#pragma once` has been read, by whatever includes and in
whatever file they stand (`Draft.traceable_barring`).  A file whose pragma stands in front of its
includes is therefore opened once at most, and no line of it is read twice
(`Program.opened_once_of_once`).
-/

namespace ShaderVariants

/-- Whether the event reads the line of a file that bars the file from being read again. -/
def Event.Bars (file : Text) (event : Event) : Prop :=
  ∃ number line, event = .reads file number line ∧ Line.ofText line = .once

/-- Whether the event reads the line of a file with the given number. -/
def Event.isAt (file : Text) (number : Nat) : Event → Bool
  | .reads other place _ => other == file && place == number
  | .opens _ => false

/-- Whether there is a line that bars the file in front of all lines that include another. -/
def barsFirst : List Text → Bool
  | [] => false
  | line :: rest =>
    (Line.ofText line).isOnce || (!(Line.ofText line).isInclude && barsFirst rest)

namespace Draft

/-! ## 1. Barred files -/

/-- What a reading keeps: a file that is barred is not opened, files stay barred, and those whose
pragma is read are barred from then on. -/
structure Barring (draft : Draft) (events : List Event) (outcome : Except ParseError Draft) :
    Prop where
  closed : ∀ file ∈ draft.once, .opens file ∉ events
  kept : ∀ next, outcome = .ok next → ∀ file ∈ draft.once, file ∈ next.once
  barred : ∀ next, outcome = .ok next → ∀ file, (∃ event ∈ events, event.Bars file) →
    file ∈ next.once
  ordered : events.Pairwise fun earlier later =>
    ∀ file, earlier.Bars file → later ≠ .opens file

/-- A line that opens no file and, if it bars one, leaves it barred. -/
theorem barring_line {draft : Draft} {file : Text} {number : Nat} {line : Text}
    {outcome : Except ParseError Draft}
    (hkept : ∀ next, outcome = .ok next → ∀ other ∈ draft.once, other ∈ next.once)
    (hbarred : ∀ next, outcome = .ok next → Line.ofText line = .once → file ∈ next.once) :
    draft.Barring [.reads file number line] outcome where
  closed := by simp
  kept := hkept
  barred := by
    rintro next hnext other ⟨event, hevent, place, text, rfl, hline⟩
    obtain ⟨rfl, -, rfl⟩ := Event.reads.inj (List.mem_singleton.mp hevent)
    exact hbarred next hnext hline
  ordered := List.pairwise_singleton _ _

theorem traceable_barring (reader : FileReader) : Traceable reader Barring where
  nil := fun draft => by
    refine ⟨by simp, fun next hnext file hfile => ?_, by simp, List.Pairwise.nil⟩
    exact Except.ok.inj hnext ▸ hfile
  append := by
    intro draft events next events' outcome hfirst hsecond
    have hkept := hfirst.kept next rfl
    have hbarred := hfirst.barred next rfl
    constructor
    · intro file hfile hopened
      rcases List.mem_append.mp hopened with hopened | hopened
      · exact hfirst.closed file hfile hopened
      · exact hsecond.closed file (hkept file hfile) hopened
    · exact fun last hlast file hfile => hsecond.kept last hlast file (hkept file hfile)
    · rintro last hlast file ⟨event, hevent, hbars⟩
      rcases List.mem_append.mp hevent with hevent | hevent
      · exact hsecond.kept last hlast file (hbarred file ⟨event, hevent, hbars⟩)
      · exact hsecond.barred last hlast file ⟨event, hevent, hbars⟩
    -- What bars a file has barred it when the second part starts.
    · refine List.pairwise_append.mpr ⟨hfirst.ordered, hsecond.ordered, ?_⟩
      rintro earlier hearlier later hlater file hbars rfl
      exact hsecond.closed file (hbarred file ⟨earlier, hearlier, hbars⟩) hlater
  fault := fun draft file number line cause => barring_line (by simp) (by simp)
  once := by
    intro draft file number line hline
    refine barring_line (fun next hnext other hother => ?_) fun next hnext _ => ?_
    · exact Except.ok.inj hnext ▸ List.mem_cons_of_mem file hother
    · exact Except.ok.inj hnext ▸ List.mem_cons_self
  follow := by
    intro draft file number line tokens next hline hfollow
    refine barring_line (fun last hlast other hother => ?_) fun last hlast honce => ?_
    · obtain rfl := Except.ok.inj hlast
      exact once_of_follow hfollow ▸ hother
    · rw [hline] at honce
      cases honce
  code := by
    intro draft file number line hline
    refine barring_line (fun last hlast other hother => ?_) fun last hlast honce => ?_
    · obtain rfl := Except.ok.inj hlast
      exact once_pushCode draft line ▸ hother
    · rw [hline] at honce
      cases honce
  skip := by
    intro draft file number line name hname honce
    refine barring_line (fun last hlast other hother => ?_) fun last hlast honce => ?_
    · exact Except.ok.inj hlast ▸ hother
    · rw [honce] at hname
      cases hname
  unreadable := by
    intro draft file number line name cause hname honce
    refine ⟨fun other hother hopened => ?_, by simp, by simp, ?_⟩
    · obtain rfl : other = name := by simpa using hopened
      exact honce hother
    · refine List.pairwise_pair.mpr ?_
      rintro other ⟨place, text, heq, hline⟩
      obtain ⟨-, -, rfl⟩ := Event.reads.inj heq
      rw [hline] at hname
      cases hname
  enter := by
    intro draft file number line name room included hname honce hread hfile
    have hinclude : ∀ other, ¬ (Event.reads file number line).Bars other := by
      rintro other ⟨place, text, heq, hline⟩
      obtain ⟨-, -, rfl⟩ := Event.reads.inj heq
      rw [hline] at hname
      cases hname
    have hopens : ∀ other, ¬ (Event.opens name).Bars other := by
      rintro other ⟨place, text, heq, -⟩
      cases heq
    constructor
    · intro other hother hopened
      rcases List.mem_cons.mp hopened with hopened | hopened
      · cases hopened
      rcases List.mem_cons.mp hopened with hopened | hopened
      · obtain rfl := Event.opens.inj hopened
        exact honce hother
      · exact hfile.closed other hother hopened
    · exact hfile.kept
    · rintro next hnext other ⟨event, hevent, hbars⟩
      rcases List.mem_cons.mp hevent with rfl | hevent
      · exact absurd hbars (hinclude other)
      rcases List.mem_cons.mp hevent with rfl | hevent
      · exact absurd hbars (hopens other)
      · exact hfile.barred next hnext other ⟨event, hevent, hbars⟩
    · refine List.pairwise_cons.mpr ⟨fun later _ other hbars => absurd hbars (hinclude other), ?_⟩
      refine List.pairwise_cons.mpr ⟨fun later _ other hbars => absurd hbars (hopens other), ?_⟩
      exact hfile.ordered

/-! ## 2. Files that bar themselves first -/

/-- A file that bars itself in front of its includes is not opened again while it is read, and is
barred behind it. -/
theorem notMem_of_barsFirst {reader : FileReader} {room number : Nat} {file : Text}
    {seenOnce : Bool} {lines : List Text} {draft : Draft} (hlines : barsFirst lines = true) :
    .opens file ∉ linesEvents (enter reader room file) (entered reader room) file number seenOnce
        lines draft ∧
      ∀ last, readLines (enter reader room file) file number seenOnce lines draft = .ok last →
        file ∈ last.once := by
  induction lines generalizing number seenOnce draft with
  | nil => cases hlines
  | cons line rest ih =>
    rw [linesEvents, readLines_cons, lineEvents]
    have hnone : (Line.ofText line).included? = none := by
      cases hkind : Line.ofText line with
      | fileInclude tokens =>
        rw [barsFirst, hkind] at hlines
        cases hlines
      | once | onceWithArguments | anki | code => rfl
    rw [hnone]
    cases hnext : readLine (enter reader room file) file number seenOnce line draft with
    | error e => simp
    | ok next =>
      by_cases honce : Line.ofText line = .once
      -- Behind the pragma the file is barred, so nothing opens it.
      · have hmember : file ∈ next.once := by
          rw [readLine, honce] at hnext
          dsimp only at hnext
          split at hnext
          · cases hnext
          · exact Except.ok.inj hnext ▸ List.mem_cons_self
        have hrest := (traceable_barring reader).readLines_self room file (number + 1)
          (seenOnce || (Line.ofText line).isOnce) rest next
        refine ⟨fun hopened => ?_, fun last hlast => hrest.kept last hlast file hmember⟩
        rcases List.mem_cons.mp hopened with hopened | hopened
        · cases hopened
        · exact hrest.closed file hmember hopened
      · have hrest : barsFirst rest = true := by
          have hkind : (Line.ofText line).isOnce = false := by
            cases h : Line.ofText line with
            | once => exact absurd h honce
            | fileInclude | onceWithArguments | anki | code => rfl
          rw [barsFirst, hkind, Bool.false_or, Bool.and_eq_true] at hlines
          exact hlines.2
        obtain ⟨hevents, hlast⟩ := ih hrest
        refine ⟨fun hopened => ?_, hlast⟩
        rcases List.mem_cons.mp hopened with hopened | hopened
        · cases hopened
        · exact hevents hopened

/-- What a reading keeps of a file that bars itself first: it is opened once at most, and if it was
opened it is barred from then on. -/
structure OpenedOnce (file : Text) (draft : Draft) (events : List Event)
    (outcome : Except ParseError Draft) : Prop where
  barring : draft.Barring events outcome
  count_le : events.count (.opens file) ≤ 1
  barred : ∀ next, outcome = .ok next → .opens file ∈ events → file ∈ next.once

theorem openedOnce_line {file : Text} {draft : Draft} {other : Text} {number : Nat} {line : Text}
    {outcome : Except ParseError Draft} (h : draft.Barring [.reads other number line] outcome) :
    OpenedOnce file draft [.reads other number line] outcome where
  barring := h
  count_le := by simp
  barred := by simp

theorem traceable_openedOnce {reader : FileReader} {file : Text}
    (hfile : ∀ text, reader file = .ok text → barsFirst (Text.lines text) = true) :
    Traceable reader (OpenedOnce file) where
  nil := fun draft => ⟨(traceable_barring reader).nil draft, by simp, by simp⟩
  append := by
    intro draft events next events' outcome hfirst hsecond
    refine ⟨(traceable_barring reader).append _ _ _ _ _ hfirst.barring hsecond.barring, ?_, ?_⟩
    · rw [List.count_append]
      by_cases hopened : .opens file ∈ events
      -- A file that was opened in the first part is barred in the second one.
      · have hclosed := hsecond.barring.closed file (hfirst.barred next rfl hopened)
        rw [List.count_eq_zero_of_not_mem hclosed]
        exact hfirst.count_le
      · rw [List.count_eq_zero_of_not_mem hopened, Nat.zero_add]
        exact hsecond.count_le
    · intro last hlast hopened
      rcases List.mem_append.mp hopened with hopened | hopened
      · exact hsecond.barring.kept last hlast file (hfirst.barred next rfl hopened)
      · exact hsecond.barred last hlast hopened
  fault := fun draft other number line cause =>
    openedOnce_line ((traceable_barring reader).fault draft other number line cause)
  once := fun draft other number line hline =>
    openedOnce_line ((traceable_barring reader).once draft other number line hline)
  follow := fun draft other number line tokens next hline hfollow =>
    openedOnce_line
      ((traceable_barring reader).follow draft other number line tokens next hline hfollow)
  code := fun draft other number line hline =>
    openedOnce_line ((traceable_barring reader).code draft other number line hline)
  skip := fun draft other number line name hname honce =>
    openedOnce_line ((traceable_barring reader).skip draft other number line name hname honce)
  unreadable := by
    intro draft other number line name cause hname honce
    refine ⟨(traceable_barring reader).unreadable draft other number line name cause hname honce,
      ?_, by simp⟩
    rw [List.count_cons_of_ne (by simp)]
    exact List.count_le_length
  enter := by
    intro draft other number line name room included hname honce hread hbelow
    refine ⟨(traceable_barring reader).enter draft other number line name room included hname honce
      hread hbelow.barring, ?_, ?_⟩
    · rw [List.count_cons_of_ne (by simp)]
      by_cases heq : name = file
      · subst heq
        rw [List.count_cons_self, fileEvents_eq]
        refine Nat.succ_le_succ (Nat.le_of_eq (List.count_eq_zero_of_not_mem ?_))
        exact (notMem_of_barsFirst (hfile included hread)).1
      · rw [List.count_cons_of_ne (by simpa using heq)]
        exact hbelow.count_le
    · intro next hnext hopened
      by_cases heq : name = file
      · subst heq
        rw [readFile_eq] at hnext
        exact (notMem_of_barsFirst (hfile included hread)).2 next hnext
      · refine hbelow.barred next hnext ?_
        simpa [Ne.symm heq] using hopened

/-! ## 3. Lines that are read -/

/-- A line of a file is read at most as often as the file is opened. -/
theorem countP_linesEvents_le {reader : FileReader} {room : Nat} {name : Text} {place : Nat}
    (hentered : ∀ other draft, (entered reader room other draft).countP (Event.isAt name place) ≤
      (entered reader room other draft).count (.opens name))
    (file : Text) (number : Nat) (seenOnce : Bool) (lines : List Text) (draft : Draft) :
    (linesEvents (enter reader room file) (entered reader room) file number seenOnce lines
        draft).countP (Event.isAt name place) ≤
      (linesEvents (enter reader room file) (entered reader room) file number seenOnce lines
        draft).count (.opens name) + if file = name ∧ number ≤ place then 1 else 0 := by
  induction lines generalizing number seenOnce draft with
  | nil => simp [linesEvents]
  | cons line rest ih =>
    rw [linesEvents, List.countP_append, List.count_append]
    -- The line itself has the number before those of the lines behind it.
    have hline : (lineEvents (entered reader room) file number line draft).countP
          (Event.isAt name place) ≤
        (lineEvents (entered reader room) file number line draft).count (.opens name) +
          if file = name ∧ number = place then 1 else 0 := by
      rw [lineEvents, List.countP_cons, List.count_cons_of_ne (by simp)]
      simp only [Event.isAt, Bool.and_eq_true, beq_iff_eq]
      refine Nat.add_le_add_right ?_ _
      cases (Line.ofText line).included? with
      | none => simp
      | some other => exact hentered other draft
    cases readLine (enter reader room file) file number seenOnce line draft with
    | error e =>
      rw [List.countP_nil, List.count_nil]
      by_cases hfile : file = name
      · simp only [hfile, true_and] at hline ⊢
        split_ifs at hline ⊢ <;> omega
      · simp only [hfile, false_and, if_false] at hline ⊢
        omega
    | ok next =>
      have hrest := ih (number + 1) (seenOnce || (Line.ofText line).isOnce) next
      by_cases hfile : file = name
      · simp only [hfile, true_and] at hline hrest ⊢
        split_ifs at hline hrest ⊢ <;> omega
      · simp only [hfile, false_and, if_false] at hline hrest ⊢
        omega

theorem countP_fileEvents_le (reader : FileReader) (room : Nat) (file text : Text) (draft : Draft)
    (name : Text) (place : Nat) :
    (fileEvents reader room file text draft).countP (Event.isAt name place) ≤
      (fileEvents reader room file text draft).count (.opens name) +
        if file = name then 1 else 0 := by
  have hfile : ∀ room, (∀ other draft,
      (entered reader room other draft).countP (Event.isAt name place) ≤
        (entered reader room other draft).count (.opens name)) → ∀ file text draft,
      (fileEvents reader room file text draft).countP (Event.isAt name place) ≤
        (fileEvents reader room file text draft).count (.opens name) +
          if file = name then 1 else 0 := by
    intro room hentered file text draft
    rw [fileEvents_eq]
    have hlines := countP_linesEvents_le hentered file 1 false (Text.lines text) draft
    split_ifs at hlines ⊢ <;> first | omega | simp_all
  induction room generalizing file text draft with
  | zero => exact hfile 0 (fun other draft => by simp [entered]) file text draft
  | succ room ih =>
    refine hfile (room + 1) (fun other draft => ?_) file text draft
    rw [entered]
    split
    · simp
    · rw [List.countP_cons, List.count_cons]
      cases reader other with
      | error reason => simp [Event.isAt]
      | ok included =>
        have hbelow := ih other included draft
        simpa [Event.isAt] using hbelow

end Draft

/-! ## 4. Programs -/

namespace Program

theorem countP_events_le (reader : FileReader) (fileName name : Text) (place : Nat) :
    (events reader fileName).countP (Event.isAt name place) ≤
      (events reader fileName).count (.opens name) := by
  rw [events, List.countP_cons, List.count_cons]
  cases reader fileName with
  | error reason => simp [Event.isAt]
  | ok text =>
    have hfile := Draft.countP_fileEvents_le reader maxIncludeDepth fileName text .empty name place
    simpa [Event.isAt] using hfile

theorem count_opens_le_one {reader : FileReader} (fileName : Text) {file : Text}
    (hfile : ∀ text, reader file = .ok text → barsFirst (Text.lines text) = true) :
    (events reader fileName).count (.opens file) ≤ 1 := by
  rw [events]
  cases hroot : reader fileName with
  | error reason => exact List.count_le_length
  | ok text =>
    by_cases heq : fileName = file
    -- The root bars itself before any include can open it again.
    · subst heq
      have hclosed : .opens fileName ∉ Draft.fileEvents reader maxIncludeDepth fileName text .empty := by
        rw [Draft.fileEvents_eq]
        exact (Draft.notMem_of_barsFirst (hfile text hroot)).1
      rw [List.count_cons_self]
      exact Nat.succ_le_succ (Nat.le_of_eq (List.count_eq_zero_of_not_mem hclosed))
    · rw [List.count_cons_of_ne (by simpa using heq)]
      exact ((Draft.traceable_openedOnce hfile).readFile maxIncludeDepth fileName text
        .empty).count_le

/-- Once the pragma that bars a file has been read, the file is not opened any more.  So a file
whose pragma stands in front of its includes has no line that is read twice.  The trace in which
this holds leaves nothing out: a reader that gives the same for the files opened in it leads to the
same program. -/
theorem opened_once_of_once (reader : FileReader) (fileName : Text) :
    ((events reader fileName).Pairwise fun earlier later =>
      ∀ file, earlier.Bars file → later ≠ .opens file) ∧
    (∀ file, (∀ text, reader file = .ok text → barsFirst (Text.lines text) = true) →
      ∀ number, (events reader fileName).countP (Event.isAt file number) ≤ 1) ∧
    ∀ other : FileReader, (∀ name, .opens name ∈ events reader fileName →
        other name = reader name) →
      ∀ settings, Program.read other settings fileName = Program.read reader settings fileName := by
  refine ⟨?_, fun file hfile number => ?_, fun other hopens settings => read_congr hopens settings⟩
  · rw [events]
    refine List.pairwise_cons.mpr ⟨?_, ?_⟩
    · rintro later - file ⟨number, line, heq, -⟩
      cases heq
    · cases reader fileName with
      | error reason => exact List.Pairwise.nil
      | ok text =>
        exact ((Draft.traceable_barring reader).readFile maxIncludeDepth fileName text
          .empty).ordered
  · exact Nat.le_trans (countP_events_le reader fileName file number)
      (count_opens_le_one fileName hfile)

/-- A root that bars itself and two files that include each other and the root. -/
def carouselReader : FileReader :=
  .ofFiles
    [("carousel".toList,
      Text.unlines
        ["#pragma once".toList, "#include \"horse\"".toList, "#include \"carousel\"".toList,
         "#include <horse>".toList, "#pragma anki start frag".toList,
         "#include \"bell\"".toList, "#pragma anki end".toList]),
     ("horse".toList,
      Text.unlines
        ["#pragma anki mutator SPEED 0 1".toList, "#pragma once".toList,
         "#include \"bell\"".toList, "float ride();".toList]),
     ("bell".toList,
      Text.unlines ["#include \"horse\"".toList, "#include <carousel>".toList])]

theorem opened_once_of_once_carousel :
    (∀ text, carouselReader "horse".toList = .ok text → barsFirst (Text.lines text) = true) ∧
      (∃ program, Program.read carouselReader .default "carousel".toList = .ok program ∧
        program.globals = ["float ride();".toList]) ∧
      (events carouselReader "carousel".toList).count (.opens "bell".toList) = 2 ∧
      ∀ number, (events carouselReader "carousel".toList).countP
        (Event.isAt "horse".toList number) ≤ 1 := by
  have hhorse : ∀ text, carouselReader "horse".toList = .ok text →
      barsFirst (Text.lines text) = true := by
    intro text htext
    obtain rfl : Text.unlines
        ["#pragma anki mutator SPEED 0 1".toList, "#pragma once".toList,
         "#include \"bell\"".toList, "float ride();".toList] = text :=
      Except.ok.inj ((show carouselReader "horse".toList = _ by decide).symm.trans htext)
    decide +kernel
  have hbell : (events carouselReader "carousel".toList).count (.opens "bell".toList) = 2 := by
    unfold carouselReader
    repeat rewrite [String.toList_ofList]
    decide +kernel
  refine ⟨hhorse, ?_, hbell, ?_⟩
  · have hglobals : (Program.read carouselReader .default "carousel".toList).map
        Program.globals = .ok ["float ride();".toList] := by
      -- A literal is spelled out once, in the goal, and not wherever the evaluation looks at it.
      unfold carouselReader
      repeat rewrite [String.toList_ofList]
      decide +kernel
    cases hread : Program.read carouselReader .default "carousel".toList with
    | error e =>
      rw [hread] at hglobals
      cases hglobals
    | ok program =>
      rw [hread] at hglobals
      exact ⟨program, rfl, Except.ok.inj hglobals⟩
  · exact (opened_once_of_once carouselReader "carousel".toList).2.1 "horse".toList hhorse

end Program

end ShaderVariants
