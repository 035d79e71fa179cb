import Mathlib.Data.Finset.Card
import ShaderVariants.Proofs.Disk.Places
import ShaderVariants.Proofs.Program.OnceOnly
import ShaderVariants.Proofs.Variant.Consumed

/-!
# Spellings of a file

Files on a disk are found by many names (`Search.find?_dot_slash`, `Search.find?_through`), while a
file is barred from being read again under the name that it was opened by.  So a file that bars
itself in its first line is read once for each spelling that includes use for it
(`Program.read_once_per_spelling`), and no more than once exactly if they all agree.
-/

namespace ShaderVariants

/-! ## 1. Names that lead to one place -/

namespace Search

theorem locate_append_slash {segment : Text} (h : '/' ∉ segment) (dir : Place) (name : Text) :
    locate dir (segment ++ '/' :: name) = locate (step dir segment) name := by
  rw [locate, Path.segments_append_slash h, List.foldl_cons, locate]

theorem find?_congr {name other : Text} (h : ∀ dir, locate dir name = locate dir other)
    (disk : Disk) (dirs : List Place) : find? disk dirs name = find? disk dirs other := by
  rw [find?, find?, List.map_congr_left fun dir _ => h dir]

/-- A dot in front of a name does not matter. -/
theorem find?_dot_slash (disk : Disk) (dirs : List Place) (name : Text) :
    find? disk dirs ("./".toList ++ name) = find? disk dirs name := by
  apply find?_congr
  intro dir
  show locate dir (['.'] ++ '/' :: name) = locate dir name
  rw [locate_append_slash (by decide)]
  rfl

/-- A directory that is left again does not matter, not even whether there is one. -/
theorem find?_through {through : Text} (h : Path.IsName through) (disk : Disk) (dirs : List Place)
    (name : Text) :
    find? disk dirs (through ++ "/../".toList ++ name) = find? disk dirs name := by
  apply find?_congr
  intro dir
  have hsplit : through ++ "/../".toList ++ name = through ++ '/' :: (Path.up ++ '/' :: name) := by
    simp [Path.up]
  rw [hsplit, locate_append_slash h.flat, locate_append_slash (by decide), step_of_isName h]
  have hback : step (dir ++ [through]) Path.up = dir := by
    rw [step, if_neg (by decide), if_pos rfl, List.dropLast_concat]
  rw [hback]

end Search

/-! ## 2. Readings of a line -/

/-- The name of the file that is opened. -/
def Event.opened? : Event → Option Text
  | .opens name => some name
  | .reads _ _ _ => none

/-- The name under which the line with the given number of the file at a place is read. -/
def Event.nameAt? (disk : Disk) (dirs : List Place) (place : Place) (number : Nat) :
    Event → Option Text
  | .reads name other _ =>
    if Search.find? disk dirs name = some place ∧ other = number then some name else none
  | .opens _ => none

/-- The names under which the line of a file is read, once for every time that it is read. -/
def readings (disk : Disk) (dirs : List Place) (place : Place) (number : Nat)
    (events : List Event) : List Text :=
  events.filterMap (Event.nameAt? disk dirs place number)

/-- The different names by which a file is opened. -/
def spellings (disk : Disk) (dirs : List Place) (place : Place) (events : List Event) : List Text :=
  (events.filterMap Event.opened?).dedup.filter fun name =>
    Search.find? disk dirs name = some place

section

variable {disk : Disk} {dirs : List Place} {place : Place} {number : Nat} {events : List Event}
  {name : Text}

theorem mem_spellings : name ∈ spellings disk dirs place events ↔
    .opens name ∈ events ∧ Search.find? disk dirs name = some place := by
  have hopened : name ∈ events.filterMap Event.opened? ↔ .opens name ∈ events := by
    rw [List.mem_filterMap]
    constructor
    · rintro ⟨event, hmem, hname⟩
      cases event with
      | opens other => exact Option.some.inj hname ▸ hmem
      | reads => cases hname
    · intro hmem
      exact ⟨.opens name, hmem, rfl⟩
  rw [spellings, List.mem_filter, List.mem_dedup, hopened, decide_eq_true_eq]

theorem nodup_spellings : (spellings disk dirs place events).Nodup :=
  (List.nodup_dedup _).filter _

/-- A file is opened by one spelling at most exactly if all the names that open it are equal. -/
theorem length_spellings_le_one_iff : (spellings disk dirs place events).length ≤ 1 ↔
    ∀ name other, .opens name ∈ events → .opens other ∈ events →
      Search.find? disk dirs name = some place → Search.find? disk dirs other = some place →
        name = other := by
  rw [← List.toFinset_card_of_nodup nodup_spellings, Finset.card_le_one]
  simp only [List.mem_toFinset, mem_spellings]
  constructor
  · intro h name other hname hother hfound hfound'
    exact h name ⟨hname, hfound⟩ other ⟨hother, hfound'⟩
  · intro h name hname other hother
    exact h name other hname.1 hother.1 hname.2 hother.2

theorem mem_readings : name ∈ readings disk dirs place number events ↔
    Search.find? disk dirs name = some place ∧ ∃ line, .reads name number line ∈ events := by
  rw [readings, List.mem_filterMap]
  constructor
  · rintro ⟨event, hmem, hname⟩
    cases event with
    | opens other => cases hname
    | reads other index line =>
      rw [Event.nameAt?] at hname
      split at hname
      · next hat =>
        obtain rfl := Option.some.inj hname
        exact ⟨hat.1, line, hat.2 ▸ hmem⟩
      · cases hname
  · rintro ⟨hfound, line, hmem⟩
    exact ⟨.reads name number line, hmem, if_pos ⟨hfound, rfl⟩⟩

/-- A line is read under a name at most as often as the file is opened by that name. -/
theorem count_readings_le (name : Text) :
    (readings disk dirs place number events).count name ≤
      events.countP (Event.isAt name number) := by
  rw [readings, List.count_filterMap]
  apply List.countP_mono_left
  intro event _ hname
  cases event with
  | opens other => cases hname
  | reads other index line =>
    rw [Event.nameAt?] at hname
    split at hname
    · next hat =>
      rw [beq_iff_eq, Option.some_inj] at hname
      simp [Event.isAt, hname, hat.2]
    · cases hname

end

/-! ## 3. Files that bar themselves -/

namespace Program

variable {disk : Disk} {dirs : List Place} {settings : Settings} {fileName : Text}
  {program : Program} {place : Place} {text : Text}

/-- A line of a file that bars itself first is not read twice under the same name. -/
theorem nodup_readings {first : Text} {rest : List Text} (htext : disk.readAt place = .ok text)
    (hlines : Text.lines text = first :: rest) (hfirst : Line.ofText first = .once)
    (number : Nat) :
    (readings disk dirs place number (events (Search.reader disk dirs) fileName)).Nodup := by
  rw [List.nodup_iff_count_le_one]
  intro name
  by_cases hname :
      name ∈ readings disk dirs place number (events (Search.reader disk dirs) fileName)
  · obtain ⟨hfound, -⟩ := mem_readings.mp hname
    have hbars : ∀ other, Search.reader disk dirs name = .ok other →
        barsFirst (Text.lines other) = true := by
      intro other hother
      obtain rfl := Except.ok.inj ((Search.reader_of_find? hfound htext).symm.trans hother)
      rw [hlines, barsFirst, hfirst]
      rfl
    -- Every reading comes from an opening, and the first opening bars all others.
    calc (readings disk dirs place number (events (Search.reader disk dirs) fileName)).count name
        ≤ (events (Search.reader disk dirs) fileName).countP (Event.isAt name number) :=
          count_readings_le name
      _ ≤ (events (Search.reader disk dirs) fileName).count (.opens name) :=
          countP_events_le (Search.reader disk dirs) fileName name number
      _ ≤ 1 := count_opens_le_one fileName hbars
  · rw [List.count_eq_zero_of_not_mem hname]
    exact Nat.zero_le 1

/-- No line is read of a file that was not opened. -/
theorem opens_of_reads {reader : FileReader} {name line : Text} {number : Nat}
    (h : .reads name number line ∈ events reader fileName) :
    .opens name ∈ events reader fileName := by
  have hpos : 0 < (events reader fileName).countP (Event.isAt name number) := by
    rw [List.countP_pos_iff]
    exact ⟨_, h, by simp [Event.isAt]⟩
  have hle := countP_events_le reader fileName name number
  exact List.count_pos_iff.mp (Nat.lt_of_lt_of_le hpos hle)

/-- Each line of a file that bars itself first is read under every spelling by which the file is
opened, and under each of them once. -/
theorem perm_readings_spellings {first : Text} {rest : List Text}
    (hread : Program.read (Search.reader disk dirs) settings fileName = .ok program)
    (htext : disk.readAt place = .ok text) (hlines : Text.lines text = first :: rest)
    (hfirst : Line.ofText first = .once) {index : Nat} (hindex : index < (Text.lines text).length) :
    (readings disk dirs place (index + 1) (events (Search.reader disk dirs) fileName)).Perm
      (spellings disk dirs place (events (Search.reader disk dirs) fileName)) := by
  -- Neither list has a name twice, so it is enough that they have the same names.
  apply (List.perm_ext_iff_of_nodup (nodup_readings htext hlines hfirst (index + 1))
    nodup_spellings).mpr
  intro name
  rw [mem_readings, mem_spellings, and_comm]
  apply and_congr_left
  intro hname
  constructor
  · rintro ⟨line, hline⟩
    exact opens_of_reads hline
  · intro hopened
    exact ⟨_, mem_events_of_opens hread hopened (Search.reader_of_find? hname htext)
      (List.getElem?_eq_getElem hindex)⟩

/-- A file whose first line bars it from being read again is read once for each spelling by which it
is opened.  So no line of it is read twice exactly if it is opened by one name only. -/
theorem read_once_per_spelling {first : Text} {rest : List Text}
    (hread : Program.read (Search.reader disk dirs) settings fileName = .ok program)
    (htext : disk.readAt place = .ok text) (hlines : Text.lines text = first :: rest)
    (hfirst : Line.ofText first = .once) :
    (∀ index < (Text.lines text).length,
      (readings disk dirs place (index + 1) (events (Search.reader disk dirs) fileName)).Perm
        (spellings disk dirs place (events (Search.reader disk dirs) fileName))) ∧
    ((∀ index < (Text.lines text).length,
      (readings disk dirs place (index + 1)
        (events (Search.reader disk dirs) fileName)).length ≤ 1) ↔
      ∀ name other, .opens name ∈ events (Search.reader disk dirs) fileName →
        .opens other ∈ events (Search.reader disk dirs) fileName →
        Search.find? disk dirs name = some place → Search.find? disk dirs other = some place →
          name = other) := by
  have hperm : ∀ index < (Text.lines text).length,
      (readings disk dirs place (index + 1) (events (Search.reader disk dirs) fileName)).Perm
        (spellings disk dirs place (events (Search.reader disk dirs) fileName)) :=
    fun _ hindex => perm_readings_spellings hread htext hlines hfirst hindex
  refine ⟨hperm, ?_⟩
  rw [← length_spellings_le_one_iff]
  constructor
  · intro h
    have hzero : 0 < (Text.lines text).length := by simp [hlines]
    rw [← (hperm 0 hzero).length_eq]
    exact h 0 hzero
  · intro h index hindex
    rw [(hperm index hindex).length_eq]
    exact h

end Program

/-! ## 4. A shelf -/

/-- What is found on a disk without files once some have been written is one of those. -/
theorem Disk.exists_of_isFile_putFiles {disk : Disk} {files : List (Place × Text)} {place : Place}
    (hempty : ∀ other, disk.isFile other = false) (hdistinct : (files.map Prod.fst).Nodup)
    (hroot : place ≠ []) (h : (disk.putFiles files).isFile place = true) :
    ∃ text, (place, text) ∈ files ∧ (disk.putFiles files).readAt place = .ok text := by
  have hwritten : place ∈ files.map Prod.fst := by
    by_contra hnot
    have hnone := hempty place
    rw [isFile, ← node?_putFiles_of_notMem hnot] at hnone
    rw [isFile, hnone] at h
    cases h
  obtain ⟨⟨_, text⟩, hmem, rfl⟩ := List.mem_map.mp hwritten
  exact ⟨text, hmem, readAt_of_node? (node?_putFiles hdistinct hroot hmem)⟩

/-- A book and a lamp that bar themselves, and a shelf that includes the lamp twice by one name and
the book by three. -/
def shelfFiles : List (Place × Text) :=
  [(["shop".toList, "shelf".toList],
    Text.unlines
      ["#include \"book\"".toList, "#include \"lamp\"".toList, "#include \"./book\"".toList,
       "#include <lamp>".toList, "#include <crate/../book>".toList,
       "#pragma anki start comp".toList, "#pragma anki end".toList]),
   (["shop".toList, "book".toList],
    Text.unlines ["#pragma once".toList, "float page;".toList]),
   (["shop".toList, "lamp".toList],
    Text.unlines ["#pragma once // one lamp".toList, "float light;".toList])]

def shelfDisk : Disk :=
  (Disk.empty ["shop".toList]).putFiles shelfFiles

/-- What the names of files lead to on that disk. -/
def shelfReader : FileReader := fun name =>
  match Search.find? shelfDisk [["shop".toList]] name with
  | none => .error (SearchFault.message (.nowhere [["shop".toList]]))
  | some place => .ok ((shelfFiles.lookup place).getD [])

theorem readAt_shelf {place : Place} (h : shelfDisk.isFile place = true) :
    shelfDisk.readAt place = .ok ((shelfFiles.lookup place).getD []) := by
  have hroot : place ≠ [] := by
    intro heq
    rw [heq] at h
    cases h
  have hempty : ∀ other, (Disk.empty ["shop".toList]).isFile other = false := by
    -- The places of the empty disk are few; nothing is at any other.
    have hkeys : ∀ other ∈ (Disk.empty ["shop".toList]).nodes.keys,
        (Disk.empty ["shop".toList]).isFile other = false := by
      decide +kernel
    intro other
    by_cases hother : other = []
    · rw [hother]
      rfl
    by_cases hmem : other ∈ (Disk.empty ["shop".toList]).nodes.keys
    · exact hkeys other hmem
    · rw [Disk.isFile, Disk.node?_eq_none hother hmem]
  obtain ⟨text, hmem, htext⟩ := Disk.exists_of_isFile_putFiles hempty (by decide) hroot h
  rw [shelfDisk, htext]
  rcases List.mem_cons.mp hmem with heq | hmem
  · cases heq
    rfl
  rcases List.mem_cons.mp hmem with heq | hmem
  · cases heq
    rfl
  · cases List.mem_singleton.mp hmem
    rfl

theorem reader_shelf : Search.reader shelfDisk [["shop".toList]] = shelfReader := by
  funext name
  rw [Search.reader, Search.read, shelfReader]
  cases hfound : Search.find? shelfDisk [["shop".toList]] name with
  | none => rfl
  | some place =>
    have hfile := List.find?_some hfound
    dsimp only
    rw [readAt_shelf hfile]

namespace Program

theorem read_shelf : ∃ program,
    Program.read (Search.reader shelfDisk [["shop".toList]]) .default "shelf".toList = .ok program ∧
      program.globals =
        ["float page;".toList, "float light;".toList, "float page;".toList,
         "float page;".toList] := by
  have hglobals : (Program.read shelfReader .default "shelf".toList).map Program.globals =
      .ok ["float page;".toList, "float light;".toList, "float page;".toList,
        "float page;".toList] := by
    -- A literal is spelled out once, in the goal, and not wherever the evaluation looks at it.
    unfold shelfReader shelfDisk shelfFiles
    repeat rewrite [String.toList_ofList]
    decide +kernel
  rw [reader_shelf]
  cases hread : Program.read shelfReader .default "shelf".toList with
  | error e =>
    rw [hread] at hglobals
    cases hglobals
  | ok program =>
    rw [hread] at hglobals
    exact ⟨program, rfl, Except.ok.inj hglobals⟩

/-- The line of the book is read by three names, and that of the lamp by one. -/
theorem read_once_per_spelling_shelf :
    shelfDisk.readAt ["shop".toList, "lamp".toList] =
        .ok (Text.unlines ["#pragma once // one lamp".toList, "float light;".toList]) ∧
      Line.ofText "#pragma once // one lamp".toList = .once ∧
      (readings shelfDisk [["shop".toList]] ["shop".toList, "lamp".toList] 2
        (events (Search.reader shelfDisk [["shop".toList]]) "shelf".toList)).length ≤ 1 ∧
      (readings shelfDisk [["shop".toList]] ["shop".toList, "book".toList] 2
        (events (Search.reader shelfDisk [["shop".toList]]) "shelf".toList)).Perm
          ["book".toList, "./book".toList, "crate/../book".toList] := by
  obtain ⟨program, hread, -⟩ := read_shelf
  have hlamp : shelfDisk.readAt ["shop".toList, "lamp".toList] =
      .ok (Text.unlines ["#pragma once // one lamp".toList, "float light;".toList]) :=
    readAt_shelf (by decide +kernel)
  have hbook : shelfDisk.readAt ["shop".toList, "book".toList] =
      .ok (Text.unlines ["#pragma once".toList, "float page;".toList]) :=
    readAt_shelf (by decide +kernel)
  have hlampOnce : Line.ofText "#pragma once // one lamp".toList = .once := by decide +kernel
  have hbookOnce : Line.ofText "#pragma once".toList = .once := by decide +kernel
  have hlampLines : Text.lines (Text.unlines ["#pragma once // one lamp".toList,
      "float light;".toList]) = ["#pragma once // one lamp".toList, "float light;".toList] := by
    decide +kernel
  have hbookLines : Text.lines (Text.unlines ["#pragma once".toList, "float page;".toList]) =
      ["#pragma once".toList, "float page;".toList] := by
    decide +kernel
  refine ⟨hlamp, hlampOnce, ?_, ?_⟩
  · apply (read_once_per_spelling hread hlamp hlampLines hlampOnce).2.mpr ?_ 1 (by decide +kernel)
    have hnames : spellings shelfDisk [["shop".toList]] ["shop".toList, "lamp".toList]
        (events (Search.reader shelfDisk [["shop".toList]]) "shelf".toList) = ["lamp".toList] := by
      rw [reader_shelf]
      unfold shelfReader shelfDisk shelfFiles
      repeat rewrite [String.toList_ofList]
      decide +kernel
    intro name other hname hother hfound hfound'
    have hmem := mem_spellings.mpr ⟨hname, hfound⟩
    have hmem' := mem_spellings.mpr ⟨hother, hfound'⟩
    rw [hnames] at hmem hmem'
    rw [List.mem_singleton.mp hmem, List.mem_singleton.mp hmem']
  · have hnames : spellings shelfDisk [["shop".toList]] ["shop".toList, "book".toList]
        (events (Search.reader shelfDisk [["shop".toList]]) "shelf".toList) =
          ["book".toList, "./book".toList, "crate/../book".toList] := by
      rw [reader_shelf]
      unfold shelfReader shelfDisk shelfFiles
      repeat rewrite [String.toList_ofList]
      decide +kernel
    rw [← hnames]
    exact (read_once_per_spelling hread hbook hbookLines hbookOnce).1 1 (by decide +kernel)

/-- The book bars itself in its first line, and is found by three names.  Its other line is three
times in the program. -/
theorem barred_file_repeated :
    shelfDisk.readAt ["shop".toList, "book".toList] =
        .ok (Text.unlines ["#pragma once".toList, "float page;".toList]) ∧
      (∀ name ∈ ["book".toList, "./book".toList, "crate/../book".toList],
        Search.find? shelfDisk [["shop".toList]] name = some ["shop".toList, "book".toList]) ∧
      ∃ program, Program.read (Search.reader shelfDisk [["shop".toList]]) .default
          "shelf".toList = .ok program ∧
        program.globals =
          ["float page;".toList, "float light;".toList, "float page;".toList,
           "float page;".toList] := by
  have hbook : Search.find? shelfDisk [["shop".toList]] "book".toList =
      some ["shop".toList, "book".toList] := by
    decide +kernel
  refine ⟨readAt_shelf (by decide +kernel), ?_, read_shelf⟩
  rw [List.forall_mem_cons, List.forall_mem_cons, List.forall_mem_singleton]
  refine ⟨hbook, ?_, ?_⟩
  · rw [← hbook]
    exact Search.find?_dot_slash shelfDisk [["shop".toList]] "book".toList
  · have hcrate : Path.IsName "crate".toList := ⟨by decide, by decide, by decide⟩
    rw [← hbook]
    exact Search.find?_through hcrate shelfDisk [["shop".toList]] "book".toList

end Program

end ShaderVariants
