import ShaderVariants.Proofs.Program.Located
import ShaderVariants.Proofs.Program.SingleFile

/-!
# How deep includes nest

No file is read deeper than includes may nest, and only a file that is not barred can be too deep
(`Program.Stands.not_bars_of_tooDeep`).  Without barred files it is the include lines alone that
decide: reading ends well only if none of their paths is longer than includes may nest
(`Program.exists_stands_of_leads`), and a chain of files that is not longer is read like one file
(`FileReader.Chain.exists_alike`).  `Program.includes_nest` puts this together.
-/

namespace ShaderVariants

/-! ## 1. Files that are too deep -/

theorem Event.not_bars_of_included {file line name : Text} {number : Nat}
    (h : (Line.ofText line).included? = some name) (other : Text) :
    ¬ (Event.reads file number line).Bars other := by
  rintro ⟨place, text, heq, hkind⟩
  obtain ⟨-, -, rfl⟩ := Event.reads.inj heq
  rw [hkind] at h
  cases h

theorem Event.not_bars_opens (name other : Text) : ¬ (Event.opens name).Bars other := by
  rintro ⟨place, text, heq, -⟩
  cases heq

/-- What could be read in place of a line bars the files that it read the pragma of. -/
theorem Draft.barring_lineAt {reader : FileReader} {depth : Nat} {file line : Text}
    {before : List Text} {draft next : Draft}
    (h : lineAt reader depth file before line draft = .ok next) :
    Barring draft (lineEvents (entered reader (Include.room (depth + 1))) file (before.length + 1)
      line draft) (.ok next) := by
  have hbarring := (traceable_barring reader).readLines_self (Include.room (depth + 1)) file
    (before.length + 1) (hasOnce before) [line] draft
  rw [← restAt, ← restEvents, restAt_cons, restEvents_cons, h] at hbarring
  simpa [restEvents, linesEvents] using hbarring

/-- The line that includes a file that is too deep stands at the deepest level, and the file is not
barred. -/
theorem Draft.Raises.of_tooDeep {reader : FileReader} {depth : Nat} {file line name : Text}
    {before : List Text} {draft : Draft}
    (h : Raises reader depth file before line draft (.tooDeep name)) :
    maxIncludeDepth ≤ depth ∧ (Line.ofText line).included? = some name ∧ name ∉ draft.once := by
  obtain ⟨other, names, refused⟩ := h.resolve_of_blamesInclude rfl
  obtain ⟨hfree, ⟨hroom, hcause⟩ | ⟨-, reason, -, hcause⟩⟩ :=
    Include.resolve_eq_error_iff.mp refused
  · obtain rfl := Cause.tooDeep.inj hcause
    refine ⟨?_, names, hfree⟩
    rw [Include.room] at hroom
    omega
  · cases hcause

namespace Program

variable {reader : FileReader} {settings : Settings} {root : Text}

/-- Where a file turns out to be too deep, no pragma has been read that bars it. -/
theorem Stands.not_bars_of_tooDeep {depth : Nat} {file name : Text} {before rest : List Text}
    {draft : Draft} {e : ParseError} (h : Stands reader root depth file before rest draft)
    (hrest : Draft.restAt reader depth file before rest draft = .error e)
    (hcause : e.cause = .tooDeep name) :
    name ∉ draft.once ∧
      ∀ event ∈ Draft.restEvents reader depth file before rest draft, ¬ event.Bars name := by
  revert hrest
  refine h.rest_induction (motive := fun depth file before rest draft =>
    Draft.restAt reader depth file before rest draft = .error e → name ∉ draft.once ∧
      ∀ event ∈ Draft.restEvents reader depth file before rest draft, ¬ event.Bars name) ?_ ?_
  · intro depth file before draft hrest
    cases hrest
  · intro depth file before line rest draft h ihNext ihInside hrest
    rw [Draft.restAt_cons] at hrest
    rw [Draft.restEvents_cons]
    cases hline : Draft.lineAt reader depth file before line draft with
    | error e' =>
      rw [hline] at hrest
      obtain rfl := Except.error.inj hrest
      dsimp only
      rw [List.append_nil]
      -- The line includes a file: one that is too deep, or one in which another is.
      rcases Draft.cases_of_lineAt_eq_error hline with ⟨cause, hraises, rfl⟩ |
        ⟨included, text, names, opened, hinside⟩
      · obtain rfl : cause = .tooDeep name := hcause
        obtain ⟨hdeep, names, hfree⟩ := hraises.of_tooDeep
        refine ⟨hfree, fun event hevent => ?_⟩
        rw [Draft.lineEvents_of_included names] at hevent
        rcases List.mem_cons.mp hevent with rfl | hevent
        · exact Event.not_bars_of_included names name
        rcases Draft.cases_of_mem_entered hevent with rfl | ⟨text, opened, -⟩
        · exact Event.not_bars_opens name name
        · have hroom := Include.room_pos_iff.mp (Include.resolve_eq_some_iff.mp opened).2.1
          omega
      · obtain ⟨hfree, hlater⟩ := ihInside included text names opened hinside
        refine ⟨hfree, fun event hevent => ?_⟩
        rw [Draft.lineEvents_of_included names] at hevent
        rcases List.mem_cons.mp hevent with rfl | hevent
        · exact Event.not_bars_of_included names name
        rw [Draft.entered_of_opened opened] at hevent
        rcases List.mem_cons.mp hevent with rfl | hevent
        · exact Event.not_bars_opens included name
        · exact hlater event hevent
    | ok next =>
      rw [hline] at hrest
      obtain ⟨hfree, hlater⟩ := ihNext next hline hrest
      -- What the line bars is still barred behind it, where the file is not.
      have hbarring := Draft.barring_lineAt hline
      refine ⟨fun hmem => hfree (hbarring.kept next rfl name hmem), fun event hevent hbars => ?_⟩
      rcases List.mem_append.mp hevent with hevent | hevent
      · exact hfree (hbarring.barred next rfl name ⟨event, hevent, hbars⟩)
      · exact hlater event hevent hbars

/-- A file is too deep for a line at the deepest level that includes it, before any pragma has been
read that bars the file. -/
theorem exists_stands_of_tooDeep {file name : Text} {number : Nat}
    (h : read reader settings root = .error ⟨file, number, .tooDeep name⟩) :
    (∃ before line rest draft,
      Stands reader root maxIncludeDepth file before (line :: rest) draft ∧
        number = before.length + 1 ∧ (Line.ofText line).included? = some name) ∧
    ∀ event ∈ events reader root, ¬ event.Bars name := by
  generalize he : (⟨file, number, .tooDeep name⟩ : ParseError) = e at h
  have hcause : e.cause = .tooDeep name := he ▸ rfl
  constructor
  · cases fails_of_read h with
    | @raised depth _ line before rest draft cause stands raises =>
      obtain ⟨rfl, rfl, rfl⟩ := ParseError.mk.inj he
      obtain ⟨hdeep, names, -⟩ := raises.of_tooDeep
      obtain rfl : depth = maxIncludeDepth := Nat.le_antisymm stands.depth_le hdeep
      exact ⟨before, line, rest, draft, stands, rfl, names⟩
    | unreadable | neverClosed | noStages => cases congrArg ParseError.cause he
  · rcases cases_of_read_eq_error h with ⟨reason, -, rfl⟩ |
      ⟨text, found, hrest | ⟨draft, -, hfinish⟩⟩
    · cases hcause
    · rw [events_eq found]
      refine List.forall_mem_cons.mpr ⟨Event.not_bars_opens root name, ?_⟩
      exact ((Stands.root found).not_bars_of_tooDeep hrest hcause).2
    · rw [Draft.finish] at hfinish
      split at hfinish
      · cases Except.error.inj hfinish ▸ hcause
      · split at hfinish
        · cases Except.error.inj hfinish ▸ hcause
        · cases hfinish

/-! ## 2. Include lines without barred files -/

section

variable (hplain : ∀ file text, reader file = .ok text → hasOnce (Text.lines text) = false)
include hplain

/-- If no file asks for it, none is barred. -/
theorem Stands.notMem_once {depth : Nat} {file : Text} {before rest : List Text} {draft : Draft}
    (h : Stands reader root depth file before rest draft) (name : Text) : name ∉ draft.once := by
  induction h with
  | root => exact List.not_mem_nil
  | @behind depth file line before rest draft next stands hline ih =>
    have hlines : Draft.restAt reader depth file before [line] draft = .ok next := by
      rw [Draft.restAt_cons, hline]
      rfl
    refine Draft.notMem_once_of_readLines ?_ (fun _ => ?_) hlines ih
    · intro number other draft next henter hdraft
      obtain ⟨-, rfl⟩ | ⟨-, below, included, -, hincluded, hfile⟩ := Draft.cases_of_enter henter
      · exact hdraft
      · exact Draft.notMem_once_of_readFile (hplain name) hincluded hfile hdraft
    · obtain ⟨text, found, htext⟩ := stands.exists_text
      have honce := hplain file text found
      rw [htext, List.append_cons, hasOnce, List.any_append, List.any_append] at honce
      simp_all [hasOnce]
  | inside _ _ _ ih => exact ih

/-- If all could be read, then every file that include lines lead to was, as deep as they lead. -/
theorem exists_stands_of_leads {program : Program}
    (hread : read reader settings root = .ok program) {steps : Nat} {name : Text}
    (hleads : reader.Leads root steps name) :
    ∃ text draft, reader name = .ok text ∧
      Stands reader root steps name [] (Text.lines text) draft := by
  induction hleads with
  | root =>
    obtain ⟨text, -, hroot, -⟩ := exists_of_read hread
    exact ⟨text, .empty, hroot, .root hroot⟩
  | step leads found among names ih =>
    obtain ⟨text, draft, hfound, hstands⟩ := ih
    obtain rfl := Except.ok.inj (found.symm.trans hfound)
    obtain ⟨before, rest, hlines⟩ := List.append_of_mem among
    rw [hlines] at hstands
    obtain ⟨next, hnext⟩ := hstands.exists_forward hread
    obtain ⟨included, hincluded, -, hinside⟩ :=
      hnext.exists_inside hread names (hnext.notMem_once hplain _)
    exact ⟨included, next, hincluded, hinside⟩

end

end Program

/-! ## 3. Chains of files -/

/-- Lines that include nothing and bar nothing are read alike in any file. -/
theorem Draft.exists_alike_of_no_includes {number : Nat} {file : Text} {lines : List Text}
    {draft draft' last : Draft} (halone : ∀ line ∈ lines, (Line.ofText line).included? = none)
    (honce : hasOnce lines = false) (halike : draft.Alike draft')
    (hread : readLines passOver file number false lines draft = .ok last) (reader : FileReader)
    (room : Nat) (file' : Text) (number' : Nat) :
    ∃ last', readLines (enter reader room file') file' number' false lines draft' = .ok last' ∧
      last.Alike last' := by
  rw [readLines_eq_passOver (opensNothing_of_no_includes file' false halone) (by simp)]
  exact exists_alike_of_readLines (entersAlike_passOver file)
    (fun line hline => by simp [halone line hline]) (Or.inl honce) halike hread

/-- Lines that bar nothing leave nothing barred. -/
theorem Draft.notMem_once_of_passOver {number : Nat} {file : Text} {lines : List Text}
    {draft last : Draft} (honce : hasOnce lines = false)
    (hread : readLines passOver file number false lines draft = .ok last) {name : Text}
    (h : name ∉ draft.once) : name ∉ last.once :=
  notMem_once_of_readLines (fun _ _ _ _ hnext hdraft => Except.ok.inj hnext ▸ hdraft)
    (fun _ => honce) hread h

/-- Files of which each but the last includes the next one by a single line.  `flat` are the lines
of all of them, those of each file in place of the line that includes it. -/
inductive FileReader.Chain (reader : FileReader) : List Text → (lines flat : List Text) → Prop
  | last {lines : List Text} (alone : ∀ line ∈ lines, (Line.ofText line).included? = none) :
      Chain reader [] lines lines
  | link {names before after flat : List Text} {line name text : Text}
      (aloneBefore : ∀ line ∈ before, (Line.ofText line).included? = none)
      (aloneAfter : ∀ line ∈ after, (Line.ofText line).included? = none)
      (includes : (Line.ofText line).included? = some name) (found : reader name = .ok text)
      (chain : Chain reader names (Text.lines text) flat) :
      Chain reader (name :: names) (before ++ line :: after) (before ++ (flat ++ after))

namespace FileReader.Chain

variable {reader : FileReader} {names lines flat : List Text}

/-- A chain leads from its first file to its last one. -/
theorem exists_leads (h : reader.Chain names lines flat) {root file text : Text} {steps : Nat}
    (hleads : reader.Leads root steps file) (hfound : reader file = .ok text)
    (hlines : Text.lines text = lines) :
    ∃ name, reader.Leads root (steps + names.length) name := by
  induction h generalizing file text steps with
  | last => exact ⟨file, hleads⟩
  | @link names before after flat line name included _ _ includes found chain ih =>
    have hline : line ∈ Text.lines text := by simp [hlines]
    obtain ⟨last, hlast⟩ := ih (.step hleads hfound hline includes) found rfl
    refine ⟨last, ?_⟩
    rw [List.length_cons, Nat.add_comm names.length, ← Nat.add_assoc]
    exact hlast

/-- What is left of the include lines of a chain is nothing. -/
theorem flat_no_includes (h : reader.Chain names lines flat) :
    ∀ line ∈ flat, (Line.ofText line).included? = none := by
  induction h with
  | last alone => exact alone
  | link aloneBefore aloneAfter _ _ _ ih =>
    exact List.forall_mem_append.mpr ⟨aloneBefore, List.forall_mem_append.mpr ⟨ih, aloneAfter⟩⟩

/-- A chain that is not longer than includes may nest below its first file is read like the lines
of all its files. -/
theorem exists_alike (h : reader.Chain names lines flat) (honce : hasOnce flat = false)
    {room number : Nat} (hroom : names.length ≤ room) {file : Text}
    {draft draft' last : Draft} (halike : draft.Alike draft') (hfree : ∀ name, name ∉ draft.once)
    (hread : Draft.readLines Draft.passOver file number false flat draft = .ok last)
    (file' : Text) (number' : Nat) :
    ∃ last', Draft.readLines (Draft.enter reader room file') file' number' false lines draft' =
        .ok last' ∧ last.Alike last' := by
  induction h generalizing room number number' file' draft draft' last with
  | last alone =>
    exact Draft.exists_alike_of_no_includes alone honce halike hread reader room file' number'
  | @link names before after flat line name text aloneBefore aloneAfter includes found chain ih =>
    have hparts : hasOnce before = false ∧ hasOnce flat = false ∧ hasOnce after = false := by
      simpa [hasOnce] using honce
    obtain ⟨hbefore, hflat, hafter⟩ := hparts
    rw [Draft.readLines_append, hbefore] at hread
    split at hread
    · cases hread
    next first hfirst =>
    rw [Draft.readLines_append, hflat] at hread
    split at hread
    · cases hread
    next second hsecond =>
    obtain ⟨below, rfl⟩ : ∃ below, room = below + 1 := by
      rw [List.length_cons] at hroom
      exact ⟨room - 1, by omega⟩
    -- The lines in front of the include, then the next file in its place, then the rest.
    obtain ⟨first', hfirst', hfirstAlike⟩ :=
      Draft.exists_alike_of_no_includes aloneBefore hbefore halike hfirst reader (below + 1) file'
        number'
    have hfirstFree : ∀ name, name ∉ first.once := fun name =>
      Draft.notMem_once_of_passOver hbefore hfirst (hfree name)
    obtain ⟨second', hsecond', halike⟩ :=
      ih hflat (Nat.le_of_succ_le_succ hroom) hfirstAlike hfirstFree hsecond name 1
    obtain ⟨last', hlast', halike⟩ :=
      Draft.exists_alike_of_no_includes aloneAfter hafter halike hread reader (below + 1) file'
        (number' + before.length + 1)
    have hline : Draft.readLine (Draft.enter reader (below + 1) file') file'
        (number' + before.length) false line first' = .ok second' := by
      have hbarred : name ∉ first'.once := hfirstAlike.once_eq ▸ hfirstFree name
      rw [Draft.readLine_of_included? includes, Draft.enter,
        Include.resolve_eq_some_iff.mpr ⟨hbarred, Nat.succ_pos below, found⟩]
      dsimp only
      rw [Draft.readFile_eq]
      exact hsecond'
    refine ⟨last', ?_, halike⟩
    rw [Draft.readLines_append, hfirst', hbefore]
    dsimp only
    rw [Bool.or_false, Draft.readLines_cons, hline, Line.isOnce_of_included? includes]
    exact hlast'

/-- What can be read from the lines of all files of a chain can be read from the chain, if it is
not longer than includes may nest. -/
theorem read_eq_ok (h : reader.Chain names lines flat) (honce : hasOnce flat = false)
    (hlength : names.length ≤ maxIncludeDepth) {other : FileReader} {settings : Settings}
    {root text plain : Text} {program : Program} (hroot : reader root = .ok text)
    (hlines : Text.lines text = lines) (hother : other root = .ok plain)
    (hflat : Text.lines plain = flat) (hread : Program.read other settings root = .ok program) :
    Program.read reader settings root = .ok program := by
  obtain ⟨found, draft, hfound, hdraft, hfinish⟩ := Program.exists_of_read hread
  obtain rfl := Except.ok.inj (hfound.symm.trans hother)
  have halone := opensNothing_of_no_includes root false h.flat_no_includes
  rw [Draft.readFile_eq, hflat, Draft.readLines_eq_passOver halone (by simp)] at hdraft
  obtain ⟨draft', hdraft', halike⟩ := h.exists_alike honce hlength (.refl .empty)
    (fun name => List.not_mem_nil) hdraft root 1
  rw [Program.read, hroot]
  dsimp only
  rw [Draft.readFile_eq, hlines, hdraft']
  exact halike.finish hfinish

/-- Where no file of a chain bars itself, neither do their lines together. -/
theorem hasOnce_flat (h : reader.Chain names lines flat)
    (hplain : ∀ file text, reader file = .ok text → hasOnce (Text.lines text) = false)
    (hlines : hasOnce lines = false) : hasOnce flat = false := by
  induction h with
  | last => exact hlines
  | link _ _ _ found _ ih =>
    have hflat := ih (hplain _ _ found)
    simp only [hasOnce, List.any_append, List.any_cons, Bool.or_eq_false_iff] at hlines hflat ⊢
    exact ⟨hlines.1, hflat, hlines.2.2⟩

end FileReader.Chain

/-! ## 4. Programs -/

namespace Program

/-- No file is read deeper than eight includes below the root, and one is too deep only for an
include line in a file that is eight includes below, as long as no pragma has barred it.  Where no
file asks to be barred, reading does not fail for that if include lines lead no further than eight
files, and it does not end well if they lead further.  So a chain of includes below a root that
could be read if the files stood in place of their include lines is read exactly if it has eight
includes at most. -/
theorem includes_nest (reader : FileReader) (settings : Settings) (root : Text) :
    (∀ depth file before rest draft,
      Stands reader root depth file before rest draft → depth ≤ 8) ∧
    (∀ file number line, .reads file number line ∈ events reader root →
      ∃ depth before rest draft, Stands reader root depth file before (line :: rest) draft ∧
        number = before.length + 1) ∧
    (∀ file number name, read reader settings root = .error ⟨file, number, .tooDeep name⟩ →
      (∃ before line rest draft, Stands reader root 8 file before (line :: rest) draft ∧
        number = before.length + 1 ∧ (Line.ofText line).included? = some name) ∧
      ∀ event ∈ events reader root, ¬ event.Bars name) ∧
    ((∀ file text, reader file = .ok text → hasOnce (Text.lines text) = false) →
      ((∀ steps name, reader.Leads root steps name → steps ≤ 8) →
        ∀ file number name, read reader settings root ≠ .error ⟨file, number, .tooDeep name⟩) ∧
      (∀ steps name, 9 ≤ steps → reader.Leads root steps name →
        ∀ program, read reader settings root ≠ .ok program) ∧
      ∀ (other : FileReader) (names flat : List Text) (text plain : Text) (program : Program),
        reader root = .ok text → reader.Chain names (Text.lines text) flat →
        other root = .ok plain → Text.lines plain = flat →
        read other settings root = .ok program →
        ((∃ program, read reader settings root = .ok program) ↔ names.length ≤ 8)) := by
  have hdeeper : ∀ steps name, 9 ≤ steps → reader.Leads root steps name →
      (∀ file text, reader file = .ok text → hasOnce (Text.lines text) = false) →
      ∀ program, read reader settings root ≠ .ok program := by
    intro steps name hsteps hleads hplain program hread
    obtain ⟨text, draft, -, hstands⟩ := exists_stands_of_leads hplain hread hleads
    have hdepth : steps ≤ 8 := hstands.depth_le
    omega
  refine ⟨fun _ _ _ _ _ h => h.depth_le, fun _ _ _ => exists_stands_of_mem_events,
    fun _ _ _ => exists_stands_of_tooDeep, fun hplain => ⟨?_, ?_, ?_⟩⟩
  · intro hshallow file number name h
    obtain ⟨⟨before, line, rest, draft, hstands, -, names⟩, -⟩ := exists_stands_of_tooDeep h
    obtain ⟨text, found, hline, -⟩ := hstands.exists_line
    -- The include line that is one too many leads on from the deepest file.
    have hnine := hshallow _ name (.step hstands.leads found (List.mem_of_getElem? hline) names)
    exact absurd hnine (by decide)
  · exact fun steps name hsteps hleads => hdeeper steps name hsteps hleads hplain
  · intro other names flat text plain program hroot hchain hother hflat hread
    constructor
    · rintro ⟨found, hfound⟩
      by_contra hlong
      obtain ⟨name, hleads⟩ := hchain.exists_leads .root hroot rfl
      exact hdeeper _ name (by omega) hleads hplain found hfound
    · intro hlength
      have honce := hchain.hasOnce_flat hplain (hplain root text hroot)
      exact ⟨program, hchain.read_eq_ok honce hlength hroot rfl hother hflat hread⟩

/-- A root with a stage block that includes a file, which includes another one. -/
def stairsReader : FileReader :=
  .ofFiles
    [("stairs".toList,
      Text.unlines ["#include \"landing\"".toList, "#pragma anki start comp".toList,
        "#pragma anki end".toList]),
     ("landing".toList, Text.unlines ["#pragma anki mutator STEPS 1 2".toList,
        "#include <attic>".toList]),
     ("attic".toList, Text.unlines ["int beam();".toList])]

/-- The same root with the lines of all three files in it. -/
def groundReader : FileReader :=
  .ofFiles
    [("stairs".toList,
      Text.unlines ["#pragma anki mutator STEPS 1 2".toList, "int beam();".toList,
        "#pragma anki start comp".toList, "#pragma anki end".toList])]

/-- A root that includes itself. -/
def coilReader : FileReader :=
  .ofFiles [("coil".toList, Text.unlines ["#include \"coil\"".toList])]

theorem chain_stairs :
    stairsReader.Chain ["landing".toList, "attic".toList]
      ["#include \"landing\"".toList, "#pragma anki start comp".toList, "#pragma anki end".toList]
      ["#pragma anki mutator STEPS 1 2".toList, "int beam();".toList,
        "#pragma anki start comp".toList, "#pragma anki end".toList] := by
  have hattic : stairsReader.Chain [] (Text.lines (Text.unlines ["int beam();".toList]))
      ["int beam();".toList] := .last (by decide +kernel)
  have hlanding : stairsReader.Chain ["attic".toList]
      (["#pragma anki mutator STEPS 1 2".toList] ++ "#include <attic>".toList :: [])
      (["#pragma anki mutator STEPS 1 2".toList] ++ (["int beam();".toList] ++ [])) :=
    .link (by decide +kernel) (by simp) (by decide +kernel) rfl hattic
  have hlines : Text.lines (Text.unlines ["#pragma anki mutator STEPS 1 2".toList,
      "#include <attic>".toList]) =
        ["#pragma anki mutator STEPS 1 2".toList] ++ "#include <attic>".toList :: [] := by
    decide +kernel
  have hstairs : stairsReader.Chain ["landing".toList, "attic".toList]
      ([] ++ "#include \"landing\"".toList ::
        ["#pragma anki start comp".toList, "#pragma anki end".toList])
      ([] ++ ((["#pragma anki mutator STEPS 1 2".toList] ++ (["int beam();".toList] ++ [])) ++
        ["#pragma anki start comp".toList, "#pragma anki end".toList])) :=
    .link (by simp) (by decide +kernel) (by decide +kernel) rfl (hlines ▸ hlanding)
  exact hstairs

theorem leads_coil (steps : Nat) : coilReader.Leads "coil".toList steps "coil".toList := by
  induction steps with
  | zero => exact .root
  | succ steps ih =>
    have hline : "#include \"coil\"".toList ∈
        Text.lines (Text.unlines ["#include \"coil\"".toList]) := by
      decide +kernel
    exact .step ih rfl hline (by decide +kernel)

theorem hasOnce_ofFiles {files : List (Text × Text)}
    (h : ∀ entry ∈ files, hasOnce (Text.lines entry.2) = false) (file text : Text)
    (hfile : FileReader.ofFiles files file = .ok text) : hasOnce (Text.lines text) = false :=
  h _ (FileReader.mem_of_ofFiles hfile)

theorem includes_nest_stairs :
    (∃ program, read stairsReader .default "stairs".toList = .ok program) ∧
      ∀ program, read coilReader .default "coil".toList ≠ .ok program := by
  have hstairs : ∀ file text, stairsReader file = .ok text → hasOnce (Text.lines text) = false :=
    hasOnce_ofFiles (by decide +kernel)
  have hcoil : ∀ file text, coilReader file = .ok text → hasOnce (Text.lines text) = false :=
    hasOnce_ofFiles (by decide +kernel)
  constructor
  · have hground : (read groundReader .default "stairs".toList).isOk = true := by
      decide +kernel
    cases hread : read groundReader .default "stairs".toList with
    | error e =>
      rw [hread] at hground
      cases hground
    | ok program =>
      have hchain := ((includes_nest stairsReader .default "stairs".toList).2.2.2 hstairs).2.2
        groundReader ["landing".toList, "attic".toList]
      exact (hchain _ _ _ program rfl chain_stairs rfl (by decide +kernel) hread).mpr (by decide)
  · exact ((includes_nest coilReader .default "coil".toList).2.2.2 hcoil).2.1 9 "coil".toList
      (by decide) (leads_coil 9)

end Program

end ShaderVariants
