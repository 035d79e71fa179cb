import ShaderVariants.Proofs.Program.Acting
import ShaderVariants.Proofs.Program.DirectiveLines
import ShaderVariants.Proofs.Variant.Discarded

/-!
# Directives in the code of a program

The lines of directives are acted upon and do not reach the code of a program, but for those that
are overlooked (`Program.directives_consumed`), which do (`Program.directives_left`).
-/

namespace ShaderVariants.Program

variable {reader : FileReader} {settings : Settings} {fileName : Text} {program : Program}

/-- No line of a program's code is a directive that would have been seen. -/
theorem not_noticed_of_mem_codeIn (hread : Program.read reader settings fileName = .ok program)
    {place : Option Stage} {line : Text} (hline : line ∈ program.codeIn place) :
    ¬ Noticed line := by
  rw [codeIn_of_linesRead hread] at hline
  obtain ⟨first, -, hemitted⟩ := List.mem_flatMap.mp hline
  by_cases hcode : Line.ofText first = .code
  · rw [emitted_of_code hcode] at hemitted
    obtain rfl := List.mem_singleton.mp hemitted
    exact fun hnoticed => hnoticed.ofText_ne_code hcode
  · rw [emitted_of_ne_code hcode] at hemitted
    cases hdeclared : (Line.ofText first).declared? program.inputs with
    | none => simp [hdeclared] at hemitted
    | some input =>
      rw [hdeclared] at hemitted
      exact not_noticed_of_mem_codeLines hemitted

/-- The same holds of the lines that the text of the code is read back as. -/
theorem not_noticed_of_mem_lines (hread : Program.read reader settings fileName = .ok program)
    {place : Option Stage} {line : Text}
    (hline : line ∈ Text.lines (Text.unlines (program.codeIn place))) : ¬ Noticed line := by
  rw [Text.lines_unlines_eq_map fun _ => lineFeed_notMem_of_mem_codeIn hread] at hline
  obtain ⟨written, hwritten, rfl⟩ := List.mem_map.mp hline
  exact fun hnoticed => not_noticed_of_mem_codeIn hread hwritten hnoticed.of_chomp

/-- A line that is read belongs to what happens in the root file. -/
theorem exists_of_events {before after : List Event} {file : Text} {number : Nat} {line : Text}
    (h : events reader fileName = before ++ .reads file number line :: after) :
    ∃ earlier text, before = .opens fileName :: earlier ∧ reader fileName = .ok text ∧
      Draft.fileEvents reader maxIncludeDepth fileName text .empty =
        earlier ++ .reads file number line :: after := by
  rw [events] at h
  cases before with
  | nil => cases (List.cons.inj h).1
  | cons event earlier =>
    obtain ⟨rfl, htail⟩ := List.cons.inj h
    cases htext : reader fileName with
    | error reason => simp [htext] at htail
    | ok text =>
      rw [htext] at htail
      exact ⟨earlier, text, rfl, rfl, htail⟩

/-- Every line that is read is code, or acts, or is where the reading of the program fails. -/
theorem acts_or_fails (settings : Settings) {before after : List Event} {file : Text} {number : Nat}
    {line : Text} (h : events reader fileName = before ++ .reads file number line :: after) :
    (∃ earlier draft, before = .opens fileName :: earlier ∧
      Draft.Runs reader .empty earlier draft ∧ (Line.ofText line = .code ∨
        ∃ opened next rest, Draft.Acts reader draft file number line opened next ∧
          after = opened ++ rest)) ∨
    ((∃ cause, Program.read reader settings fileName = .error ⟨file, number, cause⟩) ∧
      ∀ event ∈ after, event.line? = none) := by
  obtain ⟨earlier, text, rfl, htext, hevents⟩ := exists_of_events h
  have hran := (Draft.traceable_ran reader).readFile maxIncludeDepth fileName text .empty
  rw [hevents] at hran
  rcases hran.exists_at with ⟨draft, hrun, hline⟩ | ⟨⟨cause, hfault⟩, hafter⟩
  · exact Or.inl ⟨earlier, draft, rfl, hrun, hline⟩
  · refine Or.inr ⟨⟨cause, ?_⟩, hafter⟩
    rw [Program.read, htext]
    simp only [hfault]

/-- A program is read from all lines of the files that are opened for it. -/
theorem mem_events_of_opens (hread : Program.read reader settings fileName = .ok program)
    {name text : Text} (hopened : .opens name ∈ events reader fileName)
    (htext : reader name = .ok text) {index : Nat} {line : Text}
    (hline : (Text.lines text)[index]? = some line) :
    .reads name (index + 1) line ∈ events reader fileName := by
  obtain ⟨root, draft, hroot, hdraft, -⟩ := exists_of_read hread
  have hall := Draft.readsAll_opened [.opens fileName] (by simp) hroot
    ((Draft.traceable_readsAll reader).readFile maxIncludeDepth fileName root .empty)
  rw [events, hroot] at hopened ⊢
  exact hall draft hdraft name text hopened htext index line hline

/-- Every directive is consumed unless it is overlooked: where its line is read it is acted upon, or
the program fails to be read at that line; the lines of all files that a program is read from are
read; and no such line is left in the code of the program, nor in the lines of its text. -/
theorem directives_consumed (reader : FileReader) (settings : Settings) (fileName : Text) :
    (∀ line, Overlooked line ↔ IsDirective line ∧ Line.ofText line = .code) ∧
    (∀ before file number line after,
      events reader fileName = before ++ .reads file number line :: after →
      IsDirective line → ¬ Overlooked line →
      (∃ earlier draft opened next rest, before = .opens fileName :: earlier ∧
        Draft.Runs reader .empty earlier draft ∧
        Draft.Acts reader draft file number line opened next ∧ after = opened ++ rest) ∨
      ((∃ cause, Program.read reader settings fileName = .error ⟨file, number, cause⟩) ∧
        ∀ event ∈ after, event.line? = none)) ∧
    ∀ program, Program.read reader settings fileName = .ok program →
      (∀ place, ∀ line ∈ program.codeIn place, IsDirective line → Overlooked line) ∧
      (∀ place, ∀ line ∈ Text.lines (Text.unlines (program.codeIn place)),
        IsDirective line → Overlooked line) ∧
      (∀ name text, .opens name ∈ events reader fileName → reader name = .ok text →
        ∀ index line, (Text.lines text)[index]? = some line →
          .reads name (index + 1) line ∈ events reader fileName) := by
  refine ⟨overlooked_iff, ?_, fun program hread => ⟨?_, ?_, ?_⟩⟩
  · intro before file number line after hevents hline hseen
    rcases acts_or_fails settings hevents with ⟨earlier, draft, rfl, hrun, hcode | hacts⟩ | hfails
    · exact absurd ((overlooked_iff line).mpr ⟨hline, hcode⟩) hseen
    · obtain ⟨opened, next, rest, hacts, rfl⟩ := hacts
      exact Or.inl ⟨earlier, draft, opened, next, rest, rfl, hrun, hacts, rfl⟩
    · exact Or.inr hfails
  · intro place line hline h
    exact h.noticed_or_overlooked.resolve_left (not_noticed_of_mem_codeIn hread hline)
  · intro place line hline h
    exact h.noticed_or_overlooked.resolve_left (not_noticed_of_mem_lines hread hline)
  · intro name text hopened htext index line hline
    exact mem_events_of_opens hread hopened htext hline

/-- A file that includes another and bars itself, with blanks where they may be. -/
def gangwayReader : FileReader :=
  .ofFiles
    [("gangway".toList,
      Text.unlines
        ["#include <plank>".toList, "  # pragma\tonce // kept".toList,
         "#pragma anki start frag".toList, "#pragma anki end".toList]),
     ("plank".toList, Text.unlines ["#define PLANK 1".toList])]

theorem directives_consumed_gangway :
    IsDirective "  # pragma\tonce // kept".toList ∧
      ¬ Overlooked "  # pragma\tonce // kept".toList ∧
      ∃ program, Program.read gangwayReader .default "gangway".toList = .ok program ∧
        (∀ line ∈ program.codeIn none, IsDirective line → Overlooked line) ∧
        ∃ draft opened next, Draft.Acts gangwayReader draft "gangway".toList 2
          "  # pragma\tonce // kept".toList opened next := by
  have hline : IsDirective "  # pragma\tonce // kept".toList := by
    refine .pragma ['\t'] "once".toList " // kept".toList ⟨"  ".toList, [' '], ?_, ?_, rfl⟩
      (by decide) ?_ (by decide) ?_
    · exact List.all_eq_true.mp (by decide)
    · exact List.all_eq_true.mp (by decide)
    · exact List.all_eq_true.mp (by decide)
    · rintro c ⟨⟩
      decide
  have hseen : ¬ Overlooked "  # pragma\tonce // kept".toList := fun h =>
    absurd h.ofText_eq_code (by decide +kernel)
  have hevents : events gangwayReader "gangway".toList =
      [.opens "gangway".toList, .reads "gangway".toList 1 "#include <plank>".toList,
        .opens "plank".toList, .reads "plank".toList 1 "#define PLANK 1".toList] ++
      .reads "gangway".toList 2 "  # pragma\tonce // kept".toList ::
        [.reads "gangway".toList 3 "#pragma anki start frag".toList,
          .reads "gangway".toList 4 "#pragma anki end".toList] := by
    decide +kernel
  have hglobals : (Program.read gangwayReader .default "gangway".toList).map Program.globals =
      .ok ["#define PLANK 1".toList] := by
    decide +kernel
  obtain ⟨-, hacts, hcode⟩ := directives_consumed gangwayReader .default "gangway".toList
  cases hread : Program.read gangwayReader .default "gangway".toList with
  | error e =>
    rw [hread] at hglobals
    cases hglobals
  | ok program =>
    refine ⟨hline, hseen, program, rfl, (hcode program hread).1 none, ?_⟩
    rcases hacts _ _ _ _ _ hevents hline hseen with
      ⟨-, draft, opened, next, -, -, -, hact, -⟩ | ⟨⟨cause, hfault⟩, -⟩
    · exact ⟨draft, opened, next, hact⟩
    · rw [hread] at hfault
      cases hfault

/-- An include without a name, and a pragma with a no-break space in front of its word. -/
def stileReader : FileReader :=
  .ofFiles [("stile".toList,
    Text.unlines
      ["#include".toList, "#pragma\u00a0once".toList, "#pragma anki start comp".toList,
       "#pragma anki end".toList])]

/-- Both are directives and stay in the code. -/
theorem directives_left :
    IsDirective "#include".toList ∧ IsDirective "#pragma\u00a0once".toList ∧
      ∃ program, Program.read stileReader .default "stile".toList = .ok program ∧
        program.globals = ["#include".toList, "#pragma\u00a0once".toList] := by
  have hglobals : (Program.read stileReader .default "stile".toList).map Program.globals =
      .ok ["#include".toList, "#pragma\u00a0once".toList] := by
    decide +kernel
  refine ⟨?_, ?_, ?_⟩
  · exact .fileInclude [] ⟨[], [], by simp, by simp, rfl⟩ (by simp)
  · refine .pragma ['\u00a0'] "once".toList [] ⟨[], [], by simp, by simp, rfl⟩ (by decide) ?_
      (by decide) (by simp)
    exact List.all_eq_true.mp (by decide)
  · cases hread : Program.read stileReader .default "stile".toList with
    | error e =>
      rw [hread] at hglobals
      cases hglobals
    | ok program =>
      rw [hread] at hglobals
      exact ⟨program, rfl, Except.ok.inj hglobals⟩

end ShaderVariants.Program
