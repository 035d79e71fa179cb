import Mathlib.Data.List.Perm.Basic
import ShaderVariants.Proofs.Program.Buffers

/-!
# No line is lost

The code of a program that is read from one file holds every line of code of the file once, in the
part that the line stands in, and for every input line the two lines that declare the input
(`Program.code_routed`).
-/

namespace ShaderVariants

/-- The parts that code goes to: what stands outside of all stage blocks, and each block. -/
def codePlaces : List (Option Stage) :=
  none :: Stage.all.map some

/-- A line goes to the one part that is open. -/
theorem flatMap_codePlaces (block : Option Stage) (lines : List Text) :
    (codePlaces.flatMap fun place => if block = place then lines else []) = lines := by
  cases block with
  | none => simp [codePlaces, Stage.all]
  | some stage => cases stage <;> simp [codePlaces, Stage.all]

/-- What lines are written as is spread over the parts without loss. -/
theorem flatMap_linesIn_perm (f : Text → List Text) (block : Option Stage) (lines : List Text) :
    (codePlaces.flatMap fun place => (linesIn place block lines).flatMap f).Perm
      (lines.flatMap f) := by
  induction lines generalizing block with
  | nil =>
    have hnil : (codePlaces.flatMap fun place => (linesIn place block []).flatMap f) = [] :=
      List.flatMap_eq_nil_iff.mpr fun place _ => rfl
    rw [hnil]
    exact List.Perm.nil
  | cons line rest ih =>
    have hcons : ∀ place, (linesIn place block (line :: rest)).flatMap f =
        (if block = place then f line else []) ++
          (linesIn place ((Line.ofText line).blockAfter block) rest).flatMap f := by
      intro place
      rw [linesIn]
      by_cases hplace : block = place
      · rw [if_pos hplace, if_pos hplace, List.flatMap_cons]
      · rw [if_neg hplace, if_neg hplace, List.nil_append]
    simp only [hcons]
    refine (List.flatMap_append_perm codePlaces _ _).symm.trans ?_
    rw [flatMap_codePlaces, List.flatMap_cons]
    exact (ih _).append_left (f line)

/-- A line that declares one of the inputs is written as the two lines of that input. -/
theorem exists_emitted_of_declaredName {inputs : List Input} {line name : Text}
    (hname : (Line.ofText line).declaredName? = some name)
    (hinputs : name ∈ inputs.map Input.name) :
    ∃ input ∈ inputs, input.name = name ∧ emitted inputs line = input.codeLines := by
  have hkind : Line.ofText line ≠ .code := by
    intro hcode
    rw [hcode] at hname
    cases hname
  obtain ⟨declared, hdeclared, hsame⟩ := List.mem_map.mp hinputs
  cases hfind : inputs.find? fun input => input.name == name with
  | none => exact absurd (List.find?_eq_none.mp hfind declared hdeclared) (by simpa using hsame)
  | some input =>
    have heq : input.name = name := by simpa using List.find?_some hfind
    refine ⟨input, List.mem_of_find?_eq_some hfind, heq, ?_⟩
    rw [emitted_of_ne_code hkind, Line.declared?, hname, Option.bind_some, hfind]
    rfl

namespace Program

/-- The code of a program of one file has every line of code of the file once, in the part that the
line stands in, and there in the order of the file; an input line is replaced by the two lines of
its input, and all other lines that are no code are dropped.  The block has one guarded member for
each of the inputs that belong to it, in the order in which they are declared. -/
theorem code_routed {reader : FileReader} {settings : Settings} {fileName text : Text}
    {program : Program} (hfile : reader fileName = .ok text)
    (hlines : ∀ line ∈ Text.lines text, (Line.ofText line).isInclude = false)
    (hread : Program.read reader settings fileName = .ok program) :
    (∀ place, program.codeIn place =
      (linesIn place none (Text.lines text)).flatMap (emitted program.inputs)) ∧
    (∀ place, Text.unlines (program.codeIn place) =
      (linesIn place none (Text.lines text)).flatMap fun line =>
        (emitted program.inputs line).flatMap fun written => written ++ ['\n']) ∧
    (codePlaces.flatMap program.codeIn).Perm
      ((Text.lines text).flatMap (emitted program.inputs)) ∧
    (∀ line ∈ Text.lines text, ∀ name, (Line.ofText line).declaredName? = some name →
      ∃ input ∈ program.inputs, input.name = name ∧
        emitted program.inputs line = input.codeLines) ∧
    declaredNames (Text.lines text) = program.inputs.map Input.name ∧
    program.members = (program.inputs.filter Input.inBlock).flatMap
      (Draft.memberLines program.instanceCounter?) := by
  have hcode := codeIn_of_read hfile hlines hread
  have hnames := declaredNames_linesRead hread
  rw [linesRead_of_read hfile hlines hread] at hnames
  refine ⟨hcode, fun place => ?_, ?_, fun line hline name hname => ?_, hnames,
    (wellFormed_of_read hread).inputs.members_eq⟩
  · rw [hcode, Text.unlines, List.flatMap_assoc]
  · simp only [funext hcode]
    exact flatMap_linesIn_perm (emitted program.inputs) none (Text.lines text)
  · refine exists_emitted_of_declaredName hname ?_
    rw [← hnames]
    exact List.mem_filterMap.mpr ⟨line, hline, hname⟩

/-- A file with two stage blocks, input lines inside and outside of them, and lines of code that
are blank or like each other. -/
def ferryFile : Text :=
  Text.unlines
    ["#pragma once".toList, "#define KNOTS 4".toList, "#pragma anki mutator LOAD 0 1".toList,
     "#pragma anki input const U32 cars".toList, "#pragma anki start vert".toList,
     "#pragma anki input F32 draught".toList, "#if LOAD".toList, "void sail();".toList,
     "#endif".toList, "#pragma anki end".toList, "".toList, "#pragma anki start frag".toList,
     "void sail();".toList, "#pragma anki input Vec3 flag".toList, "#pragma anki end".toList,
     "void sail();".toList]

def ferryReader : FileReader :=
  .ofFiles [("ferry".toList, ferryFile)]

theorem code_routed_ferry :
    ferryReader "ferry".toList = .ok ferryFile ∧
      (∀ line ∈ Text.lines ferryFile, (Line.ofText line).isInclude = false) ∧
      ∃ program, Program.read ferryReader .default "ferry".toList = .ok program ∧
        program.stageCode.get .fragment =
          ["void sail();".toList, "#define _ANKI_INPUT_SITE_flag".toList,
           "#define flag _anki_unis._m_flag".toList] ∧
        (codePlaces.flatMap program.codeIn).Perm
          ((Text.lines ferryFile).flatMap (emitted program.inputs)) := by
  have hfile : ferryReader "ferry".toList = .ok ferryFile := rfl
  have hincludes : ∀ line ∈ Text.lines ferryFile, (Line.ofText line).isInclude = false := by
    -- A literal is spelled out once, in the goal, and not wherever the evaluation looks at it.
    unfold ferryFile
    repeat rewrite [String.toList_ofList]
    decide +kernel
  have hcode : (Program.read ferryReader .default "ferry".toList).map
      (fun program => program.stageCode.get .fragment) =
      .ok ["void sail();".toList, "#define _ANKI_INPUT_SITE_flag".toList,
        "#define flag _anki_unis._m_flag".toList] := by
    unfold ferryReader ferryFile
    repeat rewrite [String.toList_ofList]
    decide +kernel
  cases hread : Program.read ferryReader .default "ferry".toList with
  | error e =>
    rw [hread] at hcode
    cases hcode
  | ok program =>
    rw [hread] at hcode
    exact ⟨hfile, hincludes, program, rfl, Except.ok.inj hcode,
      (code_routed hfile hincludes hread).2.2.1⟩

end Program

end ShaderVariants
