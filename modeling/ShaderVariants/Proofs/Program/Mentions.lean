import ShaderVariants.Proofs.Program.WellFormed
import ShaderVariants.Proofs.Text.Words

/-!
# Mutators that no code mentions

What it means that the code of a program mentions a name, apart from how the name is looked for
(`Program.Mentions`).  The mutators that are warned of are those whose names the code does not
mention (`Program.unreferenced_eq`).  The search passes over every occurrence as a whole, but as the
names of mutators are words, what it passes over never reaches into an occurrence that stands alone
(`Text.length_le_of_strip?`).
-/

namespace ShaderVariants

/-! ## 1. Mentions in a text -/

namespace Text

/-- A text mentions a name: the name stands in it as a whole, so that each of the characters beside
it, if there is one, is no letter and no digit of ASCII and no underscore. -/
def Mentions (text name : Text) : Prop :=
  ∃ front back, text = front ++ name ++ back ∧ (∀ c ∈ front.getLast?, isWordChar c = false) ∧
    ∀ c ∈ back.head?, isWordChar c = false

theorem any_isWordChar_eq_false_iff {c? : Option Char} :
    c?.any isWordChar = false ↔ ∀ c ∈ c?, isWordChar c = false := by
  cases c? with
  | none => simp
  | some c => simp

theorem mentions_iff_hasWord {text name : Text} : Mentions text name ↔ HasWord text name := by
  simp only [Mentions, HasWord, standsAlone_iff, any_isWordChar_eq_false_iff]

/-- A mention is found by trying every place of the text. -/
theorem mentions_iff_exists_place {text name : Text} :
    Mentions text name ↔ ∃ place ∈ List.range (text.length + 1),
      ∃ back ∈ strip? name (text.drop place),
        standsAlone (text.take place).getLast? back = true := by
  rw [mentions_iff_hasWord]
  constructor
  · rintro ⟨front, back, rfl, halone⟩
    refine ⟨front.length, ?_, back, ?_, ?_⟩
    · rw [List.mem_range]
      simp only [List.length_append]
      omega
    · simp
    · simpa using halone
  · rintro ⟨place, -, back, hback, halone⟩
    refine ⟨text.take place, back, ?_, halone⟩
    rw [List.append_assoc, ← strip?_eq_some_iff.mp hback, List.take_append_drop]

instance (text name : Text) : Decidable (Mentions text name) :=
  decidable_of_iff _ mentions_iff_exists_place.symm

end Text

/-! ## 2. Mentions in a program -/

namespace Program

/-- The code of a program mentions a name: outside of all stage blocks, in the members of the uniform
block or in the block of some stage. -/
def Mentions (program : Program) (name : Text) : Prop :=
  Text.Mentions (Text.unlines program.globals) name ∨
    Text.Mentions (Text.unlines program.members) name ∨
    ∃ stage, Text.Mentions (Text.unlines (program.stageCode.get stage)) name

theorem mentions_iff {program : Program} {name : Text} :
    program.Mentions name ↔ ∃ text ∈ program.codeTexts, Text.Mentions text name := by
  simp [Mentions, codeTexts]

instance (program : Program) (name : Text) : Decidable (program.Mentions name) :=
  decidable_of_iff _ mentions_iff.symm

/-- A name that is a word is found in the code exactly if the code mentions it. -/
theorem any_containsWord_iff {program : Program} {name : Text} (hword : Text.IsWord name) :
    (program.codeTexts.any fun text => Text.containsWord text name) = true ↔
      program.Mentions name := by
  rw [List.any_eq_true, mentions_iff]
  simp only [Text.containsWord_iff hword, Text.mentions_iff_hasWord]

/-- The mutators that count as unreferenced are those that the code does not mention. -/
theorem unreferenced_eq {program : Program} (h : program.WellFormed) :
    program.unreferenced =
      program.mutators.filter fun mutator => ¬ program.Mentions mutator.name := by
  apply List.filter_congr
  intro mutator hmutator
  have hword := Text.IsWord.of_isIdentifier (h.mutators.identifiers mutator hmutator)
  rw [Bool.eq_iff_iff, Bool.not_eq_true', ← Bool.not_eq_true, any_containsWord_iff hword,
    decide_eq_true_iff]

/-! ## 3. Warnings -/

/-- What is said about a mutator that no code mentions. -/
def warning (program : Program) (mutator : Mutator) : String :=
  s!"{String.ofList program.fileName}: mutator `{String.ofList mutator.name}` is never " ++
    "referenced, its values only multiply the variants"

/-- A warning tells which mutator it is about. -/
theorem name_eq_of_warning_eq {program : Program} {mutator other : Mutator}
    (h : program.warning mutator = program.warning other) : mutator.name = other.name := by
  have hlist := congrArg String.toList h
  simpa [warning, toString] using hlist

theorem nodup_warnings {program : Program} (h : program.WellFormed) : program.warnings.Nodup := by
  have hnames : (program.unreferenced.map Mutator.name).Nodup :=
    h.mutators.distinct.sublist (List.filter_sublist.map Mutator.name)
  exact List.pairwise_map.mpr ((List.pairwise_map.mp hnames).imp fun hne heq =>
    hne (name_eq_of_warning_eq heq))

/-- A program that has been read warns once about each mutator that its code does not mention, in
the order of their declarations, and about no other. -/
theorem warnings_exact {reader : FileReader} {settings : Settings} {fileName : Text}
    {program : Program} (h : Program.read reader settings fileName = .ok program) :
    program.warnings =
        (program.mutators.filter fun mutator => ¬ program.Mentions mutator.name).map
          program.warning ∧
      program.warnings.Nodup := by
  have hprogram := wellFormed_of_read h
  refine ⟨?_, nodup_warnings hprogram⟩
  rw [← unreferenced_eq hprogram]
  rfl

/-- A file with a name that overlaps itself in front of its only mention, a name that is part of
another one everywhere, and a name beside a letter that is not one of ASCII. -/
def echoFile : Text :=
  Text.unlines
    ["#pragma anki mutator A_A 0 1".toList, "#pragma anki mutator A_ 0 1".toList,
     "#pragma anki mutator LOD 0 1".toList, "int sum = A_A_A + A_A;".toList,
     "#pragma anki start comp".toList, "int LODé;".toList, "#pragma anki end".toList]

/-- The program of that file. -/
def echo : Program where
  fileName := "echo".toList
  settings := .default
  mutators :=
    [⟨"A_A".toList, [0, 1], false⟩, ⟨"A_".toList, [0, 1], false⟩, ⟨"LOD".toList, [0, 1], false⟩]
  rewrites := []
  inputs := []
  stages := .singleton .compute
  descriptorSet := 0
  instanceMutator := none
  globals := ["int sum = A_A_A + A_A;".toList]
  stageCode := { PerStage.const [] with compute := ["int LODé;".toList] }
  members := []

theorem warnings_exact_echo :
    Program.read (.ofFiles [("echo".toList, echoFile)]) .default "echo".toList = .ok echo ∧
      echo.warnings =
          (echo.mutators.filter fun mutator => ¬ echo.Mentions mutator.name).map echo.warning ∧
      echo.warnings.Nodup ∧
      (echo.mutators.filter fun mutator => ¬ echo.Mentions mutator.name) =
        [⟨"A_".toList, [0, 1], false⟩] := by
  have hread : Program.read (.ofFiles [("echo".toList, echoFile)]) .default "echo".toList =
      .ok echo := by
    -- A literal is spelled out once, in the goal, and not wherever the evaluation looks at it.
    unfold echoFile echo
    repeat rewrite [String.toList_ofList]
    decide +kernel
  obtain ⟨hwarnings, hnodup⟩ := warnings_exact hread
  exact ⟨hread, hwarnings, hnodup, by decide +kernel⟩

end Program

end ShaderVariants
