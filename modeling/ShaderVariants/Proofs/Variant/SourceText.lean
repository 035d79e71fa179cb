import ShaderVariants.Proofs.Variant.BlockText
import ShaderVariants.Variant.Basic

/-!
# Sources as they are read back

The lines that are generated for a source are read back one by one, in front of the lines of the
program's own code.
-/

namespace ShaderVariants

/-! ## 1. Generated lines -/

theorem onOneLine_of_mem_activationLines {input : Input}
    (hname : Text.isIdentifier input.name = true) {line : Text}
    (h : line ∈ activationLines input) : Text.OnOneLine line := by
  have hmarked : ∀ mark : Text, (mark.all fun c => c != '\n' && c != '\r') = true →
      Text.OnOneLine (mark ++ input.name) := fun mark hmark =>
    (Text.onOneLine_of_all hmark).append (Text.onOneLine_of_isIdentifier hname)
  rw [activationLines, List.mem_cons] at h
  rcases h with rfl | h
  · exact Header.onOneLine_defineLine (hmarked _ (by decide))
      (Text.onOneLine_of_all (by decide))
  · split at h
    · obtain rfl := List.mem_singleton.mp h
      exact Header.onOneLine_defineLine (hmarked _ (by decide)) (Numeral.onOneLine_ofNat _)
    · cases h

namespace Program

variable {program : Program}

theorem onOneLine_of_mem_activations (hprogram : program.WellFormed) {active : InputSet}
    {line : Text} (h : line ∈ activations program active) : Text.OnOneLine line := by
  obtain ⟨input, hinput, hline⟩ := List.mem_flatMap.mp h
  have hsound := hprogram.inputs.each input (List.mem_of_mem_filter hinput)
  exact onOneLine_of_mem_activationLines hsound.identifier hline

theorem onOneLine_of_mem_blockDeclaration (hprogram : program.WellFormed) {pushConstants : Bool}
    {line : Text} (h : line ∈ blockDeclaration program pushConstants) : Text.OnOneLine line := by
  rw [blockDeclaration, List.mem_append, List.mem_append] at h
  rcases h with (h | h) | h
  · simp only [List.mem_cons, List.not_mem_nil, or_false] at h
    rcases h with rfl | rfl
    · apply Text.onOneLine_of_all
      generalize program.settings.packing = packing
      cases packing <;> cases pushConstants <;> decide
    · exact Text.onOneLine_of_all (by decide)
  · exact onOneLine_of_mem_members hprogram h
  · obtain rfl := List.mem_singleton.mp h
    exact Text.onOneLine_of_all (by decide)

/-! ## 2. Whole sources -/

/-- The program's own lines in the source of a stage, as they are read back. -/
def codeLines (program : Program) (stage : Stage) : List Text :=
  Text.lines (Text.unlines program.globals) ++
    Text.lines (Text.unlines (program.stageCode.get stage))

theorem lines_unlines_append_code (program : Program) {generated : List Text}
    (hgenerated : ∀ line ∈ generated, Text.OnOneLine line) (stage : Stage) :
    Text.lines (Text.unlines (generated ++ (program.globals ++ program.stageCode.get stage))) =
      generated ++ program.codeLines stage := by
  rw [Text.unlines_append, Text.lines_unlines_append,
    Text.lines_unlines fun line hline => (hgenerated line hline).isLine, Text.unlines_append,
    Text.lines_unlines_append]
  rfl

theorem lines_analyzedText (hprogram : program.WellFormed) (mutation : Mutation) (stage : Stage) :
    Text.lines (program.analyzedText mutation stage) =
      Header.lines program mutation stage ++ program.codeLines stage := by
  rw [analyzedText, List.append_assoc]
  exact program.lines_unlines_append_code
    (fun line hline => Header.onOneLine_of_mem_lines hprogram.mutators.identifiers hline) stage

/-- The lines between the header of a source and the program's own. -/
def inputLines (program : Program) (active : InputSet) (blockSize : Nat) (pushConstants : Bool) :
    List Text :=
  activations program active ++
    if 0 < blockSize then blockDeclaration program pushConstants else []

theorem sourceLines_eq_append (program : Program) (mutation : Mutation) (active : InputSet)
    (blockSize : Nat) (pushConstants : Bool) (stage : Stage) :
    program.sourceLines mutation active blockSize pushConstants stage =
      Header.lines program mutation stage ++ (program.inputLines active blockSize pushConstants ++
        (program.globals ++ program.stageCode.get stage)) := by
  simp only [sourceLines, inputLines, List.append_assoc]

theorem onOneLine_of_mem_inputLines (hprogram : program.WellFormed) {active : InputSet}
    {blockSize : Nat} {pushConstants : Bool} {line : Text}
    (h : line ∈ program.inputLines active blockSize pushConstants) : Text.OnOneLine line := by
  rcases List.mem_append.mp h with h | h
  · exact onOneLine_of_mem_activations hprogram h
  · split at h
    · exact onOneLine_of_mem_blockDeclaration hprogram h
    · cases h

theorem lines_sourceLines (hprogram : program.WellFormed) (mutation : Mutation) (active : InputSet)
    (blockSize : Nat) (pushConstants : Bool) (stage : Stage) :
    Text.lines (Text.unlines (program.sourceLines mutation active blockSize pushConstants stage)) =
      Header.lines program mutation stage ++
        (program.inputLines active blockSize pushConstants ++ program.codeLines stage) := by
  have hgenerated : ∀ line ∈ Header.lines program mutation stage ++
      program.inputLines active blockSize pushConstants, Text.OnOneLine line := by
    intro line hline
    rcases List.mem_append.mp hline with hline | hline
    · exact Header.onOneLine_of_mem_lines hprogram.mutators.identifiers hline
    · exact onOneLine_of_mem_inputLines hprogram hline
  have hcode := program.lines_unlines_append_code hgenerated stage
  rw [List.append_assoc, List.append_assoc] at hcode
  rw [sourceLines_eq_append]
  exact hcode

end Program

end ShaderVariants
