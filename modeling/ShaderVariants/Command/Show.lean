import ShaderVariants.Command.Outcome
import ShaderVariants.Program.Summary

/-!
# Showing a program

The command that prints what a program declares.
-/

namespace ShaderVariants

def ProgramOptions.showProgram (options : ProgramOptions) (disk : Disk) : Outcome :=
  match options.load disk with
  | .error fault => ⟨disk, [], [], some (.load fault)⟩
  | .ok program =>
    match program.summary with
    | .error cycle => ⟨disk, [], program.log, some (.cycle cycle)⟩
    | .ok summary => ⟨disk, summary, program.log, none⟩

theorem ProgramOptions.disk_showProgram (options : ProgramOptions) (disk : Disk) :
    (options.showProgram disk).disk = disk := by
  unfold showProgram
  split
  · rfl
  · split <;> rfl

end ShaderVariants
