import ShaderVariants.Proofs.Condition.Splice
import ShaderVariants.Proofs.Variant.Definitions
import ShaderVariants.Proofs.Variant.Generated
import ShaderVariants.Proofs.Variant.SourceText

/-!
# Behind a header

Besides the mutators a header defines macros of its own.  Where no test of a program asks for one
of these, only the definitions of the mutators matter to what is found behind the header, by the
scan of a stage (`Program.activeInputs_of_bare`) and by an eager preprocessor
(`Header.alike_after_lines`), and a variant can be told without looking at the rest of it
(`Program.variant_eq_assemble_of_bare`).
-/

namespace ShaderVariants

open Condition (DefinesHidden Directive IsQuiet LineSpares Nest Scan askedNames)
open Guarded (definedNames mem_definedNames)

variable {program : Program} {mutation : Mutation} {stage : Stage}

/-! ## 1. Macros of a header -/

namespace Header

/-- Whether the header of a stage defines the name, besides the mutators. -/
def Defines (program : Program) (stage : Stage) (name : Text) : Prop :=
  name ∈ definedNames (lines program [] stage)

/-- The macro of a stage is defined in the header of no other stage. -/
theorem not_defines_define {other : Stage} (h : other ≠ stage) :
    ¬ Defines program stage other.define := by
  intro hdefines
  obtain ⟨line, hline, value, hdefine⟩ := mem_definedNames.mp hdefines
  have hother : ∀ name body : Text, Text.IsWord name → name ≠ other.define →
      line ≠ defineLine name body := by
    rintro name body hname hne rfl
    obtain ⟨number, hown⟩ := Condition.exists_ofLine?_defineLine hname body
    exact hne (Directive.define.inj (Option.some.inj (hown.symm.trans hdefine))).1
  have hcapital : ∀ {name : Text}, name.head? ≠ some 'A' → name ≠ other.define := by
    rintro name hne rfl
    exact hne (by cases other <;> rfl)
  have hstages : (Stage.all.map Stage.define).Nodup := by decide +kernel
  have hfixed : ∀ other ∈ Stage.all, "ANKI_BACKEND_MINOR".toList ≠ other.define ∧
      "ANKI_BACKEND_MAJOR".toList ≠ other.define ∧
      ∀ vendor ∈ Vendor.all, vendor.define ≠ other.define := by
    decide +kernel
  obtain ⟨hminor, hmajor, hvendor⟩ := hfixed other (Stage.mem_all other)
  rw [lines, List.mem_append, List.mem_append, List.mem_append] at hline
  rcases hline with ((hline | hline) | hline) | hline
  · simp only [List.mem_cons, List.not_mem_nil, or_false] at hline
    rcases hline with hline | hline | hline | hline | hline | hline
    · have hversion : Directive.ofLine? "#version 450 core".toList = none := by decide
      rw [hline, hversion] at hdefine
      cases hdefine
    · exact hother _ _ (.of_isIdentifier (by decide)) hminor hline
    · exact hother _ _ (.of_isIdentifier (by decide)) hmajor hline
    · generalize program.settings.vendor = vendor at hline
      exact hother _ _ vendor.isWord_define (hvendor vendor (by cases vendor <;> decide)) hline
    · exact hother _ _ stage.isWord_define (fun heq => h (List.inj_on_of_nodup_map hstages
        (Stage.mem_all other) (Stage.mem_all stage) heq.symm)) hline
    · exact hother _ _ (.of_isIdentifier (by decide)) (hcapital (by decide)) hline
  · rw [mutatorLines, List.zipWith_nil_right] at hline
    cases hline
  · obtain ⟨type, -, name, value', hown, hname⟩ := exists_ofLine?_of_mem_typeLines hline
    obtain rfl := (Directive.define.inj (Option.some.inj (hown.symm.trans hdefine))).1
    rcases hname with hname | ⟨-, hname⟩
    · have htitles : ∀ type ∈ DataType.all, type.title.head? ≠ some 'A' := by decide +kernel
      exact hcapital (htitles type (DataType.mem_all type)) hname.symm
    · -- The macros for constants go on with another letter than those of stages.
      have hletter : other.define[5]? ≠ some 'S' := by cases other <;> decide
      have hlength : 5 < "ANKI_SPECIALIZATION_CONSTANT_".toList.length := by decide +kernel
      rw [hname] at hletter
      unfold DataType.constantName at hletter
      rw [List.getElem?_append_left hlength] at hletter
      exact hletter (by decide +kernel)
  · unfold stageLines at hline
    split at hline
    · simp only [List.mem_cons, List.not_mem_nil, or_false] at hline
      rcases hline with hline | hline
      · exact hother "gl_VertexID".toList "gl_VertexIndex".toList (.of_isIdentifier (by decide))
          (hcapital (by decide)) hline
      · exact hother "gl_InstanceID".toList "gl_InstanceIndex".toList
          (.of_isIdentifier (by decide)) (hcapital (by decide)) hline
    · cases hline

theorem lineSpares_of_not_isMacro {line : Text}
    (h : ∀ name ∈ askedNames line, isMacro name = false) : LineSpares (Defines program stage) line :=
  Condition.lineSpares_of_askedNames fun name hname =>
    notMem_definedNames_of_not_isMacro (h name hname)

/-- Without mutators, a header defines such macros and none of them is a mark. -/
theorem definesHidden_of_mem_lines {line : Text} (h : line ∈ lines program [] stage) :
    DefinesHidden (Defines program stage) line := by
  intro directive hdirective
  obtain ⟨name, value, rfl⟩ := isQuiet_of_mem_lines h directive hdirective
  refine ⟨name, value, rfl, mem_definedNames.mpr ⟨line, h, value, hdirective⟩, ?_⟩
  rcases definesMacro_of_mem_lines h with hmutator | hmacro
  · rw [mutatorLines, List.zipWith_nil_right] at hmutator
    cases hmutator
  · rw [definesMacro, hdirective] at hmacro
    exact strip?_siteMark_of_isMacro hmacro

theorem isQuiet_of_mem_mutatorLines {line : Text}
    (h : line ∈ mutatorLines program.mutators mutation) : IsQuiet line := by
  obtain ⟨mutator, -, value, rfl⟩ := exists_of_mem_mutatorLines h
  exact isQuiet_defineLine _ _

/-- What surrounds the definitions of the mutators defines such macros only. -/
theorem exists_lines_around (program : Program) (stage : Stage) : ∃ front back,
    (∀ mutation, lines program mutation stage =
      front ++ (mutatorLines program.mutators mutation ++ back)) ∧
    (∀ line ∈ front, DefinesHidden (Defines program stage) line) ∧
    ∀ line ∈ back, DefinesHidden (Defines program stage) line := by
  obtain ⟨front, hlines⟩ := exists_lines_eq_append program stage
  have hnone := hlines []
  rw [mutatorLines, List.zipWith_nil_right, List.nil_append] at hnone
  exact ⟨front, _, hlines,
    fun line hline => definesHidden_of_mem_lines (hnone ▸ List.mem_append_left _ hline),
    fun line hline => definesHidden_of_mem_lines (hnone ▸ List.mem_append_right _ hline)⟩

end Header

/-! ## 2. Scans -/

/-- What is found behind a header that only defines the mutators is found behind the whole header,
if no test asks for what else that one defines. -/
theorem Condition.Scan.exists_run_lines {inputs : List Input} {more : List Text} {last : Scan}
    (hspares : ∀ line ∈ more, LineSpares (Header.Defines program stage) line)
    (hrun : Scan.run inputs .start 1
      (Header.mutatorLines program.mutators mutation ++ more) = .ok last) :
    ∃ last', Scan.run inputs .start 1 (Header.lines program mutation stage ++ more) = .ok last' ∧
      last.Like (Header.Defines program stage) last' := by
  obtain ⟨front, back, hlines, hfront, hback⟩ := Header.exists_lines_around program stage
  have hquiet : ∀ line ∈ Header.mutatorLines program.mutators mutation, IsQuiet line :=
    fun line hline => Header.isQuiet_of_mem_mutatorLines hline
  -- The front of the header, the mutators, the rest of it, and what stands behind it.
  rw [Scan.run_append] at hrun
  split at hrun
  · cases hrun
  next middle hmiddle =>
  have hopen : middle.chains = [] := Scan.chains_of_run hquiet rfl hmiddle
  have hstart : Scan.start.Like (Header.Defines program stage) .start := Scan.like_refl rfl
  obtain ⟨first, hfirst, hlike⟩ := Scan.run_of_definesHidden hfront hstart rfl 1
  obtain ⟨second, hsecond, hlike⟩ := Scan.run_of_like (List.forall₂_same.mpr fun _ _ => rfl)
    (fun line hline => Condition.lineSpares_of_isQuiet (hquiet line hline)) hlike
    (1 + front.length) hmiddle
  obtain ⟨third, hthird, hlike⟩ := Scan.run_of_definesHidden hback hlike hopen
    (1 + front.length + (Header.mutatorLines program.mutators mutation).length)
  obtain ⟨last', hlast, hlike⟩ := Scan.run_of_like (List.forall₂_same.mpr fun _ _ => rfl)
    hspares hlike (1 + (Header.lines program mutation stage).length) hrun
  refine ⟨last', ?_, hlike⟩
  have hheader : Scan.run inputs .start 1 (Header.lines program mutation stage) = .ok third := by
    rw [hlines, Scan.run_append, hfirst]
    dsimp only
    rw [Scan.run_append, hsecond]
    exact hthird
  rw [Scan.run_append, hheader]
  exact hlast

/-! ## 3. Preprocessors -/

namespace Condition

theorem Eager.holds_of_agree {hidden : Text → Prop} {symbols others : Symbols}
    (h : SymbolsAgree hidden symbols others) {test : Test} (hspares : test.Spares hidden) :
    holds symbols test = holds others test := by
  cases test with
  | expression text =>
    cases hexpr : Expr.ofText text with
    | error e => simp only [holds, hexpr]
    | ok expr =>
      have heval : expr.eval symbols = expr.eval others :=
        Expr.eval_congr fun name hname => h name (hspares name ⟨expr, hexpr, hname⟩)
      simp only [holds, hexpr, heval]
  | defined name => exact h.contains_eq (hspares name rfl)
  | notDefined name => exact congrArg not (h.contains_eq (hspares name rfl))
  | otherwise => rfl

theorem Nest.after_append (p : Preprocessor) (nest : Nest) (lines more : List Text) :
    nest.after p (lines ++ more) = (nest.after p lines).after p more :=
  List.foldl_append

/-- Two states of a preprocessor that differ at most in hidden symbols. -/
structure Nest.Alike (hidden : Text → Prop) (nest other : Nest) : Prop where
  symbols : SymbolsAgree hidden nest.symbols other.symbols
  levels : nest.levels = other.levels

namespace Nest.Alike

variable {hidden : Text → Prop} {nest other : Nest}

theorem define (h : nest.Alike hidden other) (name : Text) (value : Option Int) :
    (nest.define name value).Alike hidden (other.define name value) := by
  have hopen : other.levels.isEmpty = nest.levels.isEmpty := by rw [h.levels]
  unfold Nest.define
  rw [hopen]
  split
  · exact ⟨h.symbols.insert name value, h.levels⟩
  · exact h

/-- A test that asks for no hidden symbol is decided alike. -/
theorem step (h : nest.Alike hidden other) {line : Text} (hline : LineSpares hidden line) :
    (nest.step .eager line).Alike hidden (other.step .eager line) := by
  have harm : ∀ test : Test, test.Spares hidden →
      (nest.pushArm .eager test).Alike hidden (other.pushArm .eager test) := by
    intro test hspares
    unfold Nest.pushArm
    rw [← h.levels]
    split
    · exact h
    next level outer _ =>
      refine ⟨h.symbols, ?_⟩
      show level.next (Eager.holds nest.symbols test) :: outer = _
      rw [Eager.holds_of_agree h.symbols hspares]
      rfl
  unfold LineSpares testOf? at hline
  unfold Nest.step
  cases hdirective : Directive.ofLine? line with
  | none => exact h
  | some directive =>
    rw [hdirective] at hline
    cases directive with
    | openChain test =>
      refine ⟨h.symbols, ?_⟩
      show (Eager.Level.mk nest.keeps false false).next (Eager.holds nest.symbols test) ::
        nest.levels = _
      rw [Eager.holds_of_agree h.symbols (hline test rfl), Nest.keeps, h.levels]
      rfl
    | elseIf text => exact harm _ (hline _ rfl)
    | elseArm => exact harm _ Test.spares_otherwise
    | closeChain => exact ⟨h.symbols, congrArg List.tail h.levels⟩
    | define name value => exact h.define name value

theorem after {lines : List Text} (h : nest.Alike hidden other)
    (hlines : ∀ line ∈ lines, LineSpares hidden line) :
    (nest.after .eager lines).Alike hidden (other.after .eager lines) := by
  induction lines generalizing nest other with
  | nil => exact h
  | cons line rest ih =>
    obtain ⟨hline, hrest⟩ := List.forall_mem_cons.mp hlines
    exact ih (h.step hline) hrest

/-- Definitions of hidden symbols go unnoticed. -/
theorem after_of_definesHidden {p : Preprocessor} {lines : List Text} (h : nest.Alike hidden other)
    (hlines : ∀ line ∈ lines, DefinesHidden hidden line) :
    nest.Alike hidden (other.after p lines) := by
  induction lines generalizing other with
  | nil => exact h
  | cons line rest ih =>
    obtain ⟨hline, hrest⟩ := List.forall_mem_cons.mp hlines
    have hstep : nest.Alike hidden (other.step p line) := by
      unfold Nest.step
      cases hdirective : Directive.ofLine? line with
      | none => exact h
      | some directive =>
        obtain ⟨name, value, rfl, hname, -⟩ := hline directive hdirective
        dsimp only
        unfold Nest.define
        split
        · exact ⟨h.symbols.insert_hidden hname value, h.levels⟩
        · exact h
    exact ih hstep hrest

end Nest.Alike

end Condition

/-- To an eager preprocessor too, the definitions of the mutators are all of a header that matters. -/
theorem Header.alike_after_lines (program : Program) (mutation : Mutation) (stage : Stage) :
    (Nest.start.after .eager (mutatorLines program.mutators mutation)).Alike
      (Defines program stage) (Nest.start.after .eager (lines program mutation stage)) := by
  obtain ⟨front, back, hlines, hfront, hback⟩ := exists_lines_around program stage
  have hstart : Nest.start.Alike (Defines program stage) .start := ⟨fun _ _ => rfl, rfl⟩
  rw [hlines, Nest.after_append, Nest.after_append]
  exact ((hstart.after_of_definesHidden hfront).after fun line hline =>
    Condition.lineSpares_of_isQuiet (isQuiet_of_mem_mutatorLines hline)).after_of_definesHidden hback

/-! ## 4. Variants -/

namespace Program

/-- The inputs that are active in a stage whose header only defines the mutators. -/
def bareInputs (program : Program) (mutation : Mutation) (stage : Stage) :
    Except Condition.Obstacle InputSet :=
  match Scan.run program.inputs .start 1
      (Header.mutatorLines program.mutators mutation ++ program.codeLines stage) with
  | .error obstacle => .error obstacle
  | .ok scan => scan.finish

/-- A program of which no test asks for a macro that a header defines besides the mutators. -/
def AsksNoMacro (program : Program) : Prop :=
  ∀ stage ∈ program.stages.toList, ∀ line ∈ program.codeLines stage,
    LineSpares (Header.Defines program stage) line

theorem asksNoMacro_of_not_isMacro
    (h : ∀ stage ∈ program.stages.toList, ∀ line ∈ program.codeLines stage,
      ∀ name ∈ askedNames line, Header.isMacro name = false) : program.AsksNoMacro :=
  fun stage hstage line hline => Header.lineSpares_of_not_isMacro (h stage hstage line hline)

theorem activeInputs_of_bare (hprogram : program.WellFormed)
    (hspares : ∀ line ∈ program.codeLines stage,
      LineSpares (Header.Defines program stage) line) {mask : InputSet}
    (h : program.bareInputs mutation stage = .ok mask) :
    Condition.activeInputs (program.analyzedText mutation stage) program.inputs = .ok mask := by
  unfold bareInputs at h
  split at h
  · cases h
  next last hlast =>
    obtain ⟨last', hlast', hlike⟩ := Scan.exists_run_lines hspares hlast
    rw [Condition.activeInputs, lines_analyzedText hprogram, hlast']
    exact hlike.finish h

theorem activeIn_eq_of_bare (hprogram : program.WellFormed) {known : InputSet}
    {stages : List Stage} {masks : List InputSet}
    (hasks : ∀ stage ∈ stages, ∀ line ∈ program.codeLines stage,
      LineSpares (Header.Defines program stage) line)
    (hmasks : stages.map (program.bareInputs mutation) = masks.map .ok) :
    program.activeIn mutation known stages = .ok (masks.foldl InputSet.union known) := by
  induction stages generalizing known masks with
  | nil =>
    obtain rfl := List.map_eq_nil_iff.mp hmasks.symm
    rfl
  | cons stage rest ih =>
    obtain ⟨hstage, hrest⟩ := List.forall_mem_cons.mp hasks
    cases masks with
    | nil => cases hmasks
    | cons mask masks =>
      obtain ⟨hmask, hmasks⟩ := List.cons.inj hmasks
      rw [activeIn, activeInputs_of_bare hprogram hstage hmask]
      exact ih hrest hmasks

/-- The variant of a program that asks for no macro of a header, told by what is active behind the
definitions of the mutators alone. -/
theorem variant_eq_assemble_of_bare (hprogram : program.WellFormed)
    (hvalid : program.validate mutation = .ok ()) (hasks : program.AsksNoMacro)
    {masks : List InputSet}
    (hmasks : program.stages.toList.map (program.bareInputs mutation) = masks.map .ok)
    {block : Block} {placements : List (Option Placement)}
    (hplaced : placeInputs (masks.foldl InputSet.union .empty) (program.instanceCount? mutation)
      (.empty program.settings.packing) program.inputs = .ok (block, placements)) :
    program.variant mutation =
      program.assemble mutation (masks.foldl InputSet.union .empty) block placements :=
  variant_eq_assemble hvalid (activeIn_eq_of_bare hprogram hasks hmasks) hplaced

theorem exists_variant_of_bare (hprogram : program.WellFormed)
    (hstorage : program.settings.storage = .auto) (hvalid : program.validate mutation = .ok ())
    (hasks : program.AsksNoMacro) {masks : List InputSet}
    (hmasks : program.stages.toList.map (program.bareInputs mutation) = masks.map .ok)
    {block : Block} {placements : List (Option Placement)}
    (hplaced : placeInputs (masks.foldl InputSet.union .empty) (program.instanceCount? mutation)
      (.empty program.settings.packing) program.inputs = .ok (block, placements)) :
    ∃ variant, program.variant mutation = .ok variant ∧
      variant.active = masks.foldl InputSet.union .empty :=
  exists_variant_of_placed hstorage hvalid (activeIn_eq_of_bare hprogram hasks hmasks) hplaced

end Program

end ShaderVariants
