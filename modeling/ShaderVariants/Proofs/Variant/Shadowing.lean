import ShaderVariants.Proofs.Condition.Nesting
import ShaderVariants.Proofs.Variant.Definitions
import ShaderVariants.Proofs.Variant.Emitted

/-!
# Generated lines that shadow a mutator

The names of mutators, of inputs and of generated macros are not held against each other, so lines
that are generated behind the definition of a mutator may define its name once more.  Which names
they define is told exactly (`Program.mem_definedNames_generatedLines`), and every other mutator
keeps its value (`Program.mutator_keeps_value`).
-/

namespace ShaderVariants

open Condition (Directive Scan Symbols siteMark)
open Condition.Eager (Pass)
open Guarded (definedNames definedNames_append definedNames_flatMap mem_definedNames)

/-! ## 1. Names that generated lines define -/

/-- The lines that are generated behind the mutators: the rest of the header, what activates inputs,
the uniform block, and what stands for the declarations of inputs. -/
def Program.generatedLines (program : Program) (active : InputSet) (pushConstants : Bool)
    (stage : Stage) : List Text :=
  Header.typeLines ++ Header.stageLines stage ++ activations program active ++
    blockDeclaration program pushConstants ++
      program.inputs.flatMap fun input => [Draft.siteLine input, Draft.declarationLine input]

/-- The names that generated lines define behind the mutators. -/
inductive Program.Shadows (program : Program) (active : InputSet) (stage : Stage) : Text → Prop
  | title {type : DataType} (numeric : type ∈ DataType.numeric) :
      Program.Shadows program active stage type.title
  | constant {type : DataType} (numeric : type ∈ DataType.numeric) (vector : type.isMatrix = false) :
      Program.Shadows program active stage type.constantName
  | vertexID (vertex : stage = .vertex) :
      Program.Shadows program active stage "gl_VertexID".toList
  | instanceID (vertex : stage = .vertex) :
      Program.Shadows program active stage "gl_InstanceID".toList
  | activation {input : Input} (declared : input ∈ program.inputs)
      (used : active.mem input.index = true) :
      Program.Shadows program active stage (Draft.activationName input)
  | binding {input : Input} (declared : input ∈ program.inputs)
      (used : active.mem input.index = true) (bound : input.binding.isSome = true) :
      Program.Shadows program active stage (Draft.bindingMark ++ input.name)
  | site {input : Input} (declared : input ∈ program.inputs) :
      Program.Shadows program active stage (siteMark ++ input.name)
  | member {input : Input} (declared : input ∈ program.inputs) (block : input.inBlock = true) :
      Program.Shadows program active stage input.name

namespace Header

theorem definedNames_titles (types : List DataType) :
    definedNames (types.map fun type => defineLine type.title type.spelling) =
      types.map DataType.title := by
  induction types with
  | nil => rfl
  | cons type rest ih =>
    obtain ⟨value, hline⟩ :=
      Condition.exists_ofLine?_defineLine type.isWord_title type.spelling
    rw [List.map_cons, List.map_cons, ← ih, definedNames, List.filterMap_cons, hline]
    rfl

theorem definedNames_constants {types : List DataType}
    (hscalars : ∀ type ∈ types, type.scalar?.isSome = true) :
    definedNames (types.filterMap constantLine?) =
      (types.filter fun type => !type.isMatrix).map DataType.constantName := by
  induction types with
  | nil => rfl
  | cons type rest ih =>
    obtain ⟨hscalar, hrest⟩ := List.forall_mem_cons.mp hscalars
    cases hmatrix : type.isMatrix with
    | true =>
      have hnone : constantLine? type = none := by rw [constantLine?, if_pos hmatrix]
      rw [List.filterMap_cons_none hnone, List.filter_cons_of_neg (by simp [hmatrix]), ih hrest]
    | false =>
      obtain ⟨scalar, hscalar⟩ := Option.isSome_iff_exists.mp hscalar
      obtain ⟨line, hline⟩ : ∃ line, constantLine? type = some line := by
        rw [constantLine?, hmatrix, hscalar]
        exact ⟨_, rfl⟩
      obtain ⟨-, behind, rfl⟩ := exists_constantLine?_eq hline
      have hopening : ("(n_, id_)".toList ++ behind).head?.all (fun c => !Text.isWordChar c) =
          true := rfl
      obtain ⟨value, hdefine⟩ := Condition.exists_ofLine?_define type.isWord_constantName hopening
      rw [List.filterMap_cons_some hline, List.filter_cons_of_pos (by simp [hmatrix]),
        List.map_cons, ← ih hrest, definedNames, List.filterMap_cons, hdefine]
      rfl

theorem definedNames_typeLines :
    definedNames typeLines = DataType.numeric.map DataType.title ++
      (DataType.numeric.filter fun type => !type.isMatrix).map DataType.constantName := by
  have hscalars : ∀ type ∈ DataType.numeric, type.scalar?.isSome = true := by
    intro type htype
    rw [DataType.scalar?_isSome_iff_shape?_isSome]
    exact (List.mem_filter.mp htype).2
  rw [typeLines, definedNames_append, definedNames_titles, definedNames_constants hscalars]

end Header

theorem Header.definedNames_stageLines (stage : Stage) :
    definedNames (stageLines stage) =
      if stage = .vertex then ["gl_VertexID".toList, "gl_InstanceID".toList] else [] := by
  cases stage <;> decide

theorem Guarded.definedNames_eq_nil {lines : List Text}
    (h : ∀ line ∈ lines, ∀ name value, Directive.ofLine? line ≠ some (.define name value)) :
    definedNames lines = [] := by
  rw [List.eq_nil_iff_forall_not_mem]
  intro name hname
  obtain ⟨line, hline, value, hdefine⟩ := mem_definedNames.mp hname
  exact h line hline name value hdefine

/-- The declaration of the uniform block defines nothing. -/
theorem definedNames_blockDeclaration {program : Program} (hprogram : program.WellFormed)
    (pushConstants : Bool) : definedNames (blockDeclaration program pushConstants) = [] := by
  have hfirst := ofLine?_blockLine program.settings.packing pushConstants
  have hopen : Directive.ofLine? ['\x7b'] = none := by decide
  have hlast : Directive.ofLine? ('\x7d' :: ' ' :: Draft.blockInstance ++ [';']) = none := by
    decide
  have hclose : Directive.ofLine? "#endif".toList = some .closeChain := by decide
  refine Guarded.definedNames_eq_nil fun line hline name value hdefine => ?_
  rw [blockDeclaration, hprogram.inputs.members_eq] at hline
  simp only [List.mem_append, List.mem_cons, List.not_mem_nil, or_false] at hline
  rcases hline with ((rfl | rfl) | hline) | rfl
  · rw [hfirst] at hdefine
    cases hdefine
  · rw [hopen] at hdefine
    cases hdefine
  · obtain ⟨input, hinput, hline⟩ := List.mem_flatMap.mp hline
    have hname := (hprogram.inputs.each input (List.mem_of_mem_filter hinput)).identifier
    rw [Draft.memberLines_eq] at hline
    simp only [List.mem_cons, List.not_mem_nil, or_false] at hline
    rcases hline with rfl | rfl | rfl
    · rw [Draft.ofLine?_guard hname] at hdefine
      cases hdefine
    · rw [show Directive.ofLine? _ = none from Draft.ofLine?_memberLine _ input] at hdefine
      cases hdefine
    · rw [hclose] at hdefine
      cases hdefine
  · rw [hlast] at hdefine
    cases hdefine

/-- An input defines its mark where it is declared, and its name if it is a member of the block. -/
theorem mem_definedNames_inputLines {input : Input} (hname : Text.isIdentifier input.name = true)
    (name : Text) :
    name ∈ definedNames [Draft.siteLine input, Draft.declarationLine input] ↔
      name = siteMark ++ input.name ∨ input.inBlock = true ∧ name = input.name := by
  cases hblock : input.inBlock with
  | true =>
    have hline := Draft.ofLine?_declarationLine_of_inBlock hname hblock
    simp [definedNames, Draft.ofLine?_siteLine hname, hline]
  | false =>
    have hline := Draft.ofLine?_declarationLine_eq_none hblock
    simp [definedNames, Draft.ofLine?_siteLine hname, hline]

/-- Generated lines define these names and no others. -/
theorem Program.mem_definedNames_generatedLines {program : Program} (hprogram : program.WellFormed)
    (active : InputSet) (pushConstants : Bool) (stage : Stage) (name : Text) :
    name ∈ definedNames (program.generatedLines active pushConstants stage) ↔
      program.Shadows active stage name := by
  have hname := fun input hinput => (hprogram.inputs.each input hinput).identifier
  rw [generatedLines, definedNames_append, definedNames_append, definedNames_append,
    definedNames_append, Header.definedNames_typeLines, Header.definedNames_stageLines,
    definedNames_blockDeclaration hprogram, List.append_nil, activations, definedNames_flatMap,
    definedNames_flatMap]
  simp only [List.mem_append, List.mem_map, List.mem_flatMap, List.mem_filter]
  constructor
  · rintro ((((⟨type, hnumeric, rfl⟩ | ⟨type, ⟨hnumeric, hmatrix⟩, rfl⟩) | hstage) |
      ⟨input, ⟨hinput, hactive⟩, hmem⟩) | ⟨input, hinput, hmem⟩)
    · exact .title hnumeric
    · exact .constant hnumeric (by simpa using hmatrix)
    · split at hstage
      next hvertex =>
        simp only [List.mem_cons, List.not_mem_nil, or_false] at hstage
        rcases hstage with rfl | rfl
        · exact .vertexID hvertex
        · exact .instanceID hvertex
      · cases hstage
    · rcases (Guarded.mem_definedNames_activationLines (hname input hinput) _).mp hmem with
        rfl | ⟨hbound, rfl⟩
      · exact .activation hinput hactive
      · exact .binding hinput hactive hbound
    · rcases (mem_definedNames_inputLines (hname input hinput) _).mp hmem with
        rfl | ⟨hblock, rfl⟩
      · exact .site hinput
      · exact .member hinput hblock
  · intro h
    cases h with
    | title hnumeric => exact Or.inl (Or.inl (Or.inl (Or.inl ⟨_, hnumeric, rfl⟩)))
    | constant hnumeric hvector =>
      exact Or.inl (Or.inl (Or.inl (Or.inr ⟨_, ⟨hnumeric, by simp [hvector]⟩, rfl⟩)))
    | vertexID hvertex => exact Or.inl (Or.inl (Or.inr (by simp [hvertex])))
    | instanceID hvertex => exact Or.inl (Or.inl (Or.inr (by simp [hvertex])))
    | activation hinput hactive =>
      exact Or.inl (Or.inr ⟨_, ⟨hinput, hactive⟩,
        (Guarded.mem_definedNames_activationLines (hname _ hinput) _).mpr (Or.inl rfl)⟩)
    | binding hinput hactive hbound =>
      exact Or.inl (Or.inr ⟨_, ⟨hinput, hactive⟩,
        (Guarded.mem_definedNames_activationLines (hname _ hinput) _).mpr (Or.inr ⟨hbound, rfl⟩)⟩)
    | site hinput =>
      exact Or.inr ⟨_, hinput, (mem_definedNames_inputLines (hname _ hinput) _).mpr (Or.inl rfl)⟩
    | member hinput hblock =>
      exact Or.inr ⟨_, hinput,
        (mem_definedNames_inputLines (hname _ hinput) _).mpr (Or.inr ⟨hblock, rfl⟩)⟩

/-! ## 2. Mutators that keep their values -/

namespace Program

/-- A mutator that no line behind the header redefines but such as are generated, and that no
generated line does.  A name that is spelled like the mark of an input is no symbol at all. -/
structure Keeps (program : Program) (active : InputSet) (pushConstants : Bool) (stage : Stage)
    (front : List Text) (name : Text) : Prop where
  declared : name ∈ program.mutators.map Mutator.name
  unmarked : Text.strip? siteMark name = none
  unshadowed : ¬ program.Shadows active stage name
  untouched : ∀ line ∈ front, name ∈ definedNames [line] →
    line ∈ program.generatedLines active pushConstants stage

variable {program : Program} {mutation : Mutation}

theorem Keeps.notMem_definedNames (hprogram : program.WellFormed) {active : InputSet}
    {pushConstants : Bool} {stage : Stage} {front : List Text} {name : Text}
    (h : program.Keeps active pushConstants stage front name) : name ∉ definedNames front := by
  intro hmem
  obtain ⟨line, hline, value, hdefine⟩ := mem_definedNames.mp hmem
  have hown : name ∈ definedNames [line] :=
    mem_definedNames.mpr ⟨line, List.mem_singleton_self line, value, hdefine⟩
  have hgenerated : name ∈ definedNames (program.generatedLines active pushConstants stage) :=
    mem_definedNames.mpr ⟨line, h.untouched line hline hown, value, hdefine⟩
  exact h.unshadowed ((mem_definedNames_generatedLines hprogram _ _ _ _).mp hgenerated)

/-- Behind the header and other lines, a mutator that is kept has its value. -/
theorem Keeps.getElem?_symbols {reader : FileReader} {settings : Settings} {fileName : Text}
    (hread : Program.read reader settings fileName = .ok program)
    (hvalid : program.validate mutation = .ok ()) {active : InputSet} {pushConstants : Bool}
    {stage : Stage} {front : List Text} {name : Text}
    (h : program.Keeps active pushConstants stage front name) {scan : Scan}
    (hrun : Scan.run program.inputs .start 1 (Header.lines program mutation stage ++ front) =
      .ok scan) :
    scan.symbols[name]? = some (some (program.valueUnder mutation name)) := by
  have hprogram := wellFormed_of_read hread
  have hstart : Scan.start.InStep .start := ⟨rfl, rfl⟩
  -- The rest of the header is generated as well.
  have hheader : name ∉ definedNames (Header.typeLines ++ Header.stageLines stage) := by
    intro hmem
    refine h.unshadowed
      ((mem_definedNames_generatedLines hprogram active pushConstants stage name).mp ?_)
    rw [generatedLines, List.append_assoc, List.append_assoc, definedNames_append]
    exact List.mem_append_left _ hmem
  rw [(hstart.run hrun).symbols_eq, List.foldl_append,
    Pass.getElem?_symbols_of_notMem (h.notMem_definedNames hprogram)]
  exact getElem?_symbols_lines hread hvalid h.declared h.unmarked hheader

/-- Generated lines take the value of a mutator exactly if it has one of their names.  Every other
mutator has the value that the mutation gives to it wherever conditions are decided, and conditions
on such mutators are decided by the mutation. -/
theorem mutator_keeps_value {reader : FileReader} {settings : Settings} {fileName : Text}
    (hread : Program.read reader settings fileName = .ok program)
    (hvalid : program.validate mutation = .ok ()) (active : InputSet) (pushConstants : Bool)
    (stage : Stage) :
    (∀ mutator ∈ program.mutators,
      mutator.name ∈ definedNames (program.generatedLines active pushConstants stage) ↔
        program.Shadows active stage mutator.name) ∧
    ∀ front scan,
      Scan.run program.inputs .start 1 (Header.lines program mutation stage ++ front) = .ok scan →
      (∀ name, program.Keeps active pushConstants stage front name →
        scan.symbols[name]? = some (some (program.valueUnder mutation name))) ∧
      ∀ text expr, Condition.Expr.ofText text = .ok expr →
        (∀ name ∈ expr.names, program.Keeps active pushConstants stage front name) →
          ∀ line shown, Condition.Arm.verdict scan.symbols ⟨.expression text, line, shown⟩ =
            .ok (expr.value (program.valueUnder mutation) != 0) := by
  refine ⟨fun mutator _ => mem_definedNames_generatedLines (wellFormed_of_read hread) _ _ _ _,
    fun front scan hrun => ?_⟩
  have hkept : ∀ name, program.Keeps active pushConstants stage front name →
      scan.symbols[name]? = some (some (program.valueUnder mutation name)) :=
    fun name hkeeps => hkeeps.getElem?_symbols hread hvalid hrun
  refine ⟨hkept, fun text expr htext hnames line shown => ?_⟩
  have hvalue := Condition.Expr.eval_eq_value fun name hname => hkept name (hnames name hname)
  simp only [Condition.Arm.verdict, htext, hvalue]

end Program

/-- A file whose mutators have the names of a type, of an input and of marks. -/
def masqueradeFile : Text :=
  Text.unlines
    ["#pragma anki mutator LOD 0 1".toList, "#pragma anki mutator Vec4 0 1".toList,
     "#pragma anki mutator lamp 0 1".toList,
     "#pragma anki mutator _ANKI_ACTIVATE_INPUT_lamp 0 1".toList,
     "#pragma anki mutator _ANKI_INPUT_SITE_ghost 0 1".toList,
     "#pragma anki input F32 lamp".toList, "#pragma anki start frag".toList,
     "#pragma anki end".toList]

/-- The program of that file. -/
def masquerade : Program where
  fileName := "masquerade".toList
  settings := .default
  mutators :=
    [⟨"LOD".toList, [0, 1], false⟩, ⟨"Vec4".toList, [0, 1], false⟩,
     ⟨"lamp".toList, [0, 1], false⟩, ⟨"_ANKI_ACTIVATE_INPUT_lamp".toList, [0, 1], false⟩,
     ⟨"_ANKI_INPUT_SITE_ghost".toList, [0, 1], false⟩]
  rewrites := []
  inputs := [⟨"lamp".toList, 0, .f32, false, none, none⟩]
  stages := .singleton .fragment
  descriptorSet := 0
  instanceMutator := none
  globals :=
    ["#define _ANKI_INPUT_SITE_lamp".toList, "#define lamp _anki_unis._m_lamp".toList]
  stageCode := .const []
  members :=
    ["#if defined(_ANKI_ACTIVATE_INPUT_lamp)".toList, "\tfloat _m_lamp;".toList, "#endif".toList]

namespace Condition

/-- A guard that asks whether a symbol is one. -/
theorem Expr.ofText_isOne {name : Text} (hname : Text.isIdentifier name = true)
    (hplain : name ≠ "defined".toList) :
    Expr.ofText (name ++ " == 1".toList) = .ok (.binary .eq (.symbol name) (.literal 1)) := by
  have hone : IsLiteral "1".toList 1 :=
    .positive (.decimal (by decide) (List.all_eq_true.mp (by decide))) (by decide)
  have hequal := Derives.binary (show Operator.eq.rank = 1 + 1 from rfl)
    (.tighter (.tighter (.symbol name))) (.tighter (.literal 1))
  refine Expr.ofText_of_writtenAs ⟨_, .tighter (.tighter hequal), ?_⟩
  exact .lexeme (.ident hname hplain) <| .blank rfl <| .lexeme (.operator .eq) <| .blank rfl <|
    .lexeme (.int hone) .nil

/-- Such a guard is not decided if the symbol is no integer. -/
theorem Arm.exists_verdict_isOne_eq_error {symbols : Symbols} {name : Text}
    (hname : Text.isIdentifier name = true) (hplain : name ≠ "defined".toList)
    (hvalue : symbols[name]?.join = none) (line : Nat) (shown : Text) :
    ∃ obstacle, Arm.verdict symbols ⟨.expression (name ++ " == 1".toList), line, shown⟩ =
      .error obstacle := by
  simp only [Arm.verdict, Expr.ofText_isOne hname hplain, Expr.eval]
  cases hsymbol : symbols[name]? with
  | none => exact ⟨_, rfl⟩
  | some value =>
    rw [hsymbol] at hvalue
    cases value with
    | none => exact ⟨_, rfl⟩
    | some value => cases hvalue

end Condition

namespace Program

theorem read_masquerade :
    Program.read (.ofFiles [("masquerade".toList, masqueradeFile)]) .default "masquerade".toList =
      .ok masquerade := by
  -- A literal is spelled out once, in the goal, and not wherever the evaluation looks at it.
  unfold masqueradeFile masquerade
  repeat rewrite [String.toList_ofList]
  decide +kernel

theorem active_variant_masquerade :
    (masquerade.variant [0, 1, 1, 0, 1]).map Variant.active = .ok (InputSet.empty.insert 0) := by
  have hasks : masquerade.AsksNoMacro := by
    refine asksNoMacro_of_not_isMacro ?_
    unfold masquerade
    repeat rewrite [String.toList_ofList]
    decide +kernel
  have hmasks : masquerade.stages.toList.map (masquerade.bareInputs [0, 1, 1, 0, 1]) =
      [(⟨1⟩ : InputSet)].map .ok := by
    unfold masquerade
    repeat rewrite [String.toList_ofList]
    decide +kernel
  obtain ⟨block, placements, hplaced⟩ : ∃ block placements,
      placeInputs ([(⟨1⟩ : InputSet)].foldl InputSet.union .empty)
        (masquerade.instanceCount? [0, 1, 1, 0, 1]) (.empty masquerade.settings.packing)
        masquerade.inputs = .ok (block, placements) :=
    ⟨_, _, rfl⟩
  obtain ⟨variant, hvariant, hactive⟩ := exists_variant_of_bare (wellFormed_of_read read_masquerade) rfl
    (by decide) hasks hmasks hplaced
  rw [hvariant]
  exact congrArg Except.ok hactive

/-- What is known of three of the mutators behind the header and the declaration of the input. -/
theorem symbols_masquerade :
    (Scan.run masquerade.inputs .start 1
        (Header.lines masquerade [0, 1, 1, 0, 1] .fragment ++ masquerade.globals)).map
      (fun scan => ["Vec4".toList, "lamp".toList, "_ANKI_INPUT_SITE_ghost".toList].map
        fun name => scan.symbols[name]?.join) = .ok [none, none, none] := by
  decide +kernel

/-- The header, the declaration of an input and what activates it each define the name of a mutator
once more, and a mutator that is spelled like the mark of an input is no symbol.  Guards on such
mutators are not decided. -/
theorem mutator_shadowed :
    Program.read (.ofFiles [("masquerade".toList, masqueradeFile)]) .default "masquerade".toList =
        .ok masquerade ∧
      masquerade.validate [0, 1, 1, 0, 1] = .ok () ∧
      ["Vec4".toList, "lamp".toList, "_ANKI_ACTIVATE_INPUT_lamp".toList,
        "_ANKI_INPUT_SITE_ghost".toList] = (masquerade.mutators.map Mutator.name).tail ∧
      ∃ variant scan, masquerade.variant [0, 1, 1, 0, 1] = .ok variant ∧
        Scan.run masquerade.inputs .start 1
          (Header.lines masquerade [0, 1, 1, 0, 1] .fragment ++ masquerade.globals) = .ok scan ∧
        "Vec4".toList ∈ definedNames Header.typeLines ∧
        "lamp".toList ∈ definedNames (masquerade.inputs.map Draft.declarationLine) ∧
        "_ANKI_ACTIVATE_INPUT_lamp".toList ∈
          definedNames (activations masquerade variant.active) ∧
        ∀ name ∈ ["Vec4".toList, "lamp".toList, "_ANKI_INPUT_SITE_ghost".toList],
          ∀ line shown, ∃ obstacle, Condition.Arm.verdict scan.symbols
            ⟨.expression (name ++ " == 1".toList), line, shown⟩ = .error obstacle := by
  have hactive := active_variant_masquerade
  have hsymbols := symbols_masquerade
  cases hvariant : masquerade.variant [0, 1, 1, 0, 1] with
  | error e =>
    rw [hvariant] at hactive
    cases hactive
  | ok variant =>
    rw [hvariant] at hactive
    have hlamp : variant.active = InputSet.empty.insert 0 := Except.ok.inj hactive
    cases hscan : Scan.run masquerade.inputs .start 1
        (Header.lines masquerade [0, 1, 1, 0, 1] .fragment ++ masquerade.globals) with
    | error e =>
      rw [hscan] at hsymbols
      cases hsymbols
    | ok scan =>
      rw [hscan] at hsymbols
      obtain ⟨hvec4, hrest⟩ := List.cons.inj (Except.ok.inj hsymbols)
      obtain ⟨hlamp', hrest⟩ := List.cons.inj hrest
      obtain ⟨hghost, -⟩ := List.cons.inj hrest
      refine ⟨read_masquerade, by decide, by decide, variant, scan, rfl, rfl, ?_,
        by decide +kernel, by rw [hlamp]; decide +kernel, fun name hname line shown => ?_⟩
      · rw [Header.definedNames_typeLines]
        decide +kernel
      simp only [List.mem_cons, List.not_mem_nil, or_false] at hname
      rcases hname with rfl | rfl | rfl
      · exact Condition.Arm.exists_verdict_isOne_eq_error (by decide) (by decide) hvec4 line shown
      · exact Condition.Arm.exists_verdict_isOne_eq_error (by decide) (by decide) hlamp' line shown
      · exact Condition.Arm.exists_verdict_isOne_eq_error (by decide) (by decide) hghost line shown

/-- The first mutator of the masquerade is like any other, so a guard on it is decided by the
mutation. -/
theorem mutator_keeps_value_masquerade :
    Program.read (.ofFiles [("masquerade".toList, masqueradeFile)]) .default "masquerade".toList =
        .ok masquerade ∧
      masquerade.validate [0, 1, 1, 0, 1] = .ok () ∧
      ∃ scan, Scan.run masquerade.inputs .start 1
          (Header.lines masquerade [0, 1, 1, 0, 1] .fragment ++ masquerade.globals) = .ok scan ∧
        scan.symbols["LOD".toList]? = some (some 0) ∧
        Condition.Arm.verdict scan.symbols
          ⟨.expression "LOD == 1".toList, 42, "#if LOD == 1".toList⟩ = .ok false := by
  have hvalid : masquerade.validate [0, 1, 1, 0, 1] = .ok () := by decide
  obtain ⟨-, hkept⟩ := mutator_keeps_value read_masquerade hvalid .empty false .fragment
  have hruns := symbols_masquerade
  cases hrun : Scan.run masquerade.inputs .start 1
      (Header.lines masquerade [0, 1, 1, 0, 1] .fragment ++ masquerade.globals) with
  | error e =>
    rw [hrun] at hruns
    cases hruns
  | ok scan =>
    have hfree : "LOD".toList ∉ definedNames
        (masquerade.generatedLines .empty false .fragment ++ masquerade.globals) := by
      rw [generatedLines]
      simp only [definedNames_append, Header.definedNames_typeLines]
      decide +kernel
    rw [definedNames_append, List.mem_append, not_or] at hfree
    have hkeeps : masquerade.Keeps .empty false .fragment masquerade.globals "LOD".toList := by
      refine ⟨by decide, by decide, fun hshadows => hfree.1 ?_, fun line hline hown => ?_⟩
      · exact (mem_definedNames_generatedLines (wellFormed_of_read read_masquerade) _ _ _ _).mpr
          hshadows
      · obtain ⟨own, hsingle, value, hdefine⟩ := mem_definedNames.mp hown
        rw [List.mem_singleton.mp hsingle] at hdefine
        exact absurd (mem_definedNames.mpr ⟨line, hline, value, hdefine⟩) hfree.2
    obtain ⟨hsymbols, hguards⟩ := hkept _ scan hrun
    have hname : Text.isIdentifier "LOD".toList = true := by decide
    have hplain : "LOD".toList ≠ "defined".toList := by decide
    have hexpr := Condition.Expr.ofText_isOne hname hplain
    refine ⟨read_masquerade, hvalid, scan, rfl, hsymbols _ hkeeps, ?_⟩
    refine hguards _ _ hexpr (fun name hname => ?_) _ _
    obtain rfl : name = "LOD".toList := List.mem_singleton.mp hname
    exact hkeeps

end Program

end ShaderVariants
