import ShaderVariants.Proofs.Condition.Guards
import ShaderVariants.Proofs.Program.Buffers
import ShaderVariants.Proofs.Variant.BlockText

/-!
# Marks

Which lines of a source mark the site of an input, and what the declaration of an input defines:
the name of a block member (`Draft.ofLine?_declarationLine_of_inBlock`) and nothing for any other
input.  A header defines the mutators and some macros of its own, and none of the latter is a mark
(`Header.definesMacro_of_mem_lines`, `Header.strip?_siteMark_of_isMacro`).
-/

namespace ShaderVariants

open Condition (Directive siteMark)

/-! ## 1. Lines that stand for inputs -/

namespace Condition

/-- A definition without a value. -/
theorem ofLine?_define_of_isWord {name : Text} (hname : Text.IsWord name) :
    Directive.ofLine? ("#define ".toList ++ name) = some (.define name none) := by
  have hslash : ∀ c ∈ name, c ≠ '/' := by
    rintro c hc rfl
    exact absurd (hname.chars _ hc) (by decide)
  have hblank : ∀ c ∈ name, Text.isBlank c = false := fun c hc =>
    Text.isBlank_eq_false_of_isWordChar (hname.chars c hc)
  have hend : ([] : Text).head?.all (fun c => !Text.isWordChar c) = true := rfl
  obtain ⟨htake, hdrop⟩ := Text.word_append hname hend
  rw [List.append_nil] at htake hdrop
  obtain ⟨c, rest, hcons⟩ := List.exists_cons_of_ne_nil hname.nonempty
  rw [ofLine?_define, Text.beforeComment_eq_self_of_not_slash hslash, Text.trim_space_cons,
    Text.trim_eq_self hblank, Directive.ofDefinition?, htake, hdrop, hcons]
  rfl

theorem dropUnsignedMark_cons {c : Char} (hc : (c == 'u' || c == 'U') = false) (t : Text) :
    dropUnsignedMark (c :: t) = c :: dropUnsignedMark t := by
  rw [dropUnsignedMark, List.reverse_cons, List.dropWhile_append, dropUnsignedMark]
  cases hrest : t.reverse.dropWhile fun c => c == 'u' || c == 'U' with
  | nil => simp [hc]
  | cons d rest => simp

/-- No literal starts with an underscore. -/
theorem literal?_underscore (t : Text) : literal? ('_' :: t) = none := by
  show magnitude? ('_' :: t) = none
  rw [magnitude?, dropUnsignedMark_cons (by decide)]
  rfl

theorem ofLine?_eq_none_of_head? {line : Text} {c : Char} (hc : line.head? = some c)
    (hblank : Text.isBlank c = false) (hhash : c ≠ '#') : Directive.ofLine? line = none := by
  obtain ⟨rest, rfl⟩ := List.head?_eq_some_iff.mp hc
  have hkeyword : Directive.keyword? (c :: rest) = none := by
    rw [Directive.keyword?, Text.trimStart_eq_self hblank]
    simp [hhash]
  rw [Directive.ofLine?, hkeyword]

end Condition

namespace Draft

variable {input : Input}

theorem ofLine?_siteLine (hname : Text.isIdentifier input.name = true) :
    Directive.ofLine? (siteLine input) = some (.define (siteMark ++ input.name) none) := by
  have hmark : Text.IsWord siteMark := .of_isIdentifier (by decide)
  have hline : siteLine input = "#define ".toList ++ (siteMark ++ input.name) :=
    List.append_assoc _ _ _
  rw [hline]
  exact Condition.ofLine?_define_of_isWord (hmark.append (.of_isIdentifier hname))

/-- What the name of a block member stands for. -/
def memberPath (input : Input) : Text :=
  blockInstance ++ ("._m_".toList ++ input.name)

theorem declarationLine_of_inBlock (hblock : input.inBlock = true) :
    declarationLine input = Header.defineLine input.name (memberPath input) := by
  rw [Input.inBlock, Input.isConstant, Bool.and_eq_true, Bool.not_eq_true', Bool.not_eq_true',
    Option.isSome_eq_false_iff, Option.isNone_iff_eq_none] at hblock
  obtain ⟨hconstant, hresource⟩ := hblock
  rw [declarationLine, hconstant]
  simp only [hresource, Bool.false_eq_true, if_false]
  calc "#define ".toList ++ input.name ++ ' ' :: blockInstance ++ "._m_".toList ++ input.name
      = "#define ".toList ++ input.name ++ ' ' :: blockInstance ++ ("._m_".toList ++ input.name) :=
        List.append_assoc _ _ _
    _ = "#define ".toList ++ input.name ++ ' ' :: memberPath input := List.append_assoc _ _ _

theorem isValue_memberPath (hname : Text.isIdentifier input.name = true) :
    ∀ c ∈ memberPath input, Text.isBlank c = false ∧ c ≠ '/' := by
  have hword : Text.IsWord input.name := .of_isIdentifier hname
  refine List.forall_mem_append.mpr ⟨Text.isValue_of_all (by decide), List.forall_mem_append.mpr
    ⟨Text.isValue_of_all (by decide), ?_⟩⟩
  intro c hc
  refine ⟨Text.isBlank_eq_false_of_isWordChar (hword.chars c hc), ?_⟩
  rintro rfl
  exact absurd (hword.chars _ hc) (by decide)

/-- The declaration of a block member defines its name. -/
theorem ofLine?_declarationLine_of_inBlock (hname : Text.isIdentifier input.name = true)
    (hblock : input.inBlock = true) :
    Directive.ofLine? (declarationLine input) = some (.define input.name none) := by
  have hfirst : (memberPath input).head? = some '_' :=
    Text.head?_append_of_head? (by decide) _
  obtain ⟨rest, hpath⟩ := List.head?_eq_some_iff.mp hfirst
  have hnonempty : memberPath input ≠ [] := by
    rw [hpath]
    exact List.cons_ne_nil _ _
  rw [declarationLine_of_inBlock hblock,
    Condition.ofLine?_defineLine (.of_isIdentifier hname) hnonempty (isValue_memberPath hname),
    hpath, Condition.literal?_underscore]

/-- The declaration of any other input defines nothing. -/
theorem ofLine?_declarationLine_eq_none (hblock : input.inBlock = false) :
    Directive.ofLine? (declarationLine input) = none := by
  have hconstantLine : "ANKI_SPECIALIZATION_CONSTANT_".toList.head? = some 'A' := by
    decide
  have hresourceLine : "layout(set = ".toList.head? = some 'l' := by
    decide
  rw [declarationLine]
  cases hconstant : input.constantId with
  | some id =>
    refine Condition.ofLine?_eq_none_of_head? (c := 'A') ?_ (by decide) (by decide)
    iterate 5 apply Text.head?_append_of_head?
    exact hconstantLine
  | none =>
    have hresource : input.type.isResource = true := by
      simpa [Input.inBlock, Input.isConstant, hconstant] using hblock
    simp only [hresource, if_true]
    refine Condition.ofLine?_eq_none_of_head? (c := 'l') ?_ (by decide) (by decide)
    iterate 8 apply Text.head?_append_of_head?
    exact hresourceLine

theorem onOneLine_siteLine (hname : Text.isIdentifier input.name = true) :
    Text.OnOneLine (siteLine input) := by
  have hmark : Text.OnOneLine ("#define ".toList ++ siteMark) :=
    Text.onOneLine_of_all (by decide)
  exact hmark.append (Text.onOneLine_of_isIdentifier hname)

theorem onOneLine_declarationLine (hname : Text.isIdentifier input.name = true) :
    Text.OnOneLine (declarationLine input) := by
  have hfixed : ∀ t : Text, (t.all fun c => c != '\n' && c != '\r') = true → Text.OnOneLine t :=
    fun t => Text.onOneLine_of_all
  have hinput : Text.OnOneLine input.name := Text.onOneLine_of_isIdentifier hname
  cases hblock : input.inBlock with
  | true =>
    rw [declarationLine_of_inBlock hblock]
    refine Header.onOneLine_defineLine hinput (Text.OnOneLine.append ?_ (.append ?_ hinput))
    · exact hfixed _ (by decide)
    · exact hfixed _ (by decide)
  | false =>
    rw [declarationLine]
    cases hconstant : input.constantId with
    | some id =>
      have hsuffix : Text.OnOneLine input.type.constantSuffix := by
        generalize input.type = type
        exact hfixed _ (by cases type <;> decide)
      refine .append (.append (.append (.append (.append ?_ hsuffix) (.cons (by decide) hinput)) ?_)
        (Numeral.onOneLine_ofNat id)) ?_
      all_goals exact hfixed _ (by decide)
    | none =>
      have hresource : input.type.isResource = true := by
        simpa [Input.inBlock, Input.isConstant, hconstant] using hblock
      have htype : Text.OnOneLine input.type.spelling :=
        Text.onOneLine_of_isWord (isWord_spelling input.type)
      simp only [hresource, if_true]
      refine .append (.append (.append (.append (.append (.append (.append (.append ?_ ?_) ?_) ?_)
        hinput) ?_) htype) (.cons (by decide) hinput)) ?_
      all_goals exact hfixed _ (by decide)

end Draft

/-! ## 2. The header -/

namespace Header

open Condition (Unmarked)

theorem unmarked_of_define {line name : Text} {value : Option Int}
    (h : Directive.ofLine? line = some (.define name value))
    (hname : Text.strip? siteMark name = none) : Unmarked line := by
  intro name' value' h'
  obtain ⟨rfl, rfl⟩ := Directive.define.inj (Option.some.inj (h.symm.trans h'))
  exact hname

/-- Whether some header defines the name itself, besides the mutators. -/
def isMacro (name : Text) : Bool :=
  (Text.strip? "ANKI_".toList name).isSome || name == Draft.descriptorSetMacro ||
    DataType.numeric.any (fun type => name == type.title) || (Text.strip? "gl_".toList name).isSome

theorem isMacro_title {type : DataType} (h : type ∈ DataType.numeric) :
    isMacro type.title = true := by
  have hany : DataType.numeric.any (fun other => type.title == other.title) = true :=
    List.any_eq_true.mpr ⟨type, h, beq_self_eq_true _⟩
  rw [isMacro, hany, Bool.or_true, Bool.true_or]

theorem isMacro_constantName (type : DataType) : isMacro type.constantName = true := by
  have hstrip : Text.strip? "ANKI_".toList type.constantName =
      some ("SPECIALIZATION_CONSTANT_".toList ++ type.constantSuffix) :=
    Text.strip?_append _ _
  rw [isMacro, hstrip]
  rfl

/-- Whether a line defines nothing but such a name. -/
def definesMacro (line : Text) : Bool :=
  match Directive.ofLine? line with
  | some (.define name _) => isMacro name
  | _ => true

theorem definesMacro_defineLine {name : Text} (hname : Text.IsWord name)
    (hheader : isMacro name = true) (value : Text) : definesMacro (defineLine name value) = true := by
  obtain ⟨number, hline⟩ := Condition.exists_ofLine?_defineLine hname value
  rw [definesMacro, hline]
  exact hheader

theorem definesMacro_of_mem_lines {program : Program} {mutation : Mutation} {stage : Stage}
    {line : Text} (h : line ∈ lines program mutation stage) :
    line ∈ mutatorLines program.mutators mutation ∨ definesMacro line = true := by
  rw [lines, List.mem_append, List.mem_append, List.mem_append] at h
  rcases h with ((h | h) | h) | h
  · right
    simp only [List.mem_cons, List.not_mem_nil, or_false] at h
    rcases h with rfl | rfl | rfl | rfl | rfl | rfl
    · decide
    · exact definesMacro_defineLine (.of_isIdentifier (by decide)) (by decide) _
    · exact definesMacro_defineLine (.of_isIdentifier (by decide)) (by decide) _
    · exact definesMacro_defineLine program.settings.vendor.isWord_define
        (by cases program.settings.vendor <;> decide) _
    · exact definesMacro_defineLine stage.isWord_define (by cases stage <;> decide) _
    · exact definesMacro_defineLine (.of_isIdentifier (by decide)) (by decide) _
  · exact Or.inl h
  · right
    obtain ⟨type, htype, name, value, hline, hname⟩ := exists_ofLine?_of_mem_typeLines h
    rw [definesMacro, hline]
    rcases hname with rfl | ⟨-, rfl⟩
    · exact isMacro_title htype
    · exact isMacro_constantName type
  · have hall : (stageLines stage).all definesMacro = true := by cases stage <;> decide
    exact Or.inr (List.all_eq_true.mp hall line h)

/-- No macro of a header is the mark of an input. -/
theorem strip?_siteMark_of_isMacro {name : Text} (h : isMacro name = true) :
    Text.strip? siteMark name = none := by
  unfold isMacro at h
  simp only [Bool.or_eq_true, beq_iff_eq, List.any_eq_true, Option.isSome_iff_exists] at h
  rcases h with ((⟨rest, h⟩ | rfl) | ⟨type, -, rfl⟩) | ⟨rest, h⟩
  · obtain rfl := Text.strip?_eq_some_iff.mp h
    rfl
  · decide
  · cases type <;> decide
  · obtain rfl := Text.strip?_eq_some_iff.mp h
    rfl

/-- No line of a header marks an input, unless the name of a mutator does. -/
theorem unmarked_of_mem_lines {program : Program} {mutation : Mutation} {stage : Stage}
    (hnames : ∀ mutator ∈ program.mutators, Text.isIdentifier mutator.name = true ∧
      Text.strip? siteMark mutator.name = none) {line : Text}
    (h : line ∈ lines program mutation stage) : Unmarked line := by
  rcases definesMacro_of_mem_lines h with h | h
  · obtain ⟨mutator, hmutator, value, rfl⟩ := exists_of_mem_mutatorLines h
    obtain ⟨hidentifier, hmark⟩ := hnames mutator hmutator
    exact unmarked_of_define (ofLine?_defineLine_ofInt (.of_isIdentifier hidentifier) value) hmark
  · intro name value hline
    rw [definesMacro, hline] at h
    exact strip?_siteMark_of_isMacro h

end Header

end ShaderVariants
