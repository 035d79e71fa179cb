import ShaderVariants.Proofs.Condition.Names
import ShaderVariants.Proofs.Condition.Written
import ShaderVariants.Proofs.Program.WellFormed
import ShaderVariants.Proofs.Text.Lines
import ShaderVariants.Proofs.Text.OneLine
import ShaderVariants.Variant.Header

/-!
# Generated lines as they are read back

A header consists of whole lines that define macros and do nothing else, and the definition of a
mutator is the only line of it that depends on the value.
-/

namespace ShaderVariants

/-! ## 1. Definitions -/

namespace Text

/-- A text that neither starts nor ends with a blank has none to trim. -/
theorem trim_eq_self_of_ends {t : Text} (hfirst : t.head?.all (fun c => !isBlank c) = true)
    (hlast : t.getLast?.all (fun c => !isBlank c) = true) : trim t = t := by
  have hdrop : ∀ s : Text, s.head?.all (fun c => !isBlank c) = true → s.dropWhile isBlank = s := by
    intro s hs
    cases s with
    | nil => rfl
    | cons c s => simp_all
  rw [trim, trimStart, hdrop t hfirst, trimEnd, hdrop t.reverse (by rwa [List.head?_reverse]),
    List.reverse_reverse]

theorem trimStart_append {blanks : Text} (h : ∀ c ∈ blanks, isBlank c = true) (t : Text) :
    trimStart (blanks ++ t) = trimStart t :=
  List.dropWhile_append_of_pos h

theorem trim_space_cons (t : Text) : trim (' ' :: t) = trim t := by
  have hspace : isBlank ' ' = true := by decide
  simp [trim, trimStart, hspace]

theorem beforeComment_cons {c : Char} (hc : c ≠ '/') (t : Text) :
    beforeComment (c :: t) = c :: beforeComment t := by
  rw [beforeComment, startsComment_eq_false hc]
  rfl

/-- No comment starts in a text without slashes. -/
theorem beforeComment_append {front : Text} (h : ∀ c ∈ front, c ≠ '/') (t : Text) :
    beforeComment (front ++ t) = front ++ beforeComment t := by
  induction front with
  | nil => rfl
  | cons c front ih =>
    obtain ⟨hc, hfront⟩ := List.forall_mem_cons.mp h
    rw [List.cons_append, beforeComment_cons hc, ih hfront, List.cons_append]

theorem beforeComment_prefix (t : Text) : beforeComment t <+: t := by
  induction t with
  | nil => exact List.prefix_rfl
  | cons c t ih =>
    rw [beforeComment]
    split
    · exact List.nil_prefix
    · exact List.cons_prefix_cons.mpr ⟨rfl, ih⟩

theorem trimEnd_prefix (t : Text) : trimEnd t <+: t := by
  rw [trimEnd, ← List.reverse_suffix, List.reverse_reverse]
  exact List.dropWhile_suffix isBlank

/-- What is left of a text whose end is cut off starts alike, or is nothing. -/
theorem head?_all_of_prefix {p : Char → Bool} {s t : Text} (h : s <+: t)
    (ht : t.head?.all p = true) : s.head?.all p = true := by
  cases s with
  | nil => rfl
  | cons c s =>
    obtain ⟨rest, rfl⟩ := h
    exact ht

theorem IsWord.ne_slash {word : Text} (hword : IsWord word) : ∀ c ∈ word, c ≠ '/' := by
  rintro c hc rfl
  exact absurd (hword.chars _ hc) (by decide)

end Text

theorem Header.defineLine_eq (name value : Text) :
    defineLine name value = "#define ".toList ++ (name ++ ' ' :: value) :=
  List.append_assoc _ _ _

namespace Condition

/-- The keyword of a line ends where no character of a word follows, and what is behind it is read up
to the first comment. -/
theorem keyword?_of_word {indent gap keyword rest : Text}
    (blanks : ∀ c ∈ indent ++ gap, Text.isBlank c = true) (hkeyword : Text.IsWord keyword)
    (ends : rest.head?.all (fun c => !Text.isWordChar c) = true) :
    Directive.keyword? (indent ++ '#' :: (gap ++ (keyword ++ rest))) =
      some (keyword, Text.trim (Text.beforeComment rest)) := by
  obtain ⟨hindent, hgap⟩ := List.forall_mem_append.mp blanks
  obtain ⟨c, tail, rfl⟩ := List.exists_cons_of_ne_nil hkeyword.nonempty
  have hc := Text.isBlank_eq_false_of_isWordChar (hkeyword.chars c List.mem_cons_self)
  have hend := Text.head?_all_of_prefix (Text.beforeComment_prefix rest) ends
  have hstart : Text.trimStart (gap ++ (c :: tail ++ rest)) = c :: tail ++ rest := by
    rw [Text.trimStart_append hgap, List.cons_append, Text.trimStart_eq_self hc]
  have hline : Text.trimStart (indent ++ '#' :: (gap ++ (c :: tail ++ rest))) =
      '#' :: (gap ++ (c :: tail ++ rest)) := by
    rw [Text.trimStart_append hindent, Text.trimStart_eq_self (by decide)]
  -- No comment starts in the word, so it is cut from the text behind it only.
  obtain ⟨htake, hdrop⟩ := Text.word_append hkeyword hend
  rw [Directive.keyword?_of_trimStart hline, hstart, Text.beforeComment_append hkeyword.ne_slash,
    Directive.cut, htake, hdrop]

/-- The keyword of a line that is written with a blank behind it. -/
theorem keyword?_append {word : Text} (hword : Text.IsWord word) (t : Text) :
    Directive.keyword? ('#' :: (word ++ ' ' :: t)) =
      some (word, Text.trim (' ' :: Text.beforeComment t)) := by
  have hnone : ∀ c ∈ ([] ++ [] : Text), Text.isBlank c = true := List.forall_mem_nil _
  have hspace : (' ' :: t).head?.all (fun c => !Text.isWordChar c) = true := rfl
  have hkeyword := keyword?_of_word hnone hword hspace
  rw [Text.beforeComment_cons (by decide)] at hkeyword
  exact hkeyword

theorem isWord_define : Text.IsWord "define".toList :=
  .of_isIdentifier (by decide)

/-- A line that starts like a definition is one, or nothing. -/
theorem ofLine?_define (t : Text) :
    Directive.ofLine? ("#define ".toList ++ t) =
      Directive.ofDefinition? (Text.trim (' ' :: Text.beforeComment t)) := by
  have hkeyword := keyword?_append isWord_define t
  rw [show '#' :: ("define".toList ++ ' ' :: t) = "#define ".toList ++ t from rfl] at hkeyword
  rw [Directive.ofLine?, hkeyword]
  simp

/-- A definition is one of the word that it starts with, whatever stands behind that. -/
theorem exists_ofLine?_define {name rest : Text} (hname : Text.IsWord name)
    (hrest : rest.head?.all (fun c => !Text.isWordChar c) = true) :
    ∃ value, Directive.ofLine? ("#define ".toList ++ (name ++ rest)) =
      some (.define name value) := by
  have hblank : ∀ c ∈ name, Text.isBlank c = false := fun c hc =>
    Text.isBlank_eq_false_of_isWordChar (hname.chars c hc)
  obtain ⟨c, more, hcons⟩ := List.exists_cons_of_ne_nil hname.nonempty
  have hstart : Text.trimStart (name ++ Text.beforeComment rest) =
      name ++ Text.beforeComment rest := by
    rw [hcons, List.cons_append,
      Text.trimStart_eq_self (hblank c (hcons ▸ List.mem_cons_self))]
  have htrim : Text.trim (name ++ Text.beforeComment rest) =
      name ++ Text.trimEnd (Text.beforeComment rest) := by
    rw [Text.trim, hstart, Text.trimEnd_append]
    split
    next hnil => rw [hnil, List.append_nil, Text.trimEnd_eq_self hblank]
    · rfl
  have hend := Text.head?_all_of_prefix
    ((Text.trimEnd_prefix _).trans (Text.beforeComment_prefix rest)) hrest
  obtain ⟨htake, hdrop⟩ := Text.word_append hname hend
  rw [ofLine?_define, Text.beforeComment_append hname.ne_slash, Text.trim_space_cons, htrim,
    Directive.ofDefinition?, htake, hdrop, hcons]
  dsimp only
  split
  · exact ⟨_, rfl⟩
  · exact ⟨_, rfl⟩

theorem exists_ofLine?_defineLine {name : Text} (hname : Text.IsWord name) (value : Text) :
    ∃ number, Directive.ofLine? (Header.defineLine name value) = some (.define name number) := by
  have hspace : (' ' :: value).head?.all (fun c => !Text.isWordChar c) = true := rfl
  rw [Header.defineLine_eq]
  exact exists_ofLine?_define hname hspace

theorem isQuiet_define (t : Text) : IsQuiet ("#define ".toList ++ t) := by
  intro directive h
  rw [ofLine?_define] at h
  exact exists_define_of_ofDefinition? h

theorem ofDefinition?_of_isWord {name rest : Text} (hname : Text.IsWord name)
    (hrest : rest.head? = some ' ') :
    Directive.ofDefinition? (name ++ rest) = some (.define name (literal? (Text.trim rest))) := by
  have hspace : Text.isWordChar ' ' = false := by decide
  cases rest with
  | nil => cases hrest
  | cons c rest =>
    obtain rfl := Option.some.inj hrest
    obtain ⟨d, more, rfl⟩ := List.exists_cons_of_ne_nil hname.nonempty
    rw [Directive.ofDefinition?, List.takeWhile_append_of_pos hname.chars,
      List.dropWhile_append_of_pos hname.chars]
    simp [hspace]

/-- A name and its value are read back from a definition, whatever one-word value it is. -/
theorem ofLine?_defineLine {name value : Text} (hname : Text.IsWord name) (hvalue : value ≠ [])
    (hchars : ∀ c ∈ value, Text.isBlank c = false ∧ c ≠ '/') :
    Directive.ofLine? (Header.defineLine name value) = some (.define name (literal? value)) := by
  have hblank : ∀ c ∈ value, Text.isBlank c = false := fun c hc => (hchars c hc).1
  have hslash : ∀ c ∈ name ++ ' ' :: value, c ≠ '/' := by
    refine List.forall_mem_append.mpr ⟨fun c hc => ?_, List.forall_mem_cons.mpr ⟨by decide, ?_⟩⟩
    · rintro rfl
      exact absurd (hname.chars _ hc) (by decide)
    · exact fun c hc => (hchars c hc).2
  have htrim : Text.trim (name ++ ' ' :: value) = name ++ ' ' :: value := by
    obtain ⟨c, rest, rfl⟩ := List.exists_cons_of_ne_nil hname.nonempty
    refine Text.trim_eq_self_of_ends ?_ ?_
    · simpa using Text.isBlank_eq_false_of_isWordChar (hname.chars c List.mem_cons_self)
    · rw [List.getLast?_append, List.getLast?_cons, List.getLast?_eq_some_getLast hvalue]
      simpa using hblank _ (List.getLast_mem hvalue)
  calc Directive.ofLine? (Header.defineLine name value)
      = Directive.ofLine? ("#define ".toList ++ (name ++ ' ' :: value)) := by
        rw [Header.defineLine_eq]
    _ = Directive.ofDefinition? (name ++ ' ' :: value) := by
        rw [ofLine?_define, Text.beforeComment_eq_self_of_not_slash hslash, Text.trim_space_cons,
          htrim]
    _ = some (.define name (literal? value)) := by
        rw [ofDefinition?_of_isWord hname rfl, Text.trim_space_cons, Text.trim_eq_self hblank]

end Condition

/-! ## 2. The header -/

theorem Vendor.isWord_define (vendor : Vendor) : Text.IsWord vendor.define := by
  have hname : Text.isIdentifier vendor.define = true := by cases vendor <;> decide +kernel
  exact .of_isIdentifier hname

theorem Stage.isWord_define (stage : Stage) : Text.IsWord stage.define := by
  have hname : Text.isIdentifier stage.define = true := by cases stage <;> decide +kernel
  exact .of_isIdentifier hname

namespace DataType

/-- The macro that declares constants of a type. -/
def constantName (type : DataType) : Text :=
  "ANKI_SPECIALIZATION_CONSTANT_".toList ++ type.constantSuffix

theorem isWord_title (type : DataType) : Text.IsWord type.title := by
  have hname : Text.isIdentifier type.title = true := by cases type <;> decide
  exact .of_isIdentifier hname

theorem isWord_constantName (type : DataType) : Text.IsWord type.constantName := by
  have hsuffix : Text.isIdentifier type.constantSuffix = true := by cases type <;> decide
  have hmark : Text.isIdentifier "ANKI_SPECIALIZATION_CONSTANT_".toList = true := by decide
  exact (Text.IsWord.of_isIdentifier hmark).append (.of_isIdentifier hsuffix)

end DataType

namespace Header

theorem ofLine?_defineLine_ofInt {name : Text} (hname : Text.IsWord name) (v : Int) :
    Condition.Directive.ofLine? (defineLine name (Numeral.ofInt v)) =
      some (.define name (Condition.literal? (Numeral.ofInt v))) :=
  Condition.ofLine?_defineLine hname (Numeral.ofInt_ne_nil v) (Numeral.isValue_ofInt v)

theorem onOneLine_defineLine {name value : Text} (hname : Text.OnOneLine name)
    (hvalue : Text.OnOneLine value) : Text.OnOneLine (defineLine name value) := by
  have hstart : Text.OnOneLine "#define ".toList := Text.onOneLine_of_all (by decide)
  exact (hstart.append hname).append (.cons (by decide) hvalue)

/-- What is said of a type: its title, and the macro that declares constants of it. -/
theorem exists_of_mem_typeLines {line : Text} (h : line ∈ typeLines) :
    ∃ type ∈ DataType.numeric,
      line = defineLine type.title type.spelling ∨ constantLine? type = some line := by
  rw [typeLines, List.mem_append, List.mem_map, List.mem_filterMap] at h
  rcases h with ⟨type, htype, rfl⟩ | ⟨type, htype, hline⟩
  · exact ⟨type, htype, Or.inl rfl⟩
  · exact ⟨type, htype, Or.inr hline⟩

/-- The line on the constants of a type defines a macro with parameters. -/
theorem exists_constantLine?_eq {type : DataType} {line : Text} (h : constantLine? type = some line) :
    type.isMatrix = false ∧
      ∃ rest, line = "#define ".toList ++ (type.constantName ++ ("(n_, id_)".toList ++ rest)) := by
  unfold constantLine? at h
  split at h
  · cases h
  next hmatrix =>
    obtain ⟨scalar, -, hline⟩ := Option.map_eq_some_iff.mp h
    have hassoc : ∀ name parameters value : Text, defineLine (name ++ parameters) value =
        "#define ".toList ++ (name ++ (parameters ++ ' ' :: value)) := by
      intro name parameters value
      rw [defineLine_eq, List.append_assoc name]
    exact ⟨Bool.eq_false_iff.mpr hmatrix, ' ' :: constantBody type scalar,
      hline.symm.trans (hassoc type.constantName _ _)⟩

/-- Every line on types defines the title of one or the macro for constants of one. -/
theorem exists_ofLine?_of_mem_typeLines {line : Text} (h : line ∈ typeLines) :
    ∃ type ∈ DataType.numeric, ∃ name value,
      Condition.Directive.ofLine? line = some (.define name value) ∧
        (name = type.title ∨ type.isMatrix = false ∧ name = type.constantName) := by
  obtain ⟨type, htype, hline | hline⟩ := exists_of_mem_typeLines h
  · obtain ⟨value, hdefine⟩ :=
      Condition.exists_ofLine?_defineLine type.isWord_title type.spelling
    exact ⟨type, htype, _, value, hline ▸ hdefine, Or.inl rfl⟩
  · obtain ⟨hmatrix, rest, rfl⟩ := exists_constantLine?_eq hline
    have hopening : ("(n_, id_)".toList ++ rest).head?.all (fun c => !Text.isWordChar c) = true :=
      rfl
    obtain ⟨value, hdefine⟩ := Condition.exists_ofLine?_define type.isWord_constantName hopening
    exact ⟨type, htype, _, value, hdefine, Or.inr ⟨hmatrix, rfl⟩⟩

theorem onOneLine_typeLines : ∀ line ∈ typeLines, Text.OnOneLine line := by
  have hall : (typeLines.all fun line => line.all fun c => c != '\n' && c != '\r') = true := by
    decide +kernel
  exact fun line hline => Text.onOneLine_of_all (List.all_eq_true.mp hall line hline)

theorem onOneLine_stageLines (stage : Stage) : ∀ line ∈ stageLines stage, Text.OnOneLine line := by
  have hall : ((stageLines .vertex).all fun line =>
      line.all fun c => c != '\n' && c != '\r') = true := by
    decide
  intro line hline
  by_cases hstage : stage = .vertex
  · rw [hstage] at hline
    exact Text.onOneLine_of_all (List.all_eq_true.mp hall line hline)
  · simp [stageLines, hstage] at hline

theorem exists_of_mem_mutatorLines {mutators : List Mutator} {mutation : Mutation} {line : Text}
    (h : line ∈ mutatorLines mutators mutation) :
    ∃ mutator ∈ mutators, ∃ value, line = defineLine mutator.name (Numeral.ofInt value) := by
  induction mutators generalizing mutation with
  | nil => simp [mutatorLines] at h
  | cons mutator mutators ih =>
    cases mutation with
    | nil => simp [mutatorLines] at h
    | cons value mutation =>
      rw [mutatorLines, List.zipWith_cons_cons, List.mem_cons] at h
      rcases h with rfl | h
      · exact ⟨mutator, List.mem_cons_self, value, rfl⟩
      · obtain ⟨other, hother, hline⟩ := ih h
        exact ⟨other, List.mem_cons_of_mem mutator hother, hline⟩

/-- Every line of a header stays one line when it is written. -/
theorem onOneLine_of_mem_lines {program : Program} {mutation : Mutation} {stage : Stage}
    (hnames : ∀ mutator ∈ program.mutators, Text.isIdentifier mutator.name = true) {line : Text}
    (h : line ∈ lines program mutation stage) : Text.OnOneLine line := by
  have hword : ∀ t : Text, (t.all fun c => c != '\n' && c != '\r') = true → Text.OnOneLine t :=
    fun t => Text.onOneLine_of_all
  have hone : Text.OnOneLine ['1'] := hword _ (by decide)
  -- The six lines on backend and stage, the mutators, the types, and what the stage renames.
  rw [lines, List.mem_append, List.mem_append, List.mem_append] at h
  rcases h with ((h | h) | h) | h
  · simp only [List.mem_cons, List.not_mem_nil, or_false] at h
    rcases h with rfl | rfl | rfl | rfl | rfl | rfl
    · exact hword _ (by decide)
    · exact onOneLine_defineLine (hword _ (by decide)) (Numeral.onOneLine_ofNat _)
    · exact onOneLine_defineLine (hword _ (by decide)) (Numeral.onOneLine_ofNat _)
    · exact onOneLine_defineLine
        (hword _ (by cases program.settings.vendor <;> decide)) hone
    · exact onOneLine_defineLine (hword _ (by cases stage <;> decide)) hone
    · exact onOneLine_defineLine (hword _ (by decide)) (Numeral.onOneLine_ofNat _)
  · obtain ⟨mutator, hmutator, value, rfl⟩ := exists_of_mem_mutatorLines h
    exact onOneLine_defineLine (Text.onOneLine_of_isIdentifier (hnames mutator hmutator))
      (Numeral.onOneLine_ofInt value)
  · exact onOneLine_typeLines line h
  · exact onOneLine_stageLines stage line h

theorem isQuiet_defineLine (name value : Text) : Condition.IsQuiet (defineLine name value) := by
  rw [defineLine_eq]
  exact Condition.isQuiet_define _

theorem isQuiet_of_mem_typeLines {line : Text} (h : line ∈ typeLines) : Condition.IsQuiet line := by
  obtain ⟨-, -, name, value, hline, -⟩ := exists_ofLine?_of_mem_typeLines h
  intro directive hdirective
  rw [hline] at hdirective
  exact ⟨name, value, (Option.some.inj hdirective).symm⟩

theorem isQuiet_of_mem_lines {program : Program} {mutation : Mutation} {stage : Stage} {line : Text}
    (h : line ∈ lines program mutation stage) : Condition.IsQuiet line := by
  rw [lines, List.mem_append, List.mem_append, List.mem_append] at h
  rcases h with ((h | h) | h) | h
  · simp only [List.mem_cons, List.not_mem_nil, or_false] at h
    rcases h with rfl | rfl | rfl | rfl | rfl | rfl
    · have hnone : Condition.Directive.ofLine? "#version 450 core".toList = none := by
        decide
      intro directive hdirective
      rw [hnone] at hdirective
      cases hdirective
    all_goals exact isQuiet_defineLine _ _
  · obtain ⟨mutator, -, value, rfl⟩ := exists_of_mem_mutatorLines h
    exact isQuiet_defineLine _ _
  · exact isQuiet_of_mem_typeLines h
  · unfold stageLines at h
    split at h
    · simp only [List.mem_cons, List.not_mem_nil, or_false] at h
      rcases h with rfl | rfl
      · exact isQuiet_defineLine "gl_VertexID".toList "gl_VertexIndex".toList
      · exact isQuiet_defineLine "gl_InstanceID".toList "gl_InstanceIndex".toList
    · cases h

/-! ## 3. Two mutations -/

/-- Two mutations that agree but for one mutator give the same lines but for its own. -/
theorem exists_mutatorLines_eq {mutators : List Mutator} {mutator : Mutator}
    {first second : Mutation} {place : Nat} {value value' : Int}
    (hplace : mutators[place]? = some mutator) (hfirst : first[place]? = some value)
    (hsecond : second[place]? = some value')
    (hagree : ∀ other, other ≠ place → first[other]? = second[other]?) :
    ∃ before after,
      mutatorLines mutators first =
        before ++ defineLine mutator.name (Numeral.ofInt value) :: after ∧
      mutatorLines mutators second =
        before ++ defineLine mutator.name (Numeral.ofInt value') :: after := by
  induction place generalizing mutators first second with
  | zero =>
    cases mutators with
    | nil => simp at hplace
    | cons head mutators =>
      cases first with
      | nil => simp at hfirst
      | cons v first =>
        cases second with
        | nil => simp at hsecond
        | cons v' second =>
          obtain rfl : head = mutator := by simpa using hplace
          obtain rfl : v = value := by simpa using hfirst
          obtain rfl : v' = value' := by simpa using hsecond
          have hrest : first = second := by
            apply List.ext_getElem?
            intro other
            simpa using hagree (other + 1) (Nat.succ_ne_zero other)
          exact ⟨[], mutatorLines mutators first, rfl, by rw [hrest]; rfl⟩
  | succ place ih =>
    cases mutators with
    | nil => simp at hplace
    | cons head mutators =>
      cases first with
      | nil => simp at hfirst
      | cons v first =>
        cases second with
        | nil => simp at hsecond
        | cons v' second =>
          -- The first value is not the one in question, so it is the same on both sides.
          obtain rfl : v = v' := by simpa using hagree 0 (Nat.succ_ne_zero place).symm
          have hrest : ∀ other, other ≠ place → first[other]? = second[other]? := by
            intro other hother
            simpa using hagree (other + 1) (by omega)
          obtain ⟨before, after, heq, heq'⟩ := ih (by simpa using hplace) (by simpa using hfirst)
            (by simpa using hsecond) hrest
          refine ⟨defineLine head.name (Numeral.ofInt v) :: before, after, ?_, ?_⟩
          · rw [List.cons_append, ← heq]
            rfl
          · rw [List.cons_append, ← heq']
            rfl

/-- What surrounds the definitions of the mutators does not depend on their values. -/
theorem exists_lines_eq_append (program : Program) (stage : Stage) :
    ∃ front, ∀ mutation, lines program mutation stage =
      front ++ (mutatorLines program.mutators mutation ++ (typeLines ++ stageLines stage)) := by
  refine ⟨(lines program [] stage).take 6, fun mutation => ?_⟩
  exact (List.append_assoc _ _ _).trans (List.append_assoc _ _ _)

/-- Two mutations that agree but for one mutator give the same header but for its definition. -/
theorem exists_lines_eq {program : Program} {mutator : Mutator} {first second : Mutation}
    {place : Nat} {value value' : Int} (hplace : program.mutators[place]? = some mutator)
    (hfirst : first[place]? = some value) (hsecond : second[place]? = some value')
    (hagree : ∀ other, other ≠ place → first[other]? = second[other]?) (stage : Stage) :
    ∃ before after,
      lines program first stage =
        before ++ defineLine mutator.name (Numeral.ofInt value) :: after ∧
      lines program second stage =
        before ++ defineLine mutator.name (Numeral.ofInt value') :: after := by
  obtain ⟨before, after, heq, heq'⟩ := exists_mutatorLines_eq hplace hfirst hsecond hagree
  obtain ⟨front, hlines⟩ := exists_lines_eq_append program stage
  refine ⟨front ++ before, after ++ (typeLines ++ stageLines stage), ?_, ?_⟩
  · simp [hlines, heq]
  · simp [hlines, heq']

end Header

end ShaderVariants
