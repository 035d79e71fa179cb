import ShaderVariants.Proofs.Variant.Header

/-!
# Members of the uniform block as they are read back

A source declares the members of the uniform block as text, each between a guard that asks for the
macro activating it and the end of that guard.  Here the members are read back from that text: which
of them are left once some macros are defined (`Guarded.keptLines_blockMembers`), and what each of
them declares (`Member.ofLine?_memberLine`).
-/

namespace ShaderVariants

open Condition (Directive)

/-! ## 1. Reading guarded lines -/

namespace Guarded

/-- The names that some lines define. -/
def definedNames (ls : List Text) : List Text :=
  ls.filterMap fun line =>
    match Directive.ofLine? line with
    | some (.define name _) => some name
    | _ => none

/-- The name that a condition asks for, if it is of the form `defined(NAME)`. -/
def askedName? (test : Text) : Option Text :=
  (Text.strip? "defined(".toList test).bind (Text.stripEnd? [')'])

/-- The lines that are left when a guard holds if the name it asks for is among the given ones;
`taken` tells which of the guards that are open hold, the innermost first. -/
def keptLines (names : List Text) (taken : List Bool) : List Text → List Text
  | [] => []
  | line :: rest =>
    match Directive.ofLine? line with
    | some (.openChain (.expression test)) =>
      keptLines names ((askedName? test).any names.contains :: taken) rest
    | some .closeChain => keptLines names taken.tail rest
    | _ =>
      if taken.all id then line :: keptLines names taken rest else keptLines names taken rest

end Guarded

/-- A member of the block as its declaration names it; the extent is empty for a member that is no
array. -/
structure Member where
  type : Text
  name : Text
  extent : Text
  deriving Repr, DecidableEq

/-- Reads the declaration of a member. -/
def Member.ofLine? (line : Text) : Option Member :=
  match Text.strip? ['\t'] line with
  | none => none
  | some body =>
    match Text.strip? " _m_".toList (body.dropWhile Text.isWordChar) with
    | none => none
    | some rest =>
      (Text.stripEnd? [';'] (rest.dropWhile Text.isWordChar)).map fun extent =>
        ⟨body.takeWhile Text.isWordChar, rest.takeWhile Text.isWordChar, extent⟩

/-! ## 2. The lines of a member -/

namespace Draft

def activationName (input : Input) : Text :=
  activationMark ++ input.name

/-- The line that declares an input as a member of the block. -/
def memberLine (counter : Option Mutator) (input : Input) : Text :=
  '\t' :: input.type.spelling ++ " _m_".toList ++ input.name ++ extent counter input ++ [';']

/-- What a guard asks for. -/
def guardTest (input : Input) : Text :=
  "defined(".toList ++ activationName input ++ [')']

theorem memberLines_eq (counter : Option Mutator) (input : Input) :
    memberLines counter input =
      ["#if ".toList ++ guardTest input, memberLine counter input, "#endif".toList] := by
  have hguard : "#if ".toList ++ guardTest input =
      "#if defined(".toList ++ activationMark ++ input.name ++ [')'] := by
    calc "#if ".toList ++ guardTest input
        = "#if ".toList ++ ("defined(".toList ++ (activationMark ++ input.name)) ++ [')'] :=
          (List.append_assoc _ _ _).symm
      _ = "#if ".toList ++ "defined(".toList ++ (activationMark ++ input.name) ++ [')'] :=
          congrArg (· ++ [')']) (List.append_assoc _ _ _).symm
      _ = "#if defined(".toList ++ activationMark ++ input.name ++ [')'] :=
          congrArg (· ++ [')']) (List.append_assoc _ _ _).symm
  rw [hguard]
  rfl

theorem isWord_spelling (type : DataType) : Text.IsWord type.spelling := by
  have hname : Text.isIdentifier type.spelling = true := by cases type <;> decide
  exact .of_isIdentifier hname

theorem isWord_activationName {input : Input} (hname : Text.isIdentifier input.name = true) :
    Text.IsWord (activationName input) := by
  have hmark : Text.isIdentifier activationMark = true := by decide
  exact (Text.IsWord.of_isIdentifier hmark).append (.of_isIdentifier hname)

theorem onOneLine_extent {counter : Option Mutator} {input : Input}
    (hcounter : ∀ mutator ∈ counter, Text.isIdentifier mutator.name = true) :
    Text.OnOneLine (extent counter input) := by
  have hempty : Text.OnOneLine [] := by simp [Text.OnOneLine]
  cases counter with
  | none => exact hempty
  | some mutator =>
    rw [extent]
    cases input.instanced with
    | false => exact hempty
    | true =>
      have hname := Text.onOneLine_of_isIdentifier (hcounter mutator rfl)
      exact (Text.OnOneLine.cons (by decide) hname).append (.cons (by decide) hempty)

theorem onOneLine_of_mem_memberLines {counter : Option Mutator} {input : Input}
    (hname : Text.isIdentifier input.name = true)
    (hcounter : ∀ mutator ∈ counter, Text.isIdentifier mutator.name = true) {line : Text}
    (h : line ∈ memberLines counter input) : Text.OnOneLine line := by
  have hword : ∀ t : Text, (t.all fun c => c != '\n' && c != '\r') = true → Text.OnOneLine t :=
    fun t => Text.onOneLine_of_all
  rw [memberLines_eq] at h
  simp only [List.mem_cons, List.not_mem_nil, or_false] at h
  rcases h with rfl | rfl | rfl
  · have hasked := Text.onOneLine_of_isWord (isWord_activationName hname)
    have htest : Text.OnOneLine (guardTest input) :=
      ((hword _ (by decide)).append hasked).append (hword [')'] (by decide))
    exact (hword _ (by decide)).append htest
  · have htype := Text.onOneLine_of_isWord (isWord_spelling input.type)
    have hdeclared : Text.OnOneLine ('\t' :: input.type.spelling ++ " _m_".toList) :=
      (Text.OnOneLine.cons (by decide) htype).append (hword _ (by decide))
    exact ((hdeclared.append (Text.onOneLine_of_isIdentifier hname)).append
      (onOneLine_extent hcounter)).append (hword [';'] (by decide))
  · exact hword _ (by decide)

end Draft

/-! ## 3. Reading the lines of a member back -/

theorem Text.head?_append_of_head? {front : Text} {c : Char} (h : front.head? = some c)
    (back : Text) : (front ++ back).head? = some c := by
  rw [List.head?_append, h, Option.some_or]

namespace Draft

theorem askedName?_guardTest (input : Input) :
    Guarded.askedName? (guardTest input) = some (activationName input) := by
  have hstrip : Text.strip? "defined(".toList (guardTest input) =
      some (activationName input ++ [')']) :=
    Text.strip?_eq_some_iff.mpr (List.append_assoc _ _ _)
  rw [Guarded.askedName?, hstrip, Option.bind_some, Text.stripEnd?_append]

theorem ofLine?_guard {input : Input} (hname : Text.isIdentifier input.name = true) :
    Directive.ofLine? ("#if ".toList ++ guardTest input) =
      some (.openChain (.expression (guardTest input))) := by
  have hif : Text.IsWord "if".toList := .of_isIdentifier (by decide)
  have hslash : ∀ c ∈ guardTest input, c ≠ '/' := by
    rintro c hc rfl
    rcases List.mem_append.mp hc with hc | hc
    · rcases List.mem_append.mp hc with hc | hc
      · exact absurd hc (by decide)
      · exact absurd ((isWord_activationName hname).chars _ hc) (by decide)
    · exact absurd hc (by decide)
  have hfirst : (guardTest input).head? = some 'd' := by
    exact Text.head?_append_of_head? (Text.head?_append_of_head? (by decide) _) _
  have hlast : (guardTest input).getLast? = some ')' := List.getLast?_concat
  have hends : Text.trim (guardTest input) = guardTest input := by
    refine Text.trim_eq_self_of_ends ?_ ?_
    · rw [hfirst]
      decide
    · rw [hlast]
      decide
  have hkeyword : Directive.keyword? ("#if ".toList ++ guardTest input) =
      some ("if".toList, guardTest input) := by
    have hif := Condition.keyword?_append hif (guardTest input)
    rw [Text.beforeComment_eq_self_of_not_slash hslash, Text.trim_space_cons, hends] at hif
    exact hif
  rw [Directive.ofLine?, hkeyword]
  simp

theorem ofLine?_memberLine (counter : Option Mutator) (input : Input) :
    Directive.ofLine? (memberLine counter input) = none := by
  obtain ⟨c, rest, hspelling⟩ := List.exists_cons_of_ne_nil (isWord_spelling input.type).nonempty
  have hchar : Text.isWordChar c = true :=
    (isWord_spelling input.type).chars c (hspelling ▸ List.mem_cons_self)
  have htab : Text.isBlank '\t' = true := by decide
  have hline : Text.trimStart (memberLine counter input) = (memberLine counter input).tail := by
    have hblank := Text.isBlank_eq_false_of_isWordChar hchar
    simp only [memberLine, hspelling, List.cons_append, List.tail_cons]
    simp [Text.trimStart, htab, hblank]
  have hhash : c ≠ '#' := by
    rintro rfl
    exact absurd hchar (by decide)
  have hkeyword : Directive.keyword? (memberLine counter input) = none := by
    rw [Directive.keyword?, hline]
    simp only [memberLine, hspelling, List.cons_append, List.tail_cons]
    split <;> simp_all
  rw [Directive.ofLine?, hkeyword]

end Draft

theorem Member.ofLine?_memberLine (counter : Option Mutator) {input : Input}
    (hname : Text.isIdentifier input.name = true) :
    Member.ofLine? (Draft.memberLine counter input) =
      some ⟨input.type.spelling, input.name, Draft.extent counter input⟩ := by
  have hline : Draft.memberLine counter input = ['\t'] ++ (input.type.spelling ++
      (" _m_".toList ++ (input.name ++ (Draft.extent counter input ++ [';'])))) :=
    (List.append_assoc _ _ _).trans ((List.append_assoc _ _ _).trans (List.append_assoc _ _ _))
  have hmark : (" _m_".toList ++ (input.name ++ (Draft.extent counter input ++ [';']))).head? =
      some ' ' :=
    Text.head?_append_of_head? (by decide) _
  have hextent : (Draft.extent counter input ++ [';']).head? = some '[' ∨
      (Draft.extent counter input ++ [';']).head? = some ';' := by
    cases counter with
    | none => exact Or.inr rfl
    | some mutator => cases hinstanced : input.instanced <;> simp [Draft.extent, hinstanced]
  obtain ⟨htype, hbody⟩ := Text.word_append (Draft.isWord_spelling input.type)
    (by rw [hmark]; decide)
  obtain ⟨hword, hrest⟩ := Text.word_append (.of_isIdentifier hname)
    (by rcases hextent with h | h <;> rw [h] <;> decide)
  rw [Member.ofLine?, hline, Text.strip?_append]
  simp only [htype, hbody, Text.strip?_append, hword, hrest, Text.stripEnd?_append, Option.map_some]

/-! ## 4. What is left of the block -/

namespace Guarded

/-- The guard of a member leaves its declaration if the member's macro is defined, and nothing
otherwise. -/
theorem keptLines_memberLines (names : List Text) (counter : Option Mutator) {input : Input}
    (hname : Text.isIdentifier input.name = true) (rest : List Text) :
    keptLines names [] (Draft.memberLines counter input ++ rest) =
      (if names.contains (Draft.activationName input) then [Draft.memberLine counter input]
        else []) ++ keptLines names [] rest := by
  have hclose : Directive.ofLine? "#endif".toList = some .closeChain := by decide
  rw [Draft.memberLines_eq]
  simp only [List.cons_append, List.nil_append, keptLines, Draft.ofLine?_guard hname,
    Draft.askedName?_guardTest, Draft.ofLine?_memberLine, hclose, Option.any_some, List.tail_cons]
  cases names.contains (Draft.activationName input) <;> rfl

theorem keptLines_blockMembers (names : List Text) (counter : Option Mutator) {inputs : List Input}
    (hnames : ∀ input ∈ inputs, Text.isIdentifier input.name = true) :
    keptLines names [] (blockMembers counter inputs) =
      (inputs.filter fun input =>
        names.contains (Draft.activationName input) && input.inBlock).map
          (Draft.memberLine counter) := by
  induction inputs with
  | nil => rfl
  | cons input rest ih =>
    obtain ⟨hname, hrest⟩ := List.forall_mem_cons.mp hnames
    -- An input outside of the block has no lines at all.
    have hstep : keptLines names [] (blockMembers counter (input :: rest)) =
        (if input.inBlock && names.contains (Draft.activationName input) then
          [Draft.memberLine counter input] else []) ++
            keptLines names [] (blockMembers counter rest) := by
      cases hblock : input.inBlock with
      | false => simp [blockMembers, hblock]
      | true =>
        have hkept := keptLines_memberLines names counter hname (blockMembers counter rest)
        simpa [blockMembers, hblock] using hkept
    rw [hstep, ih hrest, List.filter_cons, Bool.and_comm]
    split <;> rfl

theorem definedNames_defineLine {name value : Text} (hname : Text.IsWord name) (hvalue : value ≠ [])
    (hchars : ∀ c ∈ value, Text.isBlank c = false ∧ c ≠ '/') (rest : List Text) :
    definedNames (Header.defineLine name value :: rest) = name :: definedNames rest := by
  have hline := Condition.ofLine?_defineLine hname hvalue hchars
  simp [definedNames, hline]

/-- The lines that activate an input define its macro, and else at most the macro of its binding. -/
theorem mem_definedNames_activationLines {input : Input}
    (hname : Text.isIdentifier input.name = true) (name : Text) :
    name ∈ definedNames (activationLines input) ↔ name = Draft.activationName input ∨
      input.binding.isSome = true ∧ name = Draft.bindingMark ++ input.name := by
  have hone : ∀ c ∈ (['1'] : Text), Text.isBlank c = false ∧ c ≠ '/' := by
    intro c hc
    obtain rfl := List.mem_singleton.mp hc
    decide
  have hmark : Text.isIdentifier Draft.bindingMark = true := by decide
  have hbinding := (Text.IsWord.of_isIdentifier hmark).append (.of_isIdentifier hname)
  have hactive : definedNames (activationLines input) = _ :=
    definedNames_defineLine (Draft.isWord_activationName hname) (by decide) hone _
  rw [hactive, List.mem_cons]
  cases input.binding with
  | none => simp [definedNames]
  | some binding =>
    have hbound : definedNames [Header.defineLine (Draft.bindingMark ++ input.name)
        (Numeral.ofNat binding)] = [Draft.bindingMark ++ input.name] :=
      definedNames_defineLine hbinding (Numeral.ofNat_ne_nil binding)
        (Numeral.isValue_ofInt binding) []
    rw [hbound]
    simp

theorem definedNames_flatMap (f : Input → List Text) (inputs : List Input) :
    definedNames (inputs.flatMap f) = inputs.flatMap fun input => definedNames (f input) :=
  List.filterMap_flatMap

theorem activationName_ne_binding (input : Input) (name : Text) :
    Draft.activationName input ≠ Draft.bindingMark ++ name := by
  intro h
  have hmarks : Draft.activationMark.take 7 ≠ Draft.bindingMark.take 7 := by decide
  have hlength : 7 ≤ Draft.activationMark.length ∧ 7 ≤ Draft.bindingMark.length := by
    decide
  -- The marks differ within their first seven characters already.
  have htake := congrArg (List.take 7) h
  rw [Draft.activationName, List.take_append_of_le_length hlength.1,
    List.take_append_of_le_length hlength.2] at htake
  exact hmarks htake

/-- The activation lines of a variant define the macro of an input exactly if it is active. -/
theorem contains_definedNames_activations {program : Program} (hprogram : program.WellFormed)
    (active : InputSet) {input : Input} (hinput : input ∈ program.inputs) :
    (definedNames (activations program active)).contains (Draft.activationName input) =
      active.mem input.index := by
  have hname := fun other hother => (hprogram.inputs.each other hother).identifier
  rw [Bool.eq_iff_iff, List.contains_iff_mem, activations, definedNames_flatMap, List.mem_flatMap]
  constructor
  · rintro ⟨other, hother, hmem⟩
    obtain ⟨hother, hactive⟩ := List.mem_filter.mp hother
    rcases (mem_definedNames_activationLines (hname other hother) _).mp hmem with heq | ⟨-, heq⟩
    -- A macro is defined for one name only, and names are distinct.
    · have hsame := List.inj_on_of_nodup_map hprogram.inputs.distinct hinput hother
        (List.append_cancel_left heq)
      exact hsame ▸ hactive
    · exact absurd heq (activationName_ne_binding input other.name)
  · intro hactive
    refine ⟨input, List.mem_filter.mpr ⟨hinput, hactive⟩, ?_⟩
    exact (mem_definedNames_activationLines (hname input hinput) _).mpr (Or.inl rfl)

end Guarded

theorem Program.onOneLine_of_mem_members {program : Program} (hprogram : program.WellFormed)
    {line : Text} (hline : line ∈ program.members) : Text.OnOneLine line := by
  rw [hprogram.inputs.members_eq] at hline
  obtain ⟨input, hinput, hline⟩ := List.mem_flatMap.mp hline
  have hname := (hprogram.inputs.each input (List.mem_of_mem_filter hinput)).identifier
  refine Draft.onOneLine_of_mem_memberLines hname (fun mutator hmutator => ?_) hline
  obtain ⟨place, -, hplace⟩ := Option.bind_eq_some_iff.mp hmutator
  exact hprogram.mutators.identifiers mutator (List.mem_of_getElem? hplace)

theorem Program.lines_members {program : Program} (hprogram : program.WellFormed) :
    Text.lines (Text.unlines program.members) = program.members :=
  Text.lines_unlines fun _ hline => (onOneLine_of_mem_members hprogram hline).isLine

/-- The members that activation leaves are the declarations of the active inputs in the block. -/
theorem Program.keptLines_members {program : Program} (hprogram : program.WellFormed)
    (active : InputSet) :
    Guarded.keptLines (Guarded.definedNames (activations program active)) []
        (Text.lines (Text.unlines program.members)) =
      (program.inputs.filter fun input => active.mem input.index && input.inBlock).map
        (Draft.memberLine program.instanceCounter?) := by
  have hnames := fun input hinput => (hprogram.inputs.each input hinput).identifier
  rw [lines_members hprogram, hprogram.inputs.members_eq, Guarded.keptLines_blockMembers _ _ hnames]
  congr 1
  refine List.filter_congr fun input hinput => ?_
  rw [Guarded.contains_definedNames_activations hprogram active hinput]

end ShaderVariants
