import ShaderVariants.Program.Parser
import ShaderVariants.Proofs.Text.OneLine
import ShaderVariants.Proofs.Text.Tokens

/-!
# Programs as directives

What a program declares is written down as directives, one to a line, and reading these lines comes
to following the directives one after the other (`Program.read_of_follows`).
-/

namespace ShaderVariants

/-! ## 1. Writing -/

/-- The directive that declares a mutator. -/
def mutatorTokens (mutator : Mutator) : List Text :=
  "mutator".toList ::
    ((if mutator.countsInstances then ["instanced".toList] else []) ++
      mutator.name :: mutator.values.map Numeral.ofInt)

def nameAt (mutators : List Mutator) (place : Nat) : Text :=
  (mutators[place]?.map Mutator.name).getD []

/-- The mutators of some records, each with the given value. -/
def sideTokens (mutators : List Mutator) (value : RewriteRecord → Int) :
    List RewriteRecord → List Text
  | [] => []
  | record :: rest =>
    nameAt mutators record.mutator :: Numeral.ofInt (value record) ::
      sideTokens mutators value rest

/-- The directive that declares a rule. -/
def ruleTokens (mutators : List Mutator) (rule : Rewrite) : List Text :=
  "rewrite_mutation".toList ::
    (sideTokens mutators RewriteRecord.source rule.records ++
      "to".toList :: sideTokens mutators RewriteRecord.target rule.records)

def qualifiers (constant instanced : Bool) : List Text :=
  if constant then ["const".toList] else if instanced then ["instanced".toList] else []

/-- The directive that declares an input. -/
def inputTokens (input : Input) : List Text :=
  "input".toList ::
    (qualifiers input.isConstant input.instanced ++ [input.type.spelling, input.name])

/-- The directives of an empty stage block. -/
def stageTokens (stage : Stage) : List (List Text) :=
  [["start".toList, stage.name], ["end".toList]]

namespace Program

/-- All that a program declares: its mutators, its rules, its inputs, the descriptor set and its
stages in pipeline order. -/
def directives (program : Program) : List (List Text) :=
  program.mutators.map mutatorTokens ++
    (program.rewrites.map (ruleTokens program.mutators) ++
      (program.inputs.map inputTokens ++
        ["descriptor_set".toList, Numeral.ofNat program.descriptorSet] ::
          program.stages.toList.flatMap stageTokens))

end Program

/-- The line of a directive. -/
def directiveLine (tokens : List Text) : Text :=
  "#pragma anki".toList ++ tokens.flatMap (' ' :: ·)

/-- The file that holds nothing but what a program declares. -/
def Program.render (program : Program) : Text :=
  Text.unlines (program.directives.map directiveLine)

/-! ## 2. Tokens -/

/-- A token that neither a gap nor a comment nor a delimiter cuts: words and numbers. -/
structure Token.IsPlain (token : Text) : Prop where
  nonempty : token ≠ []
  chars : ∀ c ∈ token, Text.isWordChar c = true ∨ c = '-'

namespace Token

variable {token : Text}

theorem isPlain_of_isIdentifier (h : Text.isIdentifier token = true) : IsPlain token where
  nonempty := (Text.IsWord.of_isIdentifier h).nonempty
  chars := fun c hc => Or.inl ((Text.IsWord.of_isIdentifier h).chars c hc)

theorem isPlain_ofInt (v : Int) : IsPlain (Numeral.ofInt v) where
  nonempty := Numeral.ofInt_ne_nil v
  chars := by
    intro c hc
    rcases Numeral.eq_of_mem_ofInt hc with rfl | hdigit
    · exact Or.inr rfl
    · exact Or.inl (by simp [Text.isWordChar, Char.isAlphanum, hdigit])

/-- What the characters of a plain token are not. -/
theorem IsPlain.apart (h : IsPlain token) {c : Char} (hc : c ∈ token) :
    isGap c = false ∧ c ≠ '/' ∧ closing? c = none := by
  rcases h.chars c hc with hword | rfl
  · have hne : ∀ d : Char, Text.isWordChar d = false → c ≠ d := by
      rintro d hd rfl
      rw [hword] at hd
      cases hd
    refine ⟨?_, hne '/' (by decide), ?_⟩
    · simp [isGap, hne ' ' (by decide), hne '\t' (by decide), hne '\n' (by decide),
        hne '\x0c' (by decide), hne '\r' (by decide)]
    · rw [closing?, if_neg (hne '"' (by decide)), if_neg (hne '<' (by decide))]
  · decide

theorem IsPlain.standsBefore (h : IsPlain token) {rest : Text} (hrest : EndsWord rest) :
    StandsBefore rest token := by
  obtain ⟨c, word, rfl⟩ := List.exists_cons_of_ne_nil h.nonempty
  obtain ⟨-, -, hclosing⟩ := h.apart List.mem_cons_self
  refine .word (closing?_eq_none_iff.mp hclosing) (.of_plain fun d hd => ?_) hrest
  obtain ⟨hgap, hslash, -⟩ := h.apart hd
  exact ⟨hgap, hslash⟩

/-- A plain token is taken as a whole if a gap or nothing follows. -/
theorem ofLine_space_append (h : IsPlain token) {rest : Text}
    (hrest : ∀ c ∈ rest.head?, isGap c = true) :
    ofLine (' ' :: (token ++ rest)) = token :: ofLine rest := by
  have hspace : isGap ' ' = true := by decide
  rw [ofLine, if_pos hspace]
  exact ofLine_append_of_standsBefore (h.standsBefore (.of_gap hrest))

/-- Plain tokens are read back from the line they are written to. -/
theorem ofLine_flatMap {tokens : List Text} (h : ∀ token ∈ tokens, IsPlain token) :
    ofLine (tokens.flatMap (' ' :: ·)) = tokens := by
  induction tokens with
  | nil => exact ofLine_nil
  | cons token rest ih =>
    obtain ⟨htoken, hrest⟩ := List.forall_mem_cons.mp h
    have hgap : ∀ c ∈ (rest.flatMap (' ' :: ·)).head?, isGap c = true := by
      cases rest with
      | nil => simp
      | cons next rest =>
        intro c hc
        obtain rfl : ' ' = c := Option.some.inj hc
        decide
    rw [List.flatMap_cons, List.cons_append, ofLine_space_append htoken hgap, ih hrest]

end Token

/-! ## 3. Lines -/

section

variable {tokens : List Text}

theorem Line.ofText_directiveLine (h : ∀ token ∈ tokens, Token.IsPlain token) :
    Line.ofText (directiveLine tokens) = .anki tokens := by
  have hline : directiveLine tokens =
      '#' :: ("pragma".toList ++ ("anki".toList :: tokens).flatMap (' ' :: ·)) := rfl
  have hhash : Text.isBlank '#' = false := by decide
  have hletter : Text.isBlank 'p' = false := by decide
  have hafter : Text.trimStart (directiveLine tokens) = directiveLine tokens :=
    Text.trimStart_eq_self hhash
  have hbody : Text.trimStart ("pragma".toList ++ ("anki".toList :: tokens).flatMap (' ' :: ·)) =
      "pragma".toList ++ ("anki".toList :: tokens).flatMap (' ' :: ·) :=
    Text.trimStart_eq_self hletter
  have hinclude : includeArguments? (directiveLine tokens) = none := by
    rw [includeArguments?, afterWord?, hafter, hline]
    simp only [hbody]
    rfl
  have hpragma : pragmaArguments? (directiveLine tokens) =
      some (("anki".toList :: tokens).flatMap (' ' :: ·)) := by
    rw [pragmaArguments?, afterWord?, hafter, hline]
    simp only [hbody, Text.strip?_append]
    rfl
  have hanki : Token.IsPlain "anki".toList := Token.isPlain_of_isIdentifier (by decide)
  rw [ofText, hinclude, hpragma]
  simp only [Token.ofLine_flatMap (List.forall_mem_cons.mpr ⟨hanki, h⟩)]
  rfl

theorem onOneLine_directiveLine (h : ∀ token ∈ tokens, Token.IsPlain token) :
    Text.OnOneLine (directiveLine tokens) := by
  refine Text.OnOneLine.append (Text.onOneLine_of_all (by decide)) fun c hc => ?_
  obtain ⟨token, htoken, hc⟩ := List.mem_flatMap.mp hc
  rcases List.mem_cons.mp hc with rfl | hc
  · decide
  · rcases (h token htoken).chars c hc with hword | rfl
    · constructor
      · rintro rfl
        exact absurd hword (by decide)
      · rintro rfl
        exact absurd hword (by decide)
    · decide

end

/-! ## 4. Following directives -/

namespace Draft

/-- Follows directives in consecutive lines of a file. -/
def followAll (file : Text) : (line : Nat) → List (List Text) → Draft → Except Cause Draft
  | _, [], draft => .ok draft
  | line, tokens :: rest, draft =>
    match draft.follow file line tokens with
    | .error cause => .error cause
    | .ok next => followAll file (line + 1) rest next

/-- Directives lead from one draft to another, wherever they stand. -/
def Follows (draft : Draft) (directives : List (List Text)) (next : Draft) : Prop :=
  ∀ file line, followAll file line directives draft = .ok next

theorem Follows.nil (draft : Draft) : draft.Follows [] draft :=
  fun _ _ => rfl

theorem Follows.single {draft next : Draft} {tokens : List Text}
    (h : ∀ file line, draft.follow file line tokens = .ok next) : draft.Follows [tokens] next := by
  intro file line
  rw [followAll, h]
  rfl

theorem followAll_append (file : Text) (line : Nat) (directives more : List (List Text))
    (draft : Draft) :
    followAll file line (directives ++ more) draft =
      match followAll file line directives draft with
      | .error cause => .error cause
      | .ok next => followAll file (line + directives.length) more next := by
  induction directives generalizing draft line with
  | nil => rfl
  | cons tokens rest ih =>
    rw [List.cons_append, followAll, followAll]
    cases draft.follow file line tokens with
    | error cause => rfl
    | ok next =>
      simp only [ih, List.length_cons]
      rw [show line + 1 + rest.length = line + (rest.length + 1) by omega]

theorem Follows.append {draft middle next : Draft} {directives more : List (List Text)}
    (hfirst : draft.Follows directives middle) (hsecond : middle.Follows more next) :
    draft.Follows (directives ++ more) next := by
  intro file line
  rw [followAll_append, hfirst file line]
  exact hsecond file _

/-- Lines of directives are read by following the directives. -/
theorem readLines_directiveLine
    {enter : (line : Nat) → (name : Text) → Draft → Except ParseError Draft} {file : Text}
    {directives : List (List Text)}
    (hplain : ∀ tokens ∈ directives, ∀ token ∈ tokens, Token.IsPlain token) {number : Nat}
    {seenOnce : Bool} {draft next : Draft} (h : followAll file number directives draft = .ok next) :
    readLines enter file number seenOnce (directives.map directiveLine) draft = .ok next := by
  induction directives generalizing number draft with
  | nil =>
    rw [List.map_nil, readLines]
    exact congrArg Except.ok (Except.ok.inj h)
  | cons tokens rest ih =>
    obtain ⟨htokens, hrest⟩ := List.forall_mem_cons.mp hplain
    rw [followAll] at h
    rw [List.map_cons, readLines, Line.ofText_directiveLine htokens]
    simp only
    cases hstep : draft.follow file number tokens with
    | error cause =>
      rw [hstep] at h
      cases h
    | ok step =>
      rw [hstep] at h
      exact ih hrest h

end Draft

/-- Reading a file of directives comes to following them and finishing the draft. -/
theorem Program.read_of_follows {reader : FileReader} {settings : Settings} {fileName : Text}
    {directives : List (List Text)} {draft : Draft}
    (hplain : ∀ tokens ∈ directives, ∀ token ∈ tokens, Token.IsPlain token)
    (hfile : reader fileName = .ok (Text.unlines (directives.map directiveLine)))
    (h : Draft.Follows .empty directives draft) :
    ∃ lastLine, Program.read reader settings fileName =
      draft.finish fileName lastLine settings := by
  have hlines : Text.lines (Text.unlines (directives.map directiveLine)) =
      directives.map directiveLine := by
    refine Text.lines_unlines fun line hline => ?_
    obtain ⟨tokens, htokens, rfl⟩ := List.mem_map.mp hline
    exact (onOneLine_directiveLine (hplain tokens htokens)).isLine
  have hread : Draft.readFile reader maxIncludeDepth fileName
      (Text.unlines (directives.map directiveLine)) .empty = .ok draft := by
    rw [maxIncludeDepth, Draft.readFile, hlines]
    exact Draft.readLines_directiveLine hplain (h fileName 1)
  rw [Program.read, hfile]
  simp only [hread]
  exact ⟨_, rfl⟩

end ShaderVariants
