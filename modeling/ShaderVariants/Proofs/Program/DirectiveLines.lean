import ShaderVariants.Proofs.Program.Buffers
import ShaderVariants.Proofs.Program.Rendering
import ShaderVariants.Proofs.Text.Lines

/-!
# Lines that look like directives

What a line has to look like to be a directive (`IsDirective`), and which of these lines are taken
for code all the same (`Overlooked`): an include that nothing or a foreign character follows, and a
pragma with a blank beside its word that does not separate tokens.  There are no others
(`overlooked_iff`).
-/

namespace ShaderVariants

/-! ## 1. Directive lines -/

/-- The line is a number sign and a word, with blanks around the sign, and goes on with `rest`. -/
def Headed (word rest line : Text) : Prop :=
  ∃ lead gap, (∀ c ∈ lead, Text.isBlank c = true) ∧ (∀ c ∈ gap, Text.isBlank c = true) ∧
    line = lead ++ '#' :: (gap ++ (word ++ rest))

/-- The words of the pragmas that are directives. -/
def pragmaWords : List Text :=
  ["once".toList, "anki".toList]

/-- A line with the form of a directive: an include, or one of the pragmas.  The word of an include
ends where no character of a word follows, that of a pragma at a blank. -/
inductive IsDirective (line : Text) : Prop
  | fileInclude (rest : Text) (headed : Headed "include".toList rest line)
      (ends : ∀ c, rest.head? = some c → Text.isWordChar c = false)
  | pragma (gap word rest : Text) (headed : Headed "pragma".toList (gap ++ (word ++ rest)) line)
      (apart : gap ≠ []) (blank : ∀ c ∈ gap, Text.isBlank c = true) (known : word ∈ pragmaWords)
      (ends : ∀ c, rest.head? = some c → Text.isBlank c = true)

/-- A directive that is seen: a blank or a delimiter follows the word of an include, and what
separates the words of a pragma separates tokens. -/
inductive Noticed (line : Text) : Prop
  | fileInclude (rest : Text) (headed : Headed "include".toList rest line) (c : Char)
      (head : rest.head? = some c) (opens : Text.isBlank c = true ∨ c = '"' ∨ c = '<')
  | pragma (gap word rest : Text) (headed : Headed "pragma".toList (gap ++ (word ++ rest)) line)
      (apart : gap ≠ []) (gaps : ∀ c ∈ gap, Token.isGap c = true) (known : word ∈ pragmaWords)
      (ends : ∀ c, rest.head? = some c → Token.isGap c = true)

/-- A directive that is taken for code: nothing follows the word of an include but a character that
is no blank and no delimiter, or a blank in front of or behind the word of a pragma separates no
tokens. -/
inductive Overlooked (line : Text) : Prop
  | fileInclude (rest : Text) (headed : Headed "include".toList rest line)
      (ends : ∀ c, rest.head? = some c →
        Text.isWordChar c = false ∧ Text.isBlank c = false ∧ c ≠ '"' ∧ c ≠ '<')
  | pragma (gap word rest : Text) (headed : Headed "pragma".toList (gap ++ (word ++ rest)) line)
      (apart : gap ≠ []) (blank : ∀ c ∈ gap, Text.isBlank c = true) (known : word ∈ pragmaWords)
      (ends : ∀ c, rest.head? = some c → Text.isBlank c = true)
      (foreign : ∃ c, (c ∈ gap ∨ rest.head? = some c) ∧ Token.isGap c = false)

theorem isBlank_of_isGap {c : Char} (h : Token.isGap c = true) : Text.isBlank c = true := by
  simp only [Token.isGap, Bool.or_eq_true, beq_iff_eq] at h
  rcases h with (((rfl | rfl) | rfl) | rfl) | rfl <;> decide

theorem Overlooked.isDirective {line : Text} (h : Overlooked line) : IsDirective line := by
  cases h with
  | fileInclude rest headed ends => exact .fileInclude rest headed fun c hc => (ends c hc).1
  | pragma gap word rest headed apart blank known ends =>
    exact .pragma gap word rest headed apart blank known ends

/-- A directive is seen or it is overlooked. -/
theorem IsDirective.noticed_or_overlooked {line : Text} (h : IsDirective line) :
    Noticed line ∨ Overlooked line := by
  cases h with
  | fileInclude rest headed ends =>
    by_cases hopens : ∃ c, rest.head? = some c ∧ (Text.isBlank c = true ∨ c = '"' ∨ c = '<')
    · obtain ⟨c, hc, hopens⟩ := hopens
      exact Or.inl (.fileInclude rest headed c hc hopens)
    · refine Or.inr (.fileInclude rest headed fun c hc => ⟨ends c hc, ?_, ?_, ?_⟩)
      · exact Bool.eq_false_iff.mpr fun hblank => hopens ⟨c, hc, Or.inl hblank⟩
      · exact fun hquote => hopens ⟨c, hc, Or.inr (Or.inl hquote)⟩
      · exact fun hangle => hopens ⟨c, hc, Or.inr (Or.inr hangle)⟩
  | pragma gap word rest headed apart blank known ends =>
    by_cases hforeign : ∃ c, (c ∈ gap ∨ rest.head? = some c) ∧ Token.isGap c = false
    · exact Or.inr (.pragma gap word rest headed apart blank known ends hforeign)
    · have hgap : ∀ c, c ∈ gap ∨ rest.head? = some c → Token.isGap c = true := fun c hc =>
        Bool.not_eq_false _ ▸ fun hfalse => hforeign ⟨c, hc, hfalse⟩
      exact Or.inl (.pragma gap word rest headed apart (fun c hc => hgap c (Or.inl hc)) known
        fun c hc => hgap c (Or.inr hc))

/-- A carriage return at the end does not hide a directive. -/
theorem Headed.append {word rest line : Text} (h : Headed word rest line) (more : Text) :
    Headed word (rest ++ more) (line ++ more) := by
  obtain ⟨lead, gap, hlead, hgap, rfl⟩ := h
  exact ⟨lead, gap, hlead, hgap, by simp⟩

theorem Noticed.append_return {line : Text} (h : Noticed line) : Noticed (line ++ ['\r']) := by
  cases h with
  | fileInclude rest headed c head opens =>
    refine .fileInclude (rest ++ ['\r']) (headed.append _) c ?_ opens
    rw [List.head?_append, head]
    rfl
  | pragma gap word rest headed apart gaps known ends =>
    refine .pragma gap word (rest ++ ['\r']) ?_ apart gaps known fun c hc => ?_
    · simpa using headed.append ['\r']
    · cases rest with
      | nil =>
        obtain rfl : '\r' = c := Option.some.inj hc
        decide
      | cons d rest => exact ends c hc

theorem Noticed.of_chomp {line : Text} (h : Noticed (Text.chomp line)) : Noticed line := by
  by_cases hreturn : line.getLast? = some '\r'
  · obtain ⟨front, rfl⟩ := List.getLast?_eq_some_iff.mp hreturn
    rw [Text.chomp_append_return] at h
    exact h.append_return
  · rwa [Text.chomp_eq_self hreturn] at h

/-! ## 2. How far a token goes -/

namespace Token

theorem takeWord_plain_append {word : Text} (h : ∀ c ∈ word, isGap c = false ∧ c ≠ '/') (t : Text) :
    takeWord (word ++ t) = (word ++ (takeWord t).1, (takeWord t).2) := by
  induction word with
  | nil => rfl
  | cons c word ih =>
    obtain ⟨⟨hgap, hslash⟩, hword⟩ := List.forall_mem_cons.mp h
    rw [List.cons_append, takeWord, hgap, Text.startsComment_eq_false hslash, Bool.or_self,
      if_neg Bool.false_ne_true, ih hword]
    rfl

/-- A token goes on as long as neither a gap nor a comment starts. -/
theorem ofLine_plain_append {c : Char} {word : Text} (hclosing : closing? c = none)
    (h : ∀ d ∈ c :: word, isGap d = false ∧ d ≠ '/') (t : Text) :
    ofLine (c :: word ++ t) = (c :: word ++ (takeWord t).1) :: ofLine (takeWord t).2 := by
  obtain ⟨⟨hgap, hslash⟩, hword⟩ := List.forall_mem_cons.mp h
  rw [List.cons_append, ofLine, if_neg (by simp [hgap]), Text.startsComment_eq_false hslash,
    if_neg Bool.false_ne_true, hclosing]
  simp only [takeWord_plain_append hword, List.cons_append]

end Token

/-! ## 3. What the lines are taken for -/

section

variable {line rest : Text}

/-- The word behind the number sign decides what the line is. -/
theorem afterWord?_of_headed {c : Char} {word : Text} (hc : Text.isBlank c = false)
    (h : Headed (c :: word) rest line) (other : Text) :
    Line.afterWord? other line = Text.strip? other (c :: word ++ rest) := by
  obtain ⟨lead, gap, hlead, hgap, rfl⟩ := h
  have hhash : Text.isBlank '#' = false := by decide
  have hstart : ∀ t, Text.trimStart (lead ++ '#' :: t) = '#' :: t := fun t =>
    (List.dropWhile_append_of_pos hlead).trans (Text.trimStart_eq_self hhash)
  have hbody : Text.trimStart (gap ++ (c :: word ++ rest)) = c :: word ++ rest :=
    (List.dropWhile_append_of_pos hgap).trans (Text.trimStart_eq_self hc)
  rw [Line.afterWord?, hstart]
  simp only [hbody]

theorem afterWord?_include (h : Headed "include".toList rest line) :
    Line.afterWord? "include".toList line = some rest :=
  (afterWord?_of_headed (by decide) h "include".toList).trans (Text.strip?_append _ _)

theorem afterWord?_pragma (h : Headed "pragma".toList rest line) :
    Line.afterWord? "pragma".toList line = some rest :=
  (afterWord?_of_headed (by decide) h "pragma".toList).trans (Text.strip?_append _ _)

theorem includeArguments?_of_pragma (h : Headed "pragma".toList rest line) :
    Line.includeArguments? line = none := by
  have hnone : Line.afterWord? "include".toList line = none :=
    afterWord?_of_headed (by decide) h "include".toList
  rw [Line.includeArguments?, hnone]
  rfl

theorem pragmaArguments?_of_include (h : Headed "include".toList rest line) :
    Line.pragmaArguments? line = none := by
  have hnone : Line.afterWord? "pragma".toList line = none :=
    afterWord?_of_headed (by decide) h "pragma".toList
  rw [Line.pragmaArguments?, hnone]
  rfl

theorem ofText_of_pragma {gap : Text} (h : Headed "pragma".toList (gap ++ rest) line)
    (apart : gap ≠ []) (blank : ∀ c ∈ gap, Text.isBlank c = true) :
    Line.ofText line = Line.ofPragma (Token.ofLine (gap ++ rest)) := by
  obtain ⟨c, gap, rfl⟩ := List.exists_cons_of_ne_nil apart
  have hpragma : Line.pragmaArguments? line = some (c :: gap ++ rest) := by
    rw [Line.pragmaArguments?, afterWord?_pragma h]
    simp [blank c List.mem_cons_self]
  rw [Line.ofText, includeArguments?_of_pragma h, hpragma]

theorem isPlain_of_mem_pragmaWords {word : Text} (known : word ∈ pragmaWords) :
    Token.IsPlain word := by
  rw [pragmaWords, List.mem_pair] at known
  rcases known with rfl | rfl <;> exact Token.isPlain_of_isIdentifier (by decide)

theorem ofLine_pragmaWord {word : Text} (known : word ∈ pragmaWords) (t : Text) :
    Token.ofLine (word ++ t) =
      (word ++ (Token.takeWord t).1) :: Token.ofLine (Token.takeWord t).2 := by
  have hplain := isPlain_of_mem_pragmaWords known
  obtain ⟨c, word, rfl⟩ := List.exists_cons_of_ne_nil hplain.nonempty
  refine Token.ofLine_plain_append (hplain.apart List.mem_cons_self).2.2 (fun d hd => ?_) t
  obtain ⟨hgap, hslash, -⟩ := hplain.apart hd
  exact ⟨hgap, hslash⟩

/-- A token that holds a blank is the word of no pragma. -/
theorem ofPragma_of_blank {c : Char} {token : Text} (hblank : Text.isBlank c = true)
    (hc : c ∈ token) (tokens : List Text) : Line.ofPragma (token :: tokens) = .code := by
  have hnone : token ∉ pragmaWords := by
    intro hknown
    rcases (isPlain_of_mem_pragmaWords hknown).chars c hc with hword | rfl
    · rw [Text.isBlank_eq_false_of_isWordChar hword] at hblank
      cases hblank
    · exact absurd hblank (by decide)
  rw [pragmaWords, List.mem_pair, not_or] at hnone
  rw [Line.ofPragma, if_neg hnone.1, if_neg hnone.2]

theorem plain_of_isBlank {c : Char} (h : Text.isBlank c = true) :
    c ≠ '/' ∧ Token.closing? c = none := by
  have hne : ∀ d : Char, Text.isBlank d = false → c ≠ d := by
    rintro d hd rfl
    rw [hd] at h
    cases h
  refine ⟨hne '/' (by decide), ?_⟩
  rw [Token.closing?, if_neg (hne '"' (by decide)), if_neg (hne '<' (by decide))]

/-- A blank that separates no tokens is taken for the start of one. -/
theorem ofPragma_of_foreign {gap : Text} (blank : ∀ c ∈ gap, Text.isBlank c = true)
    (foreign : ∃ c ∈ gap, Token.isGap c = false) (t : Text) :
    Line.ofPragma (Token.ofLine (gap ++ t)) = .code := by
  induction gap with
  | nil => simp at foreign
  | cons c gap ih =>
    obtain ⟨hblank, hrest⟩ := List.forall_mem_cons.mp blank
    cases hgap : Token.isGap c with
    | true =>
      obtain ⟨d, hd, hforeign⟩ := foreign
      rcases List.mem_cons.mp hd with rfl | hd
      · rw [hforeign] at hgap
        cases hgap
      · rw [List.cons_append, Token.ofLine, if_pos hgap]
        exact ih hrest ⟨d, hd, hforeign⟩
    | false =>
      obtain ⟨hslash, hclosing⟩ := plain_of_isBlank hblank
      have htoken := Token.ofLine_plain_append hclosing
        (List.forall_mem_singleton.mpr ⟨hgap, hslash⟩) (gap ++ t)
      rw [show c :: gap ++ t = [c] ++ (gap ++ t) from rfl, htoken]
      exact ofPragma_of_blank hblank (by simp) _

/-- A directive that is seen is not taken for code. -/
theorem Noticed.ofText_ne_code (h : Noticed line) : Line.ofText line ≠ .code := by
  cases h with
  | fileInclude rest headed c head opens =>
    have harguments : Line.includeArguments? line = some rest := by
      rw [Line.includeArguments?, afterWord?_include headed]
      rcases opens with hblank | rfl | rfl <;> simp [*]
    rw [Line.ofText, harguments]
    exact Line.noConfusion
  | pragma gap word rest headed apart gaps known ends =>
    rw [ofText_of_pragma headed apart fun c hc => isBlank_of_isGap (gaps c hc),
      Token.ofLine_gaps_append gaps, ofLine_pragmaWord known, Token.takeWord_of_endsWord (.of_gap ends)]
    rw [pragmaWords, List.mem_pair] at known
    rcases known with rfl | rfl
    · cases hrest : Token.ofLine rest <;> exact Line.noConfusion
    · exact Line.noConfusion

/-- A directive that is overlooked is taken for code. -/
theorem Overlooked.ofText_eq_code (h : Overlooked line) : Line.ofText line = .code := by
  cases h with
  | fileInclude rest headed ends =>
    have harguments : Line.includeArguments? line = none := by
      rw [Line.includeArguments?, afterWord?_include headed]
      cases rest with
      | nil => rfl
      | cons c rest =>
        obtain ⟨-, hblank, hquote, hangle⟩ := ends c rfl
        simp [hblank, hquote, hangle]
    rw [Line.ofText, harguments, pragmaArguments?_of_include headed]
  | pragma gap word rest headed apart blank known ends foreign =>
    rw [ofText_of_pragma headed apart blank]
    by_cases hgap : ∃ d ∈ gap, Token.isGap d = false
    · exact ofPragma_of_foreign blank hgap _
    -- The blank behind the word is the first character that could have ended it.
    · have hgaps : ∀ d ∈ gap, Token.isGap d = true := fun d hd =>
        Bool.not_eq_false _ ▸ fun hfalse => hgap ⟨d, hd, hfalse⟩
      obtain ⟨c, hc, hforeign⟩ := foreign
      have hrest : rest.head? = some c := hc.resolve_left fun hmem => hgap ⟨c, hmem, hforeign⟩
      obtain ⟨t, rfl⟩ := List.head?_eq_some_iff.mp hrest
      have htoken := Token.takeWord_plain_append
        (List.forall_mem_singleton.mpr ⟨hforeign, (plain_of_isBlank (ends c hrest)).1⟩) t
      rw [Token.ofLine_gaps_append hgaps, ofLine_pragmaWord known,
        show c :: t = [c] ++ t from rfl, htoken]
      exact ofPragma_of_blank (ends c hrest) (by simp) _

end

/-- The directives that are taken for code are those that are overlooked. -/
theorem overlooked_iff (line : Text) :
    Overlooked line ↔ IsDirective line ∧ Line.ofText line = .code := by
  constructor
  · exact fun h => ⟨h.isDirective, h.ofText_eq_code⟩
  · rintro ⟨hline, hcode⟩
    rcases hline.noticed_or_overlooked with hnoticed | hoverlooked
    · exact absurd hcode hnoticed.ofText_ne_code
    · exact hoverlooked

/-! ## 4. Lines that are written for inputs -/

theorem not_noticed_of_afterWord? {line : Text}
    (hinclude : Line.afterWord? "include".toList line = none)
    (hpragma : Line.afterWord? "pragma".toList line = none) : ¬ Noticed line := by
  intro h
  cases h with
  | fileInclude rest headed =>
    rw [afterWord?_include headed] at hinclude
    cases hinclude
  | pragma gap word rest headed =>
    rw [afterWord?_pragma headed] at hpragma
    cases hpragma

theorem not_noticed_define (t : Text) : ¬ Noticed ("#define ".toList ++ t) := by
  have hafter : ∀ word, Line.afterWord? word ("#define ".toList ++ t) =
      Text.strip? word ("define ".toList ++ t) :=
    afterWord?_of_headed (by decide) ⟨[], [], by simp, by simp, rfl⟩
  exact not_noticed_of_afterWord? ((hafter _).trans rfl) ((hafter _).trans rfl)

/-- A line that does not start with a number sign is no directive. -/
theorem not_noticed_of_head? {line : Text} {c : Char} (hc : Text.isBlank c = false)
    (hne : c ≠ '#') : ¬ Noticed (c :: line) := by
  have hnone : ∀ word, Line.afterWord? word (c :: line) = none := by
    intro word
    rw [Line.afterWord?, Text.trimStart_eq_self hc]
    simp [hne]
  exact not_noticed_of_afterWord? (hnone _) (hnone _)

theorem not_noticed_siteLine (input : Input) : ¬ Noticed (Draft.siteLine input) := by
  have hline : Draft.siteLine input = "#define ".toList ++ (Condition.siteMark ++ input.name) :=
    List.append_assoc _ _ _
  rw [hline]
  exact not_noticed_define _

theorem not_noticed_declarationLine (input : Input) : ¬ Noticed (Draft.declarationLine input) := by
  rw [Draft.declarationLine]
  split
  · exact not_noticed_of_head? (c := 'A') (by decide) (by decide)
  · split
    · exact not_noticed_of_head? (c := 'l') (by decide) (by decide)
    · simp only [List.append_assoc]
      exact not_noticed_define _

/-- What is written for an input is no directive that would be seen. -/
theorem not_noticed_of_mem_codeLines {input : Input} {line : Text} (h : line ∈ input.codeLines) :
    ¬ Noticed line := by
  rw [Input.codeLines, List.mem_pair] at h
  rcases h with rfl | rfl
  · exact not_noticed_siteLine input
  · exact not_noticed_declarationLine input

end ShaderVariants
