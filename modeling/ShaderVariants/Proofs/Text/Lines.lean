import ShaderVariants.Condition.Directive
import ShaderVariants.Proofs.Text.Words

/-!
# Lines that are written and read again

Lines that are written one after the other are read again as they were, but for a carriage return
at the end of a line, which is taken for a part of the line's end (`lines_unlines_eq_map`).  That
character matters to no directive (`ofLine?_chomp`).
-/

namespace ShaderVariants

namespace Text

/-! ## 1. Line ends -/

/-- A line without a carriage return at its end. -/
def chomp (line : Text) : Text :=
  if line.getLast? = some '\r' then line.dropLast else line

theorem chomp_eq_self {line : Text} (h : line.getLast? ≠ some '\r') : chomp line = line :=
  if_neg h

theorem chomp_append_return (line : Text) : chomp (line ++ ['\r']) = line := by
  rw [chomp, if_pos (by simp), List.dropLast_concat]

theorem lines_append_return_lineFeed {line : Text} (h : '\n' ∉ line) (rest : Text) :
    lines (line ++ '\r' :: '\n' :: rest) = line :: lines rest := by
  induction line with
  | nil => rw [List.nil_append, lines]
  | cons c line ih =>
    have hline := ih fun hmem => h (List.mem_cons_of_mem c hmem)
    have hc : c ≠ '\n' := fun heq => h (heq ▸ List.mem_cons_self)
    rw [List.cons_append, lines, hline]
    · exact hc
    -- A carriage return in the line does not stand before the line feed.
    · rintro tail rfl heq
      cases line with
      | nil => exact absurd (List.cons.inj heq).1 (by decide)
      | cons d line =>
        obtain ⟨rfl, -⟩ := List.cons.inj heq
        exact h (List.mem_cons_of_mem _ List.mem_cons_self)

theorem lines_append_lineFeed_chomp {line : Text} (h : '\n' ∉ line) (rest : Text) :
    lines (line ++ '\n' :: rest) = chomp line :: lines rest := by
  by_cases hreturn : line.getLast? = some '\r'
  · obtain ⟨front, rfl⟩ := List.getLast?_eq_some_iff.mp hreturn
    rw [chomp_append_return, List.append_assoc]
    exact lines_append_return_lineFeed (fun hmem => h (List.mem_append_left _ hmem)) rest
  · rw [chomp_eq_self hreturn]
    exact lines_append_lineFeed ⟨h, hreturn⟩ rest

theorem lines_unlines_eq_map {ls : List Text} (h : ∀ line ∈ ls, '\n' ∉ line) :
    lines (unlines ls) = ls.map chomp := by
  induction ls with
  | nil => exact lines_nil
  | cons line rest ih =>
    obtain ⟨hline, hrest⟩ := List.forall_mem_cons.mp h
    rw [unlines_cons, lines_append_lineFeed_chomp hline, ih hrest, List.map_cons]

/-- No line holds a line feed. -/
theorem lineFeed_notMem_of_mem_lines {t line : Text} (h : line ∈ lines t) : '\n' ∉ line := by
  fun_induction lines t generalizing line with
  | case1 => cases h
  | case2 rest ih | case3 rest ih =>
    rcases List.mem_cons.mp h with rfl | h
    · exact List.not_mem_nil
    · exact ih h
  | case4 c rest hfeed hreturn hnone ih =>
    obtain rfl := List.mem_singleton.mp h
    simpa using Ne.symm hfeed
  | case5 c rest hfeed hreturn first more hlines ih =>
    rw [hlines] at ih
    rcases List.mem_cons.mp h with rfl | h
    · intro hmem
      rcases List.mem_cons.mp hmem with heq | hmem
      · exact hfeed heq.symm
      · exact ih List.mem_cons_self hmem
    · exact ih (List.mem_cons_of_mem first h)

/-- A text without line feeds is a line, unless it is empty. -/
theorem lines_eq_singleton {t : Text} (h : '\n' ∉ t) (hne : t ≠ []) : lines t = [t] := by
  fun_induction lines t with
  | case1 => exact absurd rfl hne
  | case2 | case3 => simp at h
  | case4 c rest _ _ hnone => rw [lines_eq_nil_iff.mp hnone]
  | case5 c rest _ _ line more hlines ih =>
    have hrest : rest ≠ [] := by
      rintro rfl
      simp at hlines
    rw [ih (fun hmem => h (List.mem_cons_of_mem c hmem)) hrest] at hlines
    obtain ⟨rfl, rfl⟩ := List.cons.inj hlines
    rfl

/-! ## 2. Directives -/

theorem isBlank_return : isBlank '\r' = true := by
  decide

section

variable {blanks : Text}

theorem head?_cons_of_isBlank {c : Char} (h : isBlank c = true) (t : Text) :
    (c :: t).head?.all (fun c => !isWordChar c) = true := by
  show (!isWordChar c) = true
  rw [isWordChar_eq_false_of_isBlank h]
  rfl

theorem head?_blanks (h : ∀ c ∈ blanks, isBlank c = true) :
    blanks.head?.all (fun c => !isWordChar c) = true := by
  cases blanks with
  | nil => rfl
  | cons c blanks => exact head?_cons_of_isBlank (h c List.mem_cons_self) blanks

theorem trimStart_eq_nil (h : ∀ c ∈ blanks, isBlank c = true) : trimStart blanks = [] := by
  have hall : trimStart (blanks ++ []) = trimStart [] := List.dropWhile_append_of_pos h
  rw [List.append_nil] at hall
  exact hall

theorem trimEnd_append_blanks (h : ∀ c ∈ blanks, isBlank c = true) (t : Text) :
    trimEnd (t ++ blanks) = trimEnd t := by
  have hblanks : ∀ c ∈ blanks.reverse, isBlank c = true := fun c hc => h c (List.mem_reverse.mp hc)
  rw [trimEnd, List.reverse_append, List.dropWhile_append_of_pos hblanks]
  rfl

/-- Blanks at the end are trimmed as a part of the blanks in front, or stay. -/
theorem trimStart_append_blanks (h : ∀ c ∈ blanks, isBlank c = true) (t : Text) :
    trimStart (t ++ blanks) = if trimStart t = [] then [] else trimStart t ++ blanks := by
  rw [trimStart, List.dropWhile_append]
  cases hrest : t.dropWhile isBlank with
  | nil => simpa [trimStart, hrest] using trimStart_eq_nil h
  | cons c rest => simp [trimStart, hrest]

theorem trim_append_blanks (h : ∀ c ∈ blanks, isBlank c = true) (t : Text) :
    trim (t ++ blanks) = trim t := by
  rw [trim, trimStart_append_blanks h]
  by_cases hnil : trimStart t = []
  · rw [if_pos hnil, trim, hnil]
  · rw [if_neg hnil, trimEnd_append_blanks h]
    rfl

theorem startsComment_append_blanks (h : ∀ c ∈ blanks, isBlank c = true) (c : Char) (t : Text) :
    startsComment (c :: (t ++ blanks)) = startsComment (c :: t) := by
  cases t with
  | nil =>
    cases blanks with
    | nil => rfl
    | cons d blanks =>
      have hslash : d ≠ '/' := by
        rintro rfl
        exact absurd (h _ List.mem_cons_self) (by decide)
      have hstar : d ≠ '*' := by
        rintro rfl
        exact absurd (h _ List.mem_cons_self) (by decide)
      rw [List.nil_append, startsComment_cons_cons, startsComment_singleton]
      simp [hslash, hstar]
  | cons d t => rw [List.cons_append, startsComment_cons_cons, startsComment_cons_cons]

/-- A comment hides the blanks behind it. -/
theorem beforeComment_append_blanks (h : ∀ c ∈ blanks, isBlank c = true) (t : Text) :
    beforeComment (t ++ blanks) = beforeComment t ∨
      beforeComment (t ++ blanks) = beforeComment t ++ blanks := by
  induction t with
  | nil =>
    refine Or.inr (beforeComment_eq_self_of_not_slash ?_)
    rintro c hc rfl
    exact absurd (h _ hc) (by decide)
  | cons c t ih =>
    rw [List.cons_append, beforeComment, beforeComment, startsComment_append_blanks h]
    cases startsComment (c :: t) with
    | true => exact Or.inl rfl
    | false => exact ih.imp (congrArg (c :: ·)) (congrArg (c :: ·))

end

end Text

namespace Condition.Directive

/-- What a body is cut into, a keyword and the text behind it. -/
def cut (body : Text) : Text × Text :=
  (body.takeWhile Text.isWordChar, Text.trim (body.dropWhile Text.isWordChar))

theorem keyword?_of_trimStart {line rest : Text} (h : Text.trimStart line = '#' :: rest) :
    keyword? line = some (cut (Text.beforeComment (Text.trimStart rest))) := by
  rw [keyword?, h]
  rfl

/-- A keyword ends where no character of a word follows. -/
theorem takeWhile_append_of_head? {t more : Text}
    (h : more.head?.all (fun c => !Text.isWordChar c) = true) :
    (t ++ more).takeWhile Text.isWordChar = t.takeWhile Text.isWordChar := by
  induction t with
  | nil =>
    cases more with
    | nil => rfl
    | cons c more =>
      have hc : Text.isWordChar c = false := by simpa using h
      simp [hc]
  | cons c t ih => rw [List.cons_append, List.takeWhile_cons, List.takeWhile_cons, ih]

/-- Neither changes with blanks at the end of the body. -/
theorem cut_append_blanks {blanks : Text} (h : ∀ c ∈ blanks, Text.isBlank c = true) (body : Text) :
    cut (body ++ blanks) = cut body := by
  rw [cut, cut, takeWhile_append_of_head? (Text.head?_blanks h), List.dropWhile_append]
  cases hrest : body.dropWhile Text.isWordChar with
  | nil =>
    have hdrop : blanks.dropWhile Text.isWordChar = blanks :=
      Text.dropWhile_eq_self_of_forall fun c hc => Text.isWordChar_eq_false_of_isBlank (h c hc)
    rw [hdrop]
    simp [Text.trim, Text.trimStart_eq_nil h]
  | cons c rest => simpa using Text.trim_append_blanks h (c :: rest)

theorem keyword?_append_blanks {blanks : Text} (h : ∀ c ∈ blanks, Text.isBlank c = true)
    (line : Text) : keyword? (line ++ blanks) = keyword? line := by
  cases hline : Text.trimStart line with
  | nil =>
    rw [keyword?, keyword?, Text.trimStart_append_blanks h, hline]
    rfl
  | cons c rest =>
    have happend : Text.trimStart (line ++ blanks) = c :: (rest ++ blanks) := by
      rw [Text.trimStart_append_blanks h, hline, if_neg (List.cons_ne_nil c rest), List.cons_append]
    by_cases hc : c = '#'
    · subst hc
      rw [keyword?_of_trimStart hline, keyword?_of_trimStart happend, Text.trimStart_append_blanks h]
      by_cases hnil : Text.trimStart rest = []
      · rw [if_pos hnil, hnil]
      · rw [if_neg hnil]
        rcases Text.beforeComment_append_blanks h (Text.trimStart rest) with heq | heq
        · rw [heq]
        · rw [heq, cut_append_blanks h]
    · simp [keyword?, hline, happend, hc]

/-- A line is the same directive with a carriage return at its end and without it. -/
theorem ofLine?_chomp (line : Text) : ofLine? (Text.chomp line) = ofLine? line := by
  by_cases hreturn : line.getLast? = some '\r'
  · obtain ⟨front, rfl⟩ := List.getLast?_eq_some_iff.mp hreturn
    have hblank : ∀ c ∈ ['\r'], Text.isBlank c = true := by simpa using Text.isBlank_return
    rw [Text.chomp_append_return, ofLine?, ofLine?, keyword?_append_blanks hblank]
  · rw [Text.chomp_eq_self hreturn]

end Condition.Directive

end ShaderVariants
