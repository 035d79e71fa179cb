import ShaderVariants.Text.Lines
import ShaderVariants.Text.Word

/-!
# Whole words

What it means that a text holds a word, apart from how it is looked for: the search finds exactly
the occurrences between characters that belong to no word (`containsWord_iff`).  A word that a text
keeps through the cuts which directives are read with was in the text already, since every cut is
made beside such a character.
-/

namespace ShaderVariants.Text

/-! ## 1. Occurrences -/

/-- A text holds a word between characters that do not continue it. -/
def HasWord (text word : Text) : Prop :=
  ∃ front back, text = front ++ word ++ back ∧ standsAlone front.getLast? back = true

/-- A text that is a word. -/
structure IsWord (word : Text) : Prop where
  nonempty : word ≠ []
  chars : ∀ c ∈ word, isWordChar c = true

theorem IsWord.of_isIdentifier {name : Text} (h : isIdentifier name = true) : IsWord name where
  nonempty := by
    rintro rfl
    simp [isIdentifier] at h
  chars := List.all_eq_true.mp (all_isWordChar_of_isIdentifier h)

theorem IsWord.append {front back : Text} (hfront : IsWord front) (hback : IsWord back) :
    IsWord (front ++ back) where
  nonempty := List.append_ne_nil_of_left_ne_nil hfront.nonempty back
  chars := List.forall_mem_append.mpr ⟨hfront.chars, hback.chars⟩

/-- A word ends where a text stands that no word can start with. -/
theorem word_append {word rest : Text} (hword : IsWord word)
    (hrest : rest.head?.all (fun c => !isWordChar c) = true) :
    (word ++ rest).takeWhile isWordChar = word ∧ (word ++ rest).dropWhile isWordChar = rest := by
  rw [List.takeWhile_append_of_pos hword.chars, List.dropWhile_append_of_pos hword.chars]
  cases rest with
  | nil => simp
  | cons c rest => simp_all

theorem standsAlone_iff {before : Option Char} {after : Text} :
    standsAlone before after = true ↔
      before.any isWordChar = false ∧ after.head?.any isWordChar = false := by
  simp [standsAlone]

theorem HasWord.self (word : Text) : HasWord word word :=
  ⟨[], [], by simp, rfl⟩

theorem getLast?_cons_or (c : Char) (front : Text) (before : Option Char) :
    (c :: front).getLast?.or before = front.getLast?.or (some c) := by
  rw [List.getLast?_cons]
  cases front.getLast? <;> rfl

/-- An occurrence that is passed over, because it is part of a longer word, does not reach into
one that stands alone: the character between them would belong to it. -/
theorem length_le_of_strip? {word front back after : Text} (hword : IsWord word)
    (hfront : front ≠ []) (halone : front.getLast?.any isWordChar = false)
    (h : strip? word (front ++ word ++ back) = some after) : word.length ≤ front.length := by
  apply Nat.le_of_not_lt
  intro hlong
  have heq : front ++ (word ++ back) = word ++ after := by
    rw [← List.append_assoc]
    exact strip?_eq_some_iff.mp h
  have hstart : front <+: word :=
    List.prefix_of_prefix_length_le (List.prefix_append front (word ++ back))
      (heq ▸ List.prefix_append word after) (Nat.le_of_lt hlong)
  have hlast := hword.chars _ (hstart.subset (List.getLast_mem hfront))
  rw [List.getLast?_eq_some_getLast hfront, Option.any_some, hlast] at halone
  cases halone

/-- The search finds the occurrences that stand alone and start behind what is passed over. -/
theorem findWord_iff {word : Text} (hword : IsWord word) {skip : Nat} {before : Option Char}
    {text : Text} :
    findWord word skip before text = true ↔
      ∃ front back, text = front ++ word ++ back ∧ skip ≤ front.length ∧
        standsAlone (front.getLast?.or before) back = true := by
  induction text generalizing skip before with
  | nil =>
    simp only [findWord, Bool.false_eq_true, false_iff]
    rintro ⟨front, back, htext, -, -⟩
    exact hword.nonempty (by simp_all)
  | cons c rest ih =>
    constructor
    · intro h
      -- An occurrence further on is one behind `c`.
      have hlater : ∀ next, findWord word next (some c) rest = true → skip ≤ next + 1 →
          ∃ front back, c :: rest = front ++ word ++ back ∧ skip ≤ front.length ∧
            standsAlone (front.getLast?.or before) back = true := by
        intro next hfind hskip
        obtain ⟨front, back, rfl, hnext, halone⟩ := ih.mp hfind
        refine ⟨c :: front, back, rfl, by simp; omega, ?_⟩
        rw [getLast?_cons_or]
        exact halone
      -- A skipped character begins nothing; else the word may stand here or further on.
      cases skip with
      | succ skip => exact hlater skip h (Nat.le_refl _)
      | zero =>
        rw [findWord] at h
        split at h
        next after hstrip =>
          rw [Bool.or_eq_true] at h
          rcases h with h | h
          · refine ⟨[], after, ?_, Nat.zero_le _, h⟩
            rw [strip?_eq_some_iff.mp hstrip]
            rfl
          · exact hlater _ h (Nat.zero_le _)
        · exact hlater _ h (Nat.zero_le _)
    · rintro ⟨front, back, htext, hskip, halone⟩
      cases front with
      | nil =>
        -- The occurrence is here: nothing is skipped, and the search stops at it.
        obtain rfl : skip = 0 := Nat.le_zero.mp hskip
        have hstrip : strip? word (c :: rest) = some back := strip?_eq_some_iff.mpr htext
        rw [findWord, hstrip]
        simp only [List.getLast?_nil, Option.none_or] at halone
        simp [halone]
      | cons first front =>
        obtain ⟨rfl, rfl⟩ := List.cons.inj htext
        rw [getLast?_cons_or] at halone
        cases skip with
        | succ skip =>
          rw [findWord]
          exact ih.mpr ⟨front, back, rfl, by simpa using hskip, halone⟩
        | zero =>
          rw [findWord]
          split
          next after hstrip =>
            rw [Bool.or_eq_true]
            -- What an occurrence here skips ends before the one that is known.
            have hlength := length_le_of_strip? hword (List.cons_ne_nil c front) ?_ hstrip
            · rw [List.length_cons] at hlength
              exact Or.inr (ih.mpr ⟨front, back, rfl, by omega, halone⟩)
            · have hlast := getLast?_cons_or c front none
              rw [Option.or_none] at hlast
              rw [hlast]
              exact (standsAlone_iff.mp halone).1
          · exact ih.mpr ⟨front, back, rfl, Nat.zero_le _, halone⟩

/-- The search finds exactly the words that a text holds. -/
theorem containsWord_iff {word : Text} (hword : IsWord word) {text : Text} :
    containsWord text word = true ↔ HasWord text word := by
  rw [containsWord, findWord_iff hword]
  simp [HasWord]

/-! ## 2. Cuts -/

theorem isValue_of_all {t : Text} (h : (t.all fun c => !isBlank c && c != '/') = true) :
    ∀ c ∈ t, isBlank c = false ∧ c ≠ '/' := by
  intro c hc
  simpa using List.all_eq_true.mp h c hc

section

variable {part word : Text}

/-- A word of a text is one of the text behind `front` as well, if no word runs across the cut. -/
theorem HasWord.append_left (h : HasWord part word) (hword : IsWord word) (front : Text)
    (hcut : front.getLast?.any isWordChar = false ∨ part.head?.any isWordChar = false) :
    HasWord (front ++ part) word := by
  obtain ⟨before, after, rfl, halone⟩ := h
  obtain ⟨hbefore, hafter⟩ := standsAlone_iff.mp halone
  refine ⟨front ++ before, after, by simp, standsAlone_iff.mpr ⟨?_, hafter⟩⟩
  cases before with
  | nil =>
    obtain ⟨c, rest, rfl⟩ := List.exists_cons_of_ne_nil hword.nonempty
    simpa [hword.chars c] using hcut
  | cons c before => simpa [List.getLast?_append, List.getLast?_cons] using hbefore

theorem HasWord.append_right (h : HasWord part word) (back : Text)
    (hcut : back.head?.any isWordChar = false) : HasWord (part ++ back) word := by
  obtain ⟨before, after, rfl, halone⟩ := h
  obtain ⟨hbefore, hafter⟩ := standsAlone_iff.mp halone
  refine ⟨before, after ++ back, by simp, standsAlone_iff.mpr ⟨hbefore, ?_⟩⟩
  cases after with
  | nil => exact hcut
  | cons c after => simpa using hafter

end

theorem isWordChar_eq_false_of_isBlank {c : Char} (h : isBlank c = true) :
    isWordChar c = false := by
  cases hword : isWordChar c with
  | false => rfl
  | true => simp [isBlank_eq_false_of_isWordChar hword] at h

section

variable {t word : Text}

theorem any_getLast?_takeWhile_isBlank (t : Text) :
    (t.takeWhile isBlank).getLast?.any isWordChar = false := by
  cases hlast : (t.takeWhile isBlank).getLast? with
  | none => rfl
  | some c =>
    have hmem := List.mem_of_getLast? hlast
    have hblank := List.all_eq_true.mp List.all_takeWhile c hmem
    simpa using isWordChar_eq_false_of_isBlank hblank

theorem HasWord.of_trimStart (hword : IsWord word) (h : HasWord (trimStart t) word) :
    HasWord t word := by
  have hcut := h.append_left hword _ (Or.inl (any_getLast?_takeWhile_isBlank t))
  rw [trimStart, List.takeWhile_append_dropWhile] at hcut
  exact hcut

theorem HasWord.of_trimEnd (h : HasWord (trimEnd t) word) : HasWord t word := by
  have hblank := any_getLast?_takeWhile_isBlank t.reverse
  rw [← List.head?_reverse] at hblank
  have hcut := h.append_right _ hblank
  rw [trimEnd, ← List.reverse_append, List.takeWhile_append_dropWhile,
    List.reverse_reverse] at hcut
  exact hcut

theorem HasWord.of_trim (hword : IsWord word) (h : HasWord (trim t) word) : HasWord t word :=
  h.of_trimEnd.of_trimStart hword

theorem HasWord.of_cons {c : Char} (hc : isWordChar c = false) (hword : IsWord word)
    (h : HasWord t word) : HasWord (c :: t) word :=
  h.append_left hword [c] (Or.inl (by simpa using hc))

theorem any_head?_dropWhile_isWordChar (t : Text) :
    (t.dropWhile isWordChar).head?.any isWordChar = false := by
  have := List.head?_dropWhile_not isWordChar t
  cases hdrop : (t.dropWhile isWordChar).head? with
  | none => rfl
  | some c => simpa [hdrop] using this

theorem HasWord.of_dropWhile_isWordChar (hword : IsWord word)
    (h : HasWord (t.dropWhile isWordChar) word) : HasWord t word := by
  have hcut := h.append_left hword (t.takeWhile isWordChar)
    (Or.inr (any_head?_dropWhile_isWordChar t))
  rw [List.takeWhile_append_dropWhile] at hcut
  exact hcut

theorem exists_beforeComment_append (t : Text) :
    ∃ comment, t = beforeComment t ++ comment ∧ comment.head?.any isWordChar = false := by
  induction t with
  | nil => exact ⟨[], rfl, rfl⟩
  | cons c t ih =>
    rw [beforeComment]
    split
    next hcomment =>
      refine ⟨c :: t, rfl, ?_⟩
      unfold startsComment at hcomment
      split at hcomment <;> simp_all <;> decide
    · obtain ⟨comment, heq, hhead⟩ := ih
      exact ⟨comment, by rw [List.cons_append, ← heq], hhead⟩

theorem HasWord.of_beforeComment (h : HasWord (beforeComment t) word) : HasWord t word := by
  obtain ⟨comment, heq, hhead⟩ := exists_beforeComment_append t
  rw [heq]
  exact h.append_right comment hhead

end

/-! ## 3. Lines -/

theorem isWordChar_lineFeed : isWordChar '\n' = false := by
  decide

theorem isWordChar_carriageReturn : isWordChar '\r' = false := by
  decide

@[simp] theorem lines_eq_nil_iff {t : Text} : lines t = [] ↔ t = [] := by
  constructor
  · intro h
    fun_cases lines t <;> simp_all [lines]
  · rintro rfl
    exact lines_nil

/-- The first line of a text begins it, and every other line is found behind a line feed. -/
theorem exists_of_lines_eq_cons {t line : Text} {more : List Text} (h : lines t = line :: more) :
    (∃ back, t = line ++ back ∧ back.head?.any isWordChar = false) ∧
      ∀ other ∈ more, ∃ front back, t = front ++ '\n' :: (other ++ back) ∧
        back.head?.any isWordChar = false := by
  -- The lines of `rest` stand behind the line feed that ends the line before them.
  have hafter : ∀ rest : Text,
      (∀ line more, lines rest = line :: more →
        (∃ back, rest = line ++ back ∧ back.head?.any isWordChar = false) ∧
          ∀ other ∈ more, ∃ front back, rest = front ++ '\n' :: (other ++ back) ∧
            back.head?.any isWordChar = false) →
      ∀ other ∈ lines rest, ∃ front back, '\n' :: rest = front ++ '\n' :: (other ++ back) ∧
        back.head?.any isWordChar = false := by
    intro rest ih other hother
    cases hlines : lines rest with
    | nil => simp [hlines] at hother
    | cons first more =>
      obtain ⟨⟨back, heq, hback⟩, hmore⟩ := ih first more hlines
      rw [hlines] at hother
      rcases List.mem_cons.mp hother with rfl | hother
      · exact ⟨[], back, by rw [heq]; rfl, hback⟩
      · obtain ⟨front, back, heq, hback⟩ := hmore other hother
        exact ⟨'\n' :: front, back, by rw [heq]; rfl, hback⟩
  -- The cases are those of `lines`: no text, a line feed, a carriage return with one, any other
  -- character in front of the last line or of some lines.
  fun_induction lines t generalizing line more with
  | case1 => cases h
  | case2 rest ih =>
    obtain ⟨rfl, rfl⟩ := List.cons.inj h
    exact ⟨⟨'\n' :: rest, rfl, isWordChar_lineFeed⟩, hafter rest fun _ _ => ih⟩
  | case3 rest ih =>
    obtain ⟨rfl, rfl⟩ := List.cons.inj h
    refine ⟨⟨'\r' :: '\n' :: rest, rfl, isWordChar_carriageReturn⟩, fun other hother => ?_⟩
    obtain ⟨front, back, heq, hback⟩ := hafter rest (fun _ _ => ih) other hother
    exact ⟨'\r' :: front, back, by rw [heq]; rfl, hback⟩
  | case4 c rest hfeed hreturn hnone ih =>
    obtain ⟨rfl, rfl⟩ := List.cons.inj h
    obtain rfl := lines_eq_nil_iff.mp hnone
    exact ⟨⟨[], rfl, rfl⟩, by simp⟩
  | case5 c rest hfeed hreturn first others hlines ih =>
    obtain ⟨rfl, rfl⟩ := List.cons.inj h
    obtain ⟨⟨back, heq, hback⟩, hmore⟩ := ih hlines
    refine ⟨⟨back, by rw [heq]; rfl, hback⟩, fun other hother => ?_⟩
    obtain ⟨front, back, heq, hback⟩ := hmore other hother
    exact ⟨c :: front, back, by rw [heq]; rfl, hback⟩

theorem HasWord.of_mem_lines {t line word : Text} (hword : IsWord word) (hline : line ∈ lines t)
    (h : HasWord line word) : HasWord t word := by
  cases hlines : lines t with
  | nil => simp [hlines] at hline
  | cons first more =>
    obtain ⟨⟨back, heq, hback⟩, hmore⟩ := exists_of_lines_eq_cons hlines
    rw [hlines] at hline
    rcases List.mem_cons.mp hline with rfl | hline
    · rw [heq]
      exact h.append_right back hback
    · obtain ⟨front, back, rfl, hback⟩ := hmore line hline
      have hbehind := (h.append_right back hback).of_cons isWordChar_lineFeed hword
      exact hbehind.append_left hword front (Or.inr isWordChar_lineFeed)

/-- Behind a line feed a new line starts, whatever stands before it. -/
theorem lines_append_cons (s t : Text) :
    lines (s ++ '\n' :: t) = lines (s ++ ['\n']) ++ lines t := by
  fun_induction lines s with
  | case1 => simp
  | case2 rest ih => simp [ih]
  | case3 rest ih => simp [lines, ih]
  | case4 c rest hfeed hreturn hnone ih =>
    obtain rfl := lines_eq_nil_iff.mp hnone
    -- `s` ends with `c`, so a carriage return there belongs to the line end that follows.
    by_cases hc : c = '\r'
    · simp [lines, hc]
    · rw [List.cons_append, List.nil_append, lines, lines_lineFeed, List.cons_append,
        List.nil_append, lines, lines_lineFeed]
      · simp
      all_goals simp_all
  | case5 c rest hfeed hreturn first others hlines ih =>
    -- `rest` has lines of its own, so `c` is no carriage return before a line feed in the whole
    -- text either.
    have hkeep : ∀ u tail, c = '\r' → rest ++ '\n' :: u = '\n' :: tail → False := by
      intro u tail hc heq
      cases rest with
      | nil => simp at hlines
      | cons d rest => exact hreturn rest hc (by simp_all)
    rw [List.cons_append, List.cons_append, lines, ih, lines]
    · cases hfirst : lines (rest ++ ['\n']) with
      | nil => simp at hfirst
      | cons line more => rfl
    · exact hfeed
    · exact fun tail => hkeep [] tail
    · exact hfeed
    · exact fun tail => hkeep t tail

/-- Complete lines are read apart from what follows them. -/
theorem lines_unlines_append (ls : List Text) (t : Text) :
    lines (unlines ls ++ t) = lines (unlines ls) ++ lines t := by
  induction ls with
  | nil => simp
  | cons line ls ih =>
    rw [unlines_cons, List.append_assoc, List.cons_append, lines_append_cons, ih,
      lines_append_cons line (unlines ls), List.append_assoc]

end ShaderVariants.Text
