import ShaderVariants.Text.Basic

/-!
# Lines

A text is cut at its line feeds.  A carriage return directly before a line feed belongs to the
line's end; a last line without a line feed keeps all its characters, and no empty line is added
after a final line feed.  Main fact: lines without a line feed and without a carriage return at
their end are read back from the text they were written to.
-/

namespace ShaderVariants.Text

/-- The lines of a text, without what ends them. -/
def lines : Text → List Text
  | [] => []
  | '\n' :: rest => [] :: lines rest
  | '\r' :: '\n' :: rest => [] :: lines rest
  | c :: rest =>
    match lines rest with
    | [] => [[c]]
    | line :: more => (c :: line) :: more

/-- The text of the given lines, each ended by a line feed. -/
def unlines (ls : List Text) : Text :=
  ls.flatMap fun line => line ++ ['\n']

@[simp] theorem lines_nil : lines [] = [] := by
  rw [lines]

@[simp] theorem unlines_nil : unlines [] = [] := rfl

@[simp] theorem unlines_cons (line : Text) (ls : List Text) :
    unlines (line :: ls) = line ++ '\n' :: unlines ls := by
  simp [unlines]

@[simp] theorem unlines_append (as bs : List Text) :
    unlines (as ++ bs) = unlines as ++ unlines bs := by
  simp [unlines]

/-- A line that is written and read back unchanged: it holds no line feed, and no carriage return
stands where the line feed would follow. -/
def IsLine (line : Text) : Prop :=
  '\n' ∉ line ∧ line.getLast? ≠ some '\r'

@[simp] theorem lines_lineFeed (rest : Text) : lines ('\n' :: rest) = [] :: lines rest := by
  rw [lines]

/-- One line in front of a line feed is the first line of the text. -/
theorem lines_append_lineFeed {line : Text} (h : IsLine line) (rest : Text) :
    lines (line ++ '\n' :: rest) = line :: lines rest := by
  induction line with
  | nil => simp
  | cons c line ih =>
    have hc : c ≠ '\n' := fun e => h.1 (by simp [e])
    have hline : IsLine line := by
      refine ⟨fun m => h.1 (List.mem_cons_of_mem c m), fun e => h.2 ?_⟩
      cases line with
      | nil => simp at e
      | cons d line => simpa using e
    rw [List.cons_append, lines, ih hline]
    · exact hc
    · rintro tail rfl e
      cases line with
      | nil => exact h.2 (by simp)
      | cons d line =>
        obtain ⟨rfl, -⟩ := List.cons.inj e
        exact h.1 (by simp)

theorem lines_unlines {ls : List Text} (h : ∀ line ∈ ls, IsLine line) :
    lines (unlines ls) = ls := by
  induction ls with
  | nil => simp
  | cons line ls ih =>
    rw [unlines_cons, lines_append_lineFeed (h line (by simp)),
      ih fun l hl => h l (List.mem_cons_of_mem line hl)]

end ShaderVariants.Text
