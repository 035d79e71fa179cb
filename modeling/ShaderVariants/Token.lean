import ShaderVariants.Text.Basic

/-!
# Tokens of a directive

A directive line is cut at ASCII white space.  A token that starts with `"` or `<` runs to the
matching `"` or `>`, or to the end of the line if there is none; every other token ends at white
space or where a comment starts.  A comment outside of a delimited token ends the line.
-/

namespace ShaderVariants.Token

/-- The characters between tokens: the space, the tab, the line feed, the form feed and the
carriage return. -/
def isGap (c : Char) : Bool :=
  c == ' ' || c == '\t' || c == '\n' || c == '\x0c' || c == '\r'

/-- The character that ends a token starting with `c`, if `c` delimits one. -/
def closing? (c : Char) : Option Char :=
  if c = '"' then some '"' else if c = '<' then some '>' else none

/-- Cuts after the first `close`; all is taken if there is none. -/
def takeThrough (close : Char) : Text → Text × Text
  | [] => ([], [])
  | c :: rest =>
    if c = close then ([c], rest)
    else (c :: (takeThrough close rest).1, (takeThrough close rest).2)

def takeWord : Text → Text × Text
  | [] => ([], [])
  | c :: rest =>
    if isGap c || Text.startsComment (c :: rest) then ([], c :: rest)
    else (c :: (takeWord rest).1, (takeWord rest).2)

theorem takeThrough_append (close : Char) (t : Text) :
    (takeThrough close t).1 ++ (takeThrough close t).2 = t := by
  induction t with
  | nil => rfl
  | cons c rest ih =>
    rw [takeThrough]
    split
    · rfl
    · simp [ih]

theorem takeWord_append (t : Text) : (takeWord t).1 ++ (takeWord t).2 = t := by
  induction t with
  | nil => rfl
  | cons c rest ih =>
    rw [takeWord]
    split
    · rfl
    · simp [ih]

theorem takeThrough_length_le (close : Char) (t : Text) :
    (takeThrough close t).2.length ≤ t.length := by
  have h := congrArg List.length (takeThrough_append close t)
  simp only [List.length_append] at h
  omega

theorem takeWord_length_le (t : Text) : (takeWord t).2.length ≤ t.length := by
  have h := congrArg List.length (takeWord_append t)
  simp only [List.length_append] at h
  omega

/-- The tokens of a line. -/
def ofLine : Text → List Text
  | [] => []
  | c :: rest =>
    if isGap c then ofLine rest
    else if Text.startsComment (c :: rest) then []
    else
      match closing? c with
      | some close => (c :: (takeThrough close rest).1) :: ofLine (takeThrough close rest).2
      | none => (c :: (takeWord rest).1) :: ofLine (takeWord rest).2
termination_by line => line.length
decreasing_by
  · simp
  · exact Nat.lt_succ_of_le (takeThrough_length_le close rest)
  · exact Nat.lt_succ_of_le (takeWord_length_le rest)

@[simp] theorem ofLine_nil : ofLine [] = [] := by
  rw [ofLine]

theorem ne_nil_of_mem_ofLine {line token : Text} (h : token ∈ ofLine line) : token ≠ [] := by
  induction line using ofLine.induct with
  | case1 => simp at h
  | case2 c rest hc ih =>
    rw [ofLine, if_pos hc] at h
    exact ih h
  | case3 c rest hc hs =>
    rw [ofLine, if_neg hc, if_pos hs] at h
    simp at h
  | case4 c rest hc hs close hclose ih =>
    rw [ofLine, if_neg hc, if_neg hs, hclose] at h
    rcases List.mem_cons.mp h with rfl | h
    · simp
    · exact ih h
  | case5 c rest hc hs hclose ih =>
    rw [ofLine, if_neg hc, if_neg hs, hclose] at h
    rcases List.mem_cons.mp h with rfl | h
    · simp
    · exact ih h

end ShaderVariants.Token
