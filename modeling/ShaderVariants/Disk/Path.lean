import ShaderVariants.Text.Basic

/-!
# Paths

A path is written as names with slashes between them.  A place is what a path leads to: the names
from the root of the disk down to it, none of which is empty, a dot or two dots.  Main facts:
`segments` cuts exactly at the slashes (`intercalate_segments`), and a place written by `toText` is
read back from its segments.
-/

namespace ShaderVariants

/-- A place on a disk: the names from the root down to it. -/
abbrev Place := List Text

def Place.toText : Place → Text
  | [] => ['/']
  | name :: names => (name :: names).flatMap fun name => '/' :: name

namespace Path

/-! ## 1. Segments -/

/-- The texts between the slashes of a path, empty ones included. -/
def segments : Text → List Text
  | [] => [[]]
  | c :: rest =>
    if c = '/' then [] :: segments rest
    else
      match segments rest with
      | [] => [[c]]
      | name :: names => (c :: name) :: names

theorem segments_ne_nil (t : Text) : segments t ≠ [] := by
  cases t with
  | nil => simp [segments]
  | cons c rest =>
    rw [segments]
    split
    · simp
    · split <;> simp

theorem intercalate_segments (t : Text) : List.intercalate ['/'] (segments t) = t := by
  induction t with
  | nil => rfl
  | cons c rest ih =>
    rw [segments]
    split
    · next h =>
      subst h
      obtain ⟨name, names, hs⟩ := List.exists_cons_of_ne_nil (segments_ne_nil rest)
      rw [hs] at ih ⊢
      rw [List.intercalate_cons_cons, ih]
      rfl
    · split
      · next hs => exact absurd hs (segments_ne_nil rest)
      · next name names hs =>
        rw [hs] at ih
        rw [← ih]
        cases names <;> simp [List.intercalate]

/-- A text up to the first slash is the first segment. -/
theorem segments_append_slash {name : Text} (h : '/' ∉ name) (rest : Text) :
    segments (name ++ '/' :: rest) = name :: segments rest := by
  induction name with
  | nil => simp [segments]
  | cons c name ih =>
    have hc : c ≠ '/' := fun e => h (by simp [e])
    rw [List.cons_append, segments, if_neg hc, ih fun m => h (List.mem_cons_of_mem c m)]

/-- A segment that leads nowhere else: an empty one or a dot. -/
def isIdle (segment : Text) : Bool :=
  segment.isEmpty || segment == ['.']

/-- The segment that leads to the directory above. -/
def up : Text := ['.', '.']

/-! ## 2. Written paths -/

def isAbsolute (t : Text) : Bool :=
  t.head? == some '/'

/-- The path of what `t` names from the directory `dir`. -/
def join (dir t : Text) : Text :=
  if isAbsolute t then t
  else if dir.isEmpty || dir.getLast? == some '/' then dir ++ t
  else dir ++ '/' :: t

@[simp] theorem join_nil_left (t : Text) : join [] t = t := by
  simp [join]

/-- A path from the root is the same from every directory. -/
theorem join_of_isAbsolute {t : Text} (h : isAbsolute t = true) (dir : Text) : join dir t = t := by
  simp [join, h]

/-- The list without the segments at its end that lead nowhere else. -/
def dropIdleEnd (segments : List Text) : List Text :=
  (segments.reverse.dropWhile isIdle).reverse

/-- The path of the directory that holds what a path names; idle segments before that name are left
out, except for the first segment. -/
def parent (t : Text) : Text :=
  match (segments t).dropLast with
  | [] => []
  | first :: rest =>
    if first.isEmpty && (dropIdleEnd rest).isEmpty then ['/']
    else List.intercalate ['/'] (first :: dropIdleEnd rest)

/-! ## 3. Names -/

/-- The part of a name before its last dot; a name without a dot, or with none but a leading one,
is its own stem. -/
def stem (name : Text) : Text :=
  match Text.cutAt? '.' name.reverse with
  | some (_, []) => name
  | some (_, front) => front.reverse
  | none => name

/-! ## 4. From place to place -/

def between : (source target : Place) → List Text
  | a :: source, b :: target =>
    if a = b then between source target
    else List.replicate (source.length + 1) up ++ b :: target
  | source, target => List.replicate source.length up ++ target

/-- Following two places that start alike does not leave their common start. -/
theorem between_append_append (common source target : Place) :
    between (common ++ source) (common ++ target) = between source target := by
  induction common with
  | nil => rfl
  | cons name common ih => simp [between, ih]

def relative (source target : Place) : Text :=
  List.intercalate ['/'] (between source target)

end Path

end ShaderVariants
