import ShaderVariants.Text.Basic

/-!
# Words in a text

Whether a word occurs in a text as a whole, that is between characters that belong to no word.
-/

namespace ShaderVariants.Text

/-- Whether neither neighbour of an occurrence continues it as a word. -/
def standsAlone (before : Option Char) (after : Text) : Bool :=
  !before.any isWordChar && !after.head?.any isWordChar

/-- Looks for a whole `word` from left to right.  An occurrence that turns out to be part of a
longer word is passed over as a whole: `skip` counts its characters that are still ahead, and
`before` is the character just passed. -/
def findWord (word : Text) : (skip : Nat) → (before : Option Char) → Text → Bool
  | _, _, [] => false
  | skip + 1, _, c :: rest => findWord word skip (some c) rest
  | 0, before, c :: rest =>
    match strip? word (c :: rest) with
    | some after => standsAlone before after || findWord word (word.length - 1) (some c) rest
    | none => findWord word 0 (some c) rest

/-- Whether the text holds `word` as a whole word. -/
def containsWord (text word : Text) : Bool :=
  findWord word 0 none text

@[simp] theorem containsWord_nil (word : Text) : containsWord [] word = false := rfl

end ShaderVariants.Text
