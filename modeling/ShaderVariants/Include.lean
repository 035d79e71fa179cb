import ShaderVariants.Program.Error

/-!
# Includes

Which file an include line names, and what entering it comes to: a file that declared
`#pragma once` is passed over, one too deep is refused, and any other is opened.
-/

namespace ShaderVariants

/-- Where the text of files comes from; for a file that cannot be read, the reason. -/
abbrev FileReader := Text → Except Text Text

namespace Include

/-- The name between two delimiters, if a token has them. -/
def enclosed? (opening closing : Char) (token : Text) : Option Text :=
  (Text.strip? [opening] token).bind (Text.stripEnd? [closing])

/-- The file that an include line names, by the tokens after `#include`. -/
def target : List Text → Except Cause Text
  | [token] =>
    match (enclosed? '"' '"' token).or (enclosed? '<' '>' token) with
    | some (c :: name) => .ok (c :: name)
    | _ => .error (.malformedPragma (.includeName token))
  | _ => .error (.malformedPragma .includeForm)

/-- How many levels of includes may still be entered for a file at the given depth, itself
counted. -/
def room (depth : Nat) : Nat :=
  maxIncludeDepth + 1 - depth

/-- The text to read in place of an include of `name`, with `room` levels left and the given files
already read once and for all; `none` if there is nothing to read. -/
def resolve (reader : FileReader) (once : List Text) (room : Nat) (name : Text) :
    Except Cause (Option Text) :=
  if once.contains name then .ok none
  else
    match room with
    | 0 => .error (.tooDeep name)
    | _ + 1 =>
      match reader name with
      | .ok text => .ok (some text)
      | .error reason => .error (.unreadable name reason)

/-- A file that was read once and for all is never opened again. -/
theorem resolve_of_mem {reader : FileReader} {once : List Text} {name : Text} (h : name ∈ once)
    (room : Nat) : resolve reader once room name = .ok none := by
  simp [resolve, h]

end Include

def FileReader.ofFiles (files : List (Text × Text)) : FileReader := fun name =>
  match files.lookup name with
  | some text => .ok text
  | none => .error ("no file named `".toList ++ name ++ "` in memory".toList)

end ShaderVariants
