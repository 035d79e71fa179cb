import ShaderVariants.Token

/-!
# Lines of a program file

A line is an include, one of the two pragmas that are read here, or code.
-/

namespace ShaderVariants

/-- What a line of a program file is. -/
inductive Line where
  /-- An include, with the tokens after the word. -/
  | fileInclude (tokens : List Text)
  /-- The pragma that lets a file be read only once. -/
  | once
  /-- The same pragma with something behind it. -/
  | onceWithArguments
  /-- A directive of the program, with its tokens. -/
  | anki (tokens : List Text)
  /-- Anything else. -/
  | code
  deriving Repr, DecidableEq

namespace Line

/-- What follows `#word`, if the line starts with it. -/
def afterWord? (word line : Text) : Option Text :=
  match Text.trimStart line with
  | '#' :: rest => Text.strip? word (Text.trimStart rest)
  | _ => none

/-- The text after `#include`; a blank or a delimiter has to follow the word. -/
def includeArguments? (line : Text) : Option Text :=
  (afterWord? "include".toList line).filter fun rest =>
    rest.head?.any fun c => Text.isBlank c || c == '"' || c == '<'

/-- The text after `#pragma`; a blank or nothing has to follow the word. -/
def pragmaArguments? (line : Text) : Option Text :=
  (afterWord? "pragma".toList line).filter fun rest => rest.head?.all Text.isBlank

/-- What the tokens after `#pragma` make of a line. -/
def ofPragma : List Text → Line
  | [] => .code
  | word :: rest =>
    if word = "once".toList then if rest.isEmpty then .once else .onceWithArguments
    else if word = "anki".toList then .anki rest
    else .code

/-- What a line is. -/
def ofText (line : Text) : Line :=
  match includeArguments? line with
  | some arguments => .fileInclude (Token.ofLine arguments)
  | none =>
    match pragmaArguments? line with
    | some arguments => ofPragma (Token.ofLine arguments)
    | none => .code

end Line

end ShaderVariants
