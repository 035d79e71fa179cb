import ShaderVariants.Json.Basic
import ShaderVariants.Text.Numeral

/-!
# Written JSON

The text of a JSON value: one item or field to a line, two spaces for each level, and nothing
between the brackets of an empty array or object.
-/

namespace ShaderVariants.Json

def hexDigit (n : Nat) : Char :=
  if n < 10 then Char.ofNat ('0'.toNat + n) else Char.ofNat ('a'.toNat + (n - 10))

/-- A character inside a quoted text.  Quotes, backslashes and control characters are escaped. -/
def escape (c : Char) : Text :=
  if c = '"' then ['\\', '"']
  else if c = '\\' then ['\\', '\\']
  else if c = '\x08' then ['\\', 'b']
  else if c = '\x0c' then ['\\', 'f']
  else if c = '\n' then ['\\', 'n']
  else if c = '\r' then ['\\', 'r']
  else if c = '\t' then ['\\', 't']
  else if c.toNat < 0x20 then
    ['\\', 'u', '0', '0', hexDigit (c.toNat / 16), hexDigit (c.toNat % 16)]
  else [c]

def quote (t : Text) : Text :=
  '"' :: t.flatMap escape ++ ['"']

def newLine (level : Nat) : Text :=
  '\n' :: List.replicate (2 * level) ' '

mutual

/-- The text of a value whose first line stands at the given level. -/
def render (level : Nat) : Json → Text
  | .null => "null".toList
  | .bool true => "true".toList
  | .bool false => "false".toList
  | .num value => Numeral.ofInt value
  | .str value => quote value
  | .arr [] => ['[', ']']
  | .arr (item :: items) =>
    '[' :: newLine (level + 1) ++ render (level + 1) item ++ renderItems (level + 1) items ++
      newLine level ++ [']']
  | .obj [] => ['\x7b', '\x7d']
  | .obj (field :: fields) =>
    '\x7b' :: newLine (level + 1) ++ renderField (level + 1) field ++
      renderFields (level + 1) fields ++ newLine level ++ ['\x7d']
termination_by structural value => value

def renderItems (level : Nat) : List Json → Text
  | [] => []
  | item :: items => ',' :: newLine level ++ render level item ++ renderItems level items
termination_by structural items => items

def renderFields (level : Nat) : List (Text × Json) → Text
  | [] => []
  | field :: fields =>
    ',' :: newLine level ++ renderField level field ++ renderFields level fields
termination_by structural fields => fields

def renderField (level : Nat) : Text × Json → Text
  | (key, value) => quote key ++ ':' :: ' ' :: render level value
termination_by structural field => field

end

def toText (value : Json) : Text :=
  render 0 value

end ShaderVariants.Json
