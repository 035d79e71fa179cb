import ShaderVariants.Text.Numeral

/-!
# Values of a configuration text

What a configuration text can say about a key.  Numbers are kept as they are written, and what they
spell matters only where they are used: `Value.isReadable` tells which values have no number in them
that is misspelt or too large.
-/

namespace ShaderVariants.Toml

/-- A number with a fraction or an exponent. -/
inductive Fraction where
  /-- Decimal digits and how many of them stand in front of the point; the count may lie beyond
  either end of the digits. -/
  | decimal (negative : Bool) (digits : Text) (point : Int)
  | infinite
  | undefined
  deriving Repr, DecidableEq

/-- What a key can stand for. -/
inductive Value where
  | text (value : Text)
  /-- An integer in some base: its sign and its digits. -/
  | integer (base : Nat) (written : Text)
  | fraction (value : Fraction)
  | truth (value : Bool)
  /-- A date, a time or both, as written. -/
  | moment (written : Text)
  | array (items : List Value)
  | table (fields : List (Text × Value))
  deriving Repr, Inhabited

/-! ## 1. Numbers -/

/-- The integer that is written, if 128 bits hold it with or without a sign. -/
def integer? (base : Nat) (written : Text) : Option Int :=
  match Numeral.readInt base 128 written with
  | .ok value => some value
  | .error _ =>
    match Numeral.readNat base 128 written with
    | .ok value => some value
    | .error _ => none

/-- The least positive number that is rounded to infinity as a double: it lies halfway between the
largest double and two to the power of 1024. -/
def Fraction.bound : Nat :=
  Numeral.wordCount 1024 - Numeral.wordCount 970

def Fraction.boundLength : Nat := 309

/-- Whether a fraction is not so large that rounding makes it infinite.  The bound is an integer, so
only digits in front of the point have to be compared, and only if there are as many as it has. -/
def Fraction.isReadable : Fraction → Bool
  | .decimal _ digits point =>
    let significant := digits.dropWhile (· == '0')
    let places := point - digits.length + significant.length
    if significant.isEmpty || places < boundLength then true
    else if boundLength < places then false
    else
      let front := significant.take boundLength
      (Numeral.readDigits 10 (bound - 1) .tooLarge 0
        (front ++ List.replicate (boundLength - front.length) '0')).toOption.isSome
  | .infinite => true
  | .undefined => true

/-! ## 2. Values -/

namespace Value

mutual

def isReadable : Value → Bool
  | .integer base written => (integer? base written).isSome
  | .fraction value => value.isReadable
  | .array items => areItemsReadable items
  | .table fields => areFieldsReadable fields
  | _ => true
termination_by structural value => value

def areItemsReadable : List Value → Bool
  | [] => true
  | item :: items => item.isReadable && areItemsReadable items
termination_by structural items => items

/-- Whether all numbers in the fields of a table can be read. -/
def areFieldsReadable : List (Text × Value) → Bool
  | [] => true
  | field :: fields => isFieldReadable field && areFieldsReadable fields
termination_by structural fields => fields

/-- Whether all numbers in the value of a field can be read. -/
def isFieldReadable : Text × Value → Bool
  | (_, value) => value.isReadable
termination_by structural field => field

end

end Value

example : Fraction.isReadable (.decimal false "17976931348623158".toList 309) := by decide +kernel

example : Fraction.isReadable (.decimal true "17976931348623159".toList 309) = false := by
  decide +kernel

end ShaderVariants.Toml
