import ShaderVariants.Text.Numeral

/-!
# Moments

A moment is a date, a time of day, or both, possibly with an offset from universal time:
`1979-05-27`, `07:32`, `07:32:00.5`, `1979-05-27T07:32:00-07:00`.  Seconds may be left out, and a
leap second is one more than 59.
-/

namespace ShaderVariants.Toml.Moment

/-! ## 1. Numbers -/

def number? (digits : Text) : Option Nat :=
  (digits.mapM (Numeral.digit? 10)).map fun values =>
    values.foldl (fun number value => 10 * number + value) 0

/-- Whether digits spell a number from `low` to `high`. -/
def isWithin (low high : Nat) (digits : Text) : Bool :=
  match number? digits with
  | some number => low ≤ number && number ≤ high
  | none => false

/-! ## 2. Dates -/

def isLeapYear (year : Nat) : Bool :=
  year % 4 == 0 && (year % 100 != 0 || year % 400 == 0)

def daysIn (year month : Nat) : Nat :=
  if month = 2 then if isLeapYear year then 29 else 28
  else if month = 4 ∨ month = 6 ∨ month = 9 ∨ month = 11 then 30
  else 31

def isDay (year month day : Nat) : Bool :=
  1 ≤ month && month ≤ 12 && 1 ≤ day && day ≤ daysIn year month

def afterDate? : Text → Option Text
  | a :: b :: c :: d :: '-' :: e :: f :: '-' :: g :: h :: rest =>
    match number? [a, b, c, d], number? [e, f], number? [g, h] with
    | some year, some month, some day => if isDay year month day then some rest else none
    | _, _, _ => none
  | _ => none

/-! ## 3. Times -/

/-- What follows the fraction of a second, if there is one. -/
def afterFraction? : Text → Option Text
  | '.' :: rest =>
    if (rest.takeWhile Char.isDigit).isEmpty then none else some (rest.dropWhile Char.isDigit)
  | rest => some rest

def afterSeconds? : Text → Option Text
  | ':' :: a :: b :: rest => if isWithin 0 60 [a, b] then afterFraction? rest else none
  | rest => some rest

def afterTime? : Text → Option Text
  | a :: b :: ':' :: c :: d :: rest =>
    if isWithin 0 23 [a, b] && isWithin 0 59 [c, d] then afterSeconds? rest else none
  | _ => none

/-- Whether a text is nothing or an offset from universal time. -/
def isOffset : Text → Bool
  | [] => true
  | [c] => c == 'Z' || c == 'z'
  | [sign, a, b, ':', c, d] =>
    (sign == '+' || sign == '-') && isWithin 0 23 [a, b] && isWithin 0 59 [c, d]
  | _ => false

/-! ## 4. Moments -/

/-- Whether a text is a date, a time, or a date and a time with a blank or the letter T between
them. -/
def isMoment (t : Text) : Bool :=
  match afterDate? t with
  | none => afterTime? t == some []
  | some [] => true
  | some (c :: rest) =>
    (c == 'T' || c == 't' || c == ' ') &&
      match afterTime? rest with
      | some offset => isOffset offset
      | none => false

example : isMoment "2024-02-29 07:32:60.25z".toList := by decide

example : isMoment "2023-02-29".toList = false := by decide

end ShaderVariants.Toml.Moment
