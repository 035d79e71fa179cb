import ShaderVariants.Toml.Moment
import ShaderVariants.Toml.Value

/-!
# Scalars

The values of a configuration text that are written without delimiters: truth values, numbers and
moments.  What looks like an integer is taken for one here, whatever its digits spell.
-/

namespace ShaderVariants.Toml

/-! ## 1. Signs and digits -/

def isHexDigit (c : Char) : Bool :=
  (Numeral.digit? 16 c).isSome

def unsigned : Text → Text
  | '-' :: rest => rest
  | '+' :: rest => rest
  | t => t

def isSigned (t : Text) : Bool :=
  t.head? == some '-' || t.head? == some '+'

/-- Whether every underscore stands between digits; `before` tells whether it may do so after what
stands in front of the text. -/
def separates (isDigit : Char → Bool) : (before : Bool) → Text → Bool
  | _, [] => true
  | before, c :: rest =>
    if c = '_' then before && rest.head?.any isDigit && separates isDigit false rest
    else separates isDigit (isDigit c) rest

def dropUnderscores (t : Text) : Text :=
  t.filter (· != '_')

/-! ## 2. Integers -/

def markedInteger? (base : Nat) (digits : Text) : Option Value :=
  if (digits.all fun c => c == '_' || (Numeral.digit? base c).isSome) &&
      separates isHexDigit false digits then
    some (.integer base (dropUnderscores digits))
  else none

def marksFraction (c : Char) : Bool :=
  c == '.' || c == 'e' || c == 'E'

/-- Whether a number without its sign looks like a decimal integer: decimal digits, and after an
underscore anything that does not make it a fraction and has no space in it.  It starts with zero
only if that is all. -/
def looksDecimal (t : Text) : Bool :=
  match t, t.dropWhile Char.isDigit with
  | [], _ => false
  | '0' :: _ :: _, _ => false
  | _, [] => true
  | _, c :: rest => c == '_' && !rest.any fun c => marksFraction c || c == ' '

def decimalInteger? (t : Text) : Option Value :=
  if looksDecimal (unsigned t) && separates isHexDigit (isSigned t) (unsigned t) then
    some (.integer 10 (dropUnderscores t))
  else none

/-! ## 3. Fractions -/

/-- Decimal digits at the start of a text, and what follows them. -/
def takeDigits? (t : Text) : Option (Text × Text) :=
  let digits := t.takeWhile Char.isDigit
  if digits.isEmpty then none else some (digits, t.drop digits.length)

def exponent? (t : Text) : Option Int :=
  match takeDigits? (unsigned t) with
  | some (digits, []) =>
    (Moment.number? digits).map fun value =>
      if t.head? == some '-' then -(value : Int) else value
  | _ => none

/-- The exponent at the end of a fraction; nothing stands for zero. -/
def fractionEnd? : Text → Option Int
  | [] => some 0
  | 'e' :: rest => exponent? rest
  | 'E' :: rest => exponent? rest
  | _ => none

/-- The digits and the place of the point of a fraction without sign and underscores. -/
def decimal? (t : Text) : Option (Text × Int) :=
  match takeDigits? t with
  | some (front, '.' :: rest) =>
    match takeDigits? rest with
    | some (back, rest) =>
      (fractionEnd? rest).map fun exponent => (front ++ back, front.length + exponent)
    | none => none
  | some (front, c :: rest) =>
    (fractionEnd? (c :: rest)).map fun exponent => (front, front.length + exponent)
  | _ => none

/-- Whether a number starts with a zero that another digit follows. -/
def hasIdleZero : Text → Bool
  | '0' :: c :: _ => c == '_' || c.isDigit
  | _ => false

/-- A fraction: digits with a point between them or an exponent behind them, or one of the names
for what is no number. -/
def fraction? (t : Text) : Option Fraction :=
  if unsigned t = "inf".toList then some .infinite
  else if unsigned t = "nan".toList then some .undefined
  else if hasIdleZero (unsigned t) then none
  else if separates Char.isDigit (isSigned t) (unsigned t) then
    (decimal? (dropUnderscores (unsigned t))).map fun found =>
      .decimal (t.head? == some '-') found.1 found.2
  else none

/-! ## 4. Scalars -/

def number? (t : Text) : Option Value :=
  match t with
  | '0' :: 'x' :: digits => markedInteger? 16 digits
  | '0' :: 'o' :: digits => markedInteger? 8 digits
  | '0' :: 'b' :: digits => markedInteger? 2 digits
  | _ => (decimalInteger? t).or ((fraction? t).map .fraction)

/-- The value of a scalar. -/
def scalar? (t : Text) : Option Value :=
  if t = "true".toList then some (.truth true)
  else if t = "false".toList then some (.truth false)
  else if Moment.isMoment t then some (.moment t)
  else number? t

example : number? "1_000".toList = some (.integer 10 "1000".toList) := rfl

example : fraction? "-1_0.5e3".toList = some (.decimal true "105".toList 5) := by decide

example : (scalar? "007".toList).isNone := by decide

end ShaderVariants.Toml
