import ShaderVariants.Text.Numeral

/-!
# Integer literals of conditions

A literal is decimal, or hexadecimal after `0x`; it may have one minus sign in front and a suffix
of `u`s behind.  Values lie within 64 bits.  After `0x` a sign of its own is let through.
-/

namespace ShaderVariants.Condition

/-- The literal without the letters that mark it as unsigned. -/
def dropUnsignedMark (t : Text) : Text :=
  (t.reverse.dropWhile fun c => c == 'u' || c == 'U').reverse

def hexadecimal? : Text → Option Text
  | '0' :: 'x' :: digits => some digits
  | '0' :: 'X' :: digits => some digits
  | _ => none

def startsSigned : Text → Bool
  | '+' :: _ => true
  | '-' :: _ => true
  | _ => false

def magnitude? (t : Text) : Option Int :=
  let digits := dropUnsignedMark t
  match hexadecimal? digits with
  | some hex => (Numeral.readInt 16 64 hex).toOption
  | none => if startsSigned digits then none else (Numeral.readInt 10 64 digits).toOption

/-- The value of a literal, `none` for any other text. -/
def literal? : Text → Option Int
  | '-' :: t => (magnitude? t).map fun value => -value
  | t => magnitude? t

example : literal? "0x1Fu".toList = some 31 := by decide +kernel

example : literal? "-7".toList = some (-7) := by decide +kernel

example : literal? "9223372036854775808".toList = none := by decide +kernel

end ShaderVariants.Condition
