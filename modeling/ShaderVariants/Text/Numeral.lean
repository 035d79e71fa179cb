import ShaderVariants.Text.Basic

/-!
# Numerals

Reading integers of a fixed width and writing them in decimal.  A numeral is read from the left,
and the first thing that goes wrong is its fault: a character that is no digit, or a value that
leaves the range.  Main facts: `readNat_ofNat` and `readInt_ofInt`, which read back written numbers
of the width.
-/

namespace ShaderVariants.Numeral

/-- Why a text is not a number of the wanted width. -/
inductive Fault where
  | empty
  | invalidDigit
  | tooLarge
  | tooSmall
  deriving Repr, DecidableEq

def Fault.message : Fault → String
  | .empty => "cannot parse integer from empty string"
  | .invalidDigit => "invalid digit found in string"
  | .tooLarge => "number too large to fit in target type"
  | .tooSmall => "number too small to fit in target type"

/-! ## 1. Digits -/

/-- The value of a digit: the decimal digits, then the letters of either case. -/
def digitValue (c : Char) : Option Nat :=
  if c.isDigit then some (c.toNat - '0'.toNat)
  else if c.isLower then some (c.toNat - 'a'.toNat + 10)
  else if c.isUpper then some (c.toNat - 'A'.toNat + 10)
  else none

def digit? (base : Nat) (c : Char) : Option Nat :=
  (digitValue c).filter (· < base)

/-- Reads digits after those already read, as long as the value stays at most `limit`; `beyond` is
the fault of a value past it. -/
def readDigits (base limit : Nat) (beyond : Fault) : (value : Nat) → Text → Except Fault Nat
  | value, [] => .ok value
  | value, c :: rest =>
    match digit? base c with
    | none => .error .invalidDigit
    | some d =>
      if value * base + d ≤ limit then readDigits base limit beyond (value * base + d) rest
      else .error beyond

theorem readDigits_le {base limit value n : Nat} {beyond : Fault} {t : Text}
    (hv : value ≤ limit) (h : readDigits base limit beyond value t = .ok n) : n ≤ limit := by
  induction t generalizing value with
  | nil =>
    rw [readDigits] at h
    exact Except.ok.inj h ▸ hv
  | cons c rest ih =>
    rw [readDigits] at h
    split at h
    · cases h
    · split at h
      · next hle => exact ih hle h
      · cases h

theorem readDigits_append {base limit : Nat} {beyond : Fault} (value : Nat) (s t : Text) :
    readDigits base limit beyond value (s ++ t) =
      (readDigits base limit beyond value s).bind fun v => readDigits base limit beyond v t := by
  induction s generalizing value with
  | nil => rfl
  | cons c s ih =>
    rw [List.cons_append, readDigits, readDigits]
    split
    · rfl
    · split
      · exact ih _
      · rfl

/-! ## 2. Reading -/

/-- How many values a word of so many bits has: two to that power. -/
def wordCount (bits : Nat) : Nat :=
  Nat.pow 2 bits

/-- Reads a signed integer of `bits` bits, with an optional sign. -/
def readInt (base bits : Nat) : Text → Except Fault Int
  | [] => .error .empty
  | ['+'] => .error .invalidDigit
  | ['-'] => .error .invalidDigit
  | '+' :: digits => (readDigits base (wordCount (bits - 1) - 1) .tooLarge 0 digits).map Int.ofNat
  | '-' :: digits =>
    (readDigits base (wordCount (bits - 1)) .tooSmall 0 digits).map fun n => -(n : Int)
  | digits => (readDigits base (wordCount (bits - 1) - 1) .tooLarge 0 digits).map Int.ofNat

/-- Reads an unsigned integer of `bits` bits, with an optional plus sign. -/
def readNat (base bits : Nat) : Text → Except Fault Nat
  | [] => .error .empty
  | ['+'] => .error .invalidDigit
  | '+' :: digits => readDigits base (wordCount bits - 1) .tooLarge 0 digits
  | digits => readDigits base (wordCount bits - 1) .tooLarge 0 digits

/-! ## 3. Writing -/

def ofNat (n : Nat) : Text :=
  Nat.toDigits 10 n

/-- An integer in decimal, with a minus sign in front if it is negative. -/
def ofInt : Int → Text
  | .ofNat n => ofNat n
  | .negSucc n => '-' :: ofNat (n + 1)

/-! ## 4. Reading what was written -/

theorem digit?_digitChar : ∀ d < 10, digit? 10 (Nat.digitChar d) = some d := by
  decide

theorem readDigits_ofNat {limit n : Nat} (beyond : Fault) (h : n ≤ limit) :
    readDigits 10 limit beyond 0 (ofNat n) = .ok n := by
  induction n using Nat.strongRecOn with
  | _ n ih =>
    by_cases hn : n < 10
    · rw [ofNat, Nat.toDigits_of_lt_base hn, readDigits, digit?_digitChar n hn]
      simp [readDigits, h]
    · rw [ofNat, Nat.toDigits_of_base_le (by decide) (Nat.not_lt.mp hn), readDigits_append]
      have hq : n / 10 < n := by omega
      have := ih (n / 10) hq (by omega)
      rw [ofNat] at this
      have hsum : n / 10 * 10 + n % 10 = n := by omega
      rw [this]
      simp [Except.bind, readDigits, digit?_digitChar (n % 10) (by omega), hsum, h]

theorem isDigit_of_mem_ofNat {n : Nat} {c : Char} (h : c ∈ ofNat n) : c.isDigit = true :=
  Nat.isDigit_of_mem_toDigits (by decide) (by decide) h

theorem ofNat_ne_nil (n : Nat) : ofNat n ≠ [] :=
  Nat.toDigits_ne_nil

theorem isBlank_of_mem_ofInt {v : Int} {c : Char} (h : c ∈ ofInt v) :
    Text.isBlank c = false := by
  cases v with
  | ofNat n => exact Text.isBlank_eq_false_of_isDigit (isDigit_of_mem_ofNat h)
  | negSucc n =>
    rcases List.mem_cons.mp h with rfl | h
    · decide
    · exact Text.isBlank_eq_false_of_isDigit (isDigit_of_mem_ofNat h)

theorem exists_ofNat_eq_cons (n : Nat) : ∃ c rest, ofNat n = c :: rest ∧ c.isDigit = true := by
  obtain ⟨c, rest, h⟩ := List.exists_cons_of_ne_nil (ofNat_ne_nil n)
  exact ⟨c, rest, h, isDigit_of_mem_ofNat (n := n) (by simp [h])⟩

theorem readNat_ofNat {bits n : Nat} (h : n < wordCount bits) :
    readNat 10 bits (ofNat n) = .ok n := by
  obtain ⟨c, rest, hc, hd⟩ := exists_ofNat_eq_cons n
  have hr := readDigits_ofNat .tooLarge (Nat.le_sub_one_of_lt h)
  rw [hc] at hr ⊢
  have hplus : c ≠ '+' := by
    rintro rfl
    exact absurd hd (by decide)
  rw [readNat]
  · exact hr
  all_goals simp [hplus]

/-- A written integer of the width is read back. -/
theorem readInt_ofInt {bits : Nat} {v : Int} (hlow : -(wordCount (bits - 1) : Int) ≤ v)
    (hhigh : v < wordCount (bits - 1)) : readInt 10 bits (ofInt v) = .ok v := by
  cases v with
  | ofNat n =>
    obtain ⟨c, rest, hc, hd⟩ := exists_ofNat_eq_cons n
    have hn : n < wordCount (bits - 1) := Int.ofNat_lt.mp hhigh
    have hr := readDigits_ofNat .tooLarge (Nat.le_sub_one_of_lt hn)
    have hplus : c ≠ '+' := by
      rintro rfl
      exact absurd hd (by decide)
    have hminus : c ≠ '-' := by
      rintro rfl
      exact absurd hd (by decide)
    rw [ofInt, hc] at *
    rw [readInt, hr]
    · rfl
    all_goals simp [hplus, hminus]
  | negSucc n =>
    obtain ⟨c, rest, hc, -⟩ := exists_ofNat_eq_cons (n + 1)
    have hn : n + 1 ≤ wordCount (bits - 1) := by
      rw [Int.negSucc_eq] at hlow
      omega
    have hr := readDigits_ofNat .tooSmall hn
    rw [ofInt, hc] at *
    rw [readInt, hr]
    · rfl
    all_goals simp

example : ofInt (-12) = ['-', '1', '2'] := by decide

example : ofInt 0 = ['0'] := by decide

end ShaderVariants.Numeral
