import ShaderVariants.Text.Numeral

/-!
# Range of numerals

A numeral that can be read has a value of its width.
-/

namespace ShaderVariants.Numeral

/-- The signed integers of `bits` bits. -/
def Fits (bits : Nat) (v : Int) : Prop :=
  -(wordCount (bits - 1) : Int) ≤ v ∧ v < wordCount (bits - 1)

theorem wordCount_pos (bits : Nat) : 0 < wordCount bits :=
  Nat.pow_pos (by decide)

theorem fits_of_map_ofNat {base bits : Nat} {digits : Text} {v : Int}
    (h : (readDigits base (wordCount (bits - 1) - 1) .tooLarge 0 digits).map Int.ofNat = .ok v) :
    Fits bits v := by
  cases hread : readDigits base (wordCount (bits - 1) - 1) .tooLarge 0 digits with
  | error fault =>
    rw [hread] at h
    cases h
  | ok n =>
    rw [hread] at h
    obtain rfl : Int.ofNat n = v := Except.ok.inj h
    have hle := readDigits_le (Nat.zero_le _) hread
    have hpos := wordCount_pos (bits - 1)
    show -(wordCount (bits - 1) : Int) ≤ n ∧ (n : Int) < wordCount (bits - 1)
    omega

theorem fits_of_readInt {base bits : Nat} {t : Text} {v : Int} (h : readInt base bits t = .ok v) :
    Fits bits v := by
  unfold readInt at h
  split at h
  · cases h
  · cases h
  · cases h
  · exact fits_of_map_ofNat h
  · next digits _ =>
    -- A negative number may be larger by one than a positive one.
    cases hread : readDigits base (wordCount (bits - 1)) .tooSmall 0 digits with
    | error fault =>
      rw [hread] at h
      cases h
    | ok n =>
      rw [hread] at h
      obtain rfl : -(n : Int) = v := Except.ok.inj h
      have hle := readDigits_le (Nat.zero_le _) hread
      have hpos := wordCount_pos (bits - 1)
      show -(wordCount (bits - 1) : Int) ≤ -(n : Int) ∧ -(n : Int) < wordCount (bits - 1)
      omega
  · exact fits_of_map_ofNat h

theorem lt_of_readNat {base bits n : Nat} {t : Text} (h : readNat base bits t = .ok n) :
    n < wordCount bits := by
  have hpos := wordCount_pos bits
  unfold readNat at h
  split at h
  · cases h
  · cases h
  · have hle := readDigits_le (Nat.zero_le _) h
    omega
  · have hle := readDigits_le (Nat.zero_le _) h
    omega

end ShaderVariants.Numeral
