import ShaderVariants.Proofs.Text.Words
import ShaderVariants.Text.Numeral

/-!
# Texts on one line

Words and written numbers hold no line end, so that they are read back from the line they are
written to.
-/

namespace ShaderVariants

/-! ## 1. Texts -/

/-- A text without line ends. -/
def Text.OnOneLine (t : Text) : Prop :=
  ∀ c ∈ t, c ≠ '\n' ∧ c ≠ '\r'

namespace Text

theorem OnOneLine.append {s t : Text} (hs : OnOneLine s) (ht : OnOneLine t) :
    OnOneLine (s ++ t) :=
  List.forall_mem_append.mpr ⟨hs, ht⟩

theorem OnOneLine.cons {c : Char} {t : Text} (hc : c ≠ '\n' ∧ c ≠ '\r') (ht : OnOneLine t) :
    OnOneLine (c :: t) :=
  List.forall_mem_cons.mpr ⟨hc, ht⟩

theorem OnOneLine.isLine {t : Text} (h : OnOneLine t) : IsLine t :=
  ⟨fun hmem => (h _ hmem).1 rfl, fun hlast => (h _ (List.mem_of_getLast? hlast)).2 rfl⟩

theorem onOneLine_of_all {t : Text} (h : (t.all fun c => c != '\n' && c != '\r') = true) :
    OnOneLine t := by
  intro c hc
  simpa using List.all_eq_true.mp h c hc

theorem onOneLine_of_isWord {word : Text} (h : IsWord word) : OnOneLine word := by
  intro c hc
  constructor
  · rintro rfl
    exact absurd (h.chars _ hc) (by decide)
  · rintro rfl
    exact absurd (h.chars _ hc) (by decide)

theorem onOneLine_of_isIdentifier {name : Text} (h : isIdentifier name = true) : OnOneLine name :=
  onOneLine_of_isWord (.of_isIdentifier h)

end Text

/-! ## 2. Numbers -/

theorem Numeral.eq_of_mem_ofInt {v : Int} {c : Char} (h : c ∈ ofInt v) :
    c = '-' ∨ c.isDigit = true := by
  cases v with
  | ofNat n => exact Or.inr (isDigit_of_mem_ofNat h)
  | negSucc n =>
    rcases List.mem_cons.mp h with rfl | h
    · exact Or.inl rfl
    · exact Or.inr (isDigit_of_mem_ofNat h)

theorem Numeral.ofInt_ne_nil (v : Int) : ofInt v ≠ [] := by
  cases v with
  | ofNat n => exact ofNat_ne_nil n
  | negSucc n => exact List.cons_ne_nil _ _

/-- A written number has no blank and starts no comment. -/
theorem Numeral.isValue_ofInt (v : Int) : ∀ c ∈ ofInt v, Text.isBlank c = false ∧ c ≠ '/' := by
  intro c hc
  refine ⟨isBlank_of_mem_ofInt hc, ?_⟩
  rcases eq_of_mem_ofInt hc with rfl | hdigit
  · decide
  · rintro rfl
    exact absurd hdigit (by decide)

theorem Numeral.onOneLine_ofInt (v : Int) : Text.OnOneLine (ofInt v) := by
  intro c hc
  rcases eq_of_mem_ofInt hc with rfl | hdigit
  · decide
  · constructor
    · rintro rfl
      exact absurd hdigit (by decide)
    · rintro rfl
      exact absurd hdigit (by decide)

theorem Numeral.onOneLine_ofNat (n : Nat) : Text.OnOneLine (ofNat n) :=
  onOneLine_ofInt n

end ShaderVariants
