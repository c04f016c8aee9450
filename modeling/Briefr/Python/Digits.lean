import Briefr.Python.Text

namespace Briefr.Python

theorem isDigit_iff {c : Char} : c.isDigit = true ↔ 48 ≤ c.toNat ∧ c.toNat ≤ 57 := by
  simp only [Char.isDigit, Bool.and_eq_true, decide_eq_true_eq, ge_iff_le, UInt32.le_iff_toNat_le]
  rfl

/-- The interpreter with its tables of digits: every decimal is a digit, has no case and is no space. -/
class Digits extends Interp where
  isDigit_of_isDecimal : ∀ c, isDecimal c = true → isDigit c = true
  isDigit_ascii : ∀ c, c.toNat < 128 → isDigit c = c.isDigit
  isDecimal_ascii : ∀ c, c.toNat < 128 → isDecimal c = c.isDigit
  isSpace_of_isDecimal : ∀ c, isDecimal c = true → isSpace c = false
  lowerChar_of_isDecimal : ∀ c, isDecimal c = true → lowerChar c = [c]
  isDecimal_sigma : isDecimal sigma = false

/-- ASCII with the superscript digits of Latin-1, which `str.isdigit` accepts and `int` does not. -/
@[reducible] def latinDigits : Digits where
  toInterp := { ascii fun _ ↦ none with
    isDigit := fun c ↦ c.isDigit || c.toNat == 0xB2 || c.toNat == 0xB3 || c.toNat == 0xB9 }
  isDigit_of_isDecimal c h := by
    have h : c.isDigit = true := h
    simp [isDigit, h]
  isDigit_ascii c h := by
    have hs : (c.toNat == 0xB2 || c.toNat == 0xB3 || c.toNat == 0xB9) = false := by
      simp only [Bool.or_eq_false_iff, beq_eq_false_iff_ne]
      omega
    rw [Bool.or_eq_false_iff, Bool.or_eq_false_iff] at hs
    simp [isDigit, hs]
  isDecimal_ascii _ _ := rfl
  isSpace_of_isDecimal c h := by
    have hd := isDigit_iff.mp h
    simp only [isSpace, isAsciiSpace, Bool.or_eq_false_iff, Bool.and_eq_false_iff, decide_eq_false_iff_not,
      beq_eq_false_iff_ne]
    omega
  lowerChar_of_isDecimal c h := by
    have hd := isDigit_iff.mp h
    have hu : ¬isUpperAscii c := by
      unfold isUpperAscii
      omega
    exact congrArg (fun d ↦ [d]) (toLower_of_not_upper hu)
  isDecimal_sigma := by decide

/-- The digit tables together with the values of the ASCII digits. -/
class Decimals extends Digits where
  decimalValue_ascii : ∀ c, c.isDigit = true → decimalValue c = c.toNat - 48

@[reducible] def latinDecimals : Decimals where
  toDigits := latinDigits
  decimalValue_ascii _ _ := rfl

section
variable [Interp]

/-- The number that digits write. -/
def digitsValue (digits : Text) : ℕ := digits.foldl (fun n c ↦ 10 * n + decimalValue c) 0

end

section
variable [Decimals]

theorem isDecimal_of_isDigit {c : Char} (h : c.isDigit = true) : isDecimal c = true := by
  have hlt : c.toNat < 128 := by
    have hd := isDigit_iff.mp h
    omega
  rw [Digits.isDecimal_ascii c hlt]
  exact h

theorem isDecimal_of_mem_toDigits {n : ℕ} {c : Char} (h : c ∈ Nat.toDigits 10 n) : isDecimal c = true :=
  isDecimal_of_isDigit (Nat.isDigit_of_mem_toDigits (by decide) (by decide) h)

theorem digitsValue_toDigits (n : ℕ) : digitsValue (Nat.toDigits 10 n) = n := by
  have hfold : ∀ (l : Text) (k : ℕ), (∀ c ∈ l, c.isDigit = true) →
      l.foldl (fun n c ↦ 10 * n + decimalValue c) k = Nat.ofDigitChars 10 l k := by
    intro l
    induction l with
    | nil => intro k _; rfl
    | cons c l ih =>
      intro k h
      rw [List.foldl_cons, Nat.ofDigitChars_cons, Decimals.decimalValue_ascii c (h c (.head _))]
      exact ih _ fun c hc ↦ h c (.tail _ hc)
  rw [digitsValue, hfold _ _ fun c hc ↦ Nat.isDigit_of_mem_toDigits (by decide) (by decide) hc]
  exact Nat.ofDigitChars_toDigits (by decide) (by decide)

end

end Briefr.Python
