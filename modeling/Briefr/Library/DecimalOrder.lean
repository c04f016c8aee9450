import Mathlib.Data.List.Lex
import Mathlib.Data.Nat.Digits.Lemmas
import Mathlib.Data.Char
import Mathlib.Order.Basic

namespace Briefr.Library.DecimalOrder

variable {α : Type*} [LinearOrder α]

theorem append_lt_append_iff {as bs : List α} (hlength : as.length = bs.length) (as' bs' : List α) :
    as ++ as' < bs ++ bs' ↔ as < bs ∨ as = bs ∧ as' < bs' := by
  induction as generalizing bs with
  | nil =>
    cases bs with
    | nil => simp
    | cons b bs => simp at hlength
  | cons a as ih =>
    cases bs with
    | nil => simp at hlength
    | cons b bs =>
      rw [List.cons_append, List.cons_append, List.cons_lt_cons_iff, List.cons_lt_cons_iff,
        ih (Nat.succ.inj hlength), List.cons.injEq]
      tauto

/-- A text that is not longer than another is compared with the start of the other. -/
theorem lt_append_iff {as bs : List α} (hlength : as.length = bs.length) {rest : List α} (hrest : rest ≠ []) :
    as < bs ++ rest ↔ as ≤ bs := by
  have h := append_lt_append_iff hlength [] rest
  rw [List.append_nil] at h
  have hnil : ([] : List α) < rest := by
    obtain ⟨r, rest, rfl⟩ := List.exists_cons_of_ne_nil hrest
    exact List.nil_lt_cons r rest
  rw [h, le_iff_lt_or_eq]
  exact or_congr_right (and_iff_left hnil)

theorem append_lt_iff {as bs : List α} (hlength : as.length = bs.length) (rest : List α) :
    as ++ rest < bs ↔ as < bs := by
  have h := append_lt_append_iff hlength rest []
  rw [List.append_nil] at h
  rw [h]
  exact or_iff_left fun hnil ↦ absurd hnil.2 (List.not_lt_nil rest)

theorem digitChar_lt_iff {a b : ℕ} (ha : a < 10) (hb : b < 10) : a.digitChar < b.digitChar ↔ a < b := by
  interval_cases a <;> interval_cases b <;> decide

theorem length_toDigits_step {n : ℕ} (h : 10 ≤ n) :
    (Nat.toDigits 10 n).length = (Nat.toDigits 10 (n / 10)).length + 1 := by
  rw [Nat.toDigits_of_base_le (by decide) h, List.length_append, List.length_singleton]

theorem length_toDigits_digit {n : ℕ} (h : n < 10) : (Nat.toDigits 10 n).length = 1 := by
  rw [Nat.toDigits_of_lt_base h, List.length_singleton]

/-- Numbers with equally many digits are in the order of their texts. -/
theorem toDigits_lt_iff {n m : ℕ} (hlength : (Nat.toDigits 10 n).length = (Nat.toDigits 10 m).length) :
    Nat.toDigits 10 n < Nat.toDigits 10 m ↔ n < m := by
  induction n using Nat.strong_induction_on generalizing m with
  | _ n ih =>
    by_cases hn : n < 10
    · have hm : m < 10 := by
        rw [← pow_one 10, ← Nat.length_toDigits_le_iff (by decide) Nat.one_pos, ← hlength, length_toDigits_digit hn]
      rw [Nat.toDigits_of_lt_base hn, Nat.toDigits_of_lt_base hm, List.cons_lt_cons_iff, digitChar_lt_iff hn hm]
      simp
    · rw [not_lt] at hn
      have hm : 10 ≤ m := by
        by_contra hm
        rw [length_toDigits_digit (not_le.mp hm), length_toDigits_step hn, Nat.add_eq_right] at hlength
        exact Nat.toDigits_ne_nil (List.length_eq_zero_iff.mp hlength)
      have hfront : (Nat.toDigits 10 (n / 10)).length = (Nat.toDigits 10 (m / 10)).length := by
        rw [length_toDigits_step hn, length_toDigits_step hm] at hlength
        exact Nat.succ.inj hlength
      have hless : n / 10 < n := Nat.div_lt_self (by omega) (by decide)
      rw [Nat.toDigits_of_base_le (by decide) hn, Nat.toDigits_of_base_le (by decide) hm,
        append_lt_append_iff hfront, ih (n / 10) hless hfront, List.cons_lt_cons_iff,
        digitChar_lt_iff (Nat.mod_lt n (by decide)) (Nat.mod_lt m (by decide))]
      have heq : Nat.toDigits 10 (n / 10) = Nat.toDigits 10 (m / 10) ↔ n / 10 = m / 10 := by
        refine ⟨fun h ↦ ?_, congrArg _⟩
        rw [← Nat.ofDigitChars_toDigits (n := n / 10) (b := 10) (by decide) (by decide), h,
          Nat.ofDigitChars_toDigits (by decide) (by decide)]
      rw [heq]
      simp only [List.not_lt_nil, and_false, or_false]
      omega

/-- A number's text starts with the text of its leading digits. -/
theorem exists_toDigits_append {n k : ℕ} (h : k < (Nat.toDigits 10 n).length) :
    ∃ rest, rest.length = k ∧ Nat.toDigits 10 n = Nat.toDigits 10 (n / 10 ^ k) ++ rest := by
  induction k generalizing n with
  | zero => exact ⟨[], rfl, by rw [pow_zero, Nat.div_one, List.append_nil]⟩
  | succ k ih =>
    have hn : 10 ≤ n := by
      by_contra hn
      rw [length_toDigits_digit (not_le.mp hn)] at h
      omega
    rw [length_toDigits_step hn] at h
    obtain ⟨rest, hrest, hfront⟩ := ih (Nat.lt_of_succ_lt_succ h)
    refine ⟨rest ++ [(n % 10).digitChar], by rw [List.length_append, hrest, List.length_singleton], ?_⟩
    rw [Nat.toDigits_of_base_le (by decide) hn, hfront, List.append_assoc, Nat.div_div_eq_div_mul, ← pow_succ']

def size (n : ℕ) : ℕ := (Nat.toDigits 10 n).length

theorem size_pos (n : ℕ) : 0 < size n := Nat.length_toDigits_pos

theorem lt_of_size_lt {n m : ℕ} (h : size n < size m) : n < m := by
  have hn : n < 10 ^ size n := (Nat.length_toDigits_le_iff (by decide) (size_pos n)).mp le_rfl
  have hm : 10 ^ size n ≤ m := by
    by_contra hm
    exact absurd ((Nat.length_toDigits_le_iff (by decide) (size_pos n)).mpr (not_le.mp hm)) (not_le.mpr h)
  exact hn.trans_le hm

theorem toDigits_lt_longer {n m : ℕ} (h : size n < size m) :
    Nat.toDigits 10 n < Nat.toDigits 10 m ↔ n ≤ m / 10 ^ (size m - size n) := by
  obtain ⟨rest, hrest, hdigits⟩ := exists_toDigits_append (n := m) (k := size m - size n)
    (Nat.sub_lt ((size_pos n).trans h) (size_pos n))
  have hlength : (Nat.toDigits 10 n).length = (Nat.toDigits 10 (m / 10 ^ (size m - size n))).length := by
    have htotal := congrArg List.length hdigits
    rw [List.length_append, hrest] at htotal
    simp only [size] at htotal h ⊢
    omega
  have hne : rest ≠ [] := by
    rw [← List.length_pos_iff_ne_nil, hrest]
    exact Nat.sub_pos_of_lt h
  rw [hdigits, lt_append_iff hlength hne, ← not_lt, toDigits_lt_iff hlength.symm, not_lt]

theorem longer_lt_toDigits {n m : ℕ} (h : size m < size n) :
    Nat.toDigits 10 n < Nat.toDigits 10 m ↔ n / 10 ^ (size n - size m) < m := by
  obtain ⟨rest, hrest, hdigits⟩ := exists_toDigits_append (n := n) (k := size n - size m)
    (Nat.sub_lt ((size_pos m).trans h) (size_pos m))
  have hlength : (Nat.toDigits 10 (n / 10 ^ (size n - size m))).length = (Nat.toDigits 10 m).length := by
    have htotal := congrArg List.length hdigits
    rw [List.length_append, hrest] at htotal
    simp only [size] at htotal h ⊢
    omega
  rw [hdigits, append_lt_iff hlength, toDigits_lt_iff hlength]

/-- Two numbers are in the order of their texts: the shorter one does not exceed the leading digits of the longer. -/
def InOrder (n m : ℕ) : Prop :=
  (size n < size m → n ≤ m / 10 ^ (size m - size n)) ∧ (size m < size n → m ≤ n / 10 ^ (size n - size m))

instance (n m : ℕ) : Decidable (InOrder n m) := by
  unfold InOrder
  infer_instance

theorem toDigits_lt_iff_of_inOrder {n m : ℕ} :
    (Nat.toDigits 10 n < Nat.toDigits 10 m ↔ n < m) ↔ InOrder n m := by
  rcases Nat.lt_trichotomy (size n) (size m) with h | h | h
  · rw [toDigits_lt_longer h, iff_true_right (lt_of_size_lt h)]
    exact ⟨fun hle ↦ ⟨fun _ ↦ hle, fun hlt ↦ absurd hlt h.asymm⟩, fun hboth ↦ hboth.1 h⟩
  · exact iff_of_true (toDigits_lt_iff h) ⟨fun hlt ↦ absurd hlt h.not_lt, fun hlt ↦ absurd hlt h.symm.not_lt⟩
  · rw [longer_lt_toDigits h, iff_false_right (lt_of_size_lt h).asymm, not_lt]
    exact ⟨fun hle ↦ ⟨fun hlt ↦ absurd hlt h.asymm, fun _ ↦ hle⟩, fun hboth ↦ hboth.2 h⟩

end Briefr.Library.DecimalOrder
