import Mathlib.Algebra.Order.Field.Basic
import Mathlib.Algebra.Order.Floor.Ring
import Mathlib.Tactic.Linarith
import Mathlib.Data.Nat.Log
import Mathlib.Algebra.Order.Group.Nat

namespace Briefr.Library.RoundHalfEven

variable {K : Type} [Field K] [LinearOrder K] [FloorRing K]

theorem two_atLeastTwo : Nat.AtLeastTwo 2 := inferInstance

-- one name for what stands behind a numeral in a definition
attribute [local instance] two_atLeastTwo

/-- The whole number nearest to `x`, of two the even one. -/
def roundHalfEven (x : K) : ℤ :=
  if 2 * (x - ⌊x⌋) < 1 ∨ 2 * (x - ⌊x⌋) = 1 ∧ ⌊x⌋ % 2 = 0 then ⌊x⌋ else ⌊x⌋ + 1

/-- The nearest number with so many equal parts in a whole. -/
def roundTo (parts : ℕ) (x : K) : K := roundHalfEven (x * parts) / parts

theorem floor_le_roundHalfEven (x : K) : ⌊x⌋ ≤ roundHalfEven x := by
  rw [roundHalfEven]
  split
  · exact le_refl _
  · exact Int.le_add_one (le_refl _)

theorem roundHalfEven_le (x : K) : roundHalfEven x ≤ ⌊x⌋ + 1 := by
  rw [roundHalfEven]
  split
  · exact Int.le_add_one (le_refl _)
  · exact le_refl _

variable [IsStrictOrderedRing K] {x y : K} {parts : ℕ}

theorem roundHalfEven_mono (h : x ≤ y) : roundHalfEven x ≤ roundHalfEven y := by
  rcases (Int.floor_mono h).lt_or_eq with hlt | heq
  · calc roundHalfEven x ≤ ⌊x⌋ + 1 := roundHalfEven_le x
      _ ≤ ⌊y⌋ := hlt
      _ ≤ roundHalfEven y := floor_le_roundHalfEven y
  · -- between two whole numbers the half decides, and it is the same for both
    rw [roundHalfEven, roundHalfEven, heq]
    split
    · split
      · exact le_refl _
      · exact Int.le_add_one (le_refl _)
    · rename_i hx
      rw [if_neg]
      intro hy
      apply hx
      rcases hy with hy | ⟨hy, heven⟩
      · left
        linarith
      · rcases h.lt_or_eq with hl | he
        · left
          linarith
        · right
          rw [he]
          exact ⟨hy, heven⟩

theorem roundHalfEven_intCast (n : ℤ) : roundHalfEven (n : K) = n := by
  rw [roundHalfEven, Int.floor_intCast, sub_self, mul_zero, if_pos (.inl zero_lt_one)]

/-- An even number is reached from the half below it. -/
theorem le_roundHalfEven_iff {n : ℤ} (heven : n % 2 = 0) : n ≤ roundHalfEven x ↔ n - 1 / 2 ≤ x := by
  constructor
  · intro h
    by_contra hlt
    rw [not_le] at hlt
    have hfloor : ⌊x⌋ < n := Int.floor_lt.mpr (by linarith)
    rw [roundHalfEven] at h
    split at h
    · omega
    · next hhalf =>
      have hn : ⌊x⌋ = n - 1 := by omega
      rw [hn] at hhalf
      push_cast at hhalf
      exact hhalf (.inl (by linarith))
  · intro h
    have hbelow : ⌊(n - 1 / 2 : K)⌋ = n - 1 := by
      rw [Int.floor_eq_iff]
      push_cast
      constructor <;> linarith
    have hround : roundHalfEven (n - 1 / 2 : K) = n := by
      rw [roundHalfEven, hbelow, if_neg]
      · omega
      · push_cast
        rintro (hlt | ⟨-, hodd⟩)
        · linarith
        · omega
    calc n = roundHalfEven (n - 1 / 2 : K) := hround.symm
      _ ≤ roundHalfEven x := roundHalfEven_mono h

theorem roundTo_mono (h : x ≤ y) : roundTo parts x ≤ roundTo parts y := by
  apply div_le_div_of_nonneg_right _ (Nat.cast_nonneg parts)
  exact Int.cast_le.mpr (roundHalfEven_mono (mul_le_mul_of_nonneg_right h (Nat.cast_nonneg parts)))

theorem roundTo_natCast (hp : parts ≠ 0) (n : ℕ) : roundTo parts (n : K) = n := by
  have hn : (n : K) * parts = ((n * parts : ℤ) : K) := by push_cast; rfl
  rw [roundTo, hn, roundHalfEven_intCast]
  push_cast
  exact mul_div_cancel_right₀ _ (Nat.cast_ne_zero.mpr hp)

theorem roundTo_roundTo (hp : parts ≠ 0) (x : K) : roundTo parts (roundTo parts x) = roundTo parts x := by
  rw [roundTo, roundTo, div_mul_cancel₀ _ (Nat.cast_ne_zero.mpr hp), roundHalfEven_intCast]

theorem roundTo_mem (hp : parts ≠ 0) {n : ℕ} (h0 : 0 ≤ x) (hn : x ≤ n) : 0 ≤ roundTo parts x ∧ roundTo parts x ≤ n := by
  have hzero : roundTo parts (0 : K) = 0 := by
    rw [← Nat.cast_zero, roundTo_natCast hp]
  constructor
  · rw [← hzero]
    exact roundTo_mono h0
  · rw [← roundTo_natCast (K := K) hp n]
    exact roundTo_mono hn

end Briefr.Library.RoundHalfEven

namespace Briefr.Library.NearestFloat

/-- The whole number nearest to `n / d`, of two the even one. -/
def nearestEven (n d : ℕ) : ℕ :=
  if 2 * (n % d) < d ∨ 2 * (n % d) = d ∧ n / d % 2 = 0 then n / d else n / d + 1

/-- The number of at most `bits` significant bits nearest to `n / d`, in units too small to matter. -/
def nearest (bits n d : ℕ) : ℕ :=
  let shift := (n / d).log2 + 1 - bits
  nearestEven n (d * 2 ^ shift) * 2 ^ shift

/-- Likewise on both sides of zero. -/
def signedNearest (bits : ℕ) (n : ℤ) (d : ℕ) : ℤ :=
  if n < 0 then -(nearest bits n.natAbs d : ℤ) else nearest bits n.natAbs d

variable {bits d m n q : ℕ}

theorem nearestEven_mono (h : n ≤ m) : nearestEven n d ≤ nearestEven m d := by
  have hq : n / d ≤ m / d := Nat.div_le_div_right h
  rcases hq.lt_or_eq with hq | hq
  · unfold nearestEven
    split <;> split <;> omega
  · have hr : n % d ≤ m % d := by
      have hn := Nat.div_add_mod n d
      have hm := Nat.div_add_mod m d
      rw [hq] at hn
      omega
    unfold nearestEven
    rw [hq]
    split <;> split <;> omega

theorem nearestEven_mul (hd : 0 < d) : nearestEven (q * d) d = q := by
  rw [nearestEven, Nat.mul_mod_left, Nat.mul_div_cancel q hd, if_pos (.inl (by omega))]

theorem nearestEven_le (hd : 0 < d) (h : n ≤ q * d) : nearestEven n d ≤ q := by
  have hm : nearestEven n d ≤ nearestEven (q * d) d := nearestEven_mono h
  rwa [nearestEven_mul hd] at hm

theorem le_nearestEven (hd : 0 < d) (h : q * d ≤ n) : q ≤ nearestEven n d := by
  have hm : nearestEven (q * d) d ≤ nearestEven n d := nearestEven_mono h
  rwa [nearestEven_mul hd] at hm

theorem nearest_le (hd : 0 < d) : nearest bits n d ≤ 2 ^ (bits + ((n / d).log2 + 1 - bits)) := by
  rw [nearest, Nat.pow_add]
  apply Nat.mul_le_mul_right
  apply nearestEven_le (Nat.mul_pos hd (Nat.two_pow_pos _))
  have hlt : n / d < 2 ^ (bits + ((n / d).log2 + 1 - bits)) :=
    Nat.lt_log2_self.trans_le (Nat.pow_le_pow_right (by omega) (by omega))
  have hn : n < d * 2 ^ (bits + ((n / d).log2 + 1 - bits)) := by
    rw [Nat.mul_comm]
    exact (Nat.div_lt_iff_lt_mul hd).mp hlt
  calc n ≤ d * 2 ^ (bits + ((n / d).log2 + 1 - bits)) := hn.le
    _ = 2 ^ bits * (d * 2 ^ ((n / d).log2 + 1 - bits)) := by
      rw [Nat.pow_add, Nat.mul_left_comm]

theorem le_nearest (hd : 0 < d) (hb : 0 < bits) (hs : 0 < (n / d).log2 + 1 - bits) :
    2 ^ (n / d).log2 ≤ nearest bits n d := by
  have hlog : (n / d).log2 = bits - 1 + ((n / d).log2 + 1 - bits) := by omega
  have hn : n / d ≠ 0 := by
    intro hz
    rw [hz, Nat.log2_zero] at hs
    omega
  have hle : d * 2 ^ (n / d).log2 ≤ n := (Nat.mul_le_mul_left d (Nat.log2_self_le hn)).trans (Nat.mul_div_le n d)
  have hq : 2 ^ (bits - 1) ≤ nearestEven n (d * 2 ^ ((n / d).log2 + 1 - bits)) := by
    apply le_nearestEven (Nat.mul_pos hd (Nat.two_pow_pos _))
    rwa [Nat.mul_left_comm, ← Nat.pow_add, ← hlog]
  calc 2 ^ (n / d).log2 = 2 ^ (bits - 1) * 2 ^ ((n / d).log2 + 1 - bits) := by rw [← Nat.pow_add, ← hlog]
    _ ≤ nearest bits n d := Nat.mul_le_mul_right _ hq

theorem log2_mono (h : n ≤ m) : n.log2 ≤ m.log2 := by
  rw [Nat.log2_eq_log_two, Nat.log2_eq_log_two]
  exact Nat.log_mono_right h

theorem nearest_mono (hd : 0 < d) (hb : 0 < bits) (h : n ≤ m) : nearest bits n d ≤ nearest bits m d := by
  have hlog : (n / d).log2 ≤ (m / d).log2 := log2_mono (Nat.div_le_div_right h)
  by_cases hs : (n / d).log2 + 1 - bits = (m / d).log2 + 1 - bits
  · rw [nearest, nearest, hs]
    exact Nat.mul_le_mul_right _ (nearestEven_mono h)
  · -- Across a power of two both are compared with it.
    calc nearest bits n d ≤ 2 ^ (bits + ((n / d).log2 + 1 - bits)) := nearest_le hd
      _ ≤ 2 ^ (m / d).log2 := Nat.pow_le_pow_right (by omega) (by omega)
      _ ≤ nearest bits m d := le_nearest hd hb (by omega)

theorem signedNearest_mono {a b : ℤ} (hd : 0 < d) (hb : 0 < bits) (h : a ≤ b) :
    signedNearest bits a d ≤ signedNearest bits b d := by
  unfold signedNearest
  by_cases ha : a < 0
  · by_cases hb' : b < 0
    · rw [if_pos ha, if_pos hb']
      have hm : nearest bits b.natAbs d ≤ nearest bits a.natAbs d := nearest_mono hd hb (by omega)
      omega
    · rw [if_pos ha, if_neg hb']
      omega
  · rw [if_neg ha, if_neg (by omega)]
    have hm : nearest bits a.natAbs d ≤ nearest bits b.natAbs d := nearest_mono hd hb (by omega)
    omega

end Briefr.Library.NearestFloat
