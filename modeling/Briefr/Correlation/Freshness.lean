import Mathlib.Tactic.Linarith
import Mathlib.Tactic.NormNum
import Briefr.Correlation.InfrastructurePeers
import Briefr.Correlation.Lifecycle
import Briefr.Library.RoundHalfEven

namespace Briefr.Correlation

open Briefr.Python Briefr.Library.RoundHalfEven

/-- The functions of `math` by which an indicator ages and spreads: the logarithm to base 2 and the powers of a half. -/
class Curves (K : Type) [Field K] [LinearOrder K] where
  log2 : K → K
  half : K → K
  log2_mono : ∀ {x y : K}, 0 < x → x ≤ y → log2 x ≤ log2 y
  log2_mul : ∀ {x y : K}, 0 < x → 0 < y → log2 (x * y) = log2 x + log2 y
  log2_two : log2 2 = 1
  half_zero : half 0 = 1
  half_anti : ∀ {x y : K}, x ≤ y → half y ≤ half x

export Curves (log2 half)

/-- The variables of the environment: `int` of the one for a type, with none where it is empty or no number, and
`float` of the one for the floor. -/
structure FreshnessVariables (K : Type) where
  halfLife : Text → Option ℤ
  floor : Py K

structure Freshness (K : Type) where
  factor : K
  reason : Text
  fallback : Bool

/-- The types of the two families of addresses count as one. -/
def addressType (t : Text) : Text := if t = "IPV4".toList ∨ t = "IPV6".toList then "IP".toList else t

def defaultHalfLife (t : Text) : ℤ :=
  if t = "IP".toList then 30
  else if t = "URL".toList then 60
  else if t = "DOMAIN".toList then 120
  else if t = "HASH".toList then 365
  else 120

section
variable {K : Type} [Field K] [LinearOrder K] [FloorRing K]

def baseScore (t : Text) : K :=
  if t = "HASH".toList then 9 / 10
  else if t = "DOMAIN".toList then 6 / 10
  else if t = "URL".toList then 65 / 100
  else 3 / 10

def scoreToConfidenceLevel (score : K) : Text :=
  if 65 / 100 ≤ score then "high".toList else if 40 / 100 ≤ score then "medium".toList else "low".toList

def getFreshnessFloor (v : FreshnessVariables K) : Py K := do return max 0 (min 1 (← v.floor))

def ageDays (now anchor : ℕ) : K := max 0 (((now - anchor : ℤ) : K) / microsecondsPerDay)

variable [Interp]

def getFreshnessHalfLifeDays (v : FreshnessVariables K) (iocType : Text) : ℤ :=
  let key := addressType (upper iocType)
  match v.halfLife key with
  | some n => max 1 n
  | none => defaultHalfLife key

variable [Curves K]

def degreeFactor (degree : ℤ) : K :=
  let d := max 0 degree
  if d ≤ 3 then 1 else 1 / (1 + log2 ((d : K) / 3))

def freshnessMultiplier (v : FreshnessVariables K) (iocType : Text) (age : K) : Py K := do
  let halfLife := getFreshnessHalfLifeDays v iocType
  let floor ← getFreshnessFloor v
  return max floor (half (max 0 age / (halfLife : K)))

attribute [local instance] two_atLeastTwo in
def corroborationFactor (k : K) : K :=
  let sources := max 1 (if k = 0 then 1 else k)
  min 1 (6 / 10 + 2 / 10 * log2 (1 + sources))

def numericEdgeLevel (iocType : Text) (degree : ℤ) (freshness corroborationK : K) : Text :=
  let base := baseScore (addressType (upper iocType))
  scoreToConfidenceLevel (base * degreeFactor degree * freshness * corroborationFactor corroborationK)

variable [Iso]

/-- How fresh an indicator is. Only the time of an observation makes it age; `parse_observation_dt` reads a date as
`_parse_dt` does. -/
def freshnessContext (v : FreshnessVariables K) (iocType : Text) (observedAt ingestedAt : Option Text) (now : ℕ) :
    Py (Freshness K) := do
  let observed ← parseDt observedAt
  let ingested ← parseDt ingestedAt
  match observed, ingested with
  | none, none => return ⟨1, "No observation timestamp available".toList, true⟩
  | some t, _ =>
    let age := ageDays now t
    let factor ← freshnessMultiplier v iocType age
    return ⟨roundTo 10000 factor, "Indicator observed ".toList ++ natText ⌊age⌋.toNat ++ "d ago (".toList ++
      upper iocType ++ " half-life ".toList ++ natText (getFreshnessHalfLifeDays v iocType).toNat ++ "d)".toList, false⟩
  | none, some t =>
    let age : K := ageDays now t
    let _ ← freshnessMultiplier v iocType age
    return ⟨roundTo 10000 1, "Observation time unknown — staleness decay skipped (ingested ".toList ++
      natText ⌊age⌋.toNat ++ "d ago)".toList, true⟩

end

theorem one_le_halfLife [Interp] {K : Type} (v : FreshnessVariables K) (iocType : Text) : 1 ≤ getFreshnessHalfLifeDays v iocType := by
  rw [getFreshnessHalfLifeDays]
  split
  next => exact le_max_left _ _
  next =>
    rw [defaultHalfLife]
    split_ifs <;> decide

section
variable {K : Type} [Field K] [LinearOrder K]

theorem levelIndex_score_mono {x y : K} (h : x ≤ y) :
    levelIndex (scoreToConfidenceLevel x) ≤ levelIndex (scoreToConfidenceLevel y) := by
  have hhigh : levelIndex "high".toList = 2 := by decide
  have hmedium : levelIndex "medium".toList = 1 := by decide
  have hlow : levelIndex "low".toList = 0 := by decide
  rw [scoreToConfidenceLevel, scoreToConfidenceLevel]
  by_cases hx : 65 / 100 ≤ x
  · rw [if_pos hx, if_pos (hx.trans h)]
  · by_cases hx' : 40 / 100 ≤ x
    · rw [if_neg hx, if_pos hx', if_pos (hx'.trans h)]
      split
      next => rw [hmedium, hhigh]; decide
      next => exact le_refl _
    · rw [if_neg hx, if_neg hx', hlow]
      exact Nat.zero_le _

variable [IsStrictOrderedRing K]

theorem baseScore_mem (t : Text) : 0 ≤ (baseScore t : K) ∧ (baseScore t : K) ≤ 9 / 10 := by
  rw [baseScore]
  split_ifs <;> constructor <;> norm_num

variable [Curves K]

theorem log2_one : log2 (1 : K) = 0 := by
  have h := Curves.log2_mul (K := K) zero_lt_one zero_lt_one
  rw [mul_one] at h
  linarith

theorem log2_nonneg {x : K} (h : 1 ≤ x) : 0 ≤ log2 x := by
  rw [← log2_one]
  exact Curves.log2_mono zero_lt_one h

omit [Curves K] in
theorem one_le_div_three {d : ℤ} (h : ¬d ≤ 3) : 1 ≤ (d : K) / 3 := by
  have hd : (3 : K) ≤ d := by exact_mod_cast (not_le.mp h).le
  rw [le_div_iff₀ (by norm_num)]
  linarith

theorem degreeFactor_mem (degree : ℤ) : 0 ≤ (degreeFactor degree : K) ∧ (degreeFactor degree : K) ≤ 1 := by
  rw [degreeFactor]
  by_cases h : max 0 degree ≤ 3
  · rw [if_pos h]
    exact ⟨zero_le_one, le_refl _⟩
  · have hlog := log2_nonneg (one_le_div_three (K := K) h)
    rw [if_neg h]
    exact ⟨div_nonneg zero_le_one (by linarith), (div_le_one (by linarith)).mpr (by linarith)⟩

/-- The more vulnerabilities share an indicator, the less it says. -/
theorem degreeFactor_anti {d d' : ℤ} (h : d ≤ d') : (degreeFactor d' : K) ≤ degreeFactor d := by
  have hmax : max 0 d ≤ max 0 d' := max_le_max_left 0 h
  by_cases hd : max 0 d ≤ 3
  · have hone : (degreeFactor d : K) = 1 := by rw [degreeFactor, if_pos hd]
    rw [hone]
    exact (degreeFactor_mem d').2
  · have hthree := one_le_div_three (K := K) hd
    have hcast : ((max 0 d : ℤ) : K) ≤ (max 0 d' : ℤ) := Int.cast_le.mpr hmax
    have hdiv : ((max 0 d : ℤ) : K) / 3 ≤ ((max 0 d' : ℤ) : K) / 3 := div_le_div_of_nonneg_right hcast (by norm_num)
    have hlog := Curves.log2_mono (zero_lt_one.trans_le hthree) hdiv
    have hnonneg := log2_nonneg hthree
    rw [degreeFactor, degreeFactor, if_neg hd, if_neg fun h ↦ hd (hmax.trans h)]
    exact one_div_le_one_div_of_le (by linarith) (by linarith)

/-- Eleven thirds are more than the square root of eight, so a hub keeps at most two fifths of its score. -/
theorem degreeFactor_hub {degree : ℤ} (h : 10 < degree) : (degreeFactor degree : K) ≤ 2 / 5 := by
  have heleven : (degreeFactor 11 : K) ≤ 2 / 5 := by
    have hpos : (0 : K) < 11 / 3 := by norm_num
    have height : log2 (8 : K) = 3 := by
      have hfour : log2 (2 * 2 : K) = 2 := by
        rw [Curves.log2_mul (by norm_num) (by norm_num), Curves.log2_two]
        norm_num
      have h8 : (8 : K) = 2 * 2 * 2 := by norm_num
      rw [h8, Curves.log2_mul (by norm_num) (by norm_num), hfour, Curves.log2_two]
      norm_num
    have hsquare : log2 (8 : K) ≤ log2 (11 / 3 * (11 / 3)) := Curves.log2_mono (by norm_num) (by norm_num)
    rw [height, Curves.log2_mul hpos hpos] at hsquare
    have hdef : (degreeFactor 11 : K) = 1 / (1 + log2 (11 / 3)) := by
      rw [degreeFactor, if_neg (by decide)]
      norm_num
    rw [hdef, div_le_div_iff₀ (by linarith) (by norm_num)]
    linarith
  exact (degreeFactor_anti h).trans heleven

theorem corroborationFactor_mem {k : K} (h : 1 ≤ k) : 0 ≤ corroborationFactor k ∧ corroborationFactor k ≤ 1 := by
  have hk : k ≠ 0 := (zero_lt_one.trans_le h).ne'
  have hlog : 0 ≤ log2 (1 + max 1 k) := log2_nonneg (by linarith [le_max_left 1 k])
  rw [corroborationFactor, if_neg hk]
  exact ⟨le_min zero_le_one (by linarith), min_le_left _ _⟩

theorem corroborationFactor_mono {k k' : K} (hk : 1 ≤ k) (h : k ≤ k') :
    corroborationFactor k ≤ corroborationFactor k' := by
  have h0 : k ≠ 0 := (zero_lt_one.trans_le hk).ne'
  have h0' : k' ≠ 0 := (zero_lt_one.trans_le (hk.trans h)).ne'
  have hlog : log2 (1 + max 1 k) ≤ log2 (1 + max 1 k') :=
    Curves.log2_mono (by linarith [le_max_left 1 k]) (by linarith [max_le_max_left 1 h])
  rw [corroborationFactor, corroborationFactor, if_neg h0, if_neg h0']
  exact min_le_min_left 1 (by linarith)

omit [Curves K] in
theorem ageDays_anti [FloorRing K] (now : ℕ) {t t' : ℕ} (h : t ≤ t') : (ageDays now t' : K) ≤ ageDays now t := by
  have hle : ((now - t' : ℤ) : K) ≤ ((now - t : ℤ) : K) := Int.cast_le.mpr (by omega)
  exact max_le_max_left 0 (div_le_div_of_nonneg_right hle (Nat.cast_nonneg _))

section
variable [FloorRing K] [Interp]

omit [FloorRing K] in
/-- Fewer vulnerabilities, a fresher observation and more sources never lower the numeric level. -/
theorem numericEdgeLevel_mono (iocType : Text) {degree degree' : ℤ} {fresh fresh' k k' : K} (hdegree : degree' ≤ degree)
    (hnonneg : 0 ≤ fresh) (hfresh : fresh ≤ fresh') (hk : 1 ≤ k) (hle : k ≤ k') :
    levelIndex (numericEdgeLevel iocType degree fresh k) ≤ levelIndex (numericEdgeLevel iocType degree' fresh' k') := by
  have hbase := (baseScore_mem (K := K) (addressType (upper iocType))).1
  have hd := (degreeFactor_mem (K := K) degree).1
  have hd' := (degreeFactor_mem (K := K) degree').1
  have hc := (corroborationFactor_mem hk).1
  apply levelIndex_score_mono
  calc baseScore (addressType (upper iocType)) * degreeFactor degree * fresh * corroborationFactor k
      ≤ baseScore (addressType (upper iocType)) * degreeFactor degree' * fresh * corroborationFactor k :=
        mul_le_mul_of_nonneg_right (mul_le_mul_of_nonneg_right
          (mul_le_mul_of_nonneg_left (degreeFactor_anti hdegree) hbase) hnonneg) hc
    _ ≤ baseScore (addressType (upper iocType)) * degreeFactor degree' * fresh' * corroborationFactor k :=
        mul_le_mul_of_nonneg_right (mul_le_mul_of_nonneg_left hfresh (mul_nonneg hbase hd')) hc
    _ ≤ baseScore (addressType (upper iocType)) * degreeFactor degree' * fresh' * corroborationFactor k' :=
        mul_le_mul_of_nonneg_left (corroborationFactor_mono hk hle)
          (mul_nonneg (mul_nonneg hbase hd') (hnonneg.trans hfresh))

omit [FloorRing K] in
/-- No hub scores more than low. -/
theorem numericEdgeLevel_hub (iocType : Text) {degree : ℤ} {fresh k : K} (hdegree : 10 < degree) (h0 : 0 ≤ fresh)
    (h1 : fresh ≤ 1) (hk : 1 ≤ k) : numericEdgeLevel iocType degree fresh k = "low".toList := by
  obtain ⟨hbase, hbase'⟩ := baseScore_mem (K := K) (addressType (upper iocType))
  obtain ⟨hd, -⟩ := degreeFactor_mem (K := K) degree
  obtain ⟨hc, hc'⟩ := corroborationFactor_mem hk
  have hscore : baseScore (addressType (upper iocType)) * degreeFactor degree * fresh * corroborationFactor k < 4 / 10 :=
    calc baseScore (addressType (upper iocType)) * degreeFactor degree * fresh * corroborationFactor k
        ≤ 9 / 10 * (2 / 5) * 1 * 1 :=
          mul_le_mul (mul_le_mul (mul_le_mul hbase' (degreeFactor_hub hdegree) hd (by norm_num)) h1 h0 (by norm_num))
            hc' hc (by norm_num)
      _ < 4 / 10 := by norm_num
  have hfour : (40 / 100 : K) = 4 / 10 := by norm_num
  have hhigh : ¬(65 / 100 : K) ≤
      baseScore (addressType (upper iocType)) * degreeFactor degree * fresh * corroborationFactor k := by
    intro h
    have hlt := h.trans_lt hscore
    norm_num at hlt
  rw [numericEdgeLevel, scoreToConfidenceLevel, if_neg hhigh, if_neg (by rw [hfour]; exact not_le.mpr hscore)]

theorem freshnessMultiplier_mem {v : FreshnessVariables K} {iocType : Text} {age factor : K}
    (h : freshnessMultiplier v iocType age = .ok factor) : 0 ≤ factor ∧ factor ≤ 1 := by
  rw [freshnessMultiplier, getFreshnessFloor] at h
  cases hf : v.floor with
  | error e =>
    rw [hf] at h
    cases h
  | ok floor =>
    rw [hf] at h
    obtain rfl := Except.ok.inj h
    have hhalf : half (max 0 age / ((getFreshnessHalfLifeDays v iocType : ℤ) : K)) ≤ 1 := by
      rw [← Curves.half_zero (K := K)]
      apply Curves.half_anti
      apply div_nonneg (le_max_left 0 age)
      exact_mod_cast zero_le_one.trans (one_le_halfLife v iocType)
    exact ⟨le_max_of_le_left (le_max_left 0 _), max_le (max_le zero_le_one (min_le_left 1 _)) hhalf⟩

theorem freshnessMultiplier_anti {v : FreshnessVariables K} {iocType : Text} {age age' factor factor' : K}
    (h : freshnessMultiplier v iocType age = .ok factor) (h' : freshnessMultiplier v iocType age' = .ok factor')
    (hage : age ≤ age') : factor' ≤ factor := by
  rw [freshnessMultiplier, getFreshnessFloor] at h h'
  cases hf : v.floor with
  | error e =>
    rw [hf] at h
    cases h
  | ok floor =>
    rw [hf] at h h'
    obtain rfl := Except.ok.inj h
    obtain rfl := Except.ok.inj h'
    apply max_le_max_left
    apply Curves.half_anti
    apply div_le_div_of_nonneg_right (max_le_max_left 0 hage)
    exact_mod_cast zero_le_one.trans (one_le_halfLife v iocType)

variable [Iso]

omit [IsStrictOrderedRing K] in
/-- An observation that could be read decides by its age. -/
theorem freshnessContext_observed {v : FreshnessVariables K} {iocType : Text} {observedAt ingestedAt : Option Text}
    {now t : ℕ} {f : Freshness K} (h : freshnessContext v iocType observedAt ingestedAt now = .ok f)
    (ht : parseDt observedAt = .ok (some t)) :
    ∃ factor, freshnessMultiplier v iocType (ageDays now t) = .ok factor ∧ f.factor = roundTo 10000 factor := by
  rw [freshnessContext, ht, ok_bind] at h
  cases hi : parseDt ingestedAt with
  | error e =>
    rw [hi] at h
    cases h
  | ok ingested =>
    rw [hi, ok_bind] at h
    cases hm : freshnessMultiplier v iocType (ageDays now t) with
    | error e =>
      simp only [hm] at h
      cases h
    | ok factor =>
      simp only [hm, ok_bind] at h
      obtain rfl := Except.ok.inj h
      exact ⟨factor, rfl, rfl⟩

/-- Without one nothing has aged. -/
theorem freshnessContext_unobserved {v : FreshnessVariables K} {iocType : Text} {observedAt ingestedAt : Option Text}
    {now : ℕ} {f : Freshness K} (h : freshnessContext v iocType observedAt ingestedAt now = .ok f)
    (ho : parseDt observedAt = .ok none) : f.factor = 1 := by
  have hone : roundTo 10000 (1 : K) = 1 := by
    have h1 : roundTo 10000 ((1 : ℕ) : K) = (1 : ℕ) := roundTo_natCast (by decide) 1
    rwa [Nat.cast_one] at h1
  rw [freshnessContext, ho, ok_bind] at h
  cases hi : parseDt ingestedAt with
  | error e =>
    rw [hi] at h
    cases h
  | ok ingested =>
    rw [hi, ok_bind] at h
    cases ingested with
    | none =>
      obtain rfl := Except.ok.inj h
      rfl
    | some t =>
      cases hm : freshnessMultiplier v iocType (ageDays now t) with
      | error e =>
        simp only [hm] at h
        cases h
      | ok factor =>
        simp only [hm, ok_bind] at h
        obtain rfl := Except.ok.inj h
        exact hone

theorem freshnessContext_mem {v : FreshnessVariables K} {iocType : Text} {observedAt ingestedAt : Option Text}
    {now : ℕ} {f : Freshness K} (h : freshnessContext v iocType observedAt ingestedAt now = .ok f) :
    0 ≤ f.factor ∧ f.factor ≤ 1 := by
  cases ho : parseDt observedAt with
  | error e =>
    rw [freshnessContext, ho] at h
    cases h
  | ok observed =>
    cases observed with
    | none =>
      rw [freshnessContext_unobserved h ho]
      exact ⟨zero_le_one, le_refl 1⟩
    | some t =>
      obtain ⟨factor, hm, hf⟩ := freshnessContext_observed h ho
      obtain ⟨h0, h1⟩ := freshnessMultiplier_mem hm
      rw [hf]
      have hmem : 0 ≤ roundTo 10000 factor ∧ roundTo 10000 factor ≤ ((1 : ℕ) : K) :=
        roundTo_mem (by decide) h0 (by rwa [Nat.cast_one])
      rwa [Nat.cast_one] at hmem

/-- Of two observations the older one is not fresher. -/
theorem freshnessContext_anti {v : FreshnessVariables K} {iocType : Text} {observedAt observedAt' : Option Text}
    {ingestedAt : Option Text} {now t t' : ℕ} {f f' : Freshness K}
    (h : freshnessContext v iocType observedAt ingestedAt now = .ok f)
    (h' : freshnessContext v iocType observedAt' ingestedAt now = .ok f')
    (ht : parseDt observedAt = .ok (some t)) (ht' : parseDt observedAt' = .ok (some t')) (hle : t ≤ t') :
    f.factor ≤ f'.factor := by
  obtain ⟨factor, hm, hf⟩ := freshnessContext_observed h ht
  obtain ⟨factor', hm', hf'⟩ := freshnessContext_observed h' ht'
  rw [hf, hf']
  exact roundTo_mono (freshnessMultiplier_anti hm' hm (ageDays_anti now hle))

end

end

end Briefr.Correlation
