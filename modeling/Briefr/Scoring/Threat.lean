import Briefr.Scoring.Priority
import Briefr.Scoring.Risk

namespace Briefr.Scoring.Threat

open Briefr.Python Briefr.Library.RoundHalfEven AssetMatch Risk
open Briefr.Scoring.Priority (ThreatBand)

def version : Text := "threat-1.0"

def kevFloor : ℚ := 80

def weightKev : ℚ := 25 / 100 / (65 / 100)

def weightEpss : ℚ := 15 / 100 / (65 / 100)

def weightExploit : ℚ := 10 / 100 / (65 / 100)

def weightCvss : ℚ := 10 / 100 / (65 / 100)

def weightMomentum : ℚ := 5 / 100 / (65 / 100)

def threatBand (score : ℚ) : ThreatBand :=
  if 80 ≤ score then .crit else if 60 ≤ score then .high else if 40 ≤ score then .med else .low

structure ThreatScore where
  version : Text
  score : ℚ
  band : ThreatBand
  components : List Component
  kevFloorApplied : Bool
  additiveScore : ℚ

def threatComponents (raw : RawScores) : List Component :=
  [⟨"kev", raw.kev, weightKev⟩, ⟨"epss", raw.epss, weightEpss⟩, ⟨"exploit", raw.exploit, weightExploit⟩,
    ⟨"cvss", raw.cvss, weightCvss⟩, ⟨"momentum", raw.momentum, weightMomentum⟩]

def additiveScore (raw : RawScores) : ℚ := roundTo 10 (weightedSum (threatComponents raw) * 100)

def withFloor (isKev : Bool) (additive : ℚ) : ℚ := if isKev then max additive kevFloor else additive

def threatScoreOf (isKev : Bool) (raw : RawScores) : ThreatScore :=
  let additive := additiveScore raw
  let score := roundTo 10 (withFloor isKev additive)
  { version := version
    score := score
    band := threatBand score
    components := threatComponents raw
    -- the flag is set before the second rounding
    kevFloorApplied := isKev && decide (additive < withFloor isKev additive)
    additiveScore := additive }

section
variable [Interp] [Floats Number] [Dates]

/-- An empty `dict` has no score. -/
def calculateThreatScore (today : ℤ) (cve : Dict) (momentumScore : ℚ) : Py (Option ThreatScore) :=
  if cve.isEmpty then .ok none
  else do return some (threatScoreOf (boolish (cve.get "is_kev")) (← rawScores today cve momentumScore))

def severity : ThreatBand → ℕ
  | .crit => 3
  | .high => 2
  | .med => 1
  | _ => 0

/-- In range, critical where the CVE is catalogued, and the flag says what the floor did. -/
structure Sound (isKev : Bool) (t : ThreatScore) : Prop where
  nonneg : 0 ≤ t.score
  le_hundred : t.score ≤ 100
  kev : isKev = true → 80 ≤ t.score ∧ t.band = .crit
  floor : t.kevFloorApplied = true ↔ t.additiveScore < t.score

section
omit [Interp] [Floats Number] [Dates]

theorem threatBand_mono {x y : ℚ} (h : x ≤ y) : severity (threatBand x) ≤ severity (threatBand y) := by
  rw [threatBand, threatBand]
  by_cases h80 : 80 ≤ x
  · rw [if_pos h80, if_pos (h80.trans h)]
  rw [if_neg h80]
  by_cases h60 : 60 ≤ x
  · rw [if_pos h60, if_pos (h60.trans h)]
    split <;> decide
  rw [if_neg h60]
  by_cases h40 : 40 ≤ x
  · rw [if_pos h40, if_pos (h40.trans h)]
    split_ifs <;> decide
  · rw [if_neg h40]
    exact Nat.zero_le _

theorem additiveScore_mem {raw : RawScores} (h : raw.Unit) : 0 ≤ additiveScore raw ∧ additiveScore raw ≤ 100 := by
  have hunit : ∀ c ∈ threatComponents raw, 0 ≤ c.weight ∧ 0 ≤ c.raw ∧ c.raw ≤ 1 := by
    simp only [threatComponents, List.forall_mem_cons, List.not_mem_nil, false_implies, implies_true, and_true]
    exact ⟨⟨by norm_num [weightKev], h.kev⟩, ⟨by norm_num [weightEpss], h.epss⟩, ⟨by norm_num [weightExploit], h.exploit⟩,
      ⟨by norm_num [weightCvss], h.cvss⟩, ⟨by norm_num [weightMomentum], h.momentum⟩⟩
  -- the weights of the other score without the asset weight, brought back to a sum of one
  have hweights : ((threatComponents raw).map Component.weight).sum = 1 := by
    norm_num [threatComponents, weightKev, weightEpss, weightExploit, weightCvss, weightMomentum]
  obtain ⟨h0, h1⟩ := weightedSum_unit hunit
  exact percent_mem h0 (hweights ▸ h1)

theorem additiveScore_mono {raw raw' : RawScores} (h : raw.Le raw') : additiveScore raw ≤ additiveScore raw' := by
  apply percent_mono
  apply weightedSum_mono
  have hle : ∀ {key : Text} {w x y : ℚ}, 0 ≤ w → x ≤ y → Component.Le ⟨key, x, w⟩ ⟨key, y, w⟩ := fun hw hxy ↦ ⟨rfl, hw, hxy⟩
  exact .cons (hle (by norm_num [weightKev]) h.kev) <| .cons (hle (by norm_num [weightEpss]) h.epss) <|
    .cons (hle (by norm_num [weightExploit]) h.exploit) <| .cons (hle (by norm_num [weightCvss]) h.cvss) <|
    .cons (hle (by norm_num [weightMomentum]) h.momentum) .nil

theorem roundTo_kevFloor : roundTo 10 kevFloor = kevFloor := roundTo_natCast (by decide) 80

/-- The second rounding changes nothing: both numbers that the floor chooses between have one decimal. -/
theorem score_eq (isKev : Bool) (raw : RawScores) :
    (threatScoreOf isKev raw).score = withFloor isKev (additiveScore raw) := by
  have hadd : roundTo 10 (additiveScore raw) = additiveScore raw := roundTo_roundTo (by decide) _
  change roundTo 10 (withFloor isKev (additiveScore raw)) = withFloor isKev (additiveScore raw)
  rw [withFloor]
  split
  · rcases max_choice (additiveScore raw) kevFloor with h | h
    · rw [h, hadd]
    · rw [h, roundTo_kevFloor]
  · exact hadd

theorem withFloor_mono {isKev isKev' : Bool} (hk : isKev = true → isKev' = true) {x y : ℚ} (h : x ≤ y) :
    withFloor isKev x ≤ withFloor isKev' y := by
  rw [withFloor, withFloor]
  by_cases hkev : isKev = true
  · rw [if_pos hkev, if_pos (hk hkev)]
    exact max_le_max h (le_refl _)
  · rw [if_neg hkev]
    split
    · exact h.trans (le_max_left _ _)
    · exact h

theorem threatScoreOf_sound {isKev : Bool} {raw : RawScores} (h : raw.Unit) : Sound isKev (threatScoreOf isKev raw) := by
  obtain ⟨h0, h100⟩ := additiveScore_mem h
  have hscore := score_eq isKev raw
  have hge : additiveScore raw ≤ withFloor isKev (additiveScore raw) := by
    rw [withFloor]
    split
    · exact le_max_left _ _
    · exact le_refl _
  have hkev : isKev = true → 80 ≤ (threatScoreOf isKev raw).score := by
    intro hk
    rw [hscore, withFloor, if_pos hk]
    exact le_max_right _ _
  constructor
  · rw [hscore]
    exact h0.trans hge
  · rw [hscore, withFloor]
    split
    · exact max_le h100 (by norm_num [kevFloor])
    · exact h100
  · exact fun hk ↦ ⟨hkev hk, if_pos (hkev hk)⟩
  · rw [hscore]
    change (isKev && decide (additiveScore raw < withFloor isKev (additiveScore raw))) = true ↔ additiveScore raw < _
    rw [Bool.and_eq_true, decide_eq_true_iff]
    constructor
    · exact fun hlt ↦ hlt.2
    · intro hlt
      refine ⟨?_, hlt⟩
      by_contra hk
      rw [withFloor, if_neg hk] at hlt
      exact lt_irrefl _ hlt

end

theorem calculateThreatScore_eq_some {today : ℤ} {cve : Dict} {m : ℚ} {t : ThreatScore} :
    calculateThreatScore today cve m = .ok (some t) ↔
      cve ≠ [] ∧ ∃ raw, rawScores today cve m = .ok raw ∧ threatScoreOf (boolish (cve.get "is_kev")) raw = t := by
  rw [calculateThreatScore]
  cases cve with
  | nil => simp
  | cons field cve => simp [bind_eq_ok]

theorem calculateRiskScore_eq_some {today : ℤ} {cve : Dict} {profile : Option Dict} {backend : Option ℕ} {m : ℚ}
    {r : RiskScore} {asset : ℕ} {label : Text} (ha : resolveAssetComponent cve profile backend = .ok (asset, label))
    (h : calculateRiskScore today cve profile backend m = .ok (some r)) :
    ∃ raw, rawScores today cve m = .ok raw ∧ r.total = riskTotal asset raw := by
  rw [calculateRiskScore] at h
  split at h
  · cases h
  · rw [ha] at h
    simp only [bind_eq_ok, pure_eq_ok, Except.ok.injEq, Option.some.injEq] at h
    obtain ⟨_, rfl, raw, hraw, sentences, -, rfl⟩ := h
    exact ⟨raw, hraw, rfl⟩

/-- Both scores are in range and neither falls when a CVE is raised. -/
theorem scores_bounded_and_monotone (today : ℤ) :
    (∀ cve m, Scorable cve →
      ∃ t, calculateThreatScore today cve m = .ok (some t) ∧ Sound (boolish (cve.get "is_kev")) t) ∧
    (∀ cve cve' m m' t t', Raised cve cve' → m ≤ m' → calculateThreatScore today cve m = .ok (some t) →
      calculateThreatScore today cve' m' = .ok (some t') → t.score ≤ t'.score ∧ severity t.band ≤ severity t'.band) ∧
    (∀ cve profile backend m asset label, Scorable cve → resolveAssetComponent cve profile backend = .ok (asset, label) →
      ∃ r, calculateRiskScore today cve profile backend m = .ok (some r) ∧ 0 ≤ r.total ∧ r.total ≤ 100) ∧
    (∀ cve cve' profile profile' backend backend' m m' asset label label' r r', Raised cve cve' → m ≤ m' →
      resolveAssetComponent cve profile backend = .ok (asset, label) →
      resolveAssetComponent cve' profile' backend' = .ok (asset, label') →
      calculateRiskScore today cve profile backend m = .ok (some r) →
      calculateRiskScore today cve' profile' backend' m' = .ok (some r') → r.total ≤ r'.total) := by
  refine ⟨?_, ?_, ?_, ?_⟩
  · intro cve m h
    obtain ⟨raw, hraw, hunit, -⟩ := rawScores_unit h today m
    exact ⟨_, calculateThreatScore_eq_some.mpr ⟨h.nonempty, raw, hraw, rfl⟩, threatScoreOf_sound hunit⟩
  · intro cve cve' m m' t t' hr hm ht ht'
    obtain ⟨-, raw, hraw, rfl⟩ := calculateThreatScore_eq_some.mp ht
    obtain ⟨-, raw', hraw', rfl⟩ := calculateThreatScore_eq_some.mp ht'
    have hle : (threatScoreOf (boolish (cve.get "is_kev")) raw).score ≤
        (threatScoreOf (boolish (cve'.get "is_kev")) raw').score := by
      rw [score_eq, score_eq]
      exact withFloor_mono hr.kev (additiveScore_mono (rawScores_mono hr hm hraw hraw'))
    exact ⟨hle, threatBand_mono hle⟩
  · intro cve profile backend m asset label h ha
    obtain ⟨raw, r, -, hunit, hr, htotal⟩ := calculateRiskScore_ok h today m ha
    exact ⟨r, hr, htotal ▸ riskTotal_mem (resolveAssetComponent_le ha) hunit⟩
  · intro cve cve' profile profile' backend backend' m m' asset label label' r r' hr hm ha ha' h h'
    obtain ⟨raw, hraw, htotal⟩ := calculateRiskScore_eq_some ha h
    obtain ⟨raw', hraw', htotal'⟩ := calculateRiskScore_eq_some ha' h'
    rw [htotal, htotal']
    exact riskTotal_mono (rawScores_mono hr hm hraw hraw')

end

section
local instance threatInterp : Interp := ascii fun _ ↦ none

local instance threatFloats : Floats Number where
  float
    | .num shown _ => if shown = "0.9".toList then .value (.finite (9 / 10)) else .value (.finite (1 / 10))
    | _ => .valueError
  float_str _ h := nomatch h

local instance threatDates : Dates := ⟨fun _ ↦ none, fun _ ↦ none⟩

def lowEpss : Dict := [("epss_score".toList, .num "0.1".toList false)]

def catalogued : Dict := [("epss_score".toList, .num "0.9".toList false), ("is_kev".toList, .bool true)]

theorem scorable_catalogued : Scorable lowEpss ∧ Scorable catalogued := by
  constructor
  · exact ⟨nofun, .inr ⟨1 / 10, rfl, by norm_num, by norm_num⟩, .inl rfl, ⟨[], rfl⟩, ⟨[], rfl⟩⟩
  · exact ⟨nofun, .inr ⟨9 / 10, rfl, by norm_num, by norm_num⟩, .inl rfl, ⟨[], rfl⟩, ⟨[], rfl⟩⟩

theorem raised_catalogued : Raised lowEpss catalogued where
  same key hkey := by
    simp only [raisable, List.mem_cons, not_or] at hkey
    have hepss : (key == "epss_score".toList) = false := beq_eq_false_iff_ne.mpr hkey.1
    have hkev : (key == "is_kev".toList) = false := beq_eq_false_iff_ne.mpr hkey.2.2.2.2.1
    simp only [Dict.get, lowEpss, catalogued, List.lookup_cons, hepss, hkev]
  epss q q' h h' := by
    obtain rfl : 1 / 10 = q := Except.ok.inj h
    obtain rfl : 9 / 10 = q' := Except.ok.inj h'
    norm_num
  cvss q q' h h' := (Except.ok.inj (h.symm.trans h')).le
  exploits l l' h h' := by
    obtain rfl : l = l' := Except.ok.inj (h.symm.trans h')
    exact List.Sublist.refl _
  urls l l' h h' := by
    obtain rfl : l = l' := Except.ok.inj (h.symm.trans h')
    exact List.Sublist.refl _
  kev h := nomatch h
  exploited h := nomatch h

theorem catalogued_not_lower : ∃ t t', calculateThreatScore 0 lowEpss 0 = .ok (some t) ∧
    calculateThreatScore 0 catalogued 0 = .ok (some t') ∧ t.score ≤ t'.score ∧ 80 ≤ t'.score := by
  obtain ⟨hbounds, hmono, -⟩ := scores_bounded_and_monotone 0
  obtain ⟨t, ht, -⟩ := hbounds lowEpss 0 scorable_catalogued.1
  obtain ⟨t', ht', hsound⟩ := hbounds catalogued 0 scorable_catalogued.2
  exact ⟨t, t', ht, ht', (hmono _ _ _ _ t t' raised_catalogued (le_refl 0) ht ht').1, (hsound.kev rfl).1⟩

/-- An empty `dict` has no score, and one whose exploits cannot be iterated raises. -/
theorem empty_has_no_score : calculateThreatScore 0 [] 0 = .ok none ∧
    calculateThreatScore 0 [("public_exploits".toList, .num "5".toList false)] 0 = .error .typeError ∧
    ¬∀ cve m, Within (cve.get "epss_score") 1 → Within (cve.get "cvss_score") 10 →
      ∃ t, calculateThreatScore 0 cve m = .ok (some t) := by
  refine ⟨rfl, rfl, fun h ↦ ?_⟩
  obtain ⟨t, ht⟩ := h [] 0 (.inl rfl) (.inl rfl)
  cases ht

end

end Briefr.Scoring.Threat
