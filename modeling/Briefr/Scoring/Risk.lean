import Mathlib.Data.Rat.Floor
import Briefr.Library.RoundHalfEven
import Briefr.Python.Keywords
import Briefr.Scoring.AssetMatch

namespace Briefr.Scoring.Risk

open Briefr.Python Briefr.Library.RoundHalfEven AssetMatch

def weightAsset : ℚ := 35 / 100

def weightKev : ℚ := 25 / 100

def weightEpss : ℚ := 15 / 100

def weightExploit : ℚ := 10 / 100

def weightCvss : ℚ := 10 / 100

def weightMomentum : ℚ := 5 / 100

/-- What `float` gives, with the numbers themselves exact. -/
inductive Number
  | finite (q : ℚ)
  | nan
  | infinite (negative : Bool)

/-- `date.fromisoformat` and the day of `datetime.fromisoformat`, as ordinals. Their `none` is a `ValueError`. -/
class Dates where
  dateFromIsoformat : Text → Option ℤ
  datetimeFromIsoformat : Text → Option ℤ

export Dates (dateFromIsoformat datetimeFromIsoformat)

/-- A tier that is reached more easily, over tiers that are themselves reached more easily. -/
theorem tier_le {p p' : Prop} [Decidable p] [Decidable p'] {a b b' : ℚ} (hp : p → p') (ha : b ≤ a) (hb : b ≤ b') :
    (if p then a else b) ≤ if p' then a else b' := by
  by_cases h : p
  · rw [if_pos h, if_pos (hp h)]
  · rw [if_neg h]
    by_cases h' : p'
    · rwa [if_pos h']
    · rwa [if_neg h']

variable [Interp] [Floats Number] [Dates]

def parseDate (value : Value) : Option ℤ :=
  let text := if value.truthy then strip (str value) else []
  if text = [] then none
  else
    let day := if 10 ≤ text.length ∧ text[4]? = some '-' ∧ text[7]? = some '-' then dateFromIsoformat (text.take 10) else none
    day.orElse fun _ ↦ datetimeFromIsoformat (text.flatMap fun c ↦ if c = 'Z' then "+00:00".toList else [c])

def daysSince (today : ℤ) (value : Value) : Option ℤ := (parseDate value).map (today - ·)

/-- `value is True or value == 1 or value == "1" or value == "true"`. -/
def boolish : Value → Bool
  | .bool b => b
  | .num shown _ => decide (shown = "1".toList ∨ shown = "1.0".toList)
  | .str s => decide (s = "1".toList ∨ s = "true".toList)
  | _ => false

/-- `float(value)` where nothing catches it. -/
def floatOf (value : Value) : Py Number :=
  match float value with
  | .value n => .ok n
  | .valueError => .error (if value.isStr then .valueError else .typeError)
  | .overflowError => .error .overflowError

/-- `_num` with the fallback 0. An infinite number is returned by it and then fails in `round`. -/
def num (value : Value) : Py ℚ :=
  match value with
  | .none | .str [] => .ok 0
  | value =>
    match float value with
    | .value (.finite q) => .ok q
    | .value .nan | .valueError => .ok 0
    | .value (.infinite _) | .overflowError => .error .overflowError

def kevScoreV11b (today : ℤ) (cve : Dict) : ℚ :=
  if boolish (cve.get "is_kev") then
    match daysSince today (cve.get "kev_date_added") with
    | none => 84 / 100
    | some days => if days ≤ 7 then 1 else if days ≤ 30 then 94 / 100 else if days ≤ 90 then 88 / 100 else 84 / 100
  else if boolish (cve.get "is_vulncheck_exploited") then 72 / 100
  else 0

/-- The types of the exploits that are a `dict`. -/
def exploitTypes (exploits : List Value) : List Text :=
  exploits.filterMap fun
    | .dict e => some (lower (strOr (Dict.get e "type")))
    | _ => none

def exploitLines (exploits : List Value) : List Text :=
  exploits.filterMap fun
    | .dict e => some (strOr (Dict.get e "title") ++ ' ' :: strOr (Dict.get e "source") ++ ' ' :: strOr (Dict.get e "url"))
    | _ => none

def urlBlob (urls exploits : List Value) : Text := lower (List.intercalate [' '] (urls.map str ++ exploitLines exploits))

/-- The tiers of `_exploit_score_v11b`, for the exploits that are not falsy. -/
def exploitTier (hasPoc : Bool) (urls exploits : List Value) : ℚ :=
  let types := exploitTypes exploits
  let blob := urlBlob urls exploits
  if "metasploit".toList ∈ types ∨ isIn "metasploit" blob = true then 1
  else if (∃ t ∈ types, t = "weaponised".toList ∨ t = "weaponized".toList) ∨
      ∃ h ∈ ["weaponized".toList, "weaponised".toList, "in-the-wild".toList], isIn h blob = true then 88 / 100
  else if "poc".toList ∈ types then 55 / 100
  else if hasPoc = true ∨ exploits ≠ [] then 35 / 100
  else 0

def exploitScoreV11b (cve : Dict) : Py ℚ := do
  let exploits ← items cve "public_exploits"
  let urls ← items cve "source_urls"
  return exploitTier (cve.get "has_poc").truthy urls (exploits.filter Value.truthy)

/-- The raw scores that do not depend on the assets. -/
structure RawScores where
  kev : ℚ
  epss : ℚ
  exploit : ℚ
  cvss : ℚ
  momentum : ℚ

def rawScores (today : ℤ) (cve : Dict) (momentumScore : ℚ) : Py RawScores := do
  let epss ← num (cve.get "epss_score")
  let exploit ← exploitScoreV11b cve
  let cvss ← num (cve.get "cvss_score")
  return ⟨kevScoreV11b today cve, epss, exploit, cvss / 10, max 0 (min 1 momentumScore)⟩

/-- A component of a score; `points` rounds it on its own. -/
structure Component where
  key : Text
  raw : ℚ
  weight : ℚ

def Component.points (c : Component) : ℚ := roundTo 10 (c.raw * c.weight * 100)

def weightedSum (components : List Component) : ℚ := (components.map fun c ↦ c.raw * c.weight).sum

/-- `f"{x:.1f}"`. -/
def oneDecimal (x : ℚ) : Text :=
  let tenths := (roundHalfEven (x * 10)).natAbs
  (if x < 0 then ['-'] else []) ++ (toString (tenths / 10)).toList ++ '.' :: (toString (tenths % 10)).toList

def Number.shown (scale : ℚ) : Number → Text
  | .finite q => oneDecimal (q * scale)
  | .nan => "nan".toList
  | .infinite negative => if negative then "-inf".toList else "inf".toList

structure Sentences where
  asset : Text
  kev : Text
  epss : Text
  exploit : Text
  cvss : Text
  momentum : Text

def assetSentence (profile : Option Dict) (assetMatchType : Text) : Text :=
  if !present profile then "Load an asset profile for personalised scoring"
  else if assetMatchType ≠ [] ∧ assetMatchType ≠ noMatchLabel then assetMatchType
  else "No matching assets found in your profile"

def kevSentence (today : ℤ) (cve : Dict) : Text :=
  if !boolish (cve.get "is_kev") then "Not listed in CISA Known Exploited Vulnerabilities catalogue"
  else
    match daysSince today (cve.get "kev_date_added") with
    | none => "Listed in CISA Known Exploited Vulnerabilities catalogue"
    | some days =>
      if days = 0 then "Added to CISA KEV today — immediate priority"
      else if days = 1 then "Added to CISA KEV yesterday"
      else if days ≤ 30 then "Added to CISA KEV ".toList ++ (toString days).toList ++ " days ago".toList
      else if days / 7 = 1 then "Listed in CISA KEV for over a week"
      else "Listed in CISA KEV for ".toList ++ (toString (days / 7)).toList ++ " weeks".toList

def epssSentence (cve : Dict) : Py Text :=
  if (cve.get "epss_score").isNone then .ok "No EPSS data available for this CVE"
  else do return (← floatOf (cve.get "epss_score")).shown 100 ++ "% exploitation probability".toList

def exploitSource (exploits : List Value) : Option Value :=
  exploits.findSome? fun
    | .dict e => if (Dict.get e "source").truthy then some (Dict.get e "source") else none
    | _ => none

def exploitSentence (cve : Dict) (exploitScore : ℚ) : Py Text :=
  if 1 ≤ exploitScore then .ok "Metasploit module available — actively weaponised"
  else if 88 / 100 ≤ exploitScore then do
    match exploitSource (← items cve "public_exploits") with
    | some src => return "Weaponised exploit on ".toList ++ str src
    | none => return "Weaponised exploit available in public sources".toList
  else if 55 / 100 ≤ exploitScore then .ok "Public proof-of-concept exploit available"
  else if 0 < exploitScore then .ok "Exploit references found in public sources"
  else .ok "No public exploits identified"

def cvssSentence (cve : Dict) : Py Text :=
  if (cve.get "cvss_score").isNone then
    .ok ("Severity: ".toList ++ str ((cve.get "severity").orElse (.str "unknown".toList)))
  else do return (← floatOf (cve.get "cvss_score")).shown 1 ++ " / 10.0".toList

def momentumSentence (momentum : ℚ) : Text :=
  if 0 < momentum then "Threat momentum active — score raised by active signals"
  else "No recent threat momentum signals detected"

def buildComponentSentencesV11b (today : ℤ) (cve : Dict) (profile : Option Dict) (raw : RawScores)
    (assetMatchType : Text) : Py Sentences := do
  let epss ← epssSentence cve
  let exploit ← exploitSentence cve raw.exploit
  let cvss ← cvssSentence cve
  return ⟨assetSentence profile assetMatchType, kevSentence today cve, epss, exploit, cvss, momentumSentence raw.momentum⟩

/-- The result of `calculate_risk_score`, whose `score` is the total once more. -/
structure RiskScore where
  version : Text
  total : ℚ
  components : List Component
  sentences : Sentences
  assetMatchType : Text
  hasProfile : Bool
  momentumScore : ℚ

def riskComponents (asset : ℕ) (raw : RawScores) : List Component :=
  [⟨"asset", asset / 100, weightAsset⟩, ⟨"kev", raw.kev, weightKev⟩, ⟨"epss", raw.epss, weightEpss⟩,
    ⟨"exploit", raw.exploit, weightExploit⟩, ⟨"cvss", raw.cvss, weightCvss⟩, ⟨"momentum", raw.momentum, weightMomentum⟩]

def riskTotal (asset : ℕ) (raw : RawScores) : ℚ := roundTo 10 (weightedSum (riskComponents asset raw) * 100)

/-- An empty `dict` has no score. -/
def calculateRiskScore (today : ℤ) (cve : Dict) (profile : Option Dict) (backendMatchScore : Option ℕ)
    (momentumScore : ℚ) : Py (Option RiskScore) :=
  if cve.isEmpty then .ok none
  else do
    let (asset, assetMatchType) ← resolveAssetComponent cve profile backendMatchScore
    let raw ← rawScores today cve momentumScore
    let sentences ← buildComponentSentencesV11b today cve profile raw assetMatchType
    return some ⟨"1.1b", riskTotal asset raw, riskComponents asset raw, sentences, assetMatchType, profile.isSome, raw.momentum⟩

/-- Absent, or a number from 0 to `top`. -/
def Within (value : Value) (top : ℚ) : Prop := value = .none ∨ ∃ q, float value = .value (.finite q) ∧ 0 ≤ q ∧ q ≤ top

/-- A CVE with something in it, its scores in their ranges and its lists such that a loop can read them. -/
structure Scorable (cve : Dict) : Prop where
  nonempty : cve ≠ []
  epss : Within (cve.get "epss_score") 1
  cvss : Within (cve.get "cvss_score") 10
  exploits : ∃ l, items cve "public_exploits" = .ok l
  urls : ∃ l, items cve "source_urls" = .ok l

/-- What may differ when one CVE is the other one raised. -/
def raisable : List Text :=
  ["epss_score".toList, "cvss_score".toList, "public_exploits".toList, "source_urls".toList, "is_kev".toList,
    "is_vulncheck_exploited".toList]

/-- The scores are raised, exploits or links added or a flag set, and all else is equal. -/
structure Raised (cve cve' : Dict) : Prop where
  same : ∀ key, key ∉ raisable → cve'.get key = cve.get key
  epss : ∀ q q', num (cve.get "epss_score") = .ok q → num (cve'.get "epss_score") = .ok q' → q ≤ q'
  cvss : ∀ q q', num (cve.get "cvss_score") = .ok q → num (cve'.get "cvss_score") = .ok q' → q ≤ q'
  exploits : ∀ l l', items cve "public_exploits" = .ok l → items cve' "public_exploits" = .ok l' → l.Sublist l'
  urls : ∀ l l', items cve "source_urls" = .ok l → items cve' "source_urls" = .ok l' → l.Sublist l'
  kev : boolish (cve.get "is_kev") = true → boolish (cve'.get "is_kev") = true
  exploited : boolish (cve.get "is_vulncheck_exploited") = true → boolish (cve'.get "is_vulncheck_exploited") = true

structure RawScores.Unit (raw : RawScores) : Prop where
  kev : 0 ≤ raw.kev ∧ raw.kev ≤ 1
  epss : 0 ≤ raw.epss ∧ raw.epss ≤ 1
  exploit : 0 ≤ raw.exploit ∧ raw.exploit ≤ 1
  cvss : 0 ≤ raw.cvss ∧ raw.cvss ≤ 1
  momentum : 0 ≤ raw.momentum ∧ raw.momentum ≤ 1

structure RawScores.Le (raw raw' : RawScores) : Prop where
  kev : raw.kev ≤ raw'.kev
  epss : raw.epss ≤ raw'.epss
  exploit : raw.exploit ≤ raw'.exploit
  cvss : raw.cvss ≤ raw'.cvss
  momentum : raw.momentum ≤ raw'.momentum

omit [Interp] [Dates] in
theorem num_within {value : Value} {top : ℚ} (h : Within value top) (htop : 0 ≤ top) :
    ∃ q, num value = .ok q ∧ 0 ≤ q ∧ q ≤ top := by
  rcases h with rfl | ⟨q, hq, h0, h1⟩
  · exact ⟨0, rfl, le_refl 0, htop⟩
  · rw [num.eq_def]
    split
    · exact ⟨0, rfl, le_refl 0, htop⟩
    · exact ⟨0, rfl, le_refl 0, htop⟩
    · rw [hq]
      exact ⟨q, rfl, h0, h1⟩

omit [Interp] [Dates] in
theorem floatOf_within {value : Value} {top : ℚ} (h : Within value top) (hn : value.isNone = false) :
    ∃ n, floatOf value = .ok n := by
  rcases h with rfl | ⟨q, hq, -, -⟩
  · cases hn
  · exact ⟨.finite q, by rw [floatOf, hq]⟩

omit [Floats Number] in
theorem kevScore_unit (today : ℤ) (cve : Dict) : 0 ≤ kevScoreV11b today cve ∧ kevScoreV11b today cve ≤ 1 := by
  rw [kevScoreV11b]
  split
  · split
    · norm_num
    · split_ifs <;> norm_num
  · split_ifs <;> norm_num

omit [Floats Number] in
theorem kevScore_of_kev {today : ℤ} {cve : Dict} (h : boolish (cve.get "is_kev") = true) :
    84 / 100 ≤ kevScoreV11b today cve := by
  rw [kevScoreV11b, if_pos h]
  split
  · exact le_refl _
  · split_ifs <;> norm_num

omit [Floats Number] in
/-- A catalogued CVE is above every other, and only the other kind moves with the second flag. -/
theorem kevScore_mono {today : ℤ} {cve cve' : Dict} (hdate : cve'.get "kev_date_added" = cve.get "kev_date_added")
    (hkev : boolish (cve.get "is_kev") = true → boolish (cve'.get "is_kev") = true)
    (hexploited : boolish (cve.get "is_vulncheck_exploited") = true → boolish (cve'.get "is_vulncheck_exploited") = true) :
    kevScoreV11b today cve ≤ kevScoreV11b today cve' := by
  by_cases h : boolish (cve.get "is_kev") = true
  · rw [kevScoreV11b, kevScoreV11b, if_pos h, if_pos (hkev h), hdate]
  · have hle : kevScoreV11b today cve ≤ 72 / 100 := by
      rw [kevScoreV11b, if_neg h]
      split_ifs <;> norm_num
    by_cases h' : boolish (cve'.get "is_kev") = true
    · have hge : 84 / 100 ≤ kevScoreV11b today cve' := kevScore_of_kev h'
      linarith
    · rw [kevScoreV11b, kevScoreV11b, if_neg h, if_neg h']
      by_cases hx : boolish (cve.get "is_vulncheck_exploited") = true
      · rw [if_pos hx, if_pos (hexploited hx)]
      · rw [if_neg hx]
        split_ifs <;> norm_num

section
omit [Floats Number] [Dates]

variable {urls urls' exploits exploits' : List Value}

theorem exploitTypes_mono (h : exploits.Sublist exploits') {t : Text} (ht : t ∈ exploitTypes exploits) :
    t ∈ exploitTypes exploits' := (h.filterMap _).subset ht

theorem isIn_urlBlob_mono (hu : urls.Sublist urls') (he : exploits.Sublist exploits') {k : Text}
    (hk : k.Forall fun c ↦ c.toNat < 128) (hs : ' ' ∉ k) (hn : k ≠ []) (h : isIn k (urlBlob urls exploits) = true) :
    isIn k (urlBlob urls' exploits') = true := by
  have hsub : (urls.map str ++ exploitLines exploits).Sublist (urls'.map str ++ exploitLines exploits') :=
    (hu.map str).append (he.filterMap _)
  rw [urlBlob, isIn_lower_join_iff (List.forall_iff_forall_mem.mp hk) hs hn] at h ⊢
  obtain ⟨p, hp, hin⟩ := h
  exact ⟨p, hsub.subset hp, hin⟩

theorem exploitTier_unit (hasPoc : Bool) (urls exploits : List Value) :
    0 ≤ exploitTier hasPoc urls exploits ∧ exploitTier hasPoc urls exploits ≤ 1 := by
  simp only [exploitTier]
  split_ifs <;> norm_num

theorem exploitTier_mono (hasPoc : Bool) (hu : urls.Sublist urls') (he : exploits.Sublist exploits') :
    exploitTier hasPoc urls exploits ≤ exploitTier hasPoc urls' exploits' := by
  simp only [exploitTier]
  apply tier_le
  · rintro (h | h)
    · exact .inl (exploitTypes_mono he h)
    · exact .inr (isIn_urlBlob_mono hu he (by decide) (by decide) (by decide) h)
  · split_ifs <;> norm_num
  apply tier_le
  · rintro (⟨t, ht, h⟩ | ⟨k, hk, h⟩)
    · exact .inl ⟨t, exploitTypes_mono he ht, h⟩
    · refine .inr ⟨k, hk, ?_⟩
      simp only [List.mem_cons, List.not_mem_nil, or_false] at hk
      rcases hk with rfl | rfl | rfl
      · exact isIn_urlBlob_mono hu he (by decide) (by decide) (by decide) h
      · exact isIn_urlBlob_mono hu he (by decide) (by decide) (by decide) h
      · exact isIn_urlBlob_mono hu he (by decide) (by decide) (by decide) h
  · split_ifs <;> norm_num
  apply tier_le (exploitTypes_mono he)
  · split_ifs <;> norm_num
  apply tier_le
  · rintro (h | h)
    · exact .inl h
    · right
      rintro rfl
      exact h (List.sublist_nil.mp he)
  · norm_num
  · exact le_refl _

end

theorem rawScores_unit {cve : Dict} (h : Scorable cve) (today : ℤ) (momentumScore : ℚ) :
    ∃ raw, rawScores today cve momentumScore = .ok raw ∧ raw.Unit ∧ raw.kev = kevScoreV11b today cve := by
  obtain ⟨epss, hepss, he0, he1⟩ := num_within h.epss zero_le_one
  obtain ⟨cvss, hcvss, hc0, hc1⟩ := num_within h.cvss (by norm_num)
  obtain ⟨exploits, hexploits⟩ := h.exploits
  obtain ⟨urls, hurls⟩ := h.urls
  let exploit := exploitTier (cve.get "has_poc").truthy urls (exploits.filter Value.truthy)
  refine ⟨⟨kevScoreV11b today cve, epss, exploit, cvss / 10, max 0 (min 1 momentumScore)⟩, ?_, ?_, rfl⟩
  · rw [rawScores, hepss, exploitScoreV11b, hexploits, hurls, hcvss]
    rfl
  · constructor
    · exact kevScore_unit today cve
    · exact ⟨he0, he1⟩
    · exact exploitTier_unit _ _ _
    · constructor
      · exact div_nonneg hc0 (by norm_num)
      · exact div_le_one_of_le₀ hc1 (by norm_num)
    · exact ⟨le_max_left _ _, max_le zero_le_one (min_le_left _ _)⟩

theorem rawScores_mono {cve cve' : Dict} (h : Raised cve cve') {today : ℤ} {m m' : ℚ} (hm : m ≤ m') {raw raw' : RawScores}
    (hr : rawScores today cve m = .ok raw) (hr' : rawScores today cve' m' = .ok raw') : raw.Le raw' := by
  simp only [rawScores, exploitScoreV11b, bind_eq_ok, pure_eq_ok, Except.ok.injEq] at hr hr'
  obtain ⟨epss, hepss, _, ⟨exploits, hexploits, urls, hurls, rfl⟩, cvss, hcvss, rfl⟩ := hr
  obtain ⟨epss', hepss', _, ⟨exploits', hexploits', urls', hurls', rfl⟩, cvss', hcvss', rfl⟩ := hr'
  constructor
  · exact kevScore_mono (h.same _ (by decide)) h.kev h.exploited
  · exact h.epss _ _ hepss hepss'
  · dsimp only
    rw [h.same "has_poc".toList (by decide)]
    exact exploitTier_mono _ (h.urls _ _ hurls hurls') ((h.exploits _ _ hexploits hexploits').filter _)
  · exact div_le_div_of_nonneg_right (h.cvss _ _ hcvss hcvss') (by norm_num)
  · exact max_le_max (le_refl 0) (min_le_min (le_refl 1) hm)

/-- The same component with a score that is not lower. -/
structure Component.Le (c c' : Component) : Prop where
  weight : c'.weight = c.weight
  nonneg : 0 ≤ c.weight
  raw : c.raw ≤ c'.raw

section
omit [Interp] [Floats Number] [Dates]

theorem weightedSum_mono {l l' : List Component} (h : List.Forall₂ Component.Le l l') : weightedSum l ≤ weightedSum l' := by
  induction h with
  | nil => exact le_refl _
  | @cons c c' l l' hc _ ih =>
    have hle : c.raw * c.weight ≤ c'.raw * c'.weight := by
      rw [hc.weight]
      exact mul_le_mul_of_nonneg_right hc.raw hc.nonneg
    exact add_le_add hle ih

theorem weightedSum_unit {l : List Component} (h : ∀ c ∈ l, 0 ≤ c.weight ∧ 0 ≤ c.raw ∧ c.raw ≤ 1) :
    0 ≤ weightedSum l ∧ weightedSum l ≤ (l.map Component.weight).sum := by
  induction l with
  | nil => exact ⟨le_refl _, le_refl _⟩
  | cons c l ih =>
    obtain ⟨hw, h0, h1⟩ := h c (.head _)
    obtain ⟨ih0, ih1⟩ := ih fun c hc ↦ h c (.tail _ hc)
    exact ⟨add_nonneg (mul_nonneg h0 hw) ih0, add_le_add (mul_le_of_le_one_left hw h1) ih1⟩

/-- A weighted sum as a percentage with one decimal. -/
theorem percent_mono {x y : ℚ} (h : x ≤ y) : roundTo 10 (x * 100) ≤ roundTo 10 (y * 100) :=
  roundTo_mono (mul_le_mul_of_nonneg_right h (by norm_num))

theorem percent_mem {x : ℚ} (h0 : 0 ≤ x) (h1 : x ≤ 1) : 0 ≤ roundTo 10 (x * 100) ∧ roundTo 10 (x * 100) ≤ 100 :=
  roundTo_mem (by decide) (mul_nonneg h0 (by norm_num)) (by push_cast; linarith)

theorem fuzzyScore_le (t : FuzzyTier) : t.score ≤ 100 := by
  cases t <;> decide

theorem assetScoreFromBackend_le (matchScore : Option ℕ) : (assetScoreFromBackend matchScore).1 ≤ 100 := by
  rw [assetScoreFromBackend]
  split_ifs
  · exact le_refl _
  · dsimp only
    omega
  · dsimp only
    omega
  · exact Nat.zero_le _

theorem riskTotal_mem {asset : ℕ} {raw : RawScores} (ha : asset ≤ 100) (h : raw.Unit) :
    0 ≤ riskTotal asset raw ∧ riskTotal asset raw ≤ 100 := by
  have hunit : ∀ c ∈ riskComponents asset raw, 0 ≤ c.weight ∧ 0 ≤ c.raw ∧ c.raw ≤ 1 := by
    have hasset : (0 : ℚ) ≤ asset / 100 ∧ (asset : ℚ) / 100 ≤ 1 :=
      ⟨by positivity, div_le_one_of_le₀ (by exact_mod_cast ha) (by norm_num)⟩
    simp only [riskComponents, List.forall_mem_cons, List.not_mem_nil, false_implies, implies_true, and_true]
    exact ⟨⟨by norm_num [weightAsset], hasset⟩, ⟨by norm_num [weightKev], h.kev⟩, ⟨by norm_num [weightEpss], h.epss⟩,
      ⟨by norm_num [weightExploit], h.exploit⟩, ⟨by norm_num [weightCvss], h.cvss⟩,
      ⟨by norm_num [weightMomentum], h.momentum⟩⟩
  have hweights : ((riskComponents asset raw).map Component.weight).sum = 1 := by
    norm_num [riskComponents, weightAsset, weightKev, weightEpss, weightExploit, weightCvss, weightMomentum]
  obtain ⟨h0, h1⟩ := weightedSum_unit hunit
  exact percent_mem h0 (hweights ▸ h1)

theorem riskTotal_mono {asset : ℕ} {raw raw' : RawScores} (h : raw.Le raw') : riskTotal asset raw ≤ riskTotal asset raw' := by
  apply percent_mono
  apply weightedSum_mono
  have hle : ∀ {key : Text} {w x y : ℚ}, 0 ≤ w → x ≤ y → Component.Le ⟨key, x, w⟩ ⟨key, y, w⟩ := fun hw hxy ↦ ⟨rfl, hw, hxy⟩
  exact .cons (hle (by norm_num [weightAsset]) (le_refl _)) <| .cons (hle (by norm_num [weightKev]) h.kev) <|
    .cons (hle (by norm_num [weightEpss]) h.epss) <| .cons (hle (by norm_num [weightExploit]) h.exploit) <|
    .cons (hle (by norm_num [weightCvss]) h.cvss) <| .cons (hle (by norm_num [weightMomentum]) h.momentum) .nil

end

omit [Floats Number] [Dates] in
theorem assetMatchInfo_le {cve : Dict} {profile : Option Dict} {asset : ℕ} {label : Text}
    (h : assetMatchInfo cve profile = .ok (asset, label)) : asset ≤ 100 := by
  have hdefault : defaultAssetUnknown ≤ 100 := by decide
  cases profile with
  | none =>
    obtain ⟨rfl, -⟩ := Prod.mk.inj (Except.ok.inj h)
    exact hdefault
  | some profile =>
    rw [assetMatchInfo] at h
    split at h
    · obtain ⟨rfl, -⟩ := Prod.mk.inj (Except.ok.inj h)
      exact hdefault
    · simp only [bind_eq_ok, pure_eq_ok, Except.ok.injEq, Prod.mk.injEq] at h
      obtain ⟨offers, -, rfl, -⟩ := h
      exact fuzzyScore_le _

omit [Floats Number] [Dates] in
theorem resolveAssetComponent_le {cve : Dict} {profile : Option Dict} {backend : Option ℕ} {asset : ℕ} {label : Text}
    (h : resolveAssetComponent cve profile backend = .ok (asset, label)) : asset ≤ 100 := by
  have hbackend := assetScoreFromBackend_le backend
  rw [resolveAssetComponent] at h
  split at h
  · dsimp only at h
    split at h
    · obtain ⟨⟨fuzzy, label'⟩, hfuzzy, h⟩ := bind_eq_ok.mp h
      dsimp only at h
      split at h
      · obtain ⟨rfl, -⟩ := Prod.mk.inj (Except.ok.inj h)
        exact assetMatchInfo_le hfuzzy
      · obtain ⟨rfl, -⟩ := Prod.mk.inj (Except.ok.inj h)
        exact hbackend
    · obtain ⟨rfl, -⟩ := Prod.mk.inj (Except.ok.inj h)
      exact hbackend
  · exact assetMatchInfo_le h

theorem sentences_ok {cve : Dict} (h : Scorable cve) (today : ℤ) (profile : Option Dict) (raw : RawScores) (label : Text) :
    ∃ sentences, buildComponentSentencesV11b today cve profile raw label = .ok sentences := by
  have hepss : ∃ t, epssSentence cve = .ok t := by
    rw [epssSentence]
    split
    · exact ⟨_, rfl⟩
    · rename_i hn
      obtain ⟨n, hn⟩ := floatOf_within h.epss (Bool.eq_false_of_not_eq_true hn)
      exact ⟨_, by rw [hn]; rfl⟩
  have hcvss : ∃ t, cvssSentence cve = .ok t := by
    rw [cvssSentence]
    split
    · exact ⟨_, rfl⟩
    · rename_i hn
      obtain ⟨n, hn⟩ := floatOf_within h.cvss (Bool.eq_false_of_not_eq_true hn)
      exact ⟨_, by rw [hn]; rfl⟩
  have hexploit : ∃ t, exploitSentence cve raw.exploit = .ok t := by
    obtain ⟨exploits, hexploits⟩ := h.exploits
    rw [exploitSentence]
    split_ifs
    · exact ⟨_, rfl⟩
    · rw [hexploits]
      cases hsrc : exploitSource exploits with
      | none => exact ⟨_, by simp only [bind, Except.bind, hsrc]; rfl⟩
      | some src => exact ⟨_, by simp only [bind, Except.bind, hsrc]; rfl⟩
    · exact ⟨_, rfl⟩
    · exact ⟨_, rfl⟩
    · exact ⟨_, rfl⟩
  obtain ⟨epss, hepss⟩ := hepss
  obtain ⟨cvss, hcvss⟩ := hcvss
  obtain ⟨exploit, hexploit⟩ := hexploit
  exact ⟨_, by rw [buildComponentSentencesV11b, hepss, hexploit, hcvss]; rfl⟩

/-- The call returns, and its total is that of the raw scores. -/
theorem calculateRiskScore_ok {cve : Dict} (h : Scorable cve) (today : ℤ) {profile : Option Dict} {backend : Option ℕ}
    (m : ℚ) {asset : ℕ} {label : Text} (ha : resolveAssetComponent cve profile backend = .ok (asset, label)) :
    ∃ raw r, rawScores today cve m = .ok raw ∧ raw.Unit ∧ calculateRiskScore today cve profile backend m = .ok (some r) ∧
      r.total = riskTotal asset raw := by
  obtain ⟨raw, hraw, hunit, -⟩ := rawScores_unit h today m
  obtain ⟨sentences, hs⟩ := sentences_ok h today profile raw label
  have hne : ¬cve.isEmpty = true := by
    rw [List.isEmpty_iff]
    exact h.nonempty
  let r : RiskScore := ⟨"1.1b", riskTotal asset raw, riskComponents asset raw, sentences, label, profile.isSome, raw.momentum⟩
  refine ⟨raw, r, hraw, hunit, ?_, rfl⟩
  rw [calculateRiskScore, if_neg hne, ha]
  simp only [bind, Except.bind, hraw, hs]
  rfl

end Briefr.Scoring.Risk
