import Mathlib.Analysis.SpecialFunctions.Log.Base
import Mathlib.Tactic.Ring
import Briefr.Correlation.CombinedPriority
import Briefr.Correlation.Freshness
import Briefr.Python.Text

namespace Briefr.Correlation

open Briefr.Python Briefr.Library.RoundHalfEven

def bumpConfidence (level : Text) (steps : ℕ) (cap : Text) : Text :=
  levelOf (min (levelIndex level + steps) (levelIndex cap))

def downrankConfidence (level : Text) (steps : ℕ) (floor : Text) : Text :=
  levelOf (max (levelIndex level - steps) (levelIndex floor))

/-- A level on the way with what is said about it so far. -/
structure Standing (K : Type) where
  level : Text
  why : Option Text
  factors : List (Json K)

def edgeFactor {K : Type} (name : String) (fields : List (Text × Json K)) (reason : Text) : Json K :=
  .dict ([("factor".toList, .str name.toList)] ++ fields ++ [("reason".toList, .str reason)])

def typeLevel (t : Text) : Text :=
  if t = "HASH".toList then "high".toList
  else if t = "DOMAIN".toList then "medium".toList
  else if t = "URL".toList then "medium".toList
  else "low".toList

section
variable {K : Type}

/-- What the cached lookups say about the indicator. -/
def confirm (c : Confirmations) (s : Standing K) : Standing K :=
  let s :=
    if c.greynoise = some "malicious".toList then
      { s with
        level := bumpConfidence s.level 1 "high".toList
        factors := s.factors ++ [edgeFactor "confirmation" [("value".toList, .str "greynoise_malicious".toList)]
          "GreyNoise classifies this IP as malicious".toList] }
    else if c.greynoise = some "benign".toList ∨ c.greynoise = some "riot".toList then
      { level := downrankConfidence s.level 1 "low".toList
        why := some "GreyNoise classifies this IP as benign noise".toList
        factors := s.factors ++ [edgeFactor "confirmation" [("value".toList, .str "greynoise_benign".toList)]
          "GreyNoise classifies this IP as benign noise".toList] }
    else s
  let s :=
    if c.malwarebazaar then
      { s with
        level := bumpConfidence s.level 1 "high".toList
        factors := s.factors ++ [edgeFactor "confirmation" [("value".toList, .str "malwarebazaar".toList)]
          "MalwareBazaar sample match".toList] }
    else s
  if c.urlhausActive then
    { s with
      level := bumpConfidence s.level 1 "high".toList
      factors := s.factors ++ [edgeFactor "confirmation" [("value".toList, .str "urlhaus_active".toList)]
        "URLhaus active distribution".toList] }
  else s

def markIpOnly (t : Text) (s : Standing K) : Standing K :=
  if t = "IP".toList ∧ s.level = "low".toList ∧ (s.why = none ∨ s.why = some []) then
    { s with
      why := some "IP-only edges are weaker than domain or hash matches".toList
      factors := s.factors ++ [edgeFactor "ip_only" [] "IP-only edges are weaker than domain or hash matches".toList] }
  else s

def hubReason (degree : ℤ) : Text := "Shared indicator hub — seen across ".toList ++ natText degree.toNat ++ " CVEs".toList

/-- What a shared indicator loses. -/
def clampDegree (degree : ℤ) (s : Standing K) : Standing K :=
  if 10 < degree then
    { level := "low".toList
      why := some (hubReason degree)
      factors := s.factors ++ [edgeFactor "degree" [("value".toList, .int degree)] (hubReason degree)] }
  else if 3 < degree then
    let downranked := downrankConfidence s.level 1 "low".toList
    if downranked ≠ s.level then
      { level := downranked
        why := some (hubReason degree)
        factors := s.factors ++ [edgeFactor "degree" [("value".toList, .int degree)] (hubReason degree)] }
    else s
  else s

/-- The level and the reason once the numeric level is known. Only a corroborated edge may gain from it. -/
def reconcile (s : Standing K) (corroboratedBy : List Text) (freshLevel reason : Text) : Text × Option Text :=
  if levelIndex freshLevel < levelIndex s.level then (freshLevel, some reason)
  else if corroboratedBy ≠ [] ∧ levelIndex s.level < levelIndex freshLevel then
    (freshLevel, if freshLevel = "high".toList then none else s.why)
  else (s.level, s.why)

end

/-- The distinct sources of the receipts that name one. -/
def receiptSources (receipts : List Text) : Finset Text :=
  ((receipts.filter (':' ∈ ·)).map fun r ↦ r.takeWhile (· ≠ ':')).toFinset

section
variable {K : Type} [Field K] [LinearOrder K]

attribute [local instance] two_atLeastTwo in
def corroborationCount (kSources kReceipts : ℕ) : K :=
  1 + kSources + 1 / 2 * max 0 ((kReceipts : K) - kSources)

variable [FloorRing K] [Interp] [Titles] [Curves K] [Iso]

def initial (t : Text) : Standing K :=
  let named := if t = [] then "Unknown".toList else Titles.title t
  ⟨typeLevel t, none, [edgeFactor "ioc_type" [("value".toList, .str t)] (named ++ "-type indicator".toList)]⟩

/-- What stands before freshness and corroboration are weighed. -/
def standing (t : Text) (confirmations : Confirmations) (degree : ℤ) : Standing K :=
  clampDegree degree (markIpOnly t (confirm confirmations (initial t)))

def confidenceForIocEdge (v : FreshnessVariables K) (iocType : Text) (confirmations : Confirmations) (isNoiseIp : Bool)
    (degree : ℤ) (observedAt ingestedAt : Option Text) (now : ℕ) (corroboratedBy : List Text) : Py (Verdict K) := do
  let t := upper iocType
  if t = "IP".toList ∧ isNoiseIp then
    return ⟨"low".toList, some "Private or reserved IP range".toList,
      [edgeFactor "noise_ip" [] "Private or reserved IP range".toList]⟩
  else
    let s := standing t confirmations degree
    let fresh ← freshnessContext v t observedAt ingestedAt now
    let kSources := (receiptSources corroboratedBy).card
    let kReceipts := corroboratedBy.length
    let k := corroborationCount kSources kReceipts
    let settled := reconcile s corroboratedBy (numericEdgeLevel t degree fresh.factor k) fresh.reason
    let corroborated := edgeFactor "corroboration" [("value".toList, .float (roundTo 10000 (corroborationFactor k))),
        ("k_sources".toList, .int kSources), ("k_receipts".toList, .int kReceipts)]
      (if corroboratedBy = [] then "Single community (OTX) source".toList
      else "Independent corroborating source observation".toList)
    let aged := Json.dict ([("factor".toList, .str "freshness".toList), ("value".toList, .float fresh.factor),
      ("reason".toList, .str fresh.reason)] ++ if fresh.fallback then [("freshness_fallback".toList, .bool true)] else [])
    return ⟨settled.1, settled.2, s.factors ++ [corroborated, aged]⟩

end

theorem levelIndex_le (level : Text) : levelIndex level ≤ 2 := by
  rw [levelIndex]
  split
  next h =>
    have hlt := List.idxOf_lt_length_of_mem h
    exact Nat.le_of_lt_succ hlt
  next => exact Nat.zero_le 2

theorem levelIndex_levelOf {n : ℕ} (h : n ≤ 2) : levelIndex (levelOf n) = n := by
  have hall : ∀ n ≤ 2, levelIndex (levelOf n) = n := by decide
  exact hall n h

theorem levelIndex_downrank (level : Text) :
    levelIndex (downrankConfidence level 1 "low".toList) = levelIndex level - 1 := by
  have hlow : levelIndex "low".toList = 0 := by decide
  have hle := levelIndex_le level
  rw [downrankConfidence, hlow, Nat.max_zero]
  exact levelIndex_levelOf (by omega)

theorem levelIndex_clampDegree {K : Type} (degree : ℤ) (s : Standing K) :
    levelIndex (clampDegree degree s).level =
      if 10 < degree then 0 else if 3 < degree then levelIndex s.level - 1 else levelIndex s.level := by
  rw [clampDegree]
  split
  next => exact (by decide : levelIndex "low".toList = 0)
  next =>
    split
    next =>
      have hdown := levelIndex_downrank s.level
      dsimp only
      split
      next => exact hdown
      next h =>
        rw [not_not.mp h] at hdown
        exact hdown
    next => rfl

theorem levelIndex_clampDegree_anti {K : Type} {degree degree' : ℤ} (h : degree ≤ degree') (s : Standing K) :
    levelIndex (clampDegree degree' s).level ≤ levelIndex (clampDegree degree s).level := by
  rw [levelIndex_clampDegree, levelIndex_clampDegree]
  split_ifs <;> omega

theorem card_receiptSources_le (receipts : List Text) : (receiptSources receipts).card ≤ receipts.length :=
  calc (receiptSources receipts).card
      ≤ ((receipts.filter (':' ∈ ·)).map fun r ↦ r.takeWhile (· ≠ ':')).length := List.toFinset_card_le _
    _ = (receipts.filter (':' ∈ ·)).length := List.length_map _
    _ ≤ receipts.length := List.length_filter_le _ _

theorem receiptSources_mono {l l' : List Text} (h : ∀ r ∈ l, r ∈ l') : receiptSources l ⊆ receiptSources l' := by
  intro x hx
  simp only [receiptSources, List.mem_toFinset, List.mem_map, List.mem_filter] at hx ⊢
  obtain ⟨r, ⟨hr, hcolon⟩, rfl⟩ := hx
  exact ⟨r, ⟨h r hr, hcolon⟩, rfl⟩

/-- What is known of an indicator that two vulnerabilities share. -/
structure EdgeEvidence where
  iocType : Text
  confirmations : Confirmations
  isNoiseIp : Bool
  degree : ℤ
  observedAt : Option Text
  ingestedAt : Option Text
  corroboratedBy : List Text

section
variable {K : Type} [Field K] [LinearOrder K]

/-- The count from which the corroboration of an edge follows. -/
def EdgeEvidence.count (e : EdgeEvidence) : K :=
  corroborationCount (receiptSources e.corroboratedBy).card e.corroboratedBy.length

variable [FloorRing K] [Interp] [Titles] [Curves K] [Iso]

def EdgeEvidence.verdict (e : EdgeEvidence) (v : FreshnessVariables K) (now : ℕ) : Py (Verdict K) :=
  confidenceForIocEdge v e.iocType e.confirmations e.isNoiseIp e.degree e.observedAt e.ingestedAt now e.corroboratedBy

def EdgeEvidence.Noise (e : EdgeEvidence) : Prop := upper e.iocType = "IP".toList ∧ e.isNoiseIp = true

omit [Field K] [LinearOrder K] [FloorRing K] [Interp] [Titles] [Curves K] [Iso] in
theorem levelIndex_reconcile (s : Standing K) (corroboratedBy : List Text) (freshLevel reason : Text) :
    levelIndex (reconcile s corroboratedBy freshLevel reason).1 =
      if corroboratedBy = [] then min (levelIndex s.level) (levelIndex freshLevel) else levelIndex freshLevel := by
  rw [reconcile]
  by_cases hc : corroboratedBy = []
  · rw [if_pos hc]
    by_cases hlt : levelIndex freshLevel < levelIndex s.level
    · rw [if_pos hlt, min_eq_right hlt.le]
    · rw [if_neg hlt, if_neg fun h ↦ h.1 hc, min_eq_left (not_lt.mp hlt)]
  · rw [if_neg hc]
    by_cases hlt : levelIndex freshLevel < levelIndex s.level
    · rw [if_pos hlt]
    · rw [if_neg hlt]
      by_cases hgt : levelIndex s.level < levelIndex freshLevel
      · rw [if_pos ⟨hc, hgt⟩]
      · rw [if_neg fun h ↦ hgt h.2]
        exact (not_lt.mp hlt).antisymm (not_lt.mp hgt)

/-- An address in a reserved range is low. Elsewhere the level is what is left of the two levels. -/
theorem EdgeEvidence.confidence_eq {e : EdgeEvidence} {v : FreshnessVariables K} {now : ℕ} {r : Verdict K}
    (h : e.verdict v now = .ok r) :
    (e.Noise ∧ r.confidence = "low".toList) ∨ ¬e.Noise ∧ ∃ f : Freshness K,
      freshnessContext v (upper e.iocType) e.observedAt e.ingestedAt now = .ok f ∧
        r.confidence = (reconcile (standing (K := K) (upper e.iocType) e.confirmations e.degree) e.corroboratedBy
          (numericEdgeLevel (upper e.iocType) e.degree f.factor e.count) f.reason).1 := by
  rw [verdict, confidenceForIocEdge] at h
  by_cases hn : e.Noise
  · have hn' : upper e.iocType = "IP".toList ∧ e.isNoiseIp = true := hn
    simp only [if_pos hn'] at h
    obtain rfl := Except.ok.inj h
    exact .inl ⟨hn, rfl⟩
  · have hn' : ¬(upper e.iocType = "IP".toList ∧ e.isNoiseIp = true) := hn
    simp only [if_neg hn'] at h
    cases hf : freshnessContext v (upper e.iocType) e.observedAt e.ingestedAt now with
    | error err =>
      rw [hf] at h
      cases h
    | ok f =>
      rw [hf, ok_bind] at h
      obtain rfl := Except.ok.inj h
      exact .inr ⟨hn, f, rfl, rfl⟩

variable [IsStrictOrderedRing K]

omit [FloorRing K] [Interp] [Titles] [Curves K] [Iso] in
/-- A receipt that comes from no new source still counts for a half. -/
theorem EdgeEvidence.count_eq (e : EdgeEvidence) :
    e.count = 1 + ((receiptSources e.corroboratedBy).card : K) / 2 + (e.corroboratedBy.length : K) / 2 := by
  have hle : ((receiptSources e.corroboratedBy).card : K) ≤ e.corroboratedBy.length :=
    Nat.cast_le.mpr (card_receiptSources_le _)
  rw [count, corroborationCount, max_eq_right (by linarith)]
  ring

omit [FloorRing K] [Interp] [Titles] [Curves K] [Iso] in
theorem EdgeEvidence.one_le_count (e : EdgeEvidence) : 1 ≤ (e.count : K) := by
  have hs := Nat.cast_nonneg (α := K) (receiptSources e.corroboratedBy).card
  have hr := Nat.cast_nonneg (α := K) e.corroboratedBy.length
  rw [e.count_eq]
  linarith

/-- Evidence that says at least as much: fewer vulnerabilities in common, the same receipts or more of them, and the
same observation or a later one. -/
structure EdgeEvidence.Le (e e' : EdgeEvidence) : Prop where
  iocType : e'.iocType = e.iocType
  confirmations : e'.confirmations = e.confirmations
  isNoiseIp : e'.isNoiseIp = e.isNoiseIp
  ingestedAt : e'.ingestedAt = e.ingestedAt
  degree : e'.degree ≤ e.degree
  observedAt : e'.observedAt = e.observedAt ∨ ∃ t t', parseDt e.observedAt = .ok (some t) ∧
    parseDt e'.observedAt = .ok (some t') ∧ t ≤ t'
  corroboratedBy : e.corroboratedBy.Sublist e'.corroboratedBy

omit [FloorRing K] [Interp] [Titles] [Curves K] [Iso] in
theorem EdgeEvidence.count_mono {e e' : EdgeEvidence} (h : e.corroboratedBy.Sublist e'.corroboratedBy) :
    (e.count : K) ≤ e'.count := by
  have hs : ((receiptSources e.corroboratedBy).card : K) ≤ (receiptSources e'.corroboratedBy).card :=
    Nat.cast_le.mpr (Finset.card_le_card (receiptSources_mono fun r hr ↦ h.subset hr))
  have hr : (e.corroboratedBy.length : K) ≤ e'.corroboratedBy.length := Nat.cast_le.mpr h.length_le
  rw [e.count_eq, e'.count_eq]
  linarith

/-- The level is monotone in all evidence together. -/
theorem EdgeEvidence.Le.level_le {e e' : EdgeEvidence} (h : e.Le e') {v : FreshnessVariables K} {now : ℕ}
    {r r' : Verdict K} (hr : e.verdict v now = .ok r) (hr' : e'.verdict v now = .ok r') :
    levelIndex r.confidence ≤ levelIndex r'.confidence := by
  have hlow : levelIndex "low".toList = 0 := by decide
  rcases EdgeEvidence.confidence_eq hr with ⟨-, hc⟩ | ⟨hn, f, hf, hc⟩
  · rw [hc, hlow]
    exact Nat.zero_le _
  rcases EdgeEvidence.confidence_eq hr' with ⟨hn', -⟩ | ⟨-, f', hf', hc'⟩
  · rw [Noise, h.iocType, h.isNoiseIp] at hn'
    exact absurd hn' hn
  have hfresh : f.factor ≤ f'.factor := by
    rw [h.iocType, h.ingestedAt] at hf'
    rcases h.observedAt with heq | ⟨t, t', ht, ht', hle⟩
    · rw [heq, hf] at hf'
      rw [Except.ok.inj hf']
    · exact freshnessContext_anti hf hf' ht ht' hle
  have hnumeric := numericEdgeLevel_mono (upper e.iocType) h.degree (freshnessContext_mem hf).1 hfresh e.one_le_count
    (EdgeEvidence.count_mono h.corroboratedBy)
  have hstanding := levelIndex_clampDegree_anti h.degree
    (markIpOnly (K := K) (upper e.iocType) (confirm e.confirmations (initial (upper e.iocType))))
  rw [h.iocType, h.confirmations] at hc'
  rw [hc, hc', levelIndex_reconcile, levelIndex_reconcile]
  by_cases hcorr : e.corroboratedBy = []
  · rw [if_pos hcorr]
    split
    next => exact min_le_min hstanding hnumeric
    next => exact (min_le_right _ _).trans hnumeric
  · rw [if_neg hcorr, if_neg fun hnil : e'.corroboratedBy = [] ↦ hcorr (List.sublist_nil.mp (hnil ▸ h.corroboratedBy))]
    exact hnumeric

/-- Nothing rescues a hub. -/
theorem EdgeEvidence.hub_low {e : EdgeEvidence} (h : 10 < e.degree) {v : FreshnessVariables K} {now : ℕ}
    {r : Verdict K} (hr : e.verdict v now = .ok r) : r.confidence = "low".toList := by
  rcases EdgeEvidence.confidence_eq hr with ⟨-, hc⟩ | ⟨-, f, hf, hc⟩
  · exact hc
  · obtain ⟨h0, h1⟩ := freshnessContext_mem hf
    have hlevel : (standing (K := K) (upper e.iocType) e.confirmations e.degree).level = "low".toList := by
      rw [standing, clampDegree, if_pos h]
    rw [hc, numericEdgeLevel_hub _ h h0 h1 e.one_le_count, reconcile, hlevel, if_neg (lt_irrefl _),
      if_neg fun h ↦ lt_irrefl _ h.2]

omit [IsStrictOrderedRing K] in
/-- Dates that can be read, and a floor that can, are all it takes. -/
theorem EdgeEvidence.exists_verdict (e : EdgeEvidence) {v : FreshnessVariables K} (now : ℕ)
    (ho : Readable e.observedAt) (hi : Readable e.ingestedAt) (hv : ∃ floor, v.floor = .ok floor) :
    ∃ r, e.verdict v now = .ok r := by
  obtain ⟨observed, ho⟩ := ho
  obtain ⟨ingested, hi⟩ := hi
  obtain ⟨floor, hv⟩ := hv
  have hm : ∀ t age, ∃ factor, freshnessMultiplier v t age = .ok factor := by
    intro t age
    rw [freshnessMultiplier, getFreshnessFloor, hv]
    exact ⟨_, rfl⟩
  have hf : ∃ f, freshnessContext v (upper e.iocType) e.observedAt e.ingestedAt now = .ok f := by
    rw [freshnessContext, ho, ok_bind, hi, ok_bind]
    cases observed with
    | some t =>
      obtain ⟨factor, hfactor⟩ := hm (upper e.iocType) (ageDays now t)
      exact ⟨_, by simp only [hfactor]; rfl⟩
    | none =>
      cases ingested with
      | none => exact ⟨_, rfl⟩
      | some t =>
        obtain ⟨factor, hfactor⟩ := hm (upper e.iocType) (ageDays now t)
        exact ⟨_, by simp only [hfactor]; rfl⟩
  obtain ⟨f, hf⟩ := hf
  rw [verdict, confidenceForIocEdge]
  by_cases hn : upper e.iocType = "IP".toList ∧ e.isNoiseIp = true
  · exact ⟨_, if_pos hn⟩
  · exact ⟨_, by simp only [if_neg hn, hf]; rfl⟩

/-- More vulnerabilities never raise the level, a receipt never lowers it, a later observation never lowers it, and
a hub is low. -/
theorem edge_confidence_monotone (v : FreshnessVariables K) (now : ℕ) (e : EdgeEvidence) (r : Verdict K)
    (hr : e.verdict v now = .ok r) :
    (∀ degree r', e.degree ≤ degree → EdgeEvidence.verdict { e with degree := degree } v now = .ok r' →
      levelIndex r'.confidence ≤ levelIndex r.confidence) ∧
    (∀ before receipt after r', e.corroboratedBy = before ++ after →
      EdgeEvidence.verdict { e with corroboratedBy := before ++ receipt :: after } v now = .ok r' →
      levelIndex r.confidence ≤ levelIndex r'.confidence) ∧
    (∀ observedAt t t' r', parseDt e.observedAt = .ok (some t) → parseDt observedAt = .ok (some t') → t ≤ t' →
      EdgeEvidence.verdict { e with observedAt := observedAt } v now = .ok r' →
      levelIndex r.confidence ≤ levelIndex r'.confidence) ∧
    (10 < e.degree → r.confidence = "low".toList) := by
  refine ⟨?_, ?_, ?_, fun h ↦ EdgeEvidence.hub_low h hr⟩
  · intro degree r' hle hr'
    have h : EdgeEvidence.Le { e with degree := degree } e := ⟨rfl, rfl, rfl, rfl, hle, .inl rfl, .refl _⟩
    exact h.level_le hr' hr
  · intro before receipt after r' hcorr hr'
    have h : e.Le { e with corroboratedBy := before ++ receipt :: after } := by
      refine ⟨rfl, rfl, rfl, rfl, le_refl _, .inl rfl, ?_⟩
      rw [hcorr]
      exact (List.sublist_cons_self receipt after).append_left before
    exact h.level_le hr hr'
  · intro observedAt t t' r' ht ht' hle hr'
    have h : e.Le { e with observedAt := observedAt } :=
      ⟨rfl, rfl, rfl, rfl, le_refl _, .inr ⟨t, t', ht, ht', hle⟩, .refl _⟩
    exact h.level_le hr hr'

end

section

attribute [local instance] two_atLeastTwo in
noncomputable instance realCurves : Curves ℝ where
  log2 := Real.logb 2
  half x := (1 / 2 : ℝ) ^ x
  log2_mono hx h := Real.logb_le_logb_of_le (by norm_num) hx h
  log2_mul hx hy := Real.logb_mul hx.ne' hy.ne'
  log2_two := Real.logb_self_eq_one (by norm_num)
  half_zero := Real.rpow_zero _
  half_anti h := Real.rpow_le_rpow_of_exponent_ge (by norm_num) (by norm_num) h

local instance edgeInterp : Interp := ascii fun _ ↦ none

local instance edgeTitles : Titles := ⟨fun s ↦ s⟩

local instance edgeIso : Iso := ⟨fun _ ↦ none⟩

noncomputable def defaultVariables : FreshnessVariables ℝ := ⟨fun _ ↦ none, .ok (1 / 4)⟩

def sharedHash (degree : ℤ) : EdgeEvidence := ⟨"hash".toList, ⟨none, false, false⟩, false, degree, none, none, []⟩

/-- A hash that eleven vulnerabilities share is low, and not above the same hash between two of them. -/
theorem edge_confidence_sharedHash : ∃ r r' : Verdict ℝ, (sharedHash 2).verdict defaultVariables 0 = .ok r ∧
    (sharedHash 11).verdict defaultVariables 0 = .ok r' ∧ r'.confidence = "low".toList ∧
      levelIndex r'.confidence ≤ levelIndex r.confidence := by
  have hdate : Readable none := ⟨none, by decide⟩
  obtain ⟨r, hr⟩ := (sharedHash 2).exists_verdict 0 hdate hdate (v := defaultVariables) ⟨_, rfl⟩
  obtain ⟨r', hr'⟩ := (sharedHash 11).exists_verdict 0 hdate hdate (v := defaultVariables) ⟨_, rfl⟩
  refine ⟨r, r', hr, hr', ?_, ?_⟩
  · exact (edge_confidence_monotone defaultVariables 0 (sharedHash 11) r' hr').2.2.2 (by decide)
  · exact (edge_confidence_monotone defaultVariables 0 (sharedHash 2) r hr).1 11 r' (by decide) hr'

end

end Briefr.Correlation
