import Briefr.Scoring.AssetMatch

namespace Briefr.Scoring.Environment

open Briefr.Python Briefr.Matching.Cpe AssetMatch

inductive Tier
  | confirmed
  | likely
  | possible
  | weak
  | unknown
  | noMatch
  deriving DecidableEq

/-- `TIER_RANK`. -/
def Tier.rank : Tier → ℕ
  | confirmed => 5
  | likely => 4
  | possible => 3
  | weak => 2
  | unknown => 1
  | noMatch => 0

def version : Text := "environment-1.0"

/-- The record that `classify_environment` returns. -/
structure Relevance where
  version : Text
  tier : Tier
  score : Option ℕ
  versionVerified : Bool
  evidenceLabel : Text

section
variable [Interp]

/-- `match_type or "No matching assets in your profile"`. -/
def labelOrDefault (matchType : Text) : Text := if matchType = [] then noMatchLabel else matchType

/-- The tier of an asset score, the text that explains it and the backend's own score. -/
def grade (assetScore : ℕ) (matchType : Text) (backendScore : ℕ) : Relevance :=
  let mt := lower matchType
  if assetScore = 0 then ⟨version, .noMatch, some 0, false, labelOrDefault matchType⟩
  else if 100 ≤ backendScore then ⟨version, .confirmed, some assetScore, true, matchType⟩
  else if 100 ≤ assetScore ∧ isIn "exact cpe match" mt then ⟨version, .confirmed, some assetScore, true, matchType⟩
  else if 90 ≤ assetScore ∨ (80 ≤ assetScore ∧ isIn "os match" mt) then
    ⟨version, .likely, some assetScore, false, matchType⟩
  else if 65 ≤ assetScore then ⟨version, .possible, some assetScore, false, matchType⟩
  else if 35 ≤ assetScore then ⟨version, .weak, some assetScore, false, matchType⟩
  else ⟨version, .noMatch, some assetScore, false, labelOrDefault matchType⟩

def classifyEnvironment (cve : Dict) (profile : Option Dict) (backendMatchScore : Option ℕ) : Py Relevance :=
  match profile with
  | none => .ok ⟨version, .unknown, none, false, "No asset profile loaded"⟩
  | some p => do
    let (assetScore, matchType) ← resolveAssetComponent cve (some p) backendMatchScore
    return grade assetScore matchType (backendMatchScore.getD 0)

theorem grade_verified (assetScore : ℕ) (matchType : Text) (backendScore : ℕ) :
    (grade assetScore matchType backendScore).versionVerified = true ↔
      (grade assetScore matchType backendScore).tier = .confirmed := by
  dsimp only [Environment.grade]
  repeat' split
  all_goals simp

theorem grade_confirmed {assetScore : ℕ} {matchType : Text} {backendScore : ℕ} :
    (grade assetScore matchType backendScore).tier = .confirmed ↔
      assetScore ≠ 0 ∧ (100 ≤ backendScore ∨ (100 ≤ assetScore ∧ isIn "exact cpe match" (lower matchType))) := by
  dsimp only [Environment.grade]
  repeat' split
  all_goals simp_all

theorem grade_low {assetScore : ℕ} {matchType : Text} {backendScore : ℕ} (h : assetScore < 65)
    (hb : backendScore < 100) : (grade assetScore matchType backendScore).tier =
      if 35 ≤ assetScore then .weak else .noMatch := by
  dsimp only [Environment.grade]
  repeat' split
  all_goals first | rfl | omega

theorem classify_empty {cve : Dict} {backend : Option ℕ} {env : Relevance}
    (h : classifyEnvironment cve (some []) backend = .ok env) :
    env.tier = if 100 ≤ backend.getD 0 then .confirmed else .weak := by
  have he : env = grade defaultAssetUnknown [] (backend.getD 0) := by
    simp only [classifyEnvironment, resolveAssetComponent, present, Bool.false_eq_true, ↓reduceIte,
      assetMatchInfo, ok_bind, pure_eq_ok, Except.ok.injEq] at h
    exact h.symm
  rw [he]
  split
  · rename_i hb
    exact grade_confirmed.mpr ⟨by decide, .inl hb⟩
  · rename_i hb
    exact grade_low (by decide) (by omega)

theorem resolve_fuzzy {cve : Dict} {p : Dict} {backend : Option ℕ} {r : ℕ × Text} (hp : p ≠ [])
    (hb : backend.getD 0 = 0) (h : resolveAssetComponent cve (some p) backend = .ok r) :
    ∃ l, offers cve p = .ok l ∧ r.1 = (bestOffer l).tier.score ∧
      ((bestOffer l).tier ≠ .noMatch → r.2 = matchType (bestOffer l)) := by
  obtain ⟨f, fs, rfl⟩ := List.exists_cons_of_ne_nil hp
  have h0 : assetScoreFromBackend backend = (0, noMatchLabel) := by simp [assetScoreFromBackend, hb]
  simp only [resolveAssetComponent, present, ↓reduceIte, h0, assetMatchInfo, reduceCtorEq, bind_eq_ok] at h
  obtain ⟨⟨fuzzyScore, fuzzyType⟩, ⟨l, hl, he⟩, hr⟩ := h
  simp only [pure_eq_ok, Except.ok.injEq, Prod.mk.injEq] at he
  obtain ⟨rfl, rfl⟩ := he
  refine ⟨l, hl, ?_⟩
  cases ht : (bestOffer l).tier <;> simp_all [FuzzyTier.score] <;> simp [← hr]

theorem resolve_backend {cve : Dict} {p : Dict} {backend : Option ℕ} {r : ℕ × Text} (hp : p ≠ [])
    (hb : 0 < backend.getD 0) (h : resolveAssetComponent cve (some p) backend = .ok r) :
    r = assetScoreFromBackend backend := by
  obtain ⟨f, fs, rfl⟩ := List.exists_cons_of_ne_nil hp
  have hne : (assetScoreFromBackend backend).1 ≠ 0 := by
    dsimp only [assetScoreFromBackend]
    repeat' split
    all_goals simp
    all_goals omega
  simp only [resolveAssetComponent, present, ↓reduceIte, hne, Except.ok.injEq] at h
  exact h.symm

/-- When a profile is called CONFIRMED: the backend says 100, or it says 0 and the fuzzy matcher
ends in its top tier. -/
theorem classify_confirmed {cve p : Dict} {score : ℕ} {env : Relevance} (hp : p ≠ [])
    (h : classifyEnvironment cve (some p) (some score) = .ok env) :
    env.tier = .confirmed ↔
      100 ≤ score ∨ (score = 0 ∧ ∃ l, offers cve p = .ok l ∧ (bestOffer l).tier = .exactCpe) := by
  simp only [classifyEnvironment, bind_eq_ok, pure_eq_ok, Except.ok.injEq] at h
  obtain ⟨r, hr, rfl⟩ := h
  rw [grade_confirmed, Option.getD_some]
  rcases Nat.eq_zero_or_pos score with rfl | hs
  · obtain ⟨l, hl, h1, h2⟩ := resolve_fuzzy hp rfl hr
    simp only [hl, Except.ok.injEq, exists_eq_left', h1]
    constructor
    · rintro ⟨-, h | ⟨h, -⟩⟩
      · omega
      · exact .inr ⟨trivial, FuzzyTier.score_eq_hundred.mp h⟩
    · rintro (h | ⟨-, ht⟩)
      · omega
      · have hmem : bestOffer l ∈ l := bestOffer_mem (by rw [ht]; decide)
        have hlabel := offers_label hl hmem (.inl ht)
        rw [h2 (by rw [ht]; decide)]
        exact ⟨by simp [ht, FuzzyTier.score], .inr ⟨FuzzyTier.score_eq_hundred.mpr ht, matchType_exact ht hlabel⟩⟩
  · have hr := resolve_backend hp (by simpa using hs) hr
    subst hr
    dsimp only [assetScoreFromBackend, Option.getD_some]
    repeat' split
    all_goals simp
    all_goals omega

theorem classify_verified {cve : Dict} {profile : Option Dict} {backend : Option ℕ} {env : Relevance}
    (h : classifyEnvironment cve profile backend = .ok env) :
    env.versionVerified = true ↔ env.tier = .confirmed := by
  cases profile with
  | none =>
    simp only [classifyEnvironment, Except.ok.injEq] at h
    simp [← h]
  | some p =>
    simp only [classifyEnvironment, bind_eq_ok, pure_eq_ok, Except.ok.injEq] at h
    obtain ⟨r, -, rfl⟩ := h
    exact grade_verified _ _ _

/-- The environment tier of each rung of the fuzzy table. -/
def fuzzyEnvironment : FuzzyTier → Tier
  | .exactCpe => .confirmed
  | .cpeProduct | .os => .likely
  | .product | .vendor => .possible
  | .aiSystem | .aiReference | .description => .weak
  | .noMatch => .noMatch

theorem grade_fuzzy {best : Offer} (h : best.tier = .exactCpe ∨ best.tier = .os → best.label ≠ []) :
    (grade best.tier.score (matchType best) 0).tier = fuzzyEnvironment best.tier := by
  cases ht : best.tier with
  | exactCpe =>
    exact grade_confirmed.mpr ⟨by decide, .inr ⟨le_rfl, matchType_exact ht (h (.inl ht))⟩⟩
  | os =>
    dsimp only [grade, FuzzyTier.score, fuzzyEnvironment]
    rw [if_neg (by decide), if_neg (by decide), if_neg (fun h ↦ absurd h.1 (by decide)),
      if_pos (.inr ⟨le_rfl, matchType_os ht (h (.inr ht))⟩)]
  | cpeProduct | product | vendor | aiSystem | aiReference | description | noMatch =>
    dsimp only [grade, FuzzyTier.score, fuzzyEnvironment]
    repeat' split
    all_goals first | rfl | omega

/-- With no CPE evidence the tier is that of the fuzzy matcher's best rung. -/
theorem classify_fuzzy {cve p : Dict} {env : Relevance} (hp : p ≠ [])
    (h : classifyEnvironment cve (some p) (some 0) = .ok env) :
    ∃ l, offers cve p = .ok l ∧ env.tier = fuzzyEnvironment (bestOffer l).tier := by
  simp only [classifyEnvironment, bind_eq_ok, pure_eq_ok, Except.ok.injEq] at h
  obtain ⟨r, hr, rfl⟩ := h
  obtain ⟨l, hl, h1, h2⟩ := resolve_fuzzy hp rfl hr
  refine ⟨l, hl, ?_⟩
  by_cases hn : (bestOffer l).tier = .noMatch
  · rw [h1, hn]
    exact grade_low (by decide) (by decide)
  · rw [h1, h2 hn, Option.getD_some]
    exact grade_fuzzy fun ht ↦ offers_label hl (bestOffer_mem hn) ht

/-- With CPE evidence the tier is a function of the CPE score alone. -/
theorem classify_backend {cve p : Dict} {score : ℕ} {env : Relevance} (hp : p ≠ []) (hs : 0 < score)
    (h : classifyEnvironment cve (some p) (some score) = .ok env) :
    env.tier = if 100 ≤ score then .confirmed else if 35 ≤ score then .weak else .noMatch := by
  simp only [classifyEnvironment, bind_eq_ok, pure_eq_ok, Except.ok.injEq] at h
  obtain ⟨r, hr, rfl⟩ := h
  obtain rfl := resolve_backend hp (by simpa using hs) hr
  rw [Option.getD_some]
  by_cases h100 : 100 ≤ score
  · rw [if_pos h100]
    exact grade_confirmed.mpr ⟨by simp [assetScoreFromBackend, h100], .inl h100⟩
  · have hb : (assetScoreFromBackend (some score)).1 = if 55 ≤ score then 55 else score := by
      simp only [assetScoreFromBackend, Option.getD_some, h100, hs, ↓reduceIte]
      split <;> rfl
    by_cases h55 : 55 ≤ score
    · rw [if_pos h55] at hb
      rw [grade_low (by omega) (by omega), hb, if_neg h100, if_pos (by decide), if_pos (by omega)]
    · rw [if_neg h55] at hb
      rw [grade_low (by omega) (by omega), hb, if_neg h100]

/-- A row without CPE entries whose affected products give a versioned asset the full score:
no version was there to compare with. -/
def ScoredWithoutEntries (cve : Dict) (score : ℕ) : Prop := cpeEntries cve = [] ∧ score = 100

/-- The CPE score is 0 and the fuzzy fallback finds an "exact CPE match". -/
def FuzzyExact (cve : Dict) (profile : Option Dict) (score : ℕ) : Prop :=
  score = 0 ∧ ∃ p affected apps, profile = some p ∧ affectedProducts cve = .ok affected ∧
    items p "applications" = .ok apps ∧ ∃ app ∈ apps, ExactOverlap affected app

theorem fuzzyExact_of_offers {cve p : Dict} {l : List Offer} (hl : offers cve p = .ok l) :
    (bestOffer l).tier = .exactCpe ↔ FuzzyExact cve (some p) 0 := by
  obtain ⟨affected, apps, oses, ais, ha, hp, -, -, rfl⟩ := offers_eq_ok.mp hl
  rw [bestOffer_exact_iff]
  constructor
  · exact fun h ↦ ⟨rfl, p, affected, apps, rfl, ha, hp, h⟩
  · intro ⟨_, p', affected', apps', he, ha', hp', h⟩
    cases he
    rw [ha] at ha'
    rw [hp] at hp'
    cases ha'
    cases hp'
    exact h

theorem classify_confirmed_iff {cve : Dict} {profile : Option Dict} {assets : List Asset} {score : ℕ}
    {env : Relevance} (ha : profileToMatchAssets profile = .ok assets)
    (hs : cpeMatchScoreForCve cve assets = .ok score)
    (he : classifyEnvironment cve profile (some score) = .ok env) :
    env.tier = .confirmed ↔ 100 ≤ score ∨ FuzzyExact cve profile score := by
  have hzero : assets = [] → score = 0 := fun h ↦ by simpa [cpeMatchScoreForCve, h] using hs.symm
  match profile with
  | none =>
    have h0 : score = 0 := hzero (by simpa [profileToMatchAssets] using ha.symm)
    have ht : env.tier = .unknown := by
      simp only [classifyEnvironment, Except.ok.injEq] at he
      rw [← he]
    simp [ht, h0, FuzzyExact]
  | some [] =>
    have h0 : score = 0 := hzero (by simpa [profileToMatchAssets] using ha.symm)
    have ht : env.tier = .weak := by simpa [h0] using classify_empty he
    simp only [ht, h0, FuzzyExact, reduceCtorEq, true_and, false_iff]
    rintro (h | ⟨p, affected, apps, hp, -, hi, app, happ, -⟩)
    · omega
    cases hp
    have hi : apps = [] := by simpa [items, Dict.get, Value.orElse, Value.truthy] using hi.symm
    simp [hi] at happ
  | some (f :: fs) =>
    rw [classify_confirmed (by simp) he]
    rcases Nat.eq_zero_or_pos score with rfl | hpos
    · have hr := he
      simp only [classifyEnvironment, bind_eq_ok] at hr
      obtain ⟨r, hr, -⟩ := hr
      obtain ⟨l, hl, -⟩ := resolve_fuzzy (by simp) rfl hr
      simp [hl, fuzzyExact_of_offers hl]
    · have h1 : ¬score = 0 := by omega
      simp [h1, FuzzyExact]

/-- CONFIRMED stands for a verified version exactly when neither shortcut is taken: a full
score from affected products alone, or the fuzzy fallback's top tier. -/
theorem confirmed_sound_iff (cve : Dict) (profile : Option Dict) (score : ℕ) {assets : List Asset}
    {env : Relevance} (ha : profileToMatchAssets profile = .ok assets)
    (hs : cpeMatchScoreForCve cve assets = .ok score)
    (he : classifyEnvironment cve profile (some score) = .ok env) :
    (env.tier = .confirmed ∨ env.versionVerified = true →
        ∃ a ∈ assets, ∃ c ∈ cpeEntries cve, VersionVerified a c) ↔
      ¬ScoredWithoutEntries cve score ∧ ¬FuzzyExact cve profile score := by
  rw [classify_verified he, or_self, classify_confirmed_iff ha hs he]
  have hf : FuzzyExact cve profile score → score = 0 := fun h ↦ h.1
  rcases cpeMatchScoreForCve_eq_ok hs with ⟨rfl, rfl⟩ | ⟨hne, hl⟩ | ⟨hnil, l, hl⟩
  · simp [ScoredWithoutEntries]
  · rw [← scoreCveForAssets_ge_hundred hl]
    constructor
    · intro h
      refine ⟨fun hw ↦ hne hw.1, fun hx ↦ ?_⟩
      have h1 := h (.inr hx)
      have h2 := hf hx
      omega
    · rintro ⟨-, hx⟩ (h | h)
      · exact h
      · exact (hx h).elim
  · simp only [hnil, List.not_mem_nil, false_and, ScoredWithoutEntries, true_and]
    rcases scoreCveForAssets_values hl with rfl | rfl | rfl <;> simp

end

section
local instance : Interp := ascii fun _ ↦ none

/-- Log4j before 2.15.0, as NVD lists it. -/
def log4jCve : Dict :=
  [("cpe_matches", .list [.dict [("vendor", .str "apache"), ("product", .str "log4j"), ("version", .str "*"),
      ("version_end_excluding", .str "2.15.0")]]),
    ("affected_products", .list [.str "apache:log4j"])]

def log4jProfile (version : Text) : Dict :=
  [("applications", .list [.dict [("product", .str "Log4j"), ("cpeProduct", .str "log4j"),
      ("vendor", .str "apache"), ("version", .str version)]])]

def log4jAsset (version : Text) : Asset := ⟨"log4j", version, "apache"⟩

theorem confirmed_sound_in_range :
    ∃ env, classifyEnvironment log4jCve (some (log4jProfile "2.14.1")) (some 100) = .ok env ∧
      (env.tier = .confirmed ∨ env.versionVerified = true →
        ∃ a ∈ [log4jAsset "2.14.1"], ∃ c ∈ cpeEntries log4jCve, VersionVerified a c) := by
  refine ⟨_, rfl, (confirmed_sound_iff log4jCve (some (log4jProfile "2.14.1")) 100 rfl rfl rfl).mpr ⟨?_, ?_⟩⟩
  · exact fun h ↦ absurd h.1 (by simp [cpeEntries, cpeMatches, log4jCve, Dict.get, Value.orElse, Value.truthy])
  · exact fun h ↦ absurd h.1 (by decide)

/-- Version 2.17.1 is checked against the only entry and found outside; the score is 0, and
the fuzzy fallback calls it an exact CPE match. -/
theorem confirmed_out_of_range :
    profileToMatchAssets (some (log4jProfile "2.17.1")) = .ok [log4jAsset "2.17.1"] ∧
    cpeMatchScoreForCve log4jCve [log4jAsset "2.17.1"] = .ok 0 ∧
    ∃ env, classifyEnvironment log4jCve (some (log4jProfile "2.17.1")) (some 0) = .ok env ∧
      env.tier = .confirmed ∧ env.versionVerified = true ∧
      ¬∃ a ∈ [log4jAsset "2.17.1"], ∃ c ∈ cpeEntries log4jCve, VersionVerified a c := by
  refine ⟨rfl, rfl, _, rfl, by decide, by decide, ?_⟩
  rw [← scoreCveForAssets_ge_hundred (n := 0) rfl]
  decide

end

end Briefr.Scoring.Environment
