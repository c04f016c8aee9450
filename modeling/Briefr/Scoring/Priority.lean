import Briefr.Scoring.Environment
import Mathlib.Data.Rat.Defs

namespace Briefr.Scoring.Priority

open Briefr.Python Briefr.Matching.Cpe AssetMatch Environment

/-- The threat bands of the base table; any other text is looked up as LOW. -/
inductive ThreatBand
  | crit
  | high
  | med
  | low
  | other (name : Text)
  deriving DecidableEq

inductive Band
  | p1
  | p2
  | p3
  | p4
  deriving DecidableEq

/-- `PRIORITY_RANK`: 0 is the most urgent. -/
def Band.rank : Band → ℕ
  | p1 => 0
  | p2 => 1
  | p3 => 2
  | p4 => 3

def version : Text := "operational-priority-1.2"

/-- `_BASE_TABLE`. -/
def basePriority : ThreatBand → Tier → Band
  | .crit, .confirmed | .crit, .likely | .crit, .unknown => .p1
  | .crit, .possible | .crit, .weak => .p2
  | .crit, .noMatch => .p3
  | .high, .confirmed => .p1
  | .high, .likely | .high, .possible | .high, .weak | .high, .unknown => .p2
  | .high, .noMatch => .p3
  | .med, .confirmed | .med, .likely => .p2
  | .med, .possible | .med, .weak | .med, .unknown => .p3
  | .med, .noMatch => .p4
  | .low, .confirmed | .low, .likely | .other _, .confirmed | .other _, .likely => .p3
  | .low, _ | .other _, _ => .p4

def escalateBand : Band → Band
  | .p1 => .p1
  | .p2 => .p1
  | .p3 => .p2
  | .p4 => .p4

/-- The optional inputs of `derive_operational_priority`. -/
structure Signals where
  corrEscalation : Bool
  epss : Option ℚ
  epssRising : Bool
  internetFacing : Option Bool
  isKev : Option Bool

def ThreatBand.isHighOrMed : ThreatBand → Bool
  | .high | .med => true
  | _ => false

/-- `TIER_RANK[env_tier] >= TIER_RANK["POSSIBLE"]`. -/
def envGePossible (tier : Tier) : Bool := decide (Tier.possible.rank ≤ tier.rank)

def epssBump (threat : ThreatBand) (tier : Tier) (s : Signals) (band : Band) : Band :=
  if threat.isHighOrMed ∧ 1 / 2 ≤ s.epss.getD 0 ∧ envGePossible tier ∧ band ≠ .p1 then escalateBand band
  else band

def risingBump (tier : Tier) (s : Signals) (base band : Band) : Band :=
  if s.epssRising ∧ envGePossible tier ∧ base = .p3 ∧ band = .p3 then .p2 else band

def exposureBump (threat : ThreatBand) (tier : Tier) (s : Signals) (band : Band) : Band :=
  if (threat = .crit ∨ s.isKev = some true) ∧ s.internetFacing = some true ∧ tier ≠ .noMatch ∧ band = .p2 then .p1
  else band

def correlationBump (s : Signals) (band : Band) : Band :=
  if s.corrEscalation ∧ (band = .p2 ∨ band = .p3) then escalateBand band else band

/-- `_RATIONALE`, for the pairs it has. -/
def rationaleEntry : ThreatBand → Tier → Option String
  | .crit, .confirmed => "Strong exploitation signals with confirmed vulnerable version in My Stack."
  | .crit, .likely => "Strong exploitation signals; product overlap — verify exact version."
  | .crit, .possible =>
    "Strong exploitation signals; partial stack overlap — verify before treating as in-scope."
  | .crit, .weak => "Strong exploitation signals; weak textual overlap only — verify version."
  | .crit, .unknown => "Strong exploitation signals; environment not assessed — provisional priority."
  | .crit, .noMatch =>
    "Strong exploitation signals but no My Stack match — lower urgency for your environment."
  | .high, .confirmed =>
    "High exploitation signals with a confirmed vulnerable version match in My Stack — investigate exposure."
  | .high, .likely => "High threat with unverified product overlap."
  | .high, .possible => "High threat with partial overlap — verify version."
  | .high, .weak => "High threat with weak overlap — verify relevance."
  | .high, .unknown => "High threat; environment unknown — provisional priority."
  | .high, .noMatch => "High threat but not matched to your profile."
  | .med, .confirmed => "Moderate threat affecting a confirmed asset — schedule investigation."
  | .med, .likely => "Moderate threat with product overlap."
  | .med, .possible => "Moderate threat with unverified overlap."
  | .med, .weak => "Moderate threat with weak overlap."
  | .med, .unknown => "Moderate threat; environment unknown — provisional priority."
  | .med, .noMatch => "Moderate threat with no stack match — informational."
  | .low, .confirmed => "Low active threat but asset match — scheduled review."
  | .low, .likely => "Low threat with product overlap."
  | .low, .possible => "Low threat — informational."
  | .low, .weak => "Low threat — informational."
  | .low, .unknown => "Low active threat — informational unless environment changes."
  | .low, .noMatch => "Low threat with no stack relevance."
  | .other _, _ => none

def ThreatBand.name : ThreatBand → Text
  | .crit => "CRIT"
  | .high => "HIGH"
  | .med => "MED"
  | .low => "LOW"
  | .other name => name

def tierName : Tier → Text
  | .confirmed => "CONFIRMED"
  | .likely => "LIKELY"
  | .possible => "POSSIBLE"
  | .weak => "WEAK"
  | .unknown => "UNKNOWN"
  | .noMatch => "NO_MATCH"

def rationale (threat : ThreatBand) (tier : Tier) : Text :=
  match rationaleEntry threat tier with
  | some text => text.toList
  | none => threat.name ++ (" threat in " : String) ++ tierName tier ++ (" environment." : String)

structure OperationalPriority where
  version : Text
  band : Band
  provisional : Bool
  escalatedByCorrelation : Bool
  rationale : Text
  baseBand : Band

/-- Append a sentence to the rationale when its rule fired. -/
def noteIf (fired : Bool) (note text : Text) : Text := if fired then text ++ (" " : String) ++ note else text

def deriveOperationalPriority (threat : ThreatBand) (tier : Tier) (s : Signals) : OperationalPriority :=
  let base := basePriority threat tier
  let afterEpss := epssBump threat tier s base
  let afterRising := risingBump tier s base afterEpss
  let afterExposure := exposureBump threat tier s afterRising
  let band := correlationBump s afterExposure
  let provisional := decide (tier = .unknown)
  { version
    band
    provisional
    escalatedByCorrelation := decide (band ≠ afterExposure)
    rationale :=
      noteIf (decide (band ≠ afterExposure))
        "Escalated one band due to high-confidence active campaign linkage." <|
      noteIf (decide (afterExposure ≠ afterRising))
        "Escalated P2→P1: CISA KEV / CRIT threat with internet-facing asset (Environment not NO_MATCH)." <|
      noteIf (decide (afterRising ≠ afterEpss)) "Escalated P3→P2 due to rising EPSS." <|
      noteIf (decide (afterEpss ≠ base)) "Escalated one band due to EPSS ≥ 0.5." <|
      noteIf provisional "Environment unknown — priority may change once a profile is loaded." <|
      rationale threat tier
    baseBand := base }

theorem epssBump_le (threat : ThreatBand) (tier : Tier) (s : Signals) (band : Band) :
    (epssBump threat tier s band).rank ≤ band.rank := by
  unfold epssBump
  split
  · cases band <;> simp [escalateBand, Band.rank]
  · exact le_rfl

theorem basePriority_anti (threat : ThreatBand) {t t' : Tier} (ht : t ≠ .unknown) (ht' : t' ≠ .unknown)
    (h : t.rank ≤ t'.rank) : (basePriority threat t').rank ≤ (basePriority threat t).rank := by
  cases threat <;> cases t <;> cases t' <;> simp_all [Tier.rank, basePriority, Band.rank]

theorem epssBump_anti (threat : ThreatBand) (s : Signals) {t t' : Tier} {b b' : Band}
    (hg : envGePossible t = true → envGePossible t' = true) (hb : b'.rank ≤ b.rank) :
    (epssBump threat t' s b').rank ≤ (epssBump threat t s b).rank := by
  unfold epssBump
  by_cases hc : threat.isHighOrMed ∧ 1 / 2 ≤ s.epss.getD 0
  · cases hg1 : envGePossible t <;> cases hg2 : envGePossible t' <;> cases b <;> cases b' <;>
      simp_all [escalateBand, Band.rank]
  · have hn : ∀ P : Prop, ¬(threat.isHighOrMed = true ∧ 1 / 2 ≤ s.epss.getD 0 ∧ P) :=
      fun P h ↦ hc ⟨h.1, h.2.1⟩
    rw [if_neg (hn _), if_neg (hn _)]
    exact hb

theorem risingBump_anti (s : Signals) {t t' : Tier} {base base' b b' : Band}
    (hg : envGePossible t = true → envGePossible t' = true) (hbase : base'.rank ≤ base.rank)
    (hb : b'.rank ≤ b.rank) (hle : b'.rank ≤ base'.rank) :
    (risingBump t' s base' b').rank ≤ (risingBump t s base b).rank := by
  unfold risingBump
  cases hr : s.epssRising
  · simpa using hb
  · cases hg1 : envGePossible t <;> cases hg2 : envGePossible t' <;> cases base <;> cases base' <;>
      cases b <;> cases b' <;> simp_all [Band.rank]

theorem exposureBump_anti (threat : ThreatBand) (s : Signals) {t t' : Tier} {b b' : Band}
    (ht : t.rank ≤ t'.rank) (hb : b'.rank ≤ b.rank) :
    (exposureBump threat t' s b').rank ≤ (exposureBump threat t s b).rank := by
  have hn : t ≠ .noMatch → t' ≠ .noMatch := by
    rintro h rfl
    cases t <;> simp_all [Tier.rank]
  unfold exposureBump
  by_cases hc : (threat = .crit ∨ s.isKev = some true) ∧ s.internetFacing = some true
  · simp only [hc, true_and]
    by_cases h1 : t = .noMatch <;> by_cases h2 : t' = .noMatch <;> cases b <;> cases b' <;>
      simp_all [Band.rank]
  · have hf : ∀ P : Prop, ¬((threat = .crit ∨ s.isKev = some true) ∧ s.internetFacing = some true ∧ P) :=
      fun P h ↦ hc ⟨h.1, h.2.1⟩
    rw [if_neg (hf _), if_neg (hf _)]
    exact hb

theorem correlationBump_anti (s : Signals) {b b' : Band} (hb : b'.rank ≤ b.rank) :
    (correlationBump s b').rank ≤ (correlationBump s b).rank := by
  unfold correlationBump
  cases s.corrEscalation
  · simpa using hb
  · cases b <;> cases b' <;> simp_all [escalateBand, Band.rank]

/-- A higher environment tier is never less urgent, all other signals equal. UNKNOWN, which
stands for a missing profile, is left out: its column is provisional. -/
theorem band_anti (threat : ThreatBand) (s : Signals) {t t' : Tier} (ht : t ≠ .unknown) (ht' : t' ≠ .unknown)
    (h : t.rank ≤ t'.rank) :
    (deriveOperationalPriority threat t' s).band.rank ≤ (deriveOperationalPriority threat t s).band.rank := by
  have hg : envGePossible t = true → envGePossible t' = true := by
    simp only [envGePossible, decide_eq_true_eq]
    exact fun hp ↦ hp.trans h
  have hbase := basePriority_anti threat ht ht' h
  have hepss := epssBump_anti threat s hg hbase
  have hrising := risingBump_anti s hg hbase hepss (epssBump_le threat t' s _)
  exact correlationBump_anti s (exposureBump_anti threat s h hrising)

/-- What the CPE score alone gives. -/
def backendTier (score : ℕ) : Tier := if 100 ≤ score then .confirmed else if 35 ≤ score then .weak else .noMatch

theorem backendTier_mono {s₁ s₂ : ℕ} (h : s₁ ≤ s₂) : (backendTier s₁).rank ≤ (backendTier s₂).rank := by
  unfold backendTier
  repeat' split
  all_goals first | omega | decide

theorem fuzzyEnvironment_le_backendTier {t : FuzzyTier} {s : ℕ} :
    (fuzzyEnvironment t).rank ≤ (backendTier s).rank ↔
      ¬(s < 100 ∧ (65 ≤ t.score ∨ (s < 35 ∧ 35 ≤ t.score))) := by
  unfold backendTier
  by_cases h1 : 100 ≤ s <;> by_cases h2 : 35 ≤ s <;> cases t <;>
    simp only [h1, h2, ↓reduceIte, fuzzyEnvironment, Tier.rank, FuzzyTier.score] <;> omega

section
variable [Interp]

/-- The CPE score rises from 0 and the fuzzy fallback, which is only asked at 0, had ranked the
profile above what the CPE score alone gives. -/
def FallbackOutranks (cve : Dict) (profile : Option Dict) (s₁ s₂ : ℕ) : Prop :=
  s₁ = 0 ∧ 0 < s₂ ∧ s₂ < 100 ∧ ∃ p l, profile = some p ∧ p ≠ [] ∧ offers cve p = .ok l ∧
    (65 ≤ (bestOffer l).tier.score ∨ (s₂ < 35 ∧ 35 ≤ (bestOffer l).tier.score))

theorem tier_ne_unknown {cve p : Dict} {backend : Option ℕ} {env : Relevance}
    (h : classifyEnvironment cve (some p) backend = .ok env) : env.tier ≠ .unknown := by
  simp only [classifyEnvironment, bind_eq_ok, pure_eq_ok, Except.ok.injEq] at h
  obtain ⟨r, -, rfl⟩ := h
  dsimp only [Environment.grade]
  repeat' split
  all_goals simp

theorem tier_mono_iff {cve : Dict} {profile : Option Dict} {s₁ s₂ : ℕ} {env₁ env₂ : Relevance} (h : s₁ ≤ s₂)
    (h₁ : classifyEnvironment cve profile (some s₁) = .ok env₁)
    (h₂ : classifyEnvironment cve profile (some s₂) = .ok env₂) :
    env₁.tier.rank ≤ env₂.tier.rank ↔ ¬FallbackOutranks cve profile s₁ s₂ := by
  match profile with
  | none =>
    simp only [classifyEnvironment, Except.ok.injEq] at h₁ h₂
    simp [← h₁, ← h₂, FallbackOutranks]
  | some [] =>
    rw [classify_empty h₁, classify_empty h₂]
    have hn : ¬FallbackOutranks cve (some []) s₁ s₂ := by
      rintro ⟨_, _, _, p, l, hp, hne, _⟩
      cases hp
      exact hne rfl
    simp only [hn, not_false_eq_true, iff_true, Option.getD_some]
    split <;> split <;> first | omega | decide
  | some (f :: fs) =>
    have hp : (f :: fs) ≠ [] := by simp
    rcases Nat.eq_zero_or_pos s₂ with rfl | hs₂
    · obtain rfl : s₁ = 0 := by omega
      have he : env₁ = env₂ := by simpa [h₁] using h₂
      simp [he, FallbackOutranks]
    · have ht₂ : env₂.tier = backendTier s₂ := classify_backend hp hs₂ h₂
      rcases Nat.eq_zero_or_pos s₁ with rfl | hs₁
      · obtain ⟨l, hl, ht₁⟩ := classify_fuzzy hp h₁
        rw [ht₁, ht₂, fuzzyEnvironment_le_backendTier]
        simp [FallbackOutranks, hs₂, hl]
      · have ht₁ : env₁.tier = backendTier s₁ := classify_backend hp hs₁ h₁
        have hn : ¬FallbackOutranks cve (some (f :: fs)) s₁ s₂ := fun hx ↦ absurd hx.1 (by omega)
        simp [hn, ht₁, ht₂, backendTier_mono h]

/-- More CPE evidence never weakens tier or band, except exactly where it switches the fuzzy
fallback off. -/
theorem tier_and_band_mono (cve : Dict) (profile : Option Dict) (s₁ s₂ : ℕ) {env₁ env₂ : Relevance}
    (threat : ThreatBand) (s : Signals) (h : s₁ ≤ s₂)
    (h₁ : classifyEnvironment cve profile (some s₁) = .ok env₁)
    (h₂ : classifyEnvironment cve profile (some s₂) = .ok env₂) :
    (env₁.tier.rank ≤ env₂.tier.rank ↔ ¬FallbackOutranks cve profile s₁ s₂) ∧
      (¬FallbackOutranks cve profile s₁ s₂ →
        (deriveOperationalPriority threat env₂.tier s).band.rank ≤
          (deriveOperationalPriority threat env₁.tier s).band.rank) := by
  refine ⟨tier_mono_iff h h₁ h₂, fun hn ↦ ?_⟩
  have hle := (tier_mono_iff h h₁ h₂).mpr hn
  cases profile with
  | none =>
    simp only [classifyEnvironment, Except.ok.injEq] at h₁ h₂
    simp [← h₁, ← h₂]
  | some p => exact band_anti threat s (tier_ne_unknown h₁) (tier_ne_unknown h₂) hle

end

section
local instance : Interp := ascii fun _ ↦ none

def noSignals : Signals := ⟨false, none, false, none, none⟩

theorem tier_and_band_mono_at_fifty_five :
    ∃ env₁ env₂, classifyEnvironment log4jCve (some (log4jProfile "2.17.1")) (some 55) = .ok env₁ ∧
      classifyEnvironment log4jCve (some (log4jProfile "2.17.1")) (some 100) = .ok env₂ ∧
      env₁.tier.rank ≤ env₂.tier.rank ∧
      (deriveOperationalPriority .crit env₂.tier noSignals).band.rank ≤
        (deriveOperationalPriority .crit env₁.tier noSignals).band.rank := by
  have hn : ¬FallbackOutranks log4jCve (some (log4jProfile "2.17.1")) 55 100 := fun h ↦ absurd h.1 (by decide)
  refine ⟨_, _, rfl, rfl, ?_⟩
  obtain ⟨ht, hb⟩ := tier_and_band_mono log4jCve (some (log4jProfile "2.17.1")) 55 100 .crit noSignals
    (by decide) rfl rfl
  exact ⟨ht.mpr hn, hb hn⟩

/-- A product match by name is LIKELY at score 0 and only WEAK once the CPE score is 55; a
critical CVE drops from P1 to P2. -/
theorem tier_drops_at_product_match :
    ∃ env₁ env₂, classifyEnvironment log4jCve (some (log4jProfile "")) (some 0) = .ok env₁ ∧
      classifyEnvironment log4jCve (some (log4jProfile "")) (some 55) = .ok env₂ ∧
      env₂.tier.rank < env₁.tier.rank ∧
      (deriveOperationalPriority .crit env₁.tier noSignals).band = .p1 ∧
      (deriveOperationalPriority .crit env₂.tier noSignals).band = .p2 := by
  refine ⟨_, _, rfl, rfl, ?_⟩
  decide

end

end Briefr.Scoring.Priority
