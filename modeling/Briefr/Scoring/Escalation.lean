import Briefr.Scoring.Priority

namespace Briefr.Scoring.Escalation

open Briefr.Python Environment Priority

structure Evidence where
  type : Option Text
  iocType : Option Text

structure Campaign where
  lifecycle : Option Text
  confidence : Option Text
  memberCount : Option ℤ
  evidence : List Evidence

/-- The part of a correlation response that either side reads. -/
structure CorrelationResult where
  campaigns : List Campaign
  error : Option Text

def liveLifecycles : List Text := [("active" : String), ("emerging" : String)]

def strongIocTypes : List Text := [("HASH" : String), ("DOMAIN" : String)]

def hasSamePulse (evidence : List Evidence) : Bool :=
  evidence.any fun e ↦ e.type == some ("same_pulse" : String).toList

section
variable [Interp]

def hasStrongIoc (evidence : List Evidence) : Bool :=
  evidence.any fun e ↦ e.type == some ("shared_indicator" : String).toList &&
    decide (upper (e.iocType.getD []) ∈ strongIocTypes)

/-- `correlation_escalation` of the backend. -/
def correlationEscalation : Option CorrelationResult → Bool
  | none => false
  | some result => result.campaigns.any fun camp ↦
      decide (lower (camp.lifecycle.getD []) ∈ liveLifecycles) &&
      decide (lower (camp.confidence.getD []) = ("high" : String)) &&
      decide (¬camp.memberCount.getD 0 < 2) &&
      (hasSamePulse camp.evidence && hasStrongIoc camp.evidence)

end

/-- What the route of `/risk` reads: the bands of threat and environment, the row of the CVE, the
signals of `calculate_momentum` and the profile. -/
structure RiskInputs where
  threat : ThreatBand
  tier : Tier
  epssScore : Option ℚ
  isKev : Bool
  momentumSignals : List Value
  profile : Option Dict

def isEpssRising : Value → Bool
  | .dict fields =>
    match Dict.get fields ("type" : String) with
    | .str s => s == ("epss_rising" : String).toList
    | _ => false
  | _ => false

/-- The `internet_facing` entry of `extract_profile_exposure_flags`. -/
def internetFacing : Option Dict → Option Bool
  | none => none
  | some profile =>
    match Dict.get profile ("internet_facing" : String) with
    | .none => none
    | raw => some raw.truthy

def RiskInputs.signals (i : RiskInputs) (corrEscalation : Bool) : Signals where
  corrEscalation
  epss := i.epssScore
  epssRising := i.momentumSignals.any isEpssRising
  internetFacing := internetFacing i.profile
  isKev := some i.isKev

/-- The part of a `/risk` response that the client reads. -/
structure RiskScore where
  threat : Option ThreatBand
  environment : Option Tier
  operationalPriority : Option OperationalPriority

def RiskScore.band (r : RiskScore) : Option Band := r.operationalPriority.map (·.band)

/-- The route derives the priority with `corr_escalation=False`. -/
def cveRiskScore (i : RiskInputs) : RiskScore where
  threat := some i.threat
  environment := some i.tier
  operationalPriority := some (deriveOperationalPriority i.threat i.tier (i.signals false))

namespace Client

section
variable [Interp]

/-- `correlationEscalation` of the frontend: the loop with its `continue`s. -/
def correlationEscalation (result : Option CorrelationResult) : Bool :=
  go ((result.map (·.campaigns)).getD [])
where
  go : List Campaign → Bool
    | [] => false
    | camp :: rest =>
      if lower (camp.lifecycle.getD []) ∉ liveLifecycles then go rest
      else if lower (camp.confidence.getD []) ≠ ("high" : String) then go rest
      else if camp.memberCount.getD 0 < 2 then go rest
      else if hasSamePulse camp.evidence && hasStrongIoc camp.evidence then true
      else go rest

end

/-- `OP_BASE_TABLE`. -/
def opBaseTable : ThreatBand → Tier → Option Band
  | .crit, .confirmed => some .p1
  | .crit, .likely => some .p1
  | .crit, .possible => some .p2
  | .crit, .weak => some .p2
  | .crit, .unknown => some .p1
  | .crit, .noMatch => some .p3
  | .high, .confirmed => some .p1
  | .high, .likely => some .p2
  | .high, .possible => some .p2
  | .high, .weak => some .p2
  | .high, .unknown => some .p2
  | .high, .noMatch => some .p3
  | .med, .confirmed => some .p2
  | .med, .likely => some .p2
  | .med, .possible => some .p3
  | .med, .weak => some .p3
  | .med, .unknown => some .p3
  | .med, .noMatch => some .p4
  | .low, .confirmed => some .p3
  | .low, .likely => some .p3
  | .low, .possible => some .p4
  | .low, .weak => some .p4
  | .low, .unknown => some .p4
  | .low, .noMatch => some .p4
  | .other _, _ => none

structure Derived where
  band : Band
  provisional : Bool
  escalatedByCorrelation : Bool
  baseBand : Band

def deriveOperationalPriority (threat : ThreatBand) (tier : Tier) (corrEscalation : Bool) : Derived :=
  let base := (opBaseTable threat tier).getD ((opBaseTable .low tier).getD .p4)
  let band := if corrEscalation ∧ (base = .p2 ∨ base = .p3) then (if base = .p2 then .p1 else .p2) else base
  { band
    provisional := decide (tier = .unknown)
    escalatedByCorrelation := decide (band ≠ base)
    baseBand := base }

/-- What `String.prototype.trim` removes at both ends. -/
def isTrimmed (c : Char) : Bool :=
  (9 ≤ c.toNat && c.toNat ≤ 13) || (0x2000 ≤ c.toNat && c.toNat ≤ 0x200A) ||
    c.toNat ∈ [0x20, 0xA0, 0x1680, 0x2028, 0x2029, 0x202F, 0x205F, 0x3000, 0xFEFF]

def trim (s : Text) : Text := (s.dropWhile isTrimmed).rdropWhile isTrimmed

section
variable [Interp]

/-- The rationale gets the sentence of the bump, unless it already speaks of one. -/
def withCampaignNote (rationale : Text) : Text :=
  if isIn ("Escalated one band" : String) rationale then rationale
  else trim (rationale ++ (" Escalated one band due to high-confidence active campaign linkage." : String))

def applyCorrelationEscalationToRiskScore (r : RiskScore) (correlation : Option CorrelationResult) : RiskScore :=
  match r.operationalPriority, r.threat, correlation with
  | some base, some threat, some result =>
    if result.error.isSome then r
    else if !correlationEscalation (some result) then r
    else
      let bumped := deriveOperationalPriority threat (r.environment.getD .unknown) true
      if !bumped.escalatedByCorrelation then r
      else if base.escalatedByCorrelation ∧ base.band = bumped.band then r
      else
        { r with operationalPriority := some { base with
            band := bumped.band
            escalatedByCorrelation := true
            baseBand := bumped.baseBand
            rationale := withCampaignNote base.rationale } }
  | _, _, _ => r

end

theorem opBaseTable_getD (threat : ThreatBand) (tier : Tier) :
    (opBaseTable threat tier).getD ((opBaseTable .low tier).getD .p4) = basePriority threat tier := by
  cases threat <;> cases tier <;> rfl

/-- The client's bump is the server's, on the band of the base table. -/
theorem derive_band (threat : ThreatBand) (tier : Tier) (corrEscalation : Bool) :
    (deriveOperationalPriority threat tier corrEscalation).band =
      if corrEscalation ∧ (basePriority threat tier = .p2 ∨ basePriority threat tier = .p3) then
        escalateBand (basePriority threat tier)
      else basePriority threat tier := by
  simp only [deriveOperationalPriority, opBaseTable_getD]
  cases basePriority threat tier <;> simp [escalateBand]

theorem derive_escalated (threat : ThreatBand) (tier : Tier) :
    (deriveOperationalPriority threat tier true).escalatedByCorrelation =
      decide (basePriority threat tier = .p2 ∨ basePriority threat tier = .p3) := by
  simp only [deriveOperationalPriority, opBaseTable_getD]
  cases basePriority threat tier <;> simp

variable [Interp]

theorem correlationEscalation_eq (result : Option CorrelationResult) :
    correlationEscalation result = Escalation.correlationEscalation result := by
  match result with
  | none => rfl
  | some result =>
    have hgo : ∀ camps : List Campaign,
        correlationEscalation.go camps = Escalation.correlationEscalation (some ⟨camps, none⟩) := by
      intro camps
      induction camps with
      | nil => rfl
      | cons camp rest ih =>
        rw [correlationEscalation.go, ih]
        simp only [Escalation.correlationEscalation, List.any_cons]
        by_cases hl : lower (camp.lifecycle.getD []) ∈ liveLifecycles
        · by_cases hh : lower (camp.confidence.getD []) = ("high" : String)
          · by_cases hm : camp.memberCount.getD 0 < 2
            · simp only [hl, hh, hm, not_true_eq_false, ne_eq, ↓reduceIte, decide_false, Bool.and_false,
                Bool.false_and, Bool.false_or]
            · simp only [hl, hh, hm, not_true_eq_false, ne_eq, ↓reduceIte, decide_true, not_false_eq_true,
                Bool.true_and]
              cases hasSamePulse camp.evidence && hasStrongIoc camp.evidence <;> rfl
          · simp only [hl, hh, not_true_eq_false, ne_eq, not_false_eq_true, ↓reduceIte, decide_false, Bool.and_false,
              Bool.false_and, Bool.false_or]
        · simp only [hl, not_false_eq_true, ↓reduceIte, decide_false, Bool.false_and, Bool.false_or]
    exact hgo result.campaigns

/-- The band the client shows: its own bump of the base table, or what the server sent. -/
theorem band_apply (threat : ThreatBand) (tier : Tier) (op : OperationalPriority) (c : CorrelationResult)
    (hc : c.error = none) (hop : op.escalatedByCorrelation = false) :
    (applyCorrelationEscalationToRiskScore ⟨some threat, some tier, some op⟩ (some c)).band =
      some (if Escalation.correlationEscalation (some c) ∧
          (basePriority threat tier = .p2 ∨ basePriority threat tier = .p3) then
        escalateBand (basePriority threat tier)
      else op.band) := by
  simp only [applyCorrelationEscalationToRiskScore, hc, Option.isSome_none, Bool.false_eq_true, if_false,
    correlationEscalation_eq, Option.getD_some, derive_escalated, hop, false_and]
  cases Escalation.correlationEscalation (some c) with
  | false => simp [RiskScore.band]
  | true =>
    by_cases hb : basePriority threat tier = .p2 ∨ basePriority threat tier = .p3
    · simp [hb, RiskScore.band, derive_band]
    · simp [hb, RiskScore.band]

end Client

/-- An EPSS rule of the server lifts the band above the P3 of the base table. -/
def EpssLiftsP3 (i : RiskInputs) : Prop :=
  basePriority i.threat i.tier = .p3 ∧ envGePossible i.tier ∧
    ((i.threat = .med ∧ 1 / 2 ≤ i.epssScore.getD 0) ∨ i.momentumSignals.any isEpssRising)

theorem derive_not_escalated (i : RiskInputs) :
    (deriveOperationalPriority i.threat i.tier (i.signals false)).escalatedByCorrelation = false := by
  simp only [deriveOperationalPriority, correlationBump, RiskInputs.signals, Bool.false_eq_true, false_and, if_false,
    ne_eq, not_true_eq_false, decide_false]

/-- The band of the server before the correlation bump. -/
def uncorrelatedBand (i : RiskInputs) : Band :=
  let s := i.signals false
  let base := basePriority i.threat i.tier
  exposureBump i.threat i.tier s (risingBump i.tier s base (epssBump i.threat i.tier s base))

theorem derive_band_false (i : RiskInputs) :
    (deriveOperationalPriority i.threat i.tier (i.signals false)).band = uncorrelatedBand i := by
  simp only [deriveOperationalPriority, correlationBump, uncorrelatedBand, RiskInputs.signals, Bool.false_eq_true,
    false_and, if_false]

theorem derive_band_true (i : RiskInputs) :
    (deriveOperationalPriority i.threat i.tier (i.signals true)).band =
      if uncorrelatedBand i = .p2 ∨ uncorrelatedBand i = .p3 then escalateBand (uncorrelatedBand i)
      else uncorrelatedBand i := by
  simp only [deriveOperationalPriority, correlationBump, uncorrelatedBand, RiskInputs.signals, true_and]
  rfl

theorem uncorrelatedBand_eq_of_base {i : RiskInputs}
    (h : basePriority i.threat i.tier = .p1 ∨ basePriority i.threat i.tier = .p4) :
    uncorrelatedBand i = basePriority i.threat i.tier := by
  rcases h with h | h <;> simp [uncorrelatedBand, epssBump, risingBump, exposureBump, h, escalateBand]

theorem uncorrelatedBand_of_p2 {i : RiskInputs} (h : basePriority i.threat i.tier = .p2) :
    uncorrelatedBand i = .p1 ∨ uncorrelatedBand i = .p2 := by
  simp only [uncorrelatedBand, h, risingBump, reduceCtorEq, false_and, and_false, if_false]
  unfold epssBump
  split <;> unfold exposureBump <;> split <;> simp [escalateBand]

/-- Above a base of P3 only an EPSS rule can move the band first. -/
theorem uncorrelatedBand_of_p3 {i : RiskInputs} (h : basePriority i.threat i.tier = .p3) :
    uncorrelatedBand i = .p3 ↔ ¬EpssLiftsP3 i := by
  have hm : envGePossible i.tier = true → (i.threat.isHighOrMed = true ↔ i.threat = .med) := by
    intro hg
    revert h hg
    cases i.threat <;> cases i.tier <;>
      simp [basePriority, envGePossible, Tier.rank, ThreatBand.isHighOrMed]
  by_cases hg : envGePossible i.tier = true
  · simp only [uncorrelatedBand, EpssLiftsP3, epssBump, risingBump, exposureBump, h, hg, hm hg, RiskInputs.signals]
    by_cases he : i.threat = .med ∧ 1 / 2 ≤ i.epssScore.getD 0 <;>
      by_cases hr : i.momentumSignals.any isEpssRising = true <;>
      simp [he, hr, escalateBand, ← and_assoc] <;> split <;> simp_all
  · simp [uncorrelatedBand, EpssLiftsP3, epssBump, risingBump, exposureBump, h, hg]

section
variable [Interp]

/-- Client and server agree, and the client never lowers the urgency, exactly where the server
had not already lifted a base of P3 that the correlation bump would lift again. -/
theorem escalation_agrees_iff (i : RiskInputs) (c : CorrelationResult) (hc : c.error = none) :
    (∃ band, (Client.applyCorrelationEscalationToRiskScore (cveRiskScore i) (some c)).band = some band ∧
      band = (deriveOperationalPriority i.threat i.tier
        (i.signals (correlationEscalation (some c)))).band ∧
      ∃ sent, (cveRiskScore i).band = some sent ∧ band.rank ≤ sent.rank) ↔
    ¬(correlationEscalation (some c) = true ∧ EpssLiftsP3 i) := by
  have happ := Client.band_apply i.threat i.tier
    (deriveOperationalPriority i.threat i.tier (i.signals false)) c hc (derive_not_escalated i)
  have hsent : (cveRiskScore i).band = some (uncorrelatedBand i) := by
    rw [← derive_band_false]
    rfl
  rw [show cveRiskScore i = ⟨some i.threat, some i.tier, _⟩ from rfl] at hsent ⊢
  rw [happ, hsent, derive_band_false]
  simp only [Option.some.injEq, exists_eq_left']
  cases hcorr : correlationEscalation (some c) with
  | false => simp [derive_band_false]
  | true =>
    rw [derive_band_true]
    cases hb : basePriority i.threat i.tier with
    | p1 =>
      have hu := uncorrelatedBand_eq_of_base (.inl hb)
      simp [hu, hb, EpssLiftsP3]
    | p4 =>
      have hu := uncorrelatedBand_eq_of_base (.inr hb)
      simp [hu, hb, EpssLiftsP3]
    | p2 =>
      rcases uncorrelatedBand_of_p2 hb with hu | hu <;> simp [hu, hb, EpssLiftsP3, escalateBand, Band.rank]
    | p3 =>
      simp only [true_and, or_true, and_self, if_true]
      rw [← uncorrelatedBand_of_p3 hb]
      cases uncorrelatedBand i <;> simp [escalateBand, Band.rank]

end

section
local instance escalationInterp : Interp := ascii fun _ ↦ none

/-- An active campaign with a shared pulse and a shared hash. -/
def linkedCampaign : CorrelationResult where
  campaigns := [⟨some ("active" : String), some ("high" : String), some 3,
    [⟨some ("same_pulse" : String), none⟩,
      ⟨some ("shared_indicator" : String), some ("HASH" : String)⟩]⟩]
  error := none

/-- A moderate threat with a partial match in My Stack. -/
def moderate (epss : ℚ) : RiskInputs := ⟨.med, .possible, some epss, false, [], none⟩

theorem escalation_agrees_below_half :
    ∃ band, (Client.applyCorrelationEscalationToRiskScore (cveRiskScore (moderate (1 / 10)))
        (some linkedCampaign)).band = some band ∧
      band = (deriveOperationalPriority .med .possible
        ((moderate (1 / 10)).signals (correlationEscalation (some linkedCampaign)))).band ∧
      ∃ sent, (cveRiskScore (moderate (1 / 10))).band = some sent ∧ band.rank ≤ sent.rank := by
  refine (escalation_agrees_iff (moderate (1 / 10)) linkedCampaign rfl).mpr ?_
  intro ⟨_, _, _, h⟩
  revert h
  decide +kernel

/-- EPSS 0.6 made MED × POSSIBLE a P2; the server would go on to P1, the client stays at P2. -/
theorem escalation_differs_at_high_epss :
    (Client.applyCorrelationEscalationToRiskScore (cveRiskScore (moderate (6 / 10)))
        (some linkedCampaign)).band = some .p2 ∧
      (deriveOperationalPriority .med .possible
        ((moderate (6 / 10)).signals (correlationEscalation (some linkedCampaign)))).band = .p1 := by
  decide +kernel

end

end Briefr.Scoring.Escalation
