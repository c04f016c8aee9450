import Briefr.Correlation.InfrastructurePeers
import Briefr.Feeds.CveRecordV5

namespace Briefr.Correlation

open Briefr.Python Briefr.Library Briefr.Library.StableSort Briefr.Feeds

/-- A row of `correlation_campaigns`. -/
structure CampaignRow (F : Type) where
  campaignId : Text
  primaryPulseId : Text
  label : Text
  adversary : Text
  malwareFamilies : Json F
  tags : Json F
  targetedCountries : Json F
  confidence : Text
  memberCount : ℕ
  lifecycle : Text
  authorCount : ℕ
  firstSeen : Text
  lastSeen : Text
  familyId : Text
  retracted : Bool

structure CveRow (F : Type) where
  affectedProducts : List (Obj F)
  description : Text
  isKev : Bool
  hasPoc : Bool

structure GroupRow (F : Type) where
  name : Text
  sectors : List (Json F)
  techniques : List Text

structure TemporalRow (F : Type) where
  vendor : Text
  currentWeekCount : ℤ
  averageWeeklyCount : F
  anomalyScore : F

/-- The tables that a computation reads, with the answers of the joins over shared indicators as the queries
return them. A suppression stands with its CVE, a member with its campaign, a link of a pulse with
its CVE. -/
structure Tables (F : Type) where
  suppressions : List (Text × Suppression)
  familyPulses : List FamilyPulse
  campaigns : List (CampaignRow F)
  members : List (Text × Text)
  links : List (Text × Text)
  sharedIocs : Text → List SharedIoc
  sharedWith : Text → Text → List (Text × Text)
  confirmations : ℕ → Text → Confirmations
  corroborations : Text → Text → List Text
  hubEdges : Text → ℕ
  actorNames : Text → List Text
  techniques : Text → Finset Text
  groups : List (GroupRow F)
  aliases : List (Text × Text)
  adversaries : Text → List Text
  cves : Text → Option (CveRow F)
  temporal : List (TemporalRow F)
  stackTerms : List Text

structure Config (F : Type) where
  hubCap : ℕ
  maxMembers : ℕ
  minOverlap : F
  otxConfigured : Bool
  engineVersion : Text

namespace Tables

variable {F : Type} (db : Tables F)

def loadSuppressions (cve : Text) : List Suppression := (db.suppressions.filter fun e ↦ e.1 = cve).map Prod.snd

/-- `COUNT(DISTINCT pulse_id)`. -/
def pulseCount (cve : Text) : ℕ := ((db.links.filter fun l ↦ l.2 = cve).map Prod.fst).dedup.length

def membersOf (campaignId : Text) : List Text :=
  ((db.members.filter fun m ↦ m.1 = campaignId).map Prod.snd).insertionSort (· ≤ ·)

/-- The campaigns of a CVE that are not retracted, the largest first. -/
def campaignsOf (cve : Text) : List (CampaignRow F) :=
  sortBy (fun c ↦ toLex (-(c.memberCount : ℤ), c.label))
    (db.campaigns.filter fun c ↦ c.retracted = false ∧ (c.campaignId, cve) ∈ db.members)

variable {db}

theorem mem_loadSuppressions {cve : Text} {s : Suppression} :
    s ∈ db.loadSuppressions cve ↔ (cve, s) ∈ db.suppressions := by
  rw [loadSuppressions, List.mem_map]
  constructor
  · intro ⟨e, he, hs⟩
    obtain ⟨he, hcve⟩ := List.mem_filter.mp he
    rwa [← of_decide_eq_true hcve, ← hs]
  · intro h
    exact ⟨_, List.mem_filter.mpr ⟨h, decide_eq_true rfl⟩, rfl⟩

theorem mem_membersOf {campaignId m : Text} : m ∈ db.membersOf campaignId ↔ (campaignId, m) ∈ db.members := by
  rw [membersOf, (List.perm_insertionSort _ _).mem_iff, List.mem_map]
  constructor
  · intro ⟨e, he, hm⟩
    obtain ⟨he, hid⟩ := List.mem_filter.mp he
    rw [decide_eq_true_eq] at hid
    rwa [← hid, ← hm]
  · intro h
    exact ⟨_, List.mem_filter.mpr ⟨h, by simp⟩, rfl⟩

theorem mem_campaignsOf {cve : Text} {c : CampaignRow F} :
    c ∈ db.campaignsOf cve ↔ c ∈ db.campaigns ∧ c.retracted = false ∧ (c.campaignId, cve) ∈ db.members := by
  rw [campaignsOf, (perm_sortBy _ _).mem_iff, List.mem_filter, decide_eq_true_eq]

end Tables

/-- The checks and texts about attribution. -/
class Attribution (F : Type) where
  sanitizePulseText : Text → ℕ → Text
  attributionConflict : List (Text × Text) → Text → List Text → Bool
  attributionClaims : List (Text × Text) → Text → List Text → Text → Json F

/-- `apply_member_cap`. -/
def applyMemberCap (maxMembers : ℕ) (members : List Text) : List Text := (members.insertionSort (· ≤ ·)).take maxMembers

section
variable [Interp]

def isInfrastructureSuppressed (suppressions : List Suppression) (peerCve : Text) : Bool :=
  suppressions.any fun s ↦ (s.scope = .infrastructure ∨ s.scope = .cvePair) ∧ s.scopeKey = upper peerCve

def filterCampaignMembers (hubCap maxMembers : ℕ) (cve : Text) (members : List Text) (pulseCount : Text → ℕ) : List Text :=
  let anchor := upper cve
  let unique := sortedSet (anchor :: (members.filter (· ≠ [])).map upper)
  let peers := unique.filter (· ≠ anchor)
  if hubCap < pulseCount anchor then applyMemberCap maxMembers (anchor :: peers.take (max 1 (maxMembers - 1)))
  else applyMemberCap maxMembers (anchor :: peers.filter fun peer ↦ ¬hubCap < pulseCount peer)

theorem mem_filterCampaignMembers {hubCap maxMembers : ℕ} {cve m : Text} {members : List Text} {pulseCount : Text → ℕ}
    (h : m ∈ filterCampaignMembers hubCap maxMembers cve members pulseCount) :
    m = upper cve ∨ ∃ member ∈ members, m = upper member := by
  have hunique : ∀ m ∈ sortedSet (upper cve :: (members.filter (· ≠ [])).map upper),
      m = upper cve ∨ ∃ member ∈ members, m = upper member := by
    intro m hm
    rcases List.mem_cons.mp (mem_sortedSet.mp hm) with rfl | hm
    · exact .inl rfl
    · obtain ⟨member, hmember, rfl⟩ := List.mem_map.mp hm
      exact .inr ⟨member, (List.mem_filter.mp hmember).1, rfl⟩
  have hcap : ∀ l : List Text, m ∈ applyMemberCap maxMembers l → m ∈ l := fun l hm ↦
    (List.perm_insertionSort _ l).mem_iff.mp (List.mem_of_mem_take hm)
  simp only [filterCampaignMembers] at h
  split at h
  · rcases List.mem_cons.mp (hcap _ h) with h | h
    · exact .inl h
    · exact hunique m (List.mem_filter.mp (List.mem_of_mem_take h)).1
  · rcases List.mem_cons.mp (hcap _ h) with h | h
    · exact .inl h
    · exact hunique m (List.mem_filter.mp (List.mem_filter.mp h).1).1

end

section
variable {F : Type}

structure Boosters where
  kev : List Text
  exploit : List Text

def Boosters.toJson (b : Boosters) : Json F :=
  .dict [("kev".toList, .texts b.kev), ("exploit".toList, .texts b.exploit)]

/-- The members other than the anchor that are listed as exploited, and those with an exploit only. -/
def kevExploitBoosters (db : Tables F) (members : List Text) (anchor : Text) : Boosters :=
  let others := sortedSet (members.filter fun m ↦ m ≠ [] ∧ m ≠ anchor)
  { kev := others.filter fun m ↦ (db.cves m).any CveRow.isKev
    exploit := others.filter fun m ↦ (db.cves m).any fun row ↦ row.hasPoc && !row.isKev }

structure CampaignConfidence (F : Type) where
  level : Text
  why : Option Text
  factors : List (Json F)

def factor (name reason : String) : Json F :=
  .dict [("factor".toList, .str name.toList), ("reason".toList, .str reason.toList)]

/-- `campaign_confidence` with `has_same_pulse=True`. -/
def campaignConfidence [Interp] (base : Text) (edges : List (Text × Text)) : CampaignConfidence F :=
  let strong := edges.any fun e ↦ upper e.1 = "HASH".toList ∨ upper e.1 = "DOMAIN".toList
  let url := edges.any fun e ↦ upper e.1 = "URL".toList
  let samePulse := factor "same_pulse" "Co-tagged in the same OTX pulse"
  if strong then
    ⟨"high".toList, none, [samePulse, factor "shared_indicators" "Backed by shared hash or domain indicators"]⟩
  else
    let level := if base = [] then "medium".toList else levelOf (levelIndex base)
    if url = false ∧ level = "high".toList then
      ⟨"medium".toList, some "No shared hash or domain indicators".toList,
        [samePulse, factor "shared_indicators" "No shared hash or domain indicators"]⟩
    else ⟨level, none, [samePulse]⟩

/-- The pairs of type and value that occur for one of the peers, each once. -/
def campaignEdges (db : Tables F) (cve : Text) (filtered : List Text) : List (Text × Text) :=
  ((filtered.filter (· ≠ cve)).flatMap (db.sharedWith cve)).reverse.dedup.reverse

structure CampaignFinding (F : Type) where
  row : CampaignRow F
  members : List Text
  confidence : CampaignConfidence F
  boosters : Boosters
  evidence : List (Json F)
  hasIoc : Bool
  conflict : Bool
  claims : Json F

variable [Interp] [Attribution F]

def conflictText : Text := "Adversary attribution conflicts with MITRE technique-matched actors".toList

def withConflict (conflict : Bool) (c : CampaignConfidence F) : CampaignConfidence F :=
  if conflict then
    ⟨if c.level = "high".toList then "medium".toList else c.level, some conflictText,
      c.factors ++ [.dict [("factor".toList, .str "attribution_conflict".toList), ("reason".toList, .str conflictText)]]⟩
  else c

def campaignEvidence (row : CampaignRow F) (edges : List (Text × Text)) (boosters : Boosters) : List (Json F) :=
  [.dict [("type".toList, .str "same_pulse".toList), ("pulse_id".toList, .str row.primaryPulseId),
      ("pulse_name".toList, .str (Attribution.sanitizePulseText F row.label 240))]] ++
    (edges.take 5).map (fun e ↦ .dict [("type".toList, .str "shared_indicator".toList),
      ("ioc_type".toList, .str e.1), ("value".toList, .str e.2)]) ++
    (if boosters.kev ≠ [] then
      [.dict [("type".toList, .str "kev_booster".toList), ("members".toList, .texts (boosters.kev.take 5))]]
    else if boosters.exploit ≠ [] then
      [.dict [("type".toList, .str "exploit_booster".toList), ("members".toList, .texts (boosters.exploit.take 5))]]
    else [])

def campaignFinding (db : Tables F) (cve : Text) (row : CampaignRow F) (filtered : List Text) : CampaignFinding F :=
  let edges := campaignEdges db cve filtered
  let mitreNames := (db.actorNames cve).filter (· ≠ [])
  let boosters := kevExploitBoosters db filtered cve
  let conflict := Attribution.attributionConflict F db.aliases row.adversary mitreNames
  { row
    members := filtered
    confidence := withConflict conflict
      (campaignConfidence (if row.confidence = [] then "medium".toList else row.confidence) edges)
    boosters
    evidence := campaignEvidence row edges boosters
    hasIoc := edges ≠ []
    conflict
    claims := Attribution.attributionClaims db.aliases row.adversary mitreNames row.firstSeen }

def campaignSummary (label : Text) (peerCount : ℕ) (hasIoc : Bool) : Text :=
  "Linked to ".toList ++ natText peerCount ++ " other CVE(s) via OTX pulse \"".toList ++
    Attribution.sanitizePulseText F label 240 ++ "\".".toList ++
    if hasIoc then " Shared indicators strengthen this link.".toList else []

def CampaignFinding.toJson (c : CampaignFinding F) : Json F :=
  let safeLabel := Attribution.sanitizePulseText F c.row.label 240
  .dict [("campaign_id".toList, .str c.row.campaignId), ("label".toList, .str safeLabel),
    ("primary_pulse_id".toList, .str c.row.primaryPulseId),
    ("adversary".toList, .str (Attribution.sanitizePulseText F c.row.adversary 120)),
    ("malware_families".toList, c.row.malwareFamilies), ("tags".toList, c.row.tags),
    ("targeted_countries".toList, c.row.targetedCountries), ("members".toList, .texts c.members),
    ("member_count".toList, .int c.members.length), ("confidence".toList, .str c.confidence.level),
    ("lifecycle".toList, .str (if c.row.lifecycle = [] then "active".toList else c.row.lifecycle)),
    ("boosters".toList, c.boosters.toJson), ("evidence".toList, .list c.evidence),
    ("summary".toList, .str (campaignSummary (F := F) safeLabel (c.members.length - 1) c.hasIoc)),
    ("sources".toList, .texts ["otx".toList]), ("why_not_higher".toList, .strOrNone c.confidence.why),
    ("confidence_factors".toList, .list c.confidence.factors), ("attribution_conflict".toList, .bool c.conflict),
    ("attribution_claims".toList, c.claims),
    ("attribution_disclaimer".toList, .str "OTX community pulse — unverified attribution".toList),
    ("author_count".toList, .int (if c.row.authorCount = 0 then 1 else c.row.authorCount)),
    ("first_seen".toList, .str c.row.firstSeen), ("last_seen".toList, .str c.row.lastSeen),
    ("family_id".toList, .str c.row.familyId)]

variable [Iso] [Sha256]

/-- The members that are shown of a campaign, where there are enough. -/
def shownMembers (cfg : Config F) (db : Tables F) (cve : Text) (strongInfraPeers : List Text) (campaignId : Text) :
    Option (List Text) :=
  let stored := db.membersOf campaignId
  let filtered := filterCampaignMembers cfg.hubCap cfg.maxMembers cve
    (stored ++ strongInfraPeers.filter (· ∉ stored)) db.pulseCount
  if filtered.length < 2 then none else some filtered

def getCampaignsForCve (cfg : Config F) (db : Tables F) (cve : Text) (strongInfraPeers : List Text) :
    Py (List (CampaignFinding F)) := do
  let suppressed ← resolveSuppressedCampaignIds db.familyPulses (db.loadSuppressions cve)
  return ((db.campaignsOf cve).filter fun row ↦ row.campaignId ∉ suppressed).filterMap fun row ↦
    (shownMembers cfg db cve strongInfraPeers row.campaignId).map (campaignFinding db cve row)

end

end Briefr.Correlation
