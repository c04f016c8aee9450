import Briefr.Correlation.LiveCorrelation

namespace Briefr.Correlation

open Briefr.Python Briefr.Library

deriving instance DecidableEq for Suppression

/-- A campaign of a response. Beside it the pulses of its family when it was computed. -/
structure ShownCampaign where
  campaignId : Text
  primaryPulseId : Text
  members : List Text
  family : List Text

/-- The part of a response that a dismissal is about. -/
structure Shown where
  campaigns : List ShownCampaign
  peers : List Text

def Shown.empty : Shown := ⟨[], []⟩

section
variable {F : Type}

def shownOf (db : Tables F) (a : Analysis F) : Shown where
  campaigns := a.campaigns.map fun c ↦
    { campaignId := c.row.campaignId
      primaryPulseId := c.row.primaryPulseId
      members := c.members
      family := (db.familyPulses.filter fun r ↦ r.familyId = c.row.familyId).map FamilyPulse.pulseId }
  peers := a.infrastructure.map InfraPeer.cveIdB

end

section
variable [Interp] [Sha256]

/-- No finding of the dismissed kind. A dismissed campaign is known by its id and, while a family keeps its pulse,
as the campaign of that family. -/
def Shown.Hides (shown : Shown) (s : Suppression) : Prop :=
  match s.scope with
  | .campaignId => ∀ c ∈ shown.campaigns, c.campaignId ≠ s.scopeKey ∧ ∀ pid ∈ c.family, legacyCampaignIdForPulse pid ≠ s.scopeKey
  | .pulseId => ∀ c ∈ shown.campaigns, c.primaryPulseId ≠ s.scopeKey
  | .cvePair | .infrastructure =>
    (∀ peer ∈ shown.peers, upper peer ≠ s.scopeKey) ∧ ∀ c ∈ shown.campaigns, s.scopeKey ∉ c.members

instance (shown : Shown) : (s : Suppression) → Decidable (shown.Hides s)
  | ⟨.campaignId, k⟩ => inferInstanceAs (Decidable (∀ c ∈ shown.campaigns,
      c.campaignId ≠ k ∧ ∀ pid ∈ c.family, legacyCampaignIdForPulse pid ≠ k))
  | ⟨.pulseId, k⟩ => inferInstanceAs (Decidable (∀ c ∈ shown.campaigns, c.primaryPulseId ≠ k))
  | ⟨.cvePair, k⟩ | ⟨.infrastructure, k⟩ => inferInstanceAs (Decidable
      ((∀ peer ∈ shown.peers, upper peer ≠ k) ∧ ∀ c ∈ shown.campaigns, k ∉ c.members))

theorem hides_empty (s : Suppression) : Shown.empty.Hides s := by
  unfold Shown.Hides
  split <;> simp [Shown.empty]

variable {F : Type}

/-- The campaigns that the `campaign_id` dismissals leave of a CVE. -/
def Tables.Open [Iso] (db : Tables F) (cve : Text) (c : CampaignRow F) : Prop :=
  c ∈ db.campaignsOf cve ∧
    ∃ ids, resolveSuppressedCampaignIds db.familyPulses (db.loadSuppressions cve) = .ok ids ∧ c.campaignId ∉ ids

/-- The stored data leave nothing for the dismissals of the CVE to miss: the campaign of a family with a dismissed
pulse goes back to the pulse that resolves the dismissal, no `pulse_id` dismissal names the primary
pulse of an open campaign, and no dismissed peer is stored among the members of one. -/
structure Tables.Settled [Iso] (db : Tables F) (cve : Text) : Prop where
  anchored : ∀ c, db.Open cve c → ∀ family ∈ (familiesOf db.familyPulses).items, family.1 = c.familyId →
    legacyIds family.2 ∩ directIds (db.loadSuppressions cve) ≠ ∅ →
      ∃ p, oldestMember family.2 = .ok (some p) ∧ c.campaignId = campaignIdForFamily family.1 p
  pulses : ∀ s ∈ db.loadSuppressions cve, s.scope = .pulseId → ∀ c, db.Open cve c → c.primaryPulseId ≠ s.scopeKey
  peers : ∀ s ∈ db.loadSuppressions cve, s.scope = .cvePair ∨ s.scope = .infrastructure → ∀ c, db.Open cve c →
    ∀ m ∈ db.membersOf c.campaignId, upper m ≠ s.scopeKey

variable {db : Tables F} {cve userSector : Text}

omit [Sha256] in
theorem not_suppressed {suppressions : List Suppression} {peer : Text}
    (h : isInfrastructureSuppressed suppressions peer = false) {s : Suppression} (hs : s ∈ suppressions)
    (hscope : s.scope = .cvePair ∨ s.scope = .infrastructure) : upper peer ≠ s.scopeKey := by
  intro hkey
  have hn := List.any_eq_false.mp h s hs
  simp [hscope.symm, hkey] at hn

omit [Sha256] in
theorem openInfrastructure_open [EdgeRules F] {reading : Reading} {row : InfraPeer F}
    (hrow : row ∈ openInfrastructure reading db cve) {s : Suppression} (hm : s ∈ db.loadSuppressions cve)
    (hscope : s.scope = .cvePair ∨ s.scope = .infrastructure) :
    upper row.cveIdB ≠ s.scopeKey :=
  not_suppressed (by simpa using (List.mem_filter.mp hrow).2) hm hscope

section
variable [Iso]

/-- An open campaign is none that a dismissal names, nor one of a family with a dismissed pulse. -/
theorem Tables.Settled.campaign_open (hs : db.Settled cve) {s : Suppression} (hm : s ∈ db.loadSuppressions cve)
    (hk : s.scopeKey ≠ []) (hscope : s.scope = .campaignId) {c : CampaignRow F} (hc : db.Open cve c) :
    c.campaignId ≠ s.scopeKey ∧
      ∀ r ∈ db.familyPulses, r.familyId = c.familyId → legacyCampaignIdForPulse r.pulseId ≠ s.scopeKey := by
  obtain ⟨ids, hids, hnot⟩ := hc.2
  obtain ⟨hdirect, hexpanded⟩ := mem_of_resolve hids
  have hkey : s.scopeKey ∈ directIds (db.loadSuppressions cve) := mem_directIds.mpr ⟨hk, s, hm, hscope, rfl⟩
  constructor
  · intro he
    exact hnot (he ▸ hdirect hkey)
  · intro r hr hfam he
    obtain ⟨family, hfamily, hid, hmember⟩ := Dict.mem_groups_iff.mp
      (List.mem_map_of_mem (f := fun r : FamilyPulse ↦ (r.familyId, (r.pulseId, r.createdDate))) hr)
    have hlegacy : legacyIds family.2 ∩ directIds (db.loadSuppressions cve) ≠ ∅ := by
      refine Finset.nonempty_iff_ne_empty.mp ⟨s.scopeKey, Finset.mem_inter.mpr ⟨?_, hkey⟩⟩
      exact List.mem_toFinset.mpr (List.mem_map.mpr ⟨_, hmember, he⟩)
    obtain ⟨p, hp, hcid⟩ := hs.anchored c hc family hfamily (hid.trans hfam) hlegacy
    exact hnot (hcid ▸ hexpanded family hfamily p hp hlegacy)

variable [Attribution F] {cfg : Config F} {campaigns : List (CampaignFinding F)} {c : CampaignFinding F}

theorem mem_campaigns {strong : List Text} (h : getCampaignsForCve cfg db cve strong = .ok campaigns) (hc : c ∈ campaigns) :
    db.Open cve c.row ∧ ∀ m ∈ c.members, m = upper cve ∨
      ∃ member, (member ∈ db.membersOf c.row.campaignId ∨ member ∈ strong) ∧ m = upper member := by
  simp only [getCampaignsForCve, bind_eq_ok, pure_eq_ok, Except.ok.injEq] at h
  obtain ⟨ids, hids, rfl⟩ := h
  obtain ⟨row, hrow, hf⟩ := List.mem_filterMap.mp hc
  obtain ⟨filtered, hfiltered, rfl⟩ := Option.map_eq_some_iff.mp hf
  obtain ⟨hrow, hopen⟩ := List.mem_filter.mp hrow
  refine ⟨⟨hrow, ids, hids, of_decide_eq_true hopen⟩, ?_⟩
  intro m hm
  simp only [shownMembers] at hfiltered
  split at hfiltered
  · cases hfiltered
  · obtain rfl := Option.some.inj hfiltered
    rcases mem_filterCampaignMembers hm with hm | ⟨member, hmember, hm⟩
    · exact .inl hm
    · refine .inr ⟨member, ?_, hm⟩
      rcases List.mem_append.mp hmember with h | h
      · exact .inl h
      · exact .inr (List.mem_filter.mp h).1

variable [EdgeRules F] {reading : Reading}

/-- The members of a shown campaign are stored or open peers. -/
theorem Tables.Settled.members_open (hs : db.Settled cve)
    (hc : getCampaignsForCve cfg db cve (strongInfraPeers reading (openInfrastructure reading db cve)) = .ok campaigns)
    (hcmem : c ∈ campaigns) {s : Suppression} (hm : s ∈ db.loadSuppressions cve)
    (hscope : s.scope = .cvePair ∨ s.scope = .infrastructure) : s.scopeKey ∉ c.members := by
  intro hmem
  obtain ⟨hopen, hmembers⟩ := mem_campaigns hc hcmem
  have hstored := hs.peers s hm hscope c.row hopen
  rcases hmembers _ hmem with he | ⟨member, hmember | hmember, he⟩
  · -- the CVE itself is a stored member of each of its campaigns
    obtain ⟨-, -, hin⟩ := Tables.mem_campaignsOf.mp hopen.1
    exact hstored cve (Tables.mem_membersOf.mpr hin) he.symm
  · exact hstored member hmember he.symm
  · obtain ⟨row, hrow, rfl⟩ := List.mem_map.mp (List.mem_toFinset.mp (Reading.mem_iter.mp hmember))
    exact openInfrastructure_open (List.mem_filter.mp hrow).1 hm hscope he.symm

variable [FloatOps F] [Stamps] {a : Analysis F}

/-- A computation on settled data shows nothing that is dismissed. -/
theorem compute_hides (hs : db.Settled cve) (h : computeCorrelationForCve cfg reading db cve userSector = .ok a)
    {s : Suppression} (hm : s ∈ db.loadSuppressions cve) (hk : s.scopeKey ≠ []) : (shownOf db a).Hides s := by
  obtain ⟨actor, campaigns, -, hc, rfl⟩ := compute_eq_ok.mp h
  have hpeer : s.scope = .cvePair ∨ s.scope = .infrastructure →
      (∀ peer ∈ (shownOf db (answer cfg reading db cve actor campaigns)).peers, upper peer ≠ s.scopeKey) ∧
        ∀ c ∈ (shownOf db (answer cfg reading db cve actor campaigns)).campaigns, s.scopeKey ∉ c.members := by
    intro hscope
    constructor
    · intro peer hp
      obtain ⟨row, hrow, rfl⟩ := List.mem_map.mp hp
      exact openInfrastructure_open (List.mem_filter.mp hrow).1 hm hscope
    · intro shown hshown
      obtain ⟨c, hcmem, rfl⟩ := List.mem_map.mp hshown
      exact hs.members_open hc hcmem hm hscope
  unfold Shown.Hides
  split
  · rename_i hscope
    intro shown hshown
    obtain ⟨c, hcmem, rfl⟩ := List.mem_map.mp hshown
    obtain ⟨hid, hfamily⟩ := hs.campaign_open hm hk hscope (mem_campaigns hc hcmem).1
    refine ⟨hid, ?_⟩
    intro pid hpid
    obtain ⟨r, hr, rfl⟩ := List.mem_map.mp hpid
    obtain ⟨hr, hfam⟩ := List.mem_filter.mp hr
    exact hfamily r hr (of_decide_eq_true hfam)
  · rename_i hscope
    intro shown hshown
    obtain ⟨c, hcmem, rfl⟩ := List.mem_map.mp hshown
    exact hs.pulses s hm hscope c.row (mem_campaigns hc hcmem).1
  · rename_i hscope
    exact hpeer (.inl hscope)
  · rename_i hscope
    exact hpeer (.inr hscope)

end

end

end Briefr.Correlation
