import Briefr.Library.UniqueIndex
import Briefr.Library.Runs
import Briefr.Correlation.FamilyComponents
import Briefr.Correlation.Lifecycle

namespace Briefr.Correlation

open Briefr.Python Briefr.Library Briefr.Library.StableSort Briefr.Library.PrimaryKey Briefr.Library.Runs

structure Campaign where
  campaignId : Text
  primaryPulseId : Text
  familyId : Text
  lifecycle : Lifecycle
  retracted : Bool
  deriving DecidableEq

/-- The tables that a build writes; a member is a campaign id and a CVE. -/
structure Store where
  pulseFamilies : List FamilyRow
  campaigns : List Campaign
  members : List (Text × Text)

def Store.empty : Store := ⟨[], [], []⟩

def getMaxCampaignMembers (setting : ℤ) : ℕ := (max 2 setting).toNat

namespace Otx

variable (o : Otx)

def joinedDate (pid : Text) : Option Text := (o.pulses.find? fun p ↦ p.pulseId = pid).bind Pulse.createdDate

/-- `pulse_families LEFT JOIN otx_pulses`, by family, date and pulse, a missing date first. -/
def familyPulses (rows : List FamilyRow) : List FamilyPulse :=
  sortBy (fun r ↦ toLex (r.familyId, toLex (r.createdDate.isSome, toLex (r.createdDate.getD [], r.pulseId))))
    (rows.map fun r ↦ ⟨r.familyId, r.pulseId, o.joinedDate r.pulseId⟩)

def memberCves (pulseIds : List Text) : List Text :=
  sortedSet ((o.links.filter fun l ↦ l.1 ∈ pulseIds ∧ l.2 ∈ o.cves).map Prod.snd)

end Otx

namespace Store

/-- An insertion that breaks a primary key ends the build. -/
def writeCampaign (s : Store) (entry : Campaign × List Text) : Option Store := do
  let campaigns ← insert Campaign.campaignId s.campaigns entry.1
  let members ← insertAll id s.members (entry.2.map (entry.1.campaignId, ·))
  return { s with campaigns := campaigns, members := members }

def retractVanished (s : Store) (familyIds : List Text) : Store :=
  let vanished := (s.campaigns.map Campaign.familyId).filter (· ∉ familyIds)
  { s with
    campaigns := s.campaigns.map fun c ↦
      if c.familyId ∈ vanished ∧ c.retracted = false then { c with lifecycle := .declining, retracted := true } else c }

def deleteUnretracted (s : Store) : Store :=
  let unretracted := (s.campaigns.filter fun c ↦ !c.retracted).map Campaign.campaignId
  { s with
    members := s.members.filter fun m ↦ m.1 ∉ unretracted
    campaigns := s.campaigns.filter Campaign.retracted }

def pruneInvalidCampaignMembers (s : Store) (cves : List Text) : Store :=
  let members := s.members.filter fun m ↦ m.2 ∈ cves
  { s with
    members := members
    campaigns := s.campaigns.filter fun c ↦ c.campaignId ∈ members.map Prod.fst }

end Store

/-- What one build reads: the tables, the rows that the lifecycle queries return for members and for a pulse, the
settings, the clock, and the order of the sets. -/
structure Night where
  otx : Otx
  memberRows : List Text → List MemberRow
  observationAt : Text → List Text → List (Option Text)
  now : ℕ
  hubCap : ℤ
  maxMembers : ℤ
  order : SetOrder

def Night.membersOf (n : Night) (pulseIds : List Text) : List Text :=
  (n.otx.memberCves pulseIds).take (getMaxCampaignMembers n.maxMembers)

section
variable [Interp] [Iso] [Sha256]

def Night.campaignLifecycle (n : Night) (oldest : Text) (pulseIds : List Text) : Py Lifecycle :=
  computeCampaignLifecycle (n.otx.joinedDate oldest) (n.memberRows (n.membersOf pulseIds))
    (n.observationAt oldest (n.membersOf pulseIds)) n.now

/-- The campaign of a family and its members, if it has enough. -/
def Night.familyCampaign (n : Night) (family : Text × List (Text × Option Text)) :
    Py (Option (Campaign × List Text)) := do
  let pulses := family.2.filter fun m ↦ m.1 ≠ []
  if pulses = [] then return none
  let pulseIds := pulses.map Prod.fst
  let some oldest ← oldestPulse pulses | return none
  if (n.membersOf pulseIds).length < 2 then return none
  let lifecycle ← n.campaignLifecycle oldest pulseIds
  return some (⟨campaignIdForFamily family.1 oldest, oldest, family.1, lifecycle, false⟩, n.membersOf pulseIds)

def Night.writeFamily (n : Night) (s : Store) (family : Text × List (Text × Option Text)) : Option Store := do
  match ← (n.familyCampaign family).toOption with
  | none => return s
  | some entry => s.writeCampaign entry

/-- Nothing is returned by a build that aborts. -/
def Night.buildCampaignsFromPulses (n : Night) (s : Store) : Option Store := do
  let rows ← (n.otx.rebuildPulseFamilies n.hubCap n.order).toOption
  let families := familiesOf (n.otx.familyPulses rows)
  let s := (({ s with pulseFamilies := rows } : Store).retractVanished families.keys).deleteUnretracted
  families.items.foldlM n.writeFamily s

inductive Event
  | prune (cves : List Text)
  | build (n : Night)

/-- A build that aborts is rolled back. -/
def step (s : Store) : Event → Store
  | .prune cves => s.pruneInvalidCampaignMembers cves
  | .build n => (n.buildCampaignsFromPulses s).getD s

end

/-- Campaigns are stored under their ids, and no member is left without its campaign. -/
structure Store.WellFormed (s : Store) : Prop where
  campaigns : (s.campaigns.map Campaign.campaignId).Nodup
  members : s.members.Nodup
  member : ∀ m ∈ s.members, m.1 ∈ s.campaigns.map Campaign.campaignId

theorem Store.WellFormed.empty : Store.empty.WellFormed := ⟨List.nodup_nil, List.nodup_nil, fun _ h ↦ by cases h⟩

theorem Store.WellFormed.prune {s : Store} (h : s.WellFormed) (cves : List Text) :
    (s.pruneInvalidCampaignMembers cves).WellFormed where
  campaigns := h.campaigns.sublist (List.filter_sublist.map _)
  members := h.members.sublist List.filter_sublist
  member m hm := by
    obtain ⟨c, hc, he⟩ := List.mem_map.mp (h.member m (List.mem_filter.mp hm).1)
    refine List.mem_map.mpr ⟨c, List.mem_filter.mpr ⟨hc, ?_⟩, he⟩
    rw [decide_eq_true_eq, he]
    exact List.mem_map_of_mem hm

namespace Store

variable {s s' : Store} {familyIds : List Text}

theorem map_campaignId_retractVanished :
    (s.retractVanished familyIds).campaigns.map Campaign.campaignId = s.campaigns.map Campaign.campaignId := by
  simp only [retractVanished, List.map_map]
  apply List.map_congr_left
  intro c _
  dsimp only [Function.comp_apply]
  split <;> rfl

theorem WellFormed.retractVanished (h : s.WellFormed) (familyIds : List Text) :
    (s.retractVanished familyIds).WellFormed where
  campaigns := by
    rw [map_campaignId_retractVanished]
    exact h.campaigns
  members := h.members
  member m hm := by
    rw [map_campaignId_retractVanished]
    exact h.member m hm

theorem WellFormed.deleteUnretracted (h : s.WellFormed) : s.deleteUnretracted.WellFormed where
  campaigns := h.campaigns.sublist (List.filter_sublist.map _)
  members := h.members.sublist List.filter_sublist
  member m hm := by
    obtain ⟨hm, hn⟩ := List.mem_filter.mp hm
    obtain ⟨c, hc, he⟩ := List.mem_map.mp (h.member m hm)
    refine List.mem_map.mpr ⟨c, List.mem_filter.mpr ⟨hc, ?_⟩, he⟩
    by_contra hr
    rw [decide_eq_true_eq] at hn
    exact hn (List.mem_map.mpr ⟨c, List.mem_filter.mpr ⟨hc, by simpa using hr⟩, he⟩)

/-- What is left are the rows retracted before and those whose family is gone. -/
theorem mem_cleared {id : Text} :
    id ∈ (s.retractVanished familyIds).deleteUnretracted.campaigns.map Campaign.campaignId ↔
      ∃ c ∈ s.campaigns, c.campaignId = id ∧ (c.retracted = true ∨ c.familyId ∉ familyIds) := by
  simp only [deleteUnretracted, Store.retractVanished, List.mem_map, List.mem_filter]
  constructor
  · intro ⟨c', ⟨⟨c, hc, he⟩, hr⟩, hid⟩
    refine ⟨c, hc, ?_⟩
    split at he
    · rename_i hv
      subst he
      exact ⟨hid, .inr (by simpa using hv.1.2)⟩
    · subst he
      exact ⟨hid, .inl hr⟩
  · intro ⟨c, hc, hid, hr⟩
    refine ⟨_, ⟨⟨c, hc, rfl⟩, ?_⟩, ?_⟩
    · split
      · rfl
      · rename_i hv
        rcases hr with hr | hr
        · exact hr
        · by_contra hn
          exact hv ⟨⟨⟨c, hc, rfl⟩, by simpa using hr⟩, by simpa using hn⟩
    · split <;> exact hid

def added (s : Store) (entry : Campaign × List Text) : Store :=
  { s with
    campaigns := s.campaigns ++ [entry.1]
    members := s.members ++ entry.2.map (entry.1.campaignId, ·) }

theorem WellFormed.added {entry : Campaign × List Text} (h : s.WellFormed) (hm : entry.2.Nodup)
    (hn : entry.1.campaignId ∉ s.campaigns.map Campaign.campaignId) : (s.added entry).WellFormed where
  campaigns := by
    rw [Store.added, List.map_append]
    exact h.campaigns.append (List.nodup_singleton _) (by simpa using hn)
  members := by
    refine h.members.append (hm.map fun _ _ h ↦ (Prod.mk.inj h).2) ?_
    intro m hm hm'
    obtain ⟨cve, -, rfl⟩ := List.mem_map.mp hm'
    exact hn (h.member _ hm)
  member m hm := by
    rw [Store.added, List.map_append]
    rcases List.mem_append.mp hm with hm | hm
    · exact List.mem_append_left _ (h.member m hm)
    · obtain ⟨cve, -, rfl⟩ := List.mem_map.mp hm
      exact List.mem_append_right _ (by simp)

theorem writeCampaign_eq {entry : Campaign × List Text} (h : s.WellFormed) (hm : entry.2.Nodup) :
    s.writeCampaign entry =
      if entry.1.campaignId ∈ s.campaigns.map Campaign.campaignId then none else some (s.added entry) := by
  rw [writeCampaign, PrimaryKey.insert]
  split
  · rfl
  · rename_i hn
    have hmembers : insertAll id s.members (entry.2.map (entry.1.campaignId, ·)) =
        some (s.members ++ entry.2.map (entry.1.campaignId, ·)) := by
      refine (insertAll_eq_some (by simpa using h.members)).mpr ⟨?_, rfl⟩
      rw [List.map_id]
      exact (h.added hm hn).members
    rw [Option.bind_eq_bind, Option.bind_some, hmembers]
    rfl

theorem campaigns_foldl_added (entries : List (Campaign × List Text)) (s : Store) :
    (entries.foldl added s).campaigns = s.campaigns ++ entries.map Prod.fst := by
  induction entries generalizing s with
  | nil => simp
  | cons entry entries ih =>
    rw [List.foldl_cons, ih]
    simp [added]

theorem pulseFamilies_foldl_added (entries : List (Campaign × List Text)) (s : Store) :
    (entries.foldl added s).pulseFamilies = s.pulseFamilies := by
  induction entries generalizing s with
  | nil => rfl
  | cons entry entries ih => exact ih (s.added entry)

theorem not_mem_of_nodup_append {entry : Campaign × List Text} {entries : List (Campaign × List Text)}
    (hn : ((s.campaigns ++ (entry :: entries).map Prod.fst).map Campaign.campaignId).Nodup) :
    entry.1.campaignId ∉ s.campaigns.map Campaign.campaignId := by
  rw [List.map_append, List.map_cons, List.map_cons, List.nodup_append] at hn
  intro hk
  exact hn.2.2 _ hk _ (.head _) rfl

theorem WellFormed.foldl_added {entries : List (Campaign × List Text)} (h : s.WellFormed)
    (hm : ∀ entry ∈ entries, entry.2.Nodup)
    (hn : ((s.campaigns ++ entries.map Prod.fst).map Campaign.campaignId).Nodup) :
    (entries.foldl Store.added s).WellFormed := by
  induction entries generalizing s with
  | nil => exact h
  | cons entry entries ih =>
    refine ih (h.added (hm entry (.head _)) (not_mem_of_nodup_append hn)) (fun e he ↦ hm e (.tail _ he)) ?_
    simpa [Store.added] using hn

/-- A run of insertions goes through when the ids are new and distinct. -/
theorem foldlM_writeCampaign {entries : List (Campaign × List Text)} (h : s.WellFormed)
    (hm : ∀ entry ∈ entries, entry.2.Nodup) :
    entries.foldlM writeCampaign s = some s' ↔
      ((s.campaigns ++ entries.map Prod.fst).map Campaign.campaignId).Nodup ∧ s' = entries.foldl added s := by
  induction entries generalizing s with
  | nil => simp [h.campaigns, eq_comm]
  | cons entry entries ih =>
    rw [List.foldlM_cons, writeCampaign_eq h (hm entry (.head _))]
    by_cases hk : entry.1.campaignId ∈ s.campaigns.map Campaign.campaignId
    · rw [if_pos hk]
      constructor
      · intro hs
        cases hs
      · intro hs
        exact absurd hk (not_mem_of_nodup_append hs.1)
    · have ih := ih (h.added (hm entry (.head _)) hk) fun e he ↦ hm e (.tail _ he)
      rw [if_neg hk, Option.bind_eq_bind, Option.bind_some, ih, List.foldl_cons]
      simp [added]

end Store

end Briefr.Correlation
