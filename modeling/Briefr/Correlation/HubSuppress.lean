import Briefr.Correlation.Campaigns

namespace Briefr.Correlation.HubSuppress

open Briefr.Python Briefr.Library Briefr.Library.StableSort

def getHubCvePulseCap (setting : ℤ) : ℤ := max 1 setting

/-- The settings that stand in for arguments that are left out. -/
structure Settings where
  hubCvePulseCap : ℤ
  maxCampaignMembers : ℤ

/-- `xs[:limit]`. -/
def upTo {α : Type} (limit : ℤ) (xs : List α) : List α :=
  if 0 ≤ limit then xs.take limit.toNat else xs.take (xs.length - (-limit).toNat)

theorem sublist_upTo {α : Type} (limit : ℤ) (xs : List α) : (upTo limit xs).Sublist xs := by
  rw [upTo]
  split
  next => exact List.take_sublist _ _
  next => exact List.take_sublist _ _

section
variable (s : Settings)

def isHubCve (pulseCount : ℤ) (cap : Option ℤ) : Bool :=
  decide (cap.getD (getHubCvePulseCap s.hubCvePulseCap) < pulseCount)

def memberLimit (maxMembers : Option ℤ) : ℤ := maxMembers.getD (getMaxCampaignMembers s.maxCampaignMembers)

def applyMemberCap (members : List Text) (maxMembers : Option ℤ) : List Text :=
  let limit := memberLimit s maxMembers
  if members.length ≤ limit then sortBy id members else upTo limit (sortBy id members)

/-- `max_members or get_max_campaign_members()`. -/
def givenLimit (maxMembers : Option ℤ) : ℤ :=
  if maxMembers.getD 0 = 0 then getMaxCampaignMembers s.maxCampaignMembers else maxMembers.getD 0

end

/-- The cap leaves the least members. -/
theorem applyMemberCap_eq {s : Settings} {maxMembers : Option ℤ} (h : 1 ≤ memberLimit s maxMembers) (filtered : List Text) :
    applyMemberCap s filtered maxMembers = (sortBy id filtered).take (memberLimit s maxMembers).toNat := by
  have hzero : 0 ≤ memberLimit s maxMembers := by omega
  rw [applyMemberCap]
  split
  next hlength =>
    rw [List.take_of_length_le]
    rw [length_sortBy]
    omega
  next => rw [upTo, if_pos hzero]

theorem mem_applyMemberCap {s : Settings} {maxMembers : Option ℤ} (h : 1 ≤ memberLimit s maxMembers) {filtered : List Text}
    (hfiltered : filtered.Nodup) {m : Text} :
    m ∈ applyMemberCap s filtered maxMembers ↔
      m ∈ filtered ∧ filtered.countP (· < m) < (memberLimit s maxMembers).toNat := by
  rw [applyMemberCap_eq h, mem_take_sortBy_id hfiltered]
  congr!

theorem givenLimit_eq {s : Settings} {maxMembers : Option ℤ} (h : 1 ≤ memberLimit s maxMembers) : givenLimit s maxMembers = memberLimit s maxMembers := by
  cases maxMembers with
  | none => exact if_pos rfl
  | some n =>
    have hn : n ≠ 0 := by
      rintro rfl
      have h : (1 : ℤ) ≤ 0 := h
      omega
    exact if_neg hn

section
variable (s : Settings) [Interp]

def uniqueMembers (anchor : Text) (members : List Text) : List Text :=
  let unique := sortedSet ((members.filter (· ≠ [])).map upper)
  sortBy id (if anchor ∈ unique then unique else unique ++ [anchor])

def filterCampaignMembers (cveId : Text) (members : List Text) (pulseCountByCve : Dict Text ℤ)
    (hubCap maxMembers : Option ℤ) : List Text :=
  let anchor := upper cveId
  let unique := uniqueMembers anchor members
  let isHub := fun cve ↦ isHubCve s ((pulseCountByCve.get? cve).getD 0) hubCap
  let peers := unique.filter (· ≠ anchor)
  if isHub anchor then
    applyMemberCap s (anchor :: upTo (max 1 (givenLimit s maxMembers - 1)) peers) maxMembers
  else applyMemberCap s (anchor :: peers.filter fun peer ↦ !isHub peer) maxMembers

/-- The CVEs that the call names apart from the anchor, as often as they are named. -/
def namedPeers (anchor : Text) (members : List Text) : List Text :=
  ((members.filter (· ≠ [])).map upper).filter (· ≠ anchor)

variable {s} {anchor : Text} {members : List Text}

theorem mem_uniqueMembers {m : Text} :
    m ∈ uniqueMembers anchor members ↔ m = anchor ∨ ∃ g ∈ members, g ≠ [] ∧ upper g = m := by
  have hset : m ∈ sortedSet ((members.filter (· ≠ [])).map upper) ↔ ∃ g ∈ members, g ≠ [] ∧ upper g = m := by
    rw [mem_sortedSet, List.mem_map]
    simp only [List.mem_filter, decide_eq_true_eq, and_assoc]
  rw [uniqueMembers, (perm_sortBy id _).mem_iff]
  split
  next hmem =>
    rw [hset]
    refine ⟨.inr, fun h ↦ h.elim ?_ id⟩
    rintro rfl
    exact hset.mp hmem
  next => rw [List.mem_append, List.mem_singleton, hset, or_comm]

theorem nodup_uniqueMembers : (uniqueMembers anchor members).Nodup := by
  rw [uniqueMembers, (perm_sortBy id _).nodup_iff]
  split
  next => exact nodup_sortedSet _
  next hmem =>
    rw [List.nodup_append]
    refine ⟨nodup_sortedSet _, List.nodup_singleton _, fun a ha b hb heq ↦ hmem ?_⟩
    rwa [← List.mem_singleton.mp hb, ← heq]

/-- The members come in no order. -/
theorem uniqueMembers_perm {members' : List Text} (h : members'.Perm members) :
    uniqueMembers anchor members' = uniqueMembers anchor members := by
  have hset : sortedSet ((members'.filter (· ≠ [])).map upper) = sortedSet ((members.filter (· ≠ [])).map upper) :=
    sortedSet_congr fun m ↦ ((h.filter _).map upper).mem_iff
  rw [uniqueMembers, uniqueMembers, hset]

theorem peers_perm : ((uniqueMembers anchor members).filter (· ≠ anchor)).Perm (namedPeers anchor members).dedup := by
  rw [List.perm_ext_iff_of_nodup (nodup_uniqueMembers.filter _) (List.nodup_dedup _)]
  intro m
  rw [List.mem_dedup, namedPeers, List.mem_filter, List.mem_filter, mem_uniqueMembers, List.mem_map]
  simp only [List.mem_filter, decide_eq_true_eq, and_assoc]
  constructor
  · rintro ⟨h, hne⟩
    exact ⟨h.resolve_left hne, hne⟩
  · rintro ⟨h, hne⟩
    exact ⟨.inr h, hne⟩

end

section
variable [Interp] (s : Settings) (cveId : Text) (members : List Text) (pulseCountByCve : Dict Text ℤ)
  (hubCap maxMembers : Option ℤ)

def isHub (cve : Text) : Bool := isHubCve s ((pulseCountByCve.get? cve).getD 0) hubCap

/-- What is expected of the members that are kept. -/
structure Kept (kept : List Text) : Prop where
  anchor : upper cveId ∈ kept
  nodup : kept.Nodup
  size : kept.length ≤ memberLimit s maxMembers
  given : ∀ m ∈ kept, m = upper cveId ∨ ∃ g ∈ members, upper g = m
  hubs : isHub s pulseCountByCve hubCap (upper cveId) = false →
    ∀ m ∈ kept, m ≠ upper cveId → isHub s pulseCountByCve hubCap m = false
  order : ∀ members' : List Text, members'.Perm members →
    filterCampaignMembers s cveId members' pulseCountByCve hubCap maxMembers = kept

/-- The anchor is among the first members by id: fewer peers that may stay are below it than the cap lets through. A hub
keeps one peer fewer than the cap, so that its cap of one is the only one that can cut it. -/
def Early : Prop :=
  if isHub s pulseCountByCve hubCap (upper cveId) then
    2 ≤ memberLimit s maxMembers ∨ ∀ peer ∈ namedPeers (upper cveId) members, ¬peer < upper cveId
  else
    ((namedPeers (upper cveId) members).dedup.countP fun peer ↦
      !isHub s pulseCountByCve hubCap peer && decide (peer < upper cveId)) < memberLimit s maxMembers

/-- The members before the cap. -/
def candidates : List Text :=
  let peers := (uniqueMembers (upper cveId) members).filter (· ≠ upper cveId)
  upper cveId :: if isHub s pulseCountByCve hubCap (upper cveId) then upTo (max 1 (givenLimit s maxMembers - 1)) peers
    else peers.filter fun peer ↦ !isHub s pulseCountByCve hubCap peer

variable {s cveId members pulseCountByCve hubCap maxMembers}

theorem filterCampaignMembers_eq : filterCampaignMembers s cveId members pulseCountByCve hubCap maxMembers =
    applyMemberCap s (candidates s cveId members pulseCountByCve hubCap maxMembers) maxMembers := by
  rw [filterCampaignMembers, candidates]
  by_cases h : isHub s pulseCountByCve hubCap (upper cveId) = true
  · rw [if_pos h]
    exact if_pos h
  · rw [if_neg h]
    exact if_neg h

theorem candidates_sublist : (candidates s cveId members pulseCountByCve hubCap maxMembers).Sublist
    (upper cveId :: (uniqueMembers (upper cveId) members).filter (· ≠ upper cveId)) := by
  rw [candidates]
  refine List.Sublist.cons_cons _ ?_
  split
  next => exact sublist_upTo _ _
  next => exact List.filter_sublist

theorem nodup_candidates : (candidates s cveId members pulseCountByCve hubCap maxMembers).Nodup := by
  refine candidates_sublist.nodup (List.nodup_cons.mpr ⟨?_, nodup_uniqueMembers.filter _⟩)
  rw [List.mem_filter, decide_eq_true_eq]
  exact fun h ↦ h.2 rfl

theorem mem_candidates {m : Text} (h : m ∈ candidates s cveId members pulseCountByCve hubCap maxMembers) :
    m = upper cveId ∨ ∃ g ∈ members, upper g = m := by
  rcases List.mem_cons.mp (candidates_sublist.subset h) with rfl | hm
  · exact .inl rfl
  · rcases mem_uniqueMembers.mp (List.mem_filter.mp hm).1 with rfl | ⟨g, hg, -, heq⟩
    · exact .inl rfl
    · exact .inr ⟨g, hg, heq⟩

theorem candidates_hub {m : Text} (h : m ∈ candidates s cveId members pulseCountByCve hubCap maxMembers)
    (hanchor : isHub s pulseCountByCve hubCap (upper cveId) = false) (hne : m ≠ upper cveId) :
    isHub s pulseCountByCve hubCap m = false := by
  rw [candidates, hanchor] at h
  have hm := (List.mem_cons.mp h).resolve_left hne
  exact (Bool.not_eq_true' _).mp (List.mem_filter.mp hm).2

theorem countP_candidates_hub (h : 1 ≤ memberLimit s maxMembers)
    (hanchor : isHub s pulseCountByCve hubCap (upper cveId) = true) :
    (candidates s cveId members pulseCountByCve hubCap maxMembers).countP (· < upper cveId) <
        (memberLimit s maxMembers).toNat ↔
      2 ≤ memberLimit s maxMembers ∨ ∀ peer ∈ namedPeers (upper cveId) members, ¬peer < upper cveId := by
  have hpeers : ∀ peer, peer ∈ (uniqueMembers (upper cveId) members).filter (· ≠ upper cveId) ↔
      peer ∈ namedPeers (upper cveId) members := fun peer ↦ peers_perm.mem_iff.trans List.mem_dedup
  have hsorted : ((uniqueMembers (upper cveId) members).filter (· ≠ upper cveId)).Pairwise (· ≤ ·) :=
    (pairwise_sortBy id _).filter _
  rw [candidates, if_pos hanchor, givenLimit_eq h, List.countP_cons_of_neg (by simp)]
  generalize (uniqueMembers (upper cveId) members).filter (· ≠ upper cveId) = peers at hpeers hsorted
  rw [upTo, if_pos (by omega)]
  by_cases hlimit : 2 ≤ memberLimit s maxMembers
  · have hle := List.countP_le_length (p := fun m ↦ decide (m < upper cveId))
      (l := peers.take (max 1 (memberLimit s maxMembers - 1)).toNat)
    rw [List.length_take] at hle
    exact iff_of_true (by omega) (.inl hlimit)
  · have hone : memberLimit s maxMembers = 1 := by omega
    rw [hone, or_iff_right (by decide)]
    simp only [← hpeers]
    cases peers with
    | nil => simp
    | cons a t =>
      obtain ⟨ha, -⟩ := List.pairwise_cons.mp hsorted
      have hfirst : (∀ peer ∈ a :: t, ¬peer < upper cveId) ↔ ¬a < upper cveId := by
        refine ⟨fun h ↦ h a (.head _), fun h ↦ List.forall_mem_cons.mpr ⟨h, fun b hb hlt ↦ h ?_⟩⟩
        exact lt_of_le_of_lt (ha b hb) hlt
      rw [hfirst]
      by_cases hlt : a < upper cveId
      · simp [hlt]
      · simp [hlt]

theorem countP_candidates (hanchor : isHub s pulseCountByCve hubCap (upper cveId) = false) :
    (candidates s cveId members pulseCountByCve hubCap maxMembers).countP (· < upper cveId) =
      (namedPeers (upper cveId) members).dedup.countP fun peer ↦
        !isHub s pulseCountByCve hubCap peer && decide (peer < upper cveId) := by
  rw [candidates, if_neg (by rw [hanchor]; exact Bool.false_ne_true), List.countP_cons_of_neg (by simp),
    List.countP_filter, peers_perm.countP_eq]
  refine List.countP_congr fun peer _ ↦ ?_
  rw [Bool.and_comm]

/-- The anchor survives the cap exactly when it is early. -/
theorem anchor_mem_iff (h : 1 ≤ memberLimit s maxMembers) :
    upper cveId ∈ filterCampaignMembers s cveId members pulseCountByCve hubCap maxMembers ↔
      Early s cveId members pulseCountByCve hubCap maxMembers := by
  have hanchor : upper cveId ∈ candidates s cveId members pulseCountByCve hubCap maxMembers := .head _
  rw [filterCampaignMembers_eq, mem_applyMemberCap h nodup_candidates, and_iff_right hanchor, Early]
  split
  next hanchor => exact countP_candidates_hub h hanchor
  next hanchor =>
    rw [countP_candidates (Bool.eq_false_iff.mpr hanchor)]
    omega

/-- The members that are kept are as expected exactly when the anchor is early. -/
theorem kept_from_hubs_iff (h : 1 ≤ memberLimit s maxMembers) :
    Kept s cveId members pulseCountByCve hubCap maxMembers
        (filterCampaignMembers s cveId members pulseCountByCve hubCap maxMembers) ↔
      Early s cveId members pulseCountByCve hubCap maxMembers := by
  refine ⟨fun hkept ↦ (anchor_mem_iff h).mp hkept.anchor, fun hearly ↦ ?_⟩
  have hmem : ∀ {m}, m ∈ filterCampaignMembers s cveId members pulseCountByCve hubCap maxMembers →
      m ∈ candidates s cveId members pulseCountByCve hubCap maxMembers := by
    intro m hm
    rw [filterCampaignMembers_eq, mem_applyMemberCap h nodup_candidates] at hm
    exact hm.1
  refine ⟨(anchor_mem_iff h).mpr hearly, ?_, ?_, fun m hm ↦ mem_candidates (hmem hm),
    fun hanchor m hm hne ↦ candidates_hub (hmem hm) hanchor hne, fun members' hperm ↦ ?_⟩
  · rw [filterCampaignMembers_eq, applyMemberCap_eq h]
    exact (List.take_sublist _ _).nodup ((perm_sortBy id _).nodup_iff.mpr nodup_candidates)
  · rw [filterCampaignMembers_eq, applyMemberCap_eq h, List.length_take]
    omega
  · rw [filterCampaignMembers, filterCampaignMembers, uniqueMembers_perm hperm]

end

section
local instance hubInterp : Interp := ascii fun _ ↦ none

def defaults : Settings := ⟨50, 25⟩

def lateAnchor : Text := "cve-2024-9999".toList

def earlyPeers : List Text := ["CVE-2024-0001".toList, "CVE-2024-0002".toList]

theorem kept_from_hubs_lateAnchor : 1 ≤ memberLimit defaults (some 2) ∧
    (Kept defaults lateAnchor earlyPeers Dict.empty none (some 2)
        (filterCampaignMembers defaults lateAnchor earlyPeers Dict.empty none (some 2)) ↔
      Early defaults lateAnchor earlyPeers Dict.empty none (some 2)) :=
  ⟨by decide, kept_from_hubs_iff (by decide)⟩

/-- Two peers that sort before the anchor fill a cap of two. -/
theorem lateAnchor_dropped :
    upper lateAnchor ∉ filterCampaignMembers defaults lateAnchor earlyPeers Dict.empty none (some 2) := by
  decide

end

end Briefr.Correlation.HubSuppress
