import Briefr.Correlation.PulseFamilies

namespace Briefr.Correlation

open Briefr.Python Briefr.Library

/-- `pulse_families`, which has one row for a pulse. -/
structure FamilyTable where
  rows : List FamilyPulse
  nodup : (rows.map FamilyPulse.pulseId).Nodup

inductive Scope
  | campaignId
  | cvePair
  | pulseId
  | infrastructure
  deriving DecidableEq

structure Suppression where
  scope : Scope
  scopeKey : Text

def directIds (suppressions : List Suppression) : Finset Text :=
  ((suppressions.filter fun s ↦ s.scope = .campaignId ∧ s.scopeKey ≠ []).map Suppression.scopeKey).toFinset

section
variable [Sha256]

def legacyIds (members : List (Text × Option Text)) : Finset Text :=
  (members.map fun m ↦ legacyCampaignIdForPulse m.1).toFinset

variable [Interp] [Iso]

/-- The campaign that stands for a family with a dismissed pulse. -/
def suppressedCampaign (family : Text × List (Text × Option Text)) : Py (Option Text) := do
  let oldest ← oldestMember family.2
  return oldest.map (campaignIdForFamily family.1)

def resolveSuppressedCampaignIds (rows : List FamilyPulse) (suppressions : List Suppression) : Py (Finset Text) :=
  let direct := directIds suppressions
  if direct = ∅ then .ok ∅
  else do
    let dismissed := (familiesOf rows).items.filter fun family ↦ legacyIds family.2 ∩ direct ≠ ∅
    let expanded ← dismissed.mapM suppressedCampaign
    return direct ∪ (expanded.filterMap id).toFinset

/-- A dismissal of the campaign of a family, or of the legacy campaign of one of its pulses. -/
def Dismisses (family : Text × List (Text × Option Text)) (campaignId : Text) (s : Suppression) : Prop :=
  s.scope = .campaignId ∧ (s.scopeKey = campaignId ∨ ∃ m ∈ family.2, s.scopeKey = legacyCampaignIdForPulse m.1)

/-- The family id, the campaign and the target of dismissals go back to one pulse, and every dismissal reaches the
campaign. -/
def FamilyTable.Agrees (table : FamilyTable) (family : Text × List (Text × Option Text)) : Prop :=
  ∃ p, oldestPulseId family.2 = .ok (some p) ∧ oldestPulse family.2 = .ok (some p) ∧
    oldestMember family.2 = .ok (some p) ∧
    ∀ suppressions, (∃ s ∈ suppressions, Dismisses family (campaignIdForFamily family.1 p) s) →
      ∃ ids, resolveSuppressedCampaignIds table.rows suppressions = .ok ids ∧ campaignIdForFamily family.1 p ∈ ids

variable {table : FamilyTable} {family : Text × List (Text × Option Text)} {p : Text}

omit [Sha256] [Interp] [Iso] in
theorem mem_directIds {suppressions : List Suppression} {id : Text} :
    id ∈ directIds suppressions ↔ id ≠ [] ∧ ∃ s ∈ suppressions, s.scope = .campaignId ∧ s.scopeKey = id := by
  simp only [directIds, List.mem_toFinset, List.mem_map, List.mem_filter, decide_eq_true_eq]
  constructor
  · intro ⟨s, ⟨hs, hscope, hne⟩, hid⟩
    exact ⟨hid ▸ hne, s, hs, hscope, hid⟩
  · intro ⟨hne, s, hs, hscope, hid⟩
    exact ⟨s, ⟨hs, hscope, hid ▸ hne⟩, hid⟩

omit [Sha256] [Interp] [Iso] in
theorem FamilyTable.nodup_family (table : FamilyTable) (h : family ∈ (familiesOf table.rows).items) :
    (family.2.map Prod.fst).Nodup := by
  rw [Dict.mem_items_groups h]
  refine table.nodup.sublist ?_
  simp only [List.filter_map, List.map_map]
  exact List.filter_sublist.map _

theorem mem_of_resolve {rows : List FamilyPulse} {suppressions : List Suppression} {ids : Finset Text}
    (h : resolveSuppressedCampaignIds rows suppressions = .ok ids) :
    directIds suppressions ⊆ ids ∧ ∀ family ∈ (familiesOf rows).items, ∀ p, oldestMember family.2 = .ok (some p) →
      legacyIds family.2 ∩ directIds suppressions ≠ ∅ → campaignIdForFamily family.1 p ∈ ids := by
  rw [resolveSuppressedCampaignIds] at h
  by_cases hd : directIds suppressions = ∅
  · rw [hd]
    refine ⟨Finset.empty_subset ids, ?_⟩
    intro family _ p _ hl
    exact absurd (Finset.inter_empty _) hl
  · simp only [if_neg hd, bind_eq_ok, pure_eq_ok, Except.ok.injEq] at h
    obtain ⟨expanded, he, rfl⟩ := h
    refine ⟨Finset.subset_union_left, ?_⟩
    intro family hf p hp hl
    obtain ⟨y, hy, hs⟩ := mem_of_mapM he (List.mem_filter.mpr ⟨hf, by simpa using hl⟩)
    rw [suppressedCampaign, hp] at hs
    obtain rfl := Except.ok.inj hs
    exact Finset.mem_union_right _ (List.mem_toFinset.mpr (List.mem_filterMap.mpr ⟨_, hy, rfl⟩))

theorem exists_resolve {rows : List FamilyPulse} (suppressions : List Suppression)
    (h : ∀ family ∈ (familiesOf rows).items, ∃ p, oldestMember family.2 = .ok (some p)) :
    ∃ ids, resolveSuppressedCampaignIds rows suppressions = .ok ids := by
  rw [resolveSuppressedCampaignIds]
  by_cases hd : directIds suppressions = ∅
  · exact ⟨∅, if_pos hd⟩
  · have hdefined : ∀ family ∈ (familiesOf rows).items.filter fun family ↦ legacyIds family.2 ∩ directIds suppressions ≠ ∅,
        ∃ y, suppressedCampaign family = .ok y := by
      intro family hf
      obtain ⟨p, hp⟩ := h family (List.mem_filter.mp hf).1
      exact ⟨some (campaignIdForFamily family.1 p), by rw [suppressedCampaign, hp]; rfl⟩
    obtain ⟨expanded, he⟩ := mapM_defined hdefined
    refine ⟨directIds suppressions ∪ (expanded.filterMap id).toFinset, ?_⟩
    simp only [if_neg hd, he]
    rfl

/-- The choices agree and dismissals carry over exactly for the tables of consistently dated families. -/
theorem dismissals_resolve_iff (table : FamilyTable) :
    (∀ family ∈ (familiesOf table.rows).items, table.Agrees family) ↔
      ∀ family ∈ (familiesOf table.rows).items, Consistent family.2 := by
  constructor
  · intro h family hf
    obtain ⟨p, h1, h2, h3, -⟩ := h family hf
    exact (choices_agree (Dict.ne_nil_of_mem_groups hf) (table.nodup_family hf)).mp ⟨p, h1, h2, h3⟩
  · intro h
    have hagree : ∀ family ∈ (familiesOf table.rows).items, ∃ p, oldestPulseId family.2 = .ok (some p) ∧
        oldestPulse family.2 = .ok (some p) ∧ oldestMember family.2 = .ok (some p) := fun family hf ↦
      (choices_agree (Dict.ne_nil_of_mem_groups hf) (table.nodup_family hf)).mpr (h family hf)
    intro family hf
    obtain ⟨p, h1, h2, h3⟩ := hagree family hf
    refine ⟨p, h1, h2, h3, fun suppressions hs ↦ ?_⟩
    obtain ⟨ids, hids⟩ := exists_resolve suppressions fun family hf ↦ (hagree family hf).imp fun _ h ↦ h.2.2
    obtain ⟨hdirect, hexpanded⟩ := mem_of_resolve hids
    refine ⟨ids, hids, ?_⟩
    obtain ⟨s, hs, hscope, hkey⟩ := hs
    rcases hkey with hkey | ⟨m, hm, hkey⟩
    · exact hdirect (mem_directIds.mpr ⟨legacyCampaignIdForPulse_ne_nil p, s, hs, hscope, hkey⟩)
    · apply hexpanded family hf p h3
      refine Finset.nonempty_iff_ne_empty.mp ⟨legacyCampaignIdForPulse m.1, Finset.mem_inter.mpr ⟨?_, ?_⟩⟩
      · exact List.mem_toFinset.mpr (List.mem_map.mpr ⟨m, hm, rfl⟩)
      · exact mem_directIds.mpr ⟨legacyCampaignIdForPulse_ne_nil m.1, s, hs, hscope, hkey⟩

end

section
local instance suppressionInterp : Interp := ascii fun _ ↦ none

local instance suppressionIso : Iso where
  fromIsoformat text := if text = "1969-12-31T00:00:00".toList then some 62135510400000000 else none

local instance suppressionSha256 : Sha256 where
  digest text := if text = "p1".toList then "f64551fcd6f0".toList else "3946ca64ff78".toList

/-- A family of a pulse of 1969 and an undated one. -/
def mixedFamily : FamilyTable where
  rows := [⟨"fam_f64551fcd6f0".toList, "p1".toList, some "1969-12-31T00:00:00".toList⟩,
    ⟨"fam_f64551fcd6f0".toList, "p2".toList, some []⟩]
  nodup := by decide

theorem dismissal_lost :
    oldestPulseId [("p1".toList, some "1969-12-31T00:00:00".toList), ("p2".toList, some [])] = .ok (some "p1".toList) ∧
      oldestPulse [("p1".toList, some "1969-12-31T00:00:00".toList), ("p2".toList, some [])] = .ok (some "p2".toList) ∧
      resolveSuppressedCampaignIds mixedFamily.rows [⟨.campaignId, legacyCampaignIdForPulse "p1".toList⟩] =
        .ok {"camp_f64551fcd6f0".toList} ∧
      ¬∀ family ∈ (familiesOf mixedFamily.rows).items, mixedFamily.Agrees family := by
  have h1 : oldestPulseId [("p1".toList, some "1969-12-31T00:00:00".toList), ("p2".toList, some [])] =
      .ok (some "p1".toList) := by decide +kernel
  have h2 : oldestPulse [("p1".toList, some "1969-12-31T00:00:00".toList), ("p2".toList, some [])] =
      .ok (some "p2".toList) := by decide +kernel
  refine ⟨h1, h2, by decide +kernel, ?_⟩
  intro h
  obtain ⟨p, hp1, hp2, -⟩ := h ("fam_f64551fcd6f0".toList,
    [("p1".toList, some "1969-12-31T00:00:00".toList), ("p2".toList, some [])]) (by decide)
  rw [h1] at hp1
  rw [h2] at hp2
  have he : "p1".toList = "p2".toList := Option.some.inj (Except.ok.inj (hp1.trans hp2.symm))
  exact absurd he (by decide)

end

end Briefr.Correlation
