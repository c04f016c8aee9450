import Briefr.Correlation.Campaigns

namespace Briefr.Correlation

open Briefr.Python Briefr.Library Briefr.Library.StableSort Briefr.Library.Runs

namespace Otx

variable {o : Otx} {rows : List FamilyRow} {family : Text × List (Text × Option Text)} {pid : Text}

theorem mem_familyPulses {r : FamilyPulse} :
    r ∈ o.familyPulses rows ↔ ∃ row ∈ rows, r = ⟨row.familyId, row.pulseId, o.joinedDate row.pulseId⟩ := by
  rw [familyPulses, (perm_sortBy _ _).mem_iff, List.mem_map]
  simp only [eq_comm]

theorem mem_keys_families {fam : Text} :
    fam ∈ (familiesOf (o.familyPulses rows)).keys ↔ fam ∈ rows.map FamilyRow.familyId := by
  rw [familiesOf, Dict.mem_keys_groups]
  simp only [List.mem_map, mem_familyPulses]
  constructor
  · intro ⟨e, ⟨r, ⟨row, hrow, hr⟩, he⟩, hfam⟩
    subst hr he
    exact ⟨row, hrow, hfam⟩
  · intro ⟨row, hrow, hfam⟩
    exact ⟨_, ⟨_, ⟨row, hrow, rfl⟩, rfl⟩, hfam⟩

theorem mem_familiesOf (hf : family ∈ (familiesOf (o.familyPulses rows)).items) {m : Text × Option Text} :
    m ∈ family.2 ↔ ∃ row ∈ rows, row.familyId = family.1 ∧ m = (row.pulseId, o.joinedDate row.pulseId) := by
  rw [Dict.mem_group_iff hf]
  simp only [List.mem_map, mem_familyPulses, Prod.mk.injEq]
  constructor
  · intro ⟨r, ⟨row, hrow, hr⟩, hfam, hm⟩
    subst hr
    exact ⟨row, hrow, hfam, hm.symm⟩
  · intro ⟨row, hrow, hfam, hm⟩
    exact ⟨_, ⟨row, hrow, rfl⟩, hfam, hm.symm⟩

theorem parseDt_joinedDate [Interp] [Iso] (hp : pid ∈ o.pulseIds) :
    parseDt (o.joinedDate pid) = parseDt (o.createdMap pid) := by
  obtain ⟨p, hrow, hid⟩ := List.mem_map.mp hp
  rw [joinedDate, (find?_pulseId o.nodup).mpr ⟨(List.mem_filter.mp hrow).1, hid⟩, createdMap, row?,
    (find?_pulseId o.nodup_pulseIds).mpr ⟨hrow, hid⟩]
  rfl

theorem ne_nil_of_mem_pulseIds (hp : pid ∈ o.pulseIds) : pid ≠ [] := by
  obtain ⟨p, hrow, rfl⟩ := List.mem_map.mp hp
  exact o.named p (List.mem_filter.mp hrow).1

/-- A pulse of a family brings it at least two members. -/
theorem two_le_memberCves {ids : List Text} (hp : pid ∈ o.pulseIds) (hi : pid ∈ ids) : 2 ≤ (o.memberCves ids).length := by
  obtain ⟨p, hrow, rfl⟩ := List.mem_map.mp hp
  have hcard : 2 ≤ (o.knownCves p.pulseId).card := by simpa using (List.mem_filter.mp hrow).2
  have hsub : o.knownCves p.pulseId ⊆ (o.memberCves ids).toFinset := by
    intro cve hcve
    rw [memberCves, List.mem_toFinset, mem_sortedSet]
    obtain ⟨l, hl, rfl⟩ := List.mem_map.mp (List.mem_toFinset.mp hcve)
    obtain ⟨hl, hk⟩ := List.mem_filter.mp hl
    rw [decide_eq_true_eq] at hk
    exact List.mem_map.mpr ⟨l, List.mem_filter.mpr ⟨hl, by simpa using ⟨hk.1 ▸ hi, hk.2⟩⟩, rfl⟩
  calc 2 ≤ (o.knownCves p.pulseId).card := hcard
    _ ≤ (o.memberCves ids).toFinset.card := Finset.card_le_card hsub
    _ ≤ (o.memberCves ids).length := List.toFinset_card_le _

section
variable [Interp] [Iso] [Sha256] {hubCap : ℤ} {order : SetOrder} {κ : Type} [LinearOrder κ] {rank : Option ℕ → κ}

theorem mem_familiesOf_iff (hd : Set.InjOn digest {pid | pid ∈ o.pulseIds})
    (h : o.rebuildPulseFamilies hubCap order = .ok rows) (hf : family ∈ (familiesOf (o.familyPulses rows)).items)
    {m : Text × Option Text} (hm : m ∈ family.2) {q : Text} :
    q ∈ family.2.map Prod.fst ↔ q ∈ o.pulseIds ∧ (o.similarity hubCap).Reachable m.1 q := by
  obtain ⟨row, hrow, hfam, rfl⟩ := (mem_familiesOf hf).mp hm
  constructor
  · intro hq
    obtain ⟨m', hm', rfl⟩ := List.mem_map.mp hq
    obtain ⟨row', hrow', hfam', rfl⟩ := (mem_familiesOf hf).mp hm'
    refine ⟨((mem_rebuildPulseFamilies h).mp hrow').1, ?_⟩
    exact (familyId_eq_iff hd h hrow hrow').mp (hfam.trans hfam'.symm)
  · intro ⟨hq, hreach⟩
    obtain ⟨row', hrow', rfl⟩ : ∃ row' ∈ rows, row'.pulseId = q := by
      have hc := countP_rebuildPulseFamilies h hq
      obtain ⟨row', hrow', hq⟩ := List.countP_pos_iff.mp (by omega : 0 < rows.countP fun r ↦ r.pulseId = q)
      exact ⟨row', hrow', by simpa using hq⟩
    have hfam' := (familyId_eq_iff hd h hrow hrow').mpr hreach
    exact List.mem_map.mpr ⟨_, (mem_familiesOf hf).mpr ⟨row', hrow', hfam'.symm.trans hfam, rfl⟩, rfl⟩

theorem isOldest_familiesOf (hd : Set.InjOn digest {pid | pid ∈ o.pulseIds})
    (h : o.rebuildPulseFamilies hubCap order = .ok rows) (hf : family ∈ (familiesOf (o.familyPulses rows)).items)
    {m : Text × Option Text} (hm : m ∈ family.2) {p : Text} (hp : o.IsAnchor hubCap rank m.1 p) :
    IsOldest rank family.2 p := by
  obtain ⟨members, hmembers, hold⟩ := hp
  have hfg : ∀ pid ∈ members, parseDt (o.createdMap pid) = parseDt (o.joinedDate pid) := fun pid hpid ↦
    (parseDt_joinedDate ((hmembers pid).mp hpid).1).symm
  refine (hold.congr_dates hfg).congr fun m' ↦ ?_
  have hshape : ∀ m' ∈ family.2, m'.2 = o.joinedDate m'.1 := by
    intro m' hm'
    obtain ⟨row, -, -, rfl⟩ := (mem_familiesOf hf).mp hm'
    rfl
  rw [List.mem_map]
  constructor
  · intro ⟨pid, hpid, he⟩
    subst he
    obtain ⟨m', hm', rfl⟩ := List.mem_map.mp ((mem_familiesOf_iff hd h hf hm).mpr ((hmembers pid).mp hpid))
    rw [← hshape m' hm']
    exact hm'
  · intro hm'
    refine ⟨m'.1, (hmembers _).mpr ((mem_familiesOf_iff hd h hf hm).mp (List.mem_map_of_mem hm')), ?_⟩
    rw [← hshape m' hm']

end

end Otx

namespace Night

section
variable [Interp] [Iso] [Sha256]

/-- The tables of the night have a family of this id. -/
def HasFamily (n : Night) (familyId : Text) : Prop :=
  ∃ pid ∈ n.otx.pulseIds, ∃ p, n.otx.IsAnchor n.hubCap familyRank pid p ∧ familyId = familyIdForOldestPulse p

/-- The lifecycle of every campaign of the night can be computed. -/
def LifecyclesReturn (n : Night) : Prop :=
  ∀ pid ∈ n.otx.pulseIds, ∀ p ids, (∀ q, q ∈ ids ↔ q ∈ n.otx.pulseIds ∧ (n.otx.similarity n.hubCap).Reachable pid q) →
    IsOldest campaignRank (ids.map n.otx.dated) p → ∃ l, n.campaignLifecycle p ids = .ok l

/-- The build can read every date that it meets, and no row that it keeps, being retracted already or without its
family now, has the id of a campaign of the night. -/
def Clear (n : Night) (s : Store) : Prop :=
  n.otx.DatesReadable ∧ n.LifecyclesReturn ∧ ∀ c ∈ s.campaigns, c.retracted = true ∨ ¬n.HasFamily c.familyId →
    ∀ pid ∈ n.otx.pulseIds, ∀ p, n.otx.IsAnchor n.hubCap campaignRank pid p →
      c.campaignId ≠ campaignIdForFamily c.familyId p

/-- After the build the families are those of the night, each of them with two member CVEs has one campaign that is not
retracted, and no other family has one. -/
def Rebuilt (n : Night) (s : Store) : Prop :=
  n.otx.rebuildPulseFamilies n.hubCap n.order = .ok s.pulseFamilies ∧
    (s.campaigns.map Campaign.campaignId).Nodup ∧
    (∀ fam ∈ s.pulseFamilies.map FamilyRow.familyId,
      2 ≤ (n.otx.memberCves ((s.pulseFamilies.filter fun r ↦ r.familyId = fam).map FamilyRow.pulseId)).length →
        s.campaigns.countP (fun c ↦ c.familyId = fam ∧ c.retracted = false) = 1) ∧
    ∀ c ∈ s.campaigns, c.familyId ∉ s.pulseFamilies.map FamilyRow.familyId → c.retracted = true

variable {n : Night} {s s' : Store} {rows : List FamilyRow}

theorem hasFamily_iff (h : n.otx.rebuildPulseFamilies n.hubCap n.order = .ok rows) {fam : Text} :
    n.HasFamily fam ↔ fam ∈ rows.map FamilyRow.familyId := by
  rw [List.mem_map]
  constructor
  · intro ⟨pid, hp, p, hanchor, hfam⟩
    exact ⟨⟨pid, fam⟩, (Otx.mem_rebuildPulseFamilies h).mpr ⟨hp, p, hanchor, hfam⟩, rfl⟩
  · intro ⟨row, hrow, hfam⟩
    obtain ⟨hp, p, hanchor, he⟩ := (Otx.mem_rebuildPulseFamilies h).mp hrow
    exact ⟨row.pulseId, hp, p, hanchor, hfam ▸ he⟩

omit [Interp] [Iso] [Sha256] in
theorem membersOf_congr {ids ids' : List Text} (h : ∀ q, q ∈ ids ↔ q ∈ ids') : n.membersOf ids = n.membersOf ids' := by
  have hc : n.otx.memberCves ids = n.otx.memberCves ids' := by
    apply sortedSet_congr
    intro cve
    simp only [List.mem_map, List.mem_filter, h]
  rw [membersOf, membersOf, hc]

theorem familyCampaign_eq (hd : Set.InjOn digest {pid | pid ∈ n.otx.pulseIds})
    (h : n.otx.rebuildPulseFamilies n.hubCap n.order = .ok rows) {family : Text × List (Text × Option Text)}
    (hf : family ∈ (familiesOf (n.otx.familyPulses rows)).items) {m : Text × Option Text} (hm : m ∈ family.2)
    {p : Text} (hp : n.otx.IsAnchor n.hubCap campaignRank m.1 p) :
    n.familyCampaign family = do
      let lifecycle ← n.campaignLifecycle p (family.2.map Prod.fst)
      return some (⟨campaignIdForFamily family.1 p, p, family.1, lifecycle, false⟩, n.membersOf (family.2.map Prod.fst)) := by
  have hids : ∀ m ∈ family.2, m.1 ∈ n.otx.pulseIds := fun m' hm' ↦
    ((Otx.mem_familiesOf_iff hd h hf hm).mp (List.mem_map_of_mem hm')).1
  have hall : family.2.filter (fun m ↦ m.1 ≠ []) = family.2 := by
    rw [List.filter_eq_self]
    intro m' hm'
    simpa using Otx.ne_nil_of_mem_pulseIds (hids m' hm')
  have holdest : oldestPulse family.2 = .ok (some p) := oldestBy_eq_ok.mpr (Otx.isOldest_familiesOf hd h hf hm hp)
  have htwo : 2 ≤ (n.membersOf (family.2.map Prod.fst)).length := by
    have hmembers := Otx.two_le_memberCves (hids m hm) (List.mem_map_of_mem (f := Prod.fst) hm)
    rw [membersOf, List.length_take, getMaxCampaignMembers]
    omega
  rw [familyCampaign, hall]
  simp only [if_neg (List.ne_nil_of_mem hm), holdest, ok_bind, if_neg (not_lt.mpr htwo)]

theorem exists_anchor (hd : Set.InjOn digest {pid | pid ∈ n.otx.pulseIds})
    (h : n.otx.rebuildPulseFamilies n.hubCap n.order = .ok rows) {family : Text × List (Text × Option Text)}
    (hf : family ∈ (familiesOf (n.otx.familyPulses rows)).items) :
    ∃ p ∈ family.2.map Prod.fst, ∀ m ∈ family.2, n.otx.IsAnchor n.hubCap campaignRank m.1 p := by
  obtain ⟨m, hm⟩ := List.exists_mem_of_ne_nil _ (Dict.ne_nil_of_mem_groups hf)
  have hcomponent : ∀ m ∈ family.2, ∀ q, q ∈ family.2.map Prod.fst ↔
      q ∈ n.otx.pulseIds ∧ (n.otx.similarity n.hubCap).Reachable m.1 q := fun m hm q ↦ Otx.mem_familiesOf_iff hd h hf hm
  obtain ⟨p, hp⟩ := Otx.exists_isAnchor n.hubCap n.order campaignRank (Otx.datesReadable_of_rebuild h)
    ((hcomponent m hm _).mp (List.mem_map_of_mem hm)).1
  refine ⟨p, (hcomponent m hm p).mpr hp.spec, fun m' hm' ↦ ?_⟩
  obtain ⟨ids, hids, hold⟩ := hp
  refine ⟨ids, fun b ↦ (hids b).trans ?_, hold⟩
  rw [← hcomponent m hm, ← hcomponent m' hm']

theorem foldlM_writeFamily {items : List (Text × List (Text × Option Text))}
    {entry : Text × List (Text × Option Text) → Campaign × List Text}
    (h : ∀ family ∈ items, n.familyCampaign family = .ok (some (entry family))) (s : Store) :
    items.foldlM n.writeFamily s = (items.map entry).foldlM Store.writeCampaign s := by
  induction items generalizing s with
  | nil => rfl
  | cons family items ih =>
    have hwrite : n.writeFamily s family = s.writeCampaign (entry family) := by
      rw [writeFamily, h family (.head _)]
      rfl
    rw [List.foldlM_cons, List.map_cons, List.foldlM_cons, hwrite]
    exact bind_congr fun s ↦ ih (fun family hf ↦ h family (.tail _ hf)) s

theorem familyCampaign_of_foldlM {items : List (Text × List (Text × Option Text))}
    (h : items.foldlM n.writeFamily s = some s') : ∀ family ∈ items, ∃ x, n.familyCampaign family = .ok x := by
  induction items generalizing s with
  | nil => simp
  | cons family items ih =>
    rw [List.foldlM_cons] at h
    obtain ⟨s1, hs1, h⟩ := Option.bind_eq_some_iff.mp h
    intro family' hf
    rcases List.mem_cons.mp hf with rfl | hf
    · cases hc : n.familyCampaign family' with
      | error e =>
        rw [writeFamily, hc] at hs1
        cases hs1
      | ok x => exact ⟨x, rfl⟩
    · exact ih h family' hf

theorem exists_family_of_mem (h : n.otx.rebuildPulseFamilies n.hubCap n.order = .ok rows) {pid : Text}
    (hp : pid ∈ n.otx.pulseIds) :
    ∃ family ∈ (familiesOf (n.otx.familyPulses rows)).items, ∃ m ∈ family.2, m.1 = pid := by
  obtain ⟨p, hanchor⟩ := Otx.exists_isAnchor n.hubCap n.order familyRank (Otx.datesReadable_of_rebuild h) hp
  have hrow : ⟨pid, familyIdForOldestPulse p⟩ ∈ rows := (Otx.mem_rebuildPulseFamilies h).mpr ⟨hp, p, hanchor, rfl⟩
  have hkey : familyIdForOldestPulse p ∈ (familiesOf (n.otx.familyPulses rows)).keys :=
    Otx.mem_keys_families.mpr (List.mem_map_of_mem hrow)
  obtain ⟨family, hf, hfam⟩ := List.mem_map.mp hkey
  exact ⟨family, hf, _, (Otx.mem_familiesOf hf).mpr ⟨_, hrow, hfam.symm, rfl⟩, rfl⟩

omit [Sha256] in
theorem campaignLifecycle_congr {p : Text} {ids ids' : List Text} (h : ∀ q, q ∈ ids ↔ q ∈ ids') :
    n.campaignLifecycle p ids = n.campaignLifecycle p ids' := by
  rw [campaignLifecycle, campaignLifecycle, membersOf_congr h]

theorem lifecyclesReturn_iff (hd : Set.InjOn digest {pid | pid ∈ n.otx.pulseIds})
    (h : n.otx.rebuildPulseFamilies n.hubCap n.order = .ok rows) :
    n.LifecyclesReturn ↔ ∀ family ∈ (familiesOf (n.otx.familyPulses rows)).items, ∀ m ∈ family.2, ∀ p,
      n.otx.IsAnchor n.hubCap campaignRank m.1 p → ∃ l, n.campaignLifecycle p (family.2.map Prod.fst) = .ok l := by
  constructor
  · intro hl family hf m hm p hp
    obtain ⟨ids, hids, hold⟩ := hp
    have hpid := ((Otx.mem_familiesOf_iff hd h hf hm).mp (List.mem_map_of_mem hm)).1
    obtain ⟨l, hlife⟩ := hl m.1 hpid p ids hids hold
    refine ⟨l, (campaignLifecycle_congr fun q ↦ ?_).trans hlife⟩
    rw [Otx.mem_familiesOf_iff hd h hf hm, hids]
  · intro hl pid hp p ids hids hold
    obtain ⟨family, hf, m, hm, rfl⟩ := exists_family_of_mem h hp
    obtain ⟨l, hlife⟩ := hl family hf m hm p ⟨ids, hids, hold⟩
    refine ⟨l, (campaignLifecycle_congr fun q ↦ ?_).trans hlife⟩
    rw [hids, Otx.mem_familiesOf_iff hd h hf hm]

/-- The campaigns of the night: one for each family, each under the id of its first pulse. -/
theorem exists_entry (hd : Set.InjOn digest {pid | pid ∈ n.otx.pulseIds})
    (h : n.otx.rebuildPulseFamilies n.hubCap n.order = .ok rows) (hl : n.LifecyclesReturn) :
    ∃ (lead : Text × List (Text × Option Text) → Text) (lifecycle : Text × List (Text × Option Text) → Lifecycle),
      ∀ family ∈ (familiesOf (n.otx.familyPulses rows)).items,
        n.familyCampaign family = .ok (some (⟨campaignIdForFamily family.1 (lead family), lead family, family.1,
          lifecycle family, false⟩, n.membersOf (family.2.map Prod.fst))) ∧
        lead family ∈ family.2.map Prod.fst ∧
        ∀ m ∈ family.2, n.otx.IsAnchor n.hubCap campaignRank m.1 (lead family) := by
  have hentry : ∀ family ∈ (familiesOf (n.otx.familyPulses rows)).items, ∃ (lead : Text) (lifecycle : Lifecycle),
      n.familyCampaign family = .ok (some (⟨campaignIdForFamily family.1 lead, lead, family.1, lifecycle, false⟩,
          n.membersOf (family.2.map Prod.fst))) ∧
        lead ∈ family.2.map Prod.fst ∧ ∀ m ∈ family.2, n.otx.IsAnchor n.hubCap campaignRank m.1 lead := by
    intro family hf
    obtain ⟨p, hmem, hp⟩ := exists_anchor hd h hf
    obtain ⟨m, hm⟩ := List.exists_mem_of_ne_nil _ (Dict.ne_nil_of_mem_groups hf)
    obtain ⟨l, hlife⟩ := (lifecyclesReturn_iff hd h).mp hl family hf m hm p (hp m hm)
    exact ⟨p, l, by rw [familyCampaign_eq hd h hf hm (hp m hm), hlife]; rfl, hmem, hp⟩
  choose! lead lifecycle hentry using hentry
  exact ⟨lead, lifecycle, hentry⟩

theorem nodup_leads (hd : Set.InjOn digest {pid | pid ∈ n.otx.pulseIds})
    (h : n.otx.rebuildPulseFamilies n.hubCap n.order = .ok rows) {lead : Text × List (Text × Option Text) → Text}
    (hlead : ∀ family ∈ (familiesOf (n.otx.familyPulses rows)).items, lead family ∈ family.2.map Prod.fst) :
    ((familiesOf (n.otx.familyPulses rows)).items.map fun family ↦
      campaignIdForFamily family.1 (lead family)).Nodup := by
  have hrow : ∀ family ∈ (familiesOf (n.otx.familyPulses rows)).items, ⟨lead family, family.1⟩ ∈ rows := by
    intro family hf
    obtain ⟨m, hm, hml⟩ := List.mem_map.mp (hlead family hf)
    obtain ⟨row, hrow, hfam, rfl⟩ := (Otx.mem_familiesOf hf).mp hm
    rwa [← hml, ← hfam]
  apply List.Nodup.map_on _ (.of_map _ (familiesOf (n.otx.familyPulses rows)).nodup)
  intro family hf family' hf' he
  have hp := ((Otx.mem_rebuildPulseFamilies h).mp (hrow family hf)).1
  have hp' := ((Otx.mem_rebuildPulseFamilies h).mp (hrow family' hf')).1
  have hsame : lead family = lead family' := hd hp hp' (List.append_cancel_left he)
  have hid := List.inj_on_of_nodup_map (Otx.nodup_rebuildPulseFamilies h) (hrow family hf) (hrow family' hf') hsame
  exact List.inj_on_of_nodup_map (familiesOf (n.otx.familyPulses rows)).nodup hf hf' (FamilyRow.mk.inj hid).2

/-- The rows that stand when the campaigns of the night are written. -/
def cleared (n : Night) (rows : List FamilyRow) (s : Store) : Store :=
  (({ s with pulseFamilies := rows } : Store).retractVanished
    (familiesOf (n.otx.familyPulses rows)).keys).deleteUnretracted

theorem mem_cleared (h : n.otx.rebuildPulseFamilies n.hubCap n.order = .ok rows) {id : Text} :
    id ∈ (n.cleared rows s).campaigns.map Campaign.campaignId ↔
      ∃ c ∈ s.campaigns, c.campaignId = id ∧ (c.retracted = true ∨ ¬n.HasFamily c.familyId) := by
  rw [cleared, Store.mem_cleared]
  simp only [hasFamily_iff h, Otx.mem_keys_families]

theorem disjoint_leads_iff (h : n.otx.rebuildPulseFamilies n.hubCap n.order = .ok rows) (hl : n.LifecyclesReturn)
    {lead : Text × List (Text × Option Text) → Text}
    (hlead : ∀ family ∈ (familiesOf (n.otx.familyPulses rows)).items,
      ∀ m ∈ family.2, n.otx.IsAnchor n.hubCap campaignRank m.1 (lead family)) :
    ((n.cleared rows s).campaigns.map Campaign.campaignId).Disjoint
        ((familiesOf (n.otx.familyPulses rows)).items.map fun family ↦ campaignIdForFamily family.1 (lead family)) ↔
      n.Clear s := by
  constructor
  · intro hdisjoint
    refine ⟨Otx.datesReadable_of_rebuild h, hl, fun c hc hkept pid hp p hanchor he ↦ ?_⟩
    obtain ⟨family, hf, m, hm, rfl⟩ := exists_family_of_mem h hp
    have hpl : p = lead family := hanchor.unique (.refl _) (hlead family hf m hm)
    refine hdisjoint ((mem_cleared h).mpr ⟨c, hc, he, hkept⟩) ?_
    exact List.mem_map.mpr ⟨family, hf, by rw [hpl]; rfl⟩
  · intro hclear id hid hid'
    obtain ⟨c, hc, rfl, hkept⟩ := (mem_cleared h).mp hid
    obtain ⟨family, hf, he⟩ := List.mem_map.mp hid'
    obtain ⟨m, hm⟩ := List.exists_mem_of_ne_nil _ (Dict.ne_nil_of_mem_groups hf)
    have hanchor := hlead family hf m hm
    obtain ⟨row, hrow, -, rfl⟩ := (Otx.mem_familiesOf hf).mp hm
    exact hclear.2.2 c hc hkept _ ((Otx.mem_rebuildPulseFamilies h).mp hrow).1 _ hanchor he.symm

theorem buildCampaignsFromPulses_eq (h : n.otx.rebuildPulseFamilies n.hubCap n.order = .ok rows) :
    n.buildCampaignsFromPulses s =
      (familiesOf (n.otx.familyPulses rows)).items.foldlM n.writeFamily (n.cleared rows s) := by
  rw [buildCampaignsFromPulses, h]
  rfl

theorem lifecyclesReturn_of_build (hd : Set.InjOn digest {pid | pid ∈ n.otx.pulseIds})
    (h : n.otx.rebuildPulseFamilies n.hubCap n.order = .ok rows) (hb : n.buildCampaignsFromPulses s = some s') :
    n.LifecyclesReturn := by
  rw [buildCampaignsFromPulses_eq h] at hb
  rw [lifecyclesReturn_iff hd h]
  intro family hf m hm p hp
  obtain ⟨x, hx⟩ := familyCampaign_of_foldlM hb family hf
  rw [familyCampaign_eq hd h hf hm hp] at hx
  obtain ⟨l, hl, -⟩ := bind_eq_ok.mp hx
  exact ⟨l, hl⟩

/-- A build goes through when nothing stands in its way, and then adds a campaign for each family. -/
theorem buildCampaignsFromPulses_eq_some (hs : s.WellFormed) (hd : Set.InjOn digest {pid | pid ∈ n.otx.pulseIds})
    (h : n.otx.rebuildPulseFamilies n.hubCap n.order = .ok rows) (hl : n.LifecyclesReturn) :
    ∃ entries : List (Campaign × List Text),
      (∀ entry ∈ entries, entry.1.retracted = false) ∧
      entries.map (fun entry ↦ entry.1.familyId) = (familiesOf (n.otx.familyPulses rows)).keys ∧
      (n.Clear s → (entries.foldl Store.added (n.cleared rows s)).WellFormed) ∧
      ∀ s', n.buildCampaignsFromPulses s = some s' ↔
        n.Clear s ∧ s' = entries.foldl Store.added (n.cleared rows s) := by
  obtain ⟨lead, lifecycle, hentry⟩ := exists_entry hd h hl
  let entry : Text × List (Text × Option Text) → Campaign × List Text := fun family ↦
    (⟨campaignIdForFamily family.1 (lead family), lead family, family.1, lifecycle family, false⟩,
      n.membersOf (family.2.map Prod.fst))
  have hwf : (n.cleared rows s).WellFormed := by
    have hrows : ({ s with pulseFamilies := rows } : Store).WellFormed := ⟨hs.campaigns, hs.members, hs.member⟩
    exact (hrows.retractVanished _).deleteUnretracted
  have hmembers : ∀ e ∈ (familiesOf (n.otx.familyPulses rows)).items.map entry, e.2.Nodup := by
    intro e he
    obtain ⟨family, -, rfl⟩ := List.mem_map.mp he
    exact (nodup_sortedSet _).sublist (List.take_sublist _ _)
  have hnodup : (((n.cleared rows s).campaigns ++
      ((familiesOf (n.otx.familyPulses rows)).items.map entry).map Prod.fst).map Campaign.campaignId).Nodup ↔
        n.Clear s := by
    rw [List.map_append, List.nodup_append', List.map_map, List.map_map,
      ← disjoint_leads_iff h hl fun family hf ↦ (hentry family hf).2.2]
    have hleads := nodup_leads hd h fun family hf ↦ (hentry family hf).2.1
    constructor
    · intro hn
      exact hn.2.2
    · intro hdisjoint
      exact ⟨hwf.campaigns, hleads, hdisjoint⟩
  refine ⟨(familiesOf (n.otx.familyPulses rows)).items.map entry, ?_, ?_, ?_, fun s' ↦ ?_⟩
  · intro e he
    obtain ⟨family, hf, rfl⟩ := List.mem_map.mp he
    rfl
  · rw [List.map_map]
    rfl
  · intro hclear
    exact hwf.foldl_added hmembers (hnodup.mpr hclear)
  · rw [buildCampaignsFromPulses_eq h, foldlM_writeFamily fun family hf ↦ (hentry family hf).1,
      Store.foldlM_writeCampaign hwf hmembers, hnodup]

theorem exists_build_of_clear (hs : s.WellFormed) (hd : Set.InjOn digest {pid | pid ∈ n.otx.pulseIds})
    (hclear : n.Clear s) : ∃ s', n.buildCampaignsFromPulses s = some s' := by
  obtain ⟨rows, hr⟩ := Otx.exists_rebuildPulseFamilies n.hubCap n.order hclear.1
  obtain ⟨entries, -, -, -, hbuild⟩ := buildCampaignsFromPulses_eq_some hs hd hr hclear.2.1
  exact ⟨_, (hbuild _).mpr ⟨hclear, rfl⟩⟩

theorem exists_rebuild_of_build (h : n.buildCampaignsFromPulses s = some s') :
    ∃ rows, n.otx.rebuildPulseFamilies n.hubCap n.order = .ok rows := by
  cases hr : n.otx.rebuildPulseFamilies n.hubCap n.order with
  | error e =>
    rw [buildCampaignsFromPulses, hr] at h
    cases h
  | ok rows => exact ⟨rows, rfl⟩

theorem build_spec (hs : s.WellFormed) (hd : Set.InjOn digest {pid | pid ∈ n.otx.pulseIds})
    (h : n.buildCampaignsFromPulses s = some s') : n.Clear s ∧ n.Rebuilt s' ∧ s'.WellFormed := by
  obtain ⟨rows, hr⟩ := exists_rebuild_of_build h
  have hl := lifecyclesReturn_of_build hd hr h
  obtain ⟨entries, hfresh, hkeys, hwf, hbuild⟩ := buildCampaignsFromPulses_eq_some hs hd hr hl
  obtain ⟨hclear, rfl⟩ := (hbuild s').mp h
  have hwf := hwf hclear
  have hretracted : ∀ c ∈ (n.cleared rows s).campaigns, c.retracted = true := fun c hc ↦ (List.mem_filter.mp hc).2
  have hfamilies : (entries.foldl Store.added (n.cleared rows s)).pulseFamilies = rows := by
    rw [Store.pulseFamilies_foldl_added]
    rfl
  refine ⟨hclear, ?_, hwf⟩
  rw [Rebuilt, hfamilies]
  refine ⟨hr, hwf.campaigns, ?_, ?_⟩
  · intro fam hfam _
    have hold : (n.cleared rows s).campaigns.countP (fun c ↦ c.familyId = fam ∧ c.retracted = false) = 0 := by
      rw [List.countP_eq_zero]
      intro c hc
      simp [hretracted c hc]
    have hcount : (entries.map fun entry ↦ entry.1.familyId).count fam = 1 := by
      rw [hkeys]
      exact List.count_eq_one_of_mem (familiesOf (n.otx.familyPulses rows)).nodup (Otx.mem_keys_families.mpr hfam)
    rw [Store.campaigns_foldl_added, List.countP_append, hold, List.countP_map, Nat.zero_add, ← hcount, List.count,
      List.countP_map]
    apply List.countP_congr
    intro entry he
    simp [hfresh entry he]
  · intro c hc hgone
    rw [Store.campaigns_foldl_added] at hc
    rcases List.mem_append.mp hc with hc | hc
    · exact hretracted c hc
    · obtain ⟨entry, he, rfl⟩ := List.mem_map.mp hc
      have hkey : entry.1.familyId ∈ (familiesOf (n.otx.familyPulses rows)).keys := by
        rw [← hkeys]
        exact List.mem_map.mpr ⟨entry, he, rfl⟩
      exact absurd (Otx.mem_keys_families.mp hkey) hgone

end

end Night

section
variable [Interp] [Iso] [Sha256]

def Unhindered (s : Store) : Event → Prop
  | .prune _ => True
  | .build n => n.Clear s

/-- Throughout the run every build succeeds and leaves one live campaign to each family and none to another. -/
def BuildsSucceed (events : List Event) : Prop :=
  ∀ before n, before ++ [.build n] <+: events →
    ∃ s, n.buildCampaignsFromPulses (run step .empty before) = some s ∧ n.Rebuilt s

theorem wellFormed_step {s : Store} (hs : s.WellFormed) {e : Event}
    (hd : ∀ n, e = .build n → Set.InjOn digest {pid | pid ∈ n.otx.pulseIds}) : (step s e).WellFormed := by
  cases e with
  | prune cves => exact hs.prune cves
  | build n =>
    rw [step]
    cases hb : n.buildCampaignsFromPulses s with
    | none => exact hs
    | some s' => exact (Night.build_spec hs (hd n rfl) hb).2.2

theorem wellFormed_run {s : Store} (hs : s.WellFormed) {events : List Event}
    (hd : ∀ n, .build n ∈ events → Set.InjOn digest {pid | pid ∈ n.otx.pulseIds}) : (run step s events).WellFormed := by
  induction events generalizing s with
  | nil => exact hs
  | cons e events ih =>
    refine ih (wellFormed_step hs fun n he ↦ hd n (he ▸ .head _)) fun n hn ↦ hd n (.tail _ hn)

theorem builds_succeed_iff (events : List Event)
    (hd : ∀ n, .build n ∈ events → Set.InjOn digest {pid | pid ∈ n.otx.pulseIds}) :
    BuildsSucceed events ↔ Along step Unhindered .empty events := by
  have hwf : ∀ before e, before ++ [e] <+: events → (run step .empty before).WellFormed := by
    intro before e hb
    exact wellFormed_run .empty fun n hn ↦ hd n (hb.subset (List.mem_append_left _ hn))
  have hnight : ∀ before n, before ++ [.build n] <+: events → Set.InjOn digest {pid | pid ∈ n.otx.pulseIds} := by
    intro before n hb
    exact hd n (hb.subset (by simp))
  rw [along_iff_each]
  constructor
  · intro h before e hb
    cases e with
    | prune cves => trivial
    | build n =>
      obtain ⟨s, hs, -⟩ := h before n hb
      exact (Night.build_spec (hwf before _ hb) (hnight before n hb) hs).1
  · intro h before n hb
    obtain ⟨s, hs⟩ := Night.exists_build_of_clear (hwf before _ hb) (hnight before n hb) (h before _ hb)
    exact ⟨s, hs, (Night.build_spec (hwf before _ hb) (hnight before n hb) hs).2.1⟩

end

section
local instance campaignInterp : Interp := ascii fun _ ↦ none

local instance campaignIso : Iso where
  fromIsoformat text := if text = "2026-01-02T03:04:05".toList then some 63902919845000000 else none

local instance campaignSha256 : Sha256 where
  digest text := if text = "p1".toList then "f64551fcd6f0".toList else "3946ca64ff78".toList

/-- Members without a date of their own, and nothing observed. -/
def nightOf (otx : Otx) : Night where
  otx := otx
  memberRows members := members.map fun _ ↦ ⟨false, false, none, none, none, none⟩
  observationAt _ _ := []
  now := 63902919845000000
  hubCap := 50
  maxMembers := 25
  order := Otx.sortedOrder

def presentNight : Night := nightOf (Otx.twoPulses "2026-01-02T03:04:05".toList)

def emptyNight : Night := nightOf ⟨[], [], [], [], fun _ _ ↦ none, by decide, by decide⟩

theorem digests_presentNight : Set.InjOn digest {pid | pid ∈ presentNight.otx.pulseIds} :=
  Otx.digests_twoPulses (by decide) _

/-- A family that vanishes and comes back cannot be built. -/
theorem build_fails_on_return :
    ¬BuildsSucceed [.build presentNight, .build emptyNight, .build presentNight] := by
  intro h
  obtain ⟨s, hs, -⟩ := h [.build presentNight, .build emptyNight] presentNight (List.prefix_refl _)
  have hnone : (presentNight.buildCampaignsFromPulses
      (run step .empty [.build presentNight, .build emptyNight])).isSome = false := by decide +kernel
  rw [hs] at hnone
  cases hnone

theorem builds_succeed_once :
    (∀ n, .build n ∈ [Event.build presentNight] → Set.InjOn digest {pid | pid ∈ n.otx.pulseIds}) ∧
      BuildsSucceed [.build presentNight] := by
  have hd : ∀ n, .build n ∈ [Event.build presentNight] → Set.InjOn digest {pid | pid ∈ n.otx.pulseIds} := by
    intro n hn
    obtain rfl := Event.build.inj (List.mem_singleton.mp hn)
    exact digests_presentNight
  have hread : ∀ pid ∈ presentNight.otx.pulseIds, Readable (presentNight.otx.joinedDate pid) ∧
      Readable (presentNight.otx.createdMap pid) := by
    intro pid hp
    rw [presentNight, nightOf, Otx.pulseIds_twoPulses] at hp
    rcases List.mem_cons.mp hp with rfl | hp
    · exact ⟨⟨some 63902919845000000, by decide⟩, some 63902919845000000, by decide⟩
    · obtain rfl := List.mem_singleton.mp hp
      exact ⟨⟨none, by decide⟩, none, by decide⟩
  have hlife : presentNight.LifecyclesReturn := by
    intro pid _ p ids hids hold
    obtain ⟨x, hx, rfl⟩ := List.mem_map.mp hold.mem
    obtain ⟨q, hq, rfl⟩ := List.mem_map.mp hx
    refine exists_computeCampaignLifecycle (hread q ((hids q).mp hq).1).1 ?_ (by simp [presentNight, nightOf]) _
    intro m hm
    obtain ⟨cve, -, rfl⟩ := List.mem_map.mp hm
    exact ⟨⟨none, rfl⟩, ⟨none, rfl⟩, ⟨none, rfl⟩, none, rfl⟩
  refine ⟨hd, (builds_succeed_iff _ hd).mpr ⟨⟨fun pid hp ↦ (hread pid hp).2, hlife, fun c hc ↦ by cases hc⟩, trivial⟩⟩

end

end Briefr.Correlation
