import Briefr.Detection.Backlog
import Briefr.Python.Loop

namespace Briefr.Detection.Backlog

open Briefr.Python Briefr.Library Briefr.Library.StableSort Briefr.Library.Runs Briefr.Matching.Cpe

section
variable [Interp]

theorem mem_matching {assets : List Asset} {cves matched : List CveRecord} (h : matching assets cves = .ok matched)
    {c : CveRecord} : c ∈ matched ↔ c ∈ cves ∧ hits assets c = .ok true := by
  induction cves generalizing matched with
  | nil =>
    obtain rfl := Except.ok.inj h
    simp
  | cons d cves ih =>
    obtain ⟨hit, hhit, h⟩ := bind_eq_ok.mp h
    obtain ⟨rest, hrest, h⟩ := bind_eq_ok.mp h
    obtain rfl := Except.ok.inj h
    have hmem := ih hrest
    cases hit with
    | false =>
      have hne : hits assets c = .ok true → c ≠ d := by
        rintro hc rfl
        rw [hhit] at hc
        cases hc
      rw [if_neg Bool.false_ne_true, hmem, List.mem_cons]
      exact ⟨fun ⟨hc, hs⟩ ↦ ⟨.inr hc, hs⟩, fun ⟨hc, hs⟩ ↦ ⟨hc.resolve_left (hne hs), hs⟩⟩
    | true =>
      rw [if_pos rfl, List.mem_cons, hmem, List.mem_cons, or_and_right]
      exact or_congr_left ⟨fun he ↦ ⟨he, he ▸ hhit⟩, And.left⟩

theorem matching_sublist {assets : List Asset} {cves matched : List CveRecord}
    (h : matching assets cves = .ok matched) :
    matched.Sublist cves := by
  induction cves generalizing matched with
  | nil =>
    obtain rfl := Except.ok.inj h
    exact .slnil
  | cons d cves ih =>
    obtain ⟨hit, -, h⟩ := bind_eq_ok.mp h
    obtain ⟨rest, hrest, h⟩ := bind_eq_ok.mp h
    obtain rfl := Except.ok.inj h
    cases hit with
    | false => exact (ih hrest).cons d
    | true => exact (ih hrest).cons_cons d

theorem mem_filterCvesMatchingAssets {intel : Intel} {ids : List Text} {assets : List Asset} {matched : List CveRecord}
    (h : filterCvesMatchingAssets intel ids assets = .ok matched) {c : CveRecord} :
    c ∈ matched ↔ c ∈ intel.cves ∧ c.cveId ∈ normalizedIds ids ∧ hits assets c = .ok true := by
  rw [filterCvesMatchingAssets] at h
  split at h
  next hnone =>
    obtain rfl := Except.ok.inj h
    refine ⟨fun hc ↦ absurd hc List.not_mem_nil, fun ⟨_, hid, hhit⟩ ↦ ?_⟩
    rcases hnone with hids | rfl
    · rw [hids] at hid
      exact absurd hid List.not_mem_nil
    · cases hhit
  next =>
    rw [mem_matching h, List.mem_filter, decide_eq_true_eq, and_assoc]

/-- A CVE has a technique, by the map or by its own column. -/
def Linked (intel : Intel) (cveId techniqueId : Text) : Prop :=
  ∃ raw, ((cveId, raw) ∈ intel.cveTechniqueMap ∨
      ∃ c ∈ intel.cves, c.cveId = cveId ∧ c.mitreTechnique = some raw ∧ raw ≠ []) ∧
    upper (strip raw) = techniqueId ∧ techniqueId ≠ []

namespace Upsert

variable {u : Upsert} {intel : Intel} {cveId techniqueId : Text}

theorem mem_techRows {ids : List Text} {raw : Text} : (cveId, raw) ∈ techRows intel ids ↔ cveId ∈ ids ∧
    ((cveId, raw) ∈ intel.cveTechniqueMap ∨
      ∃ c ∈ intel.cves, c.cveId = cveId ∧ c.mitreTechnique = some raw ∧ raw ≠ []) := by
  have hcolumn : (cveId, raw) ∈ (intel.cves.filter fun c ↦ c.cveId ∈ ids ∧ c.mitreTechnique.getD [] ≠ []).map
      (fun c ↦ (c.cveId, c.mitreTechnique.getD [])) ↔
      cveId ∈ ids ∧ ∃ c ∈ intel.cves, c.cveId = cveId ∧ c.mitreTechnique = some raw ∧ raw ≠ [] := by
    constructor
    · intro h
      obtain ⟨c, hc, he⟩ := List.mem_map.mp h
      obtain ⟨rfl, rfl⟩ := Prod.mk.inj he
      obtain ⟨hmem, hcond⟩ := List.mem_filter.mp hc
      obtain ⟨hid, hne⟩ := of_decide_eq_true hcond
      refine ⟨hid, c, hmem, rfl, ?_, hne⟩
      cases hcol : c.mitreTechnique with
      | none =>
        rw [hcol] at hne
        exact absurd rfl hne
      | some raw => rfl
    · rintro ⟨hid, c, hc, rfl, hcol, hne⟩
      refine List.mem_map.mpr ⟨c, List.mem_filter.mpr ⟨hc, decide_eq_true ⟨hid, ?_⟩⟩, ?_⟩
      · rwa [hcol]
      · rw [hcol]
        rfl
  rw [techRows, List.mem_append, List.mem_filter, decide_eq_true_eq, hcolumn, and_comm, ← and_or_left]

theorem mem_fetchTechniques : (cveId, techniqueId) ∈ (u.fetchTechniques intel).cveTechniques ↔
    cveId ∈ u.ids ∧ Linked intel cveId techniqueId := by
  rw [fetchTechniques, List.mem_filter, List.mem_map, decide_eq_true_eq]
  constructor
  · rintro ⟨⟨⟨cve, raw⟩, hraw, he⟩, hne⟩
    obtain ⟨rfl, rfl⟩ := Prod.mk.inj he
    obtain ⟨hid, hsource⟩ := mem_techRows.mp hraw
    exact ⟨hid, raw, hsource, rfl, hne⟩
  · rintro ⟨hid, raw, hsource, rfl, hne⟩
    exact ⟨⟨(cveId, raw), mem_techRows.mpr ⟨hid, hsource⟩, rfl⟩, hne⟩

theorem mem_allTechniques (h : (cveId, techniqueId) ∈ u.cveTechniques) : techniqueId ∈ u.allTechniques :=
  List.mem_map.mpr ⟨_, h, rfl⟩

theorem mem_techniquesOf : techniqueId ∈ u.techniquesOf cveId ↔ (cveId, techniqueId) ∈ u.cveTechniques := by
  rw [techniquesOf, (perm_sortBy id _).mem_iff, List.mem_dedup, List.mem_map]
  constructor
  · rintro ⟨⟨cve, tid⟩, hp, rfl⟩
    obtain ⟨hmem, hcve⟩ := List.mem_filter.mp hp
    obtain rfl := of_decide_eq_true hcve
    exact hmem
  · intro h
    exact ⟨(cveId, techniqueId), List.mem_filter.mpr ⟨h, decide_eq_true rfl⟩, rfl⟩

theorem mem_existingRows {t : Table} (hid : cveId ∈ u.ids) :
    (cveId, techniqueId) ∈ u.existingRows t ↔ (cveId, techniqueId, u.reason) ∈ t.keys := by
  rw [existingRows, Table.keys, List.mem_map, List.mem_map]
  constructor
  · rintro ⟨row, hrow, he⟩
    obtain ⟨rfl, rfl⟩ := Prod.mk.inj he
    obtain ⟨hmem, hcond⟩ := List.mem_filter.mp hrow
    exact ⟨row, hmem, by rw [GapItem.key, (of_decide_eq_true hcond).2]⟩
  · rintro ⟨row, hrow, he⟩
    obtain ⟨hcve, htechnique, hreason⟩ : row.cveId = cveId ∧ row.techniqueId = techniqueId ∧ row.reason = u.reason := by
      simpa [GapItem.key] using he
    refine ⟨row, List.mem_filter.mpr ⟨hrow, decide_eq_true ⟨hcve ▸ hid, hreason⟩⟩, ?_⟩
    rw [hcve, htechnique]

theorem isGap_iff {existing : List (Text × Text)} : u.isGap existing cveId techniqueId = true ↔
    coverageStatus (u.packCounts techniqueId) techniqueId = .gap ∧ (cveId, techniqueId) ∉ existing := by
  rw [isGap, Bool.and_eq_true, decide_eq_true_eq, decide_eq_true_eq]

theorem mem_toInsert {existing : List (Text × Text)} {now : Text} {item : GapItem} :
    item ∈ u.toInsert existing now ↔ ∃ c ∈ u.cveRows, ∃ techniqueId, (c.cveId, techniqueId) ∈ u.cveTechniques ∧
      coverageStatus (u.packCounts techniqueId) techniqueId = .gap ∧ (c.cveId, techniqueId) ∉ existing ∧
      u.gapItem now c techniqueId = item := by
  rw [toInsert, List.mem_flatMap]
  refine exists_congr fun c ↦ and_congr_right fun _ ↦ ?_
  rw [List.mem_map]
  refine exists_congr fun tid ↦ ?_
  rw [List.mem_filter, mem_techniquesOf, isGap_iff, and_assoc, and_assoc]

/-- The items of a batch have distinct keys. -/
theorem nodup_toInsert (h : u.ids.Nodup) (existing : List (Text × Text)) (now : Text) :
    ((u.toInsert existing now).map GapItem.key).Nodup := by
  have hbatch : ∀ rows : List CveRecord, (rows.map fun c ↦ c.cveId).Nodup →
      ((rows.flatMap fun c ↦ ((u.techniquesOf c.cveId).filter (u.isGap existing c.cveId)).map (u.gapItem now c)).map
        GapItem.key).Nodup := by
    intro rows
    induction rows with
    | nil => exact fun _ ↦ List.nodup_nil
    | cons c rows ih =>
      intro hrows
      obtain ⟨hnew, hrows⟩ := List.nodup_cons.mp hrows
      rw [List.flatMap_cons, List.map_append, List.map_map]
      refine List.Nodup.append ?_ (ih hrows) ?_
      · have hinj : Function.Injective (GapItem.key ∘ u.gapItem now c) := by
          intro tid tid' he
          exact (Prod.mk.inj (Prod.mk.inj he).2).1
        exact ((((perm_sortBy id _).nodup_iff).mpr (List.nodup_dedup _)).filter _).map hinj
      · intro key hfirst hrest
        obtain ⟨tid, -, rfl⟩ := List.mem_map.mp hfirst
        obtain ⟨item, hitem, he⟩ := List.mem_map.mp hrest
        obtain ⟨d, hd, hitem⟩ := List.mem_flatMap.mp hitem
        obtain ⟨tid', -, rfl⟩ := List.mem_map.mp hitem
        have hcve : d.cveId = c.cveId := (Prod.mk.inj he).1
        exact hnew (List.mem_map.mpr ⟨d, hd, hcve⟩)
  exact hbatch u.cveRows h

end Upsert

variable {env : Text} {s : State} {k : ℕ} {task : Task}

/-- What one event does to a task. -/
theorem step_task (env : Text) (h : s.tasks[k]? = some task) (e : Event) :
    (step env s e).tasks[k]? = some task ∨
      (∃ now, e = .advance k now ∧ (step env s e).tasks[k]? = some (proceed env now s task).2 ∧
        (step env s e).backlog = (proceed env now s task).1.backlog) ∨
      (step env s e).tasks[k]? = some (.ended .raised) := by
  have hlt : k < s.tasks.length := (List.getElem?_eq_some_iff.mp h).1
  cases e with
  | intel intel => exact .inl h
  | preferences preferences => exact .inl h
  | call call => exact .inl (by rw [step, List.getElem?_append_left hlt, h])
  | raised j =>
    rw [step]
    split
    · exact .inl h
    · exact .inl h
    · by_cases hj : j = k
      · subst hj
        exact .inr (.inr (List.getElem?_set_self hlt))
      · exact .inl ((List.getElem?_set_ne hj).trans h)
  | advance j now =>
    by_cases hj : j = k
    · subst hj
      refine .inr (.inl ⟨now, rfl, ?_, ?_⟩)
      · rw [step, h]
        exact List.getElem?_set_self hlt
      · rw [step, h]
    · left
      rw [step]
      split
      · exact h
      · exact (List.getElem?_set_ne hj).trans h

theorem mem_normalizedIds {ids : List Text} {cveId : Text} :
    cveId ∈ normalizedIds ids ↔ ∃ c ∈ ids, c ≠ [] ∧ upper c = cveId := by
  rw [normalizedIds, List.mem_map]
  refine exists_congr fun c ↦ ?_
  rw [List.mem_filter, decide_eq_true_eq, and_assoc]

/-- A coverage gap of the stack: a KEV entry that matches the assets has the technique, and nothing covers it. -/
structure IsGap (assets : List Asset) (intel : Intel) (cveId techniqueId : Text) : Prop where
  cve : ∃ c ∈ intel.cves, c.cveId = cveId ∧ c.isKev = true ∧ hits assets c = .ok true
  linked : Linked intel cveId techniqueId
  uncovered : coverageStatus (intel.huntPacks.count techniqueId) techniqueId = .gap

/-- The operator's assets, as every read of them finds them. -/
def Operates (env : Text) (s : State) (assets : List Asset) : Prop :=
  ∀ now, (getOperatorStackAssets env now s.preferences).1 = assets

/-- The batch of a task is to hold the CVE. -/
structure Upsert.Holds (u : Upsert) (cveId : Text) : Prop where
  row : cveId ∈ u.ids
  reason : u.reason = reasonKevGap

/-- How far a task has carried a gap: what it has read so far leads to a row. -/
def Carries (assets : List Asset) (cveId techniqueId : Text) (backlog : Table) : Task → Prop
  | .newKev ids => cveId ∈ normalizedIds ids
  | .filterMatches ids found => found = assets ∧ cveId ∈ normalizedIds ids
  | .enrich ids _ => cveId ∈ ids
  | .reconcile => True
  | .scanKev found => found = assets
  | .techniques u => u.Holds cveId
  | .packs u => u.Holds cveId ∧ (cveId, techniqueId) ∈ u.cveTechniques
  | .names u | .existing u => u.Holds cveId ∧ (cveId, techniqueId) ∈ u.cveTechniques ∧
      coverageStatus (u.packCounts techniqueId) techniqueId = .gap
  | .insert u toInsert now => (cveId, techniqueId, reasonKevGap) ∈ backlog.keys ∨
      u.Holds cveId ∧ ∃ item ∈ toInsert, item.key = (cveId, techniqueId, reasonKevGap) ∧ item.createdAt = now
  | .ended (.created _) => (cveId, techniqueId, reasonKevGap) ∈ backlog.keys
  | .ended .raised => True
  | .dismiss _ | .update _ | .ended (.dismissed _) | .ended .notFound => False

section
variable {assets : List Asset} {cveId techniqueId now : Text}

theorem Carries.mono {t t' : Table} (hkeys : ∀ key ∈ t.keys, key ∈ t'.keys)
    (h : Carries assets cveId techniqueId t task) :
    Carries assets cveId techniqueId t' task := by
  cases task with
  | insert u toInsert now => exact h.imp_left (hkeys _)
  | ended outcome =>
    cases outcome with
    | created rows => exact hkeys _ h
    | dismissed row => exact h
    | notFound => exact h
    | raised => exact h
  | newKev ids => exact h
  | filterMatches ids found => exact h
  | enrich ids stackTerms => exact h
  | reconcile => exact h
  | scanKev found => exact h
  | techniques u => exact h
  | packs u => exact h
  | names u => exact h
  | existing u => exact h
  | dismiss itemId => exact h
  | update itemId => exact h

theorem carries_upsertGapItems {cveRows : List CveRecord} {stackTerms : Text} {t : Table} {c : CveRecord}
    (hc : c ∈ cveRows) (hid : c.cveId = cveId) :
    Carries assets cveId techniqueId t (upsertGapItems cveRows stackTerms) := by
  rw [upsertGapItems, if_neg (by simpa using List.ne_nil_of_mem hc)]
  exact ⟨List.mem_map.mpr ⟨c, hc, hid⟩, rfl⟩

/-- The gaps to insert hold one that has no row yet. -/
theorem carries_existing {u : Upsert} (hholds : u.Holds cveId) (hmem : (cveId, techniqueId) ∈ u.cveTechniques)
    (hgap : coverageStatus (u.packCounts techniqueId) techniqueId = .gap) :
    Carries assets cveId techniqueId (proceed env now s (.existing u)).1.backlog
      (proceed env now s (.existing u)).2 := by
  rw [proceed]
  dsimp only
  by_cases hold : (cveId, techniqueId, reasonKevGap) ∈ s.backlog.keys
  · split
    · exact hold
    · exact .inl hold
  · obtain ⟨d, hd, hdid⟩ := List.mem_map.mp hholds.row
    have hnew : (d.cveId, techniqueId) ∉ u.existingRows s.backlog := by
      rw [Upsert.mem_existingRows (List.mem_map_of_mem hd), hdid, hholds.reason]
      exact hold
    have hitem : u.gapItem now d techniqueId ∈ u.toInsert (u.existingRows s.backlog) now :=
      Upsert.mem_toInsert.mpr ⟨d, hd, techniqueId, hdid ▸ hmem, hgap, hnew, rfl⟩
    rw [if_neg (List.ne_nil_of_mem hitem)]
    refine .inr ⟨hholds, _, hitem, ?_, rfl⟩
    rw [GapItem.key, ← hholds.reason, ← hdid]
    rfl

/-- The batch makes the row, and the task commits it since it comes back. -/
theorem carries_insert {u : Upsert} {toInsert : List GapItem} {createdAt : Text}
    (h : (cveId, techniqueId, reasonKevGap) ∈ s.backlog.keys ∨
      u.Holds cveId ∧ ∃ item ∈ toInsert, item.key = (cveId, techniqueId, reasonKevGap) ∧ item.createdAt = createdAt) :
    Carries assets cveId techniqueId (proceed env now s (.insert u toInsert createdAt)).1.backlog
      (proceed env now s (.insert u toInsert createdAt)).2 := by
  rw [proceed]
  split
  next => trivial
  next t ht =>
    obtain ⟨new, hrows, hitems, -⟩ := executemany_ok ht
    rcases h with hold | ⟨hholds, item, hitem, hkey, hcreated⟩
    · have hkept : (cveId, techniqueId, reasonKevGap) ∈ t.keys := by
        rw [Table.keys, hrows, List.map_append]
        exact List.mem_append_left _ hold
      split
      · exact hold
      · exact hkept
    · obtain ⟨row, hrow, rfl⟩ := List.mem_map.mp (hitems ▸ hitem)
      have hmem : row ∈ t.rows := hrows ▸ List.mem_append_right _ hrow
      obtain ⟨hcve, -, hreason⟩ : row.cveId = cveId ∧ row.techniqueId = techniqueId ∧ row.reason = reasonKevGap := by
        simpa [GapItem.key] using hkey
      have hcreatedRow : row ∈ u.createdRows t createdAt :=
        List.mem_filter.mpr ⟨hmem, decide_eq_true ⟨hcve ▸ hholds.row, hreason.trans hholds.reason.symm, hcreated⟩⟩
      rw [if_neg (List.ne_nil_of_mem hcreatedRow)]
      exact List.mem_map.mpr ⟨row, hmem, hkey⟩

/-- The next statement of a task carries the gap on, as long as it is one. -/
theorem carries_proceed (hassets : Operates env s assets) (hgap : IsGap assets s.intel cveId techniqueId)
    (h : Carries assets cveId techniqueId s.backlog task) :
    Carries assets cveId techniqueId (proceed env now s task).1.backlog (proceed env now s task).2 := by
  obtain ⟨c, hc, hid, hkev, hhit⟩ := hgap.cve
  have hne : assets ≠ [] := by
    rintro rfl
    cases hhit
  cases task with
  | newKev ids =>
    rw [proceed]
    dsimp only
    rw [hassets now, if_neg hne]
    exact ⟨rfl, h⟩
  | filterMatches ids found =>
    obtain ⟨rfl, hids⟩ := h
    rw [proceed]
    split
    next => trivial
    next matched hmatched =>
      have hmem : c ∈ matched := (mem_filterCvesMatchingAssets hmatched).mpr ⟨hc, hid ▸ hids, hhit⟩
      dsimp only
      rw [if_neg (by simpa using List.ne_nil_of_mem hmem)]
      exact List.mem_map.mpr ⟨c, hmem, hid⟩
  | enrich ids stackTerms =>
    exact carries_upsertGapItems (List.mem_filter.mpr ⟨hc, decide_eq_true (hid ▸ h)⟩) hid
  | reconcile =>
    rw [proceed]
    dsimp only
    rw [hassets now, if_neg hne]
    rfl
  | scanKev found =>
    obtain rfl := h
    rw [proceed]
    split
    next => trivial
    next matched hmatched =>
      exact carries_upsertGapItems ((mem_matching hmatched).mpr ⟨List.mem_filter.mpr ⟨hc, hkev⟩, hhit⟩) hid
  | techniques u =>
    have hmem : (cveId, techniqueId) ∈ (u.fetchTechniques s.intel).cveTechniques :=
      Upsert.mem_fetchTechniques.mpr ⟨h.row, hgap.linked⟩
    rw [proceed]
    dsimp only
    rw [if_neg (List.ne_nil_of_mem (Upsert.mem_allTechniques hmem))]
    exact ⟨⟨h.row, h.reason⟩, hmem⟩
  | packs u =>
    obtain ⟨hholds, hmem⟩ := h
    refine ⟨⟨hholds.row, hholds.reason⟩, hmem, ?_⟩
    dsimp only [Upsert.fetchPackCounts]
    rw [if_pos (Upsert.mem_allTechniques hmem)]
    exact hgap.uncovered
  | names u => exact ⟨⟨h.1.row, h.1.reason⟩, h.2⟩
  | existing u => exact carries_existing h.1 h.2.1 h.2.2
  | insert u toInsert createdAt => exact carries_insert h
  | ended outcome => exact h
  | dismiss itemId => exact h.elim
  | update itemId => exact h.elim

theorem step_keys (env : Text) (e : Event) {key : Text × Text × Text} (h : key ∈ s.backlog.keys) :
    key ∈ (step env s e).backlog.keys := (step_grows env e).keys h

/-- A task that carries a gap still does so after any event. -/
theorem step_carries (hassets : Operates env s assets) (hgap : IsGap assets s.intel cveId techniqueId)
    (htask : s.tasks[k]? = some task) (h : Carries assets cveId techniqueId s.backlog task) (e : Event) :
    ∃ task', (step env s e).tasks[k]? = some task' ∧ Carries assets cveId techniqueId (step env s e).backlog task' := by
  rcases step_task env htask e with hsame | ⟨now, -, hnext, hbacklog⟩ | hraised
  · exact ⟨task, hsame, h.mono fun key ↦ step_keys env e⟩
  · exact ⟨_, hnext, hbacklog ▸ carries_proceed hassets hgap h⟩
  · exact ⟨_, hraised, trivial⟩

end

/-- A gap that is there all the while a task looks for it has a row when the task has ended without an exception. -/
theorem gap_gets_row {assets : List Asset} {cveId techniqueId : Text} {events : List Event} {created : List BacklogRow}
    (hstart : s.tasks[k]? = some .reconcile ∨
      ∃ ids, s.tasks[k]? = some (.newKev ids) ∧ ∃ c ∈ ids, c ≠ [] ∧ upper c = cveId)
    (hgap : Along (step env) (fun s _ ↦ Operates env s assets ∧ IsGap assets s.intel cveId techniqueId) s events)
    (hend : (run (step env) s events).tasks[k]? = some (.ended (.created created))) :
    (cveId, techniqueId, reasonKevGap) ∈ (run (step env) s events).backlog.keys := by
  have hcarried : ∀ (events : List Event) (s : State) (task : Task), s.tasks[k]? = some task →
      Carries assets cveId techniqueId s.backlog task →
      Along (step env) (fun s _ ↦ Operates env s assets ∧ IsGap assets s.intel cveId techniqueId) s events →
      ∃ task', (run (step env) s events).tasks[k]? = some task' ∧
        Carries assets cveId techniqueId (run (step env) s events).backlog task' := by
    intro events
    induction events with
    | nil => exact fun s task htask h _ ↦ ⟨task, htask, h⟩
    | cons e events ih =>
      intro s task htask h hgap
      obtain ⟨task', htask', h'⟩ := step_carries hgap.1.1 hgap.1.2 htask h e
      exact ih _ task' htask' h' hgap.2
  have hbegun : ∃ task, s.tasks[k]? = some task ∧ Carries assets cveId techniqueId s.backlog task := by
    rcases hstart with hreconcile | ⟨ids, hnew, hid⟩
    · exact ⟨_, hreconcile, trivial⟩
    · exact ⟨_, hnew, mem_normalizedIds.mpr hid⟩
  obtain ⟨task, htask, h⟩ := hbegun
  obtain ⟨task', htask', h'⟩ := hcarried events s task htask h hgap
  obtain rfl := Option.some.inj (htask'.symm.trans hend)
  exact h'

end

section

local instance : Interp := nginxInterp

theorem steady_nginx {s : State} (hintel : s.intel = nginxIntel)
    (hpreferences : s.preferences = nginxStart.preferences) :
    Operates [] s [⟨"nginx", [], []⟩] ∧ IsGap [⟨"nginx", [], []⟩] s.intel "CVE-2024-2001" "T1566" := by
  refine ⟨fun now ↦ ?_, ?_⟩
  · rw [hpreferences]
    rfl
  · rw [hintel]
    refine ⟨⟨nginxKev, .head _, rfl, rfl, rfl⟩, ⟨"T1566", .inr ⟨nginxKev, .head _, rfl, rfl, by decide⟩, ?_,
      by decide⟩, ?_⟩
    · decide
    · decide

theorem phishing_gap_gets_row : ("CVE-2024-2001".toList, "T1566".toList, reasonKevGap) ∈
    (run (step []) (step [] nginxStart (.call .reconcileKevBacklog)) (statements 0 7 monday)).backlog.keys := by
  have hbegun : (step [] nginxStart (.call .reconcileKevBacklog)).tasks[0]? = some .reconcile := rfl
  have hgap : Along (step []) (fun s _ ↦ Operates [] s [⟨"nginx", [], []⟩] ∧
      IsGap [⟨"nginx", [], []⟩] s.intel "CVE-2024-2001" "T1566") (step [] nginxStart (.call .reconcileKevBacklog))
      (statements 0 7 monday) :=
    ⟨steady_nginx rfl rfl, steady_nginx rfl rfl, steady_nginx rfl rfl, steady_nginx rfl rfl, steady_nginx rfl rfl,
      steady_nginx rfl rfl, steady_nginx rfl rfl, trivial⟩
  have hend : (run (step []) (step [] nginxStart (.call .reconcileKevBacklog)) (statements 0 7 monday)).tasks[0]? =
      some (.ended (.created [⟨phishingGap, 1, .opened, none⟩])) := rfl
  exact gap_gets_row (.inl hbegun) hgap hend

end

section
variable [Interp] {env : Text} {s : State} {k : ℕ} {task : Task}

/-- Where a task after an event comes from. -/
theorem task_of_step {e : Event} {task' : Task} (h : (step env s e).tasks[k]? = some task') :
    s.tasks[k]? = some task' ∨ (∃ call : Call, task' = call.task) ∨
      (∃ now task, s.tasks[k]? = some task ∧ task' = (proceed env now s task).2) ∨ task' = .ended .raised := by
  cases htask : s.tasks[k]? with
  | some task =>
    rcases step_task env htask e with hsame | ⟨now, -, hnext, -⟩ | hraised
    · exact .inl (hsame.symm.trans h)
    · exact .inr (.inr (.inl ⟨now, task, rfl, Option.some.inj (h.symm.trans hnext)⟩))
    · exact .inr (.inr (.inr (Option.some.inj (h.symm.trans hraised))))
  | none =>
    have hout : s.tasks.length ≤ k := List.getElem?_eq_none_iff.mp htask
    have hset : ∀ (j : ℕ) (task : Task), (s.tasks.set j task)[k]? = none := by
      intro j task
      exact List.getElem?_eq_none_iff.mpr (by rwa [List.length_set])
    cases e with
    | intel intel => exact .inl (htask.symm.trans h)
    | preferences preferences => exact .inl (htask.symm.trans h)
    | call call =>
      rw [step, List.getElem?_append_right hout] at h
      exact .inr (.inl ⟨call, (List.mem_singleton.mp (List.mem_of_getElem? h))⟩)
    | raised j =>
      rw [step] at h
      split at h
      · exact .inl (htask.symm.trans h)
      · exact .inl (htask.symm.trans h)
      · rw [hset] at h
        cases h
    | advance j now =>
      rw [step] at h
      split at h
      · exact .inl (htask.symm.trans h)
      · rw [hset] at h
        cases h

section
variable (env : Text) (start : State) (events : List Event)

/-- Something held at a moment of the run. -/
def Past (P : State → Prop) : Prop := ∃ before, before <+: events ∧ P (run (step env) start before)

/-- The assets were the operator's. -/
def WasStack (assets : List Asset) : Prop :=
  Past env start events fun s ↦ ∃ now, (getOperatorStackAssets env now s.preferences).1 = assets

def WasMatched (cveId : Text) : Prop :=
  ∃ assets, WasStack env start events assets ∧
    Past env start events fun s ↦ ∃ c ∈ s.intel.cves, c.cveId = cveId ∧ hits assets c = .ok true

def WasLinked (cveId techniqueId : Text) : Prop := Past env start events fun s ↦ Linked s.intel cveId techniqueId

def WasUncovered (techniqueId : Text) : Prop :=
  Past env start events fun s ↦ coverageStatus (s.intel.huntPacks.count techniqueId) techniqueId = .gap

/-- Each part of a gap was seen in the run. -/
structure WasGap (cveId techniqueId : Text) : Prop where
  matched : WasMatched env start events cveId
  linked : WasLinked env start events cveId techniqueId
  uncovered : WasUncovered env start events techniqueId

structure Upsert.Seen (u : Upsert) : Prop where
  reason : u.reason = reasonKevGap
  ids : u.ids.Nodup
  matched : ∀ cveId ∈ u.ids, WasMatched env start events cveId
  linked : ∀ cveId techniqueId, (cveId, techniqueId) ∈ u.cveTechniques →
    cveId ∈ u.ids ∧ WasLinked env start events cveId techniqueId

/-- What a task holds was seen in the run, and the gaps that it is to insert had no row when it looked. -/
def Seen (k : ℕ) : Task → Prop
  | .filterMatches _ assets | .scanKev assets => WasStack env start events assets
  | .enrich ids _ => ∀ cveId ∈ ids, WasMatched env start events cveId
  | .techniques u | .packs u => u.Seen env start events
  | .names u | .existing u => u.Seen env start events ∧ ∀ techniqueId ∈ u.allTechniques,
      coverageStatus (u.packCounts techniqueId) techniqueId = .gap → WasUncovered env start events techniqueId
  | .insert u toInsert _ => (toInsert.map GapItem.key).Nodup ∧
      (∀ item ∈ toInsert, item.reason = reasonKevGap ∧ WasGap env start events item.cveId item.techniqueId) ∧
      Past env start events fun s ↦ s.tasks[k]? = some (.existing u) ∧ ∀ item ∈ toInsert, item.key ∉ s.backlog.keys
  | .newKev _ | .reconcile | .dismiss _ | .update _ | .ended _ => True

end

section
variable {start : State} {events : List Event}

theorem Past.present {P : State → Prop} (h : P (run (step env) start events)) : Past env start events P :=
  ⟨events, List.prefix_rfl, h⟩

theorem Past.later {P : State → Prop} (h : Past env start events P) (e : Event) : Past env start (events ++ [e]) P := by
  obtain ⟨before, hbefore, h⟩ := h
  exact ⟨before, hbefore.trans (List.prefix_append events [e]), h⟩

theorem WasStack.later {assets : List Asset} (h : WasStack env start events assets) (e : Event) :
    WasStack env start (events ++ [e]) assets := Past.later h e

theorem WasMatched.later {cveId : Text} (h : WasMatched env start events cveId) (e : Event) :
    WasMatched env start (events ++ [e]) cveId := by
  obtain ⟨assets, hassets, hmatched⟩ := h
  exact ⟨assets, hassets.later e, hmatched.later e⟩

theorem WasGap.later {cveId techniqueId : Text} (h : WasGap env start events cveId techniqueId) (e : Event) :
    WasGap env start (events ++ [e]) cveId techniqueId :=
  ⟨h.matched.later e, Past.later h.linked e, Past.later h.uncovered e⟩

theorem Upsert.Seen.later {u : Upsert} (h : u.Seen env start events) (e : Event) :
    u.Seen env start (events ++ [e]) where
  reason := h.reason
  ids := h.ids
  matched cveId hid := (h.matched cveId hid).later e
  linked cveId techniqueId hmem := (h.linked cveId techniqueId hmem).imp_right fun hl ↦ Past.later hl e

theorem Seen.later (h : Seen env start events k task) (e : Event) : Seen env start (events ++ [e]) k task := by
  cases task with
  | filterMatches ids assets => exact WasStack.later h e
  | scanKev assets => exact WasStack.later h e
  | enrich ids stackTerms => exact fun cveId hid ↦ (h cveId hid).later e
  | techniques u => exact Upsert.Seen.later h e
  | packs u => exact Upsert.Seen.later h e
  | names u => exact ⟨h.1.later e, fun tid htid hgap ↦ Past.later (h.2 tid htid hgap) e⟩
  | existing u => exact ⟨h.1.later e, fun tid htid hgap ↦ Past.later (h.2 tid htid hgap) e⟩
  | insert u toInsert now =>
    exact ⟨h.1, fun item hitem ↦ (h.2.1 item hitem).imp_right fun hg ↦ hg.later e, h.2.2.later e⟩
  | newKev ids => trivial
  | reconcile => trivial
  | dismiss itemId => trivial
  | update itemId => trivial
  | ended outcome => trivial

theorem seen_upsertGapItems {cveRows : List CveRecord} {stackTerms : Text} (hids : (cveRows.map fun c ↦ c.cveId).Nodup)
    (hmatched : ∀ c ∈ cveRows, WasMatched env start events c.cveId) :
    Seen env start events k (upsertGapItems cveRows stackTerms) := by
  rw [upsertGapItems]
  split
  · trivial
  · refine ⟨rfl, hids, fun cveId hid ↦ ?_, fun cveId tid hmem ↦ absurd hmem List.not_mem_nil⟩
    obtain ⟨c, hc, rfl⟩ := List.mem_map.mp hid
    exact hmatched c hc

theorem Upsert.Seen.fetchTechniques {u : Upsert} (h : u.Seen env start events) :
    (u.fetchTechniques (run (step env) start events).intel).Seen env start events where
  reason := h.reason
  ids := h.ids
  matched := h.matched
  linked _ _ hmem := (Upsert.mem_fetchTechniques.mp hmem).imp_right Past.present

/-- The gaps to insert are those that were seen and that have no row now. -/
theorem seen_existing {now : Text} {u : Upsert} (htask : (run (step env) start events).tasks[k]? = some (.existing u))
    (hseen : u.Seen env start events) (huncovered : ∀ techniqueId ∈ u.allTechniques,
      coverageStatus (u.packCounts techniqueId) techniqueId = .gap → WasUncovered env start events techniqueId) :
    Seen env start events k (proceed env now (run (step env) start events) (.existing u)).2 := by
  rw [proceed]
  dsimp only
  split
  · trivial
  · refine ⟨Upsert.nodup_toInsert hseen.ids _ _, fun item hitem ↦ ?_, Past.present ⟨htask, fun item hitem ↦ ?_⟩⟩
    · obtain ⟨c, hc, tid, hmem, hgap, -, rfl⟩ := Upsert.mem_toInsert.mp hitem
      obtain ⟨hid, hlinked⟩ := hseen.linked c.cveId tid hmem
      exact ⟨hseen.reason, hseen.matched c.cveId hid, hlinked, huncovered tid (Upsert.mem_allTechniques hmem) hgap⟩
    · obtain ⟨c, hc, tid, -, -, hnew, rfl⟩ := Upsert.mem_toInsert.mp hitem
      rwa [Upsert.mem_existingRows (List.mem_map_of_mem hc)] at hnew

/-- What the next statement of a task returns is seen in the run. -/
theorem seen_proceed {now : Text} (htask : (run (step env) start events).tasks[k]? = some task)
    (h : Seen env start events k task) :
    Seen env start events k (proceed env now (run (step env) start events) task).2 := by
  have hassets : WasStack env start events
      (getOperatorStackAssets env now (run (step env) start events).preferences).1 := Past.present ⟨now, rfl⟩
  have hcves := (run (step env) start events).intel.cveIds
  cases task with
  | newKev ids =>
    rw [proceed]
    dsimp only
    split
    · trivial
    · exact hassets
  | reconcile =>
    rw [proceed]
    dsimp only
    split
    · trivial
    · exact hassets
  | filterMatches ids assets =>
    rw [proceed]
    split
    next => trivial
    next matched hmatched =>
      dsimp only
      split
      next => trivial
      next =>
        intro cveId hid
        obtain ⟨c, hc, rfl⟩ := List.mem_map.mp hid
        obtain ⟨hmem, -, hhit⟩ := (mem_filterCvesMatchingAssets hmatched).mp hc
        exact ⟨assets, h, Past.present ⟨c, hmem, rfl, hhit⟩⟩
  | enrich ids stackTerms =>
    refine seen_upsertGapItems (hcves.sublist (List.filter_sublist.map _)) fun c hc ↦ ?_
    exact h c.cveId (of_decide_eq_true (List.mem_filter.mp hc).2)
  | scanKev assets =>
    rw [proceed]
    split
    next => trivial
    next matched hmatched =>
      have hsub := (matching_sublist hmatched).trans List.filter_sublist
      refine seen_upsertGapItems (hcves.sublist (hsub.map _)) fun c hc ↦ ?_
      obtain ⟨hmem, hhit⟩ := (mem_matching hmatched).mp hc
      exact ⟨assets, h, Past.present ⟨c, (List.mem_filter.mp hmem).1, rfl, hhit⟩⟩
  | techniques u =>
    rw [proceed]
    dsimp only
    split
    · trivial
    · exact Upsert.Seen.fetchTechniques h
  | packs u =>
    refine ⟨⟨h.reason, h.ids, h.matched, h.linked⟩, fun tid htid hgap ↦ Past.present ?_⟩
    dsimp only [Upsert.fetchPackCounts] at hgap
    rwa [if_pos (show tid ∈ u.allTechniques from htid)] at hgap
  | names u => exact ⟨⟨h.1.reason, h.1.ids, h.1.matched, h.1.linked⟩, h.2⟩
  | existing u => exact seen_existing htask h.1 h.2
  | insert u toInsert createdAt =>
    rw [proceed]
    split
    · trivial
    · split <;> trivial
  | dismiss itemId =>
    rw [proceed]
    split
    · trivial
    · dsimp only
      split <;> trivial
  | update itemId =>
    rw [proceed]
    split <;> trivial
  | ended outcome => trivial

/-- In a run that starts without tasks, every task holds what was seen in it. -/
theorem run_seen (hstart : start.tasks = []) (events : List Event) (k : ℕ) (task : Task)
    (htask : (run (step env) start events).tasks[k]? = some task) : Seen env start events k task := by
  induction events using List.reverseRecOn generalizing k task with
  | nil =>
    rw [run_nil, hstart] at htask
    cases htask
  | append_singleton events e ih =>
    rw [run_append, run_cons, run_nil] at htask
    rcases task_of_step htask with hsame | ⟨call, rfl⟩ | ⟨now, task', htask', rfl⟩ | rfl
    · exact (ih k task hsame).later e
    · cases call with
      | processNewKevBacklog ids =>
        rw [Call.task]
        split <;> trivial
      | reconcileKevBacklog => trivial
      | dismissBacklogItem itemId => trivial
    · exact (seen_proceed htask' (ih k task' htask')).later e
    · trivial

end

/-- A row of the backlog was there at the start, or was made for a gap of which each part was seen in the run. -/
theorem row_was_gap {start : State} (hstart : start.tasks = []) (events : List Event) {row : BacklogRow}
    (hrow : row ∈ (run (step env) start events).backlog.rows) :
    (∃ old ∈ start.backlog.rows, Keeps old row) ∨
      row.reason = reasonKevGap ∧ parentTechnique row.techniqueId ∉ communityTechniques ∧
        WasGap env start events row.cveId row.techniqueId := by
  have hcommunity : ∀ {tid : Text} {n : ℕ}, coverageStatus n tid = .gap →
      parentTechnique tid ∉ communityTechniques := by
    intro tid n hgap hmem
    by_cases hpacks : n > 0
    · rw [coverageStatus, if_pos hpacks] at hgap
      cases hgap
    · rw [coverageStatus, if_neg hpacks, if_pos hmem] at hgap
      cases hgap
  induction events using List.reverseRecOn generalizing row with
  | nil => exact .inl ⟨row, hrow, .refl row⟩
  | append_singleton events e ih =>
    rw [run_append, run_cons, run_nil] at hrow
    rcases (step_grows env e).mem hrow with ⟨old, hold, hkeeps⟩ | ⟨hitem, -⟩
    · rcases ih hold with ⟨first, hfirst, hkept⟩ | ⟨hreason, hparent, hgap⟩
      · exact .inl ⟨first, hfirst, hkept.trans hkeeps⟩
      · have hitem := hkeeps.item
        right
        rw [hitem]
        exact ⟨hreason, hparent, hgap.later e⟩
    · right
      cases e with
      | advance k now =>
        rw [State.inserting] at hitem
        cases htask : (run (step env) start events).tasks[k]? with
        | none =>
          rw [htask] at hitem
          exact absurd hitem List.not_mem_nil
        | some task =>
          rw [htask] at hitem
          cases task with
          | insert u toInsert createdAt =>
            obtain ⟨hreason, hgap⟩ := (run_seen hstart events k _ htask).2.1 _ hitem
            obtain ⟨before, -, huncovered⟩ := hgap.uncovered
            exact ⟨hreason, hcommunity huncovered, hgap.later _⟩
          | _ => exact absurd hitem List.not_mem_nil
      | _ => exact absurd hitem List.not_mem_nil

end

section

local instance : Interp := nginxInterp

theorem phishing_row_was_gap : WasGap [] nginxStart (.call .reconcileKevBacklog :: statements 0 7 monday)
    "CVE-2024-2001" "T1566" := by
  have hrow : (⟨phishingGap, 1, .opened, none⟩ : BacklogRow) ∈
      (run (step []) nginxStart (.call .reconcileKevBacklog :: statements 0 7 monday)).backlog.rows := by decide +kernel
  have hgap := row_was_gap (rfl : nginxStart.tasks = []) _ hrow
  exact (hgap.resolve_left fun ⟨_, hold, _⟩ ↦ absurd hold List.not_mem_nil).2.2

end

section
variable [Interp] {env : Text} {k : ℕ}

/-- A batch fails exactly when another task has made a row for one of its gaps since it looked, and then it leaves the
rows as they are. -/
theorem insert_raises_iff {start : State} (hstart : start.tasks = []) {events : List Event} {u : Upsert}
    {toInsert : List GapItem} {createdAt : Text}
    (htask : (run (step env) start events).tasks[k]? = some (.insert u toInsert createdAt)) (now : Text) :
    let s := run (step env) start events
    let s' := step env s (.advance k now)
    (s'.tasks[k]? = some (.ended .raised) ↔ ∃ before, before <+: events ∧
      (run (step env) start before).tasks[k]? = some (.existing u) ∧
      ∃ item ∈ toInsert, item.key ∉ (run (step env) start before).backlog.keys ∧ item.key ∈ s.backlog.keys) ∧
    (s'.tasks[k]? = some (.ended .raised) → s'.backlog.rows = s.backlog.rows) := by
  intro s s'
  obtain ⟨hnodup, -, before, hbefore, hlooked, hnew⟩ := run_seen hstart events k _ htask
  have hs' : s'.tasks[k]? = some (proceed env now s (.insert u toInsert createdAt)).2 ∧
      s'.backlog = (proceed env now s (.insert u toInsert createdAt)).1.backlog := by
    have hlt : k < s.tasks.length := (List.getElem?_eq_some_iff.mp htask).1
    constructor
    · rw [show s' = step env s (.advance k now) from rfl, step, htask]
      exact List.getElem?_set_self hlt
    · rw [show s' = step env s (.advance k now) from rfl, step, htask]
  have hraised : s'.tasks[k]? = some (.ended .raised) ↔ ∃ t, executemany s.backlog s.backlog toInsert = .error t := by
    rw [hs'.1, proceed]
    split
    next t ht => exact ⟨fun _ ↦ ⟨t, ht⟩, fun _ ↦ rfl⟩
    next t ht =>
      constructor
      · intro h
        split at h <;> cases Option.some.inj h
      · rintro ⟨t', ht'⟩
        rw [ht] at ht'
        cases ht'
  constructor
  · rw [hraised, executemany_raises_iff hnodup]
    constructor
    · rintro ⟨item, hitem, htaken⟩
      exact ⟨before, hbefore, hlooked, item, hitem, hnew item hitem, htaken⟩
    · rintro ⟨-, -, -, item, hitem, -, htaken⟩
      exact ⟨item, hitem, htaken⟩
  · intro h
    obtain ⟨t, ht⟩ := hraised.mp h
    rw [hs'.2, proceed, ht]
    exact executemany_error ht

end

section

local instance : Interp := nginxInterp

/-- The weekly pass and the KEV sync have both looked for the gap, and the weekly pass has made the row. -/
def race : List Event :=
  .call .reconcileKevBacklog :: .call (.processNewKevBacklog ["CVE-2024-2001"]) :: statements 0 6 monday ++
    statements 1 7 monday ++ statements 0 1 monday

def nginxBatch : Upsert :=
  (((⟨[nginxKev], "nginx", reasonKevGap, [], fun _ ↦ 0, fun _ ↦ none⟩ : Upsert).fetchTechniques
    nginxIntel).fetchPackCounts
    nginxIntel).fetchTechNames nginxIntel

theorem race_raises : (step [] (run (step []) nginxStart race) (.advance 1 monday)).tasks[1]? =
    some (.ended .raised) := by
  have htask : (run (step []) nginxStart race).tasks[1]? = some (.insert nginxBatch [phishingGap] monday) := rfl
  refine (insert_raises_iff (rfl : nginxStart.tasks = []) htask monday).1.mpr
    ⟨race.take 14, List.take_prefix 14 race, rfl,
    phishingGap, .head _, ?_, ?_⟩
  · decide +kernel
  · decide +kernel

end

end Briefr.Detection.Backlog
