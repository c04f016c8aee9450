import Briefr.IntelSnapshot.FailedMerge
import Briefr.IntelSnapshot.Migrated

namespace Briefr.IntelSnapshot

open Briefr.Library Briefr.Library.Sql

section Relink

variable {ι κ χ : Type} {here there now : ι → κ → Prop} {linkedHere linkedThere linkedNow : ι → χ → Prop}

/-- Two databases number the same things independently, and the second goes over the first: what is linked through
the ids stays linked if and only if each link whose id goes to another thing has a link of that other thing beside
it, and one under the id that the first thing has now. -/
theorem relink_iff (hnow : ∀ i k, now i k ↔ there i k ∨ (here i k ∧ ∀ k', ¬there i k'))
    (hlinked : ∀ i x, linkedNow i x ↔ linkedHere i x ∨ linkedThere i x)
    (hhere : ∀ i x, linkedHere i x → ∃ k, here i k) (hthere : ∀ i x, linkedThere i x → ∃ k, there i k)
    (hkey : ∀ i i' k, here i k → here i' k → i = i') :
    (∀ k x, (∃ i, now i k ∧ linkedNow i x) ↔
        (∃ i, here i k ∧ linkedHere i x) ∨ ∃ i, there i k ∧ linkedThere i x) ↔
      ∀ i x k k', linkedHere i x → here i k → there i k' → k' ≠ k →
        (∃ j, there j k ∧ (linkedHere j x ∨ linkedThere j x)) ∧
          ((∃ j, here j k' ∧ linkedHere j x) ∨ ∃ j, there j k' ∧ linkedThere j x) := by
  constructor
  · intro h i x k k' hl hk hk' hne
    constructor
    · obtain ⟨j, hj, hx⟩ := (h k x).mpr (.inl ⟨i, hk, hl⟩)
      rcases (hnow j k).mp hj with hj | ⟨hj, hnone⟩
      · exact ⟨j, hj, (hlinked j x).mp hx⟩
      · exact absurd (hkey j i k hj hk ▸ hk') (hnone k')
    · exact (h k' x).mp ⟨i, (hnow i k').mpr (.inl hk'), (hlinked i x).mpr (.inl hl)⟩
  · intro h k x
    constructor
    · intro ⟨i, hi, hx⟩
      rcases (hnow i k).mp hi with hi | ⟨hi, hnone⟩
      · rcases (hlinked i x).mp hx with hx | hx
        · obtain ⟨k₀, hk₀⟩ := hhere i x hx
          by_cases he : k = k₀
          · exact .inl ⟨i, he ▸ hk₀, hx⟩
          · exact (h i x k₀ k hx hk₀ hi he).2
        · exact .inr ⟨i, hi, hx⟩
      · rcases (hlinked i x).mp hx with hx | hx
        · exact .inl ⟨i, hi, hx⟩
        · obtain ⟨k', hk'⟩ := hthere i x hx
          exact absurd hk' (hnone k')
    · rintro (⟨i, hi, hx⟩ | ⟨i, hi, hx⟩)
      · by_cases hex : ∃ k', there i k'
        · obtain ⟨k', hk'⟩ := hex
          by_cases he : k' = k
          · exact ⟨i, (hnow i k).mpr (.inl (he ▸ hk')), (hlinked i x).mpr (.inl hx)⟩
          · obtain ⟨⟨j, hj, hjx⟩, _⟩ := h i x k k' hx hi hk' he
            exact ⟨j, (hnow j k).mpr (.inl hj), (hlinked j x).mpr hjx⟩
        · exact ⟨i, (hnow i k).mpr (.inr ⟨hi, fun k' hk' ↦ hex ⟨k', hk'⟩⟩), (hlinked i x).mpr (.inl hx)⟩
      · exact ⟨i, (hnow i k).mpr (.inl hi), (hlinked i x).mpr (.inr hx)⟩

end Relink

def idsOf (s : Schema) (table : String) : List (List (Option String)) := (s.rowsOf table).map (values (primaryKeyOf table))

/-- What a database says in a table. -/
def facts (s : Schema) (table : String) : List (List (Option String)) := (s.rowsOf table).map (values (identityOf table))

/-- The rule that an id stands for. -/
def NamesRule (s : Schema) (id : Option String) (rule : List (Option String)) : Prop :=
  ∃ r ∈ s.rowsOf "detection_rules", r "id" = id ∧ values (identityOf "detection_rules") r = rule

/-- The tables that link the rules, with what they link them to. -/
def linkTables : List (String × String) :=
  [("detection_rule_cves", "cve_id"), ("detection_rule_techniques", "technique_id")]

def LinksId (s : Schema) (p : String × String) (id : Option String) (x : Option String) : Prop :=
  ∃ r ∈ s.rowsOf p.1, r "rule_id" = id ∧ r p.2 = x

def LinksRule (s : Schema) (p : String × String) (rule : List (Option String)) (x : Option String) : Prop :=
  ∃ id, NamesRule s id rule ∧ LinksId s p id x

/-- The merged schema says what the two say, and links what the two link. -/
structure Faithful (intel snapshot final : Schema) : Prop where
  facts : ∀ table ∈ intelTables, ∀ f, f ∈ facts final table ↔ f ∈ facts intel table ∨ f ∈ facts snapshot table
  links : ∀ p ∈ linkTables, ∀ rule x,
    LinksRule final p rule x ↔ LinksRule intel p rule x ∨ LinksRule snapshot p rule x

/-- When the rows come in the order of the dump, each finds its unique keys free, or in the row that it goes over. -/
def InOrder (intel snapshot : Schema) (table : String) : Prop :=
  ∀ seen s, seen ++ [s] <+: snapshot.rowsOf table → ∀ l ∈ intel.rowsOf table, ∀ cols ∈ uniquesOf table,
    values cols l = values cols s →
      values (primaryKeyOf table) l ∈ (seen ++ [s]).map (values (primaryKeyOf table))

/-- The ids that both databases give are given to the same rows, as far as it matters. -/
structure Compatible (intel snapshot : Schema) : Prop where
  exploits : ∀ s ∈ snapshot.rowsOf "cve_exploits",
    values ["id"] s ∈ idsOf intel "cve_exploits" ↔ values ["cve_id", "url"] s ∈ facts intel "cve_exploits"
  history : ∀ s ∈ snapshot.rowsOf "cve_change_history", values ["id"] s ∈ idsOf intel "cve_change_history" →
    values (identityOf "cve_change_history") s ∈ facts intel "cve_change_history" ∨
      ∃ s' ∈ snapshot.rowsOf "cve_change_history", values ["id"] s' ∉ idsOf intel "cve_change_history" ∧
        values (identityOf "cve_change_history") s' = values (identityOf "cve_change_history") s
  rules : ∀ l ∈ intel.rowsOf "detection_rules", values ["id"] l ∈ idsOf snapshot "detection_rules" →
    values ["source", "repo_path"] l ∈ facts snapshot "detection_rules"
  order : ∀ table ∈ mergeTableOrder, mergeStrategy table = .update → InOrder intel snapshot table
  links : ∀ p ∈ linkTables, ∀ id x rule rule', LinksId intel p id x → NamesRule intel id rule →
    NamesRule snapshot id rule' → rule' ≠ rule →
      (∃ id', NamesRule snapshot id' rule ∧ (LinksId intel p id' x ∨ LinksId snapshot p id' x)) ∧
        (LinksRule intel p rule' x ∨ LinksRule snapshot p rule' x)

end Briefr.IntelSnapshot

namespace Briefr.IntelSnapshot

open Briefr.Library Briefr.Library.Sql

theorem rowsOf_some {s : Schema} {table : String} {t : Table} (h : s.table? table = some t) : s.rowsOf table = t.rows := by
  rw [Schema.rowsOf, h, Option.elim_some]

theorem rowsOf_none {s : Schema} {table : String} (h : s.table? table = none) : s.rowsOf table = [] := by
  rw [Schema.rowsOf, h, Option.elim_none]

theorem mem_rowsOf {s : Schema} {table : String} {r : Row} (h : r ∈ s.rowsOf table) :
    ∃ t, s.table? table = some t ∧ r ∈ t.rows := by
  cases ht : s.table? table with
  | none => exact absurd (rowsOf_none ht ▸ h) List.not_mem_nil
  | some t => exact ⟨t, rfl, rowsOf_some ht ▸ h⟩

variable {intel snapshot : Schema} {table : String}

theorem eq_of_unique {s : Schema} {t : Table} (ht : s.table? table = some t) (hd : Declares table t.decl) {a b : Row}
    {cols : List String} (hcols : cols ∈ uniquesOf table) (ha : a ∈ s.rowsOf table) (hb : b ∈ s.rowsOf table)
    (h : values cols a = values cols b) : a = b := by
  rw [rowsOf_some ht] at ha hb
  have hmem : cols ∈ t.decl.keys := t.decl.unique_mem_keys (hd.uniques ▸ hcols)
  exact Table.eq_of_key hmem ha hb ((t.decl.clash_notNull (hd.notNull cols hcols) (t.accepted b hb)).mpr h)

theorem Migrated.eq_of_unique (hm : Migrated intel snapshot) {a b : Row} {cols : List String}
    (hcols : cols ∈ uniquesOf table) (ha : a ∈ intel.rowsOf table) (hb : b ∈ intel.rowsOf table)
    (h : values cols a = values cols b) : a = b := by
  obtain ⟨t, ht, _⟩ := mem_rowsOf ha
  exact IntelSnapshot.eq_of_unique ht (hm.declares table t ht) hcols ha hb h

theorem Migrated.snapshot_eq_of_unique (hm : Migrated intel snapshot) {a b : Row} {cols : List String}
    (hcols : cols ∈ uniquesOf table) (ha : a ∈ snapshot.rowsOf table) (hb : b ∈ snapshot.rowsOf table)
    (h : values cols a = values cols b) : a = b := by
  obtain ⟨t, ht, _⟩ := mem_rowsOf ha
  obtain ⟨target, htarget, hdecl⟩ := hm.same table t ht
  exact IntelSnapshot.eq_of_unique ht (hdecl ▸ hm.declares table target htarget) hcols ha hb h

section Fits

theorem not_subset_primaryKey {cols : List String} (h : cols ∈ uniquesOf table) : ¬cols ⊆ primaryKeyOf table := by
  unfold uniquesOf at h
  split at h
  case h_5 => cases h
  all_goals
    obtain rfl := List.mem_singleton.mp h
    decide

theorem Declares.others_ne {d : TableDef} (hd : Declares table d) {cols : List String} (hcols : cols ⊆ d.columns)
    (h : ¬cols ⊆ primaryKeyOf table) : d.others ≠ [] := by
  intro he
  refine h fun c hc ↦ ?_
  by_contra hn
  have hmem : c ∈ d.others := List.mem_filter.mpr ⟨hcols hc, by simpa [hd.primaryKey] using hn⟩
  exact absurd (he ▸ hmem) List.not_mem_nil

theorem onConflict_update (hs : mergeStrategy table = .update) {d : TableDef} (h : d.others ≠ []) :
    onConflict table d = .doUpdate d.others := by
  rw [onConflict, hs]
  exact if_neg h

theorem onConflict_nothing (hs : mergeStrategy table = .nothing) (d : TableDef) : onConflict table d = .doNothing := by
  rw [onConflict, hs]

theorem tableFits_of_uniquesOf_nil (hm : Migrated intel snapshot) (h : uniquesOf table = []) :
    TableFits intel snapshot table := by
  intro source _ target ht
  rw [allFit_iff]
  intro seen s _ _ l _ _ _ cols hcols
  rw [(hm.declares table target ht).uniques, h] at hcols
  cases hcols

/-- A table under `DO UPDATE` can be merged if and only if its rows come in an order that leaves their keys free. -/
theorem tableFits_iff_of_update (hm : Migrated intel snapshot) (hs : mergeStrategy table = .update) :
    TableFits intel snapshot table ↔ InOrder intel snapshot table := by
  constructor
  · intro h seen s hprefix l hl cols hcols hv
    obtain ⟨target, ht, hl⟩ := mem_rowsOf hl
    have hmem : s ∈ snapshot.rowsOf table := hprefix.subset (List.mem_append_right _ (.head _))
    obtain ⟨source, hsource, hmem⟩ := mem_rowsOf hmem
    have hd := hm.declares table target ht
    have hcols' : cols ∈ target.decl.uniques := hd.uniques ▸ hcols
    have hact := onConflict_update hs (hd.others_ne (target.decl.unique_subset hcols') (not_subset_primaryKey hcols))
    rw [rowsOf_some hsource] at hprefix
    have hfits := allFit_iff.mp (h source hsource target ht) seen s hprefix (.inl (hact ▸ nofun)) l hl
    rw [← hd.primaryKey]
    by_contra hn
    rw [List.map_append, List.mem_append, not_or, List.map_singleton, List.mem_singleton] at hn
    have hseen : Stays target.decl (onConflict table target.decl) seen l :=
      .inr fun s' hs' he ↦ hn.1 (List.mem_map.mpr ⟨s', hs', he⟩)
    obtain ⟨target', ht', hdecl⟩ := hm.same table source hsource
    obtain rfl : target = target' := Option.some.inj (ht.symm.trans ht')
    have hacc : target.decl.Accepts s := hdecl ▸ source.accepted s hmem
    exact hfits hseen hn.2 cols hcols' ((target.decl.clash_notNull (hd.notNull cols hcols) hacc).mpr hv)
  · intro h source hsource target ht
    have hd := hm.declares table target ht
    rw [allFit_iff]
    intro seen s hprefix _ l hl hst hne cols hcols hc
    rw [hd.uniques] at hcols
    have hact := onConflict_update hs (hd.others_ne (target.decl.unique_subset (hd.uniques ▸ hcols))
      (not_subset_primaryKey hcols))
    have hin := h seen s (rowsOf_some hsource ▸ hprefix) l (rowsOf_some ht ▸ hl) cols hcols hc.1
    rw [← hd.primaryKey, List.map_append, List.mem_append, List.map_singleton, List.mem_singleton] at hin
    rcases hin with hin | hin
    · obtain ⟨s', hs', he⟩ := List.mem_map.mp hin
      exact hst.resolve_left (hact ▸ nofun) s' hs' he
    · exact hne hin

/-- Under `DO NOTHING` the rows that are not skipped must have their unique keys to themselves. -/
theorem tableFits_iff_of_nothing (hm : Migrated intel snapshot) (hs : mergeStrategy table = .nothing) :
    TableFits intel snapshot table ↔ ∀ s ∈ snapshot.rowsOf table, values (primaryKeyOf table) s ∉ idsOf intel table →
      ∀ l ∈ intel.rowsOf table, ∀ cols ∈ uniquesOf table, values cols l ≠ values cols s := by
  constructor
  · intro h s hmem hnew l hl cols hcols hv
    obtain ⟨target, ht, hl'⟩ := mem_rowsOf hl
    obtain ⟨source, hsource, hmem⟩ := mem_rowsOf hmem
    obtain ⟨target', ht', hdecl⟩ := hm.same table source hsource
    obtain rfl : target = target' := Option.some.inj (ht.symm.trans ht')
    have hd := hm.declares table target ht
    have hnew' : ∀ l ∈ target.rows, values target.decl.primaryKey l ≠ values target.decl.primaryKey s := by
      intro l hl he
      rw [hd.primaryKey] at he
      exact hnew (List.mem_map.mpr ⟨l, rowsOf_some ht ▸ hl, he⟩)
    obtain ⟨seen, rest, hsplit⟩ := List.append_of_mem hmem
    have hprefix : seen ++ [s] <+: source.rows := ⟨rest, by rw [hsplit, List.append_assoc, List.singleton_append]⟩
    have hfits := allFit_iff.mp (h source hsource target ht) seen s hprefix (.inr hnew') l hl'
      (.inl (onConflict_nothing hs _)) (hnew' l hl') cols (hd.uniques ▸ hcols)
    have hacc : target.decl.Accepts s := hdecl ▸ source.accepted s hmem
    exact hfits ((target.decl.clash_notNull (hd.notNull cols hcols) hacc).mpr hv)
  · intro h source hsource target ht
    have hd := hm.declares table target ht
    rw [allFit_iff]
    intro seen s hprefix hlands l hl _ _ cols hcols hc
    have hmem : s ∈ source.rows := hprefix.subset (List.mem_append_right _ (.head _))
    refine h s (rowsOf_some hsource ▸ hmem) ?_ l (rowsOf_some ht ▸ hl) cols (hd.uniques ▸ hcols) hc.1
    intro hin
    obtain ⟨o, ho, he⟩ := List.mem_map.mp hin
    rw [← hd.primaryKey] at he
    exact hlands.resolve_left (not_not.mpr (onConflict_nothing hs _)) o (rowsOf_some ht ▸ ho) he

theorem cve_exploits_fits_iff (hm : Migrated intel snapshot) : TableFits intel snapshot "cve_exploits" ↔
    ∀ s ∈ snapshot.rowsOf "cve_exploits", values ["id"] s ∉ idsOf intel "cve_exploits" →
      values ["cve_id", "url"] s ∉ facts intel "cve_exploits" := by
  rw [tableFits_iff_of_nothing hm rfl]
  refine forall₂_congr fun s _ ↦ imp_congr_right fun _ ↦ ⟨fun h hin ↦ ?_, fun h l hl cols hcols hv ↦ ?_⟩
  · obtain ⟨l, hl, hv⟩ := List.mem_map.mp hin
    exact h l hl _ (.head _) hv
  · obtain rfl := List.mem_singleton.mp hcols
    exact h (List.mem_map.mpr ⟨l, hl, hv⟩)

theorem uniquesOf_nothing : ∀ table ∈ mergeTableOrder, mergeStrategy table = .nothing →
    table = "cve_exploits" ∨ uniquesOf table = [] := by decide

theorem all_fit_iff (hm : Migrated intel snapshot) : (∀ table ∈ mergeTableOrder, TableFits intel snapshot table) ↔
    (∀ s ∈ snapshot.rowsOf "cve_exploits", values ["id"] s ∉ idsOf intel "cve_exploits" →
      values ["cve_id", "url"] s ∉ facts intel "cve_exploits") ∧
      ∀ table ∈ mergeTableOrder, mergeStrategy table = .update → InOrder intel snapshot table := by
  constructor
  · intro h
    refine ⟨(cve_exploits_fits_iff hm).mp (h _ (by decide)), fun table ht hs ↦ ?_⟩
    exact (tableFits_iff_of_update hm hs).mp (h table ht)
  · intro ⟨hexploits, horder⟩ table ht
    cases hs : mergeStrategy table with
    | update => exact (tableFits_iff_of_update hm hs).mpr (horder table ht hs)
    | nothing =>
      rcases uniquesOf_nothing table ht hs with rfl | hu
      · exact (cve_exploits_fits_iff hm).mpr hexploits
      · exact tableFits_of_uniquesOf_nil hm hu

end Fits

section Kept

variable {final : Schema}

/-- The rows of a table after the merge, or nothing came for it. -/
theorem Stage.rows (h : Stage intel snapshot mergeTableOrder final.table?) (hm : Migrated intel snapshot)
    (ht : table ∈ mergeTableOrder) :
    (snapshot.rowsOf table = [] ∧ final.rowsOf table = intel.rowsOf table) ∨ ∃ d, Declares table d ∧
      Merged d (onConflict table d) (intel.rowsOf table) (snapshot.rowsOf table) (final.rowsOf table) := by
  rcases h.became table ht with ⟨hs, ha⟩ | ⟨source, target, t, hs, htarget, ha, _, _, hmerged⟩
  · refine .inl ⟨rowsOf_none hs, ?_⟩
    rw [Schema.rowsOf, ha, Schema.rowsOf]
  · refine .inr ⟨target.decl, hm.declares table target htarget, ?_⟩
    rwa [rowsOf_some hs, rowsOf_some htarget, rowsOf_some ha]

def Kept (intel snapshot final : Schema) (table : String) : Prop :=
  ∀ f, f ∈ facts final table ↔ f ∈ facts intel table ∨ f ∈ facts snapshot table

theorem kept_of_nothing_comes (hs : snapshot.rowsOf table = []) (hf : final.rowsOf table = intel.rowsOf table) :
    Kept intel snapshot final table := by
  intro f
  rw [facts, facts, facts, hs, hf, List.map_nil, or_iff_left List.not_mem_nil]

theorem Stage.mem_idsOf (h : Stage intel snapshot mergeTableOrder final.table?) (hm : Migrated intel snapshot)
    (ht : table ∈ mergeTableOrder) (v : List (Option String)) :
    v ∈ idsOf final table ↔ v ∈ idsOf intel table ∨ v ∈ idsOf snapshot table := by
  rcases h.rows hm ht with ⟨hs, hf⟩ | ⟨d, hd, hmerged⟩
  · rw [idsOf, idsOf, idsOf, hs, hf, List.map_nil, or_iff_left List.not_mem_nil]
  · rw [idsOf, idsOf, idsOf, ← hd.primaryKey]
    exact hmerged.mem_primaryKeys

theorem Stage.kept_of_natural (h : Stage intel snapshot mergeTableOrder final.table?) (hm : Migrated intel snapshot)
    (ht : table ∈ mergeTableOrder) (hi : identityOf table = primaryKeyOf table) : Kept intel snapshot final table := by
  intro f
  rw [facts, facts, facts, hi]
  exact h.mem_idsOf hm ht f

theorem Stage.kept_iff_of_nothing (h : Stage intel snapshot mergeTableOrder final.table?) (hm : Migrated intel snapshot)
    (ht : table ∈ mergeTableOrder) (hs : mergeStrategy table = .nothing) : Kept intel snapshot final table ↔
      ∀ s ∈ snapshot.rowsOf table, values (primaryKeyOf table) s ∈ idsOf intel table →
        values (identityOf table) s ∈ facts intel table ∨ ∃ s' ∈ snapshot.rowsOf table,
          values (primaryKeyOf table) s' ∉ idsOf intel table ∧
            values (identityOf table) s' = values (identityOf table) s := by
  rcases h.rows hm ht with ⟨hnil, hf⟩ | ⟨d, hd, hmerged⟩
  · rw [hnil]
    exact iff_of_true (kept_of_nothing_comes hnil hf) (List.forall_mem_nil _)
  · rw [onConflict_nothing hs] at hmerged
    have hkeeps := hmerged.keeps_iff_of_doNothing hd.identity
    rwa [hd.primaryKey] at hkeeps

theorem Stage.kept_iff_of_update (h : Stage intel snapshot mergeTableOrder final.table?) (hm : Migrated intel snapshot)
    (ht : table ∈ mergeTableOrder) (hs : mergeStrategy table = .update) (hi : ¬identityOf table ⊆ primaryKeyOf table) :
    Kept intel snapshot final table ↔
      ∀ l ∈ intel.rowsOf table, values (primaryKeyOf table) l ∈ idsOf snapshot table →
        values (identityOf table) l ∈ facts snapshot table ∨ ∃ l' ∈ intel.rowsOf table,
          values (primaryKeyOf table) l' ∉ idsOf snapshot table ∧
            values (identityOf table) l' = values (identityOf table) l := by
  rcases h.rows hm ht with ⟨hnil, hf⟩ | ⟨d, hd, hmerged⟩
  · refine iff_of_true (kept_of_nothing_comes hnil hf) fun l _ hl ↦ ?_
    rw [idsOf, hnil] at hl
    exact absurd hl List.not_mem_nil
  · have hact : onConflict table d ≠ .doNothing := by
      rw [onConflict_update hs (hd.others_ne hd.identity hi)]
      exact nofun
    have hkeeps := hmerged.keeps_iff_of_doUpdate hact hd.identity
    rwa [hd.primaryKey] at hkeeps

theorem Stage.kept_cve_exploits_iff (h : Stage intel snapshot mergeTableOrder final.table?)
    (hm : Migrated intel snapshot) : Kept intel snapshot final "cve_exploits" ↔
      ∀ s ∈ snapshot.rowsOf "cve_exploits", values ["id"] s ∈ idsOf intel "cve_exploits" →
        values ["cve_id", "url"] s ∈ facts intel "cve_exploits" := by
  rw [h.kept_iff_of_nothing hm (by decide) rfl]
  refine forall₂_congr fun s hs ↦ imp_congr_right fun hid ↦ or_iff_left fun ⟨s', hs', hnew, hv⟩ ↦ ?_
  obtain rfl := hm.snapshot_eq_of_unique (.head _) hs' hs hv
  exact hnew hid

theorem Stage.kept_detection_rules_iff (h : Stage intel snapshot mergeTableOrder final.table?)
    (hm : Migrated intel snapshot) : Kept intel snapshot final "detection_rules" ↔
      ∀ l ∈ intel.rowsOf "detection_rules", values ["id"] l ∈ idsOf snapshot "detection_rules" →
        values ["source", "repo_path"] l ∈ facts snapshot "detection_rules" := by
  rw [h.kept_iff_of_update hm (by decide) rfl (by decide)]
  refine forall₂_congr fun l hl ↦ imp_congr_right fun hid ↦ or_iff_left fun ⟨l', hl', hnew, hv⟩ ↦ ?_
  obtain rfl := hm.eq_of_unique (.head _) hl' hl hv
  exact hnew hid

end Kept

section Links

variable {final : Schema} {p : String × String}

theorem namesRule_iff {s : Schema} {id : Option String} {rule : List (Option String)} : NamesRule s id rule ↔
    id :: rule ∈ (s.rowsOf "detection_rules").map (values ["id", "source", "repo_path"]) := by
  rw [NamesRule, List.mem_map]
  exact exists_congr fun r ↦ and_congr_right fun _ ↦ List.cons_eq_cons.symm

theorem linksId_iff {s : Schema} (hp : p ∈ linkTables) {id x : Option String} :
    LinksId s p id x ↔ [id, x] ∈ idsOf s p.1 := by
  have hpk : primaryKeyOf p.1 = ["rule_id", p.2] := by
    rcases List.mem_pair.mp hp with rfl | rfl <;> rfl
  rw [LinksId, idsOf, hpk, List.mem_map]
  refine exists_congr fun r ↦ and_congr_right fun _ ↦ ?_
  simp [values]

theorem mem_order_of_linkTables (hp : p ∈ linkTables) : p.1 ∈ mergeTableOrder := by
  rcases List.mem_pair.mp hp with rfl | rfl <;> decide

/-- A link names a rule of its own database. -/
theorem names_of_links {s : Schema} (hs : ∀ table t, s.table? table = some t → Declares table t.decl)
    (hp : p ∈ linkTables) {id x : Option String} (h : LinksId s p id x) : ∃ rule, NamesRule s id rule := by
  obtain ⟨r, hr, rfl, _⟩ := h
  obtain ⟨t, ht, hr⟩ := mem_rowsOf hr
  have hd := hs p.1 t ht
  have hfk : ⟨["rule_id"], "detection_rules", ["id"]⟩ ∈ t.decl.foreignKeys := by
    rw [hd.foreignKeys]
    rcases List.mem_pair.mp hp with rfl | rfl <;> exact .head _
  have hnull : r "rule_id" ≠ none := by
    refine (t.accepted r hr).1 _ (List.mem_append_left _ ?_)
    rw [hd.primaryKey]
    rcases List.mem_pair.mp hp with rfl | rfl <;> exact .head _
  rcases s.finds_parent ht hfk hr with hn | ⟨parent, hparent, q, hq, hv⟩
  · exact absurd (List.mem_singleton.mp hn).symm hnull
  · exact ⟨_, q, rowsOf_some hparent ▸ hq, List.head_eq_of_cons_eq hv, rfl⟩

theorem Migrated.declares_snapshot (hm : Migrated intel snapshot) (table : String) (t : Table)
    (h : snapshot.table? table = some t) : Declares table t.decl := by
  obtain ⟨target, ht, hdecl⟩ := hm.same table t h
  exact hdecl ▸ hm.declares table target ht

/-- The snapshot decides what an id that it gives stands for. -/
theorem Stage.namesRule_iff (h : Stage intel snapshot mergeTableOrder final.table?) (hm : Migrated intel snapshot)
    (id : Option String) (rule : List (Option String)) : NamesRule final id rule ↔
      NamesRule snapshot id rule ∨ (NamesRule intel id rule ∧ ∀ rule', ¬NamesRule snapshot id rule') := by
  have hnames : ∀ l : Row, (∀ rule', ¬NamesRule snapshot (l "id") rule') ↔
      ∀ s ∈ snapshot.rowsOf "detection_rules", values ["id"] s ≠ values ["id"] l := by
    intro l
    constructor
    · intro hn s hs hv
      exact hn _ ⟨s, hs, List.head_eq_of_cons_eq hv, rfl⟩
    · intro hn rule' ⟨s, hs, hv, _⟩
      exact hn s hs (by rw [values, values, List.map_singleton, List.map_singleton, hv])
  rcases @Stage.rows intel snapshot "detection_rules" final h hm (by decide) with ⟨hnil, hf⟩ | ⟨d, hd, hmerged⟩
  · have hnone : ∀ i k, ¬NamesRule snapshot i k := by
      intro i k ⟨r, hr, _⟩
      exact absurd (hnil ▸ hr) List.not_mem_nil
    rw [or_iff_right (hnone id rule), and_iff_left (hnone id), NamesRule, hf]
    rfl
  · have hact : onConflict "detection_rules" d ≠ .doNothing := by
      rw [onConflict_update rfl (hd.others_ne hd.identity (by decide))]
      exact nofun
    have hsub : ["id", "source", "repo_path"] ⊆ d.columns := by
      refine List.cons_subset.mpr ⟨d.primaryKey_subset (hd.primaryKey ▸ .head _), hd.identity⟩
    rw [IntelSnapshot.namesRule_iff, hmerged.mem_values hsub, or_comm]
    refine or_congr ?_ ?_
    · rw [IntelSnapshot.namesRule_iff, List.mem_map]
      exact exists_congr fun s ↦ and_congr_right fun _ ↦ and_iff_right (.inl hact)
    · constructor
      · intro ⟨l, hl, hst, hv⟩
        obtain ⟨hid, hrule⟩ := List.cons_eq_cons.mp hv
        have hst := hst.resolve_left hact
        rw [hd.primaryKey] at hst
        exact ⟨⟨l, hl, hid, hrule⟩, hid ▸ (hnames l).mpr hst⟩
      · intro ⟨⟨l, hl, hid, hrule⟩, hnone⟩
        refine ⟨l, hl, .inr ?_, List.cons_eq_cons.mpr ⟨hid, hrule⟩⟩
        rw [hd.primaryKey]
        exact (hnames l).mp (hid ▸ hnone)

theorem Stage.links_iff (h : Stage intel snapshot mergeTableOrder final.table?) (hm : Migrated intel snapshot)
    (hp : p ∈ linkTables) :
    (∀ rule x, LinksRule final p rule x ↔ LinksRule intel p rule x ∨ LinksRule snapshot p rule x) ↔
      ∀ id x rule rule', LinksId intel p id x → NamesRule intel id rule → NamesRule snapshot id rule' → rule' ≠ rule →
        (∃ id', NamesRule snapshot id' rule ∧ (LinksId intel p id' x ∨ LinksId snapshot p id' x)) ∧
          (LinksRule intel p rule' x ∨ LinksRule snapshot p rule' x) := by
  have hlinked : ∀ id x, LinksId final p id x ↔ LinksId intel p id x ∨ LinksId snapshot p id x := by
    intro id x
    rw [linksId_iff hp, linksId_iff hp, linksId_iff hp]
    exact h.mem_idsOf hm (mem_order_of_linkTables hp) [id, x]
  refine relink_iff (h.namesRule_iff hm) hlinked (fun _ _ ↦ names_of_links hm.declares hp)
    (fun _ _ ↦ names_of_links hm.declares_snapshot hp) ?_
  intro i i' k ⟨r, hr, hi, hk⟩ ⟨r', hr', hi', hk'⟩
  obtain rfl := hm.eq_of_unique (.head _) hr hr' (hk.trans hk'.symm)
  exact hi.symm.trans hi'

end Links

theorem identityOf_cases : ∀ table ∈ mergeTableOrder, table = "cve_exploits" ∨ table = "cve_change_history" ∨
    table = "detection_rules" ∨ identityOf table = primaryKeyOf table := by decide

theorem Stage.faithful_iff {final : Schema} (h : Stage intel snapshot mergeTableOrder final.table?)
    (hm : Migrated intel snapshot) (hall : ∀ table ∈ mergeTableOrder, TableFits intel snapshot table) :
    Faithful intel snapshot final ↔ Compatible intel snapshot := by
  obtain ⟨hexploits, horder⟩ := (all_fit_iff hm).mp hall
  constructor
  · intro hf
    have hkept : ∀ table ∈ intelTables, Kept intel snapshot final table := hf.facts
    refine ⟨fun s hs ↦ ⟨?_, ?_⟩, ?_, ?_, horder, ?_⟩
    · exact (h.kept_cve_exploits_iff hm).mp (hkept _ (by decide)) s hs
    · exact not_imp_not.mp (hexploits s hs)
    · exact (h.kept_iff_of_nothing hm (by decide) rfl).mp (hkept "cve_change_history" (by decide))
    · exact (h.kept_detection_rules_iff hm).mp (hkept _ (by decide))
    · exact fun p hp ↦ (h.links_iff hm hp).mp (hf.links p hp)
  · intro hc
    refine ⟨fun table ht ↦ ?_, fun p hp ↦ (h.links_iff hm hp).mpr (hc.links p hp)⟩
    have ht := mem_mergeTableOrder table ht
    rcases identityOf_cases table ht with rfl | rfl | rfl | hi
    · exact (h.kept_cve_exploits_iff hm).mpr fun s hs ↦ (hc.exploits s hs).mp
    · exact (h.kept_iff_of_nothing hm ht rfl).mpr hc.history
    · exact (h.kept_detection_rules_iff hm).mpr hc.rules
    · exact h.kept_of_natural hm ht hi

theorem Compatible.all_fit (hc : Compatible intel snapshot) (hm : Migrated intel snapshot) :
    ∀ table ∈ mergeTableOrder, TableFits intel snapshot table :=
  (all_fit_iff hm).mpr ⟨fun s hs ↦ not_imp_not.mpr (hc.exploits s hs).mpr, hc.order⟩

section Example

theorem exploitSchema_cases {changes : List Row} {exploit : Row} {hc : ∀ r ∈ changes, cveChangeHistory.Accepts r}
    {hd : Distinct cveChangeHistory.keys changes} {he : cveExploits.Accepts exploit} {t : Table}
    (h : (exploitSchema changes exploit hc hd he).table? table = some t) :
    (table = "cve_change_history" ∧ t.decl = cveChangeHistory) ∨ (table = "cve_exploits" ∧ t.decl = cveExploits) := by
  rcases List.mem_pair.mp (Dict.mem_items_iff.mpr h) with h | h
  · obtain ⟨rfl, rfl⟩ := Prod.mk.inj h
    exact .inl ⟨rfl, rfl⟩
  · obtain ⟨rfl, rfl⟩ := Prod.mk.inj h
    exact .inr ⟨rfl, rfl⟩

theorem declares_cveChangeHistory : Declares "cve_change_history" cveChangeHistory :=
  ⟨rfl, rfl, rfl, by decide, by decide⟩

theorem declares_cveExploits : Declares "cve_exploits" cveExploits := ⟨rfl, rfl, rfl, by decide, by decide⟩

theorem migrated_exploitSchema {changes : List Row} {exploit : Row} (hc : ∀ r ∈ changes, cveChangeHistory.Accepts r)
    (hd : Distinct cveChangeHistory.keys changes) (he : cveExploits.Accepts exploit) :
    Migrated localIntel (exploitSchema changes exploit hc hd he) where
  declares := by
    intro table t h
    rcases exploitSchema_cases h with ⟨rfl, hd⟩ | ⟨rfl, hd⟩
    · exact hd ▸ declares_cveChangeHistory
    · exact hd ▸ declares_cveExploits
  same := by
    intro table t h
    rcases exploitSchema_cases h with ⟨rfl, hd⟩ | ⟨rfl, hd⟩
    · exact ⟨⟨cveChangeHistory, [], _, _⟩, rfl, hd⟩
    · exact ⟨⟨cveExploits, [_], _, _⟩, rfl, hd⟩

/-- Another exploit under the id of the local one. -/
def sameId : Schema := exploitSchema [] (exploitRow "1" "CVE-2024-0002" "https://github.com/poc/b")
  accepts_no_change distinct_no_change (by decide)

/-- The local exploit under its own id, and a change that the local history lacks. -/
def newer : Schema := exploitSchema [severityChange] (exploitRow "1" "CVE-2024-0001" "https://github.com/poc/a")
  accepts_severityChange distinct_severityChange accepts_exploit

theorem length_rowsOf_newer : ∀ table ∈ mergeTableOrder, mergeStrategy table = .update →
    (newer.rowsOf table).length = 0 := by decide

theorem compatible_newer : Compatible localIntel newer where
  exploits := by decide
  history := by decide
  rules := nofun
  order := by
    intro table ht hs seen s hprefix
    have hlen := hprefix.length_le
    rw [length_rowsOf_newer table ht hs, List.length_append, List.length_singleton] at hlen
    omega
  links := by
    intro p hp id x rule rule' ⟨r, hr, _⟩
    rcases List.mem_pair.mp hp with rfl | rfl <;> cases hr

end Example

end Briefr.IntelSnapshot
