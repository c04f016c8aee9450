import Briefr.IntelSnapshot.Merge

namespace Briefr.IntelSnapshot

open Briefr.Library Briefr.Library.Sql

/-- What tells the rows of a table apart, whatever ids a database gives them. -/
def identityOf : String → List String
  | "cve_exploits" => ["cve_id", "url"]
  | "detection_rules" => ["source", "repo_path"]
  | "cve_change_history" => ["cve_id", "field_name", "old_value", "new_value", "detected_at"]
  | table => primaryKeyOf table

/-- The constraints of the migrations. -/
structure Declares (table : String) (d : TableDef) : Prop where
  primaryKey : d.primaryKey = primaryKeyOf table
  uniques : d.uniques = uniquesOf table
  foreignKeys : d.foreignKeys = foreignKeysOf table
  notNull : ∀ cols ∈ uniquesOf table, cols ⊆ d.notNull
  identity : identityOf table ⊆ d.columns

/-- A local schema that has the tables of the snapshot, both as the migrations declare them. -/
structure Migrated (intel snapshot : Schema) : Prop where
  declares : ∀ table t, intel.table? table = some t → Declares table t.decl
  same : ∀ table s, snapshot.table? table = some s → ∃ t, intel.table? table = some t ∧ s.decl = t.decl

theorem onConflict_cases (table : String) (d : TableDef) :
    onConflict table d = .doNothing ∨ onConflict table d = .doUpdate d.others := by
  rw [onConflict]
  split
  · exact .inl rfl
  · split
    · exact .inl rfl
    · exact .inr rfl

/-- Foreign keys name primary keys, and those of tables that come earlier in the order. -/
theorem foreignKeysOf_spec {table : String} {fk : ForeignKey String String} (h : fk ∈ foreignKeysOf table) :
    fk.references = primaryKeyOf fk.table ∧ fk.table ∈ mergeTableOrder ∧ table ∈ mergeTableOrder ∧
      mergeTableOrder.idxOf fk.table < mergeTableOrder.idxOf table := by
  unfold foreignKeysOf at h
  split at h
  case h_5 => cases h
  all_goals
    obtain rfl := List.mem_singleton.mp h
    decide +kernel

theorem parent_mem_done {done rest : List String} {table : String} {fk : ForeignKey String String}
    (hsplit : mergeTableOrder = done ++ rest) (hfk : fk ∈ foreignKeysOf table) (ht : table ∈ done) : fk.table ∈ done := by
  obtain ⟨_, _, _, hlt⟩ := foreignKeysOf_spec hfk
  by_contra hn
  rw [hsplit, List.idxOf_append_of_mem ht, List.idxOf_append_of_notMem hn] at hlt
  have hle := List.idxOf_le_length (a := table) (l := done)
  have := List.idxOf_lt_length_of_mem ht
  omega

section Stage

variable (intel snapshot : Schema)

/-- What a table of the local schema becomes when the snapshot's is merged. -/
def Became (table : String) (after : Option Table) : Prop :=
  (snapshot.table? table = none ∧ after = intel.table? table) ∨
    ∃ source target t, snapshot.table? table = some source ∧ intel.table? table = some target ∧ after = some t ∧
      source.decl = target.decl ∧ t.decl = target.decl ∧
      Merged target.decl (onConflict table target.decl) target.rows source.rows t.rows

/-- The tables when those done are merged and the others are not. -/
structure Stage (done : List String) (after : String → Option Table) : Prop where
  became : ∀ table ∈ done, Became intel snapshot table (after table)
  rest : ∀ table, table ∉ done → after table = intel.table? table

def TableFits (table : String) : Prop :=
  ∀ source ∈ snapshot.table? table, ∀ target ∈ intel.table? table,
    AllFit target.decl (onConflict table target.decl) target.rows source.rows

variable {intel snapshot} {done rest : List String} {after : String → Option Table} {table : String}

theorem Migrated.primaryKey_ne (hm : Migrated intel snapshot) (ht : table ∈ mergeTableOrder) {target : Table}
    (h : intel.table? table = some target) : target.decl.primaryKey ≠ [] := by
  rw [(hm.declares table target h).primaryKey]
  exact primaryKeyOf_ne_nil table ht

/-- No key of a local row is lost on the way. -/
theorem Stage.keeps_keys (h : Stage intel snapshot done after) (hm : Migrated intel snapshot) {target : Table}
    (ht : intel.table? table = some target) : ∃ t, after table = some t ∧ t.decl = target.decl ∧
      ∀ q ∈ target.rows, ∃ q' ∈ t.rows, values (primaryKeyOf table) q' = values (primaryKeyOf table) q := by
  by_cases hd : table ∈ done
  · rcases h.became table hd with ⟨_, ha⟩ | ⟨source, target', t, _, ht', ha, _, hdecl, hmerged⟩
    · exact ⟨target, ha.trans ht, rfl, fun q hq ↦ ⟨q, hq, rfl⟩⟩
    · obtain rfl : target = target' := Option.some.inj (ht.symm.trans ht')
      refine ⟨t, ha, hdecl, fun q hq ↦ ?_⟩
      rw [← (hm.declares table target ht).primaryKey]
      exact List.mem_map.mp (hmerged.mem_primaryKeys.mpr (.inl (List.mem_map_of_mem hq)))
  · exact ⟨target, (h.rest table hd).trans ht, rfl, fun q hq ↦ ⟨q, hq, rfl⟩⟩

theorem Stage.brings_keys (h : Stage intel snapshot done after) (hm : Migrated intel snapshot) (hd : table ∈ done)
    {source : Table} (hs : snapshot.table? table = some source) : ∃ t, after table = some t ∧
      ∀ q ∈ source.rows, ∃ q' ∈ t.rows, values (primaryKeyOf table) q' = values (primaryKeyOf table) q := by
  rcases h.became table hd with ⟨hn, _⟩ | ⟨source', target, t, hs', ht, ha, _, hdecl, hmerged⟩
  · rw [hs] at hn
    cases hn
  · obtain rfl : source = source' := Option.some.inj (hs.symm.trans hs')
    refine ⟨t, ha, fun q hq ↦ ?_⟩
    rw [← (hm.declares table target ht).primaryKey]
    exact List.mem_map.mp (hmerged.mem_primaryKeys.mpr (.inr (List.mem_map_of_mem hq)))

def Finds (after : String → Option Table) (fk : ForeignKey String String) (r : Row) : Prop :=
  none ∈ values fk.columns r ∨ ∃ parent, after fk.table = some parent ∧ ∃ q ∈ parent.rows,
    values fk.references q = values fk.columns r

/-- Parents are merged before their children, so that no foreign key is ever left dangling. -/
theorem Stage.references (h : Stage intel snapshot done after) (hm : Migrated intel snapshot)
    (hsplit : mergeTableOrder = done ++ rest) {t : Table} (ha : after table = some t) {fk : ForeignKey String String}
    (hfk : fk ∈ t.decl.foreignKeys) {r : Row} (hr : r ∈ t.rows) : Finds after fk r := by
  have hlocal : ∀ target, intel.table? table = some target → t.decl = target.decl → ∀ o ∈ target.rows,
      values fk.columns o = values fk.columns r → Finds after fk r := by
    intro target ht hdecl o ho hv
    have hspec := foreignKeysOf_spec ((hm.declares table target ht).foreignKeys ▸ hdecl ▸ hfk)
    refine (intel.finds_parent ht (hdecl ▸ hfk) ho).imp (hv ▸ ·) fun ⟨parent, hp, q, hq, hqv⟩ ↦ ?_
    obtain ⟨parent', hp', _, hkeys⟩ := h.keeps_keys hm hp
    obtain ⟨q', hq', hqv'⟩ := hkeys q hq
    exact ⟨parent', hp', q', hq', by rw [hspec.1] at hqv ⊢; rw [hqv', hqv, hv]⟩
  by_cases hd : table ∈ done
  · rcases h.became table hd with ⟨_, ha'⟩ | ⟨source, target, t', hs, ht, ha', hsame, hdecl, hmerged⟩
    · exact hlocal t (ha'.symm.trans ha) rfl r hr rfl
    · obtain rfl : t = t' := Option.some.inj (ha.symm.trans ha')
      rcases hmerged.source r hr with ⟨hr, _⟩ | ⟨s, hs', _, hagree⟩
      · exact hlocal target ht hdecl r hr rfl
      · have hfk' : fk ∈ foreignKeysOf table := (hm.declares table target ht).foreignKeys ▸ hdecl ▸ hfk
        have hspec := foreignKeysOf_spec hfk'
        have hv : values fk.columns r = values fk.columns s :=
          hagree.values_eq (target.decl.foreignKey_subset (hdecl ▸ hfk))
        refine (snapshot.finds_parent hs (hsame ▸ hdecl ▸ hfk) hs').imp (hv ▸ ·) fun ⟨parent, hp, q, hq, hqv⟩ ↦ ?_
        obtain ⟨parent', hp', hkeys⟩ := h.brings_keys hm (parent_mem_done hsplit hfk' hd) hp
        obtain ⟨q', hq', hqv'⟩ := hkeys q hq
        exact ⟨parent', hp', q', hq', by rw [hspec.1] at hqv ⊢; rw [hqv', hqv, hv]⟩
  · exact hlocal t ((h.rest table hd).symm.trans ha) rfl r hr rfl

theorem became_of_merged (hm : Migrated intel snapshot) (ht : table ∈ mergeTableOrder) {t : Option Table}
    (h : MergedTable snapshot table (intel.table? table) t) :
    Became intel snapshot table t ∧ TableFits intel snapshot table := by
  rw [MergedTable] at h
  cases hs : snapshot.table? table with
  | none =>
    rw [hs] at h
    exact ⟨.inl ⟨hs, h⟩, fun source hs' ↦ absurd (hs'.symm.trans hs) (Option.some_ne_none source)⟩
  | some source =>
    simp only [hs] at h
    obtain ⟨target, htarget, hdecl⟩ := hm.same table source hs
    have hpk := hm.primaryKey_ne ht htarget
    rw [hdecl] at h
    rcases h with ⟨hc, _⟩ | ⟨_, _, target', merged, n, ht', rfl, hi⟩
    · exact absurd (List.subset_nil.mp (hc ▸ target.decl.primaryKey_subset)) hpk
    · obtain rfl : target = target' := Option.some.inj (htarget.symm.trans ht')
      have hout := Table.insertSelect_outcome hdecl hpk (onConflict_cases table target.decl)
      rw [hi] at hout
      refine ⟨.inr ⟨source, target, merged, hs, htarget, rfl, hdecl, hout.2.1, hout.2.2⟩, ?_⟩
      intro source' hs' target' ht'
      obtain rfl : source = source' := Option.some.inj (hs.symm.trans hs')
      obtain rfl : target = target' := Option.some.inj (htarget.symm.trans ht')
      exact hout.1

/-- A table that fits is merged: the rows can all be written, and every foreign key finds its row. -/
theorem mergeTable_of_fits {cur : Schema} (hm : Migrated intel snapshot) (h : Stage intel snapshot done cur.table?)
    (hsplit : mergeTableOrder = done ++ table :: rest) (hfits : TableFits intel snapshot table) :
    ∃ p, mergeTable snapshot cur table = .ok p := by
  have ht : table ∈ mergeTableOrder := hsplit ▸ List.mem_append_right _ (.head _)
  have hnew : table ∉ done := by
    intro hd
    exact (List.nodup_append.mp (hsplit ▸ nodup_mergeTableOrder)).2.2 table hd table (.head _) rfl
  rw [mergeTable]
  cases hs : snapshot.table? table with
  | none => exact ⟨(cur, 0), rfl⟩
  | some source =>
    obtain ⟨target, htarget, hdecl⟩ := hm.same table source hs
    have hpk := hm.primaryKey_ne ht htarget
    have hcols : target.decl.columns ≠ [] := fun hc ↦ hpk (List.subset_nil.mp (hc ▸ target.decl.primaryKey_subset))
    have hout := Table.insertSelect_outcome hdecl hpk (onConflict_cases table target.decl)
    simp only [h.rest table hnew, htarget, hdecl, if_neg hcols, if_neg hpk]
    cases hi : target.insertSelect target.decl.columns target.decl.primaryKey (onConflict table target.decl)
        source.rows with
    | error e =>
      rw [hi] at hout
      exact absurd (hfits source hs target htarget) hout
    | ok p =>
      obtain ⟨t, n⟩ := p
      rw [hi] at hout
      have hstage : Stage intel snapshot (done ++ [table]) (cur.tables.set table t).get? := by
        refine ⟨fun name hname ↦ ?_, fun name hname ↦ ?_⟩
        · rw [Dict.get?_set]
          rcases List.mem_append.mp hname with hname | hname
          · have hne : name ≠ table := fun he ↦ hnew (he ▸ hname)
            rw [if_neg hne]
            exact h.became name hname
          · obtain rfl := List.mem_singleton.mp hname
            exact .inr ⟨source, target, t, hs, htarget, if_pos rfl, hdecl, hout.2.1, hout.2.2⟩
        · rw [List.mem_append, List.mem_singleton, not_or] at hname
          rw [Dict.get?_set, if_neg hname.2]
          exact h.rest name hname.1
      have hrefs : References (cur.tables.set table t) := by
        intro e he fk hfk r hr
        exact hstage.references hm (hsplit.trans (List.append_cons ..)) (Dict.mem_items_iff.mp he) hfk hr
      obtain ⟨cur', hw⟩ := Schema.write_isOk hrefs
      simp only [hw]
      exact ⟨(cur', n), rfl⟩

variable {merged : Dict String ℕ}

theorem mergeTables_isOk_iff (hm : Migrated intel snapshot) :
    (∃ counts, (mergeTables snapshot mergeTableOrder intel merged).2 = .ok counts) ↔
      ∀ table ∈ mergeTableOrder, TableFits intel snapshot table := by
  obtain ⟨done, rest, hsplit, hdone, hrest, hres⟩ :=
    mergeTables_spec snapshot nodup_mergeTableOrder mergeTableOrder_subset intel merged
  have hmem : ∀ table ∈ done, table ∈ mergeTableOrder := fun _ h ↦ hsplit ▸ List.mem_append_left _ h
  cases hr : (mergeTables snapshot mergeTableOrder intel merged).2 with
  | ok counts =>
    rw [hr] at hres
    refine iff_of_true ⟨counts, rfl⟩ fun table ht ↦ ?_
    rw [hsplit, hres, List.append_nil] at ht
    exact (became_of_merged hm (hmem table ht) (hdone table ht)).2
  | error e =>
    rw [hr] at hres
    obtain ⟨table, rest', rfl, hfail⟩ := hres
    have hstage : Stage intel snapshot done (mergeTables snapshot mergeTableOrder intel merged).1.table? :=
      ⟨fun name hname ↦ (became_of_merged hm (hmem name hname) (hdone name hname)).1, hrest⟩
    refine iff_of_false (fun ⟨_, h⟩ ↦ nomatch h) fun hall ↦ ?_
    obtain ⟨p, hp⟩ := mergeTable_of_fits hm hstage hsplit (hall table (hsplit ▸ List.mem_append_right _ (.head _)))
    exact absurd (hfail.symm.trans hp) nofun

theorem stage_of_ok (hm : Migrated intel snapshot) {counts : Dict String ℕ}
    (h : (mergeTables snapshot mergeTableOrder intel merged).2 = .ok counts) :
    Stage intel snapshot mergeTableOrder (mergeTables snapshot mergeTableOrder intel merged).1.table? := by
  obtain ⟨done, rest, hsplit, hdone, hrest, hres⟩ :=
    mergeTables_spec snapshot nodup_mergeTableOrder mergeTableOrder_subset intel merged
  rw [h] at hres
  obtain rfl : mergeTableOrder = done := by rw [hsplit, hres, List.append_nil]
  exact ⟨fun name hname ↦ (became_of_merged hm hname (hdone name hname)).1, hrest⟩

theorem mergeTable_again {final : Schema} (hm : Migrated intel snapshot)
    (h : Stage intel snapshot mergeTableOrder final.table?) (ht : table ∈ mergeTableOrder) :
    ∃ n, mergeTable snapshot final table = .ok (final, n) := by
  rw [mergeTable]
  rcases h.became table ht with ⟨hs, _⟩ | ⟨source, target, t, hs, htarget, ha, hdecl, hd, hmerged⟩
  · exact ⟨0, by rw [hs]⟩
  · have hpk := hm.primaryKey_ne ht htarget
    have hcols : target.decl.columns ≠ [] := fun hc ↦ hpk (List.subset_nil.mp (hc ▸ target.decl.primaryKey_subset))
    obtain ⟨n, hi⟩ := Table.insertSelect_again hdecl hpk (onConflict_cases table target.decl) hd hmerged
    simp only [hs, ha, hdecl, if_neg hcols, if_neg hpk, hi, Schema.write_same ha]
    exact ⟨n, rfl⟩

/-- A snapshot that is merged changes nothing when it is merged again. -/
theorem mergeTables_again {final : Schema} (hm : Migrated intel snapshot)
    (h : Stage intel snapshot mergeTableOrder final.table?) {tables : List String} (ht : tables ⊆ mergeTableOrder) :
    ∃ counts, mergeTables snapshot tables final merged = (final, .ok counts) := by
  induction tables generalizing merged with
  | nil => exact ⟨merged, rfl⟩
  | cons table tables ih =>
    obtain ⟨htable, htables⟩ := List.cons_subset.mp ht
    obtain ⟨n, hn⟩ := mergeTable_again hm h htable
    rw [mergeTables, if_pos (mergeTableOrder_subset table htable), hn]
    exact ih htables

end Stage

end Briefr.IntelSnapshot
