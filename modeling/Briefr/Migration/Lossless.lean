import Briefr.Migration.SqliteToPostgres
import Briefr.Python.Loop
import Briefr.Library.UniqueIndex
import Mathlib.Data.List.Lex

namespace Briefr.Migration

open Briefr.Python Briefr.Library

section Tables

variable {pg pg' : Pg} {t : Table} {name : Text}

theorem inPublic_injective : Function.Injective inPublic := fun _ _ h ↦ (Prod.mk.inj h).2

theorem Pg.table_eq_some : pg.table name = some t ↔ t ∈ pg.tables ∧ t.key = inPublic name := UniqueIndex.find?_eq_some pg.keys

theorem Pg.columns_eq (hm : t ∈ pg.tables) (hk : t.key = inPublic name) : pg.columns name = t.columns := by
  rw [Pg.columns, Pg.table_eq_some.mpr ⟨hm, hk⟩]
  rfl

/-- A loop in which each round changes the tables of one name: each table is changed in its own round. -/
theorem foldlM_updateAt {σ : Type} {tablesOf : σ → List Table} {step : σ → Text → Except Fault σ} {f : Table → Table}
    (hf : ∀ t, (f t).key = t.key)
    (hstep : ∀ s s' name, step s name = .ok s' → tablesOf s' = updateAt Table.key (inPublic name) f (tablesOf s))
    {names : List Text} (hn : names.Nodup) {s s' : σ} (h : names.foldlM step s = .ok s') :
    tablesOf s' = (tablesOf s).map fun t ↦ if t.key ∈ names.map inPublic then f t else t := by
  have hfold : tablesOf s' = (names.map inPublic).foldl (fun l k ↦ updateAt Table.key k f l) (tablesOf s) := by
    clear hn
    induction names generalizing s with
    | nil =>
      cases h
      rfl
    | cons name names ih =>
      rw [List.foldlM_cons, bind_eq_ok] at h
      obtain ⟨s₁, h₁, h⟩ := h
      rw [ih h, hstep s s₁ name h₁]
      rfl
  rw [hfold, foldl_updateAt hf (hn.map inPublic_injective)]
  refine List.map_congr_left fun t _ ↦ ?_
  by_cases hk : t.key ∈ names.map inPublic
  · rw [if_pos hk, if_pos hk]
  · rw [if_neg hk, if_neg hk]

end Tables

theorem toList_injective : Function.Injective String.toList := fun _ _ h ↦ String.toList_inj.mp h

theorem tableOrder_nodup : tableOrder.Nodup := List.Nodup.map toList_injective (by decide +kernel)

theorem serialIdTables_nodup : serialIdTables.Nodup := List.Nodup.map toList_injective (by decide +kernel)

section Copies

variable [Server] [Interp] {source : Sqlite} {pg pg' : Pg} {t : Table} {name : Text}

def Table.filled (source : Sqlite) (t : Table) : Table :=
  match source.table t.name with
  | none => t
  | some src =>
    if intersectColumns src.columns t.columns = [] then t
    else (src.rows.map (record (intersectColumns src.columns t.columns))).foldl Table.insert t

theorem Table.key_filled (t : Table) : (t.filled source).key = t.key := by
  unfold Table.filled
  split
  · rfl
  · split
    · rfl
    · exact Table.key_foldl_insert _ t

omit [Interp] in
theorem copyRecords_tables {batches : List (List Record)}
    (h : batches.foldlM (fun pg batch ↦ copyRecords pg name batch) pg = .ok pg') :
    pg'.tables = updateAt Table.key (inPublic name) (fun t ↦ batches.flatten.foldl Table.insert t) pg.tables := by
  induction batches generalizing pg with
  | nil =>
    cases h
    exact (updateAt_id _ _).symm
  | cons batch batches ih =>
    rw [List.foldlM_cons, bind_eq_ok] at h
    obtain ⟨pg₁, h₁, h⟩ := h
    have htables : pg₁.tables = updateAt Table.key (inPublic name) (fun t ↦ batch.foldl Table.insert t) pg.tables := by
      unfold copyRecords at h₁
      split at h₁
      · cases h₁
        rfl
      · cases h₁
    rw [ih h, htables, updateAt_updateAt (Table.key_foldl_insert batch)]
    refine updateAt_congr fun t _ _ ↦ ?_
    rw [List.flatten_cons, List.foldl_append]
    rfl

theorem copyTable_tables {counts counts' : List Count} (h : copyTable source (pg, counts) name = .ok (pg', counts')) :
    pg'.tables = updateAt Table.key (inPublic name) (Table.filled source) pg.tables := by
  have hsame : (∀ t ∈ pg.tables, t.key = inPublic name → t.filled source = t) →
      pg.tables = updateAt Table.key (inPublic name) (Table.filled source) pg.tables := by
    intro h
    rw [updateAt_congr (g := fun t ↦ t) h, updateAt_id]
  unfold copyTable at h
  split at h
  · rename_i hnone
    cases h
    refine hsame fun t _ hk ↦ ?_
    have hname : t.name = name := (Prod.mk.inj hk).2
    rw [Table.filled, hname, hnone]
  · rename_i src hsrc
    split at h
    · cases h
    · dsimp only at h
      split at h
      · rename_i hshared
        cases h
        refine hsame fun t hm hk ↦ ?_
        have hname : t.name = name := (Prod.mk.inj hk).2
        rw [Pg.columns_eq hm hk] at hshared
        simp only [Table.filled, hname, hsrc, hshared, ↓reduceIte]
      · rename_i hshared
        rw [bind_eq_ok] at h
        obtain ⟨pg₁, h₁, h⟩ := h
        cases h
        rw [copyRecords_tables h₁, flatten_batches (by decide)]
        refine updateAt_congr fun t hm hk ↦ ?_
        have hname : t.name = name := (Prod.mk.inj hk).2
        rw [Pg.columns_eq hm hk] at hshared ⊢
        simp only [Table.filled, hname, hsrc, hshared, ↓reduceIte]

omit [Interp] in
theorem length_foldl_insert (rs : List Record) (t : Table) :
    (rs.foldl Table.insert t).rows.length = t.rows.length + rs.length := by
  induction rs generalizing t with
  | nil => rfl
  | cons r rs ih =>
    rw [List.foldl_cons, ih, List.length_cons]
    simp only [Table.insert, List.length_append, List.length_cons, List.length_nil]
    omega

omit [Interp] in
theorem frame_foldl_insert (rs : List Record) (t : Table) :
    (rs.foldl Table.insert t).columns = t.columns ∧ (rs.foldl Table.insert t).serialId = t.serialId := by
  induction rs generalizing t with
  | nil => exact ⟨rfl, rfl⟩
  | cons r rs ih => exact ih (t.insert r)

def Count.Balanced (c : Count) : Prop := c.sqliteRows = c.postgresRows

theorem copyTable_counts {counts counts' : List Count} (h : copyTable source (pg, counts) name = .ok (pg', counts'))
    (hempty : ∀ t ∈ pg.tables, t.key = inPublic name → t.columns ≠ [] → t.rows = []) (hc : ∀ c ∈ counts, c.Balanced) :
    ∀ c ∈ counts', c.Balanced := by
  have htables := copyTable_tables h
  unfold copyTable at h
  split at h
  · cases h
    exact hc
  · rename_i src hsrc
    split at h
    · cases h
    · rename_i hcols
      dsimp only at h
      split at h
      · cases h
        exact hc
      · rename_i hshared
        rw [bind_eq_ok] at h
        obtain ⟨pg₁, -, h⟩ := h
        cases h
        refine List.forall_mem_append.mpr ⟨hc, fun c hm ↦ ?_⟩
        obtain rfl := List.mem_singleton.mp hm
        obtain ⟨t, ht⟩ : ∃ t, pg.table name = some t := by
          cases ht : pg.table name with
          | none => exact absurd (by rw [Pg.columns, ht]; rfl) hcols
          | some t => exact ⟨t, rfl⟩
        obtain ⟨hm, hk⟩ := Pg.table_eq_some.mp ht
        have hname : t.name = name := (Prod.mk.inj hk).2
        have ht' : pg'.table name = some (t.filled source) := by
          refine Pg.table_eq_some.mpr ⟨?_, (Table.key_filled t).trans hk⟩
          rw [htables]
          exact List.mem_map.mpr ⟨t, hm, if_pos hk⟩
        rw [Pg.columns_eq hm hk] at hshared hcols
        simp only [Count.Balanced, ht', Option.map_some, Option.getD_some, Table.filled, hname, hsrc, hshared, ↓reduceIte,
          length_foldl_insert, hempty t hm hk hcols, List.length_nil, List.length_map, Nat.zero_add]

theorem copyAll_counts {names : List Text} (hn : names.Nodup) {s s' : Pg × List Count}
    (h : names.foldlM (copyTable source) s = .ok s')
    (hempty : ∀ t ∈ s.1.tables, t.key ∈ names.map inPublic → t.columns ≠ [] → t.rows = []) (hc : ∀ c ∈ s.2, c.Balanced) :
    ∀ c ∈ s'.2, c.Balanced := by
  induction names generalizing s with
  | nil =>
    cases h
    exact hc
  | cons name names ih =>
    obtain ⟨hnot, hn⟩ := List.nodup_cons.mp hn
    rw [List.foldlM_cons, bind_eq_ok] at h
    obtain ⟨s₁, h₁, h⟩ := h
    refine ih hn h ?_ (copyTable_counts h₁ (fun t ht hk ↦ hempty t ht (by rw [hk]; exact .head _)) hc)
    rw [copyTable_tables h₁]
    intro t' ht' hk
    obtain ⟨t, ht, rfl⟩ := List.mem_map.mp ht'
    by_cases hkey : t.key = inPublic name
    · rw [if_pos hkey, Table.key_filled, hkey, List.mem_map_of_injective inPublic_injective] at hk
      exact absurd hk hnot
    · rw [if_neg hkey] at hk ⊢
      exact hempty t ht (.tail _ hk)

end Copies

section Sequences

variable {pg pg' : Pg} {name : Text}

/-- A table with its sequence set past its ids. -/
def Table.reset (t : Table) : Table := if t.serialId = false then t else { t with nextId := t.maxId + 1 }

theorem Table.key_reset (t : Table) : t.reset.key = t.key := by
  unfold Table.reset
  split <;> rfl

theorem Table.rows_reset (t : Table) : t.reset.rows = t.rows := by
  unfold Table.reset
  split <;> rfl

theorem resetSequence_tables (h : resetSequence pg name = .ok pg') :
    pg'.tables = updateAt Table.key (inPublic name) Table.reset pg.tables := by
  unfold resetSequence at h
  split at h
  · cases h
  · rename_i t ht
    obtain ⟨hm, hk⟩ := Pg.table_eq_some.mp ht
    have honly : ∀ t' ∈ pg.tables, t'.key = inPublic name → t' = t := fun t' hm' hk' ↦
      List.inj_on_of_nodup_map pg.keys hm' hm (hk'.trans hk.symm)
    split at h
    · cases h
    · split at h
      · rename_i hserial
        cases h
        have hsame : ∀ t' ∈ pg.tables, t'.key = inPublic name → t'.reset = t' := by
          intro t' hm' hk'
          rw [honly t' hm' hk']
          exact if_pos hserial
        rw [updateAt_congr (g := fun t ↦ t) hsame, updateAt_id]
      · split at h
        · cases h
        · rename_i hserial _
          cases h
          refine updateAt_congr fun t' hm' hk' ↦ ?_
          rw [honly t' hm' hk', Table.reset, if_neg hserial]

end Sequences

section Truncation

variable {pg : Pg} {t : Table}

/-- The tables of `TABLE_ORDER` that the target has. -/
def Pg.existing (pg : Pg) : List Text := tableOrder.filter fun table ↦ pg.columns table ≠ []

def Table.cut (pg : Pg) (t : Table) : Table := if t.key ∈ pg.cascade pg.existing then t.truncated else t

theorem Table.key_cut (t : Table) : (t.cut pg).key = t.key := by
  unfold Table.cut
  split <;> rfl

theorem Table.columns_cut (t : Table) : (t.cut pg).columns = t.columns := by
  unfold Table.cut
  split <;> rfl

theorem subset_iterate_referring (cut : List (Text × Text)) (n : ℕ) : cut ⊆ pg.referring^[n] cut := by
  induction n with
  | zero => exact List.Subset.refl _
  | succ n ih =>
    rw [Function.iterate_succ_apply']
    exact List.Subset.trans ih (List.subset_append_left _ _)

theorem cascade_nil : pg.cascade [] = [] := by
  have hfixed : pg.referring [] = [] := by simp [Pg.referring]
  exact Function.iterate_fixed hfixed _

theorem tables_cut :
    (if pg.existing = [] then pg else pg.truncate pg.existing).tables = pg.tables.map (Table.cut pg) := by
  split
  · rename_i he
    have hsame : Table.cut pg = id := by
      funext t
      rw [Table.cut, he, cascade_nil]
      exact if_neg List.not_mem_nil
    rw [hsame, List.map_id]
  · rfl

/-- A table that is truncated by name and then copied into. -/
def Table.Listed (t : Table) : Prop := t.key ∈ tableOrder.map inPublic ∧ t.columns ≠ []

theorem Table.Listed.cut (h : t.Listed) (hm : t ∈ pg.tables) : t.cut pg = t.truncated := by
  obtain ⟨hk, hcols⟩ := h
  obtain ⟨name, hname, hk⟩ := List.mem_map.mp hk
  refine if_pos (subset_iterate_referring _ _ (List.mem_map.mpr ⟨name, List.mem_filter.mpr ⟨hname, ?_⟩, hk⟩))
  rw [Pg.columns_eq hm hk.symm]
  simpa using hcols

end Truncation

section Shared

variable [Interp]

theorem intersect_lower {sqliteCols pgCols : List Text} {p : Text × Text} (h : p ∈ intersectColumns sqliteCols pgCols) :
    lower p.2 = lower p.1 := by
  obtain ⟨col, -, hp⟩ := List.mem_filterMap.mp h
  split at hp
  · rename_i pgCol hf
    split at hp
    · cases hp
    · cases hp
      simpa using List.find?_some hf
  · cases hp

theorem intersect_sublist (sqliteCols pgCols : List Text) :
    ((intersectColumns sqliteCols pgCols).map Prod.fst).Sublist sqliteCols := by
  induction sqliteCols with
  | nil => exact List.Sublist.refl _
  | cons col cols ih =>
    rw [intersectColumns, List.filterMap_cons]
    split
    · exact ih.trans (List.sublist_cons_self _ _)
    · rename_i p hp
      have hcol : p.1 = col := by
        split at hp
        · split at hp
          · cases hp
          · cases hp
            rfl
        · cases hp
      rw [List.map_cons, hcol]
      exact ih.cons_cons col

/-- No two columns of SQLite are copied into one column. -/
theorem intersect_nodup {sqliteCols pgCols : List Text} (h : (sqliteCols.map lower).Nodup) :
    ((intersectColumns sqliteCols pgCols).map Prod.snd).Nodup := by
  have hfirst : (((intersectColumns sqliteCols pgCols).map Prod.fst).map lower).Nodup :=
    h.sublist ((intersect_sublist sqliteCols pgCols).map lower)
  refine List.Nodup.of_map lower ?_
  rw [List.map_map] at hfirst ⊢
  have hsame : (intersectColumns sqliteCols pgCols).map (lower ∘ Prod.snd) =
      (intersectColumns sqliteCols pgCols).map (lower ∘ Prod.fst) :=
    List.map_congr_left fun p hp ↦ intersect_lower hp
  rwa [hsame]

end Shared

section Rows

variable [Server] {shared : List (Text × Text)} {t : Table} {row : Row} {p : Text × Text}

omit [Server] in
theorem lookup_record (h : (shared.map Prod.snd).Nodup) (hp : p ∈ shared) :
    (record shared row).lookup p.2 = some (row p.1) := by
  induction shared with
  | nil => cases hp
  | cons q shared ih =>
    rw [List.map_cons, List.nodup_cons] at h
    rw [record, List.map_cons]
    rcases List.mem_cons.mp hp with rfl | hp
    · rw [List.lookup_cons_self]
    · have hne : p.2 ≠ q.2 := fun he ↦ h.1 (he ▸ List.mem_map_of_mem hp)
      rw [List.lookup_cons, beq_false_of_ne hne]
      exact ih h.2 hp

/-- What the shared columns of the target show of rows that are copied into it. -/
theorem rows_foldl_insert (h : (shared.map Prod.snd).Nodup) (rows : List Row) (t : Table) :
    ((rows.map (record shared)).foldl Table.insert t).rows.map (fun r ↦ shared.map fun p ↦ r p.2) =
      t.rows.map (fun r ↦ shared.map fun p ↦ r p.2) ++ rows.map fun r ↦ shared.map fun p ↦ r p.1 := by
  induction rows generalizing t with
  | nil => simp
  | cons row rows ih =>
    have hrow : ∀ p ∈ shared, (record shared row).lookup p.2 = some (row p.1) := fun p hp ↦ lookup_record h hp
    rw [List.map_cons, List.foldl_cons, ih, List.map_cons, List.append_cons]
    refine congrArg (· ++ _) ?_
    simp only [Table.insert, List.map_append, List.map_cons, List.map_nil]
    refine congrArg (fun r ↦ _ ++ [r]) (List.map_congr_left fun p hp ↦ ?_)
    rw [hrow p hp]

def idOf (row : Row) : Option ℤ :=
  match row "id".toList with
  | .int n => some n
  | _ => none

omit [Server] in
theorem ids_eq (t : Table) : t.ids = t.rows.filterMap idOf := rfl

/-- Where the ids are copied, a table keeps its sequence and gets the ids of the rows. -/
theorem ids_foldl_insert (h : (shared.map Prod.snd).Nodup) {c : Text} (hc : (c, "id".toList) ∈ shared) (rows : List Row)
    (t : Table) : ((rows.map (record shared)).foldl Table.insert t).nextId = t.nextId ∧
      ∀ n, n ∈ ((rows.map (record shared)).foldl Table.insert t).ids ↔ n ∈ t.ids ∨ ∃ row ∈ rows, row c = .int n := by
  induction rows generalizing t with
  | nil => simp
  | cons row rows ih =>
    obtain ⟨hnext, hids⟩ := ih (t.insert (record shared row))
    have hlookup : (record shared row).lookup "id".toList = some (row c) := lookup_record h hc
    have hkeep : (t.insert (record shared row)).nextId = t.nextId := by
      simp only [Table.insert, hlookup, reduceCtorEq, and_false, ↓reduceIte]
    have hnew : ∀ n, n ∈ (t.insert (record shared row)).ids ↔ n ∈ t.ids ∨ row c = .int n := by
      intro n
      simp only [ids_eq, Table.insert, List.filterMap_append, List.mem_append, List.mem_filterMap, List.mem_singleton,
        exists_eq_left, idOf, hlookup]
      refine or_congr Iff.rfl ?_
      split
      · rename_i m hm
        simp [hm]
      · rename_i hne
        simp only [reduceCtorEq, false_iff]
        exact hne n
    rw [List.map_cons, List.foldl_cons, hnext, hkeep]
    refine ⟨rfl, fun n ↦ ?_⟩
    rw [hids n, hnew n, List.exists_mem_cons_iff, or_assoc]

end Rows

section Outcomes

variable [Interp] {source : Sqlite} {src : SqliteTable} {pg pg' : Pg} {t : Table}

/-- The rows of the two tables are the same on the columns that they share. -/
def SameRows (src : SqliteTable) (t : Table) : Prop :=
  (t.rows.map fun row ↦ (intersectColumns src.columns t.columns).map fun p ↦ row p.2).Perm
    (src.rows.map fun row ↦ (intersectColumns src.columns t.columns).map fun p ↦ row p.1)

/-- Nothing is lost: a table of both databases has the rows of the source, and ids that are copied are below the next. -/
structure Lossless (source : Sqlite) (pg : Pg) : Prop where
  rows : ∀ t ∈ pg.tables, ∀ src ∈ source.tables, src.name = t.name → SameRows src t
  ids : ∀ t ∈ pg.tables, ∀ src ∈ source.tables, src.name = t.name → t.Listed → t.serialId = true →
    ∀ c, (c, "id".toList) ∈ intersectColumns src.columns t.columns → ∀ n ∈ t.ids, n < t.nextId

/-- What the three lists of tables have to be like for a source and a target: a table that is not copied has the rows of
the source anyway, one without shared columns has none to copy, and one whose sequence is not set has no ids from 1 on. -/
structure Covered (source : Sqlite) (pg : Pg) : Prop where
  left : ∀ t ∈ pg.tables, ∀ src ∈ source.tables, src.name = t.name → ¬t.Listed → SameRows src (t.cut pg)
  skipped : ∀ t ∈ pg.tables, ∀ src ∈ source.tables, src.name = t.name → t.Listed →
    intersectColumns src.columns t.columns = [] → src.rows = []
  ids : ∀ t ∈ pg.tables, ∀ src ∈ source.tables, src.name = t.name → t.Listed → t.serialId = true →
    t.key ∉ serialIdTables.map inPublic → ∀ c, (c, "id".toList) ∈ intersectColumns src.columns t.columns →
      ∀ row ∈ src.rows, ∀ n, row c = .int n → n < 1

theorem Sqlite.table_eq_some {name : Text} : source.table name = some src ↔ src ∈ source.tables ∧ src.name = name :=
  UniqueIndex.find?_eq_some source.names

variable [Server]

/-- What a transaction that goes through makes of a table. -/
def Table.final (source : Sqlite) (pg : Pg) (t : Table) : Table :=
  let copied := if t.key ∈ tableOrder.map inPublic then (t.cut pg).filled source else t.cut pg
  if t.key ∈ serialIdTables.map inPublic then copied.reset else copied

theorem transaction_eq_ok {counts : List Count} : transaction source pg = .ok (pg', counts) ↔
    ∃ copied, tableOrder.foldlM (copyTable source) (if pg.existing = [] then pg else pg.truncate pg.existing, []) =
        .ok (copied, counts) ∧
      serialIdTables.foldlM resetSequence copied = .ok pg' := by
  unfold transaction
  simp only [bind_eq_ok, pure_eq_ok, Except.ok.injEq, Prod.mk.injEq]
  constructor
  · rintro ⟨⟨copied, counts'⟩, hcopy, reset, hreset, rfl, rfl⟩
    exact ⟨copied, hcopy, hreset⟩
  · rintro ⟨copied, hcopy, hreset⟩
    exact ⟨(copied, counts), hcopy, pg', hreset, rfl, rfl⟩

theorem transaction_ok {counts : List Count} (h : transaction source pg = .ok (pg', counts)) :
    pg'.tables = pg.tables.map (Table.final source pg) ∧ ∀ c ∈ counts, c.Balanced := by
  obtain ⟨copied, hcopy, hreset⟩ := transaction_eq_ok.mp h
  have htables := @foldlM_updateAt _ (fun s ↦ s.1.tables) _ _ Table.key_filled
    (fun _ _ _ h ↦ copyTable_tables h) _ tableOrder_nodup _ _ hcopy
  have hsequences := @foldlM_updateAt _ Pg.tables _ _ Table.key_reset (fun _ _ _ h ↦ resetSequence_tables h) _
    serialIdTables_nodup _ _ hreset
  have hcut : (if pg.existing = [] then pg else pg.truncate pg.existing).tables = pg.tables.map (Table.cut pg) :=
    tables_cut
  constructor
  · rw [hsequences, htables]
    dsimp only
    rw [hcut, List.map_map, List.map_map]
    refine List.map_congr_left fun t _ ↦ ?_
    simp only [Function.comp_apply, Table.final, Table.key_cut]
    by_cases hk : t.key ∈ tableOrder.map inPublic
    · rw [if_pos hk, Table.key_filled, Table.key_cut]
    · rw [if_neg hk, Table.key_cut]
  · refine copyAll_counts tableOrder_nodup hcopy ?_ nofun
    dsimp only
    rw [hcut]
    intro t' ht' hk hcols
    obtain ⟨t, ht, rfl⟩ := List.mem_map.mp ht'
    rw [Table.key_cut] at hk
    rw [Table.columns_cut] at hcols
    rw [Table.Listed.cut ⟨hk, hcols⟩ ht]
    rfl

theorem final_frame (t : Table) : (t.final source pg).key = t.key ∧ (t.final source pg).columns = t.columns ∧
    (t.final source pg).serialId = t.serialId := by
  have hcopied : ∀ u : Table, (u.filled source).columns = u.columns ∧ (u.filled source).serialId = u.serialId := by
    intro u
    unfold Table.filled
    split
    · exact ⟨rfl, rfl⟩
    · split
      · exact ⟨rfl, rfl⟩
      · exact frame_foldl_insert _ u
  have hreset : ∀ u : Table, u.reset.columns = u.columns ∧ u.reset.serialId = u.serialId := by
    intro u
    unfold Table.reset
    split <;> exact ⟨rfl, rfl⟩
  have hcut : (t.cut pg).serialId = t.serialId := by
    unfold Table.cut
    split <;> rfl
  unfold Table.final
  dsimp only
  split <;> split <;> simp [Table.key_reset, Table.key_filled, Table.key_cut, hcopied, hreset, Table.columns_cut, hcut]

theorem rows_final (hs : src ∈ source.tables) (hn : src.name = t.name) : (t.final source pg).rows =
    if t.key ∈ tableOrder.map inPublic ∧ intersectColumns src.columns t.columns ≠ [] then
      ((src.rows.map (record (intersectColumns src.columns t.columns))).foldl Table.insert (t.cut pg)).rows
    else (t.cut pg).rows := by
  have hname : (t.cut pg).name = t.name := (Prod.mk.inj (Table.key_cut t)).2
  have htable : source.table (t.cut pg).name = some src := Sqlite.table_eq_some.mpr ⟨hs, hn.trans hname.symm⟩
  have hrows : (t.final source pg).rows =
      (if t.key ∈ tableOrder.map inPublic then (t.cut pg).filled source else t.cut pg).rows := by
    unfold Table.final
    dsimp only
    split
    · exact Table.rows_reset _
    · rfl
  rw [hrows]
  by_cases hk : t.key ∈ tableOrder.map inPublic
  · simp only [hk, ↓reduceIte, true_and, Table.filled, htable, Table.columns_cut, ite_not]
    split <;> rfl
  · simp only [hk, ↓reduceIte, false_and]

theorem sameRows_final_iff (ht : t ∈ pg.tables) (hs : src ∈ source.tables) (hn : src.name = t.name) :
    SameRows src (t.final source pg) ↔
      (t.Listed → intersectColumns src.columns t.columns = [] → src.rows = []) ∧ (¬t.Listed → SameRows src (t.cut pg)) := by
  rw [SameRows, (final_frame t).2.1, rows_final hs hn]
  by_cases hl : t.Listed
  · rw [hl.cut ht]
    by_cases hshared : intersectColumns src.columns t.columns = []
    · simp [hl, hshared, Table.truncated]
    · have hnodup : ((intersectColumns src.columns t.columns).map Prod.snd).Nodup := intersect_nodup (source.columns src hs)
      rw [if_pos ⟨hl.1, hshared⟩, rows_foldl_insert hnodup]
      simp [hl, hshared, Table.truncated]
  · have hskip : ¬(t.key ∈ tableOrder.map inPublic ∧ intersectColumns src.columns t.columns ≠ []) := by
      intro ⟨hk, hshared⟩
      have hcols : t.columns = [] := by
        by_contra hcols
        exact hl ⟨hk, hcols⟩
      exact hshared (by simp [hcols, intersectColumns])
    rw [if_neg hskip, SameRows, Table.columns_cut]
    simp [hl]

omit [Interp] [Server] in
theorem Table.le_maxId {n : ℤ} (h : n ∈ t.ids) : n ≤ t.maxId := by
  rw [Table.maxId]
  cases hm : t.ids.max? with
  | none => exact absurd h (by simp [List.max?_eq_none_iff.mp hm])
  | some m => exact (List.max?_eq_some_iff.mp hm).2 n h

theorem ids_final_iff (ht : t ∈ pg.tables) (hs : src ∈ source.tables) (hn : src.name = t.name) (hl : t.Listed)
    (hserial : t.serialId = true) {c : Text} (hc : (c, "id".toList) ∈ intersectColumns src.columns t.columns) :
    (∀ n ∈ (t.final source pg).ids, n < (t.final source pg).nextId) ↔
      (t.key ∉ serialIdTables.map inPublic → ∀ row ∈ src.rows, ∀ n, row c = .int n → n < 1) := by
  have hshared : intersectColumns src.columns t.columns ≠ [] := List.ne_nil_of_mem hc
  have htable : source.table t.name = some src := Sqlite.table_eq_some.mpr ⟨hs, hn⟩
  have hcopied : (t.cut pg).filled source =
      (src.rows.map (record (intersectColumns src.columns t.columns))).foldl Table.insert t.truncated := by
    rw [hl.cut ht, Table.filled]
    simp only [Table.truncated, htable, hshared, ↓reduceIte]
  obtain ⟨hnext, hids⟩ := ids_foldl_insert (intersect_nodup (source.columns src hs)) hc src.rows t.truncated
  unfold Table.final
  simp only [hl.1, ↓reduceIte, hcopied]
  split
  · rename_i hk
    refine iff_of_true (fun n hm ↦ ?_) fun hnot ↦ absurd hk hnot
    have hreset : ∀ u : Table, u.serialId = true → u.reset.ids = u.ids ∧ u.reset.nextId = u.maxId + 1 := by
      intro u hu
      simp [Table.reset, hu, Table.ids]
    have hserial : ((src.rows.map (record (intersectColumns src.columns t.columns))).foldl Table.insert
        t.truncated).serialId = true := (frame_foldl_insert _ _).2.trans hserial
    obtain ⟨hsame, hmax⟩ := hreset _ hserial
    rw [hsame] at hm
    rw [hmax]
    exact Int.lt_add_one_of_le (Table.le_maxId hm)
  · rename_i hk
    rw [hnext]
    constructor
    · intro h _ row hrow n hrc
      exact h n ((hids n).mpr (.inr ⟨row, hrow, hrc⟩))
    · intro h n hm
      rcases (hids n).mp hm with hold | ⟨row, hrow, hrc⟩
      · exact absurd hold (by simp [Table.truncated, Table.ids])
      · exact h hk row hrow n hrc

theorem listed_final : (t.final source pg).Listed ↔ t.Listed := by
  obtain ⟨hkey, hcols, -⟩ := @final_frame _ source pg _ t
  rw [Table.Listed, hkey, hcols, Table.Listed]

/-- A transaction that goes through loses nothing exactly where the three lists cover the two databases. -/
theorem lossless_iff {counts : List Count} (h : transaction source pg = .ok (pg', counts)) :
    Lossless source pg' ↔ Covered source pg := by
  have htables := (transaction_ok h).1
  have hname : ∀ t : Table, (t.final source pg).name = t.name := fun t ↦ (Prod.mk.inj (final_frame t).1).2
  have hrows : (∀ t ∈ pg'.tables, ∀ src ∈ source.tables, src.name = t.name → SameRows src t) ↔
      ∀ t ∈ pg.tables, ∀ src ∈ source.tables, src.name = t.name →
        (t.Listed → intersectColumns src.columns t.columns = [] → src.rows = []) ∧ (¬t.Listed → SameRows src (t.cut pg)) := by
    rw [htables, List.forall_mem_map]
    refine forall₂_congr fun t ht ↦ forall₂_congr fun src hs ↦ ?_
    rw [hname]
    exact forall_congr' fun hn ↦ sameRows_final_iff ht hs hn
  have hids : (∀ t ∈ pg'.tables, ∀ src ∈ source.tables, src.name = t.name → t.Listed → t.serialId = true →
      ∀ c, (c, "id".toList) ∈ intersectColumns src.columns t.columns → ∀ n ∈ t.ids, n < t.nextId) ↔
      ∀ t ∈ pg.tables, ∀ src ∈ source.tables, src.name = t.name → t.Listed → t.serialId = true →
        ∀ c, (c, "id".toList) ∈ intersectColumns src.columns t.columns →
          (t.key ∉ serialIdTables.map inPublic → ∀ row ∈ src.rows, ∀ n, row c = .int n → n < 1) := by
    rw [htables, List.forall_mem_map]
    refine forall₂_congr fun t ht ↦ forall₂_congr fun src hs ↦ ?_
    obtain ⟨-, hcols, hserial⟩ := @final_frame _ source pg _ t
    rw [hname, listed_final, hcols, hserial]
    exact forall₃_congr fun hn hl hser ↦ forall₂_congr fun c hc ↦ ids_final_iff ht hs hn hl hser hc
  constructor
  · intro hl
    have hr := hrows.mp hl.rows
    have hi := hids.mp hl.ids
    exact ⟨fun t ht src hs hn ↦ (hr t ht src hs hn).2, fun t ht src hs hn ↦ (hr t ht src hs hn).1,
      fun t ht src hs hn hlisted hser hk c hc ↦ hi t ht src hs hn hlisted hser c hc hk⟩
  · intro hc
    refine ⟨hrows.mpr fun t ht src hs hn ↦ ⟨hc.skipped t ht src hs hn, hc.left t ht src hs hn⟩, hids.mpr ?_⟩
    intro t ht src hs hn hlisted hser c hid hk
    exact hc.ids t ht src hs hn hlisted hser hk c hid

def Unchanged (before after : Pg) : Prop :=
  ∀ t ∈ before.tables, ∃ t' ∈ after.tables, t'.name = t.name ∧ t'.rows = t.rows

/-- A migration that ends with status done and without a mismatch loses nothing, one that ends with status error changes
nothing. -/
structure Safe (source : Sqlite) (pg : Pg) : Prop where
  done : (runMigration source pg).status = .done → (runMigration source pg).mismatches = [] →
    Lossless source (runMigration source pg).target
  error : (runMigration source pg).status = .error → Unchanged pg (runMigration source pg).target

omit [Interp] [Server] in
theorem mismatches_eq_nil {o : Outcome} (h : ∀ c ∈ o.counts, c.Balanced) : o.mismatches = [] := by
  rw [Outcome.mismatches, List.map_eq_nil_iff, List.filter_eq_nil_iff]
  intro c hc
  have he : c.sqliteRows = c.postgresRows := h c hc
  simpa using he

theorem runMigration_ok {copied : Pg} {counts : List Count} (hu : (upgrade pg).2 = true)
    (ht : transaction source (upgrade pg).1 = .ok (copied, counts)) : runMigration source pg = ⟨.done, counts, copied⟩ := by
  have hpair : upgrade pg = ((upgrade pg).1, true) := Prod.ext rfl hu
  rw [runMigration, hpair]
  simp only [ht]

/-- A run that ends with status error leaves the target as the upgrade left it. -/
theorem runMigration_cases (source : Sqlite) (pg : Pg) :
    (∃ counts copied, transaction source (upgrade pg).1 = .ok (copied, counts) ∧
      runMigration source pg = ⟨.done, counts, copied⟩) ∨ runMigration source pg = ⟨.error, [], (upgrade pg).1⟩ := by
  cases hu : (upgrade pg).2 with
  | false =>
    have hpair : upgrade pg = ((upgrade pg).1, false) := Prod.ext rfl hu
    refine .inr ?_
    rw [runMigration, hpair]
  | true =>
    have hpair : upgrade pg = ((upgrade pg).1, true) := Prod.ext rfl hu
    cases ht : transaction source (upgrade pg).1 with
    | error fault =>
      refine .inr ?_
      rw [runMigration, hpair]
      simp only [ht]
    | ok r => exact .inl ⟨r.2, r.1, rfl, runMigration_ok hu ht⟩

/-- A migration is safe exactly where its lists cover the two databases, if it goes through, and where the upgrade, which
is not part of the transaction, keeps the rows, if it does not. -/
theorem migration_safe_iff (source : Sqlite) (pg : Pg) : Safe source pg ↔
    ((runMigration source pg).status = .done → Covered source (upgrade pg).1) ∧
      ((runMigration source pg).status = .error → Unchanged pg (upgrade pg).1) := by
  rcases runMigration_cases source pg with ⟨counts, copied, ht, hrun⟩ | hrun
  · have hbalanced : (runMigration source pg).mismatches = [] := by
      rw [hrun]
      exact mismatches_eq_nil (transaction_ok ht).2
    constructor
    · intro hsafe
      refine ⟨fun hdone ↦ ?_, fun herror ↦ ?_⟩
      · have hlossless := hsafe.done hdone hbalanced
        rw [hrun] at hlossless
        exact (lossless_iff ht).mp hlossless
      · rw [hrun] at herror
        cases herror
    · intro ⟨hcovered, _⟩
      refine ⟨fun hdone _ ↦ ?_, fun herror ↦ ?_⟩
      · rw [hrun]
        exact (lossless_iff ht).mpr (hcovered hdone)
      · rw [hrun] at herror
        cases herror
  · constructor
    · intro hsafe
      refine ⟨fun hdone ↦ ?_, fun herror ↦ ?_⟩
      · rw [hrun] at hdone
        cases hdone
      · have hunchanged := hsafe.error herror
        rwa [hrun] at hunchanged
    · intro ⟨_, hkept⟩
      refine ⟨fun hdone ↦ ?_, fun herror ↦ ?_⟩
      · rw [hrun] at hdone
        cases hdone
      · rw [hrun]
        exact hkept herror

end Outcomes

end Briefr.Migration
