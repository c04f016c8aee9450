import Mathlib.Data.List.Nodup
import Mathlib.Data.List.Infix

namespace Briefr.Library.UniqueIndex

variable {α κ : Type} [DecidableEq κ] (key : α → κ)

/-- `INSERT … ON CONFLICT DO NOTHING` on a unique index. -/
def insertIgnore (rows : List α) (row : α) : List α := if key row ∈ rows.map key then rows else rows ++ [row]

/-- `INSERT … ON CONFLICT DO UPDATE` of all columns. -/
def upsert (rows : List α) (row : α) : List α :=
  if key row ∈ rows.map key then rows.map fun r ↦ if key r = key row then row else r else rows ++ [row]

def insertAllIgnore (rows l : List α) : List α := l.foldl (insertIgnore key) rows

variable {key} {rows l : List α} {row : α}

theorem insertIgnore_of_mem (h : key row ∈ rows.map key) : insertIgnore key rows row = rows := if_pos h

theorem insertIgnore_of_not_mem (h : key row ∉ rows.map key) : insertIgnore key rows row = rows ++ [row] := if_neg h

theorem mem_keys_insertIgnore {k : κ} : k ∈ (insertIgnore key rows row).map key ↔ k ∈ rows.map key ∨ k = key row := by
  by_cases h : key row ∈ rows.map key
  · rw [insertIgnore_of_mem h]
    constructor
    · exact .inl
    · intro hk
      rcases hk with hk | rfl
      · exact hk
      · exact h
  · rw [insertIgnore_of_not_mem h, List.map_append, List.mem_append, List.map_singleton, List.mem_singleton]

theorem nodup_insertIgnore (h : (rows.map key).Nodup) : ((insertIgnore key rows row).map key).Nodup := by
  by_cases hk : key row ∈ rows.map key
  · rwa [insertIgnore_of_mem hk]
  · rw [insertIgnore_of_not_mem hk, List.map_append]
    exact h.append (List.nodup_singleton _) (List.disjoint_singleton.mpr hk)

theorem mem_insertIgnore {r : α} (h : r ∈ insertIgnore key rows row) : r ∈ rows ∨ r = row := by
  by_cases hk : key row ∈ rows.map key
  · rw [insertIgnore_of_mem hk] at h
    exact .inl h
  · rw [insertIgnore_of_not_mem hk] at h
    exact (List.mem_append.mp h).imp_right List.mem_singleton.mp

theorem subset_insertIgnore : rows ⊆ insertIgnore key rows row := by
  intro r hr
  unfold insertIgnore
  split
  · exact hr
  · exact List.mem_append_left _ hr

theorem mem_keys_insertAllIgnore {k : κ} :
    k ∈ (insertAllIgnore key rows l).map key ↔ k ∈ rows.map key ∨ k ∈ l.map key := by
  induction l generalizing rows with
  | nil => simp [insertAllIgnore]
  | cons row l ih =>
    have hnext : k ∈ (insertAllIgnore key rows (row :: l)).map key ↔
        k ∈ (insertIgnore key rows row).map key ∨ k ∈ l.map key := ih
    rw [hnext, mem_keys_insertIgnore, or_assoc, List.map_cons, List.mem_cons]

theorem nodup_insertAllIgnore (h : (rows.map key).Nodup) : ((insertAllIgnore key rows l).map key).Nodup := by
  induction l generalizing rows with
  | nil => exact h
  | cons row l ih => exact ih (nodup_insertIgnore h)

theorem mem_insertAllIgnore {r : α} (h : r ∈ insertAllIgnore key rows l) : r ∈ rows ∨ r ∈ l := by
  induction l generalizing rows with
  | nil => exact .inl h
  | cons row l ih =>
    rcases ih h with hr | hr
    · rcases mem_insertIgnore hr with hr | rfl
      · exact .inl hr
      · exact .inr (.head _)
    · exact .inr (.tail _ hr)

/-- A key that is there names one row. -/
theorem length_filter_eq_one (h : (rows.map key).Nodup) {k : κ} (hk : k ∈ rows.map key) :
    (rows.filter fun r ↦ key r = k).length = 1 := by
  induction rows with
  | nil => cases hk
  | cons r rows ih =>
    obtain ⟨hr, hnodup⟩ := List.nodup_cons.mp h
    rcases List.mem_cons.mp hk with rfl | hk
    · have hrest : (rows.filter fun r' ↦ key r' = key r) = [] :=
        List.filter_eq_nil_iff.mpr fun r' hr' he ↦ hr (List.mem_map.mpr ⟨r', hr', of_decide_eq_true he⟩)
      simp [hrest]
    · have hne : key r ≠ k := fun he ↦ hr (he ▸ hk)
      rw [List.filter_cons_of_neg (by simpa using hne)]
      exact ih hnodup hk

theorem upsert_of_mem (h : key row ∈ rows.map key) :
    upsert key rows row = rows.map fun r ↦ if key r = key row then row else r := if_pos h

theorem upsert_of_not_mem (h : key row ∉ rows.map key) : upsert key rows row = rows ++ [row] := if_neg h

theorem key_replace (row r : α) : key (if key r = key row then row else r) = key r := by
  split
  · rename_i h
    exact h.symm
  · rfl

theorem nodup_upsert (h : (rows.map key).Nodup) : ((upsert key rows row).map key).Nodup := by
  by_cases hk : key row ∈ rows.map key
  · have hsame : (rows.map fun r ↦ if key r = key row then row else r).map key = rows.map key := by
      rw [List.map_map]
      exact List.map_congr_left fun r _ ↦ key_replace row r
    rwa [upsert_of_mem hk, hsame]
  · rw [upsert_of_not_mem hk, List.map_append]
    exact h.append (List.nodup_singleton _) (List.disjoint_singleton.mpr hk)

theorem find?_eq_some (h : (rows.map key).Nodup) {k : κ} : rows.find? (fun r ↦ key r = k) = some row ↔ row ∈ rows ∧ key row = k := by
  constructor
  · intro hf
    exact ⟨List.mem_of_find?_eq_some hf, by simpa using List.find?_some hf⟩
  · intro ⟨hm, hk⟩
    cases hf : rows.find? fun r ↦ key r = k with
    | none => exact absurd hk (by simpa using List.find?_eq_none.mp hf row hm)
    | some r =>
      have hr : key r = k := by simpa using List.find?_some hf
      exact congrArg some (List.inj_on_of_nodup_map h (List.mem_of_find?_eq_some hf) hm (hr.trans hk.symm))

theorem find?_upsert (k : κ) : (upsert key rows row).find? (fun r ↦ key r = k) =
    if key row = k then some row else rows.find? fun r ↦ key r = k := by
  by_cases hk : key row ∈ rows.map key
  · have hpred : (fun r ↦ decide (key r = k)) ∘ (fun r ↦ if key r = key row then row else r) =
        fun r ↦ decide (key r = k) := by
      funext r
      have hr : key (if key r = key row then row else r) = key r := key_replace row r
      rw [Function.comp_apply, hr]
    rw [upsert_of_mem hk, List.find?_map, hpred]
    by_cases he : key row = k
    · obtain ⟨r, hr, hrk⟩ := List.mem_map.mp hk
      cases hf : rows.find? fun r ↦ key r = k with
      | none => exact absurd (hrk.trans he) (by simpa using List.find?_eq_none.mp hf r hr)
      | some x =>
        have hx : key x = k := by simpa using List.find?_some hf
        rw [if_pos he, Option.map_some, if_pos (hx.trans he.symm)]
    · rw [if_neg he]
      cases hf : rows.find? fun r ↦ key r = k with
      | none => rfl
      | some x =>
        have hx : key x = k := by simpa using List.find?_some hf
        rw [Option.map_some, if_neg fun h ↦ he (h.symm.trans hx)]
  · rw [upsert_of_not_mem hk, List.find?_append]
    by_cases he : key row = k
    · have hnone : rows.find? (fun r ↦ key r = k) = none := by
        rw [List.find?_eq_none]
        intro r hr
        have hne : key r ≠ k := fun h ↦ hk (he ▸ h ▸ List.mem_map_of_mem hr)
        simpa using hne
      simp [hnone, he]
    · simp [he]

theorem sublist_upsert (rows : List α) (row : α) :
    (rows.filter fun r ↦ key r ≠ key row).Sublist (upsert key rows row) := by
  by_cases hk : key row ∈ rows.map key
  · rw [upsert_of_mem hk]
    clear hk
    induction rows with
    | nil => exact List.Sublist.refl _
    | cons r rows ih =>
      rw [List.map_cons]
      by_cases hr : key r = key row
      · rw [List.filter_cons_of_neg (by simpa using hr)]
        exact ih.cons _
      · rw [List.filter_cons_of_pos (by simpa using hr), if_neg hr]
        exact ih.cons_cons r
  · rw [upsert_of_not_mem hk]
    exact List.filter_sublist.trans (List.sublist_append_left _ _)

end Briefr.Library.UniqueIndex

namespace Briefr.Library.PrimaryKey

variable {α κ : Type} [DecidableEq κ] (key : α → κ)

/-- A row whose key is taken cannot be inserted. -/
def insert (rows : List α) (row : α) : Option (List α) := if key row ∈ rows.map key then none else some (rows ++ [row])

def insertAll (rows l : List α) : Option (List α) := l.foldlM (insert key) rows

variable {key}

theorem insertAll_eq_some {rows l rows' : List α} (h : (rows.map key).Nodup) :
    insertAll key rows l = some rows' ↔ ((rows ++ l).map key).Nodup ∧ rows' = rows ++ l := by
  induction l generalizing rows with
  | nil => simp [insertAll, h, eq_comm]
  | cons row l ih =>
    rw [insertAll, List.foldlM_cons, insert]
    by_cases hk : key row ∈ rows.map key
    · have hn : ¬((rows ++ row :: l).map key).Nodup := by
        rw [List.map_append, List.map_cons, List.nodup_append]
        intro hd
        exact hd.2.2 _ hk _ (.head _) rfl
      constructor
      · intro hs
        simp [hk] at hs
      · intro hs
        exact absurd hs.1 hn
    · have hrows : ((rows ++ [row]).map key).Nodup := by
        rw [List.map_append, List.map_cons, List.map_nil]
        exact h.append (List.nodup_singleton _) (by simpa using hk)
      have ih := ih hrows
      rw [insertAll] at ih
      rw [if_neg hk]
      simpa [List.append_assoc] using ih

end Briefr.Library.PrimaryKey
