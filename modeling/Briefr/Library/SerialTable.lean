import Mathlib.Data.List.Nodup

namespace Briefr.Library

/-- Rows with a serial primary key and a second unique key. -/
structure SerialTable (α κ : Type) (id : α → ℕ) (key : α → κ) where
  rows : List α
  nextId : ℕ
  ids : (rows.map id).Nodup
  keys : (rows.map key).Nodup
  fresh : ∀ row ∈ rows, id row < nextId

namespace SerialTable

variable {α κ : Type} {id : α → ℕ} {key : α → κ}

def empty : SerialTable α κ id key := ⟨[], 1, List.nodup_nil, List.nodup_nil, fun _ h ↦ nomatch h⟩

/-- A value of the sequence is used up and no row comes of it. -/
def skip (t : SerialTable α κ id key) : SerialTable α κ id key :=
  { t with nextId := t.nextId + 1, fresh := fun row h ↦ Nat.lt_succ_of_lt (t.fresh row h) }

def insert (t : SerialTable α κ id key) (row : α) (hid : id row = t.nextId) (hkey : key row ∉ t.rows.map key) :
    SerialTable α κ id key where
  rows := t.rows ++ [row]
  nextId := t.nextId + 1
  ids := by
    rw [List.map_append]
    refine t.ids.append (List.nodup_singleton _) ?_
    intro i hold hnew
    obtain ⟨old, hmem, rfl⟩ := List.mem_map.mp hold
    exact absurd ((List.mem_singleton.mp hnew).trans hid) (Nat.ne_of_lt (t.fresh old hmem))
  keys := by
    rw [List.map_append]
    refine t.keys.append (List.nodup_singleton _) ?_
    intro k hold hnew
    exact hkey (List.mem_singleton.mp hnew ▸ hold)
  fresh := by
    intro r hr
    rcases List.mem_append.mp hr with hr | hr
    · exact Nat.lt_succ_of_lt (t.fresh r hr)
    · rw [List.mem_singleton.mp hr, hid]
      exact Nat.lt_succ_self _

/-- An update that leaves both keys alone. -/
def update (t : SerialTable α κ id key) (f : α → α) (hid : ∀ row, id (f row) = id row)
    (hkey : ∀ row, key (f row) = key row) : SerialTable α κ id key where
  rows := t.rows.map f
  nextId := t.nextId
  ids := by
    rw [List.map_map, show id ∘ f = id from funext hid]
    exact t.ids
  keys := by
    rw [List.map_map, show key ∘ f = key from funext hkey]
    exact t.keys
  fresh := by
    intro r hr
    obtain ⟨old, hold, rfl⟩ := List.mem_map.mp hr
    rw [hid]
    exact t.fresh old hold

def delete (t : SerialTable α κ id key) (gone : α → Bool) : SerialTable α κ id key where
  rows := t.rows.filter fun row ↦ !gone row
  nextId := t.nextId
  ids := t.ids.sublist (List.filter_sublist.map id)
  keys := t.keys.sublist (List.filter_sublist.map key)
  fresh := fun row hr ↦ t.fresh row (List.mem_filter.mp hr).1

@[simp] theorem rows_skip (t : SerialTable α κ id key) : t.skip.rows = t.rows := rfl

@[simp] theorem rows_insert (t : SerialTable α κ id key) {row : α} (hid : id row = t.nextId)
    (hkey : key row ∉ t.rows.map key) : (t.insert row hid hkey).rows = t.rows ++ [row] := rfl

@[simp] theorem rows_update (t : SerialTable α κ id key) {f : α → α} (hid : ∀ row, id (f row) = id row)
    (hkey : ∀ row, key (f row) = key row) : (t.update f hid hkey).rows = t.rows.map f := rfl

@[simp] theorem rows_delete (t : SerialTable α κ id key) (gone : α → Bool) :
    (t.delete gone).rows = t.rows.filter fun row ↦ !gone row := rfl

theorem eq_of_id (t : SerialTable α κ id key) {a b : α} (ha : a ∈ t.rows) (hb : b ∈ t.rows) (h : id a = id b) : a = b :=
  List.inj_on_of_nodup_map t.ids ha hb h

theorem eq_of_key (t : SerialTable α κ id key) {a b : α} (ha : a ∈ t.rows) (hb : b ∈ t.rows) (h : key a = key b) :
    a = b := List.inj_on_of_nodup_map t.keys ha hb h

variable [DecidableEq κ]

def lookup (t : SerialTable α κ id key) (k : κ) : Option α := t.rows.find? fun row ↦ key row = k

theorem lookup_eq_some {t : SerialTable α κ id key} {k : κ} {row : α} :
    t.lookup k = some row ↔ row ∈ t.rows ∧ key row = k := by
  constructor
  · intro h
    exact ⟨List.mem_of_find?_eq_some h, by simpa using List.find?_some h⟩
  · intro ⟨hr, hk⟩
    cases h : t.lookup k with
    | none => exact absurd hk (by simpa using List.find?_eq_none.mp h row hr)
    | some row' =>
      have hk' : key row' = k := by simpa using List.find?_some h
      rw [t.eq_of_key (List.mem_of_find?_eq_some h) hr (hk'.trans hk.symm)]

theorem lookup_eq_none {t : SerialTable α κ id key} {k : κ} : t.lookup k = none ↔ k ∉ t.rows.map key := by
  rw [lookup, List.find?_eq_none]
  simp

theorem lookup_of_mem {t : SerialTable α κ id key} {row : α} (h : row ∈ t.rows) : t.lookup (key row) = some row :=
  lookup_eq_some.mpr ⟨h, rfl⟩

@[simp] theorem lookup_skip (t : SerialTable α κ id key) (k : κ) : t.skip.lookup k = t.lookup k := rfl

theorem lookup_insert (t : SerialTable α κ id key) {row : α} (hid : id row = t.nextId)
    (hkey : key row ∉ t.rows.map key) (k : κ) :
    (t.insert row hid hkey).lookup k = if k = key row then some row else t.lookup k := by
  by_cases hk : k = key row
  · rw [if_pos hk, lookup_eq_some]
    exact ⟨List.mem_append_right _ (List.mem_singleton_self row), hk.symm⟩
  · have hd : decide (key row = k) = false := decide_eq_false (Ne.symm hk)
    rw [if_neg hk, lookup, rows_insert, List.find?_append, List.find?_singleton, hd]
    exact Option.or_none

theorem lookup_update (t : SerialTable α κ id key) {f : α → α} (hid : ∀ row, id (f row) = id row)
    (hkey : ∀ row, key (f row) = key row) (k : κ) : (t.update f hid hkey).lookup k = (t.lookup k).map f := by
  rw [lookup, rows_update, List.find?_map, lookup]
  simp only [Function.comp_def, hkey]

theorem lookup_delete (t : SerialTable α κ id key) (gone : α → Bool) (k : κ) :
    (t.delete gone).lookup k = (t.lookup k).filter fun row ↦ !gone row := by
  refine Option.ext fun row ↦ ?_
  rw [lookup_eq_some, rows_delete, List.mem_filter, Option.filter_eq_some_iff, lookup_eq_some, and_right_comm]

end SerialTable

end Briefr.Library
