import Mathlib.Algebra.GroupWithZero.Nat
import Mathlib.Data.List.Basic
import Mathlib.Data.List.Nodup
import Mathlib.Data.List.Perm.Subperm

namespace Briefr.Library

/-- A dictionary that keeps its entries in the order in which the keys first came. -/
structure Dict (κ ν : Type) where
  items : List (κ × ν)
  nodup : (items.map Prod.fst).Nodup

namespace Dict

variable {κ ν : Type} [DecidableEq κ]

def empty : Dict κ ν := ⟨[], List.nodup_nil⟩

def get? (d : Dict κ ν) (k : κ) : Option ν := d.items.lookup k

def size (d : Dict κ ν) : ℕ := d.items.length

def setItem (k : κ) (v : ν) : List (κ × ν) → List (κ × ν)
  | [] => [(k, v)]
  | e :: l => if e.1 = k then (k, v) :: l else e :: setItem k v l

theorem keys_setItem (k : κ) (v : ν) (l : List (κ × ν)) :
    (setItem k v l).map Prod.fst = if k ∈ l.map Prod.fst then l.map Prod.fst else l.map Prod.fst ++ [k] := by
  induction l with
  | nil => rfl
  | cons e l ih =>
    rw [setItem]
    by_cases he : e.1 = k
    · simp [he]
    · have hk : k ≠ e.1 := fun h ↦ he h.symm
      simp only [he, if_false, List.map_cons, ih, List.mem_cons, hk, false_or, List.cons_append]
      split <;> rfl

theorem nodup_setItem (k : κ) (v : ν) {l : List (κ × ν)} (h : (l.map Prod.fst).Nodup) :
    ((setItem k v l).map Prod.fst).Nodup := by
  rw [keys_setItem]
  split
  · exact h
  · rename_i hk
    rw [List.nodup_append]
    refine ⟨h, List.nodup_singleton k, ?_⟩
    intro a ha b hb he
    exact hk (List.mem_singleton.mp hb ▸ he ▸ ha)

/-- An old key keeps its place. -/
def set (d : Dict κ ν) (k : κ) (v : ν) : Dict κ ν := ⟨setItem k v d.items, nodup_setItem k v d.nodup⟩

omit [DecidableEq κ] in
theorem nodup_sub {l m : List (κ × ν)} (h : (l.map Prod.fst).Nodup) (hm : m.Sublist l) : (m.map Prod.fst).Nodup :=
  h.sublist (hm.map Prod.fst)

def keep (p : κ → ν → Bool) (d : Dict κ ν) : Dict κ ν :=
  ⟨d.items.filter fun e ↦ p e.1 e.2, nodup_sub d.nodup List.filter_sublist⟩

@[simp] theorem get?_empty (k : κ) : (empty : Dict κ ν).get? k = none := rfl

theorem lookup_cons_of_ne {k j : κ} (h : k ≠ j) (w : ν) (l : List (κ × ν)) : ((j, w) :: l).lookup k = l.lookup k := by
  rw [List.lookup_cons, beq_false_of_ne h]

theorem lookup_setItem (k k' : κ) (v : ν) (l : List (κ × ν)) :
    (setItem k v l).lookup k' = if k' = k then some v else l.lookup k' := by
  induction l with
  | nil =>
    by_cases h : k' = k
    · simp [setItem, h]
    · simp [setItem, lookup_cons_of_ne h, h]
  | cons e l ih =>
    obtain ⟨j, w⟩ := e
    rw [setItem]
    by_cases hj : j = k
    · subst hj
      by_cases h : k' = j
      · simp [h]
      · simp [lookup_cons_of_ne h, h]
    · by_cases h : k' = j
      · subst h
        simp [hj]
      · simp [hj, lookup_cons_of_ne h, ih]

@[simp] theorem get?_set (d : Dict κ ν) (k k' : κ) (v : ν) :
    (d.set k v).get? k' = if k' = k then some v else d.get? k' := lookup_setItem k k' v d.items

theorem setItem_lookup {k : κ} {v : ν} {l : List (κ × ν)} (h : l.lookup k = some v) : setItem k v l = l := by
  induction l with
  | nil => cases h
  | cons e l ih =>
    obtain ⟨j, w⟩ := e
    rw [setItem]
    by_cases hj : j = k
    · subst hj
      rw [List.lookup_cons_self] at h
      rw [if_pos rfl, Option.some.inj h]
    · rw [if_neg hj, ih (lookup_cons_of_ne (Ne.symm hj) w l ▸ h)]

theorem set_get? {d : Dict κ ν} {k : κ} {v : ν} (h : d.get? k = some v) : d.set k v = d := by
  simp only [set, setItem_lookup h]

omit [DecidableEq κ] in
theorem keep_keep (d : Dict κ ν) (p q : κ → ν → Bool) : (d.keep p).keep q = d.keep fun k v ↦ p k v && q k v := by
  unfold keep
  simp only [List.filter_filter, Bool.and_comm]

omit [DecidableEq κ] in
theorem size_keep_le (d : Dict κ ν) (p : κ → ν → Bool) : (d.keep p).size ≤ d.size := List.length_filter_le _ _

theorem get?_keep (p : κ → ν → Bool) (d : Dict κ ν) (k : κ) : (d.keep p).get? k = (d.get? k).filter (p k) := by
  obtain ⟨l, hl⟩ := d
  simp only [get?, keep]
  induction l with
  | nil => rfl
  | cons e l ih =>
    obtain ⟨j, w⟩ := e
    have hl' : j ∉ l.map Prod.fst ∧ (l.map Prod.fst).Nodup := List.nodup_cons.mp hl
    have ih := ih hl'.2
    by_cases hk : k = j
    · subst hk
      have hn : (l.filter fun e ↦ p e.1 e.2).lookup k = none := by
        rw [List.lookup_eq_none_iff]
        intro e he
        have he : e ∈ l := (List.mem_filter.mp he).1
        simpa using fun h : k = e.1 ↦ hl'.1 (h ▸ List.mem_map_of_mem he)
      cases hp : p k w with
      | true => simp [hp, Option.filter]
      | false => simp [hp, hn, Option.filter]
    · rw [lookup_cons_of_ne hk, ← ih]
      cases hp : p j w with
      | true => simp [hp, lookup_cons_of_ne hk]
      | false => simp [hp]

def keys (d : Dict κ ν) : List κ := d.items.map Prod.fst

/-- `d.setdefault(k, []).append(v)`. -/
def append (d : Dict κ (List ν)) (k : κ) (v : ν) : Dict κ (List ν) := d.set k ((d.get? k).getD [] ++ [v])

def groups (l : List (κ × ν)) : Dict κ (List ν) := l.foldl (fun d e ↦ d.append e.1 e.2) empty

theorem mem_keys_set {d : Dict κ ν} {k k' : κ} {v : ν} : k' ∈ (d.set k v).keys ↔ k' = k ∨ k' ∈ d.keys := by
  have h := keys_setItem k v d.items
  rw [keys, set, h]
  split
  · rename_i hk
    exact ⟨.inr, fun h ↦ h.elim (fun h ↦ h ▸ hk) id⟩
  · rw [List.mem_append, List.mem_singleton]
    exact or_comm

omit [DecidableEq κ] in
theorem size_eq (d : Dict κ ν) : d.size = d.keys.length := (List.length_map Prod.fst).symm

theorem keys_set_of_mem {d : Dict κ ν} {k : κ} (h : k ∈ d.keys) (v : ν) : (d.set k v).keys = d.keys :=
  (keys_setItem k v d.items).trans (if_pos h)

theorem mem_keys_iff {d : Dict κ ν} {k : κ} : k ∈ d.keys ↔ (d.get? k).isSome := by
  rw [Option.isSome_iff_ne_none, get?, ne_eq, List.lookup_eq_none_iff, keys, List.mem_map]
  constructor
  · rintro ⟨e, he, rfl⟩ h
    exact bne_iff_ne.mp (h e he) rfl
  · intro h
    by_contra hn
    exact h fun e he ↦ bne_iff_ne.mpr fun hk ↦ hn ⟨e, he, hk.symm⟩

omit [DecidableEq κ] in
/-- A dictionary whose keys another one has is no larger. -/
theorem size_le_of_keys_subset {ω : Type} {d : Dict κ ν} {d' : Dict κ ω} (h : d.keys ⊆ d'.keys) : d.size ≤ d'.size := by
  rw [size_eq, size_eq]
  exact (List.subperm_of_subset d.nodup h).length_le

theorem mem_keys_groups {l : List (κ × ν)} {k : κ} : k ∈ (groups l).keys ↔ k ∈ l.map Prod.fst := by
  have h : ∀ d : Dict κ (List ν), k ∈ (l.foldl (fun d e ↦ d.append e.1 e.2) d).keys ↔ k ∈ l.map Prod.fst ∨ k ∈ d.keys := by
    induction l with
    | nil => simp
    | cons e l ih =>
      intro d
      rw [List.foldl_cons, ih, append, mem_keys_set, List.map_cons, List.mem_cons]
      tauto
  exact (h empty).trans (or_iff_left (List.not_mem_nil))

/-- A key's group holds its values in the order in which they came. -/
theorem get?_groups (l : List (κ × ν)) (k : κ) :
    ((groups l).get? k).getD [] = (l.filter fun e ↦ e.1 = k).map Prod.snd := by
  have h : ∀ d : Dict κ (List ν), ((l.foldl (fun d e ↦ d.append e.1 e.2) d).get? k).getD [] =
      (d.get? k).getD [] ++ (l.filter fun e ↦ e.1 = k).map Prod.snd := by
    induction l with
    | nil => simp
    | cons e l ih =>
      intro d
      rw [List.foldl_cons, ih, append, get?_set]
      by_cases hk : e.1 = k
      · rw [if_pos hk.symm, List.filter_cons_of_pos (by simpa using hk), hk]
        simp
      · rw [if_neg fun h ↦ hk h.symm, List.filter_cons_of_neg (by simpa using hk)]
  exact h empty

theorem mem_items_iff {d : Dict κ ν} {k : κ} {v : ν} : (k, v) ∈ d.items ↔ d.get? k = some v := by
  obtain ⟨l, hl⟩ := d
  rw [get?]
  induction l with
  | nil => simp
  | cons e l ih =>
    obtain ⟨j, w⟩ := e
    obtain ⟨hj, hl'⟩ : j ∉ l.map Prod.fst ∧ (l.map Prod.fst).Nodup := List.nodup_cons.mp hl
    by_cases hk : k = j
    · subst hk
      have hn : (k, v) ∉ l := fun h ↦ hj (List.mem_map_of_mem h)
      simp [hn, eq_comm]
    · rw [lookup_cons_of_ne hk, ← ih hl', List.mem_cons, Prod.mk.injEq]
      tauto

theorem mem_items_groups {l : List (κ × ν)} {e : κ × List ν} (h : e ∈ (groups l).items) :
    e.2 = (l.filter fun x ↦ x.1 = e.1).map Prod.snd := by
  rw [← get?_groups, mem_items_iff.mp h, Option.getD_some]

theorem mem_group_iff {l : List (κ × ν)} {e : κ × List ν} (he : e ∈ (groups l).items) {v : ν} :
    v ∈ e.2 ↔ (e.1, v) ∈ l := by
  rw [mem_items_groups he, List.mem_map]
  constructor
  · intro ⟨x, hx, hv⟩
    obtain ⟨hx, hk⟩ := List.mem_filter.mp hx
    rwa [← of_decide_eq_true hk, ← hv]
  · intro h
    exact ⟨(e.1, v), List.mem_filter.mpr ⟨h, by simp⟩, rfl⟩

theorem mem_groups_iff {l : List (κ × ν)} {k : κ} {v : ν} :
    (k, v) ∈ l ↔ ∃ e ∈ (groups l).items, e.1 = k ∧ v ∈ e.2 := by
  constructor
  · intro h
    have hk : k ∈ (groups l).keys := mem_keys_groups.mpr (List.mem_map_of_mem h)
    obtain ⟨e, he, rfl⟩ := List.mem_map.mp hk
    exact ⟨e, he, rfl, (mem_group_iff he).mpr h⟩
  · intro ⟨e, he, hk, hv⟩
    exact hk ▸ (mem_group_iff he).mp hv

theorem ne_nil_of_mem_groups {l : List (κ × ν)} {e : κ × List ν} (h : e ∈ (groups l).items) : e.2 ≠ [] := by
  obtain ⟨x, hx, hk⟩ := List.mem_map.mp (mem_keys_groups.mp (List.mem_map_of_mem h))
  have hv : (e.1, x.2) ∈ l := by rwa [← hk]
  exact List.ne_nil_of_mem ((mem_group_iff h).mpr hv)

/-- Values that come once stand in one group. -/
theorem nodup_flatMap_groups {l : List (κ × ν)} (h : (l.map Prod.snd).Nodup) :
    ((groups l).items.flatMap Prod.snd).Nodup := by
  rw [List.nodup_flatMap]
  constructor
  · intro e he
    rw [mem_items_groups he]
    exact h.sublist (List.filter_sublist.map _)
  · apply (List.pairwise_map.mp (groups l).nodup).imp_of_mem
    intro e e' he he' hne x hx hx'
    have hm := (mem_group_iff he).mp hx
    have hm' := (mem_group_iff he').mp hx'
    exact hne (Prod.mk.inj (List.inj_on_of_nodup_map h hm hm' rfl)).1

theorem sum_setItem (f : ν → ℕ) (k : κ) (v : ν) (l : List (κ × ν)) :
    ((setItem k v l).map fun e ↦ f e.2).sum + ((l.lookup k).map f).getD 0 = (l.map fun e ↦ f e.2).sum + f v := by
  induction l with
  | nil => simp [setItem]
  | cons e l ih =>
    obtain ⟨j, w⟩ := e
    by_cases h : j = k
    · rw [setItem, if_pos h, h, List.lookup_cons_self]
      simp only [List.map_cons, List.sum_cons, Option.map_some, Option.getD_some]
      omega
    · rw [setItem, if_neg h, lookup_cons_of_ne fun heq ↦ h heq.symm]
      simp only [List.map_cons, List.sum_cons]
      omega

/-- What an entry adds to a sum over the values. -/
theorem sum_set (f : ν → ℕ) (d : Dict κ ν) (k : κ) (v : ν) :
    ((d.set k v).items.map fun e ↦ f e.2).sum + ((d.get? k).map f).getD 0 = (d.items.map fun e ↦ f e.2).sum + f v :=
  sum_setItem f k v d.items

/-- Dictionaries of the same entries differ at most in the order of their keys. -/
theorem perm_items {d d' : Dict κ ν} (h : d.get? = d'.get?) : d.items.Perm d'.items := by
  refine (List.perm_ext_iff_of_nodup d.nodup.of_map d'.nodup.of_map).mpr fun e ↦ ?_
  obtain ⟨k, v⟩ := e
  rw [mem_items_iff, mem_items_iff, h]

end Dict

end Briefr.Library
