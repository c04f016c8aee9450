import Mathlib.Data.List.Nodup
import Mathlib.Algebra.GroupWithZero.Nat
import Mathlib.Data.List.Basic
import Mathlib.Algebra.BigOperators.Group.List.Basic

namespace Briefr.Library

variable {α κ : Type} [DecidableEq κ] (key : α → κ)

/-- The elements of one key, changed. -/
def updateAt (k : κ) (f : α → α) (l : List α) : List α := l.map fun x ↦ if key x = k then f x else x

variable {key} {f g : α → α}

theorem map_key_updateAt (hf : ∀ x, key (f x) = key x) (k : κ) (l : List α) :
    (updateAt key k f l).map key = l.map key := by
  rw [updateAt, List.map_map]
  refine List.map_congr_left fun x _ ↦ ?_
  rw [Function.comp_apply]
  split
  · exact hf x
  · rfl

theorem updateAt_updateAt (hf : ∀ x, key (f x) = key x) (k : κ) (l : List α) :
    updateAt key k g (updateAt key k f l) = updateAt key k (g ∘ f) l := by
  rw [updateAt, updateAt, updateAt, List.map_map]
  refine List.map_congr_left fun x _ ↦ ?_
  rw [Function.comp_apply]
  by_cases hk : key x = k
  · rw [if_pos hk, if_pos ((hf x).trans hk), if_pos hk, Function.comp_apply]
  · rw [if_neg hk, if_neg hk, if_neg hk]

theorem updateAt_id (k : κ) (l : List α) : updateAt key k (fun x ↦ x) l = l := by
  rw [updateAt]
  exact (List.map_congr_left fun x _ ↦ ite_id _).trans (List.map_id l)

theorem updateAt_congr {k : κ} {l : List α} (h : ∀ x ∈ l, key x = k → f x = g x) :
    updateAt key k f l = updateAt key k g l := by
  refine List.map_congr_left fun x hx ↦ ?_
  split
  · exact h x hx ‹_›
  · rfl

/-- Changes of one element after the other, none changed twice. -/
theorem foldl_updateAt (hf : ∀ x, key (f x) = key x) {keys : List κ} (hk : keys.Nodup) (l : List α) :
    keys.foldl (fun l k ↦ updateAt key k f l) l = l.map fun x ↦ if key x ∈ keys then f x else x := by
  induction keys generalizing l with
  | nil => simp
  | cons k keys ih =>
    obtain ⟨hnot, hk⟩ := List.nodup_cons.mp hk
    rw [List.foldl_cons, ih hk, updateAt, List.map_map]
    refine List.map_congr_left fun x _ ↦ ?_
    rw [Function.comp_apply]
    by_cases hx : key x = k
    · rw [if_pos hx, hf, hx, if_neg hnot, if_pos (.head _)]
    · rw [if_neg hx]
      simp [hx]

end Briefr.Library

namespace Briefr.Library.Counters

variable {κ : Type} [DecidableEq κ]

/-- Counts by key, in the order in which the keys came. -/
def add (k : κ) (n : ℕ) : List (κ × ℕ) → List (κ × ℕ)
  | [] => [(k, n)]
  | (k', m) :: l => if k' = k then (k', m + n) :: l else (k', m) :: add k n l

def merge (l batch : List (κ × ℕ)) : List (κ × ℕ) := batch.foldl (fun l e ↦ add e.1 e.2 l) l

/-- What the keys that meet a test count together. -/
def total (test : κ → Bool) (l : List (κ × ℕ)) : ℕ := (l.map fun e ↦ if test e.1 then e.2 else 0).sum

variable {test : κ → Bool}

omit [DecidableEq κ] in
@[simp] theorem total_nil : total test [] = 0 := rfl

omit [DecidableEq κ] in
@[simp] theorem total_cons (e : κ × ℕ) (l : List (κ × ℕ)) :
    total test (e :: l) = (if test e.1 then e.2 else 0) + total test l := by
  simp [total]

theorem total_add (k : κ) (n : ℕ) (l : List (κ × ℕ)) : total test (add k n l) = total test l + if test k then n else 0 := by
  induction l with
  | nil => simp [add]
  | cons e l ih =>
    obtain ⟨k', m⟩ := e
    rw [add]
    split
    · rename_i hk
      subst hk
      rw [total_cons, total_cons]
      split <;> omega
    · rw [total_cons, total_cons, ih]
      omega

theorem total_merge (l batch : List (κ × ℕ)) : total test (merge l batch) = total test l + total test batch := by
  induction batch generalizing l with
  | nil => rfl
  | cons e batch ih =>
    have he := ih (add e.1 e.2 l)
    rw [total_add] at he
    rw [total_cons]
    exact he.trans (by omega)

end Briefr.Library.Counters
