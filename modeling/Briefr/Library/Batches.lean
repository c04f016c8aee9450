import Briefr.Library.StableSort
import Mathlib.Data.List.Basic
import Mathlib.Data.Finset.Card

namespace Briefr.Library

variable {α σ : Type}

/-- `l[offset : offset + size]` for the offsets 0, size, 2 size and so on. -/
def batches (size : ℕ) (l : List α) : List (List α) :=
  (List.range ((l.length + size - 1) / size)).map fun i ↦ (l.drop (i * size)).take size

theorem flatten_range_take (size : ℕ) (l : List α) (n : ℕ) :
    ((List.range n).map fun i ↦ (l.drop (i * size)).take size).flatten = l.take (n * size) := by
  induction n with
  | zero => simp
  | succ n ih => rw [List.range_succ, List.map_append, List.flatten_append, ih, Nat.succ_mul, List.take_add]; simp

theorem flatten_batches {size : ℕ} (h : 0 < size) (l : List α) : (batches size l).flatten = l := by
  rw [batches, flatten_range_take, List.take_of_length_le]
  have hd := Nat.div_add_mod (l.length + size - 1) size
  have hm := Nat.mod_lt (l.length + size - 1) h
  rw [Nat.mul_comm]
  omega

/-- A loop over the batches that treats each element alike is the loop over the list. -/
theorem foldl_batches {size : ℕ} (h : 0 < size) (step : σ → α → σ) (s : σ) (l : List α) :
    (batches size l).foldl (fun s batch ↦ batch.foldl step s) s = l.foldl step s := by
  rw [← List.foldl_flatten, flatten_batches h]

end Briefr.Library

namespace Briefr.Library.PagedReads

open Briefr.Library.StableSort

section
variable {α σ : Type} (k : ℕ) (step : σ → List α → σ)

/-- A list read in pages of `k` until one is not full, for a number of turns at most. -/
def readPages : ℕ → σ → List α → Option σ
  | 0, _, _ => none
  | turns + 1, s, rest =>
    if (rest.take k).length < k then some (step s (rest.take k))
    else readPages turns (step s (rest.take k)) (rest.drop k)

variable {k step}

/-- Pages that add up are read as the list would be at once. -/
theorem readPages_eq (hk : 0 < k) (hstep : ∀ s a b, step (step s a) b = step s (a ++ b)) (turns : ℕ) (s : σ)
    (rest : List α) (hturns : rest.length < turns) : readPages k step turns s rest = some (step s rest) := by
  induction turns generalizing s rest with
  | zero => exact absurd hturns (Nat.not_lt_zero _)
  | succ turns ih =>
    rw [readPages]
    split_ifs with hfull
    · rw [List.length_take] at hfull
      rw [List.take_of_length_le (by omega)]
    · rw [List.length_take] at hfull
      have hdrop : (rest.drop k).length < turns := by
        rw [List.length_drop]
        omega
      rw [ih _ _ hdrop, hstep, List.take_append_drop]

end

section
variable {α κ : Type} [LinearOrder κ] {key : α → κ} {rest : List α} {k : ℕ} {x : α}

/-- What lies behind the last item of a page is what the page leaves. -/
theorem filter_behind_last (hsorted : rest.Pairwise fun a b ↦ key a < key b) (hlast : (rest.take k).getLast? = some x) :
    rest.filter (fun y ↦ key x < key y) = rest.drop k := by
  have hsplit := List.take_append_drop k rest
  revert hsplit hlast
  generalize rest.take k = page
  generalize rest.drop k = left
  rintro hlast rfl
  obtain ⟨front, rfl⟩ := List.getLast?_eq_some_iff.mp hlast
  rw [List.pairwise_append] at hsorted
  obtain ⟨hpage, -, hleft⟩ := hsorted
  have hfront : ∀ y ∈ front ++ [x], ¬key x < key y := by
    intro y hy
    rcases List.mem_append.mp hy with hy | hy
    · exact (List.pairwise_append.mp hpage).2.2 y hy x List.mem_cons_self |>.not_gt
    · obtain rfl := List.mem_singleton.mp hy
      exact lt_irrefl _
  rw [List.filter_append, List.filter_eq_nil_iff.mpr (by simpa using hfront), List.nil_append, List.filter_eq_self]
  intro y hy
  exact decide_eq_true (hleft x (List.mem_append_right _ List.mem_cons_self) y hy)

/-- Sorted items of distinct keys rise. -/
theorem pairwise_lt_sortBy {l : List α} (h : (l.map key).Nodup) : (sortBy key l).Pairwise fun a b ↦ key a < key b := by
  have hnodup : ((sortBy key l).map key).Nodup := ((perm_sortBy key l).map key).nodup_iff.mpr h
  have hboth := (pairwise_sortBy key l).and (List.pairwise_map.mp hnodup)
  exact hboth.imp fun hab ↦ lt_of_le_of_ne hab.1 hab.2

end

section
variable {α κ : Type} [DecidableEq κ] (key : α → κ)

/-- The first item of each key that was not seen. -/
def firsts : Finset κ → List α → List α
  | _, [] => []
  | seen, x :: rest => if key x ∈ seen then firsts seen rest else x :: firsts (insert (key x) seen) rest

theorem firsts_append (seen : Finset κ) (l rest : List α) :
    firsts key seen (l ++ rest) = firsts key seen l ++ firsts key (seen ∪ (l.map key).toFinset) rest := by
  induction l generalizing seen with
  | nil => rw [List.nil_append, List.map_nil, List.toFinset_nil, Finset.union_empty, firsts, List.nil_append]
  | cons x l ih =>
    rw [List.cons_append, firsts, firsts, List.map_cons, List.toFinset_cons]
    split_ifs with hseen
    · rw [ih, Finset.union_insert, Finset.insert_eq_self.mpr (Finset.mem_union_left _ hseen)]
    · rw [ih, List.cons_append, Finset.insert_union, Finset.union_insert]

/-- Items of which none was seen, and no two have one key, all are first. -/
theorem firsts_of_nodup {seen : Finset κ} {l : List α} (hseen : ∀ x ∈ l, key x ∉ seen) (h : (l.map key).Nodup) :
    firsts key seen l = l := by
  induction l generalizing seen with
  | nil => rfl
  | cons x l ih =>
    rw [List.map_cons, List.nodup_cons] at h
    rw [firsts, if_neg (hseen x List.mem_cons_self), ih ?_ h.2]
    intro y hy hmem
    rcases Finset.mem_insert.mp hmem with heq | hmem
    · exact h.1 (heq ▸ List.mem_map_of_mem hy)
    · exact hseen y (List.mem_cons_of_mem _ hy) hmem

theorem firsts_congr {seen seen' : Finset κ} {l : List α} (h : ∀ x ∈ l, key x ∈ seen ↔ key x ∈ seen') :
    firsts key seen l = firsts key seen' l := by
  induction l generalizing seen seen' with
  | nil => rfl
  | cons x l ih =>
    have hl : ∀ y ∈ l, key y ∈ seen ↔ key y ∈ seen' := fun y hy ↦ h y (List.mem_cons_of_mem _ hy)
    rw [firsts, firsts]
    by_cases hx : key x ∈ seen
    · rw [if_pos hx, if_pos ((h x List.mem_cons_self).mp hx), ih hl]
    · rw [if_neg hx, if_neg (mt (h x List.mem_cons_self).mpr hx)]
      congr 1
      refine ih fun y hy ↦ ?_
      rw [Finset.mem_insert, Finset.mem_insert, hl y hy]

/-- Items that were seen may be left out. -/
theorem firsts_filter (seen : Finset κ) (l : List α) :
    firsts key seen (l.filter fun x ↦ key x ∉ seen) = firsts key seen l := by
  have hmono : ∀ seen' : Finset κ, seen ⊆ seen' →
      firsts key seen' (l.filter fun x ↦ key x ∉ seen) = firsts key seen' l := by
    induction l with
    | nil => exact fun _ _ ↦ rfl
    | cons x l ih =>
      intro seen' hsub
      by_cases hx : key x ∈ seen
      · rw [List.filter_cons_of_neg (by simpa using hx), firsts, if_pos (hsub hx), ih seen' hsub]
      · rw [List.filter_cons_of_pos (by simpa using hx), firsts, firsts]
        split_ifs
        · exact ih seen' hsub
        · rw [ih _ (hsub.trans (Finset.subset_insert _ _))]
  exact hmono seen (Finset.Subset.refl seen)

end

end Briefr.Library.PagedReads

namespace Briefr.Library.CappedScan

variable {α : Type} [DecidableEq α]

/-- What a list has before an element. -/
def before (l : List α) (x : α) : List α := l.takeWhile (· ≠ x)

theorem before_cons_of_ne {x y : α} (h : y ≠ x) (l : List α) : before (y :: l) x = y :: before l x :=
  List.takeWhile_cons_of_pos (by simpa using h)

theorem before_cons_self (x : α) (l : List α) : before (x :: l) x = [] := List.takeWhile_cons_of_neg (by simp)

theorem length_before_of_mem_take {l : List α} {x : α} {n : ℕ} (h : x ∈ l.take n) : (before l x).length < n := by
  induction l generalizing n with
  | nil => simp at h
  | cons y l ih =>
    cases n with
    | zero => simp at h
    | succ n =>
      by_cases hy : y = x
      · rw [hy, before_cons_self]
        exact Nat.succ_pos n
      · rw [List.take_succ_cons] at h
        rcases List.mem_cons.mp h with rfl | h
        · exact absurd rfl hy
        · rw [before_cons_of_ne hy, List.length_cons]
          exact Nat.succ_lt_succ (ih h)

/-- Of the first `n` elements a scan keeps the live ones, and of these it takes the first `cap`: it takes a good one exactly
when there is a good one with fewer than `n` elements before it, fewer than `cap` of which are live and not good. -/
theorem exists_good_iff {live good : α → Bool} (hg : ∀ x, good x = true → live x = true) (l : List α) (n cap : ℕ) :
    (∃ x ∈ ((l.take n).filter live).take cap, good x = true) ↔
      ∃ x ∈ l, good x = true ∧ (before l x).length < n ∧ (before l x).countP (fun y ↦ live y && !good y) < cap := by
  induction l generalizing n cap with
  | nil => simp
  | cons y l ih =>
    cases n with
    | zero => simp
    | succ n =>
      rw [List.take_succ_cons]
      by_cases hy : good y = true
      · rw [List.filter_cons_of_pos (hg y hy)]
        cases cap with
        | zero => simp
        | succ cap =>
          rw [List.take_succ_cons]
          refine iff_of_true ⟨y, .head _, hy⟩ ⟨y, .head _, hy, ?_, ?_⟩
          · rw [before_cons_self]
            exact Nat.succ_pos n
          · rw [before_cons_self]
            exact Nat.succ_pos cap
      · have hne : ∀ x, good x = true → y ≠ x := fun x hx he ↦ hy (he ▸ hx)
        have htail : (∃ x ∈ y :: l, good x = true ∧ (before (y :: l) x).length < n + 1 ∧
            (before (y :: l) x).countP (fun y ↦ live y && !good y) < cap) ↔
            ∃ x ∈ l, good x = true ∧ (before l x).length < n ∧
              (before l x).countP (fun y ↦ live y && !good y) + (if live y = true then 1 else 0) < cap := by
          rw [List.exists_mem_cons_iff]
          simp only [hy, Bool.false_eq_true, false_and, false_or]
          refine exists_congr fun x ↦ and_congr_right fun _ ↦ and_congr_right fun hx ↦ ?_
          rw [before_cons_of_ne (hne x hx), List.length_cons, List.countP_cons, Nat.succ_lt_succ_iff]
          simp [hy]
        rw [htail]
        by_cases hl : live y = true
        · rw [List.filter_cons_of_pos hl]
          cases cap with
          | zero => simp
          | succ cap =>
            rw [List.take_succ_cons, List.exists_mem_cons_iff]
            simp only [hy, Bool.false_eq_true, false_or, hl, ↓reduceIte, Nat.succ_lt_succ_iff]
            exact ih n cap
        · rw [List.filter_cons_of_neg hl]
          simp only [hl, Bool.false_eq_true, ↓reduceIte, Nat.add_zero]
          exact ih n cap

open StableSort in
theorem countP_lt_le_before {κ : Type} [LinearOrder κ] {key : α → κ} (l : List α) (x : α) :
    l.countP (fun y ↦ key y < key x) ≤ (before (sortBy key l) x).length := by
  have hlow : ∀ y ∈ sortBy key (l.filter fun y ↦ key y < key x), decide (y ≠ x) = true := by
    intro y hy
    have hlt := of_decide_eq_true (List.mem_filter.mp ((perm_sortBy key _).mem_iff.mp hy)).2
    exact decide_eq_true fun he ↦ absurd (he ▸ hlt) (lt_irrefl _)
  rw [before, sortBy_split (key x), List.takeWhile_append_of_pos hlow, List.length_append, length_sortBy,
    List.countP_eq_length_filter]
  exact Nat.le_add_right _ _

end Briefr.Library.CappedScan
