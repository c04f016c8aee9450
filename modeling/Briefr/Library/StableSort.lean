import Mathlib.Data.List.Sort
import Mathlib.Data.List.Dedup

namespace Briefr.Library.StableSort

section
variable {α κ : Type} [LinearOrder κ] (key : α → κ)

def sortBy (l : List α) : List α := l.insertionSort fun a b ↦ key a ≤ key b

theorem pairwise_sortBy (l : List α) : (sortBy key l).Pairwise fun a b ↦ key a ≤ key b := by
  have ht : Std.Total fun a b ↦ key a ≤ key b := ⟨fun a b ↦ le_total (key a) (key b)⟩
  have hr : IsTrans α fun a b ↦ key a ≤ key b := ⟨fun _ _ _ ↦ le_trans⟩
  exact List.pairwise_insertionSort _ l

theorem perm_sortBy (l : List α) : (sortBy key l).Perm l := List.perm_insertionSort _ l

theorem length_sortBy (l : List α) : (sortBy key l).length = l.length := (perm_sortBy key l).length_eq

theorem map_sortBy {β : Type} (f : α → β) (key : β → κ) (l : List α) :
    (sortBy (key ∘ f) l).map f = sortBy key (l.map f) :=
  List.map_insertionSort _ _ _ _ fun _ _ _ _ ↦ Iff.rfl

theorem eq_of_perm_of_sorted {l m : List α} (h : l.Perm m) (hl : l.Pairwise fun a b ↦ key a ≤ key b)
    (hm : m.Pairwise fun a b ↦ key a ≤ key b) (hi : ∀ a ∈ l, ∀ b ∈ m, key a = key b → a = b) : l = m :=
  h.eq_of_pairwise (fun a b ha hb hab hba ↦ hi a ha b hb (le_antisymm hab hba)) hl hm

variable {key}

theorem filter_orderedInsert_of_ne {a : α} {k : κ} (h : key a ≠ k) (l : List α) :
    (l.orderedInsert (fun a b ↦ key a ≤ key b) a).filter (fun x ↦ key x = k) = l.filter fun x ↦ key x = k := by
  induction l with
  | nil => simp [h]
  | cons b l ih =>
    rw [List.orderedInsert_cons]
    split
    · simp [h]
    · simp only [List.filter_cons, ih]

theorem filter_orderedInsert_of_eq {a : α} {k : κ} (h : key a = k) {l : List α}
    (hl : l.Pairwise fun a b ↦ key a ≤ key b) :
    (l.orderedInsert (fun a b ↦ key a ≤ key b) a).filter (fun x ↦ key x = k) = a :: l.filter fun x ↦ key x = k := by
  induction l with
  | nil => simp [h]
  | cons b l ih =>
    obtain ⟨hb, hl⟩ := List.pairwise_cons.mp hl
    rw [List.orderedInsert_cons]
    split
    · rw [List.filter_cons_of_pos (by simpa using h)]
    · rename_i hab
      have hbk : ¬key b = k := fun hbk ↦ hab (h.trans hbk.symm).le
      rw [List.filter_cons_of_neg (by simpa using hbk), List.filter_cons_of_neg (by simpa using hbk)]
      exact ih hl

/-- The sort keeps the order of equal keys. -/
theorem filter_key_sortBy (key : α → κ) (k : κ) (l : List α) :
    (sortBy key l).filter (fun x ↦ key x = k) = l.filter fun x ↦ key x = k := by
  induction l with
  | nil => rfl
  | cons a l ih =>
    have hs : sortBy key (a :: l) = (sortBy key l).orderedInsert (fun a b ↦ key a ≤ key b) a := rfl
    rw [hs]
    by_cases h : key a = k
    · rw [filter_orderedInsert_of_eq h (pairwise_sortBy key l), List.filter_cons_of_pos (by simpa using h)]
      exact congrArg _ ih
    · rw [filter_orderedInsert_of_ne h, List.filter_cons_of_neg (by simpa using h)]
      exact ih

/-- A sorted list is known by its parts of equal key. -/
theorem eq_of_sorted_of_filter {l m : List α} (hl : l.Pairwise fun a b ↦ key a ≤ key b)
    (hm : m.Pairwise fun a b ↦ key a ≤ key b)
    (h : ∀ k, l.filter (fun x ↦ key x = k) = m.filter fun x ↦ key x = k) : l = m := by
  induction l generalizing m with
  | nil =>
    cases m with
    | nil => rfl
    | cons b m => simpa using h (key b)
  | cons a l ih =>
    cases m with
    | nil => simpa using h (key a)
    | cons b m =>
      obtain ⟨ha, hl'⟩ := List.pairwise_cons.mp hl
      obtain ⟨hb, hm'⟩ := List.pairwise_cons.mp hm
      have hmem : ∀ {x k} {s t : List α}, s.filter (fun x ↦ key x = k) = t.filter (fun x ↦ key x = k) → key x = k →
          x ∈ s → x ∈ t := fun he hk hx ↦ (List.mem_filter.mp (he ▸ List.mem_filter.mpr ⟨hx, by simpa using hk⟩)).1
      have hab : key a = key b := by
        apply le_antisymm
        · rcases List.mem_cons.mp (hmem (h (key b)).symm rfl (.head _)) with rfl | hx
          · exact le_rfl
          · exact ha b hx
        · rcases List.mem_cons.mp (hmem (h (key a)) rfl (.head _)) with rfl | hx
          · exact le_rfl
          · exact hb a hx
      have hk := h (key a)
      rw [List.filter_cons_of_pos (by simp), List.filter_cons_of_pos (by simp [hab])] at hk
      obtain ⟨rfl, -⟩ := List.cons.inj hk
      refine congrArg _ (ih hl' hm' fun k ↦ ?_)
      have hk := h k
      simp only [List.filter_cons] at hk
      split at hk
      · exact (List.cons.inj hk).2
      · exact hk

theorem sortBy_eq_iff {l m : List α} :
    sortBy key l = sortBy key m ↔ ∀ k, l.filter (fun x ↦ key x = k) = m.filter fun x ↦ key x = k := by
  constructor
  · intro h k
    rw [← filter_key_sortBy key k l, h, filter_key_sortBy]
  · intro h
    apply eq_of_sorted_of_filter (pairwise_sortBy key l) (pairwise_sortBy key m)
    intro k
    rw [filter_key_sortBy, filter_key_sortBy, h k]

theorem filter_sortBy (p : α → Bool) (l : List α) : (sortBy key l).filter p = sortBy key (l.filter p) := by
  apply eq_of_sorted_of_filter ((pairwise_sortBy key l).filter p) (pairwise_sortBy key _)
  intro k
  rw [filter_key_sortBy, List.filter_filter, List.filter_filter]
  simp only [Bool.and_comm]
  rw [← List.filter_filter, filter_key_sortBy, List.filter_filter]

/-- The element that a stable sort by the key puts first. -/
def FirstBy (key : α → κ) (l : List α) (x : α) : Prop :=
  ∃ a b, l = a ++ x :: b ∧ (∀ y ∈ a, key x < key y) ∧ ∀ y ∈ b, key x ≤ key y

theorem FirstBy.mem {l : List α} {x : α} (h : FirstBy key l x) : x ∈ l := by
  obtain ⟨a, b, rfl, -, -⟩ := h
  simp

theorem FirstBy.le {l : List α} {x y : α} (h : FirstBy key l x) (hy : y ∈ l) : key x ≤ key y := by
  obtain ⟨a, b, rfl, ha, hb⟩ := h
  rcases List.mem_append.mp hy with hy | hy
  · exact (ha y hy).le
  · rcases List.mem_cons.mp hy with rfl | hy
    · exact le_rfl
    · exact hb y hy

theorem FirstBy.head?_filter {l : List α} {x : α} (h : FirstBy key l x) :
    (l.filter fun y ↦ key y = key x).head? = some x := by
  obtain ⟨a, b, rfl, ha, -⟩ := h
  have hn : a.filter (fun y ↦ key y = key x) = [] := by
    rw [List.filter_eq_nil_iff]
    intro y hy
    simpa using (ha y hy).ne'
  simp [List.filter_append, hn]

theorem FirstBy.unique {l : List α} {x y : α} (hx : FirstBy key l x) (hy : FirstBy key l y) : x = y := by
  have hk : key x = key y := le_antisymm (hx.le hy.mem) (hy.le hx.mem)
  have h := hx.head?_filter
  rw [hk, hy.head?_filter] at h
  exact (Option.some.inj h).symm

theorem firstBy_of_sortBy {l t : List α} {x : α} (h : sortBy key l = x :: t) : FirstBy key l x := by
  have hle : ∀ y ∈ l, key x ≤ key y := by
    intro y hy
    have hp := pairwise_sortBy key l
    have hy := (perm_sortBy key l).mem_iff.mpr hy
    rw [h] at hp hy
    rcases List.mem_cons.mp hy with rfl | hy
    · exact le_rfl
    · exact (List.pairwise_cons.mp hp).1 y hy
  have hf := filter_key_sortBy key (key x) l
  rw [h, List.filter_cons_of_pos (by simp)] at hf
  obtain ⟨a, b, rfl, ha, -, -⟩ := List.filter_eq_cons_iff.mp hf.symm
  refine ⟨a, b, rfl, ?_, fun y hy ↦ hle y (by simp [hy])⟩
  intro y hy
  exact lt_of_le_of_ne (hle y (by simp [hy])) (by simpa [eq_comm] using ha y hy)

theorem head?_sortBy {l : List α} {x : α} : (sortBy key l).head? = some x ↔ FirstBy key l x := by
  constructor
  · intro h
    obtain ⟨t, ht⟩ := List.head?_eq_some_iff.mp h
    exact firstBy_of_sortBy ht
  · intro h
    obtain ⟨y, t, ht⟩ := List.exists_cons_of_ne_nil (List.ne_nil_of_mem ((perm_sortBy key l).mem_iff.mpr h.mem))
    rw [ht, h.unique (firstBy_of_sortBy ht)]
    rfl

theorem head?_sortBy_eq_none {l : List α} : (sortBy key l).head? = none ↔ l = [] := by
  rw [List.head?_eq_none_iff]
  constructor
  · intro h
    exact List.Perm.eq_nil (h ▸ (perm_sortBy key l).symm)
  · rintro rfl
    rfl

end

section
variable {α : Type} [LinearOrder α]

def sortedSet (l : List α) : List α := sortBy id l.dedup

theorem mem_sortedSet {l : List α} {x : α} : x ∈ sortedSet l ↔ x ∈ l := by
  rw [sortedSet, (perm_sortBy id _).mem_iff, List.mem_dedup]

theorem nodup_sortedSet (l : List α) : (sortedSet l).Nodup :=
  (perm_sortBy id _).nodup_iff.mpr (List.nodup_dedup l)

theorem sortedSet_congr {l m : List α} (h : ∀ x, x ∈ l ↔ x ∈ m) : sortedSet l = sortedSet m := by
  have hp : (sortedSet l).Perm (sortedSet m) := by
    rw [List.perm_ext_iff_of_nodup (nodup_sortedSet l) (nodup_sortedSet m)]
    intro x
    exact mem_sortedSet.trans ((h x).trans mem_sortedSet.symm)
  exact eq_of_perm_of_sorted id hp (pairwise_sortBy id _) (pairwise_sortBy id _) fun _ _ _ _ he ↦ he

end

section
variable {α : Type} (rank : α → ℕ)

/-- The element that a stable sort by falling rank puts last. -/
def Least (l : List α) (x : α) : Prop :=
  ∃ a b, l = a ++ x :: b ∧ (∀ y ∈ a, rank x ≤ rank y) ∧ ∀ y ∈ b, rank x < rank y

def fallingRank (l : List α) : List α := sortBy (fun x ↦ OrderDual.toDual (rank x)) l

theorem perm_fallingRank (l : List α) : (fallingRank rank l).Perm l := perm_sortBy _ l

variable {rank} {l : List α} {x y : α}

theorem Least.mem (h : Least rank l x) : x ∈ l := by
  obtain ⟨a, b, rfl, -, -⟩ := h
  simp

theorem Least.le (h : Least rank l x) (hy : y ∈ l) : rank x ≤ rank y := by
  obtain ⟨a, b, rfl, ha, hb⟩ := h
  rcases List.mem_append.mp hy with hy | hy
  · exact ha y hy
  · rcases List.mem_cons.mp hy with rfl | hy
    · exact le_rfl
    · exact (hb y hy).le

theorem exists_least (rank : α → ℕ) (hl : l ≠ []) : ∃ x, Least rank l x := by
  induction l with
  | nil => exact absurd rfl hl
  | cons y l ih =>
    by_cases hn : l = []
    · exact ⟨y, [], l, rfl, by simp, by simp [hn]⟩
    · obtain ⟨x, hx⟩ := ih hn
      by_cases hle : rank x ≤ rank y
      · obtain ⟨a, b, rfl, ha, hb⟩ := hx
        refine ⟨x, y :: a, b, rfl, ?_, hb⟩
        intro z hz
        rcases List.mem_cons.mp hz with rfl | hz
        · exact hle
        · exact ha z hz
      · exact ⟨y, [], l, rfl, by simp, fun z hz ↦ lt_of_lt_of_le (not_le.mp hle) (hx.le hz)⟩

theorem orderedInsert_append_singleton {r : α → α → Prop} [DecidableRel r] (h : r y x) (s : List α) :
    (s ++ [x]).orderedInsert r y = s.orderedInsert r y ++ [x] := by
  induction s with
  | nil => simp [h]
  | cons z s ih =>
    by_cases hz : r y z
    · simp [hz]
    · simp [hz, ih]

theorem orderedInsert_last {r : α → α → Prop} [DecidableRel r] {s : List α} (h : ∀ z ∈ s, ¬r x z) :
    s.orderedInsert r x = s ++ [x] := by
  induction s with
  | nil => rfl
  | cons z s ih =>
    have hz := h z (.head _)
    simp [hz, ih fun w hw ↦ h w (.tail _ hw)]

theorem fallingRank_append_cons {a b : List α} (ha : ∀ y ∈ a, rank x ≤ rank y) (hb : ∀ y ∈ b, rank x < rank y) :
    fallingRank rank (a ++ x :: b) = fallingRank rank (a ++ b) ++ [x] := by
  induction a with
  | nil =>
    apply orderedInsert_last
    intro z hz hxz
    have hz : z ∈ b := (perm_fallingRank rank b).mem_iff.mp hz
    exact absurd (hb z hz) (not_lt.mpr hxz)
  | cons y a ih =>
    have ih := ih fun z hz ↦ ha z (.tail _ hz)
    let r : α → α → Prop := fun a b ↦ OrderDual.toDual (rank a) ≤ OrderDual.toDual (rank b)
    have hy : r y x := ha y (.head _)
    calc fallingRank rank (y :: (a ++ x :: b))
        = (fallingRank rank (a ++ x :: b)).orderedInsert r y := rfl
      _ = (fallingRank rank (a ++ b) ++ [x]).orderedInsert r y := by rw [ih]
      _ = (fallingRank rank (a ++ b)).orderedInsert r y ++ [x] := orderedInsert_append_singleton hy _

theorem take_fallingRank {a b : List α} (ha : ∀ y ∈ a, rank x ≤ rank y) (hb : ∀ y ∈ b, rank x < rank y) {k : ℕ}
    (hk : (a ++ b).length = k) : (fallingRank rank (a ++ x :: b)).take k = fallingRank rank (a ++ b) := by
  rw [fallingRank_append_cons ha hb]
  apply List.take_left'
  rw [(perm_fallingRank rank _).length_eq, hk]

theorem Least.unique (hx : Least rank l x) (hy : Least rank l y) : x = y := by
  obtain ⟨a, b, rfl, ha, hb⟩ := hx
  obtain ⟨a', b', he, ha', hb'⟩ := hy
  have h := fallingRank_append_cons ha hb
  rw [he, fallingRank_append_cons ha' hb'] at h
  exact (List.append_inj' h rfl).2 |> List.singleton_inj.mp |> Eq.symm

/-- The last of the sorted list is the least element. -/
theorem Least.getLast? (h : Least rank l x) : (fallingRank rank l).getLast? = some x := by
  obtain ⟨a, b, rfl, ha, hb⟩ := h
  rw [fallingRank_append_cons ha hb, List.getLast?_concat]

end

section Place

variable {α κ ι : Type} [LinearOrder κ] [DecidableEq ι] {key : α → κ}

/-- A sorted list is its part below a key, the elements with the key in their old order, and its part above. -/
theorem sortBy_split (k : κ) (l : List α) :
    sortBy key l = sortBy key (l.filter fun x ↦ key x < k) ++
      (l.filter (fun x ↦ key x = k) ++ sortBy key (l.filter fun x ↦ k < key x)) := by
  have hlow : ∀ x ∈ sortBy key (l.filter fun x ↦ key x < k), key x < k := fun x hx ↦
    of_decide_eq_true (List.mem_filter.mp ((perm_sortBy key _).mem_iff.mp hx)).2
  have hmid : ∀ x ∈ l.filter (fun x ↦ key x = k), key x = k := fun x hx ↦ of_decide_eq_true (List.mem_filter.mp hx).2
  have hhigh : ∀ x ∈ sortBy key (l.filter fun x ↦ k < key x), k < key x := fun x hx ↦
    of_decide_eq_true (List.mem_filter.mp ((perm_sortBy key _).mem_iff.mp hx)).2
  apply eq_of_sorted_of_filter (pairwise_sortBy key l)
  · refine List.pairwise_append.mpr ⟨pairwise_sortBy key _, List.pairwise_append.mpr ⟨?_, pairwise_sortBy key _, ?_⟩, ?_⟩
    · exact List.pairwise_of_forall_mem_list fun x hx y hy ↦ ((hmid x hx).trans (hmid y hy).symm).le
    · exact fun x hx y hy ↦ (hmid x hx).trans_le (hhigh y hy).le
    · intro x hx y hy
      rcases List.mem_append.mp hy with hy | hy
      · exact (hlow x hx).le.trans (hmid y hy).ge
      · exact (hlow x hx).le.trans (hhigh y hy).le
  · intro k'
    have hkey : ∀ p : κ → Bool, (l.filter fun x ↦ p (key x)).filter (fun x ↦ key x = k') =
        if p k' then l.filter (fun x ↦ key x = k') else [] := by
      intro p
      rw [List.filter_filter]
      split
      · rename_i hp
        refine List.filter_congr fun x _ ↦ ?_
        by_cases hx : key x = k'
        · simp [hx, hp]
        · simp [hx]
      · rename_i hp
        refine List.filter_eq_nil_iff.mpr fun x _ hx ↦ ?_
        obtain ⟨he, hpx⟩ := Bool.and_eq_true_iff.mp hx
        exact hp (of_decide_eq_true he ▸ hpx)
    rw [filter_key_sortBy, List.filter_append, List.filter_append, filter_key_sortBy, filter_key_sortBy,
      hkey (fun x ↦ x < k), hkey (fun x ↦ x = k), hkey (fun x ↦ k < x)]
    rcases lt_trichotomy k' k with h | h | h
    · simp [h, h.ne, h.not_gt]
    · simp [h]
    · simp [h, h.ne', h.not_gt]

theorem mem_take_append_cons {s t : List α} {x : α} (hx : x ∉ s) {n : ℕ} : x ∈ (s ++ x :: t).take n ↔ s.length < n := by
  constructor
  · intro h
    by_contra hn
    rw [List.take_append_of_le_length (not_lt.mp hn)] at h
    exact hx (List.mem_of_mem_take h)
  · intro h
    rw [List.take_append, List.take_of_length_le h.le]
    obtain ⟨m, hm⟩ := Nat.exists_eq_add_of_lt h
    rw [show n - s.length = m + 1 by omega, List.take_succ_cons]
    exact List.mem_append_right _ (.head _)

/-- How many elements a stable sort puts before one. -/
def place (key : α → κ) (name : α → ι) (l : List α) (x : α) : ℕ :=
  (l.filter fun y ↦ key y < key x).length + ((l.filter fun y ↦ key y = key x).takeWhile fun y ↦ name y ≠ name x).length

theorem mem_take_sortBy {name : α → ι} {l : List α} (hl : (l.map name).Nodup) {x : α} (hx : x ∈ l) {n : ℕ} :
    x ∈ (sortBy key l).take n ↔ place key name l x < n := by
  obtain ⟨s, t, hst⟩ := List.append_of_mem (List.mem_filter.mpr ⟨hx, decide_eq_true rfl⟩ :
    x ∈ l.filter fun y ↦ key y = key x)
  have hnodup : ((s ++ x :: t).map name).Nodup := hst ▸ hl.sublist (List.filter_sublist.map _)
  have hs : ∀ y ∈ s, name y ≠ name x := by
    rw [List.map_append, List.map_cons, List.nodup_append] at hnodup
    exact fun y hy ↦ hnodup.2.2 _ (List.mem_map_of_mem hy) _ (.head _)
  have hwhile : (s ++ x :: t).takeWhile (fun y ↦ name y ≠ name x) = s := by
    rw [List.takeWhile_append_of_pos fun y hy ↦ decide_eq_true (hs y hy), List.takeWhile_cons_of_neg (by simp), List.append_nil]
  have hbelow : x ∉ sortBy key (l.filter fun y ↦ key y < key x) := by
    rw [(perm_sortBy key _).mem_iff, List.mem_filter]
    exact fun h ↦ lt_irrefl _ (of_decide_eq_true h.2)
  rw [sortBy_split (key x), hst, place, hst, hwhile, List.append_assoc, ← List.append_assoc, List.cons_append,
    mem_take_append_cons, List.length_append, length_sortBy]
  rw [List.mem_append, not_or]
  exact ⟨hbelow, fun h ↦ hs x h rfl⟩

end Place

section
variable {α : Type} [LinearOrder α]

/-- The first items of a sorted list are those with few below them. -/
theorem mem_take_sortBy_id {l : List α} (h : l.Nodup) (n : ℕ) {x : α} :
    x ∈ (sortBy id l).take n ↔ x ∈ l ∧ l.countP (· < x) < n := by
  have hplace : place id id l x = l.countP (· < x) := by
    have hnone : (l.filter fun y ↦ id y = id x).takeWhile (fun y ↦ id y ≠ id x) = [] := by
      cases hl : l.filter fun y ↦ id y = id x with
      | nil => rfl
      | cons y t =>
        have hy : y ∈ l.filter fun y ↦ id y = id x := hl ▸ .head _
        have heq : id y = id x := of_decide_eq_true (List.mem_filter.mp hy).2
        exact List.takeWhile_cons_of_neg (by rw [decide_eq_true_eq]; exact not_not_intro heq)
    rw [place, hnone, List.countP_eq_length_filter]
    rfl
  constructor
  · intro hx
    have hmem := (perm_sortBy id l).mem_iff.mp (List.mem_of_mem_take hx)
    rw [← hplace]
    exact ⟨hmem, (mem_take_sortBy (by rwa [List.map_id]) hmem).mp hx⟩
  · rintro ⟨hmem, hx⟩
    rw [← hplace] at hx
    exact (mem_take_sortBy (by rwa [List.map_id]) hmem).mpr hx

end

section Ahead

variable {α κ : Type} [LinearOrder κ] {key : α → κ} {s t l : List α} {a b : α}

theorem pair_sublist (ha : a ∈ s) : [a, b].Sublist (s ++ b :: t) :=
  (List.singleton_sublist.mpr ha).append (List.singleton_sublist.mpr List.mem_cons_self)

/-- In a sorted list an element with a smaller key is ahead, and what is cut off behind changes nothing. -/
theorem ahead_of_key {n : ℕ} (hl : l.Pairwise fun x y ↦ key x ≤ key y) (ha : a ∈ l) (hb : b ∈ l.take n)
    (h : key a < key b) : [a, b].Sublist (l.take n) := by
  obtain ⟨s, t, hst⟩ := List.append_of_mem hb
  have hsplit : l = s ++ b :: (t ++ l.drop n) := by
    rw [← List.cons_append, ← List.append_assoc, ← hst, List.take_append_drop]
  have has : a ∈ s := by
    rw [hsplit] at ha hl
    obtain has | rfl | hat := (List.mem_append.trans (or_congr_right List.mem_cons)).mp ha
    · exact has
    · exact absurd h (lt_irrefl _)
    · exact absurd h (not_lt.mpr ((List.pairwise_cons.mp (List.pairwise_append.mp hl).2.1).1 a hat))
  rw [hst]
  exact pair_sublist has

end Ahead

end Briefr.Library.StableSort
