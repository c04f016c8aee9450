import Briefr.Library.StableSort

namespace Briefr.Library.KeysetPaging

open Briefr.Library.StableSort

theorem not_pair_sublist {α : Type} {l : List α} {x y : α} (hl : l.Nodup) (h : [x, y].Sublist l) :
    ¬[y, x].Sublist l := by
  induction l with
  | nil => cases h
  | cons z l ih =>
    obtain ⟨hz, hl⟩ := List.nodup_cons.mp hl
    intro h'
    cases h with
    | cons _ h =>
      cases h' with
      | cons _ h' => exact ih hl h h'
      | cons_cons _ h' => exact hz (h.subset (by simp))
    | cons_cons _ h =>
      cases h' with
      | cons _ h' => exact hz (h'.subset (by simp))
      | cons_cons _ h' => exact hz (h.subset (by simp))

/-- What an infix shares with a window at the start lies in the infix's own window. -/
theorem mem_own_window {α : Type} {l m : List α} {x : α} {n : ℕ} (hl : l.Nodup) (hm : m <:+: l) (hx : x ∈ m)
    (hn : x ∈ l.take n) : x ∈ m.take n := by
  obtain ⟨a, b, rfl⟩ := hm
  rw [List.nodup_append, List.nodup_append] at hl
  obtain ⟨⟨-, -, ha⟩, -, hb⟩ := hl
  rw [List.take_append, List.take_append] at hn
  simp only [List.mem_append] at hn
  rcases hn with (hn | hn) | hn
  · exact absurd rfl (ha x (List.mem_of_mem_take hn) x hx)
  · exact List.take_subset_take_left _ (Nat.sub_le _ _) hn
  · exact absurd rfl (hb x (List.mem_append_right _ hx) x (List.mem_of_mem_take hn))

theorem head_mem_window {α : Type} {l m : List α} {e x : α} {n : ℕ} (hl : l.Nodup) (hm : e :: m <:+: l)
    (hx : x ∈ e :: m) (hn : x ∈ l.take n) : e ∈ l.take n := by
  obtain ⟨a, b, rfl⟩ := hm
  rw [List.append_assoc, List.nodup_append] at hl
  rw [List.append_assoc, List.take_append, List.mem_append] at hn ⊢
  right
  rcases hn with hn | hn
  · exact absurd rfl (hl.2.2 x (List.mem_of_mem_take hn) x (List.mem_append_left _ hx))
  · cases hc : n - a.length with
    | zero => simp [hc] at hn
    | succ c => simp

theorem least_eq_of_sublist {α : Type} {rank : α → ℕ} {l w w' : List α} {d y : α} (hl : l.Nodup)
    (hw : w.Sublist l) (hw' : w'.Sublist l) (hd : Least rank w d) (hy : Least rank w' y) (hyw : y ∈ w)
    (hdw : d ∈ w') : y = d := by
  by_contra hne
  have hdy := hd.le hyw
  have hyd := hy.le hdw
  obtain ⟨a, b, rfl, -, hb⟩ := hd
  obtain ⟨a', b', rfl, -, hb'⟩ := hy
  have hya : y ∈ a := by
    have hnb : y ∉ b := fun h ↦ absurd (hb y h) (not_lt.mpr hyd)
    simpa [hne, hnb] using hyw
  have hda : d ∈ a' := by
    have hnb : d ∉ b' := fun h ↦ absurd (hb' d h) (not_lt.mpr hdy)
    simpa [Ne.symm hne, hnb] using hdw
  have h : [y, d].Sublist (a ++ d :: b) :=
    (List.singleton_sublist.mpr hya).append (List.singleton_sublist.mpr (.head _))
  have h' : [d, y].Sublist (a' ++ y :: b') :=
    (List.singleton_sublist.mpr hda).append (List.singleton_sublist.mpr (.head _))
  exact not_pair_sublist hl (h.trans hw) (h'.trans hw')

section
variable {α : Type} (rank : α → ℕ) (next : α → Option (List α)) (k : ℕ)

/-- Pages of `k` items read from a list: a window of `k + 1` items is put in falling rank, cut to
`k`, and `next` of the last item kept is what the following page reads from. -/
inductive Follows : List α → List (List α) → Prop
  | last {rest : List α} : rest.length ≤ k → Follows rest [fallingRank rank rest]
  | next {rest rest' : List α} {pages : List (List α)} {x : α} :
      k < rest.length →
      ((fallingRank rank (rest.take (k + 1))).take k).getLast? = some x →
      next x = some rest' →
      Follows rest' pages →
      Follows rest ((fallingRank rank (rest.take (k + 1))).take k :: pages)

/-- The `k` items of `rest` that come first can be a page: the item after them ranks no higher, and
the cursor of the lowest of them goes on with that item. -/
def Boundary (rest : List α) : Prop :=
  (∀ d ∈ (rest.drop k).head?, ∀ x ∈ rest.take k, rank d ≤ rank x) ∧
    ∀ x, Least rank (rest.take k) x → next x = some (rest.drop k)

def Aligned (rest : List α) : Prop := ∀ j, (j + 1) * k < rest.length → Boundary rank next k (rest.drop (j * k))

variable {rank next k} {rest rest' : List α} {pages : List (List α)} {x d : α}

theorem aligned_iff (hk : k < rest.length) :
    Aligned rank next k rest ↔ Boundary rank next k rest ∧ Aligned rank next k (rest.drop k) := by
  have hd : ∀ j, rest.drop ((j + 1) * k) = (rest.drop k).drop (j * k) := by
    intro j
    rw [List.drop_drop, Nat.succ_mul, Nat.add_comm]
  constructor
  · intro h
    refine ⟨by simpa using h 0 (by simpa using hk), fun j hj ↦ ?_⟩
    rw [← hd]
    apply h (j + 1)
    rw [List.length_drop] at hj
    rw [Nat.succ_mul]
    omega
  · intro ⟨hb, h⟩ j hj
    cases j with
    | zero => simpa using hb
    | succ j =>
      rw [hd]
      apply h j
      rw [Nat.succ_mul] at hj
      rw [List.length_drop]
      omega

/-- The window of a page that is not the last, with the item it drops. -/
theorem exists_window (rank : α → ℕ) (hk : k < rest.length) :
    ∃ a d b, rest.take (k + 1) = a ++ d :: b ∧ (∀ y ∈ a, rank d ≤ rank y) ∧ (∀ y ∈ b, rank d < rank y) ∧
      (fallingRank rank (rest.take (k + 1))).take k = fallingRank rank (a ++ b) := by
  have hne : rest.take (k + 1) ≠ [] := by
    intro h
    have hl := congrArg List.length h
    simp only [List.length_take, List.length_nil] at hl
    omega
  obtain ⟨d, a, b, hw, ha, hb⟩ := exists_least rank hne
  refine ⟨a, d, b, hw, ha, hb, ?_⟩
  have hl := congrArg List.length hw
  simp only [List.length_take, List.length_append, List.length_cons] at hl
  rw [hw, fallingRank_append_cons ha hb, List.take_append_of_le_length, List.take_of_length_le]
  · rw [(perm_fallingRank rank _).length_eq, List.length_append]
    omega
  · rw [(perm_fallingRank rank _).length_eq, List.length_append]
    omega

theorem exists_last (rank : α → ℕ) (hk : 0 < k) (hl : k < rest.length) :
    ∃ x, ((fallingRank rank (rest.take (k + 1))).take k).getLast? = some x := by
  have hne : (fallingRank rank (rest.take (k + 1))).take k ≠ [] := by
    rw [← List.length_pos_iff, List.length_take, (perm_fallingRank rank _).length_eq, List.length_take]
    omega
  exact ⟨_, List.getLast?_eq_some_getLast hne⟩

theorem mem_of_getLast? (hx : ((fallingRank rank (rest.take (k + 1))).take k).getLast? = some x) : x ∈ rest :=
  List.mem_of_mem_take ((perm_fallingRank rank _).mem_iff.mp (List.mem_of_mem_take (List.mem_of_getLast? hx)))

/-- Every item of the window but the lowest is shown. -/
theorem Follows.mem_of_window (h : Follows rank next k rest pages) (hx : x ∈ rest.take (k + 1))
    (hn : ¬Least rank (rest.take (k + 1)) x) : x ∈ pages.flatten := by
  cases h with
  | last hl =>
    rw [List.flatten_singleton, (perm_fallingRank rank _).mem_iff]
    exact List.mem_of_mem_take hx
  | next hk hl hne hp =>
    obtain ⟨a, d, b, hw, ha, hb, he⟩ := exists_window rank hk
    rw [List.flatten_cons, List.mem_append, he, (perm_fallingRank rank _).mem_iff]
    left
    rw [hw] at hx hn
    rcases List.mem_append.mp hx with hx | hx
    · exact List.mem_append_left _ hx
    · rcases List.mem_cons.mp hx with rfl | hx
      · exact absurd ⟨a, b, rfl, ha, hb⟩ hn
      · exact List.mem_append_right _ hx

end

section
variable {α : Type} {rank : α → ℕ} {next : α → Option (List α)} {k : ℕ} {vis rest rest' : List α}
  {pages : List (List α)} {x d : α}

/-- The rows that a cursor selects come last among those any cursor can select, and the row the
cursor was taken from is not one of them. -/
def Cursors (next : α → Option (List α)) (vis : List α) : Prop :=
  ∀ x rest, next x = some rest → rest <:+ vis ∧ x ∉ rest

theorem Cursors.suffix (hc : Cursors next vis) (hr : rest <:+ vis) (hx : x ∈ rest) (hn : next x = some rest') :
    rest' <:+ rest := by
  obtain ⟨hv, hx'⟩ := hc x rest' hn
  rcases List.suffix_or_suffix_of_suffix hv hr with h | h
  · exact h
  · exact absurd (h.subset hx) hx'

theorem Follows.subset (hc : Cursors next vis) (h : Follows rank next k rest pages) (hr : rest <:+ vis) :
    ∀ y ∈ pages.flatten, y ∈ rest := by
  induction h with
  | last hl =>
    intro y hy
    rw [List.flatten_singleton] at hy
    exact (perm_fallingRank rank _).mem_iff.mp hy
  | next hk hl hn hp ih =>
    intro y hy
    rw [List.flatten_cons, List.mem_append] at hy
    rcases hy with hy | hy
    · exact List.mem_of_mem_take ((perm_fallingRank rank _).mem_iff.mp (List.mem_of_mem_take hy))
    · have hs := hc.suffix hr (mem_of_getLast? hl) hn
      exact hs.subset (ih (hs.trans hr) y hy)

/-- When nothing is lost or repeated, the rows after the cursor start with the row the page dropped
and hold no other row of the page's window. -/
theorem Follows.dropped_first (hc : Cursors next vis) (hnd : rest.Nodup) (hk : k < rest.length)
    (hr : rest' <:+ vis) (hi : rest' <:+: rest) (h : Follows rank next k rest' pages)
    (hp : ((fallingRank rank (rest.take (k + 1))).take k ++ pages.flatten).Perm rest) :
    (∃ d t, rest' = d :: t ∧ Least rank (rest.take (k + 1)) d ∧ ∀ y ∈ t, y ∉ rest.take (k + 1)) ∧
      ∀ y ∈ rest.drop (k + 1), y ∈ rest' := by
  obtain ⟨a, d, b, hw, ha, hb, he⟩ := exists_window rank hk
  have hd : Least rank (rest.take (k + 1)) d := ⟨a, b, hw, ha, hb⟩
  have hnw : (a ++ d :: b).Nodup := hw ▸ hnd.sublist (List.take_sublist _ _)
  have hdab : d ∉ a ++ b := (List.nodup_middle.mp hnw).notMem
  rw [he] at hp
  have hnp : (fallingRank rank (a ++ b) ++ pages.flatten).Nodup := hp.nodup_iff.mpr hnd
  have hsub := h.subset hc hr
  have hrest : ∀ y ∈ rest, y ∉ a ++ b → y ∈ rest' := by
    intro y hy hn
    rcases List.mem_append.mp (hp.mem_iff.mpr hy) with hy | hy
    · exact absurd ((perm_fallingRank rank _).mem_iff.mp hy) hn
    · exact hsub y hy
  have hdr : d ∈ rest' := hrest d (List.mem_of_mem_take hd.mem) hdab
  -- a window row after the cursor ranks above `d`, so the next page shows it again
  have honly : ∀ y ∈ rest', y ∈ rest.take (k + 1) → y = d := by
    intro y hy hyw
    by_contra hne
    have hyab : y ∈ a ++ b := by
      rw [hw] at hyw
      simpa [hne] using hyw
    have hy' := mem_own_window hnd hi hy hyw
    have hd' := mem_own_window hnd hi hdr hd.mem
    have hnl : ¬Least rank (rest'.take (k + 1)) y := by
      intro hl
      have hs := (List.take_sublist (k + 1) rest').trans hi.sublist
      exact hne (least_eq_of_sublist hnd (List.take_sublist _ _) hs hd hl hyw hd')
    have hs := h.mem_of_window hy' hnl
    exact (List.nodup_append.mp hnp).2.2 y ((perm_fallingRank rank _).mem_iff.mpr hyab) y hs rfl
  refine ⟨?_, fun y hy ↦ hrest y (List.mem_of_mem_drop hy) fun hab ↦ ?_⟩
  · obtain ⟨e, t, rfl⟩ := List.exists_cons_of_ne_nil (List.ne_nil_of_mem hdr)
    obtain rfl : e = d := honly e (.head _) (head_mem_window hnd hi hdr hd.mem)
    refine ⟨e, t, rfl, hd, fun y hy hyw ↦ ?_⟩
    obtain rfl := honly y (.tail _ hy) hyw
    exact (List.nodup_cons.mp (hi.sublist.nodup hnd)).1 hy
  · have hyw : y ∈ rest.take (k + 1) := by
      rw [hw]
      simp only [List.mem_append, List.mem_cons] at hab ⊢
      tauto
    rw [← List.take_append_drop (k + 1) rest, List.nodup_append] at hnd
    exact hnd.2.2 y hyw y hy rfl

/-- Every item of `rest` is shown exactly once. -/
def Exact (rank : α → ℕ) (next : α → Option (List α)) (k : ℕ) (rest : List α) : Prop :=
  ∃ pages, Follows rank next k rest pages ∧ pages.flatten.Perm rest

theorem exact_of_length_le (h : rest.length ≤ k) : Exact rank next k rest :=
  ⟨_, .last h, by simpa using perm_fallingRank rank rest⟩

/-- A page whose window drops `d` and whose cursor goes on with what the page leaves. -/
theorem exact_of_window {a b : List α} (hk : 0 < k) (hl : k < rest.length) (hw : rest.take (k + 1) = a ++ d :: b)
    (ha : ∀ y ∈ a, rank d ≤ rank y) (hb : ∀ y ∈ b, rank d < rank y)
    (hn : ∀ x, Least rank (a ++ b) x → next x = some rest') (hp : (a ++ b ++ rest').Perm rest)
    (h : Exact rank next k rest') : Exact rank next k rest := by
  obtain ⟨pages, hf, hr⟩ := h
  have hlen := congrArg List.length hw
  simp only [List.length_take, List.length_append, List.length_cons] at hlen
  have hs : (fallingRank rank (rest.take (k + 1))).take k = fallingRank rank (a ++ b) := by
    rw [hw, take_fallingRank ha hb]
    rw [List.length_append]
    omega
  have hne : a ++ b ≠ [] := by
    intro h
    have h := congrArg List.length h
    simp only [List.length_append, List.length_nil] at h
    omega
  obtain ⟨x, hx⟩ := exists_least rank hne
  refine ⟨_, .next hl (by rw [hs]; exact hx.getLast?) (hn x hx) hf, ?_⟩
  rw [List.flatten_cons, hs]
  exact ((perm_fallingRank rank _).append hr).trans hp

theorem take_succ_of_lt (hl : k < rest.length) : ∃ d t, rest.drop k = d :: t ∧ rest.take (k + 1) = rest.take k ++ [d] := by
  refine ⟨rest[k], rest.drop (k + 1), List.drop_eq_getElem_cons hl, ?_⟩
  rw [List.take_succ_eq_append_getElem hl]

theorem Aligned.exact (hk : 0 < k) (h : Aligned rank next k rest) : Exact rank next k rest := by
  induction hn : rest.length using Nat.strong_induction_on generalizing rest with
  | _ n ih =>
    subst hn
    by_cases hl : k < rest.length
    · obtain ⟨hb, ht⟩ := (aligned_iff hl).mp h
      obtain ⟨d, t, hd, hw⟩ := take_succ_of_lt hl
      apply exact_of_window hk hl hw
      · exact hb.1 d (by rw [hd]; rfl)
      · intro y hy
        cases hy
      · rw [List.append_nil]
        exact hb.2
      · rw [List.append_nil, List.take_append_drop]
      · apply ih _ ?_ ht rfl
        rw [List.length_drop]
        omega
    · exact exact_of_length_le (not_lt.mp hl)

/-- The items before the cursor's are a page when the page dropped the first of them. -/
theorem length_eq_of_dropped {a t : List α} (hnd : (a ++ d :: t).Nodup) (hk : k < (a ++ d :: t).length)
    (hd : d ∈ (a ++ d :: t).take (k + 1)) (ht : ∀ y ∈ t, y ∉ (a ++ d :: t).take (k + 1)) : a.length = k := by
  rcases lt_trichotomy a.length k with hlt | he | hgt
  · cases t with
    | nil =>
      simp only [List.length_append, List.length_singleton] at hk
      omega
    | cons e t =>
      exfalso
      apply ht e (.head _)
      obtain ⟨c, hc⟩ : ∃ c, k + 1 - a.length = c + 2 := ⟨k - a.length - 1, by omega⟩
      rw [List.take_append, hc]
      simp
  · exact he
  · exfalso
    rw [List.take_append_of_le_length (by omega)] at hd
    exact (List.nodup_append.mp hnd).2.2 d (List.mem_of_mem_take hd) d (.head _) rfl

theorem aligned_of_exact (hc : Cursors next vis) (hnd : rest.Nodup) (hr : rest <:+ vis)
    (h : Exact rank next k rest) : Aligned rank next k rest := by
  obtain ⟨pages, hf, hp⟩ := h
  induction hf with
  | last hl =>
    intro j hj
    rw [Nat.succ_mul] at hj
    omega
  | @next rest rest' pages x hk hx hn hf ih =>
    have hs := hc.suffix hr (mem_of_getLast? hx) hn
    rw [List.flatten_cons] at hp
    obtain ⟨⟨d, t, rfl, hd, ht⟩, -⟩ := hf.dropped_first hc hnd hk (hs.trans hr) hs.isInfix hp
    obtain ⟨a, rfl⟩ := hs
    have ha : a.length = k := length_eq_of_dropped hnd hk hd.mem ht
    have hw : (a ++ d :: t).take (k + 1) = a ++ [d] := by
      rw [List.take_append, List.take_of_length_le (by omega), ha]
      simp
    have hle : ∀ y ∈ a, rank d ≤ rank y := by
      intro y hy
      apply hd.le
      rw [hw]
      exact List.mem_append_left _ hy
    have hpage : (fallingRank rank ((a ++ d :: t).take (k + 1))).take k = fallingRank rank a := by
      have hs := take_fallingRank hle (by simp) (b := []) ((congrArg List.length (List.append_nil a)).trans ha)
      rw [hw, hs, List.append_nil]
    rw [hpage] at hx hp
    rw [aligned_iff hk, List.drop_left' ha]
    refine ⟨⟨?_, ?_⟩, ?_⟩
    · rw [List.drop_left' ha, List.take_left' ha]
      intro e he
      obtain rfl : d = e := by simpa using he
      exact hle
    · rw [List.drop_left' ha, List.take_left' ha]
      intro y hy
      obtain rfl : x = y := Option.some_inj.mp (hx.symm.trans hy.getLast?)
      exact hn
    · apply ih (hnd.sublist (List.sublist_append_right _ _)) ((List.suffix_append _ _).trans hr)
      exact (List.perm_append_left_iff a).mp (((perm_fallingRank rank a).symm.append_right _).trans hp)

/-- A first page of all the items that also shows those no cursor selects: the last selectable one is
the one it drops. -/
def Overhang (rank : α → ℕ) (next : α → Option (List α)) (k : ℕ) (vis hid : List α) : Prop :=
  (vis ++ hid).length = k + 1 ∧ ∃ a d, vis = a ++ [d] ∧ (∀ y ∈ a, rank d ≤ rank y) ∧ (∀ y ∈ hid, rank d < rank y) ∧
    ∀ x, Least rank (a ++ hid) x → next x = some [d]

theorem Overhang.exact {hid : List α} (hk : 0 < k) (h : Overhang rank next k vis hid) :
    Exact rank next k (vis ++ hid) := by
  obtain ⟨hl, a, d, rfl, ha, hb, hn⟩ := h
  have hw : (a ++ [d] ++ hid).take (k + 1) = a ++ d :: hid := by
    rw [List.take_of_length_le hl.le]
    simp
  apply exact_of_window hk (by omega) hw ha hb hn
  · rw [List.append_assoc, List.append_assoc]
    exact List.perm_append_comm.append_left a
  · exact exact_of_length_le hk

theorem overhang_of_exact {hid : List α} (hc : Cursors next vis) (hnd : (vis ++ hid).Nodup) (hh : hid ≠ [])
    (hk : k < (vis ++ hid).length) (h : Exact rank next k (vis ++ hid)) : Overhang rank next k vis hid := by
  obtain ⟨pages, hf, hp⟩ := h
  cases hf with
  | last hl => omega
  | @next _ rest' pages x _ hx hn hf =>
    have hr := (hc x rest' hn).1
    have hi : rest' <:+: vis ++ hid := hr.isInfix.trans (List.prefix_append _ _).isInfix
    rw [List.flatten_cons] at hp
    obtain ⟨⟨d, t, rfl, hd, ht⟩, hrest⟩ := hf.dropped_first hc hnd hk hr hi hp
    have hlen : (vis ++ hid).length = k + 1 := by
      by_contra hne
      obtain ⟨init, z, rfl⟩ := hid.eq_nil_or_concat'.resolve_left hh
      have hz : z ∈ (vis ++ (init ++ [z])).drop (k + 1) := by
        simp only [List.length_append, List.length_singleton] at hk hne
        rw [← List.append_assoc, List.drop_append_of_le_length (by rw [List.length_append]; omega)]
        simp
      exact (List.nodup_append.mp hnd).2.2 z (hr.subset (hrest z hz)) z (by simp) rfl
    have hw : (vis ++ hid).take (k + 1) = vis ++ hid := List.take_of_length_le hlen.le
    rw [hw] at hd ht hx
    obtain rfl : t = [] := by
      apply List.eq_nil_iff_forall_not_mem.mpr
      intro y hy
      exact ht y hy (List.mem_append_left _ (hr.subset (.tail _ hy)))
    obtain ⟨a, rfl⟩ := hr
    obtain ⟨a', b', he, ha, hb⟩ := hd
    rw [List.append_assoc, List.singleton_append] at he hnd hx hlen
    have hda : d ∉ a ++ hid := (List.nodup_middle.mp hnd).notMem
    rw [List.mem_append, not_or] at hda
    obtain ⟨rfl, -, rfl⟩ := (List.append_cons_inj_of_notMem hda.1 hda.2).mp he
    refine ⟨by simpa using hlen, a, d, rfl, ha, hb, ?_⟩
    have hpage : (fallingRank rank (a ++ d :: hid)).take k = fallingRank rank (a ++ hid) := by
      apply take_fallingRank ha hb
      simp only [List.length_append, List.length_cons] at hlen ⊢
      omega
    intro y hy
    rw [hpage] at hx
    obtain rfl : x = y := Option.some_inj.mp (hx.symm.trans hy.getLast?)
    exact hn

/-- Reading all the items page by page shows each exactly once: the pages are aligned, or all the
items that no cursor selects are on the first page. -/
theorem exact_iff {hid : List α} (rank : α → ℕ) (hk : 0 < k) (hc : Cursors next vis) (hnd : (vis ++ hid).Nodup) :
    Exact rank next k (vis ++ hid) ↔
      (vis ++ hid).length ≤ k ∨ (hid = [] ∧ Aligned rank next k vis) ∨ Overhang rank next k vis hid := by
  constructor
  · intro h
    by_cases hl : (vis ++ hid).length ≤ k
    · exact .inl hl
    right
    by_cases hh : hid = []
    · subst hh
      rw [List.append_nil] at h hnd
      exact .inl ⟨rfl, aligned_of_exact hc hnd List.suffix_rfl h⟩
    · exact .inr (overhang_of_exact hc hnd hh (not_le.mp hl) h)
  · intro h
    rcases h with h | ⟨rfl, h⟩ | h
    · exact exact_of_length_le h
    · rw [List.append_nil]
      exact h.exact hk
    · exact h.exact hk

end

end Briefr.Library.KeysetPaging
