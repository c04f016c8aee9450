import Briefr.Library.StableSort
import Mathlib.Order.Basic
import Mathlib.Data.List.Basic

namespace Briefr.Library.FirstGreatest

variable {α κ : Type} [LinearOrder κ]

/-- The choice from a list whose items are compared by a key: the first of the greatest items. -/
structure IsFirst (key : α → κ) (l : List α) (x : α) : Prop where
  split : ∃ before after, l = before ++ x :: after ∧ (∀ b ∈ before, key b < key x) ∧ ∀ c ∈ after, key c ≤ key x

/-- An item put between two lists is greater than those before it and not less than those after it. -/
def Wins (key : α → κ) (before : List α) (x : α) (after : List α) : Prop :=
  (∀ b ∈ before, key b < key x) ∧ ∀ c ∈ after, key c ≤ key x

instance (key : α → κ) (before : List α) (x : α) (after : List α) : Decidable (Wins key before x after) :=
  inferInstanceAs (Decidable (_ ∧ _))

variable {key : α → κ} {l : List α} {x y : α}

theorem Wins.isFirst {before after : List α} (h : Wins key before x after) :
    IsFirst key (before ++ x :: after) x :=
  ⟨before, after, rfl, h.1, h.2⟩

theorem IsFirst.mem (h : IsFirst key l x) : x ∈ l := by
  obtain ⟨before, after, rfl, -⟩ := h
  exact List.mem_append_right _ (.head _)

theorem IsFirst.le (h : IsFirst key l x) {a : α} (ha : a ∈ l) : key a ≤ key x := by
  obtain ⟨before, after, rfl, hb, hc⟩ := h
  rcases List.mem_append.mp ha with ha | ha
  · exact (hb a ha).le
  · rcases List.mem_cons.mp ha with rfl | ha
    · exact le_refl _
    · exact hc a ha

theorem IsFirst.nil (h : IsFirst key [] x) : False := by cases h.mem

theorem isFirst_cons_iff {a : α} :
    IsFirst key (a :: l) x ↔ (x = a ∧ ∀ c ∈ l, key c ≤ key a) ∨ key a < key x ∧ IsFirst key l x := by
  constructor
  · rintro ⟨before, after, h, hb, hc⟩
    cases before with
    | nil =>
      obtain ⟨rfl, rfl⟩ := List.cons.inj h
      exact .inl ⟨rfl, hc⟩
    | cons b before =>
      obtain ⟨rfl, rfl⟩ := List.cons.inj h
      exact .inr ⟨hb a (.head _), before, after, rfl, fun b h ↦ hb b (.tail _ h), hc⟩
  · rintro (⟨rfl, hc⟩ | ⟨ha, before, after, rfl, hb, hc⟩)
    · exact ⟨[], l, rfl, (fun _ h ↦ by cases h), hc⟩
    · exact ⟨a :: before, after, rfl, List.forall_mem_cons.mpr ⟨ha, hb⟩, hc⟩

theorem IsFirst.unique (hx : IsFirst key l x) (hy : IsFirst key l y) : x = y := by
  induction l with
  | nil => exact hx.nil.elim
  | cons a l ih =>
    rcases isFirst_cons_iff.mp hx with ⟨rfl, hx⟩ | ⟨hx, hlx⟩ <;>
      rcases isFirst_cons_iff.mp hy with ⟨rfl, hy⟩ | ⟨hy, hly⟩
    · rfl
    · exact absurd hy (hx y hly.mem).not_gt
    · exact absurd hx (hy x hlx.mem).not_gt
    · exact ih hlx hly

theorem exists_isFirst (key : α → κ) (h : l ≠ []) : ∃ x, IsFirst key l x := by
  induction l with
  | nil => exact absurd rfl h
  | cons a l ih =>
    cases l with
    | nil => exact ⟨a, isFirst_cons_iff.mpr (.inl ⟨rfl, fun _ h ↦ by cases h⟩)⟩
    | cons b l =>
      obtain ⟨x, hx⟩ := ih (List.cons_ne_nil b l)
      rcases lt_or_ge (key a) (key x) with hlt | hge
      · exact ⟨x, isFirst_cons_iff.mpr (.inr ⟨hlt, hx⟩)⟩
      · exact ⟨a, isFirst_cons_iff.mpr (.inl ⟨rfl, fun c hc ↦ (hx.le hc).trans hge⟩)⟩

/-- The loop of `max` takes an item only when it is greater than the best one so far. -/
theorem isFirst_foldl (key : α → κ) (a : α) (l : List α) :
    IsFirst key (a :: l) (l.foldl (fun best i ↦ if key best < key i then i else best) a) := by
  induction l generalizing a with
  | nil => exact isFirst_cons_iff.mpr (.inl ⟨rfl, fun _ h ↦ by cases h⟩)
  | cons b l ih =>
    rw [List.foldl_cons]
    by_cases hab : key a < key b
    · rw [if_pos hab]
      have hb := ih b
      exact isFirst_cons_iff.mpr (.inr ⟨hab.trans_le (hb.le (.head _)), hb⟩)
    · rw [if_neg hab]
      rcases isFirst_cons_iff.mp (ih a) with ⟨h, hl⟩ | ⟨hlt, hl⟩
      · exact isFirst_cons_iff.mpr (.inl ⟨h, List.forall_mem_cons.mpr ⟨not_lt.mp hab, hl⟩⟩)
      · refine isFirst_cons_iff.mpr (.inr ⟨hlt, isFirst_cons_iff.mpr (.inr ⟨?_, hl⟩)⟩)
        exact (not_lt.mp hab).trans_lt hlt

/-- An item that does not win leaves the choice as it was. -/
theorem IsFirst.insert_of_not_wins {before after : List α} (h : IsFirst key (before ++ after) y)
    (hx : ¬Wins key before x after) : IsFirst key (before ++ x :: after) y := by
  induction before with
  | nil =>
    refine isFirst_cons_iff.mpr (.inr ⟨?_, h⟩)
    by_contra hle
    exact hx ⟨fun _ h ↦ (by cases h), fun c hc ↦ (h.le hc).trans (not_lt.mp hle)⟩
  | cons b before ih =>
    rcases isFirst_cons_iff.mp h with ⟨rfl, hl⟩ | ⟨hlt, hl⟩
    · refine isFirst_cons_iff.mpr (.inl ⟨rfl, ?_⟩)
      intro c hc
      rcases List.mem_append.mp hc with hc | hc
      · exact hl c (List.mem_append_left _ hc)
      · rcases List.mem_cons.mp hc with rfl | hc
        · by_contra hlt
          refine hx ⟨?_, fun d hd ↦ (hl d (List.mem_append_right _ hd)).trans (not_le.mp hlt).le⟩
          intro d hd
          rcases List.mem_cons.mp hd with rfl | hd
          · exact not_le.mp hlt
          · exact (hl d (List.mem_append_left _ hd)).trans_lt (not_le.mp hlt)
        · exact hl c (List.mem_append_right _ hc)
    · by_cases hw : Wins key before x after
      · -- then `b` itself is not less than the item, and so is the choice
        refine isFirst_cons_iff.mpr (.inr ⟨hlt, ?_⟩)
        exfalso
        refine hx ⟨List.forall_mem_cons.mpr ⟨?_, hw.1⟩, hw.2⟩
        rcases List.mem_append.mp hl.mem with hy | hy
        · exact hlt.trans (hw.1 y hy)
        · exact hlt.trans_le (hw.2 y hy)
      · exact isFirst_cons_iff.mpr (.inr ⟨hlt, ih hl hw⟩)

/-- An item in the place of a lesser one leaves the choice as it was, unless it wins. -/
theorem IsFirst.replace_of_not_wins {before after : List α} {m : α} (h : IsFirst key (before ++ m :: after) y)
    (hle : key m ≤ key x) (hx : ¬Wins key before x after) : IsFirst key (before ++ x :: after) y := by
  have hy : IsFirst key (before ++ after) y := by
    by_cases hw : Wins key before m after
    · exfalso
      exact hx ⟨fun b hb ↦ (hw.1 b hb).trans_le hle, fun c hc ↦ (hw.2 c hc).trans hle⟩
    · have hne : before ++ after ≠ [] := by
        intro hnil
        obtain ⟨rfl, rfl⟩ := List.append_eq_nil_iff.mp hnil
        exact hw ⟨fun _ h ↦ (by cases h), fun _ h ↦ by cases h⟩
      obtain ⟨z, hz⟩ := exists_isFirst key hne
      exact (hz.insert_of_not_wins hw).unique h ▸ hz
  exact hy.insert_of_not_wins hx

/-- One item more leaves the choice or follows one that is not greater. -/
theorem IsFirst.insert {before after : List α} (h : IsFirst key (before ++ after) y) :
    IsFirst key (before ++ x :: after) y ∨ IsFirst key (before ++ x :: after) x ∧ key y ≤ key x := by
  by_cases hw : Wins key before x after
  · have hx := hw.isFirst
    refine .inr ⟨hx, hx.le ?_⟩
    rcases List.mem_append.mp h.mem with hy | hy
    · exact List.mem_append_left _ hy
    · exact List.mem_append_right _ (.tail _ hy)
  · exact .inl (h.insert_of_not_wins hw)

/-- So does an item in the place of a lesser one. -/
theorem IsFirst.replace {before after : List α} {m : α} (h : IsFirst key (before ++ m :: after) y)
    (hle : key m ≤ key x) :
    IsFirst key (before ++ x :: after) y ∨ IsFirst key (before ++ x :: after) x ∧ key y ≤ key x := by
  by_cases hw : Wins key before x after
  · have hx := hw.isFirst
    refine .inr ⟨hx, ?_⟩
    rcases List.mem_append.mp h.mem with hy | hy
    · exact hx.le (List.mem_append_left _ hy)
    · rcases List.mem_cons.mp hy with rfl | hy
      · exact hle
      · exact hx.le (List.mem_append_right _ (.tail _ hy))
  · exact .inl (h.replace_of_not_wins hle hw)

/-- What the first of the greatest items gives does not depend on the order exactly when all greatest ones give it. -/
theorem forall_perm_iff {β : Type} {v : α → β} (h : IsFirst key l x) :
    (∀ l' y, l'.Perm l → IsFirst key l' y → v y = v x) ↔ ∀ a ∈ l, key a = key x → v a = v x := by
  constructor
  · intro hl a ha hkey
    obtain ⟨s, t, rfl⟩ := List.append_of_mem ha
    refine hl (a :: (s ++ t)) a List.perm_middle.symm (isFirst_cons_iff.mpr (.inl ⟨rfl, ?_⟩))
    intro c hc
    rw [hkey]
    rcases List.mem_append.mp hc with hc | hc
    · exact h.le (List.mem_append_left _ hc)
    · exact h.le (List.mem_append_right _ (.tail _ hc))
  · intro hl l' y hp hy
    have hmem := hp.mem_iff.mp hy.mem
    exact hl y hmem ((h.le hmem).antisymm (hy.le (hp.mem_iff.mpr h.mem)))

end Briefr.Library.FirstGreatest

namespace Briefr.Library.Oldest

open Briefr.Library.StableSort

variable {α κ : Type} [LinearOrder κ] {key : α → κ}

/-- What is older than one of the oldest `n` is one of them. -/
theorem mem_take_of_lt {l : List α} {n : ℕ} {x y : α} (hx : x ∈ l) (hy : y ∈ (sortBy key l).take n)
    (h : key x < key y) : x ∈ (sortBy key l).take n := by
  have hp := pairwise_sortBy key l
  rw [← List.take_append_drop n (sortBy key l), List.pairwise_append] at hp
  have hx : x ∈ (sortBy key l).take n ++ (sortBy key l).drop n := by
    rw [List.take_append_drop]
    exact (perm_sortBy key l).mem_iff.mpr hx
  rcases List.mem_append.mp hx with hx | hx
  · exact hx
  · exact absurd (hp.2.2 y hy x hx) (not_le.mpr h)

/-- The last of the oldest `n` lies outside a lower set exactly when fewer than `n` lie inside. -/
theorem last_not_lower_iff {p : κ → Prop} [DecidablePred p] (hp : ∀ a b, a ≤ b → p b → p a) {l : List α} {n : ℕ}
    {e : α} (he : ((sortBy key l).take n).getLast? = some e) (hn : n ≤ l.length) :
    ¬p (key e) ↔ l.countP (fun x ↦ p (key x)) < n := by
  obtain ⟨init, hi⟩ := List.getLast?_eq_some_iff.mp he
  have hlen : (sortBy key l).length = l.length := (perm_sortBy key l).length_eq
  have hinit : init.length + 1 = n := by
    have h := congrArg List.length hi
    simp only [List.length_take, List.length_append, List.length_singleton, hlen] at h
    omega
  have hs : sortBy key l = init ++ e :: (sortBy key l).drop n := by
    conv_lhs => rw [← List.take_append_drop n (sortBy key l), hi]
    simp
  have hpair := pairwise_sortBy key l
  rw [hs, List.pairwise_append, List.pairwise_cons] at hpair
  rw [← (perm_sortBy key l).countP_eq, hs, List.countP_append, List.countP_cons]
  constructor
  · intro hne
    have hz : ((sortBy key l).drop n).countP (fun x ↦ p (key x)) = 0 := by
      rw [List.countP_eq_zero]
      intro x hx
      simpa using fun hpx ↦ hne (hp _ _ (hpair.2.1.1 x hx) hpx)
    have hle := List.countP_le_length (p := fun x ↦ decide (p (key x))) (l := init)
    simp only [hz, hne, decide_false, Bool.false_eq_true, if_false]
    omega
  · intro hlt hpe
    have hall : init.countP (fun x ↦ p (key x)) = init.length := by
      rw [List.countP_eq_length]
      intro x hx
      exact decide_eq_true (hp _ _ (hpair.2.2 x hx e (.head _)) hpe)
    simp only [hall, hpe, decide_true, if_true] at hlt
    omega

/-- Of elements with distinct keys, one is among the oldest `n` exactly when fewer than `n` are older. -/
theorem mem_take_iff (key : α → κ) {l : List α} (hl : (l.map key).Nodup) {x : α} (hx : x ∈ l) (n : ℕ) :
    x ∈ (sortBy key l).take n ↔ l.countP (fun y ↦ key y < key x) < n := by
  have hp := perm_sortBy key l
  have hnd : ((sortBy key l).map key).Nodup := (hp.map key).nodup_iff.mpr hl
  obtain ⟨older, newer, hs⟩ := List.append_of_mem (hp.mem_iff.mpr hx)
  have hpair := pairwise_sortBy key l
  rw [hs, List.pairwise_append, List.pairwise_cons] at hpair
  rw [hs, List.map_append, List.map_cons, List.nodup_append, List.nodup_cons] at hnd
  have hold : older.countP (fun y ↦ decide (key y < key x)) = older.length := by
    rw [List.countP_eq_length]
    intro y hy
    have hne : key y ≠ key x := hnd.2.2 (key y) (List.mem_map_of_mem hy) (key x) (.head _)
    exact decide_eq_true (lt_of_le_of_ne (hpair.2.2 y hy x (.head _)) hne)
  have hnew : newer.countP (fun y ↦ decide (key y < key x)) = 0 := by
    rw [List.countP_eq_zero]
    intro y hy
    simpa using hpair.2.1.1 y hy
  have hcount : l.countP (fun y ↦ decide (key y < key x)) = older.length := by
    rw [← hp.countP_eq, hs, List.countP_append, List.countP_cons, hold, hnew]
    simp
  rw [hcount, hs]
  constructor
  · intro hm
    by_contra hle
    rw [List.take_append_of_le_length (not_lt.mp hle)] at hm
    exact hnd.2.2 (key x) (List.mem_map_of_mem (List.mem_of_mem_take hm)) (key x) (.head _) rfl
  · intro hlt
    rw [List.take_append]
    refine List.mem_append_right _ ?_
    obtain ⟨k, hk⟩ : ∃ k, n - older.length = k + 1 := ⟨n - older.length - 1, by omega⟩
    rw [hk, List.take_succ_cons]
    exact .head _

end Briefr.Library.Oldest
