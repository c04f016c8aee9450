import Mathlib.Algebra.Order.Group.Nat
import Mathlib.Order.Std

namespace Briefr.Library.PaddedLex

variable {α β : Type} (cmp : α → α → Ordering) (pad : α)

/-- The first `n` elements of two lists, compared one after the other. What is missing counts as the padding. -/
def compareFirst : ℕ → List α → List α → Ordering
  | 0 => fun _ _ ↦ .eq
  | n + 1 => compareLex (fun a b ↦ cmp (a.headD pad) (b.headD pad)) fun a b ↦ compareFirst n a.tail b.tail

def comparePadded (a b : List α) : Ordering := compareFirst cmp pad (max a.length b.length) a b

variable {cmp pad} {a b : List α}

theorem compareFirst_succ (n : ℕ) (a b : List α) :
    compareFirst cmp pad (n + 1) a b = (cmp (a.headD pad) (b.headD pad)).then (compareFirst cmp pad n a.tail b.tail) := rfl

instance compareFirst_trans [Std.TransCmp cmp] : (n : ℕ) → Std.TransCmp (compareFirst cmp pad n)
  | 0 => { eq_swap := rfl, isLE_trans := fun _ _ ↦ rfl }
  | n + 1 =>
    have : Std.TransCmp (compareFirst cmp pad n) := compareFirst_trans n
    have : Std.TransCmp fun a b : List α ↦ cmp (a.headD pad) (b.headD pad) :=
      { eq_swap := Std.OrientedCmp.eq_swap, isLE_trans := Std.TransCmp.isLE_trans }
    have : Std.TransCmp fun a b : List α ↦ compareFirst cmp pad n a.tail b.tail :=
      { eq_swap := Std.OrientedCmp.eq_swap, isLE_trans := Std.TransCmp.isLE_trans }
    inferInstanceAs (Std.TransCmp (compareLex _ _))

section
variable [Std.ReflCmp cmp]

theorem compareFirst_nil (n : ℕ) : compareFirst cmp pad n [] [] = .eq := by
  induction n with
  | zero => rfl
  | succ n ih =>
    have hpad : cmp pad pad = .eq := Std.ReflCmp.compare_self
    rw [compareFirst_succ, List.headD_nil, hpad]
    exact ih

/-- Past the ends of both lists there is nothing left to compare. -/
theorem compareFirst_eq {n : ℕ} (ha : a.length ≤ n) (hb : b.length ≤ n) :
    compareFirst cmp pad n a b = comparePadded cmp pad a b := by
  have hmore : ∀ m a b, a.length ≤ m → b.length ≤ m → ∀ k, compareFirst cmp pad (m + k) a b = compareFirst cmp pad m a b := by
    intro m
    induction m with
    | zero =>
      intro a b ha hb k
      rw [List.length_eq_zero_iff.mp (Nat.le_zero.mp ha), List.length_eq_zero_iff.mp (Nat.le_zero.mp hb), compareFirst_nil,
        compareFirst_nil]
    | succ m ih =>
      intro a b ha hb k
      rw [Nat.add_right_comm, compareFirst_succ, compareFirst_succ, ih a.tail b.tail _ _ k]
      · rw [List.length_tail]
        omega
      · rw [List.length_tail]
        omega
  have hk := hmore (max a.length b.length) a b (le_max_left _ _) (le_max_right _ _) (n - max a.length b.length)
  rwa [Nat.add_sub_cancel' (max_le ha hb)] at hk

theorem comparePadded_eq_then (h : a ≠ [] ∨ b ≠ []) : comparePadded cmp pad a b =
    (cmp (a.headD pad) (b.headD pad)).then (comparePadded cmp pad a.tail b.tail) := by
  have hpos : 0 < max a.length b.length := by
    rcases h with h | h
    · exact lt_max_of_lt_left (List.length_pos_iff.mpr h)
    · exact lt_max_of_lt_right (List.length_pos_iff.mpr h)
  obtain ⟨n, hn⟩ := Nat.exists_eq_succ_of_ne_zero hpos.ne'
  rw [comparePadded, hn, Nat.succ_eq_add_one, compareFirst_succ, compareFirst_eq]
  · rw [List.length_tail]
    omega
  · rw [List.length_tail]
    omega

@[simp] theorem comparePadded_cons (x y : α) (a b : List α) :
    comparePadded cmp pad (x :: a) (y :: b) = (cmp x y).then (comparePadded cmp pad a b) :=
  comparePadded_eq_then (.inl (List.cons_ne_nil x a))

@[simp] theorem comparePadded_cons_nil (x : α) (a : List α) :
    comparePadded cmp pad (x :: a) [] = (cmp x pad).then (comparePadded cmp pad a []) :=
  comparePadded_eq_then (.inl (List.cons_ne_nil x a))

@[simp] theorem comparePadded_nil_cons (y : α) (b : List α) :
    comparePadded cmp pad [] (y :: b) = (cmp pad y).then (comparePadded cmp pad [] b) :=
  comparePadded_eq_then (.inr (List.cons_ne_nil y b))

theorem comparePadded_append (p a b : List α) :
    comparePadded cmp pad (p ++ a) (p ++ b) = comparePadded cmp pad a b := by
  induction p with
  | nil => rfl
  | cons x p ih =>
    have hx : cmp x x = .eq := Std.ReflCmp.compare_self
    rw [List.cons_append, List.cons_append, comparePadded_cons, hx]
    exact ih

theorem comparePadded_self (a : List α) : comparePadded cmp pad a a = .eq := by
  have h : comparePadded cmp pad (a ++ []) (a ++ []) = comparePadded cmp pad [] [] := comparePadded_append a [] []
  rwa [List.append_nil] at h

/-- Nothing is below a list of paddings where the padding is least. -/
theorem comparePadded_nil_isLE (h : ∀ y, (cmp pad y).isLE) (b : List α) : (comparePadded cmp pad [] b).isLE := by
  induction b with
  | nil => rfl
  | cons y b ih =>
    rw [comparePadded_nil_cons, Ordering.isLE_then_iff_and]
    exact ⟨h y, .inr ih⟩

/-- A comparison by keys is the comparison of the lists of keys. -/
theorem comparePadded_map {key : α → β} {cmp' : β → β → Ordering} [Std.ReflCmp cmp'] {valid : α → Prop} (hp : valid pad)
    (h : ∀ x y, valid x → valid y → cmp x y = cmp' (key x) (key y)) (ha : ∀ x ∈ a, valid x) (hb : ∀ y ∈ b, valid y) :
    comparePadded cmp pad a b = comparePadded cmp' (key pad) (a.map key) (b.map key) := by
  induction a generalizing b with
  | nil =>
    induction b with
    | nil => rfl
    | cons y b ih =>
      obtain ⟨hy, hb⟩ := List.forall_mem_cons.mp hb
      rw [List.map_nil] at ih ⊢
      rw [List.map_cons, comparePadded_nil_cons, comparePadded_nil_cons, h pad y hp hy, ih hb]
  | cons x a ih =>
    obtain ⟨hx, ha⟩ := List.forall_mem_cons.mp ha
    cases b with
    | nil =>
      have ih := ih ha (b := []) hb
      rw [List.map_nil] at ih ⊢
      rw [List.map_cons, comparePadded_cons_nil, comparePadded_cons_nil, h x pad hx hp, ih]
    | cons y b =>
      obtain ⟨hy, hb⟩ := List.forall_mem_cons.mp hb
      rw [List.map_cons, List.map_cons, comparePadded_cons, comparePadded_cons, h x y hx hy, ih ha hb]

end

/-- Lists of any lengths are in a total preorder. -/
instance comparePadded_trans [Std.TransCmp cmp] : Std.TransCmp (comparePadded cmp pad) where
  eq_swap {a b} := by
    rw [comparePadded, comparePadded, max_comm]
    exact Std.OrientedCmp.eq_swap
  isLE_trans {a b c} := by
    have ha : a.length ≤ max a.length (max b.length c.length) := le_max_left _ _
    have hb : b.length ≤ max a.length (max b.length c.length) := (le_max_left _ _).trans (le_max_right _ _)
    have hc : c.length ≤ max a.length (max b.length c.length) := (le_max_right _ _).trans (le_max_right _ _)
    rw [← compareFirst_eq ha hb, ← compareFirst_eq hb hc, ← compareFirst_eq ha hc]
    exact Std.TransCmp.isLE_trans

end Briefr.Library.PaddedLex
