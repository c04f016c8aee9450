import Mathlib.Logic.Relation
import Mathlib.Logic.Function.Basic
import Mathlib.Data.List.Induction
import Mathlib.Data.Nat.Basic
import Mathlib.Order.Basic

namespace Briefr.Library.UnionFind

variable {ν : Type} [DecidableEq ν]

/-- Parent pointers, a node that is not in the table being its own parent, and the number of links made so far,
which bounds every path. -/
structure Forest (ν : Type) where
  parent : ν → ν
  links : ℕ

def Forest.start : Forest ν := ⟨id, 0⟩

/-- Climbs to the root, halving the path: each visited node is pointed at its grandparent. -/
def climb : ℕ → (ν → ν) → ν → (ν → ν) × ν
  | 0, parent, x => (parent, x)
  | fuel + 1, parent, x =>
    if parent x = x then (parent, x)
    else climb fuel (Function.update parent x (parent (parent x))) (parent (parent x))

def Forest.find (f : Forest ν) (x : ν) : Forest ν × ν :=
  let (parent, root) := climb f.links f.parent x
  (⟨parent, f.links⟩, root)

def Forest.merge (f : Forest ν) (a b : ν) : Forest ν :=
  let (f, ra) := f.find a
  let (f, rb) := f.find b
  if ra = rb then f else ⟨Function.update f.parent rb ra, f.links + 1⟩

def Forest.mergeAll (f : Forest ν) (pairs : List (ν × ν)) : Forest ν := pairs.foldl (fun f e ↦ f.merge e.1 e.2) f

/-- Looks up node after node in the forest as the lookups before left it. -/
def Forest.findAll (f : Forest ν) : List ν → List ν
  | [] => []
  | x :: xs => (f.find x).2 :: (f.find x).1.findAll xs

/-- The forest stands for the partition into the classes of equal representative. -/
structure Represents (f : Forest ν) (rep : ν → ν) (rank : ν → ℕ) : Prop where
  parent : ∀ x, rep (f.parent x) = rep x
  root : ∀ x, f.parent x = x → rep x = x
  rep_root : ∀ x, f.parent (rep x) = rep x
  rank_lt : ∀ x, f.parent x ≠ x → rank (f.parent x) < rank x
  rank_root : ∀ x, f.parent x = x → rank x = 0
  rank_le : ∀ x, rank x ≤ f.links

namespace Represents

variable {f : Forest ν} {rep : ν → ν} {rank : ν → ℕ}

omit [DecidableEq ν] in
theorem start : Represents (Forest.start : Forest ν) id fun _ ↦ 0 where
  parent _ := rfl
  root _ _ := rfl
  rep_root _ := rfl
  rank_lt _ h := absurd rfl h
  rank_root _ _ := rfl
  rank_le _ := le_rfl

omit [DecidableEq ν] in
theorem rep_rep (h : Represents f rep rank) (x : ν) : rep (rep x) = rep x := h.root _ (h.rep_root x)

omit [DecidableEq ν] in
theorem rank_grandparent (h : Represents f rep rank) {x : ν} (hx : f.parent x ≠ x) :
    rank (f.parent (f.parent x)) < rank x := by
  by_cases hp : f.parent (f.parent x) = f.parent x
  · rw [hp]
    exact h.rank_lt x hx
  · exact (h.rank_lt _ hp).trans (h.rank_lt x hx)

theorem halve (h : Represents f rep rank) {x : ν} (hx : f.parent x ≠ x) :
    Represents ⟨Function.update f.parent x (f.parent (f.parent x)), f.links⟩ rep rank := by
  have hg : f.parent (f.parent x) ≠ x := fun he ↦ absurd (h.rank_grandparent hx) (by rw [he]; exact lt_irrefl _)
  have hne : ∀ y, f.parent y = y → y ≠ x := fun y hy he ↦ hx (he ▸ hy)
  constructor
  · intro y
    dsimp only
    by_cases hy : y = x
    · subst hy
      rw [Function.update_self, h.parent, h.parent]
    · rw [Function.update_of_ne hy, h.parent]
  · intro y hy
    dsimp only at hy ⊢
    by_cases hyx : y = x
    · subst hyx
      rw [Function.update_self] at hy
      exact absurd hy hg
    · rw [Function.update_of_ne hyx] at hy
      exact h.root y hy
  · intro y
    dsimp only
    rw [Function.update_of_ne (hne _ (h.rep_root y)), h.rep_root]
  · intro y hy
    dsimp only at hy ⊢
    by_cases hyx : y = x
    · subst hyx
      rw [Function.update_self]
      exact h.rank_grandparent hx
    · rw [Function.update_of_ne hyx] at hy ⊢
      exact h.rank_lt y hy
  · intro y hy
    dsimp only at hy ⊢
    by_cases hyx : y = x
    · subst hyx
      rw [Function.update_self] at hy
      exact absurd hy hg
    · rw [Function.update_of_ne hyx] at hy
      exact h.rank_root y hy
  · exact h.rank_le

theorem climb {fuel : ℕ} {x : ν} (h : Represents f rep rank) (hx : rank x ≤ fuel) :
    (climb fuel f.parent x).2 = rep x ∧ Represents ⟨(UnionFind.climb fuel f.parent x).1, f.links⟩ rep rank := by
  induction fuel generalizing f x with
  | zero =>
    have hr : f.parent x = x := by
      by_contra hne
      exact absurd (h.rank_lt x hne) (by omega)
    exact ⟨(h.root x hr).symm, h⟩
  | succ fuel ih =>
    rw [UnionFind.climb]
    by_cases hr : f.parent x = x
    · rw [if_pos hr]
      exact ⟨(h.root x hr).symm, h⟩
    · rw [if_neg hr]
      have hlt := h.rank_grandparent hr
      have ih := ih (h.halve hr) (x := f.parent (f.parent x)) (by omega)
      rw [h.parent, h.parent] at ih
      exact ih

theorem find (h : Represents f rep rank) (x : ν) : (f.find x).2 = rep x ∧ Represents (f.find x).1 rep rank :=
  h.climb (h.rank_le x)

theorem findAll (h : Represents f rep rank) (xs : List ν) : f.findAll xs = xs.map rep := by
  induction xs generalizing f with
  | nil => rfl
  | cons x xs ih => rw [Forest.findAll, (h.find x).1, ih (h.find x).2, List.map_cons]

theorem link (h : Represents f rep rank) {ra rb : ν} (hra : rep ra = ra) (hrb : rep rb = rb) (hne : ra ≠ rb) :
    Represents ⟨Function.update f.parent rb ra, f.links + 1⟩ (fun x ↦ if rep x = rb then ra else rep x)
      fun x ↦ if rep x = rb then rank x + 1 else rank x := by
  have hroot : ∀ x, Function.update f.parent rb ra x = x → f.parent x = x ∧ rep x ≠ rb := by
    intro x hx
    by_cases hxb : x = rb
    · subst hxb
      rw [Function.update_self] at hx
      exact absurd hx hne
    · rw [Function.update_of_ne hxb] at hx
      exact ⟨hx, (h.root x hx).symm ▸ hxb⟩
  have hpa : f.parent ra = ra := hra ▸ h.rep_root ra
  constructor <;> dsimp only
  · intro x
    by_cases hxb : x = rb
    · subst hxb
      rw [Function.update_self, hra, if_neg hne, if_pos hrb]
    · rw [Function.update_of_ne hxb, h.parent]
  · intro x hx
    obtain ⟨hp, hn⟩ := hroot x hx
    rw [if_neg hn, h.root x hp]
  · intro x
    by_cases hx : rep x = rb
    · rw [if_pos hx, Function.update_of_ne hne, hpa]
    · rw [if_neg hx, Function.update_of_ne hx, h.rep_root]
  · intro x hx
    by_cases hxb : x = rb
    · subst hxb
      rw [Function.update_self, hra, if_neg hne, if_pos hrb, h.rank_root ra hpa]
      exact Nat.succ_pos _
    · rw [Function.update_of_ne hxb] at hx ⊢
      have hlt := h.rank_lt x hx
      rw [h.parent]
      split <;> omega
  · intro x hx
    obtain ⟨hp, hn⟩ := hroot x hx
    rw [if_neg hn, h.rank_root x hp]
  · intro x
    have hle := h.rank_le x
    split <;> omega

theorem merge (h : Represents f rep rank) (a b : ν) :
    ∃ rep' rank', Represents (f.merge a b) rep' rank' ∧
      ∀ x y, rep' x = rep' y ↔ rep x = rep y ∨ rep x = rep a ∧ rep y = rep b ∨ rep x = rep b ∧ rep y = rep a := by
  obtain ⟨ha, h1⟩ := h.find a
  obtain ⟨hb, h2⟩ := h1.find b
  simp only [Forest.merge, ha, hb]
  by_cases he : rep a = rep b
  · rw [if_pos he]
    refine ⟨rep, rank, h2, fun x y ↦ ?_⟩
    grind
  · rw [if_neg he]
    refine ⟨_, _, h2.link (h.rep_rep a) (h.rep_rep b) he, fun x y ↦ ?_⟩
    grind

/-- After any merges, two nodes have one representative exactly when the merged pairs connect them. -/
theorem mergeAll (pairs : List (ν × ν)) :
    ∃ rep rank, Represents (Forest.start.mergeAll pairs) rep rank ∧
      ∀ x y, rep x = rep y ↔ Relation.EqvGen (fun a b ↦ (a, b) ∈ pairs) x y := by
  induction pairs using List.reverseRecOn with
  | nil =>
    refine ⟨id, fun _ ↦ 0, start, fun x y ↦ ?_⟩
    constructor
    · intro he
      obtain rfl : x = y := he
      exact .refl x
    · intro he
      induction he with
      | rel a b hab => cases hab
      | refl => rfl
      | symm _ _ _ ih => exact ih.symm
      | trans _ _ _ _ _ ih ih' => exact ih.trans ih'
  | append_singleton pairs e ih =>
    obtain ⟨rep, rank, h, hrep⟩ := ih
    obtain ⟨rep', rank', h', hrep'⟩ := h.merge e.1 e.2
    refine ⟨rep', rank', ?_, fun x y ↦ ?_⟩
    · rw [Forest.mergeAll, List.foldl_append]
      exact h'
    · have hmono : ∀ {a b}, Relation.EqvGen (fun a b ↦ (a, b) ∈ pairs) a b →
          Relation.EqvGen (fun a b ↦ (a, b) ∈ pairs ++ [e]) a b :=
        fun hab ↦ Relation.EqvGen.mono (fun _ _ hm ↦ List.mem_append_left [e] hm) _ _ hab
      have he : Relation.EqvGen (fun a b ↦ (a, b) ∈ pairs ++ [e]) e.1 e.2 := .rel _ _ (by simp)
      constructor
      · intro hxy
        rcases (hrep' x y).mp hxy with hxy | ⟨hx, hy⟩ | ⟨hx, hy⟩
        · exact hmono ((hrep x y).mp hxy)
        · exact (hmono ((hrep _ _).mp hx)).trans _ _ _ (he.trans _ _ _ (hmono ((hrep _ _).mp hy.symm)))
        · exact (hmono ((hrep _ _).mp hx)).trans _ _ _ ((he.symm _ _).trans _ _ _ (hmono ((hrep _ _).mp hy.symm)))
      · intro hxy
        induction hxy with
        | rel a b hab =>
          rcases List.mem_append.mp hab with hab | hab
          · exact (hrep' a b).mpr (.inl ((hrep a b).mpr (.rel _ _ hab)))
          · obtain rfl := List.mem_singleton.mp hab
            exact (hrep' a b).mpr (.inr (.inl ⟨rfl, rfl⟩))
        | refl => rfl
        | symm _ _ _ ih => exact ih.symm
        | trans _ _ _ _ _ ih ih' => exact ih.trans ih'

end Represents

end Briefr.Library.UnionFind
