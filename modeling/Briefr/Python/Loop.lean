import Mathlib.Data.List.ProdSigma
import Briefr.Python.Text

namespace Briefr.Python

variable {ε α β : Type}

theorem bind_eq_ok {x : Except ε α} {f : α → Except ε β} {b : β} :
    (x >>= f) = .ok b ↔ ∃ a, x = .ok a ∧ f a = .ok b := by
  cases x with
  | error e => simp [bind, Except.bind]
  | ok a => simp [bind, Except.bind]

theorem map_eq_ok {x : Except ε α} {f : α → β} {b : β} :
    f <$> x = .ok b ↔ ∃ a, x = .ok a ∧ f a = b := by
  cases x with
  | error e => simp [Functor.map, Except.map]
  | ok a => simp [Functor.map, Except.map]

@[simp] theorem ok_bind (a : α) (f : α → Except ε β) : ((.ok a : Except ε α) >>= f) = f a := rfl

@[simp] theorem error_bind (e : ε) (f : α → Except ε β) : ((.error e : Except ε α) >>= f) = .error e := rfl

@[simp] theorem pure_eq_ok (a : α) : (pure a : Except ε α) = .ok a := rfl

theorem mapM_eq_ok {f : α → Py β} {l : List α} {ys : List β} :
    l.mapM f = .ok ys ↔ List.Forall₂ (fun x y ↦ f x = .ok y) l ys := by
  induction l generalizing ys with
  | nil => simp [eq_comm]
  | cons x l ih =>
    simp only [List.mapM_cons, bind_eq_ok, pure_eq_ok, Except.ok.injEq, List.forall₂_cons_left_iff]
    constructor
    · rintro ⟨y, hy, ys', hys, rfl⟩
      exact ⟨y, ys', hy, ih.mp hys, rfl⟩
    · rintro ⟨y, ys', hy, hys, rfl⟩
      exact ⟨y, hy, ys', ih.mpr hys, rfl⟩

theorem mapM_defined {f : α → Py β} {l : List α} (h : ∀ x ∈ l, ∃ y, f x = .ok y) : ∃ ys, l.mapM f = .ok ys := by
  induction l with
  | nil => exact ⟨[], rfl⟩
  | cons x l ih =>
    obtain ⟨y, hy⟩ := h x (.head _)
    obtain ⟨ys, hys⟩ := ih fun x hx ↦ h x (.tail _ hx)
    exact ⟨y :: ys, by rw [List.mapM_cons, hy, ok_bind, hys]; rfl⟩

theorem mem_of_mapM {f : α → Py β} {l : List α} {ys : List β} (h : l.mapM f = .ok ys) {x : α} (hx : x ∈ l) :
    ∃ y ∈ ys, f x = .ok y := by
  induction mapM_eq_ok.mp h with
  | nil => cases hx
  | @cons a b l' ys' hab hl ih =>
    cases hx with
    | head => exact ⟨b, .head _, hab⟩
    | tail _ hx =>
      obtain ⟨y, hy, hf⟩ := ih (mapM_eq_ok.mpr hl) hx
      exact ⟨y, .tail _ hy, hf⟩

theorem mem_of_mem_mapM {f : α → Py β} {l : List α} {ys : List β} (h : l.mapM f = .ok ys) {y : β} (hy : y ∈ ys) :
    ∃ x ∈ l, f x = .ok y := by
  induction mapM_eq_ok.mp h with
  | nil => cases hy
  | @cons a b l' ys' hab hl ih =>
    cases hy with
    | head => exact ⟨a, .head _, hab⟩
    | tail _ hy =>
      obtain ⟨x, hx, hf⟩ := ih (mapM_eq_ok.mpr hl) hy
      exact ⟨x, .tail _ hx, hf⟩

theorem error_of_not_ok {x : Py α} (h : ¬∃ a, x = .ok a) : ∃ e, x = .error e := by
  cases x with
  | error e => exact ⟨e, rfl⟩
  | ok a => exact (h ⟨a, rfl⟩).elim

/-- Keep the larger of the best value so far and a new one that may be absent. -/
def better (best : ℕ) : Option ℕ → ℕ
  | some s => if best < s then s else best
  | none => best

/-- A loop over `l` that raises nothing and ends with the largest value `f` gives, or with `b`. -/
structure IsBest (f : α → Py (Option ℕ)) (l : List α) (b n : ℕ) : Prop where
  defined : ∀ x ∈ l, ∃ s, f x = .ok s
  start_le : b ≤ n
  le : ∀ x ∈ l, ∀ s, f x = .ok (some s) → s ≤ n
  attained : n = b ∨ ∃ x ∈ l, f x = .ok (some n)

def bestLoop (f : α → Py (Option ℕ)) (l : List α) (b : ℕ) : Py ℕ :=
  l.foldlM (fun best x ↦ do return better best (← f x)) b

theorem le_better (b : ℕ) (s : Option ℕ) : b ≤ better b s := by
  cases s with
  | none => exact le_rfl
  | some s => simp only [better]; split <;> omega

theorem better_cases (b : ℕ) (s : Option ℕ) : better b s = b ∨ s = some (better b s) := by
  cases s with
  | none => exact .inl rfl
  | some s => simp only [better]; split <;> simp

theorem IsBest.of_bestLoop {f : α → Py (Option ℕ)} {l : List α} {b n : ℕ}
    (h : bestLoop f l b = .ok n) : IsBest f l b n := by
  induction l generalizing b with
  | nil =>
    have hn : b = n := by simpa [bestLoop] using h
    exact ⟨by simp, hn.le, by simp, .inl hn.symm⟩
  | cons x l ih =>
    simp only [bestLoop, List.foldlM_cons, bind_eq_ok] at h
    obtain ⟨c, ⟨s, hs, hc⟩, hl⟩ := h
    have hc : better b s = c := by simpa using hc
    have h := ih (b := c) hl
    have hb : b ≤ c := hc ▸ le_better b s
    refine ⟨?_, hb.trans h.start_le, ?_, ?_⟩
    · rintro y (_ | ⟨_, hy⟩)
      · exact ⟨s, hs⟩
      · exact h.defined y hy
    · rintro y (_ | ⟨_, hy⟩) t ht
      · have he : s = some t := by simpa [hs] using ht
        have hle : t ≤ c := by rw [← hc, he]; simp only [better]; split <;> omega
        exact hle.trans h.start_le
      · exact h.le y hy t ht
    · rcases h.attained with rfl | ⟨y, hy, hn⟩
      · rcases better_cases b s with he | he
        · exact .inl (hc ▸ he)
        · exact .inr ⟨x, .head _, by rw [hs, ← hc, ← he]⟩
      · exact .inr ⟨y, .tail _ hy, hn⟩

theorem IsBest.unique {f : α → Py (Option ℕ)} {l : List α} {b m n : ℕ}
    (hm : IsBest f l b m) (hn : IsBest f l b n) : m = n := by
  apply le_antisymm
  · rcases hm.attained with rfl | ⟨x, hx, h⟩
    · exact hn.start_le
    · exact hn.le x hx m h
  · rcases hn.attained with rfl | ⟨x, hx, h⟩
    · exact hm.start_le
    · exact hm.le x hx n h

theorem bestLoop_defined {f : α → Py (Option ℕ)} {l : List α} (b : ℕ)
    (h : ∀ x ∈ l, ∃ s, f x = .ok s) : ∃ n, bestLoop f l b = .ok n := by
  induction l generalizing b with
  | nil => exact ⟨b, rfl⟩
  | cons x l ih =>
    obtain ⟨s, hs⟩ := h x (.head _)
    obtain ⟨n, hn⟩ := ih (better b s) (fun y hy ↦ h y (.tail _ hy))
    exact ⟨n, by simpa [bestLoop, hs] using hn⟩

theorem bestLoop_eq_ok {f : α → Py (Option ℕ)} {l : List α} {b n : ℕ} :
    bestLoop f l b = .ok n ↔ IsBest f l b n := by
  refine ⟨IsBest.of_bestLoop, fun h ↦ ?_⟩
  obtain ⟨m, hm⟩ := bestLoop_defined b h.defined
  rw [hm, (IsBest.of_bestLoop hm).unique h]

/-- Two nested loops are one loop over the pairs. -/
theorem bestLoop_product (f : α → β → Py (Option ℕ)) (l : List α) (m : List β) (b : ℕ) :
    l.foldlM (fun best x ↦ bestLoop (f x) m best) b =
      bestLoop (fun p : α × β ↦ f p.1 p.2) (l ×ˢ m) b := by
  induction l generalizing b with
  | nil => rfl
  | cons x l ih =>
    simp only [List.foldlM_cons, ih, List.product_cons]
    simp only [bestLoop, List.foldlM_append, List.foldlM_map]

end Briefr.Python
