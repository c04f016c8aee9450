import Mathlib.Data.List.Basic
import Mathlib.Algebra.BigOperators.Group.Finset.Basic
import Mathlib.Logic.Function.Basic

namespace Briefr.Library.Runs

variable {σ ε : Type} (step : σ → ε → σ)

def run (s : σ) (events : List ε) : σ := events.foldl step s

/-- Every event of the run meets a condition on the state in which it happens. -/
def Along (cond : σ → ε → Prop) : σ → List ε → Prop
  | _, [] => True
  | s, e :: events => cond s e ∧ Along cond (step s e) events

variable {step}

instance decidableAlong {cond : σ → ε → Prop} [∀ s e, Decidable (cond s e)] :
    (s : σ) → (events : List ε) → Decidable (Along step cond s events)
  | _, [] => inferInstanceAs (Decidable True)
  | s, e :: events =>
    have : Decidable (Along step cond (step s e) events) := decidableAlong (step s e) events
    inferInstanceAs (Decidable (cond s e ∧ Along step cond (step s e) events))

@[simp] theorem run_nil (s : σ) : run step s [] = s := rfl

@[simp] theorem run_cons (s : σ) (e : ε) (events : List ε) : run step s (e :: events) = run step (step s e) events := rfl

theorem run_append (s : σ) (before after : List ε) :
    run step s (before ++ after) = run step (run step s before) after := List.foldl_append

/-- What every step that meets the condition preserves holds at the end of the run. -/
theorem run_induction {cond : σ → ε → Prop} {inv : σ → Prop} {s : σ} {events : List ε}
    (hstep : ∀ s e, inv s → cond s e → inv (step s e)) (hs : inv s) (h : Along step cond s events) :
    inv (run step s events) := by
  induction events generalizing s with
  | nil => exact hs
  | cons e events ih => exact ih (hstep s e hs h.1) h.2

theorem run_invariant {inv : σ → Prop} {s : σ} (events : List ε) (hstep : ∀ s e, inv s → inv (step s e)) (hs : inv s) :
    inv (run step s events) := by
  induction events generalizing s with
  | nil => exact hs
  | cons e events ih => exact ih (hstep s e hs)

theorem along_append {cond : σ → ε → Prop} {s : σ} {before after : List ε} :
    Along step cond s (before ++ after) ↔ Along step cond s before ∧ Along step cond (run step s before) after := by
  induction before generalizing s with
  | nil => simp [Along]
  | cons e before ih => simp only [List.cons_append, Along, ih, run_cons, and_assoc]

/-- The condition holds along a run exactly when it holds of each event after the events before it. -/
theorem along_iff_each {cond : σ → ε → Prop} {s : σ} {events : List ε} :
    Along step cond s events ↔ ∀ before e, before ++ [e] <+: events → cond (run step s before) e := by
  induction events generalizing s with
  | nil => simp [Along]
  | cons e events ih =>
    rw [Along, ih]
    constructor
    · intro ⟨he, h⟩ before e' hb
      cases before with
      | nil =>
        obtain rfl : e' = e := (List.cons_prefix_cons.mp hb).1
        exact he
      | cons b before =>
        obtain ⟨rfl, hb'⟩ := List.cons_prefix_cons.mp hb
        exact h before e' hb'
    · intro h
      refine ⟨h [] e (List.prefix_append [e] events), fun before e' hb ↦ ?_⟩
      exact h (e :: before) e' (List.cons_prefix_cons.mpr ⟨rfl, hb⟩)

theorem along_congr {cond cond' : σ → ε → Prop} (h : ∀ s e, cond s e ↔ cond' s e) {s : σ} {events : List ε} :
    Along step cond s events ↔ Along step cond' s events := by
  induction events generalizing s with
  | nil => rfl
  | cons e events ih => exact and_congr (h s e) ih

theorem along_const_iff {cond : ε → Prop} {s : σ} {events : List ε} :
    Along step (fun _ e ↦ cond e) s events ↔ ∀ e ∈ events, cond e := by
  induction events generalizing s with
  | nil => simp [Along]
  | cons e events ih => simp [Along, ih]

theorem run_prefix_induction {cond : σ → ε → Prop} {inv : σ → Prop} {s : σ} {events before : List ε}
    (hstep : ∀ s e, inv s → cond s e → inv (step s e)) (hs : inv s) (h : Along step cond s events)
    (hb : before <+: events) : inv (run step s before) := by
  obtain ⟨after, rfl⟩ := hb
  exact run_induction hstep hs (along_append.mp h).1

/-- Where a step outside the condition breaks the property, the property holds throughout a run exactly
when every step meets the condition. -/
theorem forall_prefix_iff {cond : σ → ε → Prop} {inv good : σ → Prop} {s : σ} {events : List ε}
    (hgood : ∀ s, inv s → good s) (hstep : ∀ s e, inv s → cond s e → inv (step s e))
    (hbreak : ∀ s e, inv s → ¬cond s e → ¬good (step s e)) (hs : inv s) :
    (∀ before, before <+: events → good (run step s before)) ↔ Along step cond s events := by
  constructor
  · intro h
    induction events generalizing s with
    | nil => trivial
    | cons e events ih =>
      have hc : cond s e := by
        by_contra hc
        exact hbreak s e hs hc (h [e] (List.prefix_append [e] events))
      refine ⟨hc, ih (hstep s e hs hc) ?_⟩
      intro before hb
      exact h (e :: before) (List.cons_prefix_cons.mpr ⟨rfl, hb⟩)
  · intro h before hb
    exact hgood _ (run_prefix_induction hstep hs h hb)

/-- Two runs stay related where the second leaves out the events that the relation does not see. -/
theorem run_filter {related : σ → σ → Prop} {keep : ε → Bool} {s s' : σ} (events : List ε)
    (hkeep : ∀ s s' e, related s s' → keep e = true → related (step s e) (step s' e))
    (hskip : ∀ s s' e, related s s' → keep e = false → related (step s e) s') (hs : related s s') :
    related (run step s events) (run step s' (events.filter keep)) := by
  induction events generalizing s s' with
  | nil => exact hs
  | cons e events ih =>
    cases he : keep e with
    | true =>
      rw [List.filter_cons_of_pos he]
      exact ih (hkeep s s' e hs he)
    | false =>
      rw [List.filter_cons_of_neg (by simp [he])]
      exact ih (hskip s s' e hs he)

/-- A measure that falls while a run is not done lets it be done at some point. -/
theorem exists_done {measure : ℕ → ℕ} {done : ℕ → Prop} (h : ∀ k, ¬done k → measure (k + 1) < measure k) : ∃ k, done k := by
  by_contra hn
  have hnot : ∀ k, ¬done k := fun k hk ↦ hn ⟨k, hk⟩
  have hbound : ∀ k, measure k + k ≤ measure 0 := by
    intro k
    induction k with
    | zero => exact Nat.le_refl _
    | succ k ih =>
      have hlt := h k (hnot k)
      omega
  have htoo := hbound (measure 0 + 1)
  omega

/-- A place in a history that has gone on is one that it had before, or the new end. -/
theorem exists_split_append_singleton {events : List ε} {x : ε} {P : List ε → ε → List ε → Prop} :
    (∃ before e after, events ++ [x] = before ++ e :: after ∧ P before e after) ↔
      (∃ before e after, events = before ++ e :: after ∧ P before e (after ++ [x])) ∨ P events x [] := by
  constructor
  · rintro ⟨before, e, after, heq, h⟩
    rcases List.eq_nil_or_concat after with rfl | ⟨after, y, rfl⟩
    · obtain ⟨rfl, hx⟩ := List.append_inj' heq rfl
      obtain rfl := List.singleton_inj.mp hx
      exact .inr h
    · rw [List.concat_eq_append, ← List.cons_append, ← List.append_assoc] at heq
      obtain ⟨rfl, hx⟩ := List.append_inj' heq rfl
      obtain rfl := List.singleton_inj.mp hx
      rw [List.concat_eq_append] at h
      exact .inl ⟨before, e, after, rfl, h⟩
  · rintro (⟨before, e, after, rfl, h⟩ | h)
    · exact ⟨before, e, after ++ [x], by rw [List.append_assoc, List.cons_append], h⟩
    · exact ⟨events, x, [], rfl, h⟩

end Briefr.Library.Runs

namespace Briefr.Library.Tasks

variable {ι β : Type}

theorem forall_some {b : β} {P : β → Prop} (h : P b) : ∀ x, some b = some x → P x := by
  intro x hx
  exact Option.some.inj hx ▸ h

variable [DecidableEq ι]

/-- What holds of every entry of a table still holds once one entry is replaced. -/
theorem forall_update {f : ι → Option β} {i : ι} {b : Option β} {P : ι → β → Prop}
    (h : ∀ j x, j ≠ i → f j = some x → P j x) (hi : ∀ x, b = some x → P i x) :
    ∀ j x, Function.update f i b j = some x → P j x := by
  intro j x hx
  by_cases hj : j = i
  · subst hj
    rw [Function.update_self] at hx
    exact hi x hx
  · rw [Function.update_of_ne hj] at hx
    exact h j x hj hx

theorem forall_update_none {f : ι → Option β} {i : ι} {P : ι → β → Prop} (h : ∀ j x, j ≠ i → f j = some x → P j x) :
    ∀ j x, Function.update f i none j = some x → P j x := forall_update h (by simp)

/-- A sum over the tasks after one of them has moved. -/
theorem sum_moved {M : Type} [AddCommMonoid M] (measure : β → M) (f : ι → β) (b : β) {s : Finset ι} {i : ι}
    (hi : i ∈ s) :
    ∑ j ∈ s, measure (Function.update f i b j) + measure (f i) = ∑ j ∈ s, measure (f j) + measure b := by
  have hrest : ∑ j ∈ s.erase i, measure (Function.update f i b j) = ∑ j ∈ s.erase i, measure (f j) := by
    apply Finset.sum_congr rfl
    intro j hj
    rw [Function.update_of_ne (Finset.ne_of_mem_erase hj)]
  rw [← Finset.add_sum_erase s _ hi, ← Finset.add_sum_erase s (fun j ↦ measure (f j)) hi, hrest, Function.update_self]
  ac_rfl

theorem sum_unmoved {M : Type} [AddCommMonoid M] {measure : β → M} {f : ι → β} {i : ι} {b : β} (h : measure b = measure (f i))
    (s : Finset ι) : ∑ j ∈ s, measure (Function.update f i b j) = ∑ j ∈ s, measure (f j) := by
  apply Finset.sum_congr rfl
  intro j _
  by_cases hj : j = i
  · rw [hj, Function.update_self, h]
  · rw [Function.update_of_ne hj]

/-- The sum grows by no more than the measure of the task that has moved. -/
theorem sum_moved_le {measure : β → ℕ} {f : ι → β} {i : ι} {b : β} {n : ℕ} (h : measure b ≤ measure (f i) + n) (s : Finset ι) :
    ∑ j ∈ s, measure (Function.update f i b j) ≤ ∑ j ∈ s, measure (f j) + n := by
  by_cases hi : i ∈ s
  · have hsum := sum_moved measure f b hi
    omega
  · have hsame : ∑ j ∈ s, measure (Function.update f i b j) = ∑ j ∈ s, measure (f j) := by
      apply Finset.sum_congr rfl
      intro j hj
      rw [Function.update_of_ne (ne_of_mem_of_not_mem hj hi)]
    omega

end Briefr.Library.Tasks
