import Mathlib.Algebra.Order.Field.Basic
import Mathlib.Data.List.Basic
import Mathlib.Tactic.Linarith

namespace Briefr.Library.TokenBucket

/-- A bucket holds `capacity` tokens at most and gains `refill` of them in a unit of time. -/
structure Limit (K : Type) [Field K] [LinearOrder K] where
  capacity : K
  refill : K
  one_le_capacity : 1 ≤ capacity
  refill_pos : 0 < refill

variable {K : Type} [Field K] [LinearOrder K] (c : Limit K)

/-- The tokens at a time, from those left by the last use; a bucket that was never used is full. -/
def level (s : Option (K × K)) (now : K) : K :=
  let (tokens, last) := s.getD (c.capacity, now)
  min c.capacity (tokens + (now - last) * c.refill)

/-- Takes a token if there is one. The answer is the time to wait, zero where the token was taken. -/
def draw (s : Option (K × K)) (now : K) : (K × K) × K :=
  let tokens := level c s now
  if 1 ≤ tokens then ((tokens - 1, now), 0) else ((tokens, now), (1 - tokens) / c.refill)

def waits : Option (K × K) → List K → List K
  | _, [] => []
  | s, now :: nows => (draw c s now).2 :: waits (some (draw c s now).1) nows

def afterAll (s : Option (K × K)) (nows : List K) : Option (K × K) := nows.foldl (fun s now ↦ some (draw c s now).1) s

/-- The uses within a window that took a token. -/
def drawnIn (a b : K) (nows waits : List K) : ℕ :=
  (nows.zip waits).countP fun u ↦ a ≤ u.1 ∧ u.1 ≤ b ∧ u.2 = 0

/-- From a time on, nobody can tell one state of the bucket from the other. -/
def AgreeFrom (start : K) (s s' : Option (K × K)) : Prop := ∀ now, start ≤ now → level c s now = level c s' now

variable {c} {s s' s'' : Option (K × K)} {now start tokens last a b : K}

@[simp] theorem level_some :
    level c (some (tokens, last)) now = min c.capacity (tokens + (now - last) * c.refill) := rfl

theorem level_le (s : Option (K × K)) (now : K) : level c s now ≤ c.capacity := min_le_left _ _

theorem draw_of_le (h : 1 ≤ level c s now) : draw c s now = ((level c s now - 1, now), 0) := if_pos h

theorem draw_of_lt (h : level c s now < 1) :
    draw c s now = ((level c s now, now), (1 - level c s now) / c.refill) := if_neg (not_le.mpr h)

theorem draw_congr (h : level c s now = level c s' now) : draw c s now = draw c s' now := by
  rw [draw, draw, h]

theorem afterAll_concat (s : Option (K × K)) (nows : List K) (now : K) :
    afterAll c s (nows ++ [now]) = some (draw c (afterAll c s nows) now).1 := by
  rw [afterAll, List.foldl_append]
  rfl

theorem waits_concat (s : Option (K × K)) (nows : List K) (now : K) :
    waits c s (nows ++ [now]) = waits c s nows ++ [(draw c (afterAll c s nows) now).2] := by
  induction nows generalizing s with
  | nil => rfl
  | cons t nows ih => exact congrArg _ (ih (some (draw c s t).1))

theorem AgreeFrom.refl (start : K) (s : Option (K × K)) : AgreeFrom c start s s := fun _ _ ↦ rfl

theorem AgreeFrom.symm (h : AgreeFrom c start s s') : AgreeFrom c start s' s := fun now hn ↦ (h now hn).symm

theorem AgreeFrom.trans (h : AgreeFrom c start s s') (h' : AgreeFrom c start s' s'') : AgreeFrom c start s s'' :=
  fun now hn ↦ (h now hn).trans (h' now hn)

theorem AgreeFrom.mono (h : AgreeFrom c start s s') (hn : start ≤ now) : AgreeFrom c now s s' :=
  fun _ ht ↦ h _ (hn.trans ht)

theorem AgreeFrom.draw (h : AgreeFrom c start s s') (hn : start ≤ now) :
    draw c s now = draw c s' now := draw_congr (h now hn)

@[simp] theorem level_none : level c none now = c.capacity := by simp [level]

variable [IsStrictOrderedRing K]

theorem wait_eq_zero_iff : (draw c s now).2 = 0 ↔ 1 ≤ level c s now := by
  by_cases h : 1 ≤ level c s now
  · simp [draw_of_le h, h]
  · have hlt := not_le.mp h
    have hp : 0 < (1 - level c s now) / c.refill := div_pos (sub_pos.mpr hlt) c.refill_pos
    simp [draw_of_lt hlt, h, hp.ne']

theorem wait_nonneg (s : Option (K × K)) (now : K) : 0 ≤ (draw c s now).2 := by
  rcases le_or_gt 1 (level c s now) with h | h
  · rw [draw_of_le h]
  · rw [draw_of_lt h]
    exact (div_pos (sub_pos.mpr h) c.refill_pos).le

/-- A bucket idle for the time that fills it is as good as new. -/
theorem agreeFrom_none_of_idle (ht : 0 ≤ tokens) (h : c.capacity / c.refill ≤ now - last) :
    AgreeFrom c now (some (tokens, last)) none := by
  intro t hn
  rw [level_some, level_none, min_eq_left]
  have hr : c.capacity ≤ (now - last) * c.refill := (div_le_iff₀ c.refill_pos).mp h
  have hm : (now - last) * c.refill ≤ (t - last) * c.refill :=
    mul_le_mul_of_nonneg_right (by linarith) c.refill_pos.le
  linarith

theorem tokens_nonneg (h : ∀ u ∈ s, 0 ≤ u.1 ∧ u.2 ≤ now) : 0 ≤ (draw c s now).1.1 := by
  have hl : 0 ≤ level c s now := by
    have hc : 0 ≤ c.capacity := zero_le_one.trans c.one_le_capacity
    cases s with
    | none => rwa [level_none]
    | some u =>
      obtain ⟨hu, hn⟩ := h u rfl
      exact le_min hc (add_nonneg hu (mul_nonneg (sub_nonneg.mpr hn) c.refill_pos.le))
  rcases le_or_gt 1 (level c s now) with h | h
  · rw [draw_of_le h]
    exact sub_nonneg.mpr h
  · rw [draw_of_lt h]
    exact hl

/-- What the answer says: asked again after that time the bucket gives a token, and not before. -/
theorem retry_iff (h : (draw c s now).2 ≠ 0) (t : K) :
    (draw c (some (draw c s now).1) t).2 = 0 ↔ now + (draw c s now).2 ≤ t := by
  have hlt : level c s now < 1 := not_le.mp fun hle ↦ h (wait_eq_zero_iff.mpr hle)
  rw [wait_eq_zero_iff, draw_of_lt hlt, level_some, le_min_iff, and_iff_right c.one_le_capacity,
    ← le_sub_iff_add_le', div_le_iff₀ c.refill_pos, sub_le_iff_le_add']

theorem level_nonneg_iff : 0 ≤ level c s now ↔ ∀ u ∈ s, 0 ≤ u.1 + (now - u.2) * c.refill := by
  have hc : 0 ≤ c.capacity := zero_le_one.trans c.one_le_capacity
  cases s with
  | none => simpa using hc
  | some u => simp [level, hc]

/-- Nobody waits for longer than one token takes to refill, unless the bucket is in debt. -/
theorem wait_le_iff : (draw c s now).2 ≤ 1 / c.refill ↔ 0 ≤ level c s now := by
  have hone : 0 < 1 / c.refill := one_div_pos.mpr c.refill_pos
  rcases le_or_gt 1 (level c s now) with h | h
  · rw [draw_of_le h]
    exact iff_of_true hone.le (zero_le_one.trans h)
  · rw [draw_of_lt h, div_le_div_iff_of_pos_right c.refill_pos, sub_le_self_iff]

/-- Each use that takes a token costs one of what the bucket can still hand out up to a time. -/
theorem worth_draw (c : Limit K) (tokens last now b : K) :
    (draw c (some (tokens, last)) now).1.1 + (b - (draw c (some (tokens, last)) now).1.2) * c.refill +
      (if (draw c (some (tokens, last)) now).2 = 0 then 1 else 0) ≤ tokens + (b - last) * c.refill := by
  have hl : level c (some (tokens, last)) now ≤ tokens + (now - last) * c.refill := min_le_right _ _
  rcases le_or_gt 1 (level c (some (tokens, last)) now) with h | h
  · rw [if_pos (wait_eq_zero_iff.mpr h), draw_of_le h]
    dsimp only
    linarith
  · rw [if_neg fun hz ↦ absurd (wait_eq_zero_iff.mp hz) (not_le.mpr h), draw_of_lt h]
    dsimp only
    linarith

theorem drawn_le_worth (nows : List K) (tokens last : K) :
    (drawnIn a b nows (waits c (some (tokens, last)) nows) : K) ≤ max 0 (tokens + (b - last) * c.refill) := by
  induction nows generalizing tokens last with
  | nil => simp [drawnIn]
  | cons now nows ih =>
    have hw := worth_draw c tokens last now b
    have ih := ih (draw c (some (tokens, last)) now).1.1 (draw c (some (tokens, last)) now).1.2
    simp only [waits, drawnIn, List.zip_cons_cons, List.countP_cons, decide_eq_true_eq] at ih ⊢
    split
    · rename_i h
      have hg := wait_eq_zero_iff.mp h.2.2
      rw [draw_of_le hg] at ih hw
      have hv : 0 ≤ level c (some (tokens, last)) now - 1 + (b - now) * c.refill :=
        add_nonneg (sub_nonneg.mpr hg) (mul_nonneg (sub_nonneg.mpr h.2.1) c.refill_pos.le)
      dsimp only at ih hw
      rw [max_eq_right hv] at ih
      rw [draw_of_le hg]
      rw [if_pos rfl] at hw
      push_cast
      exact le_max_of_le_right (by linarith)
    · push_cast
      have hz : (0 : K) ≤ if (draw c (some (tokens, last)) now).2 = 0 then 1 else 0 := by split <;> simp
      have hm := max_le_max (le_refl (0 : K)) (by linarith : (draw c (some (tokens, last)) now).1.1 +
        (b - (draw c (some (tokens, last)) now).1.2) * c.refill ≤ tokens + (b - last) * c.refill)
      linarith

/-- In no window does the bucket give more than it holds and gains there. The times of use need no order. -/
theorem drawn_le (s : Option (K × K)) (nows : List K) (h : a ≤ b) :
    (drawnIn a b nows (waits c s nows) : K) ≤ c.capacity + (b - a) * c.refill := by
  induction nows generalizing s with
  | nil =>
    have hc : 0 ≤ c.capacity := zero_le_one.trans c.one_le_capacity
    simpa [drawnIn] using add_nonneg hc (mul_nonneg (sub_nonneg.mpr h) c.refill_pos.le)
  | cons now nows ih =>
    have ihs := ih (some (draw c s now).1)
    simp only [waits, drawnIn, List.zip_cons_cons, List.countP_cons, decide_eq_true_eq] at ihs ⊢
    split
    · rename_i hw
      have hg := wait_eq_zero_iff.mp hw.2.2
      have hrest := drawn_le_worth (c := c) (a := a) (b := b) nows (level c s now - 1) now
      have hv : 0 ≤ level c s now - 1 + (b - now) * c.refill :=
        add_nonneg (sub_nonneg.mpr hg) (mul_nonneg (sub_nonneg.mpr hw.2.1) c.refill_pos.le)
      have hle : (b - now) * c.refill ≤ (b - a) * c.refill :=
        mul_le_mul_of_nonneg_right (by linarith [hw.1]) c.refill_pos.le
      rw [max_eq_right hv] at hrest
      simp only [drawnIn] at hrest
      rw [draw_of_le hg]
      push_cast
      linarith [level_le (c := c) s now]
    · simpa using ihs

end Briefr.Library.TokenBucket
