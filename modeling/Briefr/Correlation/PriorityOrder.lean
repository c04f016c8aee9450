import Mathlib.Data.Rat.Floor
import Mathlib.Tactic.NormNum
import Mathlib.Tactic.Ring
import Briefr.Correlation.CombinedPriority
import Briefr.Library.FirstGreatest
import Briefr.Library.RoundHalfEven

namespace Briefr.Correlation.CombinedPriority

open Briefr.Python Briefr.Library.FirstGreatest Briefr.Library.RoundHalfEven

/-- Points that are not positive count as none. -/
def clip (x : ℚ) : ℚ := if 0 < x then x else 0

/-- The points of a weight. -/
def scaled (cap : ℤ) (weight : ℚ) : ℚ := clip (roundTo 10 (cap * min 1 weight))

theorem clip_mono {x y : ℚ} (h : x ≤ y) : clip x ≤ clip y := by
  rw [clip, clip]
  split
  next hx => rw [if_pos (hx.trans_le h)]; exact h
  next hx =>
    split
    next hy => exact hy.le
    next hy => exact le_refl _

theorem clip_nonneg (x : ℚ) : 0 ≤ clip x := by
  rw [clip]
  split
  next h => exact h.le
  next => exact le_refl _

theorem scaled_mono {cap : ℤ} (hcap : 0 ≤ cap) {v w : ℚ} (h : v ≤ w) : scaled cap v ≤ scaled cap w := by
  apply clip_mono
  apply roundTo_mono
  exact mul_le_mul_of_nonneg_left (min_le_min_left 1 h) (Int.cast_nonneg hcap)

theorem scaled_mem (cap : ℕ) (w : ℚ) : 0 ≤ scaled cap w ∧ scaled cap w ≤ cap := by
  refine ⟨clip_nonneg _, ?_⟩
  have hle : (cap : ℤ) * min 1 w ≤ ((cap : ℕ) : ℚ) := by
    have h := mul_le_mul_of_nonneg_left (min_le_left 1 w) (Nat.cast_nonneg cap : (0 : ℚ) ≤ cap)
    rw [mul_one] at h
    exact_mod_cast h
  calc scaled cap w ≤ clip (roundTo 10 ((cap : ℕ) : ℚ)) := clip_mono (roundTo_mono hle)
    _ = clip cap := by rw [roundTo_natCast (by decide)]
    _ ≤ cap := by
      rw [clip]
      split
      next => exact le_refl _
      next => exact Nat.cast_nonneg cap

/-- A whole number of tenths. -/
def Tenths (x : ℚ) : Prop := ∃ n : ℤ, x = n / 10

theorem Tenths.roundTo_eq {x : ℚ} (h : Tenths x) : roundTo 10 x = x := by
  obtain ⟨n, rfl⟩ := h
  rw [roundTo, Nat.cast_ofNat, div_mul_cancel₀ _ (by norm_num), roundHalfEven_intCast]

theorem Tenths.add {x y : ℚ} (hx : Tenths x) (hy : Tenths y) : Tenths (x + y) := by
  obtain ⟨m, rfl⟩ := hx
  obtain ⟨n, rfl⟩ := hy
  exact ⟨m + n, by push_cast; ring⟩

theorem tenths_scaled (cap : ℤ) (w : ℚ) : Tenths (scaled cap w) := by
  rw [scaled, clip]
  split
  next => exact ⟨_, rfl⟩
  next => exact ⟨0, by norm_num⟩

/-- Without rounding. -/
theorem scaled_eq {cap : ℤ} {w : ℚ} (h : Tenths (cap * min 1 w)) (h0 : 0 ≤ cap * min 1 w) :
    scaled cap w = cap * min 1 w := by
  rw [scaled, h.roundTo_eq, clip]
  split
  next => rfl
  next hx => exact (h0.antisymm (not_lt.mp hx))

inductive Signal
  | campaign
  | infrastructure
  | actor
  | temporal
  deriving DecidableEq

/-- The texts of numbers, next to which the arithmetic is exact. -/
class NumberTexts where
  fixed : ℚ → Text
  strOther : Obj ℚ → Text

section
variable [NumberTexts]

@[reducible] def exactNumbers : FloatOps ℚ where
  ofInt n := n
  lit n k := n / 10 ^ k
  add := (· + ·)
  mul := (· * ·)
  div := (· / ·)
  lt x y := decide (x < y)
  isZero x := decide (x = 0)
  round x digits := roundTo (10 ^ digits) x
  fixed := NumberTexts.fixed
  strOther := NumberTexts.strOther

attribute [local instance] exactNumbers

theorem lit_eq (n k : ℕ) : (FloatOps.lit n k : ℚ) = n / 10 ^ k := rfl

theorem zero_eq : (zero : ℚ) = 0 := by
  rw [zero, lit_eq]
  norm_num

theorem minOne_eq (x : ℚ) : minOne x = min 1 x := by
  have hone : (one : ℚ) = 1 := by
    rw [one, lit_eq]
    norm_num
  rw [minOne, hone, min_def]
  simp only [FloatOps.lt, decide_eq_true_eq]
  split
  next h => rw [if_neg (not_le.mpr h)]
  next h => rw [if_pos (not_lt.mp h)]

theorem contribution_fst (cap : ℤ) (weight : ℚ) (sentence : Text) :
    (contribution (capped cap weight) sentence).1 = scaled cap weight := by
  have hcapped : capped cap weight = roundTo 10 (cap * min 1 weight) := by
    rw [capped, minOne_eq]
    rfl
  rw [contribution, positive, hcapped, scaled, clip, zero_eq]
  simp only [FloatOps.lt, decide_eq_true_eq]
  split
  next => rfl
  next => rfl

theorem bestBy_eq {key : Obj ℚ → ℚ} {l : List (Obj ℚ)} {x : Obj ℚ} (h : IsFirst key l x) : bestBy key l = x := by
  cases l with
  | nil => exact h.nil.elim
  | cons a l =>
    have hfold := isFirst_foldl key a l
    rw [bestBy]
    simp only [FloatOps.lt, decide_eq_true_eq]
    exact hfold.unique h

variable [Interp]

def confidence (finding : Obj ℚ) : ℚ := confidenceFraction (finding.get ("confidence" : String))

def boosted (campaign : Obj ℚ) : Bool :=
  ((campaign.get ("boosters" : String)).get ("kev" : String)).truthy ||
    ((campaign.get ("boosters" : String)).get ("exploit" : String)).truthy

def sectorMatch (actor : Obj ℚ) : Bool := (actor.get ("user_sector_match" : String)).truthy

def sharedIocs (link : Obj ℚ) : ℚ := (link.get ("shared_ioc_count" : String)).number

def anomaly (temporal : Obj ℚ) : ℚ := (temporal.get ("anomaly_score" : String)).number

namespace Signal

def key : Signal → Text
  | campaign => campaignsKey
  | infrastructure => infrastructureKey
  | actor => actorKey
  | temporal => temporalKey

def cap : Signal → ℕ
  | campaign => 40
  | infrastructure => 25
  | actor => 20
  | temporal => 15

/-- What the findings of a signal are compared by. -/
def rank : Signal → Obj ℚ → ℚ
  | temporal => anomaly
  | _ => confidence

/-- What a finding is worth once it is chosen. -/
def weight : Signal → Obj ℚ → ℚ
  | campaign, o => confidence o + if boosted o then 15 / 100 else 0
  | infrastructure, o => confidence o + min (sharedIocs o * (2 / 100)) (2 / 10)
  | actor, o => confidence o + if sectorMatch o then 3 / 10 else 0
  | temporal, o => anomaly o / 5

/-- The findings among which the best one is looked for. -/
def pool : Signal → List (Obj ℚ) → List (Obj ℚ)
  | actor, l => if l.filter sectorMatch = [] then l else l.filter sectorMatch
  | _, l => l

end Signal

variable [Titles]

namespace Signal

/-- The points that a signal gives. -/
def points : Signal → List (Obj ℚ) → ℚ
  | campaign, l => (campaignContribution l).1
  | infrastructure, l => (infrastructureContribution l).1
  | actor, l => (actorContribution l).1
  | temporal, l => (temporalContribution l).1

theorem points_nil (s : Signal) : s.points [] = 0 := by
  cases s <;> exact zero_eq

theorem points_eq (s : Signal) {l : List (Obj ℚ)} {x : Obj ℚ} (h : IsFirst s.rank (s.pool l) x) :
    s.points l = scaled s.cap (s.weight x) := by
  have hne : l ≠ [] := by
    rintro rfl
    cases s <;> exact h.nil.elim
  cases s with
  | campaign =>
    have hbest : bestByConfidence l = x := bestBy_eq h
    have hbonus : (FloatOps.lit 15 2 : ℚ) = 15 / 100 := by
      rw [lit_eq]
      norm_num
    simp only [points, campaignContribution, if_neg hne, hbest, contribution_fst, hbonus, zero_eq]
    rfl
  | infrastructure =>
    have hbest : bestByConfidence l = x := bestBy_eq h
    have hstep : (FloatOps.lit 2 2 : ℚ) = 2 / 100 := by
      rw [lit_eq]
      norm_num
    have hmost : (FloatOps.lit 2 1 : ℚ) = 2 / 10 := by
      rw [lit_eq]
      norm_num
    have hmin : ∀ y : ℚ, (if FloatOps.lt y (2 / 10) then y else 2 / 10) = min y (2 / 10) := by
      intro y
      rw [min_def]
      simp only [FloatOps.lt, decide_eq_true_eq]
      split
      next hy => rw [if_pos hy.le]
      next hy =>
        split
        next hy' => exact (not_lt.mp hy).antisymm hy'
        next => rfl
    simp only [points, infrastructureContribution, if_neg hne, hbest, contribution_fst, hstep, hmost, hmin]
    rfl
  | actor =>
    have hbest : bestByConfidence (if l.filter sectorMatch = [] then l else l.filter sectorMatch) = x := bestBy_eq h
    have hbonus : (FloatOps.lit 3 1 : ℚ) = 3 / 10 := by
      rw [lit_eq]
      norm_num
    have hmatch : sectorMatch x = !decide (l.filter sectorMatch = []) := by
      have hx := h.mem
      simp only [pool] at hx
      by_cases hf : l.filter sectorMatch = []
      · rw [if_pos hf] at hx
        rw [decide_eq_true hf]
        exact Bool.eq_false_iff.mpr (List.filter_eq_nil_iff.mp hf x hx)
      · rw [if_neg hf] at hx
        rw [decide_eq_false hf]
        exact (List.mem_filter.mp hx).2
    have hpoints : points actor l = scaled 20 (confidence x + if l.filter sectorMatch = [] then 0 else 3 / 10) := by
      rw [← hbest]
      simp only [points, actorContribution, if_neg hne, contribution_fst, hbonus, zero_eq]
      rfl
    rw [hpoints, weight, hmatch]
    by_cases hf : l.filter sectorMatch = []
    · simp only [hf, if_true]
      rfl
    · simp only [hf, if_false]
      rfl
  | temporal =>
    have hbest : bestBy (fun t ↦ (t.get ("anomaly_score" : String)).number) l = x := bestBy_eq h
    have hfive : (FloatOps.lit 5 0 : ℚ) = 5 := by
      rw [lit_eq]
      norm_num
    simp only [points, temporalContribution, if_neg hne, hbest, contribution_fst, hfive]
    rfl

omit [Titles] in
theorem exists_isFirst_pool (s : Signal) {l : List (Obj ℚ)} (h : l ≠ []) : ∃ x, IsFirst s.rank (s.pool l) x := by
  apply exists_isFirst
  cases s with
  | actor =>
    rw [pool]
    split
    next => exact h
    next hf => exact hf
  | _ => exact h

theorem points_scaled (s : Signal) (l : List (Obj ℚ)) : ∃ w, s.points l = scaled s.cap w := by
  by_cases h : l = []
  · refine ⟨0, ?_⟩
    have h0 : ((s.cap : ℤ) : ℚ) * min 1 0 = 0 := by norm_num
    rw [h, points_nil, scaled_eq ⟨0, by rw [h0]; norm_num⟩ h0.ge, h0]
  · obtain ⟨x, hx⟩ := s.exists_isFirst_pool h
    exact ⟨_, s.points_eq hx⟩

theorem points_mem (s : Signal) (l : List (Obj ℚ)) : 0 ≤ s.points l ∧ s.points l ≤ s.cap := by
  obtain ⟨w, hw⟩ := s.points_scaled l
  rw [hw]
  exact scaled_mem s.cap w

theorem tenths_points (s : Signal) (l : List (Obj ℚ)) : Tenths (s.points l) := by
  obtain ⟨w, hw⟩ := s.points_scaled l
  rw [hw]
  exact tenths_scaled _ w

end Signal

/-- The score of a response. -/
def score (r : Result ℚ) : ℚ := ((computeCorrelationPriority r).get ("score" : String)).number

/-- The points of the components that the response lists. -/
def componentPoints (r : Result ℚ) : List ℚ :=
  ((computeCorrelationPriority r).get ("components" : String)).items.map fun c ↦ (c.get ("points" : String)).number

/-- The sum of the points of the four signals. -/
def total (r : Result ℚ) : ℚ :=
  Signal.points .campaign (r.part campaignsKey) + Signal.points .infrastructure (r.part infrastructureKey) +
    Signal.points .actor (r.part actorKey) + Signal.points .temporal (r.part temporalKey)

theorem foldl_contributions (r : Result ℚ) :
    (contributions r).foldl (fun total c ↦ FloatOps.add total c.points) zero = total r := by
  simp only [contributions, List.map_cons, List.map_nil, List.foldl_cons, List.foldl_nil, zero_eq]
  have h : ∀ a b c d : ℚ, FloatOps.add (FloatOps.add (FloatOps.add (FloatOps.add 0 a) b) c) d = a + b + c + d := by
    intro a b c d
    have h0 : (0 : ℚ) + a + b + c + d = a + b + c + d := by rw [zero_add]
    exact h0
  exact h _ _ _ _

theorem total_mem (r : Result ℚ) : 0 ≤ total r ∧ total r ≤ 100 := by
  obtain ⟨hc, hc'⟩ := Signal.points_mem .campaign (r.part campaignsKey)
  obtain ⟨hi, hi'⟩ := Signal.points_mem .infrastructure (r.part infrastructureKey)
  obtain ⟨ha, ha'⟩ := Signal.points_mem .actor (r.part actorKey)
  obtain ⟨ht, ht'⟩ := Signal.points_mem .temporal (r.part temporalKey)
  simp only [Signal.cap, Nat.cast_ofNat] at hc' hi' ha' ht'
  rw [total]
  constructor
  · linarith
  · linarith

theorem tenths_total (r : Result ℚ) : Tenths (total r) :=
  ((((Signal.tenths_points _ _).add (Signal.tenths_points _ _)).add (Signal.tenths_points _ _)).add
    (Signal.tenths_points _ _))

theorem score_eq_total (r : Result ℚ) : score r = total r := by
  have hscore : score r = roundTo 10 (if total r < 100 then total r else 100) := by
    have hhundred : (FloatOps.lit 100 0 : ℚ) = 100 := by
      rw [lit_eq]
      norm_num
    have hlt : ∀ x : ℚ, (if FloatOps.lt x 100 then x else 100) = if x < 100 then x else 100 := by
      intro x
      simp only [FloatOps.lt, decide_eq_true_eq]
    simp only [score, computeCorrelationPriority, foldl_contributions, hhundred, hlt]
    rfl
  obtain ⟨-, hle⟩ := total_mem r
  have hmin : (if total r < 100 then total r else 100) = total r := by
    split
    next => rfl
    next h => exact (hle.antisymm (not_lt.mp h)).symm
  rw [hscore, hmin, (tenths_total r).roundTo_eq]

omit [Interp] [Titles] in
theorem sum_filter_positive (l : List (Component ℚ)) (h : ∀ c ∈ l, 0 ≤ c.points) :
    ((l.filter fun c ↦ positive c.points).map Component.points).sum = (l.map Component.points).sum := by
  induction l with
  | nil => rfl
  | cons c l ih =>
    have ih := ih fun c hc ↦ h c (.tail _ hc)
    rw [List.filter_cons, List.map_cons, List.sum_cons]
    split
    next => rw [List.map_cons, List.sum_cons, ih]
    next hpos =>
      have hzero : c.points = 0 := by
        have hle : ¬0 < c.points := by
          intro hlt
          apply hpos
          rw [positive, zero_eq]
          exact decide_eq_true hlt
        exact (not_lt.mp hle).antisymm (h c (.head _))
      rw [ih, hzero, zero_add]

/-- The listed components account for the whole score. -/
theorem sum_componentPoints (r : Result ℚ) : (componentPoints r).sum = total r := by
  have hlist : componentPoints r =
      (ranked ((contributions r).filter fun c ↦ positive c.points)).map Component.points := by
    have hitems : componentPoints r = ((ranked ((contributions r).filter fun c ↦ positive c.points)).map
        Component.toObj).map fun c ↦ (c.get ("points" : String)).number := rfl
    rw [hitems, List.map_map]
    rfl
  have hperm : (ranked ((contributions r).filter fun c ↦ positive c.points)).Perm
      ((contributions r).filter fun c ↦ positive c.points) := List.perm_insertionSort _ _
  rw [hlist, (hperm.map Component.points).sum_eq, sum_filter_positive]
  · simp only [contributions, List.map_cons, List.map_nil, List.sum_cons, List.sum_nil, add_zero, total, Signal.points,
      add_assoc]
  · simp only [contributions, List.map_cons, List.map_nil, List.forall_mem_cons]
    exact ⟨(Signal.points_mem .campaign _).1, (Signal.points_mem .infrastructure _).1,
      (Signal.points_mem .actor _).1, (Signal.points_mem .temporal _).1, fun _ h ↦ by cases h⟩

end

end Briefr.Correlation.CombinedPriority
