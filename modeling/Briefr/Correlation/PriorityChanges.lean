import Briefr.Correlation.PriorityOrder
import Briefr.Python.Text

namespace Briefr.Correlation.CombinedPriority

open Briefr.Python Briefr.Library.FirstGreatest Briefr.Library.RoundHalfEven

section
variable [NumberTexts] [Interp]

attribute [local instance] exactNumbers

/-- The confidence of a finding is one of four. -/
theorem confidence_cases (o : Obj ℚ) :
    confidence o = 0 ∨ confidence o = 2 / 8 ∨ confidence o = 5 / 8 ∨ confidence o = 1 := by
  have hone : (one : ℚ) = 1 := by
    rw [one, lit_eq]
    norm_num
  have hmedium : (FloatOps.lit 625 3 : ℚ) = 5 / 8 := by
    rw [lit_eq]
    norm_num
  have hlow : (FloatOps.lit 25 2 : ℚ) = 2 / 8 := by
    rw [lit_eq]
    norm_num
  rw [confidence, confidenceFraction, hone, hmedium, hlow, zero_eq]
  split
  next => exact .inr (.inr (.inr rfl))
  next =>
    split
    next => exact .inr (.inr (.inl rfl))
    next =>
      split
      next => exact .inr (.inl rfl)
      next => exact .inl rfl

theorem confidence_mem (o : Obj ℚ) : 0 ≤ confidence o ∧ confidence o ≤ 1 := by
  rcases confidence_cases o with h | h | h | h <;> rw [h] <;> norm_num

theorem confidence_gap {x y : Obj ℚ} (h : confidence y < confidence x) : confidence y + 2 / 8 ≤ confidence x := by
  rcases confidence_cases x with hx | hx | hx | hx <;> rcases confidence_cases y with hy | hy | hy | hy <;>
    linarith

theorem confidence_eighths (o : Obj ℚ) : ∃ k : ℤ, confidence o = k / 8 := by
  rcases confidence_cases o with h | h | h | h
  · exact ⟨0, by rw [h]; norm_num⟩
  · exact ⟨2, by rw [h]; norm_num⟩
  · exact ⟨5, by rw [h]; norm_num⟩
  · exact ⟨8, by rw [h]; norm_num⟩

omit [NumberTexts] [Interp] in
/-- Points that are tenths need no rounding. -/
theorem scaled_of_tenths {cap : ℕ} {w : ℚ} (hw : 0 ≤ w) (h : Tenths (cap * w)) : scaled cap w = cap * min 1 w := by
  have hcap : ((cap : ℤ) : ℚ) = cap := Int.cast_natCast cap
  have hmin : 0 ≤ min 1 w := le_min zero_le_one hw
  have htenths : Tenths (((cap : ℤ) : ℚ) * min 1 w) := by
    rw [hcap]
    rcases min_choice 1 w with hmin | hmin
    · exact ⟨10 * cap, by rw [hmin]; push_cast; ring⟩
    · rw [hmin]
      exact h
  rw [scaled_eq htenths (mul_nonneg (by rw [hcap]; exact Nat.cast_nonneg cap) hmin), hcap]

namespace Signal

theorem scaled_campaign (o : Obj ℚ) : scaled (cap .campaign) (weight .campaign o) = 40 * min 1 (weight .campaign o) := by
  have hnonneg := (confidence_mem o).1
  obtain ⟨k, hk⟩ := confidence_eighths o
  apply scaled_of_tenths
  · rw [weight]
    split <;> linarith
  · rw [weight, cap, hk]
    split
    next => exact ⟨50 * k + 60, by push_cast; ring⟩
    next => exact ⟨50 * k, by push_cast; ring⟩

theorem scaled_actor (o : Obj ℚ) : scaled (cap .actor) (weight .actor o) = 20 * min 1 (weight .actor o) := by
  have hnonneg := (confidence_mem o).1
  obtain ⟨k, hk⟩ := confidence_eighths o
  apply scaled_of_tenths
  · rw [weight]
    split <;> linarith
  · rw [weight, cap, hk]
    split
    next => exact ⟨25 * k + 60, by push_cast; ring⟩
    next => exact ⟨25 * k, by push_cast; ring⟩

omit [NumberTexts] [Interp] in
theorem scaled_lt_iff (cap : ℕ) (hcap : 0 < cap) (v w : ℚ) :
    (cap : ℚ) * min 1 v < cap * min 1 w ↔ v < w ∧ v < 1 := by
  rw [mul_lt_mul_iff_right₀ (Nat.cast_pos.mpr hcap), min_comm 1 v, min_comm 1 w]
  constructor
  · intro h
    have hv : v < 1 := by
      by_contra hge
      rw [min_eq_right (not_lt.mp hge)] at h
      exact absurd (h.trans_le (min_le_right w 1)) (lt_irrefl 1)
    rw [min_eq_left hv.le] at h
    exact ⟨h.trans_le (min_le_left w 1), hv⟩
  · rintro ⟨h, hv⟩
    rw [min_eq_left hv.le]
    exact lt_min h hv

/-- A campaign that is at least as confident gives less than another only without a bonus that the other has. -/
theorem campaign_lt_iff {x y : Obj ℚ} (h : confidence y ≤ confidence x) :
    scaled (cap .campaign) (weight .campaign x) < scaled (cap .campaign) (weight .campaign y) ↔
      confidence x = confidence y ∧ confidence y < 1 ∧ boosted x = false ∧ boosted y = true := by
  have hlt := scaled_lt_iff (cap .campaign) (by decide) (weight .campaign x) (weight .campaign y)
  rw [scaled_campaign, scaled_campaign]
  refine hlt.trans ?_
  rw [weight, weight]
  rcases h.lt_or_eq with h | h
  · have hgap := confidence_gap h
    refine ⟨fun hlt ↦ False.elim ?_, fun hsame ↦ absurd hsame.1 h.ne'⟩
    have hbonus : ∀ b : Bool, (0 : ℚ) ≤ (if b = true then 15 / 100 else 0) ∧
        (if b = true then 15 / 100 else 0) ≤ (15 / 100 : ℚ) := by
      intro b
      cases b <;> norm_num
    have hx := (hbonus (boosted x)).1
    have hy := (hbonus (boosted y)).2
    linarith [hlt.1]
  · rw [h]
    cases boosted x <;> cases boosted y <;> norm_num

/-- An actor that matches the sector gives less than one that does not only with much less confidence. -/
theorem actor_lt_iff {x y : Obj ℚ} (hx : sectorMatch x = true) (hy : sectorMatch y = false) :
    scaled (cap .actor) (weight .actor x) < scaled (cap .actor) (weight .actor y) ↔
      confidence x + 3 / 10 < confidence y := by
  have hlt := scaled_lt_iff (cap .actor) (by decide) (weight .actor x) (weight .actor y)
  have hle := (confidence_mem y).2
  rw [scaled_actor, scaled_actor]
  refine hlt.trans ?_
  rw [weight, weight, hx, hy, if_pos rfl, if_neg Bool.false_ne_true, add_zero]
  exact ⟨fun h ↦ h.1, fun h ↦ ⟨h, h.trans_le hle⟩⟩

omit [Interp] in
/-- All actors of the pool match the sector, or none does. -/
theorem sectorMatch_of_mem_pool {l : List (Obj ℚ)} {a : Obj ℚ} (h : a ∈ pool .actor l) :
    sectorMatch a = !decide (l.filter sectorMatch = []) := by
  rw [pool] at h
  by_cases hf : l.filter sectorMatch = []
  · rw [if_pos hf] at h
    rw [decide_eq_true hf]
    exact Bool.eq_false_iff.mpr (List.filter_eq_nil_iff.mp hf a h)
  · rw [if_neg hf] at h
    rw [decide_eq_false hf]
    exact (List.mem_filter.mp h).2

/-- One finding more in a list, or a finding with at least the rank of the one that it stands for. -/
inductive Grows (s : Signal) (x : Obj ℚ) : List (Obj ℚ) → List (Obj ℚ) → Prop
  | add (before after : List (Obj ℚ)) : Grows s x (before ++ after) (before ++ x :: after)
  | raise (before after : List (Obj ℚ)) {m : Obj ℚ} (hrank : s.rank m ≤ s.rank x) (hboosted : boosted x = boosted m)
    (hsector : sectorMatch x = sectorMatch m) (hshared : sharedIocs x = sharedIocs m) :
    Grows s x (before ++ m :: after) (before ++ x :: after)

/-- The choice of a signal stays or is the new finding: the first actor that matches the sector takes the place of all others. -/
theorem Grows.choice {s : Signal} {x y : Obj ℚ} {l l' : List (Obj ℚ)} (h : s.Grows x l l')
    (hy : IsFirst s.rank (s.pool l) y) :
    IsFirst s.rank (s.pool l') y ∨ IsFirst s.rank (s.pool l') x ∧
      (s.rank y ≤ s.rank x ∧ (s = .actor → sectorMatch x = sectorMatch y) ∨
        s = .actor ∧ sectorMatch x = true ∧ sectorMatch y = false) := by
  by_cases hs : s = .actor
  · subst hs
    have hflag := sectorMatch_of_mem_pool hy.mem
    have hpool : ∀ {l}, l.filter sectorMatch = [] → pool .actor l = l := fun hf ↦ by rw [pool, if_pos hf]
    have hpool' : ∀ {l}, l.filter sectorMatch ≠ [] → pool .actor l = l.filter sectorMatch :=
      fun hf ↦ by rw [pool, if_neg hf]
    have hne : ∀ {b a : List (Obj ℚ)} {o : Obj ℚ}, b ++ o :: a ≠ [] :=
      fun h ↦ List.cons_ne_nil _ _ (List.append_eq_nil_iff.mp h).2
    cases h with
    | add before after =>
      have hold : (before ++ after).filter sectorMatch = before.filter sectorMatch ++ after.filter sectorMatch :=
        List.filter_append ..
      cases hx : sectorMatch x with
      | true =>
        have hnew : (before ++ x :: after).filter sectorMatch =
            before.filter sectorMatch ++ x :: after.filter sectorMatch := by
          rw [List.filter_append, List.filter_cons_of_pos hx]
        rw [hpool' (hnew ▸ hne), hnew]
        by_cases hf : (before ++ after).filter sectorMatch = []
        · rw [hold] at hf
          obtain ⟨hb, ha⟩ := List.append_eq_nil_iff.mp hf
          rw [hold, hf, decide_eq_true rfl] at hflag
          rw [hb, ha]
          refine .inr ⟨?_, .inr ⟨rfl, rfl, hflag⟩⟩
          exact ⟨[], [], rfl, (fun _ h ↦ by cases h), fun _ h ↦ by cases h⟩
        · rw [hpool' hf, hold] at hy
          rw [decide_eq_false hf] at hflag
          exact hy.insert.imp_right fun h ↦ ⟨h.1, .inl ⟨h.2, fun _ ↦ hflag.symm⟩⟩
      | false =>
        have hnew : (before ++ x :: after).filter sectorMatch = (before ++ after).filter sectorMatch := by
          rw [List.filter_append, List.filter_cons_of_neg (Bool.not_eq_true _ ▸ hx), hold]
        by_cases hf : (before ++ after).filter sectorMatch = []
        · rw [hpool hf] at hy
          rw [hpool (hnew.trans hf)]
          rw [decide_eq_true hf] at hflag
          exact hy.insert.imp_right fun h ↦ ⟨h.1, .inl ⟨h.2, fun _ ↦ hflag.symm⟩⟩
        · rw [hpool' hf] at hy
          rw [hpool' (hnew ▸ hf), hnew]
          exact .inl hy
    | @raise before after m hrank _ hsector =>
      cases hx : sectorMatch x with
      | true =>
        have hold : (before ++ m :: after).filter sectorMatch =
            before.filter sectorMatch ++ m :: after.filter sectorMatch := by
          rw [List.filter_append, List.filter_cons_of_pos (hsector ▸ hx)]
        have hnew : (before ++ x :: after).filter sectorMatch =
            before.filter sectorMatch ++ x :: after.filter sectorMatch := by
          rw [List.filter_append, List.filter_cons_of_pos hx]
        rw [hpool' (hold ▸ hne), hold] at hy
        rw [decide_eq_false (hold ▸ hne)] at hflag
        rw [hpool' (hnew ▸ hne), hnew]
        exact (hy.replace hrank).imp_right fun h ↦ ⟨h.1, .inl ⟨h.2, fun _ ↦ hflag.symm⟩⟩
      | false =>
        have hnew : (before ++ x :: after).filter sectorMatch = (before ++ m :: after).filter sectorMatch := by
          rw [List.filter_append, List.filter_append, List.filter_cons_of_neg (Bool.not_eq_true _ ▸ hx),
            List.filter_cons_of_neg (Bool.not_eq_true _ ▸ hsector ▸ hx)]
        by_cases hf : (before ++ m :: after).filter sectorMatch = []
        · rw [hpool hf] at hy
          rw [hpool (hnew.trans hf)]
          rw [decide_eq_true hf] at hflag
          exact (hy.replace hrank).imp_right fun h ↦ ⟨h.1, .inl ⟨h.2, fun _ ↦ hflag.symm⟩⟩
        · rw [hpool' hf] at hy
          rw [hpool' (hnew ▸ hf), hnew]
          exact .inl hy
  · have hpool : ∀ l, s.pool l = l := by
      intro l
      cases s <;> first | rfl | exact absurd rfl hs
    rw [hpool] at hy ⊢
    cases h with
    | add before after => exact hy.insert.imp_right fun h ↦ ⟨h.1, .inl ⟨h.2, fun h ↦ absurd h hs⟩⟩
    | raise before after hrank =>
      exact (hy.replace hrank).imp_right fun h ↦ ⟨h.1, .inl ⟨h.2, fun h ↦ absurd h hs⟩⟩

/-- A choice that gives fewer points than the choice `y` that it follows: a campaign without the bonus of an equally
confident one, a link with fewer points, an actor of little confidence that matches the sector. -/
inductive Displaces (y x : Obj ℚ) : Signal → Prop
  | campaign (same : confidence x = confidence y) (low : confidence y < 1) (hx : boosted x = false)
    (hy : boosted y = true) : Displaces y x .campaign
  | infrastructure (h : scaled 25 (weight .infrastructure x) < scaled 25 (weight .infrastructure y)) :
    Displaces y x .infrastructure
  | actor (hx : sectorMatch x = true) (hy : sectorMatch y = false) (h : confidence x + 3 / 10 < confidence y) :
    Displaces y x .actor

theorem not_displaces_self (s : Signal) (x : Obj ℚ) : ¬Displaces x x s := by
  intro h
  cases h with
  | campaign _ _ hx hy =>
    rw [hx] at hy
    cases hy
  | infrastructure h => exact lt_irrefl _ h
  | actor hx hy h =>
    rw [hx] at hy
    cases hy

theorem weight_mono {s : Signal} {x y : Obj ℚ} (hs : s = .actor ∨ s = .temporal) (h : s.rank y ≤ s.rank x)
    (hflag : s = .actor → sectorMatch x = sectorMatch y) : s.weight y ≤ s.weight x := by
  rcases hs with rfl | rfl
  · have hle : confidence y ≤ confidence x := h
    rw [weight, weight, hflag rfl]
    linarith
  · have hle : anomaly y ≤ anomaly x := h
    rw [weight, weight]
    linarith

theorem scaled_lt_iff_displaces {s : Signal} {x y : Obj ℚ}
    (h : s.rank y ≤ s.rank x ∧ (s = .actor → sectorMatch x = sectorMatch y) ∨
      s = .actor ∧ sectorMatch x = true ∧ sectorMatch y = false) :
    scaled s.cap (s.weight x) < scaled s.cap (s.weight y) ↔ Displaces y x s := by
  rcases h with ⟨hrank, hflag⟩ | ⟨rfl, hx, hy⟩
  · cases s with
    | campaign =>
      rw [campaign_lt_iff hrank]
      constructor
      · rintro ⟨h, h', hx, hy⟩
        exact .campaign h h' hx hy
      · intro hd
        cases hd with
        | campaign h h' hx hy => exact ⟨h, h', hx, hy⟩
    | infrastructure =>
      refine ⟨.infrastructure, fun hd ↦ ?_⟩
      cases hd with
      | infrastructure h => exact h
    | actor =>
      have hle := scaled_mono (Int.natCast_nonneg (cap .actor)) (weight_mono (.inl rfl) hrank hflag)
      refine ⟨fun h ↦ absurd h hle.not_gt, fun hd ↦ ?_⟩
      cases hd with
      | actor hx hy h =>
        rw [hflag rfl, hy] at hx
        cases hx
    | temporal =>
      have hle := scaled_mono (Int.natCast_nonneg (cap .temporal)) (weight_mono (.inr rfl) hrank hflag)
      exact ⟨fun h ↦ absurd h hle.not_gt, fun h ↦ by cases h⟩
  · rw [actor_lt_iff hx hy]
    refine ⟨.actor hx hy, fun hd ↦ ?_⟩
    cases hd with
    | actor _ _ h => exact h

/-- The new finding is now the choice of its signal and displaces the choice before it. -/
def Lowers (s : Signal) (x : Obj ℚ) (l l' : List (Obj ℚ)) : Prop :=
  ∃ y, IsFirst s.rank (s.pool l) y ∧ IsFirst s.rank (s.pool l') x ∧ Displaces y x s

variable [Titles]

/-- A list that grows lowers the points of its signal exactly by a displaced choice. -/
theorem Grows.points_lt_iff {s : Signal} {x : Obj ℚ} {l l' : List (Obj ℚ)} (h : s.Grows x l l') :
    s.points l' < s.points l ↔ s.Lowers x l l' := by
  by_cases hl : l = []
  · have hzero := (s.points_mem l').1
    rw [hl, points_nil]
    refine ⟨fun hlt ↦ absurd hlt hzero.not_gt, ?_⟩
    rintro ⟨y, hy, -⟩
    cases s <;> exact hy.nil.elim
  · obtain ⟨y, hy⟩ := s.exists_isFirst_pool hl
    rcases h.choice hy with hsame | ⟨hx, hfollows⟩
    · rw [s.points_eq hy, s.points_eq hsame]
      refine ⟨fun hlt ↦ absurd hlt (lt_irrefl _), ?_⟩
      rintro ⟨z, hz, hx, hd⟩
      obtain rfl := hz.unique hy
      obtain rfl := hx.unique hsame
      exact absurd hd (not_displaces_self s _)
    · rw [s.points_eq hy, s.points_eq hx, scaled_lt_iff_displaces hfollows]
      refine ⟨fun hd ↦ ⟨y, hy, hx, hd⟩, ?_⟩
      rintro ⟨z, hz, -, hd⟩
      exact hz.unique hy ▸ hd

/-- A campaign that is marked keeps its rank, so the choice stays. -/
theorem points_le_of_marked (before after : List (Obj ℚ)) {m x : Obj ℚ} (hc : confidence x = confidence m)
    (hb : boosted m = true → boosted x = true) :
    points .campaign (before ++ m :: after) ≤ points .campaign (before ++ x :: after) := by
  obtain ⟨y, hy⟩ := exists_isFirst_pool (l := before ++ m :: after) .campaign (by simp)
  by_cases hw : Wins confidence before x after
  · have hm : Wins confidence before m after := by
      rw [Wins, ← hc]
      exact hw
    have hx : IsFirst (rank .campaign) (pool .campaign (before ++ x :: after)) x := hw.isFirst
    have hm : IsFirst (rank .campaign) (pool .campaign (before ++ m :: after)) m := hm.isFirst
    rw [points_eq _ hx, points_eq _ hm]
    apply scaled_mono (by decide)
    rw [weight, weight, hc]
    cases hm : boosted m with
    | true => rw [hb hm]
    | false =>
      rw [if_neg Bool.false_ne_true]
      split <;> norm_num
  · have hy' : IsFirst (rank .campaign) (pool .campaign (before ++ x :: after)) y := hy.replace_of_not_wins hc.ge hw
    rw [points_eq _ hy, points_eq _ hy']

omit [Interp] [Titles] in
theorem pool_perm (s : Signal) {l l' : List (Obj ℚ)} (h : l'.Perm l) : (s.pool l').Perm (s.pool l) := by
  cases s with
  | actor =>
    have hf := h.filter sectorMatch
    rw [pool, pool]
    by_cases hl : l.filter sectorMatch = []
    · rw [if_pos hl, if_pos (List.perm_nil.mp (hl ▸ hf))]
      exact h
    · rw [if_neg hl, if_neg fun hnil : l'.filter sectorMatch = [] ↦ hl (List.perm_nil.mp (hnil ▸ hf.symm))]
      exact hf
  | _ => exact h

/-- What an actor or an anomaly gives depends on what it is compared by alone. -/
theorem points_perm {s : Signal} (hs : s = .actor ∨ s = .temporal) {l l' : List (Obj ℚ)} (h : l'.Perm l) :
    s.points l' = s.points l := by
  by_cases hl : l = []
  · subst hl
    rw [h.eq_nil]
  · have hl' : l' ≠ [] := fun hnil ↦ hl (List.perm_nil.mp (hnil ▸ h.symm))
    have hp := s.pool_perm h
    obtain ⟨x, hx⟩ := s.exists_isFirst_pool hl
    obtain ⟨y, hy⟩ := s.exists_isFirst_pool hl'
    have hy' := hp.mem_iff.mp hy.mem
    have hflag : s = .actor → sectorMatch x = sectorMatch y := by
      rintro rfl
      rw [sectorMatch_of_mem_pool hx.mem, sectorMatch_of_mem_pool hy']
    have hle := weight_mono hs (hx.le hy') hflag
    have hge := weight_mono hs (hy.le (hp.mem_iff.mpr hx.mem)) fun h ↦ (hflag h).symm
    rw [s.points_eq hx, s.points_eq hy, hle.antisymm hge]

/-- Campaigns or links of one confidence give the same. -/
def Agree : Signal → Obj ℚ → Obj ℚ → Prop
  | campaign, x, y => confidence x = 1 ∨ boosted x = boosted y
  | infrastructure, x, y => scaled 25 (weight .infrastructure x) = scaled 25 (weight .infrastructure y)
  | _, _, _ => True

omit [Titles] in
theorem agrees_iff {s : Signal} (hs : s = .campaign ∨ s = .infrastructure) {x y : Obj ℚ}
    (h : confidence y = confidence x) :
    scaled s.cap (s.weight y) = scaled s.cap (s.weight x) ↔ s.Agree x y := by
  rcases hs with rfl | rfl
  · have hle := (campaign_lt_iff h.le).not
    have hge := (campaign_lt_iff h.ge).not
    have hone := (confidence_mem x).2
    rw [Agree, le_antisymm_iff, ← not_lt, ← not_lt, hle, hge, h]
    cases boosted x <;> cases boosted y <;> simp [eq_iff_le_not_lt, hone]
  · rw [Agree, eq_comm]
    rfl

/-- Most confident campaigns, and links, agree with one another. -/
def TiesAgree (s : Signal) (l : List (Obj ℚ)) : Prop :=
  ∀ x ∈ l, ∀ y ∈ l, (∀ a ∈ l, confidence a ≤ confidence x) → confidence y = confidence x → s.Agree x y

theorem points_perm_iff (s : Signal) (l : List (Obj ℚ)) :
    (∀ l' : List (Obj ℚ), l'.Perm l → s.points l' = s.points l) ↔ s.TiesAgree l := by
  by_cases hs : s = .actor ∨ s = .temporal
  · refine ⟨fun _ x _ y _ _ _ ↦ ?_, fun _ l' h ↦ points_perm hs h⟩
    rcases hs with rfl | rfl <;> trivial
  · have hs' : s = .campaign ∨ s = .infrastructure := by
      cases s <;> first | exact .inl rfl | exact .inr rfl | exact absurd (.inl rfl) hs | exact absurd (.inr rfl) hs
    have hpool : ∀ l, s.pool l = l := by
      rcases hs' with rfl | rfl <;> exact fun _ ↦ rfl
    have hrank : s.rank = confidence := by
      rcases hs' with rfl | rfl <;> rfl
    by_cases hl : l = []
    · subst hl
      exact ⟨fun _ x hx ↦ (by cases hx), fun _ l' h ↦ by rw [h.eq_nil]⟩
    · obtain ⟨x, hx⟩ := s.exists_isFirst_pool hl
      have hpoints := s.points_eq hx
      rw [hpool, hrank] at hx
      have hperm := forall_perm_iff (v := fun o ↦ scaled s.cap (s.weight o)) hx
      have hpoints' : ∀ {l' y}, IsFirst confidence l' y → s.points l' = scaled s.cap (s.weight y) := by
        intro l' y hy
        exact s.points_eq (by rw [hpool, hrank]; exact hy)
      have hleft : (∀ l' : List (Obj ℚ), l'.Perm l → s.points l' = s.points l) ↔
          ∀ a ∈ l, confidence a = confidence x → scaled s.cap (s.weight a) = scaled s.cap (s.weight x) := by
        rw [← hperm, hpoints]
        constructor
        · intro h l' y hp hy
          exact (hpoints' hy).symm.trans (h l' hp)
        · intro h l' hp
          obtain ⟨y, hy⟩ := exists_isFirst confidence fun hnil : l' = [] ↦ hl (List.perm_nil.mp (hnil ▸ hp.symm))
          exact (hpoints' hy).trans (h l' y hp hy)
      rw [hleft]
      constructor
      · intro h a ha b hb hgreatest hsame
        have hax : confidence a = confidence x := (hx.le ha).antisymm (hgreatest x hx.mem)
        exact (agrees_iff hs' hsame).mp ((h b hb (hsame.trans hax)).trans (h a ha hax).symm)
      · intro h a ha hsame
        exact (agrees_iff hs' hsame).mpr (h x hx.mem a ha (fun b hb ↦ hx.le hb) hsame)

omit [NumberTexts] [Interp] [Titles] in
theorem key_injective : Function.Injective key := by
  intro s t h
  cases s <;> cases t <;> first | rfl | exact absurd h (by decide)

end Signal

variable [Titles]

omit [NumberTexts] [Interp] [Titles] in
theorem part_set (r : Result ℚ) (s t : Signal) (l : List (Obj ℚ)) :
    Result.part (r.set s.key (.list l)) t.key = if t = s then l else r.part t.key := by
  rw [Result.part, Result.get, Library.Dict.get?_set]
  by_cases h : t = s
  · rw [if_pos h, if_pos (congrArg Signal.key h)]
    rfl
  · rw [if_neg h, if_neg fun hk ↦ h (Signal.key_injective hk)]
    rfl

/-- The lists of the other signals stay. -/
def OnlyChanges (s : Signal) (r r' : Result ℚ) : Prop := ∀ t, t ≠ s → r'.part t.key = r.part t.key

theorem total_of_onlyChanges {s : Signal} {r r' : Result ℚ} (h : OnlyChanges s r r') :
    total r' + s.points (r.part s.key) = total r + s.points (r'.part s.key) := by
  have hother : ∀ t, t ≠ s → t.points (r'.part t.key) = t.points (r.part t.key) := fun t ht ↦ by rw [h t ht]
  have hc := hother .campaign
  have hi := hother .infrastructure
  have ha := hother .actor
  have ht := hother .temporal
  simp only [Signal.key] at hc hi ha ht
  cases s <;> simp only [total, Signal.key, hc, hi, ha, ht, ne_eq, reduceCtorEq, not_false_eq_true] <;> ring

theorem score_le_iff {s : Signal} {r r' : Result ℚ} (h : OnlyChanges s r r') :
    score r ≤ score r' ↔ s.points (r.part s.key) ≤ s.points (r'.part s.key) := by
  have hsum := total_of_onlyChanges h
  rw [score_eq_total, score_eq_total]
  constructor <;> intro hle <;> linarith

theorem score_perm_iff (r : Result ℚ) :
    (∀ r' : Result ℚ, (∀ s : Signal, (r'.part s.key).Perm (r.part s.key)) → score r' = score r) ↔
      ∀ s : Signal, s.TiesAgree (r.part s.key) := by
  constructor
  · intro h s
    rw [← s.points_perm_iff]
    intro l' hl'
    have hpart := fun t ↦ part_set r s t l'
    have honly : OnlyChanges s r (r.set s.key (.list l')) := fun t ht ↦ by rw [hpart, if_neg ht]
    have hsum := total_of_onlyChanges honly
    have hscore := h (r.set s.key (.list l')) fun t ↦ by
      rw [hpart]
      split
      next ht => rw [ht]; exact hl'
      next => exact .refl _
    rw [score_eq_total, score_eq_total] at hscore
    rw [hpart, if_pos rfl] at hsum
    linarith
  · intro h r' hr'
    have hpoints : ∀ s : Signal, s.points (r'.part s.key) = s.points (r.part s.key) :=
      fun s ↦ (s.points_perm_iff _).mpr (h s) _ (hr' s)
    have hc := hpoints .campaign
    have hi := hpoints .infrastructure
    have ha := hpoints .actor
    have ht := hpoints .temporal
    simp only [Signal.key] at hc hi ha ht
    rw [score_eq_total, score_eq_total, total, total, hc, hi, ha, ht]

/-- The score is the sum of its components, between 0 and 100. It does not depend on the order of the lists exactly
where ties agree, it falls when a list grows exactly where a choice is displaced, and no mark lowers it. -/
theorem priority_iff (r : Result ℚ) :
    (0 ≤ score r ∧ score r ≤ 100 ∧ (componentPoints r).sum = score r) ∧
      ((∀ r' : Result ℚ, (∀ s : Signal, (r'.part s.key).Perm (r.part s.key)) → score r' = score r) ↔
        ∀ s : Signal, s.TiesAgree (r.part s.key)) ∧
      (∀ (s : Signal) (r' : Result ℚ) (x : Obj ℚ), OnlyChanges s r r' → s.Grows x (r.part s.key) (r'.part s.key) →
        (score r ≤ score r' ↔ ¬s.Lowers x (r.part s.key) (r'.part s.key))) ∧
      ∀ (r' : Result ℚ) (before after : List (Obj ℚ)) (m x : Obj ℚ), OnlyChanges .campaign r r' →
        r.part campaignsKey = before ++ m :: after → r'.part campaignsKey = before ++ x :: after →
        confidence x = confidence m → (boosted m = true → boosted x = true) → score r ≤ score r' := by
  refine ⟨⟨?_, ?_, ?_⟩, score_perm_iff r, ?_, ?_⟩
  · rw [score_eq_total]
    exact (total_mem r).1
  · rw [score_eq_total]
    exact (total_mem r).2
  · rw [score_eq_total, sum_componentPoints]
  · intro s r' x honly hgrows
    rw [score_le_iff honly, ← not_lt, hgrows.points_lt_iff]
  · intro r' before after m x honly hr hr' hc hb
    rw [score_le_iff honly, Signal.key, hr, hr']
    exact Signal.points_le_of_marked before after hc hb

end

section
attribute [local instance] exactNumbers

local instance priorityTexts : NumberTexts := ⟨fun _ ↦ [], fun _ ↦ []⟩

local instance priorityInterp : Interp := ascii fun _ ↦ none

local instance priorityTitles : Titles := ⟨fun s ↦ s⟩

/-- A campaign of medium confidence with the listed members that are known to be exploited. -/
def mediumCampaign (kev : List (Obj ℚ)) : Obj ℚ :=
  .dict [("confidence".toList, .str "medium".toList), ("boosters".toList, .dict [("kev".toList, .list kev)])]

def actorWith (confidence : Text) (sectorMatch : Bool) : Obj ℚ :=
  .dict [("confidence".toList, .str confidence), ("user_sector_match".toList, .bool sectorMatch)]

def withCampaigns (campaigns : List (Obj ℚ)) : Result ℚ := Library.Dict.empty.set Signal.campaign.key (.list campaigns)

def withActors (actors : List (Obj ℚ)) : Result ℚ := Library.Dict.empty.set Signal.actor.key (.list actors)

def exploitedMember : Obj ℚ := .str "CVE-2024-0002".toList

/-- Two campaigns of equal confidence score by their order, and an actor of low confidence that matches the sector
lowers the score. -/
theorem priority_moves :
    score (withCampaigns [mediumCampaign [], mediumCampaign [exploitedMember]]) = 25 ∧
      score (withCampaigns [mediumCampaign [exploitedMember], mediumCampaign []]) = 31 ∧
      score (withActors [actorWith "medium".toList false]) = 25 / 2 ∧
      score (withActors [actorWith "medium".toList false, actorWith "low".toList true]) = 11 := by
  decide +kernel

theorem priority_iff_withActors :
    score (withActors [actorWith "medium".toList false]) ≤
        score (withActors [actorWith "medium".toList false, actorWith "low".toList true]) ↔
      ¬Signal.Lowers .actor (actorWith "low".toList true) [actorWith "medium".toList false]
        [actorWith "medium".toList false, actorWith "low".toList true] := by
  have hother : OnlyChanges .actor (withActors [actorWith "medium".toList false])
      (withActors [actorWith "medium".toList false, actorWith "low".toList true]) := by
    intro t ht
    rw [withActors, withActors, part_set, part_set, if_neg ht, if_neg ht]
  exact (priority_iff (withActors [actorWith "medium".toList false])).2.2.1 .actor _ _ hother
    (.add [actorWith "medium".toList false] [])

end

end Briefr.Correlation.CombinedPriority
