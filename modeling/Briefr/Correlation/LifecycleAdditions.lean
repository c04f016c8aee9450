import Briefr.Correlation.LifecycleOrder

namespace Briefr.Correlation

open Briefr.Python

/-- A move towards a calmer label. -/
inductive Falls : Py Lifecycle → Py Lifecycle → Prop
  | emergingActive : Falls (.ok .emerging) (.ok .active)
  | emergingDeclining : Falls (.ok .emerging) (.ok .declining)
  | activeDeclining : Falls (.ok .active) (.ok .declining)

theorem not_falls_self (l : Py Lifecycle) : ¬Falls l l := by rintro ⟨⟩

theorem not_falls_emerging (l : Py Lifecycle) : ¬Falls l (.ok .emerging) := by rintro ⟨⟩

theorem not_falls_stale (l : Py Lifecycle) : ¬Falls l (.ok .stale) := by rintro ⟨⟩

theorem falls_active_iff (l : Py Lifecycle) : Falls l (.ok .active) ↔ l = .ok .emerging := by
  constructor
  · rintro ⟨⟩
    rfl
  · rintro rfl
    exact .emergingActive

theorem since_mono {c c' : ℤ} (h : c' ≤ c) {date : Option ℕ} (hd : since c date = true) : since c' date = true := by
  cases date with
  | none => cases hd
  | some t =>
    have ht : c ≤ t := of_decide_eq_true hd
    exact decide_eq_true (h.trans ht)

theorem cutoff_anti (now : ℕ) {days days' : ℕ} (h : days ≤ days') : cutoff now days' ≤ cutoff now days := by
  have hle : days * microsecondsPerDay ≤ days' * microsecondsPerDay := Nat.mul_le_mul_right _ h
  rw [cutoff, cutoff]
  omega

/-- A date that decides is recent. -/
theorem Dated.recent_of_verdict {now : ℕ} {x : Dated} {l : Lifecycle} (h : x.verdict now = some (.ok l))
    (hdays : x.days ≤ 30) : x.recent now = true := by
  cases hx : x.date with
  | error e =>
    simp only [verdict, hx] at h
    cases h
  | ok d =>
    by_cases hd : since (cutoff now x.days) d = true
    · rw [recent, hx]
      exact since_mono (cutoff_anti now hdays) hd
    · simp only [verdict, hx, if_neg hd] at h
      cases h

/-- A date as the rows have them: it decides on one of the two lively labels, within the thirty days. -/
structure Dated.Lively (x : Dated) : Prop where
  days : x.days ≤ 30
  label : x.label = .emerging ∨ x.label = .active

theorem Dated.label_of_verdict {now : ℕ} {x : Dated} {l : Lifecycle} (h : x.verdict now = some (.ok l)) :
    x.label = l := by
  cases hx : x.date with
  | error e =>
    simp only [verdict, hx] at h
    cases h
  | ok d =>
    by_cases hd : since (cutoff now x.days) d = true
    · simp only [verdict, hx, if_pos hd] at h
      exact Except.ok.inj (Option.some.inj h)
    · simp only [verdict, hx, if_neg hd] at h
      cases h

section
variable {now : ℕ} {recent : Bool} {l : List Dated}

theorem settle_of_some {v : Py Lifecycle} (h : l.findSome? (Dated.verdict now) = some v) :
    settle now recent l = v := by
  rw [settle, h, Option.getD_some]

theorem settle_of_none (h : l.findSome? (Dated.verdict now) = none) :
    settle now recent l = .ok (if recent || l.any (Dated.recent now) then .active else .declining) := by
  rw [settle, h, Option.getD_none]

theorem label_of_findSome? {label : Lifecycle} (hl : ∀ x ∈ l, x.Lively)
    (h : l.findSome? (Dated.verdict now) = some (.ok label)) : label = .emerging ∨ label = .active := by
  obtain ⟨x, hx, hv⟩ := List.exists_of_findSome?_eq_some h
  exact Dated.label_of_verdict hv ▸ (hl x hx).label

theorem any_recent_of_verdict {label : Lifecycle} (hl : ∀ x ∈ l, x.Lively)
    (h : l.findSome? (Dated.verdict now) = some (.ok label)) : l.any (Dated.recent now) = true := by
  obtain ⟨x, hx, hv⟩ := List.exists_of_findSome?_eq_some h
  exact List.any_eq_true.mpr ⟨x, hx, Dated.recent_of_verdict hv (hl x hx).days⟩

/-- Something recent keeps the label from being declining. -/
theorem settle_ne_declining (hl : ∀ x ∈ l, x.Lively) (h : recent = true ∨ l.any (Dated.recent now) = true) :
    settle now recent l ≠ .ok .declining := by
  intro hs
  cases hf : l.findSome? (Dated.verdict now) with
  | some v =>
    rw [settle_of_some hf] at hs
    rw [hs] at hf
    rcases label_of_findSome? hl hf with h | h <;> cases h
  | none =>
    rw [settle_of_none hf, if_pos (Bool.or_eq_true _ _ ▸ h)] at hs
    cases hs

theorem settle_eq_emerging_iff :
    settle now recent l = .ok .emerging ↔ l.findSome? (Dated.verdict now) = some (.ok .emerging) := by
  cases hf : l.findSome? (Dated.verdict now) with
  | some v => rw [settle_of_some hf, Option.some_inj]
  | none =>
    rw [settle_of_none hf]
    constructor
    · intro h
      split at h <;> cases h
    · rintro ⟨⟩

end

theorem Falls.of_active {l : Py Lifecycle} (h : Falls (.ok .active) l) : l = .ok .declining := by
  cases h
  rfl

/-- Dates in place of others: what made the label emerging still does, what was readable stays so, and what was recent
stays so. -/
structure Improves (now : ℕ) (b b' : List Dated) : Prop where
  lively : ∀ x ∈ b, x.Lively
  lively' : ∀ x ∈ b', x.Lively
  emerging : b.findSome? (Dated.verdict now) = some (.ok .emerging) →
    b'.findSome? (Dated.verdict now) = some (.ok .emerging)
  readable : b.findSome? (Dated.verdict now) = none → ∀ e, b'.findSome? (Dated.verdict now) ≠ some (.error e)
  recent : b.any (Dated.recent now) = true → b'.any (Dated.recent now) = true

/-- An active verdict that overtakes an emerging one is the only way down. -/
theorem falls_settle_iff {now : ℕ} {b b' : List Dated} (h : Improves now b b') (recent : Bool) {a c : List Dated}
    (ha : ∀ x ∈ a, x.Lively) (hc : ∀ x ∈ c, x.Lively) :
    Falls (settle now recent (a ++ b ++ c)) (settle now recent (a ++ b' ++ c)) ↔
      a.findSome? (Dated.verdict now) = none ∧ b.findSome? (Dated.verdict now) = none ∧
        b'.findSome? (Dated.verdict now) = some (.ok .active) ∧
        c.findSome? (Dated.verdict now) = some (.ok .emerging) := by
  have hsplit : ∀ b, (a ++ b ++ c).findSome? (Dated.verdict now) = ((a.findSome? (Dated.verdict now)).or
      (b.findSome? (Dated.verdict now))).or (c.findSome? (Dated.verdict now)) := by
    intro b
    rw [List.findSome?_append, List.findSome?_append]
  have hlively : ∀ x ∈ a ++ b' ++ c, x.Lively := by
    simp only [List.mem_append]
    rintro x ((hx | hx) | hx)
    · exact ha x hx
    · exact h.lively' x hx
    · exact hc x hx
  cases hfa : a.findSome? (Dated.verdict now) with
  | some v =>
    have hs : ∀ b, settle now recent (a ++ b ++ c) = v := fun b ↦ settle_of_some (by rw [hsplit, hfa]; rfl)
    rw [hs, hs]
    exact ⟨fun h ↦ absurd h (not_falls_self v), fun h ↦ by cases h.1⟩
  | none =>
    cases hfb : b.findSome? (Dated.verdict now) with
    | some v =>
      refine ⟨fun hfall ↦ False.elim ?_, fun h ↦ by cases h.2.1⟩
      rw [settle_of_some (l := a ++ b ++ c) (v := v) (by rw [hsplit, hfa, hfb]; rfl)] at hfall
      cases v with
      | error e => cases hfall
      | ok label =>
        rcases label_of_findSome? h.lively hfb with rfl | rfl
        · have hb' := h.emerging hfb
          rw [settle_of_some (l := a ++ b' ++ c) (v := .ok .emerging) (by rw [hsplit, hfa, hb']; rfl)] at hfall
          exact not_falls_self _ hfall
        · have hr := h.recent (any_recent_of_verdict h.lively hfb)
          refine settle_ne_declining hlively (.inr ?_) hfall.of_active
          rw [List.any_append, List.any_append, hr, Bool.or_true, Bool.true_or]
    | none =>
      have hleft : (a ++ b ++ c).findSome? (Dated.verdict now) = c.findSome? (Dated.verdict now) := by
        rw [hsplit, hfa, hfb]
        rfl
      cases hfb' : b'.findSome? (Dated.verdict now) with
      | some v =>
        rw [settle_of_some (l := a ++ b' ++ c) (v := v) (by rw [hsplit, hfa, hfb']; rfl)]
        cases v with
        | error e => exact absurd hfb' (h.readable hfb e)
        | ok label =>
          rcases label_of_findSome? h.lively' hfb' with rfl | rfl
          · exact ⟨fun h ↦ absurd h (not_falls_emerging _), fun h ↦ by cases h.2.2.1⟩
          · rw [falls_active_iff, settle_eq_emerging_iff, hleft]
            exact ⟨fun h ↦ ⟨rfl, rfl, rfl, h⟩, fun h ↦ h.2.2.2⟩
      | none =>
        refine ⟨fun hfall ↦ False.elim ?_, fun h ↦ by cases h.2.2.1⟩
        have hright : (a ++ b' ++ c).findSome? (Dated.verdict now) = c.findSome? (Dated.verdict now) := by
          rw [hsplit, hfa, hfb']
          rfl
        cases hfc : c.findSome? (Dated.verdict now) with
        | some v =>
          rw [settle_of_some (hleft.trans hfc), settle_of_some (hright.trans hfc)] at hfall
          exact not_falls_self v hfall
        | none =>
          rw [settle_of_none (hleft.trans hfc)] at hfall
          split at hfall
          next hr =>
            refine settle_ne_declining hlively ?_ hfall.of_active
            simp only [List.any_append, Bool.or_eq_true] at hr ⊢
            rcases hr with hr | (hr | hr) | hr
            · exact .inl hr
            · exact .inr (.inl (.inl hr))
            · exact .inr (.inl (.inr (h.recent hr)))
            · exact .inr (.inr hr)
          next => cases hfall

section
variable [Interp] [Iso]

/-- A date that can be read and is not later than now. -/
def Past (now : ℕ) (date : Option Text) : Prop := ∃ t ≤ now, parseDt date = .ok (some t)

/-- A member gets one date where it had none. -/
inductive MemberRow.Adds (now : ℕ) (m : MemberRow) : MemberRow → Prop
  | published {date : Option Text} (h : parseDt m.published = .ok none) (hd : Past now date) :
    m.Adds now { m with published := date }
  | modified {date : Option Text} (h : parseDt m.modified = .ok none) (hd : Past now date) :
    m.Adds now { m with modified := date }
  | kevDateAdded {date : Option Text} (h : parseDt m.kevDateAdded = .ok none) (hd : Past now date) :
    m.Adds now { m with kevDateAdded := date }
  | epssActivityAt {date : Option Text} (h : parseDt m.epssActivityAt = .ok none) (hd : Past now date) :
    m.Adds now { m with epssActivityAt := date }

theorem lively_observed (date : Option Text) : (observed date).Lively := ⟨Nat.le_of_ble_eq_true rfl, .inl rfl⟩

theorem lively_dated (m : MemberRow) : ∀ x ∈ m.dated, x.Lively := by
  simp only [MemberRow.dated, List.forall_mem_cons]
  refine ⟨⟨?_, ?_⟩, ⟨?_, ?_⟩, ⟨?_, ?_⟩, ⟨?_, ?_⟩, ⟨?_, ?_⟩, ?_⟩ <;> simp

omit [Interp] [Iso] in
theorem Dated.verdict_none {now : ℕ} {x : Dated} (h : x.date = .ok none) : x.verdict now = none := by
  simp only [verdict, h]
  rfl

omit [Interp] [Iso] in
theorem Dated.recent_none {now : ℕ} {x : Dated} (h : x.date = .ok none) : x.recent now = false := by
  simp only [recent, h]
  rfl

omit [Interp] [Iso] in
theorem Dated.verdict_readable (now : ℕ) {x : Dated} (h : ∃ d, x.date = .ok d) :
    x.verdict now = none ∨ x.verdict now = some (.ok x.label) := by
  obtain ⟨d, hd⟩ := h
  simp only [verdict, hd]
  split
  · exact .inr rfl
  · exact .inl rfl

omit [Interp] [Iso] in
theorem Dated.readable_of_verdict {now : ℕ} {x : Dated} (h : x.verdict now = none) : ∃ d, x.date = .ok d := by
  cases hx : x.date with
  | ok d => exact ⟨d, rfl⟩
  | error e =>
    simp only [verdict, hx] at h
    cases h

omit [Interp] [Iso] in
theorem readable_of_findSome? {now : ℕ} {l : List Dated} (h : l.findSome? (Dated.verdict now) = none) :
    ∀ x ∈ l, ∃ d, x.date = .ok d :=
  fun x hx ↦ Dated.readable_of_verdict (List.findSome?_eq_none_iff.mp h x hx)

omit [Interp] [Iso] in
theorem findSome?_ne_error {now : ℕ} {l : List Dated} (h : ∀ x ∈ l, ∃ d, x.date = .ok d) (e : Exc) :
    l.findSome? (Dated.verdict now) ≠ some (.error e) := by
  intro hf
  obtain ⟨x, hx, hv⟩ := List.exists_of_findSome?_eq_some hf
  rcases Dated.verdict_readable now (h x hx) with h | h <;> rw [h] at hv <;> cases hv

/-- Only the first two dates of a member make it emerging. -/
theorem MemberRow.verdict_emerging_iff (m : MemberRow) (now : ℕ) :
    m.dated.findSome? (Dated.verdict now) = some (.ok .emerging) ↔
      ((observed m.published).verdict now).or ((observed m.modified).verdict now) = some (.ok .emerging) := by
  rw [← List.take_append_drop 2 m.dated, List.findSome?_append]
  have htake : (m.dated.take 2).findSome? (Dated.verdict now) =
      ((observed m.published).verdict now).or ((observed m.modified).verdict now) := by
    rw [dated, List.take_succ_cons, List.take_succ_cons, List.take_zero, List.findSome?_cons, List.findSome?_cons]
    simp only [observed, List.findSome?_nil]
    cases Dated.verdict now ⟨7, .emerging, parseDt m.published⟩ with
    | some v => rfl
    | none => cases Dated.verdict now ⟨7, .emerging, parseDt m.modified⟩ <;> rfl
  rw [htake]
  cases ((observed m.published).verdict now).or ((observed m.modified).verdict now) with
  | some v => rw [Option.some_or]
  | none =>
    rw [Option.none_or]
    refine ⟨fun h ↦ False.elim ?_, fun h ↦ by cases h⟩
    obtain ⟨x, hx, hv⟩ := List.exists_of_findSome?_eq_some h
    have hlabel := Dated.label_of_verdict hv
    simp only [dated, List.drop_succ_cons, List.drop_zero, List.mem_cons, List.not_mem_nil, or_false] at hx
    rcases hx with rfl | rfl | rfl <;> cases hlabel

theorem MemberRow.Adds.emerging {now : ℕ} {m m' : MemberRow} (h : m.Adds now m')
    (hm : m.dated.findSome? (Dated.verdict now) = some (.ok .emerging)) :
    m'.dated.findSome? (Dated.verdict now) = some (.ok .emerging) := by
  rw [MemberRow.verdict_emerging_iff] at hm ⊢
  cases h with
  | @published date h hd =>
    obtain ⟨t, -, hd⟩ := hd
    rw [Dated.verdict_none (x := observed m.published) h, Option.none_or] at hm
    rcases Dated.verdict_readable now (x := observed date) ⟨_, hd⟩ with hv | hv
    · rw [hv, Option.none_or]
      exact hm
    · rw [hv, Option.some_or]
      rfl
  | modified h hd =>
    rw [Dated.verdict_none (x := observed m.modified) h, Option.or_none] at hm
    rw [hm, Option.some_or]
  | kevDateAdded h hd => exact hm
  | epssActivityAt h hd => exact hm

omit [Interp] [Iso] in
theorem readable_ite {b : Bool} {date date' : Py (Option ℕ)} (hd : ∃ d, date' = .ok d)
    (h : ∃ d, (if b then date else .ok none) = .ok d) : ∃ d, (if b then date' else .ok none) = .ok d := by
  cases b with
  | true => exact hd
  | false => exact h

theorem pocDate_readable {m : MemberRow} (hp : ∃ d, parseDt m.published = .ok d)
    (hm : ∃ d, parseDt m.modified = .ok d) : ∃ d, pocDate m = .ok d := by
  obtain ⟨d, hd⟩ := hm
  rw [pocDate, hd, ok_bind]
  cases d with
  | none => exact hp
  | some t => exact ⟨some t, rfl⟩

theorem MemberRow.Adds.readable {now : ℕ} {m m' : MemberRow} (h : m.Adds now m')
    (hm : ∀ x ∈ m.dated, ∃ d, x.date = .ok d) : ∀ x ∈ m'.dated, ∃ d, x.date = .ok d := by
  simp only [dated, List.forall_mem_cons, List.not_mem_nil, false_implies, implies_true, and_true] at hm ⊢
  obtain ⟨hp, hd, hk, hc, he⟩ := hm
  cases h with
  | published h hnew =>
    obtain ⟨t, -, hnew⟩ := hnew
    exact ⟨⟨_, hnew⟩, hd, hk, readable_ite (pocDate_readable ⟨_, hnew⟩ hd) hc, he⟩
  | modified h hnew =>
    obtain ⟨t, -, hnew⟩ := hnew
    exact ⟨hp, ⟨_, hnew⟩, hk, readable_ite (pocDate_readable hp ⟨_, hnew⟩) hc, he⟩
  | kevDateAdded h hnew =>
    obtain ⟨t, -, hnew⟩ := hnew
    exact ⟨hp, hd, readable_ite ⟨_, hnew⟩ hk, hc, he⟩
  | epssActivityAt h hnew =>
    obtain ⟨t, -, hnew⟩ := hnew
    exact ⟨hp, hd, hk, hc, _, hnew⟩

theorem poc_recent {now : ℕ} {m : MemberRow}
    (h : (⟨14, .active, if m.hasPoc then pocDate m else .ok none⟩ : Dated).recent now = true) :
    (observed m.published).recent now = true ∨ (observed m.modified).recent now = true := by
  simp only [Dated.recent, observed] at h ⊢
  cases hb : m.hasPoc with
  | false =>
    rw [hb] at h
    cases h
  | true =>
    rw [hb, if_pos rfl, pocDate] at h
    cases hd : parseDt m.modified with
    | error e =>
      rw [hd] at h
      cases h
    | ok d =>
      rw [hd, ok_bind] at h
      cases d with
      | none => exact .inl h
      | some t => exact .inr h

theorem MemberRow.any_recent_iff (m : MemberRow) (now : ℕ) : m.dated.any (Dated.recent now) = true ↔
    (observed m.published).recent now = true ∨ (observed m.modified).recent now = true ∨
      (⟨14, .active, if m.isKev then parseDt m.kevDateAdded else .ok none⟩ : Dated).recent now = true ∨
        (⟨14, .active, parseDt m.epssActivityAt⟩ : Dated).recent now = true := by
  simp only [dated, List.any_cons, List.any_nil, Bool.or_false, Bool.or_eq_true]
  constructor
  · rintro (h | h | h | h | h)
    · exact .inl h
    · exact .inr (.inl h)
    · exact .inr (.inr (.inl h))
    · exact (poc_recent h).imp_right .inl
    · exact .inr (.inr (.inr h))
  · rintro (h | h | h | h)
    · exact .inl h
    · exact .inr (.inl h)
    · exact .inr (.inr (.inl h))
    · exact .inr (.inr (.inr (.inr h)))

theorem MemberRow.Adds.recent {now : ℕ} {m m' : MemberRow} (h : m.Adds now m')
    (hm : m.dated.any (Dated.recent now) = true) : m'.dated.any (Dated.recent now) = true := by
  rw [MemberRow.any_recent_iff] at hm ⊢
  have habsent : ∀ {x : Dated}, x.date = .ok none → ¬x.recent now = true := fun hx h ↦ by
    rw [Dated.recent_none hx] at h
    cases h
  cases h with
  | published h hd => exact .inr (hm.resolve_left (habsent h))
  | modified h hd => exact hm.imp_right fun hm ↦ .inr (hm.resolve_left (habsent h))
  | kevDateAdded h hd =>
    have hkev : (if m.isKev then parseDt m.kevDateAdded else .ok none) = .ok none := by rw [h, ite_self]
    exact hm.imp_right fun hm ↦ hm.imp_right fun hm ↦ .inr (hm.resolve_left (habsent hkev))
  | epssActivityAt h hd =>
    exact hm.imp_right fun hm ↦ hm.imp_right fun hm ↦ .inl (hm.resolve_right (habsent h))

theorem MemberRow.Adds.improves {now : ℕ} {m m' : MemberRow} (h : m.Adds now m') :
    Improves now m.dated m'.dated where
  lively := lively_dated m
  lively' := lively_dated m'
  emerging := h.emerging
  readable hf := findSome?_ne_error (h.readable (readable_of_findSome? hf))
  recent := h.recent

theorem improves_observed {now : ℕ} {date : Option Text} (h : Past now date) : Improves now [] [observed date] where
  lively x hx := by cases hx
  lively' x hx := by
    obtain rfl := List.mem_singleton.mp hx
    exact lively_observed date
  emerging hf := by cases hf
  readable _ := findSome?_ne_error fun x hx ↦ by
    obtain rfl := List.mem_singleton.mp hx
    obtain ⟨t, -, hd⟩ := h
    exact ⟨_, hd⟩
  recent hr := by cases hr

namespace LifecycleInputs

/-- The inputs with one more date in one of the rows. -/
inductive Adds (now : ℕ) (x : LifecycleInputs) : LifecycleInputs → Prop
  | pulse {date : Option Text} (h : parseDt x.pulseCreatedDate = .ok none) (hd : Past now date) :
    x.Adds now { x with pulseCreatedDate := date }
  | observation {before after : List (Option Text)} {date : Option Text}
    (h : x.memberObservationAt = before ++ after) (hd : Past now date) :
    x.Adds now { x with memberObservationAt := before ++ date :: after }
  | member {before after : List MemberRow} {m m' : MemberRow} (h : x.members = before ++ m :: after)
    (hm : m.Adds now m') : x.Adds now { x with members := before ++ m' :: after }

/-- Nothing decided up to a member that the date makes active, while a later member decides that the campaign is
emerging. -/
def Overtakes (x y : LifecycleInputs) (now : ℕ) : Prop :=
  ∃ pulse before m m' after, parseDt x.pulseCreatedDate = .ok pulse ∧ x.isStale now pulse = false ∧
    x.members = before ++ m :: after ∧ y = { x with members := before ++ m' :: after } ∧
    (∀ o ∈ x.memberObservationAt, (observed o).verdict now = none) ∧ (∀ b ∈ before, b.verdict now = none) ∧
    m.verdict now = none ∧ m'.verdict now = some (.ok .active) ∧
    after.findSome? (MemberRow.verdict now) = some (.ok .emerging)

theorem flags_eq {now : ℕ} {m m' : MemberRow} (h : m.Adds now m') :
    (m'.isKev || m'.hasPoc) = (m.isKev || m.hasPoc) := by
  cases h <;> rfl

theorem Adds.boosters_eq {now : ℕ} {x y : LifecycleInputs} (h : x.Adds now y) : y.boosters = x.boosters := by
  cases h with
  | pulse h hd => rfl
  | observation h hd => rfl
  | member h hm =>
    simp only [boosters, h, List.any_append, List.any_cons, flags_eq hm]

theorem lively_timeline (x : LifecycleInputs) : ∀ d ∈ x.timeline, d.Lively := by
  intro d hd
  rw [timeline, List.mem_append, List.mem_map, List.mem_flatMap] at hd
  rcases hd with ⟨o, -, rfl⟩ | ⟨m, -, hd⟩
  · exact lively_observed o
  · exact lively_dated m d hd

theorem label_eq_settle_of {x : LifecycleInputs} {now : ℕ} {pulse : Option ℕ}
    (hp : parseDt x.pulseCreatedDate = .ok pulse) (hs : x.isStale now pulse = false) :
    x.label now = settle now (since (cutoff now 30) pulse) x.timeline := by
  rw [label_eq, hp, ok_bind, outcome, hs, if_neg Bool.false_ne_true]

theorem Overtakes.falls {now : ℕ} {x y : LifecycleInputs} (h : x.Overtakes y now) (hb : y.boosters = x.boosters) :
    Falls (x.label now) (y.label now) := by
  obtain ⟨pulse, before, m, m', after, hp, hs, hx, rfl, hobs, hbefore, hm, hm', hafter⟩ := h
  have hs' : isStale { x with members := before ++ m' :: after } now pulse = false := by
    rw [isStale, hb]
    exact hs
  rw [label_eq_settle_of hp hs, label_eq_settle_of (x := { x with members := before ++ m' :: after }) hp hs']
  have hobs : (x.memberObservationAt.findSome? fun o ↦ (observed o).verdict now) = none :=
    List.findSome?_eq_none_iff.mpr hobs
  have hbefore : before.findSome? (MemberRow.verdict now) = none := List.findSome?_eq_none_iff.mpr hbefore
  have hold : x.timeline.findSome? (Dated.verdict now) = some (.ok .emerging) := by
    rw [findSome?_timeline, hobs, hx, List.findSome?_append, hbefore, List.findSome?_cons, hm, hafter]
    rfl
  have hnew : (timeline { x with members := before ++ m' :: after }).findSome? (Dated.verdict now) =
      some (.ok .active) := by
    rw [findSome?_timeline, hobs, List.findSome?_append, hbefore, List.findSome?_cons, hm']
    rfl
  rw [settle_of_some hold, settle_of_some hnew]
  exact .emergingActive

omit [Interp] [Iso] in
theorem not_falls_settle (now : ℕ) (recent : Bool) (l : List Dated) :
    ¬Falls (settle now false l) (settle now recent l) := by
  cases hf : l.findSome? (Dated.verdict now) with
  | some v =>
    rw [settle_of_some hf, settle_of_some hf]
    exact not_falls_self v
  | none =>
    rw [settle_of_none hf, settle_of_none hf, Bool.false_or]
    cases l.any (Dated.recent now) with
    | true =>
      rw [Bool.or_true]
      exact not_falls_self _
    | false => rintro ⟨⟩

/-- One more date lowers the label exactly when it makes a member active before a later one that decides the campaign
is emerging. -/
theorem Adds.falls_iff {now : ℕ} {x y : LifecycleInputs} (h : x.Adds now y) :
    Falls (x.label now) (y.label now) ↔ x.Overtakes y now := by
  refine ⟨fun hfall ↦ ?_, fun hover ↦ hover.falls h.boosters_eq⟩
  have hboosters := h.boosters_eq
  have hread : ∃ pulse, parseDt x.pulseCreatedDate = .ok pulse := by
    rw [label_eq] at hfall
    cases hp : parseDt x.pulseCreatedDate with
    | ok pulse => exact ⟨pulse, rfl⟩
    | error e =>
      rw [hp] at hfall
      cases hfall
  obtain ⟨pulse, hp⟩ := hread
  have hstale : x.isStale now pulse = false := by
    rw [label_eq, hp, ok_bind, outcome] at hfall
    cases hs : x.isStale now pulse with
    | false => rfl
    | true =>
      rw [hs, if_pos rfl] at hfall
      cases hfall
  rw [label_eq_settle_of hp hstale] at hfall
  cases h with
  | @pulse date h hd =>
    obtain ⟨t, -, hd⟩ := hd
    obtain rfl := Except.ok.inj (h.symm.trans hp)
    rw [label_eq, hd, ok_bind, outcome] at hfall
    split at hfall
    · exact absurd hfall (not_falls_stale _)
    · exact absurd hfall (not_falls_settle now _ x.timeline)
  | @observation before after date h hd =>
    rw [label_eq_settle_of (x := { x with memberObservationAt := before ++ date :: after }) hp hstale] at hfall
    have hx : x.timeline = before.map observed ++ [] ++ (after.map observed ++ x.members.flatMap MemberRow.dated) := by
      rw [timeline, h, List.map_append, List.append_nil, List.append_assoc]
    have hy : timeline { x with memberObservationAt := before ++ date :: after } =
        before.map observed ++ [observed date] ++ (after.map observed ++ x.members.flatMap MemberRow.dated) := by
      simp only [timeline, List.map_append, List.map_cons, List.append_assoc, List.cons_append, List.nil_append]
    have hlively := lively_timeline x
    rw [hx, List.append_nil] at hlively
    rw [hx, hy, falls_settle_iff (improves_observed hd) _ (fun d hd ↦ hlively d (List.mem_append_left _ hd))
      (fun d hd ↦ hlively d (List.mem_append_right _ hd))] at hfall
    obtain ⟨x', hx', hv⟩ := List.exists_of_findSome?_eq_some hfall.2.2.1
    obtain rfl := List.mem_singleton.mp hx'
    cases Dated.label_of_verdict hv
  | @member before after m m' h hm =>
    have hs' : isStale { x with members := before ++ m' :: after } now pulse = false := by
      rw [isStale, hboosters]
      exact hstale
    rw [label_eq_settle_of (x := { x with members := before ++ m' :: after }) hp hs'] at hfall
    have hx : x.timeline = x.memberObservationAt.map observed ++ before.flatMap MemberRow.dated ++ m.dated ++
        after.flatMap MemberRow.dated := by
      rw [timeline, h, List.flatMap_append, List.flatMap_cons]
      simp only [List.append_assoc]
    have hy : timeline { x with members := before ++ m' :: after } =
        x.memberObservationAt.map observed ++ before.flatMap MemberRow.dated ++ m'.dated ++
          after.flatMap MemberRow.dated := by
      rw [timeline, List.flatMap_append, List.flatMap_cons]
      simp only [List.append_assoc]
    have hlively := lively_timeline x
    rw [hx] at hlively
    rw [hx, hy, falls_settle_iff hm.improves _
      (fun d hd ↦ hlively d (List.mem_append_left _ (List.mem_append_left _ hd)))
      (fun d hd ↦ hlively d (List.mem_append_right _ hd)), List.findSome?_append, Option.or_eq_none_iff,
      List.findSome?_map, findSome?_flatMap, findSome?_flatMap] at hfall
    obtain ⟨⟨hobs, hbefore⟩, hnone, hactive, hafter⟩ := hfall
    exact ⟨pulse, before, m, m', after, hp, hstale, h, rfl, List.findSome?_eq_none_iff.mp hobs,
      List.findSome?_eq_none_iff.mp hbefore, hnone, hactive, hafter⟩

/-- The order of the rows does not matter exactly for inputs that agree, and a date lowers no label exactly when it
overtakes nothing. -/
theorem lifecycle_order_iff (x : LifecycleInputs) (now : ℕ) :
    (x.OrderBlind now ↔ x.Agrees now) ∧
      ∀ y, x.Adds now y → (¬Falls (x.label now) (y.label now) ↔ ¬x.Overtakes y now) :=
  ⟨⟨agrees_of_orderBlind, orderBlind_of_agrees⟩, fun _ h ↦ not_congr h.falls_iff⟩

end LifecycleInputs

end

section
local instance lifecycleInterp : Interp := ascii fun _ ↦ none

local instance lifecycleIso : Iso where
  fromIsoformat text := if text = "2026-01-02T00:00:00+00:00".toList then some 63902908800000000 else none

def lifecycleNow : ℕ := 63902919845000000

def publishedToday : MemberRow := ⟨false, false, some "2026-01-02".toList, none, none, none⟩

/-- A member of the catalog of exploited vulnerabilities, with the date it was added or without. -/
def kevMember (date : Option Text) : MemberRow := ⟨true, false, none, none, date, none⟩

def kevFirst (date : Option Text) : LifecycleInputs := ⟨none, [kevMember date, publishedToday], []⟩

theorem adds_kevDate :
    (kevFirst none).Adds lifecycleNow (kevFirst (some "2026-01-02".toList)) :=
  @LifecycleInputs.Adds.member _ _ lifecycleNow (kevFirst none) [] [publishedToday] (kevMember none) _ rfl
    (.kevDateAdded (by decide) ⟨63902908800000000, by decide, by decide +kernel⟩)

/-- A campaign with a member exploited today and a member published today: each order of the two has its own label,
and the date of the first takes the label from emerging to active. -/
theorem kevFirst_depends : ¬(kevFirst (some "2026-01-02".toList)).OrderBlind lifecycleNow ∧
    Falls ((kevFirst none).label lifecycleNow) ((kevFirst (some "2026-01-02".toList)).label lifecycleNow) := by
  have hactive : (kevFirst (some "2026-01-02".toList)).label lifecycleNow = .ok .active := by decide +kernel
  refine ⟨?_, ?_⟩
  · rintro ⟨l, hl⟩
    have hswapped : LifecycleInputs.label ⟨none, [publishedToday, kevMember (some "2026-01-02".toList)], []⟩
        lifecycleNow = .ok .emerging := by decide +kernel
    have h := hl _ ⟨rfl, .refl _, .refl _⟩
    have h' := hl ⟨none, [publishedToday, kevMember (some "2026-01-02".toList)], []⟩ ⟨rfl, .swap _ _ _, .refl _⟩
    rw [hactive] at h
    rw [hswapped] at h'
    cases h.trans h'.symm
  · have hemerging : (kevFirst none).label lifecycleNow = .ok .emerging := by decide +kernel
    rw [hactive, hemerging]
    exact .emergingActive

theorem lifecycle_order_kevFirst :
    (kevFirst none).Adds lifecycleNow (kevFirst (some "2026-01-02".toList)) ∧
      (¬Falls ((kevFirst none).label lifecycleNow) ((kevFirst (some "2026-01-02".toList)).label lifecycleNow) ↔
        ¬(kevFirst none).Overtakes (kevFirst (some "2026-01-02".toList)) lifecycleNow) :=
  ⟨adds_kevDate, (LifecycleInputs.lifecycle_order_iff (kevFirst none) lifecycleNow).2 _ adds_kevDate⟩

end

end Briefr.Correlation
