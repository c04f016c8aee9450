import Briefr.Correlation.Lifecycle

namespace Briefr.Correlation

open Briefr.Python

theorem findSome?_flatMap {α β γ : Type} (f : β → Option γ) (g : α → List β) (l : List α) :
    (l.flatMap g).findSome? f = l.findSome? fun a ↦ (g a).findSome? f := by
  induction l with
  | nil => rfl
  | cons a l ih =>
    rw [List.flatMap_cons, List.findSome?_append, ih, List.findSome?_cons]
    cases (g a).findSome? f with
    | none => rfl
    | some c => rfl

theorem findSome?_eq_or_none {α β : Type} {f : α → Option β} {l : List α} {r : β}
    (h : ∀ a ∈ l, ∀ v, f a = some v → v = r) :
    l.findSome? f = some r ∧ (∃ a ∈ l, f a = some r) ∨ l.findSome? f = none ∧ ∀ a ∈ l, f a = none := by
  cases hf : l.findSome? f with
  | none => exact .inr ⟨rfl, List.findSome?_eq_none_iff.mp hf⟩
  | some v =>
    obtain ⟨a, ha, hv⟩ := List.exists_of_findSome?_eq_some hf
    obtain rfl := h a ha v hv
    exact .inl ⟨rfl, a, ha, hv⟩

/-- Where all decisions are the same, the order of a list does not matter for the first one. -/
theorem findSome?_perm {α β : Type} {f : α → Option β} {l l' : List α} {r : β} (hp : l'.Perm l)
    (h : ∀ a ∈ l, ∀ v, f a = some v → v = r) : l'.findSome? f = l.findSome? f := by
  have h' : ∀ a ∈ l', ∀ v, f a = some v → v = r := fun a ha ↦ h a (hp.mem_iff.mp ha)
  rcases findSome?_eq_or_none h with ⟨hl, a, ha, hv⟩ | ⟨hl, hnone⟩ <;>
    rcases findSome?_eq_or_none h' with ⟨hl', a', ha', hv'⟩ | ⟨hl', hnone'⟩
  · rw [hl, hl']
  · rw [hnone' a (hp.mem_iff.mpr ha)] at hv
    cases hv
  · rw [hnone a' (hp.mem_iff.mp ha')] at hv'
    cases hv'
  · rw [hl, hl']

theorem exists_perm_cons {α : Type} {a : α} {l : List α} (h : a ∈ l) : ∃ l', (a :: l').Perm l := by
  obtain ⟨s, t, rfl⟩ := List.append_of_mem h
  exact ⟨s ++ t, List.perm_middle.symm⟩

/-- A date that the lifecycle looks at, and the label that it decides when it lies within a number of days. -/
structure Dated where
  days : ℕ
  label : Lifecycle
  date : Py (Option ℕ)

/-- What a date decides on its own. -/
def Dated.verdict (now : ℕ) (x : Dated) : Option (Py Lifecycle) :=
  match x.date with
  | .error e => some (.error e)
  | .ok d => if since (cutoff now x.days) d then some (.ok x.label) else none

def Dated.judge (now : ℕ) (last : Option ℕ) (x : Dated) : Py (Lifecycle ⊕ Option ℕ) := do
  let d ← x.date
  return if since (cutoff now x.days) d then .inl x.label else .inr (laterActivity last d)

/-- The date is readable and within the thirty days. -/
def Dated.recent (now : ℕ) (x : Dated) : Bool := x.date.toOption.any (since (cutoff now 30))

theorem since_laterActivity (c : ℤ) (last date : Option ℕ) :
    since c (laterActivity last date) = (since c last || since c date) := by
  cases date with
  | none => simp [laterActivity, since]
  | some t =>
    cases last with
    | none => simp [laterActivity, since]
    | some s =>
      by_cases h : s < t
      · simp only [laterActivity, since, Option.all_some, h, decide_true, if_true]
        by_cases hs : c ≤ s
        · have ht : c ≤ t := by omega
          simp [hs, ht]
        · simp [hs]
      · simp only [laterActivity, since, Option.all_some, h, decide_false]
        by_cases ht : c ≤ t
        · have hs : c ≤ s := by omega
          simp [hs, ht]
        · simp [ht]

theorem untilDone_append {α β σ : Type} (body : σ → α → Py (β ⊕ σ)) (s : σ) (l l' : List α) :
    untilDone body s (l ++ l') = untilDone body s l >>= fun r ↦
      match r with
      | .inl done => .ok (.inl done)
      | .inr s => untilDone body s l' := by
  induction l generalizing s with
  | nil => rfl
  | cons a l ih =>
    rw [List.cons_append, untilDone, untilDone]
    cases body s a with
    | error e => rfl
    | ok r =>
      cases r with
      | inl done => rfl
      | inr s => exact ih s

theorem untilDone_map {α α' β σ : Type} (body : σ → α' → Py (β ⊕ σ)) (f : α → α') (s : σ) (l : List α) :
    untilDone body s (l.map f) = untilDone (fun s a ↦ body s (f a)) s l := by
  induction l generalizing s with
  | nil => rfl
  | cons a l ih =>
    rw [List.map_cons, untilDone, untilDone]
    simp only [ih]

/-- A loop within a loop is one loop. -/
theorem untilDone_flatMap {α α' β σ : Type} (body : σ → α' → Py (β ⊕ σ)) (f : α → List α') (s : σ) (l : List α) :
    untilDone body s (l.flatMap f) = untilDone (fun s a ↦ untilDone body s (f a)) s l := by
  induction l generalizing s with
  | nil => rfl
  | cons a l ih =>
    rw [List.flatMap_cons, untilDone_append, untilDone]
    refine congrArg _ (funext fun r ↦ ?_)
    cases r with
    | inl done => rfl
    | inr s => exact ih s

/-- A loop over dates ends with the first verdict. Without one the latest of the dates is left. -/
theorem untilDone_judge (now : ℕ) (last : Option ℕ) (l : List Dated) :
    match l.findSome? (Dated.verdict now) with
    | some v => untilDone (Dated.judge now) last l = Sum.inl <$> v
    | none => ∃ last', untilDone (Dated.judge now) last l = .ok (.inr last') ∧
        since (cutoff now 30) last' = (since (cutoff now 30) last || l.any (Dated.recent now)) := by
  induction l generalizing last with
  | nil => exact ⟨last, rfl, (Bool.or_false _).symm⟩
  | cons x l ih =>
    rw [List.findSome?_cons, untilDone]
    cases hx : x.date with
    | error e => simp only [Dated.verdict, Dated.judge, hx]; rfl
    | ok d =>
      by_cases hd : since (cutoff now x.days) d = true
      · have hv : x.verdict now = some (.ok x.label) := by simp only [Dated.verdict, hx, hd, if_true]
        have hj : x.judge now last = .ok (.inl x.label) := by
          simp only [Dated.judge, hx, hd, ok_bind, if_true]
          rfl
        simp only [hv, hj, ok_bind]
        rfl
      · have hv : x.verdict now = none := by simp only [Dated.verdict, hx, hd]; rfl
        have hj : x.judge now last = .ok (.inr (laterActivity last d)) := by
          simp only [Dated.judge, hx, hd, ok_bind]
          rfl
        have hr : x.recent now = since (cutoff now 30) d := by simp only [Dated.recent, hx]; rfl
        have ih := ih (laterActivity last d)
        simp only [hv, hj, ok_bind]
        cases hf : l.findSome? (Dated.verdict now) with
        | some v =>
          rw [hf] at ih
          exact ih
        | none =>
          rw [hf] at ih
          obtain ⟨last', hl, hs⟩ := ih
          refine ⟨last', hl, ?_⟩
          rw [hs, since_laterActivity, List.any_cons, hr, Bool.or_assoc]

/-- The first verdict, and without one whether anything happened in thirty days. -/
def settle (now : ℕ) (recent : Bool) (l : List Dated) : Py Lifecycle :=
  (l.findSome? (Dated.verdict now)).getD (.ok (if recent || l.any (Dated.recent now) then .active else .declining))

/-- The arguments of `compute_campaign_lifecycle` apart from the clock. -/
structure LifecycleInputs where
  pulseCreatedDate : Option Text
  members : List MemberRow
  memberObservationAt : List (Option Text)

section
variable [Interp] [Iso]

def observed (date : Option Text) : Dated := ⟨7, .emerging, parseDt date⟩

/-- The dates of a member in the order in which the loop looks at them. -/
def MemberRow.dated (m : MemberRow) : List Dated :=
  [⟨7, .emerging, parseDt m.published⟩, ⟨7, .emerging, parseDt m.modified⟩,
    ⟨14, .active, if m.isKev then parseDt m.kevDateAdded else .ok none⟩,
    ⟨14, .active, if m.hasPoc then pocDate m else .ok none⟩, ⟨14, .active, parseDt m.epssActivityAt⟩]

theorem memberActivity_eq (now : ℕ) (last : Option ℕ) (m : MemberRow) :
    memberActivity now last m = untilDone (Dated.judge now) last m.dated := by
  have hskip : ∀ (b : Bool) (date : Py (Option ℕ)) (last : Option ℕ),
      (do if b then return activity now last (← date) else return .inr last : Py (Lifecycle ⊕ Option ℕ)) =
        Dated.judge now last ⟨14, .active, if b then date else .ok none⟩ := by
    intro b date last
    cases b with
    | true => rfl
    | false => rfl
  have hchecks : memberChecks now m = m.dated.map fun x last ↦ x.judge now last := by
    simp only [memberChecks, MemberRow.dated, List.map_cons, List.map_nil, hskip]
    rfl
  rw [memberActivity, hchecks, untilDone_map]

namespace LifecycleInputs

/-- All dates that decide, in the order of the loops. -/
def timeline (x : LifecycleInputs) : List Dated :=
  x.memberObservationAt.map observed ++ x.members.flatMap MemberRow.dated

def boosters (x : LifecycleInputs) : Bool := x.members.any fun m ↦ m.isKev || m.hasPoc

/-- The pulse is old and nothing boosts its members. -/
def isStale (x : LifecycleInputs) (now : ℕ) (pulse : Option ℕ) : Bool :=
  pulse.any (fun t ↦ t / microsecondsPerDay + 365 < now / microsecondsPerDay) && !x.boosters

def label (x : LifecycleInputs) (now : ℕ) : Py Lifecycle :=
  computeCampaignLifecycle x.pulseCreatedDate x.members x.memberObservationAt now

/-- The label once the date of the pulse is read. -/
def outcome (x : LifecycleInputs) (now : ℕ) (pulse : Option ℕ) : Py Lifecycle :=
  if x.isStale now pulse then .ok .stale else settle now (since (cutoff now 30) pulse) x.timeline

theorem label_eq (x : LifecycleInputs) (now : ℕ) :
    x.label now = parseDt x.pulseCreatedDate >>= x.outcome now := by
  rw [label, computeCampaignLifecycle]
  refine congrArg _ (funext fun pulse ↦ ?_)
  have hloop : untilDone (Dated.judge now) pulse x.timeline =
      untilDone (observe now) pulse x.memberObservationAt >>=
        Sum.elim (fun done ↦ .ok (.inl done)) fun last ↦ untilDone (memberActivity now) last x.members := by
    rw [timeline, untilDone_append, untilDone_map]
    refine congrArg _ (funext fun r ↦ ?_)
    cases r with
    | inl done => rfl
    | inr last =>
      dsimp only [Sum.elim_inr]
      rw [untilDone_flatMap, funext₂ (memberActivity_eq now)]
  have hlast : untilDone (Dated.judge now) pulse x.timeline >>=
      Sum.elim (.ok ·) (fun last ↦ .ok (if since (cutoff now 30) last then .active else .declining)) =
      settle now (since (cutoff now 30) pulse) x.timeline := by
    have hj := untilDone_judge now pulse x.timeline
    rw [settle]
    cases hf : x.timeline.findSome? (Dated.verdict now) with
    | some v =>
      rw [hf] at hj
      rw [hj]
      cases v with
      | error e => rfl
      | ok l => rfl
    | none =>
      rw [hf] at hj
      obtain ⟨last, hl, hs⟩ := hj
      rw [hl, ok_bind, Option.getD_none, ← hs, Sum.elim_inr]
  rw [outcome, ← hlast, hloop]
  refine if_congr Iff.rfl rfl ?_
  cases untilDone (observe now) pulse x.memberObservationAt with
  | error e => rfl
  | ok r =>
    cases r with
    | inl done => rfl
    | inr last =>
      rw [ok_bind, ok_bind, Sum.elim_inr]
      dsimp only
      cases untilDone (memberActivity now) last x.members with
      | error e => rfl
      | ok r =>
        cases r with
        | inl done => rfl
        | inr last => rfl

end LifecycleInputs

/-- What a member decides on its own. -/
def MemberRow.verdict (now : ℕ) (m : MemberRow) : Option (Py Lifecycle) := m.dated.findSome? (Dated.verdict now)

namespace LifecycleInputs

theorem findSome?_timeline (x : LifecycleInputs) (now : ℕ) :
    x.timeline.findSome? (Dated.verdict now) =
      (x.memberObservationAt.findSome? fun o ↦ (observed o).verdict now).or
        (x.members.findSome? (MemberRow.verdict now)) := by
  rw [timeline, List.findSome?_append, List.findSome?_map, findSome?_flatMap]
  rfl

/-- The inputs with their rows in another order. -/
structure Shuffles (x y : LifecycleInputs) : Prop where
  pulse : y.pulseCreatedDate = x.pulseCreatedDate
  members : y.members.Perm x.members
  observations : y.memberObservationAt.Perm x.memberObservationAt

omit [Interp] [Iso] in
theorem Shuffles.isStale_eq {x y : LifecycleInputs} (h : x.Shuffles y) (now : ℕ) (pulse : Option ℕ) :
    y.isStale now pulse = x.isStale now pulse := by
  rw [isStale, isStale, boosters, boosters, h.members.any_eq]

theorem Shuffles.timeline_perm {x y : LifecycleInputs} (h : x.Shuffles y) : y.timeline.Perm x.timeline :=
  (h.observations.map observed).append (h.members.flatMap_right MemberRow.dated)

/-- Every order of the rows gives the same label. -/
def OrderBlind (x : LifecycleInputs) (now : ℕ) : Prop := ∃ l, ∀ y, x.Shuffles y → y.label now = .ok l

/-- The pulse is stale, or all observations can be read and either one of them or the members agree on a label. -/
def Agrees (x : LifecycleInputs) (now : ℕ) : Prop :=
  ∃ pulse, parseDt x.pulseCreatedDate = .ok pulse ∧ (x.isStale now pulse = true ∨
    (∀ o ∈ x.memberObservationAt, Readable o) ∧
      ((∃ o ∈ x.memberObservationAt, ((observed o).verdict now).isSome) ∨
        ∃ l, ∀ m ∈ x.members, ∀ v, m.verdict now = some v → v = .ok l))

theorem observed_verdict {o : Option Text} (h : Readable o) (now : ℕ) (v : Py Lifecycle)
    (hv : (observed o).verdict now = some v) : v = .ok .emerging := by
  obtain ⟨d, hd⟩ := h
  simp only [Dated.verdict, observed, hd] at hv
  split at hv
  · exact (Option.some.inj hv).symm
  · cases hv

theorem label_eq_stale {x y : LifecycleInputs} {now : ℕ} {pulse : Option ℕ} (h : x.Shuffles y)
    (hp : parseDt x.pulseCreatedDate = .ok pulse) (hs : x.isStale now pulse = true) : y.label now = .ok .stale := by
  rw [label_eq, h.pulse, hp, ok_bind, outcome, h.isStale_eq, hs, if_pos rfl]

theorem label_eq_settle {x y : LifecycleInputs} {now : ℕ} {pulse : Option ℕ} (h : x.Shuffles y)
    (hp : parseDt x.pulseCreatedDate = .ok pulse) (hs : ¬x.isStale now pulse = true) :
    y.label now = settle now (since (cutoff now 30) pulse) y.timeline := by
  rw [label_eq, h.pulse, hp, ok_bind, outcome, h.isStale_eq, if_neg hs]

theorem orderBlind_of_agrees {x : LifecycleInputs} {now : ℕ} (h : x.Agrees now) : x.OrderBlind now := by
  obtain ⟨pulse, hp, h⟩ := h
  by_cases hs : x.isStale now pulse = true
  · exact ⟨.stale, fun y hy ↦ label_eq_stale hy hp hs⟩
  · obtain ⟨hread, h⟩ := h.resolve_left hs
    have hobs : ∀ o ∈ x.memberObservationAt, ∀ v, (observed o).verdict now = some v → v = .ok .emerging :=
      fun o ho ↦ observed_verdict (hread o ho) now
    have hfirst : ∀ y, x.Shuffles y → y.timeline.findSome? (Dated.verdict now) =
        x.timeline.findSome? (Dated.verdict now) := by
      intro y hy
      rw [findSome?_timeline, findSome?_timeline, findSome?_perm hy.observations hobs]
      rcases h with ⟨o, ho, hv⟩ | ⟨l, hl⟩
      · rcases findSome?_eq_or_none hobs with ⟨hf, -⟩ | ⟨-, hnone⟩
        · rw [hf, Option.some_or, Option.some_or]
        · rw [hnone o ho] at hv
          cases hv
      · rw [findSome?_perm hy.members hl]
    have hsame : ∀ y, x.Shuffles y → y.label now = settle now (since (cutoff now 30) pulse) x.timeline := by
      intro y hy
      rw [label_eq_settle hy hp hs, settle, settle, hfirst y hy, hy.timeline_perm.any_eq]
    have hok : ∃ l, settle now (since (cutoff now 30) pulse) x.timeline = .ok l := by
      rw [settle, findSome?_timeline]
      rcases findSome?_eq_or_none hobs with ⟨hf, -⟩ | ⟨hf, hnone⟩
      · rw [hf]
        exact ⟨_, rfl⟩
      · rw [hf, Option.none_or]
        rcases h with ⟨o, ho, hv⟩ | ⟨l, hl⟩
        · rw [hnone o ho] at hv
          cases hv
        · rcases findSome?_eq_or_none hl with ⟨hm, -⟩ | ⟨hm, -⟩
          · exact ⟨_, by rw [hm]; rfl⟩
          · exact ⟨_, by rw [hm]; rfl⟩
    obtain ⟨l, hl⟩ := hok
    exact ⟨l, fun y hy ↦ (hsame y hy).trans hl⟩

theorem agrees_of_orderBlind {x : LifecycleInputs} {now : ℕ} (h : x.OrderBlind now) : x.Agrees now := by
  obtain ⟨l, hl⟩ := h
  have hself := hl x ⟨rfl, .refl _, .refl _⟩
  rw [label_eq] at hself
  cases hp : parseDt x.pulseCreatedDate with
  | error e =>
    rw [hp] at hself
    cases hself
  | ok pulse =>
    refine ⟨pulse, hp, ?_⟩
    by_cases hs : x.isStale now pulse = true
    · exact .inl hs
    · refine .inr ⟨?_, ?_⟩
      · intro o ho
        obtain ⟨rest, hrest⟩ := exists_perm_cons ho
        have hy : x.Shuffles { x with memberObservationAt := o :: rest } := ⟨rfl, .refl _, hrest⟩
        have hlabel := hl _ hy
        rw [label_eq_settle hy hp hs, settle, findSome?_timeline, List.findSome?_cons] at hlabel
        cases hd : parseDt o with
        | ok d => exact ⟨d, hd⟩
        | error e =>
          simp only [Dated.verdict, observed, hd, Option.some_or, Option.getD_some] at hlabel
          cases hlabel
      · by_cases hobs : ∃ o ∈ x.memberObservationAt, ((observed o).verdict now).isSome
        · exact .inl hobs
        · refine .inr ⟨l, fun m hm v hv ↦ ?_⟩
          obtain ⟨rest, hrest⟩ := exists_perm_cons hm
          have hy : x.Shuffles { x with members := m :: rest } := ⟨rfl, hrest, .refl _⟩
          have hnone : (x.memberObservationAt.findSome? fun o ↦ (observed o).verdict now) = none := by
            rw [List.findSome?_eq_none_iff]
            intro o ho
            exact Option.not_isSome_iff_eq_none.mp fun h ↦ hobs ⟨o, ho, h⟩
          have hlabel := hl _ hy
          rw [label_eq_settle hy hp hs, settle, findSome?_timeline, List.findSome?_cons, hnone, hv] at hlabel
          exact hlabel

end LifecycleInputs

end

end Briefr.Correlation
