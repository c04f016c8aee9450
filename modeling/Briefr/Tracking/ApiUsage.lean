import Briefr.Library.KeyedUpdates
import Briefr.Library.Runs
import Briefr.Python.Datetime

namespace Briefr.Tracking.ApiUsage

open Briefr.Python Briefr.Library.Runs Briefr.Library.Counters

/-- `_hourly_tracked_services`. -/
def hourlyTracked (service : Text) : Bool := decide (service = "otx".toList)

def usageBucketKey (service : Text) (now : Utc) : Text := if hourlyTracked service then hourText now else dateText now.date

/-- What a bucket leaves of the time: all but the day, and the hour where there is one. -/
def bucketMonth (service bucket : Text) : Text := bucket.rdrop (if hourlyTracked service then 6 else 3)

/-- A key of the buffer. The month is the month of the bucket. -/
structure Key where
  service : Text
  bucket : Text
  month : Text
  month_eq : month = bucketMonth service bucket
  deriving DecidableEq

theorem monthText_eq (service : Text) (now : Utc) : monthText now.date = bucketMonth service (usageBucketKey service now) := by
  rw [bucketMonth, usageBucketKey]
  split
  · simp [hourText, dateText, List.rdrop, twoDigits]
  · simp [dateText, List.rdrop, twoDigits]

def keyAt (service : Text) (now : Utc) : Key := ⟨service, usageBucketKey service now, monthText now.date, monthText_eq service now⟩

/-- `_API_USAGE_UPSERT_SQL`. The primary key is the service and the bucket, the other columns are set. -/
def upsert (k : Key) (n : ℕ) : List (Key × ℕ) → List (Key × ℕ)
  | [] => [(k, n)]
  | (k', m) :: rows => if k'.service = k.service ∧ k'.bucket = k.bucket then (k, m + n) :: rows else (k', m) :: upsert k n rows

theorem key_eq_iff {k k' : Key} : k' = k ↔ k'.service = k.service ∧ k'.bucket = k.bucket := by
  constructor
  · intro h
    rw [h]
    exact ⟨rfl, rfl⟩
  · intro h
    cases k with | mk service bucket month hm =>
    cases k' with | mk service' bucket' month' hm' =>
    obtain ⟨rfl, rfl⟩ := h
    subst hm hm'
    rfl

theorem upsert_eq_add (k : Key) (n : ℕ) (rows : List (Key × ℕ)) : upsert k n rows = add k n rows := by
  induction rows with
  | nil => rfl
  | cons row rows ih =>
    rw [upsert, add]
    by_cases h : row.1 = k
    · rw [if_pos (key_eq_iff.mp h), if_pos h, h]
    · rw [if_neg (mt key_eq_iff.mpr h), if_neg h, ih]

/-- A call of `flush_api_usage_pending`: scheduled, at the write lock, or with the batch that it has taken. -/
inductive Phase
  | absent
  | sleeping
  | waiting
  | writing (batch : List (Key × ℕ))
  | closing
  | done

structure Recorded where
  service : Text
  now : Utc
  count : ℕ

/-- The table, the buffer and the flushes, with the calls that have been recorded. -/
structure State where
  rows : List (Key × ℕ)
  pending : List (Key × ℕ)
  flushTask : Option ℕ
  writeLock : Option ℕ
  flushes : ℕ → Phase
  next : ℕ
  recorded : List Recorded

def State.init : State := ⟨[], [], none, none, fun _ ↦ .absent, 0, []⟩

inductive Event
  | record (service : Text) (count : ℤ) (now : Utc)
  | call
  | wake (t : ℕ)
  | take (t : ℕ)
  | commit (t : ℕ)
  | close (t : ℕ)
  | fail (t : ℕ)

def Phase.isDone : Phase → Bool
  | .done => true
  | _ => false

def State.setFlush (s : State) (t : ℕ) (p : Phase) : State := { s with flushes := Function.update s.flushes t p }

/-- `asyncio.create_task(_schedule_api_usage_flush())`, where no such task is under way. -/
def State.schedule (s : State) : State :=
  if s.flushTask.all fun t ↦ (s.flushes t).isDone then
    { s.setFlush s.next .sleeping with flushTask := some s.next, next := s.next + 1 }
  else s

/-- The flush returns and frees the write lock. -/
def State.finish (s : State) (t : ℕ) : State := { s.setFlush t .done with writeLock := none }

def recordApiCall (s : State) (service : Text) (count : ℤ) (now : Utc) : State :=
  if count ≤ 0 then s
  else
    { s with
      pending := add (keyAt service now) count.toNat s.pending
      recorded := ⟨service, now, count.toNat⟩ :: s.recorded }.schedule

/-- The flush takes the buffer, with both locks. -/
def takePending (s : State) (t : ℕ) : State :=
  let taken := { s with pending := [], flushTask := none }
  if s.pending.isEmpty then taken.finish t else { taken.setFlush t (.writing s.pending) with writeLock := some t }

/-- The flushes run one after the other under the write lock. The other lock is never held across an `await`. -/
def step (s : State) : Event → State
  | .record service count now => recordApiCall s service count now
  | .call => { s.setFlush s.next .waiting with next := s.next + 1 }
  | .wake t =>
    match s.flushes t with
    | .sleeping => s.setFlush t .waiting
    | _ => s
  | .take t =>
    match s.flushes t, s.writeLock with
    | .waiting, none => takePending s t
    | _, _ => s
  | .commit t =>
    match s.flushes t with
    | .writing batch => { s.setFlush t .closing with rows := batch.foldl (fun rows e ↦ upsert e.1 e.2 rows) s.rows }
    | _ => s
  | .close t =>
    match s.flushes t with
    | .closing => s.finish t
    | _ => s
  -- nothing of the batch was committed: it goes back to the buffer
  | .fail t =>
    match s.flushes t with
    | .writing batch => ({ s with pending := merge s.pending batch }.schedule).finish t
    | _ => s

/-- The batch of the flush that holds the write lock. -/
def State.held (s : State) : List (Key × ℕ) :=
  match s.writeLock.map s.flushes with
  | some (.writing batch) => batch
  | _ => []

def counts (recorded : List Recorded) : List (Key × ℕ) := recorded.map fun r ↦ (keyAt r.service r.now, r.count)

def Phase.holdsLock : Phase → Bool
  | .writing _ | .closing => true
  | _ => false

/-- The tasks are where the write lock and the scheduled task say. -/
structure Tasks (s : State) : Prop where
  lock : ∀ t, (s.flushes t).holdsLock = true ↔ s.writeLock = some t
  armed : ∀ t, s.flushTask = some t → s.flushes t = .sleeping ∨ s.flushes t = .waiting
  fresh : ∀ t, s.next ≤ t → s.flushes t = .absent

/-- No count is lost and none is doubled. -/
def Conserved (s : State) : Prop :=
  ∀ test : Key → Bool, total test s.rows + total test s.pending + total test s.held = total test (counts s.recorded)

structure Inv (s : State) : Prop extends Tasks s where
  conserved : Conserved s
  scheduled : s.pending ≠ [] → s.flushTask ≠ none

section
variable {s : State} {t : ℕ}

theorem held_setFlush (h : s.writeLock ≠ some t) (p : Phase) : (s.setFlush t p).held = s.held := by
  cases hl : s.writeLock with
  | none => simp [State.held, State.setFlush, hl]
  | some t' =>
    have hne : t' ≠ t := fun he ↦ h (he ▸ hl)
    simp [State.held, State.setFlush, hl, hne]

theorem held_of_writing {batch : List (Key × ℕ)} (hl : s.writeLock = some t) (hw : s.flushes t = .writing batch) :
    s.held = batch := by
  simp [State.held, hl, hw]

theorem schedule_finish (hf : s.flushTask ≠ some t) (ht : t ≠ s.next) : s.schedule.finish t = (s.finish t).schedule := by
  have hall : ((s.finish t).flushTask.all fun u ↦ ((s.finish t).flushes u).isDone) =
      s.flushTask.all fun u ↦ (s.flushes u).isDone := by
    cases hu : s.flushTask with
    | none => simp [State.finish, State.setFlush, hu]
    | some u =>
      have hne : u ≠ t := fun he ↦ hf (he ▸ hu)
      simp [State.finish, State.setFlush, hu, hne]
  rw [State.schedule, State.schedule, hall]
  split
  · simp only [State.finish, State.setFlush, Function.update_comm ht]
  · rfl

theorem total_upserts (test : Key → Bool) (rows batch : List (Key × ℕ)) :
    total test (batch.foldl (fun rows e ↦ upsert e.1 e.2 rows) rows) = total test rows + total test batch := by
  have hmerge : batch.foldl (fun rows e ↦ upsert e.1 e.2 rows) rows = merge rows batch := by
    simp only [upsert_eq_add]
    rfl
  rw [hmerge, total_merge]

end

namespace Tasks

variable {s : State} {t : ℕ}

theorem lt_next (h : Tasks s) (ht : s.flushes t ≠ .absent) : t < s.next := by
  by_contra hn
  exact ht (h.fresh t (Nat.not_lt.mp hn))

theorem not_locked (h : Tasks s) (ht : (s.flushes t).holdsLock = false) : s.writeLock ≠ some t := by
  intro hl
  rw [(h.lock t).mpr hl] at ht
  cases ht

theorem not_armed (h : Tasks s) (ht : (s.flushes t).holdsLock = true) : s.flushTask ≠ some t := by
  intro hf
  rcases h.armed t hf with hs | hs
  · rw [hs] at ht
    cases ht
  · rw [hs] at ht
    cases ht

theorem place (h : Tasks s) (ht : (s.flushes t).holdsLock = false) {p : Phase} (hp : p = .sleeping ∨ p = .waiting)
    {task : Option ℕ} (htask : task = s.flushTask ∨ task = some t) {next : ℕ} (hnext : s.next ≤ next) (hlt : t < next) :
    Tasks { s.setFlush t p with flushTask := task, next := next } where
  lock u := by
    simp only [State.setFlush, Function.update_apply]
    split
    · rename_i hu
      subst hu
      have hno : p.holdsLock = false := by
        rcases hp with rfl | rfl
        · rfl
        · rfl
      simp [hno, h.not_locked ht]
    · exact h.lock u
  armed u hu := by
    simp only [State.setFlush, Function.update_apply]
    split
    · exact hp
    · rename_i hne
      rcases htask with rfl | rfl
      · exact h.armed u hu
      · exact absurd (Option.some.inj hu).symm hne
  fresh u hu := by
    have hne : u ≠ t := by
      dsimp only at hu
      omega
    simp only [State.setFlush, Function.update_apply, if_neg hne]
    exact h.fresh u (hnext.trans hu)

/-- A task takes the lock, keeps it or leaves it. -/
theorem move (h : Tasks s) (hfree : ∀ u, s.writeLock = some u → u = t) {p : Phase} {lock : Option ℕ}
    (hp : ∀ u, lock = some u ↔ u = t ∧ p.holdsLock = true) (hf : s.flushTask ≠ some t) (ht : t < s.next) :
    Tasks { s.setFlush t p with writeLock := lock } where
  lock u := by
    simp only [State.setFlush, Function.update_apply, hp u]
    split
    · rename_i hu
      simp [hu]
    · rename_i hne
      have hno : ¬(s.flushes u).holdsLock = true := fun hu ↦ hne (hfree u ((h.lock u).mp hu))
      simp [hno, hne]
  armed u hu := by
    have hne : u ≠ t := fun he ↦ hf (he ▸ hu)
    simp only [State.setFlush, Function.update_apply, if_neg hne]
    exact h.armed u hu
  fresh u hu := by
    have hne : u ≠ t := by
      have hu : s.next ≤ u := hu
      omega
    simp only [State.setFlush, Function.update_apply, if_neg hne]
    exact h.fresh u hu

theorem finish (h : Tasks s) (hfree : ∀ u, s.writeLock = some u → u = t) (hf : s.flushTask ≠ some t)
    (ht : t < s.next) : Tasks (s.finish t) :=
  h.move hfree (fun u ↦ by simp [Phase.holdsLock]) hf ht

end Tasks

namespace Inv

variable {s : State} {t : ℕ}

theorem init : Inv State.init where
  lock t := by simp [State.init, Phase.holdsLock]
  armed t h := by cases h
  fresh _ _ := rfl
  conserved _ := rfl
  scheduled h := absurd rfl h

theorem of_schedule (h : Tasks s) (hc : Conserved s) : Inv s.schedule := by
  rw [State.schedule]
  split
  · have hnew : (s.flushes s.next).holdsLock = false := by
      rw [h.fresh s.next le_rfl]
      rfl
    have htasks : Tasks { s.setFlush s.next .sleeping with flushTask := some s.next, next := s.next + 1 } :=
      h.place hnew (.inl rfl) (.inr rfl) (Nat.le_succ _) (Nat.lt_succ_self _)
    have hheld : (s.setFlush s.next .sleeping).held = s.held := held_setFlush (h.not_locked hnew) _
    refine ⟨htasks, ?_, fun _ ↦ by simp⟩
    intro test
    have hc := hc test
    rw [← hheld] at hc
    exact hc
  · rename_i hall
    refine ⟨h, hc, ?_⟩
    intro _ hnone
    exact hall (by simp [hnone])

theorem record (h : Inv s) (service : Text) (count : ℤ) (now : Utc) : Inv (recordApiCall s service count now) := by
  rw [recordApiCall]
  split
  · exact h
  · refine of_schedule ⟨h.lock, h.armed, h.fresh⟩ ?_
    intro test
    have hc := h.conserved test
    have hheld : State.held { s with
        pending := add (keyAt service now) count.toNat s.pending
        recorded := ⟨service, now, count.toNat⟩ :: s.recorded } = s.held := rfl
    rw [hheld]
    simp only [counts, List.map_cons, total_cons, total_add]
    simp only [counts] at hc
    omega

theorem arrive (h : Inv s) (ht : (s.flushes t).holdsLock = false) {next : ℕ} (hnext : s.next ≤ next) (hlt : t < next) :
    Inv { s.setFlush t .waiting with next := next } := by
  have hheld : (s.setFlush t .waiting).held = s.held := held_setFlush (h.not_locked ht) _
  refine ⟨h.place ht (.inr rfl) (.inl rfl) hnext hlt, ?_, h.scheduled⟩
  intro test
  have hc := h.conserved test
  rw [← hheld] at hc
  exact hc

theorem take (h : Inv s) (ht : s.flushes t = .waiting) (hl : s.writeLock = none) : Inv (takePending s t) := by
  have hlt : t < s.next := h.lt_next (by simp [ht])
  have hheld : s.held = [] := by simp [State.held, hl]
  have htaken : Tasks { s with pending := [], flushTask := none } := ⟨h.lock, fun _ hu ↦ (by cases hu), h.fresh⟩
  have hfree : ∀ u, s.writeLock = some u → u = t := by simp [hl]
  rw [takePending]
  dsimp only
  split
  · rename_i hempty
    refine ⟨htaken.finish hfree (by simp) hlt, ?_, fun hne ↦ absurd rfl hne⟩
    intro test
    have hc := h.conserved test
    rw [List.isEmpty_iff.mp hempty, hheld] at hc
    exact hc
  · refine ⟨htaken.move hfree ?_ (by simp) hlt, ?_, fun hne ↦ absurd rfl hne⟩
    · intro u
      simp [Phase.holdsLock, eq_comm]
    · intro test
      have hc := h.conserved test
      rw [hheld] at hc
      rw [held_of_writing rfl (Function.update_self t (Phase.writing s.pending) s.flushes)]
      simp only [State.setFlush, total_nil] at hc ⊢
      omega

theorem commit (h : Inv s) {batch : List (Key × ℕ)} (ht : s.flushes t = .writing batch) :
    Inv { s.setFlush t .closing with rows := batch.foldl (fun rows e ↦ upsert e.1 e.2 rows) s.rows } := by
  have hholds : (s.flushes t).holdsLock = true := by simp [ht, Phase.holdsLock]
  have hlock : s.writeLock = some t := (h.lock t).mp hholds
  have htasks : Tasks { s.setFlush t .closing with writeLock := s.writeLock } := by
    refine h.move ?_ ?_ (h.not_armed hholds) (h.lt_next (by simp [ht]))
    · simp [hlock]
    · simp [hlock, Phase.holdsLock, eq_comm]
  refine ⟨⟨htasks.lock, htasks.armed, htasks.fresh⟩, ?_, h.scheduled⟩
  intro test
  have hc := h.conserved test
  rw [held_of_writing hlock ht] at hc
  have hheld : State.held
      { s.setFlush t .closing with rows := batch.foldl (fun rows e ↦ upsert e.1 e.2 rows) s.rows } = [] := by
    simp [State.held, State.setFlush, hlock]
  rw [hheld, total_upserts]
  simp only [State.setFlush, total_nil]
  omega

theorem close (h : Inv s) (ht : s.flushes t = .closing) : Inv (s.finish t) := by
  have hholds : (s.flushes t).holdsLock = true := by simp [ht, Phase.holdsLock]
  have hlock : s.writeLock = some t := (h.lock t).mp hholds
  have hheld : s.held = [] := by simp [State.held, hlock, ht]
  refine ⟨h.finish (by simp [hlock]) (h.not_armed hholds) (h.lt_next (by simp [ht])), ?_, h.scheduled⟩
  intro test
  have hc := h.conserved test
  rw [hheld] at hc
  exact hc

theorem fail (h : Inv s) {batch : List (Key × ℕ)} (ht : s.flushes t = .writing batch) :
    Inv ((State.schedule { s with pending := merge s.pending batch }).finish t) := by
  have hlt : t < s.next := h.lt_next (by simp [ht])
  have hholds : (s.flushes t).holdsLock = true := by simp [ht, Phase.holdsLock]
  have hlock : s.writeLock = some t := (h.lock t).mp hholds
  have hback : Tasks { s with pending := merge s.pending batch } := ⟨h.lock, h.armed, h.fresh⟩
  rw [schedule_finish (s := { s with pending := merge s.pending batch }) (h.not_armed hholds) (Nat.ne_of_lt hlt)]
  refine of_schedule (hback.finish (by simp [hlock]) (h.not_armed hholds) hlt) ?_
  intro test
  have hc := h.conserved test
  rw [held_of_writing hlock ht] at hc
  have hheld : (State.finish { s with pending := merge s.pending batch } t).held = [] := rfl
  rw [hheld]
  simp only [State.finish, State.setFlush, total_merge, total_nil]
  omega

theorem step (h : Inv s) (e : Event) : Inv (step s e) := by
  cases e with
  | record service count now => exact h.record service count now
  | call =>
    have hnew : (s.flushes s.next).holdsLock = false := by
      rw [h.fresh s.next le_rfl]
      rfl
    exact h.arrive hnew (Nat.le_succ _) (Nat.lt_succ_self _)
  | wake t =>
    rw [ApiUsage.step]
    cases ht : s.flushes t with
    | sleeping => exact h.arrive (by simp [ht, Phase.holdsLock]) le_rfl (h.lt_next (by simp [ht]))
    | absent | waiting | writing | closing | done => exact h
  | take t =>
    rw [ApiUsage.step]
    split
    · exact h.take ‹_› ‹_›
    · exact h
  | commit t =>
    rw [ApiUsage.step]
    cases ht : s.flushes t with
    | writing batch => exact h.commit ht
    | absent | sleeping | waiting | closing | done => exact h
  | close t =>
    rw [ApiUsage.step]
    cases ht : s.flushes t with
    | closing => exact h.close ht
    | absent | sleeping | waiting | writing | done => exact h
  | fail t =>
    rw [ApiUsage.step]
    cases ht : s.flushes t with
    | writing batch => exact h.fail ht
    | absent | sleeping | waiting | closing | done => exact h

end Inv

theorem total_recorded_step (s : State) (e : Event) (test : Key → Bool) :
    total test (counts s.recorded) ≤ total test (counts (step s e).recorded) := by
  have hschedule (s : State) : s.schedule.recorded = s.recorded := by
    rw [State.schedule]
    split <;> rfl
  cases e with
  | record service count now =>
    rw [step, recordApiCall]
    split
    · exact le_rfl
    · rw [hschedule]
      simp [counts]
  | call => exact le_rfl
  | wake t | commit t | close t =>
    rw [step]
    split <;> exact le_rfl
  | take t =>
    rw [step]
    split
    · rw [takePending]
      dsimp only
      split <;> exact le_rfl
    · exact le_rfl
  | fail t =>
    rw [step]
    split
    · rw [State.finish]
      simp only [State.setFlush, hschedule]
      exact le_rfl
    · exact le_rfl

theorem inv_run (events : List Event) : Inv (run step State.init events) :=
  run_invariant events (fun _ e h ↦ h.step e) Inv.init

/-- Every recorded call is in the table, in the buffer or in the batch of the one flush that writes, and a
buffer with calls in it has a flush to come. -/
theorem usage_conserved (events : List Event) :
    (∀ key : Key, total (fun k ↦ decide (k = key)) (run step State.init events).rows +
        total (fun k ↦ decide (k = key)) (run step State.init events).pending +
        total (fun k ↦ decide (k = key)) (run step State.init events).held =
      total (fun k ↦ decide (k = key)) (counts (run step State.init events).recorded)) ∧
    (∀ t batch, (run step State.init events).flushes t = .writing batch → (run step State.init events).held = batch) ∧
    ((run step State.init events).pending ≠ [] →
      ∃ t, (run step State.init events).flushes t = .sleeping ∨ (run step State.init events).flushes t = .waiting) := by
  have h := inv_run events
  refine ⟨fun key ↦ h.conserved _, ?_, ?_⟩
  · intro t batch ht
    exact held_of_writing ((h.lock t).mp (by simp [ht, Phase.holdsLock])) ht
  · intro hpending
    obtain ⟨t, ht⟩ := Option.ne_none_iff_exists'.mp (h.scheduled hpending)
    exact ⟨t, h.armed t ht⟩

def newYear : Utc := ⟨⟨2026, 1, 1, by decide, by decide, by decide⟩, 0, by decide⟩

/-- A call is recorded while the flush of another one writes. -/
def flushing : List Event :=
  [.record "virustotal".toList 1 newYear, .wake 0, .take 0, .record "virustotal".toList 2 newYear]

theorem flushing_rearms :
    (run step State.init flushing).pending ≠ [] ∧
      ∃ t, (run step State.init flushing).flushes t = .sleeping ∨ (run step State.init flushing).flushes t = .waiting := by
  have hpending : (run step State.init flushing).pending ≠ [] := by decide +kernel
  exact ⟨hpending, (usage_conserved flushing).2.2 hpending⟩

end Briefr.Tracking.ApiUsage
