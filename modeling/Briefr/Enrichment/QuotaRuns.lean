import Briefr.Enrichment.IocQuota

namespace Briefr.Enrichment.IocQuota

open Briefr.Python Briefr.Library.Runs Briefr.Library.Tasks Briefr.Library.Counters
open Briefr.Tracking Briefr.Tracking.UsageReads Briefr.Tracking.Periods
open Briefr.Outbound.Pacing (Time)

variable {setting : ℤ}

/-- A call was recorded for the request in the period. -/
def Attempt.called (r : Request) (κ : ℕ × ℕ × ℕ × ℕ) (x : Attempt) : Bool := x.recorded.any fun t ↦ decide (period r t.toUtc = κ)

/-- A request that was sent in the period. -/
def sent (r : Request) (κ : ℕ × ℕ × ℕ × ℕ) : Option Attempt → ℕ
  | some x => if period r x.time.toUtc = κ then 1 else 0
  | none => 0

/-- One for which a call was recorded in that period too. -/
def counted (r : Request) (κ : ℕ × ℕ × ℕ × ℕ) : Option Attempt → ℕ
  | some x => if period r x.time.toUtc = κ ∧ x.called r κ = true then 1 else 0
  | none => 0

def missed (r : Request) (κ : ℕ × ℕ × ℕ × ℕ) : Option Attempt → ℕ
  | some x => if period r x.time.toUtc = κ ∧ x.called r κ = false then 1 else 0
  | none => 0

def Phase.passed : Phase → List Pass
  | .checking passed _ _ | .cleared passed _ _ => passed
  | .sent _ _ => []

/-- A lookup that has passed the limit in the period and has not sent its request. -/
def reserved (p : Provider) (r : Request) (κ : ℕ × ℕ × ℕ × ℕ) : Option Task → ℕ
  | some x => if ∃ c ∈ x.phase.passed, c.provider = p ∧ c.request = r ∧ period r c.now = κ then 1 else 0
  | none => 0

section
variable (s : State) (p : Provider) (r : Request)

def sentIn (κ : ℕ × ℕ × ℕ × ℕ) : ℕ := ∑ a ∈ Finset.range s.nextAttempt, sent r κ (s.attempts p a)

def countedIn (κ : ℕ × ℕ × ℕ × ℕ) : ℕ := ∑ a ∈ Finset.range s.nextAttempt, counted r κ (s.attempts p a)

def missedIn (κ : ℕ × ℕ × ℕ × ℕ) : ℕ := ∑ a ∈ Finset.range s.nextAttempt, missed r κ (s.attempts p a)

def reservedIn (κ : ℕ × ℕ × ℕ × ℕ) : ℕ := ∑ t ∈ Finset.range s.nextTask, reserved p r κ (s.tasks t)

/-- The calls of the provider that are in the table, the buffer or a batch. -/
def used (now : Utc) : ℕ := total (covers r p.name now) (ApiUsage.counts s.world.usage.recorded)

end

def InFlight (s : State) (p : Provider) (a : ℕ) : Prop := ∃ t ops left, s.tasks t = some ⟨.request p :: ops, .sent a left⟩

/-- No provider is sent more requests in a period than its limit for it. -/
def WithinLimits (setting : ℤ) (s : State) : Prop := ∀ p, ∀ c ∈ limits setting p, ∀ κ, sentIn s p c.1 κ ≤ c.2

/-- Every request has its recorded call, unless it is in flight or its metering has not come to that. -/
def AllRecorded (s : State) : Prop :=
  ∀ p a x, s.attempts p a = some x → x.recorded.isSome = true ∨ (p, a) ∈ s.meters ∨ InFlight s p a

/-- What is recorded, what was sent and is not, and what is about to be sent leave room for one more. -/
def Room (s : State) (p : Provider) (limit : Request × ℕ) (now : Utc) : Prop :=
  used s p limit.1 now + missedIn s p limit.1 (period limit.1 now) + reservedIn s p limit.1 (period limit.1 now) < limit.2

/-- The read is up to date and there is nothing that it could not count. -/
def Exact (s : State) (p : Provider) (x : Reader) (value : ℕ) : Prop :=
  Settled s.world x value ∧ missedIn s p x.request (period x.request x.now) = 0 ∧
    reservedIn s p x.request (period x.request x.now) = 0

/-- The limit that a lookup is about to compare, with its read if it waits for one. -/
structure Comparison where
  provider : Provider
  limit : Request × ℕ
  reading : Option Reader

def Task.comparison : Task → Option Comparison
  | ⟨.gate p :: _, .checking _ (limit :: _) reading⟩ => some ⟨p, limit, reading⟩
  | _ => none

/-- The provider that a lookup is about to ask, with the limits that it has passed. -/
def Task.clearance : Task → Option (Provider × List Pass)
  | ⟨.request p :: _, .cleared passed _ _⟩ => some (p, passed)
  | _ => none

def Phase.isSent : Phase → Bool
  | .sent _ _ => true
  | _ => false

/-- Whoever passes a limit by what it read is alone or has room, and sends in the period in which it read or has room in the
other. No task ends with a request in flight, and metering fails only where the call has been recorded. -/
def Fits (setting : ℤ) (s : State) : Event → Prop
  | .read t now mono => ∀ task ∈ s.tasks t, ∀ c ∈ task.comparison, c.reading.isNone = true →
      ∀ value ∈ s.world.cached (s.reader c.limit.1 c.provider now mono),
        s.usage (s.reader c.limit.1 c.provider now mono) value < c.limit.2 →
          Exact s c.provider (s.reader c.limit.1 c.provider now mono) value ∨ Room s c.provider c.limit now.toUtc
  | .answer t => ∀ task ∈ s.tasks t, ∀ c ∈ task.comparison, ∀ x ∈ c.reading, ∀ value ∈ x.value,
      s.usage x value < c.limit.2 → Exact s c.provider x value ∨ Room s c.provider c.limit x.now
  | .send t now => ∀ task ∈ s.tasks t, ∀ c ∈ task.clearance, ∀ limit ∈ limits setting c.1,
      (∃ d ∈ c.2, d.provider = c.1 ∧ d.request = limit.1 ∧ period limit.1 d.now = period limit.1 now.toUtc) ∨
        Room s c.1 limit now.toUtc
  | .abort t => ∀ task ∈ s.tasks t, task.phase.isSent = false
  | .meterFails p a => (p, a) ∈ s.meters → ∀ x ∈ s.attempts p a, x.recorded.isSome = true
  | _ => True

instance (s : State) (p : Provider) (limit : Request × ℕ) (now : Utc) : Decidable (Room s p limit now) :=
  inferInstanceAs (Decidable (_ < _))

instance (s : State) (p : Provider) (x : Reader) (value : ℕ) : Decidable (Exact s p x value) :=
  inferInstanceAs (Decidable (_ ∧ _))

instance (s : State) : (e : Event) → Decidable (Fits setting s e)
  | .read t now mono => inferInstanceAs (Decidable (∀ task ∈ s.tasks t, ∀ c ∈ task.comparison, c.reading.isNone = true →
      ∀ value ∈ s.world.cached (s.reader c.limit.1 c.provider now mono),
        s.usage (s.reader c.limit.1 c.provider now mono) value < c.limit.2 →
          Exact s c.provider (s.reader c.limit.1 c.provider now mono) value ∨ Room s c.provider c.limit now.toUtc))
  | .answer t => inferInstanceAs (Decidable (∀ task ∈ s.tasks t, ∀ c ∈ task.comparison, ∀ x ∈ c.reading, ∀ value ∈ x.value,
      s.usage x value < c.limit.2 → Exact s c.provider x value ∨ Room s c.provider c.limit x.now))
  | .send t now => inferInstanceAs (Decidable (∀ task ∈ s.tasks t, ∀ c ∈ task.clearance, ∀ limit ∈ limits setting c.1,
      (∃ d ∈ c.2, d.provider = c.1 ∧ d.request = limit.1 ∧ period limit.1 d.now = period limit.1 now.toUtc) ∨
        Room s c.1 limit now.toUtc))
  | .abort t => inferInstanceAs (Decidable (∀ task ∈ s.tasks t, task.phase.isSent = false))
  | .meterFails p a => inferInstanceAs (Decidable ((p, a) ∈ s.meters → ∀ x ∈ s.attempts p a, x.recorded.isSome = true))
  | .start _ | .query _ | .hit _ | .miss _ | .circuitOpen _ _ | .respond _ _ _ | .meter _ _ _ | .background _ =>
    inferInstanceAs (Decidable True)

/-- The limits that a lookup still compares are limits of its provider, and what it reads is for the next of them. -/
def Task.Ok (setting : ℤ) : Task → Prop
  | ⟨.gate p :: _, .checking _ todo reading⟩ =>
    todo ⊆ limits setting p ∧ ∀ x ∈ reading, ∀ limit ∈ todo.head?, x.request = limit.1 ∧ x.service = p.name
  | _ => True

/-- What holds in every run. -/
structure Wf (setting : ℤ) (s : State) : Prop where
  usage : ApiUsage.Inv s.world.usage
  tasks : ∀ t x, s.tasks t = some x → t < s.nextTask ∧ x.Ok setting
  attempts : ∀ p a x, s.attempts p a = some x → a < s.nextAttempt
  counted : ∀ p r now, countedIn s p r (period r now) ≤ used s p r now

/-- The requests sent and about to be sent are within the limits. -/
def Roomy (setting : ℤ) (s : State) : Prop :=
  ∀ p, ∀ c ∈ limits setting p, ∀ κ, sentIn s p c.1 κ + reservedIn s p c.1 κ ≤ c.2

structure Inv (setting : ℤ) (s : State) : Prop extends Wf setting s where
  room : Roomy setting s
  followed : AllRecorded s

theorem limits_unique {p : Provider} {r : Request} {m n : ℕ} (hm : (r, m) ∈ limits setting p) (hn : (r, n) ∈ limits setting p) :
    m = n := by
  cases p <;> simp only [limits, List.mem_cons, Prod.mk.injEq, List.not_mem_nil, or_false] at hm hn
  · rcases hm with ⟨rfl, rfl⟩ | ⟨rfl, rfl⟩
    · simpa [eq_comm] using hn
    · simpa [eq_comm] using hn
  all_goals exact hm.2.trans hn.2.symm

theorem sent_eq (r : Request) (κ : ℕ × ℕ × ℕ × ℕ) (x : Option Attempt) : sent r κ x = counted r κ x + missed r κ x := by
  cases x with
  | none => rfl
  | some x =>
    cases hr : x.called r κ with
    | true => simp [sent, counted, missed, hr]
    | false => simp [sent, counted, missed, hr]

theorem sentIn_eq (s : State) (p : Provider) (r : Request) (κ : ℕ × ℕ × ℕ × ℕ) :
    sentIn s p r κ = countedIn s p r κ + missedIn s p r κ := by
  rw [sentIn, countedIn, missedIn, ← Finset.sum_add_distrib]
  exact Finset.sum_congr rfl fun a _ ↦ sent_eq r κ _

/-- A lookup that may pass leaves the requests within the limit once it has. -/
theorem room_of_fits {s : State} (h : Wf setting s) {p : Provider} {limit : Request × ℕ} {now : Utc} (hroom : Room s p limit now) :
    sentIn s p limit.1 (period limit.1 now) + reservedIn s p limit.1 (period limit.1 now) < limit.2 := by
  have hcounted := h.counted p limit.1 now
  rw [Room] at hroom
  rw [sentIn_eq]
  omega

/-- Alone, a lookup that passes has room by what it read. -/
theorem room_of_exact {s : State} (h : Wf setting s) {p : Provider} {limit : Request × ℕ} {x : Reader} {value : ℕ}
    (hx : x.request = limit.1 ∧ x.service = p.name) (he : Exact s p x value) (hlt : s.usage x value < limit.2) :
    Room s p limit x.now := by
  obtain ⟨hsettled, hmissed, hreserved⟩ := he
  have hused : s.usage x value = used s p limit.1 x.now := by
    rw [State.usage, total_of_settled h.usage hsettled, used, Reader.covers, hx.1, hx.2]
  rw [hx.1] at hmissed hreserved
  rw [Room, hmissed, hreserved, ← hused]
  exact hlt

section
variable (s : State) (p : Provider) (a : Option ℕ) (now : Instant)

@[simp] theorem record_tasks : (s.record p a now).tasks = s.tasks := by
  cases a <;> rfl

@[simp] theorem record_nextTask : (s.record p a now).nextTask = s.nextTask := by
  cases a <;> rfl

@[simp] theorem record_nextAttempt : (s.record p a now).nextAttempt = s.nextAttempt := by
  cases a <;> rfl

@[simp] theorem record_meters : (s.record p a now).meters = s.meters := by
  cases a <;> rfl

@[simp] theorem record_world :
    (s.record p a now).world = UsageReads.step s.world (.usage (.record p.name 1 now.toUtc)) := by
  cases a <;> rfl

theorem setAttempt_attempts (q : Provider) (b : ℕ) (x : Option Attempt) :
    (s.setAttempt p b x).attempts q = if q = p then Function.update (s.attempts p) b x else s.attempts q := by
  simp [State.setAttempt, Function.update_apply]

theorem setTask_self (t : ℕ) (x : Option Task) : (s.setTask t x).tasks t = x := by
  simp [State.setTask]

theorem setTask_of_ne {t u : ℕ} (h : u ≠ t) (x : Option Task) : (s.setTask t x).tasks u = s.tasks u := by
  simp [State.setTask, h]

/-- The requests of a provider after one of its calls was recorded. -/
theorem record_attempts (q : Provider) : (s.record p a now).attempts q = s.attempts q ∨
    ∃ b, q = p ∧ a = some b ∧ (s.record p a now).attempts q =
      Function.update (s.attempts q) b ((s.attempts q b).map (Attempt.record now)) := by
  cases a with
  | none => exact .inl rfl
  | some b =>
    by_cases hq : q = p
    · subst hq
      exact .inr ⟨b, rfl, rfl, (setAttempt_attempts _ q q b _).trans (if_pos rfl)⟩
    · exact .inl ((setAttempt_attempts _ p q b _).trans (if_neg hq))

end

theorem recorded_of_record {s : State} {p : Provider} {a : ℕ} {now : Instant} {x : Attempt}
    (h : (s.record p (some a) now).attempts p a = some x) : x.recorded.isSome = true := by
  change (State.setAttempt _ p a _).attempts p a = some x at h
  rw [setAttempt_attempts, if_pos rfl, Function.update_self] at h
  obtain ⟨y, -, rfl⟩ := Option.map_eq_some_iff.mp h
  simp [Attempt.record]

theorem sent_record (r : Request) (κ : ℕ × ℕ × ℕ × ℕ) (now : Instant) (x : Option Attempt) :
    sent r κ (x.map (Attempt.record now)) = sent r κ x := by
  cases x <;> rfl

theorem counted_record_le (r : Request) (κ : ℕ × ℕ × ℕ × ℕ) (now : Instant) (x : Option Attempt) :
    counted r κ (x.map (Attempt.record now)) ≤ counted r κ x + if period r now.toUtc = κ then 1 else 0 := by
  cases x with
  | none => exact Nat.zero_le _
  | some x =>
    obtain ⟨time, recorded⟩ := x
    cases recorded with
    | some t => exact Nat.le_add_right _ _
    | none =>
      simp only [Option.map_some, counted, Attempt.record, Attempt.called, Option.none_or, Option.any_some, decide_eq_true_eq]
      by_cases ht : period r now.toUtc = κ
      · rw [if_pos ht]
        split <;> omega
      · simp [ht]

theorem sentIn_record (s : State) (p q : Provider) (a : Option ℕ) (now : Instant) (r : Request) (κ : ℕ × ℕ × ℕ × ℕ) :
    sentIn (s.record p a now) q r κ = sentIn s q r κ := by
  rw [sentIn, sentIn, record_nextAttempt]
  rcases record_attempts s p a now q with h | ⟨b, -, -, h⟩
  · rw [h]
  · rw [h]
    exact sum_unmoved (sent_record r κ now _) _

theorem countedIn_record_le (s : State) (p q : Provider) (a : Option ℕ) (now : Instant) (r : Request) (κ : ℕ × ℕ × ℕ × ℕ) :
    countedIn (s.record p a now) q r κ ≤ countedIn s q r κ + if q = p ∧ period r now.toUtc = κ then 1 else 0 := by
  rw [countedIn, countedIn, record_nextAttempt]
  rcases record_attempts s p a now q with h | ⟨b, hq, -, h⟩
  · rw [h]
    exact Nat.le_add_right _ _
  · rw [h]
    simp only [hq, true_and]
    exact sum_moved_le (counted_record_le r κ now _) _

theorem recorded_record (u : ApiUsage.State) (service : Text) (now : Utc) :
    (ApiUsage.step u (.record service 1 now)).recorded = ⟨service, now, 1⟩ :: u.recorded := by
  rw [ApiUsage.step, ApiUsage.recordApiCall, if_neg (by decide), ApiUsage.State.schedule]
  split <;> rfl

/-- A recorded call is counted in the period in which it was recorded. -/
theorem used_record (s : State) (p q : Provider) (a : Option ℕ) (time : Instant) (r : Request) (now : Utc) :
    used s q r now + (if q = p ∧ period r time.toUtc = period r now then 1 else 0) ≤ used (s.record p a time) q r now := by
  have hrecorded : (s.record p a time).world.usage.recorded = ⟨p.name, time.toUtc, 1⟩ :: s.world.usage.recorded := by
    rw [record_world]
    exact recorded_record _ _ _
  have hcounts : ApiUsage.counts (⟨p.name, time.toUtc, 1⟩ :: s.world.usage.recorded) =
      (ApiUsage.keyAt p.name time.toUtc, 1) :: ApiUsage.counts s.world.usage.recorded := rfl
  rw [used, used, hrecorded, hcounts, total_cons]
  split
  · rename_i h
    obtain ⟨rfl, hperiod⟩ := h
    rw [covers_of_period_eq hperiod, if_pos rfl]
    exact (Nat.add_comm _ _).le
  · exact Nat.le_add_left _ _

theorem enter_ok (ops : List Op) (passed : List Pass) : (enter setting ops passed).Ok setting := by
  cases ops with
  | nil => trivial
  | cons op ops =>
    cases op with
    | gate p => exact ⟨List.Subset.refl _, nofun⟩
    | cache p => trivial
    | request p => trivial

theorem verdict_ok {ops : List Op} {p : Provider} {passed : List Pass} {limit : Request × ℕ} {rest : List (Request × ℕ)}
    (h : limit :: rest ⊆ limits setting p) (now : Utc) (usage : ℕ) :
    (verdict setting ops p passed limit rest now usage).Ok setting := by
  rw [verdict]
  split
  · exact enter_ok _ _
  · split
    · exact enter_ok _ _
    · exact ⟨List.Subset.trans (List.subset_cons_self _ _) h, nofun⟩

/-- The three things that a response can lead to: the call is recorded, it is not, or the request is sent again. -/
theorem respond_cases (setting : ℤ) (s : State) (t : ℕ) (p : Provider) (ops : List Op) (a left : ℕ) (outcome : Outcome) (now : Instant) :
    respond setting s t p ops a left outcome now =
        ((s.startMeter p a).record p (some a) now).setTask t (some (enter setting ops [])) ∨
      respond setting s t p ops a left outcome now = (s.startMeter p a).setTask t (some (enter setting ops [])) ∨
      ∃ n, respond setting s t p ops a left outcome now =
        (s.startMeter p a).setTask t (some ⟨.request p :: ops, .cleared [] n (some a)⟩) := by
  cases outcome with
  | answered => exact .inl rfl
  | rateLimited => exact .inr (.inr ⟨_, rfl⟩)
  | serverError =>
    simp only [respond]
    split
    · exact .inl rfl
    · exact .inr (.inr ⟨_, rfl⟩)
  | transportError =>
    simp only [respond]
    split
    · split
      · exact .inl rfl
      · exact .inr (.inl rfl)
    · exact .inr (.inr ⟨_, rfl⟩)

namespace Wf

variable {s : State}

theorem init : Wf setting State.init where
  usage := ApiUsage.Inv.init
  tasks _ _ h := nomatch h
  attempts _ _ _ h := nomatch h
  counted _ _ _ := Nat.zero_le _

theorem setTask (h : Wf setting s) {t : ℕ} {x : Task} (ht : t < s.nextTask) (hx : x.Ok setting) :
    Wf setting (s.setTask t (some x)) where
  usage := h.usage
  tasks u y hu := by
    by_cases he : u = t
    · subst he
      obtain rfl : x = y := Option.some.inj ((setTask_self s u (some x)).symm.trans hu)
      exact ⟨ht, hx⟩
    · exact h.tasks u y ((setTask_of_ne s he (some x)).symm.trans hu)
  attempts := h.attempts
  counted := h.counted

theorem record (h : Wf setting s) (p : Provider) (a : Option ℕ) (now : Instant) : Wf setting (s.record p a now) where
  usage := by
    rw [record_world]
    exact usage_inv h.usage _
  tasks t x ht := by
    rw [record_tasks] at ht
    rw [record_nextTask]
    exact h.tasks t x ht
  attempts q b x hb := by
    rw [record_nextAttempt]
    rcases record_attempts s p a now q with he | ⟨c, -, -, he⟩
    · rw [he] at hb
      exact h.attempts q b x hb
    · rw [he] at hb
      by_cases hc : b = c
      · subst hc
        rw [Function.update_self] at hb
        obtain ⟨y, hy, -⟩ := Option.map_eq_some_iff.mp hb
        exact h.attempts q b y hy
      · rw [Function.update_of_ne hc] at hb
        exact h.attempts q b x hb
  counted q r time := by
    calc countedIn (s.record p a now) q r (period r time)
        ≤ countedIn s q r (period r time) + if q = p ∧ period r now.toUtc = period r time then 1 else 0 :=
          countedIn_record_le s p q a now r _
      _ ≤ used s q r time + if q = p ∧ period r now.toUtc = period r time then 1 else 0 :=
          Nat.add_le_add_right (h.counted q r time) _
      _ ≤ used (s.record p a now) q r time := used_record s p q a now r time

theorem world (h : Wf setting s) {w : World} (hw : ApiUsage.Inv w.usage)
    (hmono : ∀ test, total test (ApiUsage.counts s.world.usage.recorded) ≤ total test (ApiUsage.counts w.usage.recorded)) :
    Wf setting { s with world := w } where
  usage := hw
  tasks := h.tasks
  attempts := h.attempts
  counted p r now := (h.counted p r now).trans (hmono _)

theorem store (h : Wf setting s) (x : Reader) (value : ℕ) : Wf setting { s with world := s.world.store x value } := by
  have hsame := store_usage s.world x value
  refine h.world ?_ fun test ↦ ?_
  · rw [hsame]
    exact h.usage
  · rw [hsame]

theorem startMeter (h : Wf setting s) (p : Provider) (a : ℕ) : Wf setting (s.startMeter p a) :=
  ⟨h.usage, h.tasks, h.attempts, h.counted⟩

theorem send (h : Wf setting s) {t : ℕ} {x : Task} (ht : t < s.nextTask) (hx : x.Ok setting) (p : Provider) (now : Instant) :
    Wf setting { (s.setAttempt p s.nextAttempt (some ⟨now, none⟩)).setTask t (some x) with nextAttempt := s.nextAttempt + 1 } := by
  have hset := h.setTask ht hx
  refine ⟨h.usage, hset.tasks, ?_, ?_⟩
  · intro q b y hb
    change (s.setAttempt p s.nextAttempt _).attempts q b = some y at hb
    rw [setAttempt_attempts] at hb
    by_cases hq : q = p
    · subst hq
      rw [if_pos rfl] at hb
      by_cases hn : b = s.nextAttempt
      · exact hn ▸ Nat.lt_succ_self _
      · rw [Function.update_of_ne hn] at hb
        exact Nat.lt_succ_of_lt (h.attempts q b y hb)
    · rw [if_neg hq] at hb
      exact Nat.lt_succ_of_lt (h.attempts q b y hb)
  · intro q r time
    refine le_trans ?_ (h.counted q r time)
    change ∑ a ∈ Finset.range (s.nextAttempt + 1), IocQuota.counted r _ ((s.setAttempt p s.nextAttempt _).attempts q a) ≤ _
    have hnone : s.attempts q s.nextAttempt = none := by
      cases hb : s.attempts q s.nextAttempt with
      | none => rfl
      | some y => exact absurd (h.attempts q _ y hb) (Nat.lt_irrefl _)
    have hgrow : ∑ a ∈ Finset.range (s.nextAttempt + 1), IocQuota.counted r (period r time) (s.attempts q a) =
        countedIn s q r (period r time) := by
      rw [Finset.sum_range_succ, hnone]
      rfl
    rw [setAttempt_attempts, ← hgrow]
    split
    · rename_i hq
      subst hq
      have hnew : IocQuota.counted r (period r time) (some ⟨now, none⟩) ≤
          IocQuota.counted r (period r time) (s.attempts q s.nextAttempt) + 0 := by
        simp [IocQuota.counted, Attempt.called]
      exact sum_moved_le hnew _
    · exact le_refl _

theorem start (h : Wf setting s) {x : Task} (hx : x.Ok setting) :
    Wf setting { s.setTask s.nextTask (some x) with nextTask := s.nextTask + 1 } where
  usage := h.usage
  tasks u y hu := by
    by_cases he : u = s.nextTask
    · subst he
      obtain rfl : x = y := Option.some.inj ((setTask_self s _ (some x)).symm.trans hu)
      exact ⟨Nat.lt_succ_self _, hx⟩
    · obtain ⟨hlt, hok⟩ := h.tasks u y ((setTask_of_ne s he (some x)).symm.trans hu)
      exact ⟨Nat.lt_succ_of_lt hlt, hok⟩
  attempts := h.attempts
  counted := h.counted

theorem abort (h : Wf setting s) (t : ℕ) : Wf setting (s.setTask t none) where
  usage := h.usage
  tasks u y hu := by
    by_cases he : u = t
    · subst he
      exact nomatch (setTask_self s u none).symm.trans hu
    · exact h.tasks u y ((setTask_of_ne s he none).symm.trans hu)
  attempts := h.attempts
  counted := h.counted

theorem step (h : Wf setting s) (e : Event) : Wf setting (step setting s e) := by
  cases e with
  | start c => exact h.start (enter_ok _ _)
  | read t now mono =>
    simp only [IocQuota.step]
    split
    · rename_i p ops passed limit rest ht
      obtain ⟨hlt, hok⟩ := h.tasks t _ ht
      split
      · exact h.setTask hlt (verdict_ok hok.1 _ _)
      · refine h.setTask hlt ⟨hok.1, ?_⟩
        intro x hx c hc
        obtain rfl := Option.some.inj hx
        obtain rfl := Option.some.inj hc
        exact ⟨rfl, rfl⟩
    · exact h
  | query t =>
    simp only [IocQuota.step]
    split
    · rename_i ops passed todo x ht
      obtain ⟨hlt, hok⟩ := h.tasks t _ ht
      split
      · exact h
      · refine h.setTask hlt ?_
        cases ops with
        | nil => trivial
        | cons op ops =>
          cases op with
          | gate p =>
            refine ⟨hok.1, ?_⟩
            intro y hy c hc
            obtain rfl := Option.some.inj hy
            exact hok.2 x rfl c hc
          | cache p => trivial
          | request p => trivial
    · exact h
  | answer t =>
    simp only [IocQuota.step]
    split
    · rename_i p ops passed limit rest x ht
      obtain ⟨hlt, hok⟩ := h.tasks t _ ht
      split
      · exact (h.store x _).setTask hlt (verdict_ok hok.1 _ _)
      · exact h
    · exact h
  | hit t =>
    simp only [IocQuota.step]
    split
    · rename_i ht
      exact h.setTask (h.tasks t _ ht).1 (enter_ok _ _)
    · exact h
  | miss t =>
    simp only [IocQuota.step]
    split
    · rename_i ht
      exact h.setTask (h.tasks t _ ht).1 (enter_ok _ _)
    · exact h
  | send t now =>
    simp only [IocQuota.step]
    split
    · rename_i p ops passed left last ht
      refine h.send (h.tasks t _ ht).1 ?_ p now
      trivial
    · exact h
  | circuitOpen t now =>
    simp only [IocQuota.step]
    split
    · rename_i p ops passed left last ht
      have hlt := (h.tasks t _ ht).1
      split
      · split
        · exact (h.record p last now).setTask (record_nextTask s p last now ▸ hlt) (enter_ok _ _)
        · exact h.setTask hlt (enter_ok _ _)
      · exact h
    · exact h
  | respond t outcome now =>
    simp only [IocQuota.step]
    split
    · rename_i p ops a left ht
      have hlt := (h.tasks t _ ht).1
      have hmeter := h.startMeter p a
      rcases respond_cases setting s t p ops a left outcome now with he | he | ⟨n, he⟩
      · rw [he]
        exact (hmeter.record p (some a) now).setTask hlt (enter_ok _ _)
      · rw [he]
        exact hmeter.setTask hlt (enter_ok _ _)
      · rw [he]
        exact hmeter.setTask hlt trivial
    · exact h
  | abort t => exact h.abort t
  | meter p a now =>
    simp only [IocQuota.step]
    split
    · have hr := h.record p (some a) now
      exact ⟨hr.usage, hr.tasks, hr.attempts, hr.counted⟩
    · exact h
  | meterFails p a => exact ⟨h.usage, h.tasks, h.attempts, h.counted⟩
  | background e =>
    simp only [IocQuota.step]
    split
    · exact h
    · exact h.world (usage_inv h.usage e) fun test ↦ total_counts_mono s.world e test

end Wf

theorem enter_passed (ops : List Op) (passed : List Pass) : (enter setting ops passed).phase.passed ⊆ passed := by
  cases ops with
  | nil => exact List.nil_subset _
  | cons op ops =>
    cases op with
    | gate p => exact List.nil_subset _
    | cache p => exact List.nil_subset _
    | request p => exact List.Subset.refl _

theorem reserved_le_one (p : Provider) (r : Request) (κ : ℕ × ℕ × ℕ × ℕ) (x : Option Task) : reserved p r κ x ≤ 1 := by
  cases x with
  | none => exact Nat.zero_le _
  | some x =>
    rw [reserved]
    split <;> omega

theorem reserved_of_nil {p : Provider} {r : Request} {κ : ℕ × ℕ × ℕ × ℕ} {x : Task} (h : x.phase.passed ⊆ []) :
    reserved p r κ (some x) = 0 := by
  rw [reserved, List.subset_nil.mp h]
  exact if_neg (by simp)

theorem reserved_of_pass {p : Provider} {r : Request} {κ : ℕ × ℕ × ℕ × ℕ} {x : Task} {c : Pass} (hc : c ∈ x.phase.passed)
    (h : c.provider = p ∧ c.request = r ∧ period r c.now = κ) : reserved p r κ (some x) = 1 := if_pos ⟨c, hc, h⟩

theorem reserved_cons_le {p : Provider} {r : Request} {κ : ℕ × ℕ × ℕ × ℕ} {x y : Task} {c : Pass}
    (h : x.phase.passed ⊆ c :: y.phase.passed) (hc : ¬(c.provider = p ∧ c.request = r ∧ period r c.now = κ)) :
    reserved p r κ (some x) ≤ reserved p r κ (some y) := by
  rw [reserved]
  split
  · rename_i hx
    obtain ⟨d, hd, hp⟩ := hx
    rcases List.mem_cons.mp (h hd) with rfl | hd
    · exact absurd hp hc
    · exact (reserved_of_pass hd hp).ge
  · exact Nat.zero_le _

theorem reservedIn_record (s : State) (p q : Provider) (a : Option ℕ) (now : Instant) (r : Request) (κ : ℕ × ℕ × ℕ × ℕ) :
    reservedIn (s.record p a now) q r κ = reservedIn s q r κ := by
  rw [reservedIn, reservedIn, record_nextTask, record_tasks]

theorem reservedIn_setTask_le {s : State} {t : ℕ} {x : Option Task} {p : Provider} {r : Request} {κ : ℕ × ℕ × ℕ × ℕ} {n : ℕ}
    (h : reserved p r κ x ≤ reserved p r κ (s.tasks t) + n) : reservedIn (s.setTask t x) p r κ ≤ reservedIn s p r κ + n :=
  sum_moved_le h _

/-- One more request. -/
theorem sentIn_send {s : State} (h : Wf setting s) (t : ℕ) (x : Option Task) (p q : Provider) (now : Instant) (r : Request)
    (κ : ℕ × ℕ × ℕ × ℕ) :
    sentIn { (s.setAttempt p s.nextAttempt (some ⟨now, none⟩)).setTask t x with nextAttempt := s.nextAttempt + 1 } q r κ =
      sentIn s q r κ + if q = p ∧ period r now.toUtc = κ then 1 else 0 := by
  have hnone : s.attempts q s.nextAttempt = none := by
    cases hb : s.attempts q s.nextAttempt with
    | none => rfl
    | some y => exact absurd (h.attempts q _ y hb) (Nat.lt_irrefl _)
  change ∑ a ∈ Finset.range (s.nextAttempt + 1), sent r κ ((s.setAttempt p s.nextAttempt _).attempts q a) = _
  rw [setAttempt_attempts, Finset.sum_range_succ]
  by_cases hq : q = p
  · subst hq
    rw [if_pos rfl, Function.update_self]
    congr 1
    · apply Finset.sum_congr rfl
      intro a ha
      rw [Function.update_of_ne (Nat.ne_of_lt (Finset.mem_range.mp ha))]
    · simp [sent]
  · rw [if_neg hq, hnone, if_neg fun hand ↦ hq hand.1]
    rfl

namespace Roomy

variable {s : State}

theorem init : Roomy setting State.init := fun _ _ _ _ ↦ Nat.zero_le _

/-- A lookup that has passed nothing more leaves the room as it is. -/
theorem setTask (h : Roomy setting s) {t : ℕ} {x : Option Task} (hx : ∀ p r κ, reserved p r κ x ≤ reserved p r κ (s.tasks t)) :
    Roomy setting (s.setTask t x) := by
  intro p c hc κ
  have hle : reservedIn (s.setTask t x) p c.1 κ ≤ reservedIn s p c.1 κ + 0 := reservedIn_setTask_le (hx p c.1 κ)
  have hroom := h p c hc κ
  change sentIn s p c.1 κ + _ ≤ c.2
  omega

theorem enter (h : Roomy setting s) (t : ℕ) (ops : List Op) : Roomy setting (s.setTask t (some (enter setting ops []))) := by
  apply h.setTask
  intro p r κ
  rw [reserved_of_nil (enter_passed ops [])]
  exact Nat.zero_le _

theorem record (h : Roomy setting s) (p : Provider) (a : Option ℕ) (now : Instant) : Roomy setting (s.record p a now) := by
  intro q c hc κ
  rw [sentIn_record, reservedIn_record]
  exact h q c hc κ

/-- Whoever passes a limit has room for its request. -/
theorem verdict (h : Roomy setting s) (hw : Wf setting s) {t : ℕ} {ops : List Op} {p : Provider} {passed : List Pass}
    {limit : Request × ℕ} {rest : List (Request × ℕ)} {reading : Option Reader}
    (ht : s.tasks t = some ⟨.gate p :: ops, .checking passed (limit :: rest) reading⟩) {now : Utc} {usage : ℕ}
    (hfits : usage < limit.2 → Room s p limit now) :
    Roomy setting (s.setTask t (some (verdict setting ops p passed limit rest now usage))) := by
  rw [IocQuota.verdict]
  split
  · exact h.enter t _
  · rename_i hpass
    have hroom := room_of_fits hw (hfits (Nat.lt_of_not_le hpass))
    have hlimit : limit ∈ limits setting p := (hw.tasks t _ ht).2.1 (.head _)
    have hnew : ∀ x : Task, x.phase.passed ⊆ ⟨p, limit.1, now⟩ :: passed → Roomy setting (s.setTask t (some x)) := by
      intro x hx q c hc κ
      change sentIn s q c.1 κ + _ ≤ c.2
      by_cases hthis : p = q ∧ limit.1 = c.1 ∧ period c.1 now = κ
      · obtain ⟨rfl, hr, rfl⟩ := hthis
        have hbound : limit.2 = c.2 := limits_unique hlimit (hr ▸ hc)
        have hle : reservedIn (s.setTask t (some x)) p c.1 (period c.1 now) ≤ reservedIn s p c.1 (period c.1 now) + 1 :=
          reservedIn_setTask_le ((reserved_le_one _ _ _ _).trans (Nat.le_add_left _ _))
        rw [hr] at hroom
        omega
      · have hle : reservedIn (s.setTask t (some x)) q c.1 κ ≤ reservedIn s q c.1 κ + 0 := by
          apply reservedIn_setTask_le
          rw [ht]
          exact reserved_cons_le hx hthis
        have hkept := h q c hc κ
        omega
    split
    · exact hnew _ (enter_passed _ _)
    · exact hnew _ (List.Subset.refl _)

theorem send (h : Roomy setting s) (hw : Wf setting s) {t : ℕ} {p : Provider} {ops : List Op} {passed : List Pass} {left : ℕ}
    {last : Option ℕ} (ht : s.tasks t = some ⟨.request p :: ops, .cleared passed left last⟩) {now : Instant}
    (hfits : ∀ limit ∈ limits setting p, (∃ c ∈ passed, c.provider = p ∧ c.request = limit.1 ∧
      period limit.1 c.now = period limit.1 now.toUtc) ∨ Room s p limit now.toUtc) :
    Roomy setting { (s.setAttempt p s.nextAttempt (some ⟨now, none⟩)).setTask t
      (some ⟨.request p :: ops, .sent s.nextAttempt left⟩) with nextAttempt := s.nextAttempt + 1 } := by
  intro q c hc κ
  rw [sentIn_send hw]
  have hmoved : reservedIn (s.setTask t (some ⟨.request p :: ops, .sent s.nextAttempt left⟩)) q c.1 κ +
      reserved q c.1 κ (s.tasks t) = reservedIn s q c.1 κ + 0 :=
    sum_moved (reserved q c.1 κ) s.tasks _ (Finset.mem_range.mpr (hw.tasks t _ ht).1)
  change _ + reservedIn (s.setTask t (some ⟨.request p :: ops, .sent s.nextAttempt left⟩)) q c.1 κ ≤ c.2
  have hkept := h q c hc κ
  split
  · rename_i hthis
    obtain ⟨rfl, rfl⟩ := hthis
    rcases hfits c hc with ⟨d, hd, hp⟩ | hroom
    · -- its own place is taken by the request
      rw [ht, reserved_of_pass hd hp] at hmoved
      omega
    · have hlt := room_of_fits hw hroom
      omega
  · omega

theorem start (h : Roomy setting s) (c : Call) : Roomy setting (IocQuota.step setting s (.start c)) := by
  intro p l hl κ
  have hroom := h p l hl κ
  have hnew : reservedIn (IocQuota.step setting s (.start c)) p l.1 κ ≤ reservedIn s p l.1 κ := by
    change ∑ t ∈ Finset.range (s.nextTask + 1), reserved p l.1 κ ((s.setTask s.nextTask _).tasks t) ≤ _
    rw [Finset.sum_range_succ, setTask_self, reserved_of_nil (enter_passed _ []), Nat.add_zero]
    apply le_of_eq
    apply Finset.sum_congr rfl
    intro t ht
    rw [setTask_of_ne s (Nat.ne_of_lt (Finset.mem_range.mp ht))]
  exact (Nat.add_le_add_left hnew _).trans hroom

/-- The lookup waits for the usage of the same limit as before. -/
theorem wait (h : Roomy setting s) {t : ℕ} {ops : List Op} {passed : List Pass} {todo : List (Request × ℕ)}
    {reading : Option Reader} (ht : s.tasks t = some ⟨ops, .checking passed todo reading⟩) (x : Option Reader) :
    Roomy setting (s.setTask t (some ⟨ops, .checking passed todo x⟩)) := by
  apply h.setTask
  intro p r κ
  rw [ht]
  exact Nat.le_refl _

theorem step (h : Roomy setting s) (hw : Wf setting s) {e : Event} (he : Fits setting s e) :
    Roomy setting (step setting s e) := by
  cases e with
  | start c => exact h.start c
  | read t now mono =>
    simp only [IocQuota.step]
    split
    · rename_i p ops passed limit rest ht
      split
      · rename_i value hv
        apply h.verdict hw ht
        intro hlt
        rcases he _ ht _ rfl rfl value hv hlt with hexact | hroom
        · have hroom : Room s p limit (s.reader limit.1 p now mono).now := room_of_exact hw ⟨rfl, rfl⟩ hexact hlt
          exact hroom
        · exact hroom
      · exact h.wait ht _
    · exact h
  | query t =>
    simp only [IocQuota.step]
    split
    · rename_i ht
      split
      · exact h
      · exact h.wait ht _
    · exact h
  | answer t =>
    simp only [IocQuota.step]
    split
    · rename_i p ops passed limit rest x ht
      split
      · rename_i value hv
        apply h.verdict hw ht
        intro hlt
        rcases he _ ht _ rfl x rfl value hv hlt with hexact | hroom
        · exact room_of_exact hw ((hw.tasks t _ ht).2.2 x rfl limit rfl) hexact hlt
        · exact hroom
      · exact h
    · exact h
  | hit t =>
    simp only [IocQuota.step]
    split
    · exact h.enter t _
    · exact h
  | miss t =>
    simp only [IocQuota.step]
    split
    · exact h.enter t _
    · exact h
  | send t now =>
    simp only [IocQuota.step]
    split
    · rename_i p ops passed left last ht
      exact h.send hw ht (he _ ht _ rfl)
    · exact h
  | circuitOpen t now =>
    simp only [IocQuota.step]
    split
    · split
      · split
        · exact (h.record _ _ now).enter t _
        · exact h.enter t _
      · exact h
    · exact h
  | respond t outcome now =>
    simp only [IocQuota.step]
    split
    · rename_i p ops a left ht
      have hmeter : Roomy setting (s.startMeter p a) := h
      rcases respond_cases setting s t p ops a left outcome now with he | he | ⟨n, he⟩
      · rw [he]
        exact (hmeter.record p (some a) now).enter t _
      · rw [he]
        exact hmeter.enter t _
      · rw [he]
        apply hmeter.setTask
        intro q r κ
        rw [reserved_of_nil (List.Subset.refl _)]
        exact Nat.zero_le _
    · exact h
  | abort t => exact h.setTask fun p r κ ↦ Nat.zero_le _
  | meter p a now =>
    simp only [IocQuota.step]
    split
    · exact h.record p (some a) now
    · exact h
  | meterFails p a => exact h
  | background e =>
    simp only [IocQuota.step]
    split
    · exact h
    · exact h

end Roomy

namespace AllRecorded

variable {s : State} {t : ℕ}

theorem init : AllRecorded State.init := fun _ _ _ h ↦ nomatch h

/-- Requests of other lookups stay in flight. -/
theorem setTask (h : AllRecorded s) {x : Option Task} (ht : ∀ ops a left, s.tasks t ≠ some ⟨ops, .sent a left⟩) :
    AllRecorded (s.setTask t x) := by
  intro p a y hy
  rcases h p a y hy with hr | hm | ⟨u, ops, left, hu⟩
  · exact .inl hr
  · exact .inr (.inl hm)
  · have hne : u ≠ t := by
      rintro rfl
      exact ht _ a left hu
    exact .inr (.inr ⟨u, ops, left, (setTask_of_ne s hne x).trans hu⟩)

theorem record (h : AllRecorded s) (p : Provider) (a : Option ℕ) (now : Instant) : AllRecorded (s.record p a now) := by
  intro q b y hy
  have hflight : InFlight s q b → InFlight (s.record p a now) q b := by
    rintro ⟨u, ops, left, hu⟩
    exact ⟨u, ops, left, by rw [record_tasks, hu]⟩
  rw [record_meters]
  rcases record_attempts s p a now q with he | ⟨c, -, -, he⟩
  · rw [he] at hy
    exact (h q b y hy).imp_right (Or.imp_right hflight)
  · rw [he] at hy
    by_cases hc : b = c
    · subst hc
      rw [Function.update_self] at hy
      obtain ⟨x, -, rfl⟩ := Option.map_eq_some_iff.mp hy
      exact .inl (by simp [Attempt.record])
    · rw [Function.update_of_ne hc] at hy
      exact (h q b y hy).imp_right (Or.imp_right hflight)

/-- The request is metered from the moment at which its lookup has the response. -/
theorem respond (h : AllRecorded s) {p : Provider} {ops : List Op} {a left : ℕ}
    (ht : s.tasks t = some ⟨.request p :: ops, .sent a left⟩) (x : Option Task) :
    AllRecorded ((s.startMeter p a).setTask t x) := by
  intro q b y hy
  rcases h q b y hy with hr | hm | ⟨u, ops', left', hu⟩
  · exact .inl hr
  · exact .inr (.inl (.tail _ hm))
  · by_cases hne : u = t
    · subst hne
      rw [ht] at hu
      obtain ⟨⟨hp, -⟩, ha, -⟩ : (Op.request p = .request q ∧ ops = ops') ∧ a = b ∧ left = left' := by
        simpa using hu
      obtain rfl : p = q := by simpa using hp
      exact .inr (.inl (ha ▸ .head _))
    · exact .inr (.inr ⟨u, ops', left', (setTask_of_ne _ hne x).trans hu⟩)

theorem erase (h : AllRecorded s) {p : Provider} {a : ℕ}
    (ha : (p, a) ∈ s.meters → ∀ x, s.attempts p a = some x → x.recorded.isSome = true) :
    AllRecorded { s with meters := s.meters.erase (p, a) } := by
  intro q b y hy
  rcases h q b y hy with hr | hm | hf
  · exact .inl hr
  · by_cases he : (q, b) = (p, a)
    · obtain ⟨rfl, rfl⟩ := Prod.mk.inj he
      exact .inl (ha hm y hy)
    · exact .inr (.inl ((List.mem_erase_of_ne he).mpr hm))
  · exact .inr (.inr hf)

theorem send (h : AllRecorded s) {p : Provider} {ops : List Op} {passed : List Pass} {left : ℕ} {last : Option ℕ}
    (ht : s.tasks t = some ⟨.request p :: ops, .cleared passed left last⟩) (now : Instant) :
    AllRecorded { (s.setAttempt p s.nextAttempt (some ⟨now, none⟩)).setTask t
      (some ⟨.request p :: ops, .sent s.nextAttempt left⟩) with nextAttempt := s.nextAttempt + 1 } := by
  have hset : AllRecorded (s.setTask t (some ⟨.request p :: ops, .sent s.nextAttempt left⟩)) := h.setTask (by simp [ht])
  intro q b y hy
  change (s.setAttempt p s.nextAttempt _).attempts q b = some y at hy
  rw [setAttempt_attempts] at hy
  by_cases hq : q = p
  · subst hq
    rw [if_pos rfl] at hy
    by_cases hn : b = s.nextAttempt
    · subst hn
      exact .inr (.inr ⟨t, ops, left, setTask_self s t _⟩)
    · rw [Function.update_of_ne hn] at hy
      exact hset q b y hy
  · rw [if_neg hq] at hy
    exact hset q b y hy

theorem step (h : AllRecorded s) (hw : Wf setting s) {e : Event} (he : Fits setting s e) :
    AllRecorded (step setting s e) := by
  cases e with
  | start c =>
    have hnone : ∀ ops a left, s.tasks s.nextTask ≠ some ⟨ops, .sent a left⟩ :=
      fun ops a left ht ↦ Nat.lt_irrefl _ (hw.tasks _ _ ht).1
    exact h.setTask hnone
  | read t now mono =>
    simp only [IocQuota.step]
    split
    · rename_i ht
      split
      · exact h.setTask (by simp [ht])
      · exact h.setTask (by simp [ht])
    · exact h
  | query t =>
    simp only [IocQuota.step]
    split
    · rename_i ht
      split
      · exact h
      · exact h.setTask (by simp [ht])
    · exact h
  | answer t =>
    simp only [IocQuota.step]
    split
    · rename_i p ops passed limit rest x ht
      split
      · rename_i value hv
        have hstore : AllRecorded { s with world := s.world.store x value } := h
        exact hstore.setTask (by simp [ht])
      · exact h
    · exact h
  | hit t =>
    simp only [IocQuota.step]
    split
    · rename_i ht
      exact h.setTask (by simp [ht])
    · exact h
  | miss t =>
    simp only [IocQuota.step]
    split
    · rename_i ht
      exact h.setTask (by simp [ht])
    · exact h
  | send t now =>
    simp only [IocQuota.step]
    split
    · rename_i ht
      exact h.send ht now
    · exact h
  | circuitOpen t now =>
    simp only [IocQuota.step]
    split
    · rename_i p ops passed left last ht
      split
      · split
        · exact (h.record p last now).setTask (by simp [ht])
        · exact h.setTask (by simp [ht])
      · exact h
    · exact h
  | respond t outcome now =>
    simp only [IocQuota.step]
    split
    · rename_i p ops a left ht
      rcases respond_cases setting s t p ops a left outcome now with he | he | ⟨n, he⟩
      · rw [he]
        exact (h.respond ht _).record p (some a) now
      · rw [he]
        exact h.respond ht _
      · rw [he]
        exact h.respond ht _
    · exact h
  | abort t =>
    apply h.setTask
    intro ops a left ht
    exact nomatch he _ ht
  | meter p a now =>
    simp only [IocQuota.step]
    split
    · rename_i hm
      have hr := h.record p (some a) now
      have herase : AllRecorded { s.record p (some a) now with meters := (s.record p (some a) now).meters.erase (p, a) } := by
        apply hr.erase
        intro _ x hx
        exact recorded_of_record hx
      rw [record_meters] at herase
      exact herase
    · exact h
  | meterFails p a => exact h.erase he
  | background e =>
    simp only [IocQuota.step]
    split
    · exact h
    · exact h

end AllRecorded

theorem Inv.init : Inv setting State.init := ⟨Wf.init, Roomy.init, AllRecorded.init⟩

theorem Inv.step {s : State} (h : Inv setting s) {e : Event} (he : Fits setting s e) : Inv setting (step setting s e) :=
  ⟨h.toWf.step e, h.room.step h.toWf he, h.followed.step h.toWf he⟩

/-- In a run whose lookups pass their limits and send alone or with room, and lose no request, the quotas hold and every
request has its call. -/
theorem quotas_kept (setting : ℤ) (events before : List Event)
    (h : Along (step setting) (Fits setting) State.init events) (hb : before <+: events) :
    WithinLimits setting (run (step setting) State.init before) ∧ AllRecorded (run (step setting) State.init before) := by
  have hstep : ∀ s e, Inv setting s → Fits setting s e → Inv setting (step setting s e) := fun s e hs he ↦ hs.step he
  have hinv : Inv setting (run (step setting) State.init before) := run_prefix_induction hstep Inv.init h hb
  exact ⟨fun p c hc κ ↦ (Nat.le_add_right _ _).trans (hinv.room p c hc κ), hinv.followed⟩

/-- The first hour of the year 2026. -/
def midnight : Instant := ⟨Tracking.ApiUsage.newYear, by decide⟩

/-- A hash at VirusTotal and OTX. -/
def hashCall : Call := ⟨.hash, true, false, false, true, false, true⟩

def passVirustotal (t : ℕ) : List Event :=
  [.read t midnight 0, .query t, .answer t, .read t midnight 0, .query t, .answer t, .send t midnight]

def oneLookup : List Event :=
  .start hashCall :: passVirustotal 0 ++ [.respond 0 .answered midnight, .meter .virustotal 0 midnight, .miss 0,
    .read 0 midnight 9, .query 0, .answer 0, .send 0 midnight, .respond 0 .transportError midnight]

theorem oneLookup_kept : sentIn (run (step 1) State.init oneLookup) .virustotal .getTodayUsage (2026, 1, 1, 0) = 1 ∧
    WithinLimits 1 (run (step 1) State.init oneLookup) ∧ AllRecorded (run (step 1) State.init oneLookup) := by
  have hrun : Along (step 1) (Fits 1) State.init oneLookup := by decide +kernel
  exact ⟨by decide +kernel, quotas_kept 1 oneLookup _ hrun List.prefix_rfl⟩

/-- Two lookups that both read the usage before either has sent, with one request an hour. -/
def bothAtOnce : List Event :=
  let call : Call := ⟨.hash, false, false, false, true, false, true⟩
  [.start call, .start call, .miss 0, .miss 1, .read 0 midnight 0, .query 0, .answer 0, .read 1 midnight 1, .send 0 midnight,
    .send 1 midnight]

/-- A request that raises something other than an `httpx.HTTPError`. -/
def raised : List Event := .start hashCall :: passVirustotal 0 ++ [.abort 0]

/-- Two requests go to a provider with a limit of one, and one that raises is recorded nowhere. -/
theorem limit_exceeded : sentIn (run (step 1) State.init bothAtOnce) .otx .getHourUsage (2026, 1, 1, 0) = 2 ∧
    ¬AllRecorded (run (step 1) State.init raised) ∧
    ¬∀ (setting : ℤ) (events before : List Event), before <+: events →
      WithinLimits setting (run (step setting) State.init before) ∧ AllRecorded (run (step setting) State.init before) := by
  have hsent : sentIn (run (step 1) State.init bothAtOnce) .otx .getHourUsage (2026, 1, 1, 0) = 2 := by decide +kernel
  refine ⟨hsent, fun h ↦ ?_, fun h ↦ ?_⟩
  · rcases h .virustotal 0 ⟨midnight, none⟩ rfl with hr | hm | ⟨t, ops, left, ht⟩
    · cases hr
    · exact absurd hm List.not_mem_nil
    · cases t with
      | zero => cases ht
      | succ t => cases ht
  · have hle := (h 1 bothAtOnce _ List.prefix_rfl).1 .otx (.getHourUsage, getOtxHourlyLimit 1) (.head _) (2026, 1, 1, 0)
    rw [hsent] at hle
    exact absurd hle (by decide)

end Briefr.Enrichment.IocQuota
