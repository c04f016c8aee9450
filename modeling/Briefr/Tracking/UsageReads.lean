import Briefr.Outbound.Pacing
import Briefr.Tracking.ApiUsage
import Mathlib.Logic.Function.Iterate

namespace Briefr.Tracking.UsageReads

open Briefr.Python Briefr.Library.Runs Briefr.Library.Counters Briefr.Tracking.ApiUsage
open Briefr.Outbound.Pacing (Time)

/-- The functions that read usage. `record_api_call` looks up a bucket for its warnings and answers nobody. -/
inductive Request
  | getHourUsage
  | getTodayUsage
  | getWeekUsage
  | getMonthUsage
  | warning
  deriving DecidableEq

/-- The keys that a request counts, in the table and in the buffer. -/
def covers (r : Request) (service : Text) (now : Utc) (k : Key) : Bool :=
  decide (k.service = service) &&
    match r with
    | .getHourUsage | .warning => decide (k.bucket = usageBucketKey service now)
    | .getTodayUsage =>
      if hourlyTracked service then (dateText now.date).isPrefixOf k.bucket else decide (k.bucket = dateText now.date)
    | .getWeekUsage => decide (dateText now.date.weekStart ≤ k.bucket)
    | .getMonthUsage => decide (k.month = monthText now.date)

/-- The keys of `_committed_usage_cache`, `_committed_week_usage_cache` and `_committed_month_usage_cache`. -/
inductive CacheKey
  | bucket (service bucket : Text)
  | week (service start : Text)
  | month (service month : Text)
  deriving DecidableEq

def cacheKey (r : Request) (service : Text) (now : Utc) : Option CacheKey :=
  match r with
  | .getHourUsage | .warning => some (.bucket service (usageBucketKey service now))
  | .getTodayUsage => if hourlyTracked service then none else some (.bucket service (dateText now.date))
  | .getWeekUsage => some (.week service (dateText now.date.weekStart))
  | .getMonthUsage => some (.month service (monthText now.date))

def committedUsageCacheTtlSeconds : Time := 2

/-- The time is in the period that the request asks for. -/
def inPeriod (r : Request) (now time : Utc) : Bool :=
  match r with
  | .getHourUsage | .warning => decide (time.date = now.date ∧ time.hour = now.hour)
  | .getTodayUsage => decide (time.date = now.date)
  | .getWeekUsage => decide ¬time.date.before now.date.weekStart
  | .getMonthUsage => decide (time.date.year = now.date.year ∧ time.date.month = now.date.month)

/-- The calls of the service that were recorded in the period. -/
def recordedIn (r : Request) (service : Text) (now : Utc) (recorded : List Recorded) : ℕ :=
  (recorded.map fun c ↦ if c.service = service ∧ inPeriod r now c.now then c.count else 0).sum

/-- A read that waits for the database, then has what it found. It began when so many calls were recorded. -/
structure Reader where
  request : Request
  service : Text
  now : Utc
  began : Time
  before : ℕ
  value : Option ℕ

structure Answer where
  before : ℕ
  returned : ℕ

/-- The counters, the caches and the reads, with the answers so far. -/
structure World where
  usage : State
  cache : CacheKey → Option (Time × ℕ)
  readers : ℕ → Option Reader
  answers : List Answer

def World.init : World := ⟨State.init, fun _ ↦ none, fun _ ↦ none, []⟩

inductive Event
  | usage (e : ApiUsage.Event)
  | read (i : ℕ) (r : Request) (service : Text) (now : Utc) (mono : Time)
  | query (i : ℕ)
  | answer (i : ℕ)

def Reader.covers (x : Reader) : Key → Bool := UsageReads.covers x.request x.service x.now

/-- The committed part of a cache that is fresh. -/
def World.cached (w : World) (x : Reader) : Option ℕ :=
  match (cacheKey x.request x.service x.now).bind w.cache with
  | some (stored, value) => if x.began - stored < committedUsageCacheTtlSeconds then some value else none
  | none => none

/-- The buffered part is added to the committed one. -/
def World.reply (w : World) (x : Reader) (committed : ℕ) : World :=
  if x.request = .warning then w
  else { w with answers := ⟨x.before, committed + total x.covers w.usage.pending⟩ :: w.answers }

def World.setReader (w : World) (i : ℕ) (x : Option Reader) : World := { w with readers := Function.update w.readers i x }

def World.store (w : World) (x : Reader) (value : ℕ) : World :=
  match cacheKey x.request x.service x.now with
  | some key => { w with cache := Function.update w.cache key (some (x.began, value)) }
  | none => w

def World.reader (w : World) (r : Request) (service : Text) (now : Utc) (mono : Time) : Reader :=
  ⟨r, service, now, mono, recordedIn r service now w.usage.recorded, none⟩

def step (w : World) : Event → World
  | .usage e => { w with usage := ApiUsage.step w.usage e }
  | .read i r service now mono =>
    if (w.readers i).isSome then w
    else
      let x := w.reader r service now mono
      match w.cached x with
      | some value => w.reply x value
      | none => w.setReader i (some x)
  | .query i =>
    match w.readers i with
    | some x =>
      if x.value.isSome then w else w.setReader i (some { x with value := some (total x.covers w.usage.rows) })
    | none => w
  | .answer i =>
    match w.readers i with
    | some x =>
      match x.value with
      | some value => ((w.store x value).reply x value).setReader i none
      | none => w
    | none => w

/-- The committed part is still what the table holds, and no flush has calls of the period in its batch. -/
def Settled (w : World) (x : Reader) (committed : ℕ) : Prop :=
  committed = total x.covers w.usage.rows ∧ total x.covers w.usage.held = 0

instance (w : World) (x : Reader) (committed : ℕ) : Decidable (Settled w x committed) :=
  inferInstanceAs (Decidable (_ ∧ _))

/-- Reads add the buffered part only where no flush has come between. -/
def Undisturbed (w : World) : Event → Prop
  | .read i r service now mono =>
    (w.readers i).isSome = false → r ≠ .warning → ∀ value ∈ w.cached (w.reader r service now mono),
      Settled w (w.reader r service now mono) value
  | .answer i => ∀ x ∈ w.readers i, x.request ≠ .warning → ∀ value ∈ x.value, Settled w x value
  | .usage _ | .query _ => True

instance (w : World) : (e : Event) → Decidable (Undisturbed w e)
  | .read i r service now mono => inferInstanceAs (Decidable ((w.readers i).isSome = false → r ≠ .warning →
      ∀ value ∈ w.cached (w.reader r service now mono), Settled w (w.reader r service now mono) value))
  | .answer i => inferInstanceAs (Decidable (∀ x ∈ w.readers i, x.request ≠ .warning → ∀ value ∈ x.value, Settled w x value))
  | .usage _ | .query _ => inferInstanceAs (Decidable True)

/-- A call that was recorded in the period is under a key that the request counts. -/
theorem covers_of_inPeriod {r : Request} {service : Text} {now time : Utc} (h : inPeriod r now time = true) :
    covers r service now (keyAt service time) = true := by
  refine Bool.and_eq_true_iff.mpr ⟨by simp [keyAt], ?_⟩
  cases r with
  | getHourUsage | warning =>
    obtain ⟨hd, hh⟩ := of_decide_eq_true h
    simp only [keyAt, usageBucketKey, hourText, hd, hh, decide_eq_true_eq]
  | getTodayUsage =>
    have hd : time.date = now.date := of_decide_eq_true h
    simp only [keyAt, usageBucketKey]
    split
    · simp [hourText, hd]
    · simp [hd]
  | getWeekUsage =>
    have hw : ¬time.date.before now.date.weekStart := of_decide_eq_true h
    simp only [keyAt, usageBucketKey]
    split
    · exact decide_eq_true (dateText_le hw _)
    · have hle := dateText_le hw []
      rw [List.append_nil] at hle
      exact decide_eq_true hle
  | getMonthUsage =>
    obtain ⟨hy, hm⟩ := of_decide_eq_true h
    simp [keyAt, monthText, hy, hm]

theorem recordedIn_le (r : Request) (service : Text) (now : Utc) (recorded : List Recorded) :
    recordedIn r service now recorded ≤ total (covers r service now) (counts recorded) := by
  induction recorded with
  | nil => exact Nat.le_refl 0
  | cons c recorded ih =>
    simp only [recordedIn, List.map_cons, List.sum_cons, counts, total_cons] at ih ⊢
    refine Nat.add_le_add ?_ ih
    split
    · rename_i hc
      obtain ⟨rfl, hp⟩ := hc
      rw [covers_of_inPeriod hp]
      exact Nat.le_refl _
    · exact Nat.zero_le _

/-- The answers so far count what they should, and the calls that a read has to count are all there. -/
structure Inv (w : World) : Prop where
  usage : ApiUsage.Inv w.usage
  readers : ∀ i x, w.readers i = some x → x.before ≤ total x.covers (counts w.usage.recorded)
  answers : ∀ a ∈ w.answers, a.before ≤ a.returned

namespace Inv

variable {w : World}

theorem init : Inv World.init := ⟨ApiUsage.Inv.init, fun i x h ↦ (by cases h), fun a h ↦ (by cases h)⟩

theorem reader_before (w : World) (r : Request) (service : Text) (now : Utc) (mono : Time) :
    (w.reader r service now mono).before ≤ total (w.reader r service now mono).covers (counts w.usage.recorded) :=
  recordedIn_le r service now w.usage.recorded

theorem reply (h : Inv w) {x : Reader} (hx : x.before ≤ total x.covers (counts w.usage.recorded)) {value : ℕ}
    (hs : x.request ≠ .warning → Settled w x value) : Inv (w.reply x value) := by
  rw [World.reply]
  split
  · exact h
  · rename_i hr
    obtain ⟨hvalue, hheld⟩ := hs hr
    refine ⟨h.usage, h.readers, ?_⟩
    intro a ha
    rcases List.mem_cons.mp ha with rfl | ha
    · have hc := h.usage.conserved x.covers
      dsimp only
      omega
    · exact h.answers a ha

theorem setReader (h : Inv w) (i : ℕ) {x : Option Reader}
    (hx : ∀ y, x = some y → y.before ≤ total y.covers (counts w.usage.recorded)) : Inv (w.setReader i x) := by
  refine ⟨h.usage, ?_, h.answers⟩
  intro j y hy
  simp only [World.setReader, Function.update_apply] at hy
  split at hy
  · exact hx y hy
  · exact h.readers j y hy

theorem store (h : Inv w) (x : Reader) (value : ℕ) : Inv (w.store x value) := by
  rw [World.store]
  split
  · exact ⟨h.usage, h.readers, h.answers⟩
  · exact h

theorem step (h : Inv w) (e : Event) (he : Undisturbed w e) : Inv (step w e) := by
  cases e with
  | usage e =>
    refine ⟨h.usage.step e, ?_, h.answers⟩
    intro i x hx
    exact (h.readers i x hx).trans (total_recorded_step w.usage e x.covers)
  | read i r service now mono =>
    rw [UsageReads.step]
    split
    · exact h
    · rename_i hfree
      have hfree : (w.readers i).isSome = false := Bool.eq_false_iff.mpr hfree
      dsimp only
      split
      · rename_i value hv
        exact h.reply (reader_before w r service now mono) fun hr ↦ he hfree hr value hv
      · refine h.setReader i ?_
        intro y hy
        obtain rfl := Option.some.inj hy
        exact reader_before w r service now mono
  | query i =>
    rw [UsageReads.step]
    split
    · rename_i x hx
      split
      · exact h
      · refine h.setReader i ?_
        intro y hy
        obtain rfl := Option.some.inj hy
        exact h.readers i x hx
    · exact h
  | answer i =>
    rw [UsageReads.step]
    split
    · rename_i x hx
      split
      · rename_i value hv
        have hstore := h.store x value
        have hbefore := h.readers i x hx
        have hsettled : x.request ≠ .warning → Settled w x value := fun hr ↦ he x hx hr value hv
        have hsame : (w.store x value).usage = w.usage := by
          rw [World.store]
          split <;> rfl
        refine (hstore.reply (hsame ▸ hbefore) ?_).setReader i fun y hy ↦ by cases hy
        intro hr
        rw [Settled, hsame]
        exact hsettled hr
      · exact h
    · exact h

end Inv

/-- Where no flush comes between the committed part of a read and its buffered part, no read counts less than
was recorded in its period before it began. -/
theorem reads_count_all (events before : List Event) (h : Along step Undisturbed World.init events)
    (hb : before <+: events) : ∀ a ∈ (run step World.init before).answers, a.before ≤ a.returned := by
  have hinv : Inv (run step World.init before) := by
    refine run_prefix_induction ?_ Inv.init h hb
    intro w e hw he
    exact hw.step e he
  exact hinv.answers

def virustotal : Text := "virustotal".toList

def get (i : ℕ) (mono : Time) : Event := .read i .getTodayUsage virustotal newYear mono

/-- One call, flushed while the committed count of the read before is still in the cache. -/
def staleCache : List Event :=
  [get 0 10, .query 0, .answer 0, .usage (.record virustotal 1 newYear), .usage (.wake 0), .usage (.take 0),
    .usage (.commit 0), .usage (.close 0), get 1 11]

/-- One call, in the batch of a flush that has not committed. -/
def heldBatch : List Event :=
  [.usage (.record virustotal 1 newYear), .usage (.wake 0), .usage (.take 0), get 0 10, .query 0, .answer 0]

theorem reads_undercount :
    (run step World.init staleCache).answers.any (fun a ↦ decide (a.returned < a.before)) = true ∧
      (run step World.init heldBatch).answers.any (fun a ↦ decide (a.returned < a.before)) = true := by
  constructor <;> decide +kernel

/-- One call in the table and one in the buffer. -/
def settledRead : List Event :=
  [.usage (.record virustotal 1 newYear), .usage (.wake 0), .usage (.take 0), .usage (.commit 0), .usage (.close 0),
    .usage (.record virustotal 1 newYear), get 0 10, .query 0, .answer 0]

theorem settledRead_counts_all :
    (run step World.init settledRead).answers.map Answer.before = [2] ∧
      ∀ a ∈ (run step World.init settledRead).answers, a.before ≤ a.returned := by
  have hrun : Along step Undisturbed World.init settledRead := by decide +kernel
  exact ⟨by decide +kernel, reads_count_all settledRead _ hrun List.prefix_rfl⟩

end Briefr.Tracking.UsageReads

namespace Briefr.Tracking.Periods

open Briefr.Python Briefr.Tracking.UsageReads

/-- A time that `datetime` has; its first year is 1. -/
structure Instant extends Utc where
  year_pos : 1 ≤ date.year

/-- The year and month, the first day of the week, the day, or the hour of that day. -/
def period (r : Request) (t : Utc) : ℕ × ℕ × ℕ × ℕ :=
  match r with
  | .getHourUsage | .warning => (t.date.year, t.date.month, t.date.day, t.hour)
  | .getTodayUsage => (t.date.year, t.date.month, t.date.day, 0)
  | .getWeekUsage => (t.date.weekStart.year, t.date.weekStart.month, t.date.weekStart.day, 0)
  | .getMonthUsage => (t.date.year, t.date.month, 0, 0)

/-- No more than `n` days before a day of the year 1 or later. -/
def Near (n : ℕ) (d : Date) : Prop := 1 ≤ d.year ∨ d.year = 0 ∧ d.month = 12 ∧ 31 ≤ d.day + n

theorem dayBefore_before {n : ℕ} {d : Date} (h : Near n d) (hn : n < 7) : d.dayBefore.before d ∧ Near (n + 1) d.dayBefore := by
  unfold Near at h ⊢
  unfold Date.dayBefore Date.before
  split
  · dsimp only
    omega
  · split
    · dsimp only
      omega
    · dsimp only
      omega

theorem iterate_dayBefore {d : Date} (h : 1 ≤ d.year) (n : ℕ) (hn : n ≤ 7) :
    Near n (Date.dayBefore^[n] d) ∧ ¬d.before (Date.dayBefore^[n] d) := by
  induction n with
  | zero =>
    refine ⟨.inl h, ?_⟩
    simp only [Function.iterate_zero, id_eq, Date.before]
    omega
  | succ n ih =>
    obtain ⟨hnear, hle⟩ := ih (Nat.le_of_succ_le hn)
    obtain ⟨hlt, hnext⟩ := dayBefore_before hnear hn
    rw [Function.iterate_succ_apply']
    refine ⟨hnext, ?_⟩
    unfold Date.before at hlt hle ⊢
    omega

/-- A week begins on one of its days or before it. -/
theorem not_before_weekStart {d : Date} (h : 1 ≤ d.year) : ¬d.before d.weekStart :=
  (iterate_dayBefore h d.weekday (Nat.le_of_lt (Nat.mod_lt _ (by decide)))).2

theorem date_eq {a b : Date} (hy : a.year = b.year) (hm : a.month = b.month) (hd : a.day = b.day) : a = b := by
  cases a
  cases b
  obtain rfl : _ = _ := hy
  obtain rfl : _ = _ := hm
  obtain rfl : _ = _ := hd
  rfl

theorem inPeriod_of_period_eq {r : Request} {now : Utc} {time : Instant} (h : period r time.toUtc = period r now) :
    inPeriod r now time.toUtc = true := by
  cases r with
  | getHourUsage | warning =>
    simp only [period, Prod.mk.injEq] at h
    exact decide_eq_true ⟨date_eq h.1 h.2.1 h.2.2.1, h.2.2.2⟩
  | getTodayUsage =>
    simp only [period, Prod.mk.injEq, and_true] at h
    exact decide_eq_true (date_eq h.1 h.2.1 h.2.2)
  | getWeekUsage =>
    simp only [period, Prod.mk.injEq, and_true] at h
    have hstart : time.date.weekStart = now.date.weekStart := date_eq h.1 h.2.1 h.2.2
    apply decide_eq_true
    rw [← hstart]
    exact not_before_weekStart time.year_pos
  | getMonthUsage =>
    simp only [period, Prod.mk.injEq, and_true] at h
    exact decide_eq_true ⟨h.1, h.2⟩

/-- A call that was recorded in the period is counted in it. -/
theorem covers_of_period_eq {r : Request} {service : Text} {now : Utc} {time : Instant}
    (h : period r time.toUtc = period r now) : covers r service now (ApiUsage.keyAt service time.toUtc) = true :=
  covers_of_inPeriod (inPeriod_of_period_eq h)

/-- What a read counts where nothing is with a flush and the committed part is up to date. -/
theorem total_of_settled {w : World} {x : Reader} {value : ℕ} (h : ApiUsage.Inv w.usage) (hs : Settled w x value) :
    value + Library.Counters.total x.covers w.usage.pending =
      Library.Counters.total x.covers (ApiUsage.counts w.usage.recorded) := by
  obtain ⟨hvalue, hheld⟩ := hs
  have hc := h.conserved x.covers
  omega

theorem reply_usage (w : World) (x : Reader) (n : ℕ) : (w.reply x n).usage = w.usage := by
  rw [World.reply]
  split <;> rfl

theorem store_usage (w : World) (x : Reader) (n : ℕ) : (w.store x n).usage = w.usage := by
  rw [World.store]
  split <;> rfl

/-- Reads move the caches only. -/
theorem usage_of_read (w : World) (e : UsageReads.Event) (he : ∀ e', e ≠ .usage e') :
    (UsageReads.step w e).usage = w.usage := by
  cases e with
  | usage e => exact absurd rfl (he e)
  | read i r service now mono =>
    simp only [UsageReads.step]
    split
    · rfl
    · split
      · exact reply_usage _ _ _
      · rfl
  | query i =>
    simp only [UsageReads.step]
    split
    · split <;> rfl
    · rfl
  | answer i =>
    simp only [UsageReads.step]
    split
    · split
      · exact (reply_usage _ _ _).trans (store_usage _ _ _)
      · rfl
    · rfl

theorem usage_inv {w : World} (h : ApiUsage.Inv w.usage) (e : UsageReads.Event) : ApiUsage.Inv (UsageReads.step w e).usage := by
  cases e with
  | usage e => exact h.step e
  | _ => rwa [usage_of_read w _ (by simp)]

theorem total_counts_mono (w : World) (e : UsageReads.Event) (test : ApiUsage.Key → Bool) :
    Library.Counters.total test (ApiUsage.counts w.usage.recorded) ≤
      Library.Counters.total test (ApiUsage.counts (UsageReads.step w e).usage.recorded) := by
  cases e with
  | usage e => exact ApiUsage.total_recorded_step w.usage e test
  | _ => rw [usage_of_read w _ (by simp)]

end Briefr.Tracking.Periods
