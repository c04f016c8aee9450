import Briefr.Library.Runs
import Briefr.Python.Value
import Mathlib.Logic.Function.Basic

namespace Briefr.Webhooks.AtMostOnce

open Briefr.Python Briefr.Library Briefr.Library.Runs

/-- `STRANDED_DEDUPE_GRACE_HOURS`, in seconds. -/
def grace : ℕ := 3600

/-- `WEBHOOK_DELIVERY_LOG_RETENTION_DAYS`, in seconds. -/
def retention : ℕ := 30 * 24 * 3600

/-- Where one `dispatch_event` stands, and the destinations still before it. -/
inductive Phase
  | next (rest : List Text)
  | delivering (id : Text) (rest : List Text)
  | recording (id : Text) (ok : Bool) (rest : List Text)
  | clearing (id : Text) (rest : List Text)
  deriving DecidableEq

/-- The destination for which the dispatch has written a claim that it is not done with. -/
def Phase.busy : Phase → Option Text
  | .next _ => none
  | .delivering id _ | .recording id _ _ | .clearing id _ => some id

/-- The same where the destination has not taken the message. -/
def Phase.owing : Phase → Option Text
  | .delivering id _ | .recording id false _ | .clearing id _ => some id
  | .next _ | .recording _ true _ => none

/-- The rows of one event type and key: the claims with their `recorded_at`, and the successful
deliveries in the log with their `attempted_at`. Beside them the history: how often each
destination took the message, and where a dispatch ended before it logged that. -/
structure World where
  clock : ℕ
  claims : Text → Option ℕ
  okLog : List (Text × ℕ)
  tasks : ℕ → Option Phase
  received : Text → ℕ
  unlogged : List Text

def World.init (clock : ℕ) : World := ⟨clock, fun _ ↦ none, [], fun _ ↦ none, fun _ ↦ 0, []⟩

/-- `works` says whether the `INSERT` of a claim runs; SQLite's failure is answered as "already sent".
A retention job carries the time at which it computed its cutoffs. -/
inductive Event
  | start (task : ℕ) (ids : List Text)
  | claim (task : ℕ) (works : Bool)
  | deliver (task : ℕ) (ok : Bool)
  | record (task : ℕ)
  | clear (task : ℕ)
  | die (task : ℕ)
  | sweep (started : ℕ)
  | purge (started : ℕ)
  | tick (seconds : ℕ)

def World.setTask (w : World) (task : ℕ) (phase : Option Phase) : World :=
  { w with tasks := Function.update w.tasks task phase }

def World.setClaim (w : World) (id : Text) (recorded : Option ℕ) : World :=
  { w with claims := Function.update w.claims id recorded }

def start (w : World) (task : ℕ) (ids : List Text) : World :=
  match w.tasks task with
  | none => w.setTask task (some (.next ids))
  | some _ => w

def claim (w : World) (task : ℕ) (works : Bool) : World :=
  match w.tasks task with
  | some (.next (id :: rest)) =>
    if works = true ∧ w.claims id = none then
      (w.setClaim id (some w.clock)).setTask task (some (.delivering id rest))
    else w.setTask task (some (.next rest))
  | _ => w

def deliver (w : World) (task : ℕ) (ok : Bool) : World :=
  match w.tasks task with
  | some (.delivering id rest) =>
    let w := w.setTask task (some (.recording id ok rest))
    if ok then { w with received := Function.update w.received id (w.received id + 1) } else w
  | _ => w

def record (w : World) (task : ℕ) : World :=
  match w.tasks task with
  | some (.recording id true rest) =>
    { w with okLog := (id, w.clock) :: w.okLog }.setTask task (some (.next rest))
  | some (.recording id false rest) => w.setTask task (some (.clearing id rest))
  | _ => w

def clear (w : World) (task : ℕ) : World :=
  match w.tasks task with
  | some (.clearing id rest) => (w.setTask task (some (.next rest))).setClaim id none
  | _ => w

/-- An exception, a cancellation or the end of the process. -/
def die (w : World) (task : ℕ) : World :=
  match w.tasks task with
  | some (.recording id true _) => { w with unlogged := id :: w.unlogged }.setTask task none
  | _ => w.setTask task none

/-- The rows that `purge_stranded_webhook_dedupe` deletes. -/
def stranded (w : World) (started : ℕ) (id : Text) (recorded : ℕ) : Prop :=
  recorded + grace < started ∧ started ≤ recorded + retention ∧ ∀ row ∈ w.okLog, row.1 ≠ id

instance (w : World) (started : ℕ) (id : Text) (recorded : ℕ) : Decidable (stranded w started id recorded) :=
  inferInstanceAs (Decidable (_ ∧ _ ∧ _))

def sweep (w : World) (started : ℕ) : World :=
  { w with claims := fun id ↦ (w.claims id).filter fun recorded ↦ !decide (stranded w started id recorded) }

/-- `purge_old_webhook_delivery_log`. -/
def purge (w : World) (started : ℕ) : World :=
  { w with okLog := w.okLog.filter fun row ↦ !decide (row.2 + retention < started) }

def step (w : World) : Event → World
  | .start task ids => start w task ids
  | .claim task works => claim w task works
  | .deliver task ok => deliver w task ok
  | .record task => record w task
  | .clear task => clear w task
  | .die task => die w task
  | .sweep started => if started ≤ w.clock then sweep w started else w
  | .purge started => if started ≤ w.clock then purge w started else w
  | .tick seconds => { w with clock := w.clock + seconds }

/-- No dispatch is at work on the destination. -/
def World.Idle (w : World) (id : Text) : Prop := ∀ task p, w.tasks task = some p → p.busy ≠ some id

/-- The sweep deletes a claim only where no dispatch is at work on the destination, none ended
between a successful delivery and its log row, and the claim is still within the retention
window when the rows go. -/
def Careful (w : World) : Event → Prop
  | .sweep started => started ≤ w.clock → ∀ id recorded, w.claims id = some recorded → stranded w started id recorded →
      w.Idle id ∧ id ∉ w.unlogged ∧ w.clock ≤ recorded + retention
  | _ => True

/-- What keeps the claim of a destination that took the message from being swept. -/
def World.Kept (w : World) (id : Text) (recorded : ℕ) : Prop :=
  (id ∈ w.unlogged ∨ ∃ row ∈ w.okLog, row.1 = id ∧ recorded ≤ row.2) ∨
    (∃ task rest, w.tasks task = some (.recording id true rest)) ∨ recorded + retention < w.clock

structure Inv (w : World) : Prop where
  claimed : ∀ task p, w.tasks task = some p → ∀ id, p.busy = some id → w.claims id ≠ none
  alone : ∀ task p, w.tasks task = some p → ∀ other q, w.tasks other = some q → ∀ id, p.busy = some id →
    q.busy = some id → task = other
  owing : ∀ task p, w.tasks task = some p → ∀ id, p.owing = some id → w.received id = 0
  once : ∀ id, w.received id ≤ 1
  kept : ∀ id, w.received id ≠ 0 → ∃ recorded, w.claims id = some recorded ∧ w.Kept id recorded
  past : ∀ id recorded, w.claims id = some recorded → recorded ≤ w.clock

theorem inv_init (clock : ℕ) : Inv (.init clock) := by
  constructor <;> simp [World.init]

variable {w : World} {task : ℕ} {id : Text} {p : Phase}

theorem busy_of_owing (h : p.owing = some id) : p.busy = some id := by
  cases p with
  | next rest => simp [Phase.owing] at h
  | recording i ok rest => cases ok <;> simp_all [Phase.owing, Phase.busy]
  | delivering i rest | clearing i rest => exact h

/-- A task goes to a phase in which it is busy with nothing that another is busy with. -/
theorem Inv.setTask (h : Inv w) {phase : Option Phase}
    (hbusy : ∀ p, phase = some p → ∀ id, p.busy = some id → w.claims id ≠ none ∧
      ∀ other q, other ≠ task → w.tasks other = some q → q.busy ≠ some id)
    (howing : ∀ p, phase = some p → ∀ id, p.owing = some id → w.received id = 0)
    (hkept : ∀ id rest, w.tasks task = some (.recording id true rest) → phase = some (.recording id true rest) ∨
      ∀ recorded, w.claims id = some recorded → id ∈ w.unlogged ∨ ∃ row ∈ w.okLog, row.1 = id ∧ recorded ≤ row.2) :
    Inv (w.setTask task phase) where
  claimed := Tasks.forall_update (fun other q _ hq ↦ h.claimed other q hq) fun p hp id hb ↦ (hbusy p hp id hb).1
  alone := by
    apply Tasks.forall_update
    · intro other q hne hq
      apply Tasks.forall_update
      · intro other' q' _ hq'
        exact h.alone other q hq other' q' hq'
      · intro p hp id hb hb'
        exact absurd hb ((hbusy p hp id hb').2 other q hne hq)
    · intro p hp
      apply Tasks.forall_update
      · intro other q hne hq id hb hb'
        exact absurd hb' ((hbusy p hp id hb).2 other q hne hq)
      · exact fun _ _ _ _ _ ↦ rfl
  owing := Tasks.forall_update (fun other q _ hq ↦ h.owing other q hq) howing
  once := h.once
  kept := by
    intro id hr
    obtain ⟨recorded, hc, hk⟩ := h.kept id hr
    refine ⟨recorded, hc, ?_⟩
    rcases hk with hk | ⟨other, rest, ho⟩ | hk
    · exact .inl hk
    · by_cases hot : other = task
      · subst hot
        rcases hkept id rest ho with hp | hl
        · exact .inr (.inl ⟨other, rest, by simp [World.setTask, hp]⟩)
        · exact .inl (hl recorded hc)
      · exact .inr (.inl ⟨other, rest, by simpa [World.setTask, hot] using ho⟩)
    · exact .inr (.inr hk)
  past := h.past

/-- Claims may go where the destination is idle and has not taken the message. -/
theorem Inv.release (h : Inv w) {claims : Text → Option ℕ}
    (hc : ∀ id, claims id = w.claims id ∨ (claims id = none ∧ w.Idle id ∧ w.received id = 0)) :
    Inv { w with claims := claims } where
  claimed := by
    intro task p hp id hb
    rcases hc id with hc | ⟨_, hi, _⟩
    · exact hc.trans_ne (h.claimed task p hp id hb)
    · exact absurd hb (hi task p hp)
  alone := h.alone
  owing := h.owing
  once := h.once
  kept := by
    intro id hr
    rcases hc id with hc | ⟨_, _, h0⟩
    · obtain ⟨recorded, hr, hk⟩ := h.kept id hr
      exact ⟨recorded, hc.trans hr, hk⟩
    · exact absurd h0 hr
  past := by
    intro id recorded hr
    rcases hc id with hc | ⟨hn, _⟩
    · exact h.past id recorded (hc ▸ hr)
    · simp [hn] at hr

theorem Inv.start (h : Inv w) (task : ℕ) (ids : List Text) : Inv (start w task ids) := by
  unfold AtMostOnce.start
  split
  · rename_i ht
    apply h.setTask
    · intro p hp id hb
      simp [← Option.some.inj hp, Phase.busy] at hb
    · intro p hp id ho
      simp [← Option.some.inj hp, Phase.owing] at ho
    · intro id rest hr
      simp [ht] at hr
  · exact h

theorem Inv.next (h : Inv w) (hp : w.tasks task = some p) (hr : ∀ id rest, p ≠ .recording id true rest) (rest : List Text) :
    Inv (w.setTask task (some (.next rest))) := by
  apply h.setTask
  · intro q hq id hb
    simp [← Option.some.inj hq, Phase.busy] at hb
  · intro q hq id ho
    simp [← Option.some.inj hq, Phase.owing] at ho
  · intro id rest ht
    exact absurd (Option.some.inj (hp.symm.trans ht)) (hr id rest)

/-- What took the message has its claim, so a free destination has not. -/
theorem Inv.received_of_free (h : Inv w) (hf : w.claims id = none) : w.received id = 0 := by
  by_contra hr
  obtain ⟨recorded, hc, _⟩ := h.kept id hr
  simp [hf] at hc

theorem Inv.setClaim (h : Inv w) (hf : w.claims id = none) : Inv (w.setClaim id (some w.clock)) where
  claimed := by
    intro task p hp i hb
    by_cases hi : i = id
    · simp [World.setClaim, hi]
    · simpa [World.setClaim, hi] using h.claimed task p hp i hb
  alone := h.alone
  owing := h.owing
  once := h.once
  kept := by
    intro i hr
    have hi : i ≠ id := by
      intro hi
      subst hi
      exact hr (h.received_of_free hf)
    obtain ⟨recorded, hc, hk⟩ := h.kept i hr
    exact ⟨recorded, by simpa [World.setClaim, hi] using hc, hk⟩
  past := by
    intro i recorded hr
    by_cases hi : i = id
    · simp only [World.setClaim, hi, Function.update_self] at hr
      exact (Option.some.inj hr).ge
    · simp only [World.setClaim, ne_eq, hi, not_false_eq_true, Function.update_of_ne] at hr
      exact h.past i recorded hr

theorem Inv.claim (h : Inv w) (task : ℕ) (works : Bool) : Inv (claim w task works) := by
  unfold AtMostOnce.claim
  split
  · rename_i id rest ht
    split
    · rename_i hf
      apply (h.setClaim hf.2).setTask
      · intro p hp i hb
        obtain rfl : id = i := by simpa [← Option.some.inj hp, Phase.busy] using hb
        refine ⟨by simp [World.setClaim], ?_⟩
        intro other q _ hq hb'
        exact h.claimed other q hq id hb' hf.2
      · intro p hp i ho
        obtain rfl : id = i := by simpa [← Option.some.inj hp, Phase.owing] using ho
        exact h.received_of_free hf.2
      · intro i rest' hr
        simp [World.setClaim, ht] at hr
    · exact h.next ht (by simp) rest
  · exact h

theorem Inv.keepBusy (h : Inv w) (hp : w.tasks task = some p) (hb : p.busy = some id) {q : Phase} (hq : q.busy = some id)
    (ho : q.owing = some id → w.received id = 0) (hr : ∀ id rest, p ≠ .recording id true rest) :
    Inv (w.setTask task (some q)) := by
  apply h.setTask
  · intro x hx i hi
    obtain rfl := Option.some.inj hx
    obtain rfl : id = i := Option.some.inj (hq.symm.trans hi)
    refine ⟨h.claimed task p hp id hb, ?_⟩
    intro other x hne hx hbx
    exact hne (h.alone task p hp other x hx id hb hbx).symm
  · intro x hx i hi
    obtain rfl := Option.some.inj hx
    obtain rfl : id = i := Option.some.inj (hq.symm.trans (busy_of_owing hi))
    exact ho hi
  · intro i rest ht
    exact absurd (Option.some.inj (hp.symm.trans ht)) (hr i rest)

theorem Inv.receive (h : Inv w) {rest : List Text} (ht : w.tasks task = some (.recording id true rest))
    (h0 : w.received id = 0) : Inv { w with received := Function.update w.received id (w.received id + 1) } where
  claimed := h.claimed
  alone := h.alone
  owing := by
    intro other p hp i ho
    have hi : i ≠ id := by
      intro hi
      subst hi
      obtain rfl := h.alone task _ ht other p hp i rfl (busy_of_owing ho)
      obtain rfl := Option.some.inj (ht.symm.trans hp)
      simp [Phase.owing] at ho
    simpa [hi] using h.owing other p hp i ho
  once := by
    intro i
    by_cases hi : i = id
    · simp [hi, h0]
    · simpa [hi] using h.once i
  kept := by
    intro i hr
    by_cases hi : i = id
    · subst hi
      obtain ⟨recorded, hc⟩ := Option.ne_none_iff_exists'.mp (h.claimed task _ ht i rfl)
      exact ⟨recorded, hc, .inr (.inl ⟨task, rest, ht⟩)⟩
    · exact h.kept i (by simpa [hi] using hr)
  past := h.past

theorem Inv.deliver (h : Inv w) (task : ℕ) (ok : Bool) : Inv (deliver w task ok) := by
  unfold AtMostOnce.deliver
  split
  · rename_i id rest ht
    have h0 : w.received id = 0 := h.owing task _ ht id rfl
    have hnew : Inv (w.setTask task (some (.recording id ok rest))) :=
      h.keepBusy ht rfl rfl (fun _ ↦ h0) (by simp)
    cases ok with
    | true =>
      have hat : (w.setTask task (some (.recording id true rest))).tasks task = some (.recording id true rest) := by
        simp [World.setTask]
      exact hnew.receive hat h0
    | false => exact hnew
  · exact h

theorem Inv.note (h : Inv w) {okLog : List (Text × ℕ)} {unlogged : List Text} (hl : ∀ row ∈ w.okLog, row ∈ okLog)
    (hu : ∀ id ∈ w.unlogged, id ∈ unlogged) : Inv { w with okLog := okLog, unlogged := unlogged } where
  claimed := h.claimed
  alone := h.alone
  owing := h.owing
  once := h.once
  kept := by
    intro id hr
    obtain ⟨recorded, hc, hk⟩ := h.kept id hr
    refine ⟨recorded, hc, ?_⟩
    rcases hk with (hk | ⟨row, hm, hk⟩) | hk
    · exact .inl (.inl (hu id hk))
    · exact .inl (.inr ⟨row, hl row hm, hk⟩)
    · exact .inr hk
  past := h.past

theorem Inv.record (h : Inv w) (task : ℕ) : Inv (record w task) := by
  unfold AtMostOnce.record
  split
  · rename_i id rest ht
    have hlog : Inv { w with okLog := (id, w.clock) :: w.okLog } :=
      h.note (fun _ hm ↦ List.mem_cons_of_mem _ hm) fun _ hm ↦ hm
    apply hlog.setTask
    · intro p hp i hb
      simp [← Option.some.inj hp, Phase.busy] at hb
    · intro p hp i ho
      simp [← Option.some.inj hp, Phase.owing] at ho
    · intro i rest' hr
      obtain ⟨rfl, _⟩ : id = i ∧ rest = rest' := by simpa [ht] using hr
      refine .inr fun recorded hc ↦ .inr ⟨(id, w.clock), List.mem_cons_self, rfl, h.past id recorded hc⟩
  · rename_i id rest ht
    exact h.keepBusy ht rfl rfl (fun _ ↦ h.owing task _ ht id rfl) (by simp)
  · exact h

theorem Inv.clear (h : Inv w) (task : ℕ) : Inv (clear w task) := by
  unfold AtMostOnce.clear
  split
  · rename_i id rest ht
    apply (h.next ht (by simp) rest).release
    intro i
    by_cases hi : i = id
    · subst hi
      refine .inr ⟨by simp, ?_, h.owing task _ ht i rfl⟩
      apply Tasks.forall_update
      · intro other q hne hq hb
        exact hne (h.alone task _ ht other q hq i rfl hb).symm
      · intro x hx
        simp [← Option.some.inj hx, Phase.busy]
    · exact .inl (by simp [hi, World.setTask])
  · exact h

theorem Inv.die (h : Inv w) (task : ℕ) : Inv (die w task) := by
  unfold AtMostOnce.die
  split
  · rename_i id rest ht
    have hnote : Inv { w with unlogged := id :: w.unlogged } :=
      h.note (fun _ hm ↦ hm) fun _ hm ↦ List.mem_cons_of_mem _ hm
    apply hnote.setTask (by simp) (by simp)
    intro i rest' hr
    obtain ⟨rfl, _⟩ : id = i ∧ rest = rest' := by simpa [ht] using hr
    exact .inr fun _ _ ↦ .inl List.mem_cons_self
  · rename_i hne
    apply h.setTask (by simp) (by simp)
    intro id rest ht
    exact absurd ht (hne id rest)

theorem Inv.sweep (h : Inv w) {started : ℕ} (hs : started ≤ w.clock) (hc : Careful w (.sweep started)) :
    Inv (sweep w started) := by
  apply h.release
  intro id
  cases hr : w.claims id with
  | none => exact .inl rfl
  | some recorded =>
    by_cases hst : stranded w started id recorded
    · obtain ⟨hi, hu, hw⟩ := hc hs id recorded hr hst
      refine .inr ⟨by simp [hst], hi, ?_⟩
      -- each of the ways to keep the claim of a destination that took the message is excluded
      by_contra h0
      obtain ⟨recorded', hr', hk⟩ := h.kept id h0
      obtain rfl := Option.some.inj (hr.symm.trans hr')
      rcases hk with (hk | ⟨row, hm, hk, _⟩) | ⟨task, rest, ht⟩ | hk
      · exact hu hk
      · exact hst.2.2 row hm hk
      · exact hi task _ ht rfl
      · omega
    · exact .inl (by simp [hst])

theorem Inv.purge (h : Inv w) {started : ℕ} (hs : started ≤ w.clock) : Inv (purge w started) where
  claimed := h.claimed
  alone := h.alone
  owing := h.owing
  once := h.once
  kept := by
    intro id hr
    obtain ⟨recorded, hc, hk⟩ := h.kept id hr
    refine ⟨recorded, hc, ?_⟩
    rcases hk with (hk | ⟨row, hm, hk, hle⟩) | hk
    · exact .inl (.inl hk)
    · by_cases hold : row.2 + retention < started
      -- the claim is no younger than the row, so it has left the window as well
      · exact .inr (.inr (by simp only [AtMostOnce.purge]; omega))
      · exact .inl (.inr ⟨row, List.mem_filter.mpr ⟨hm, by simpa using hold⟩, hk, hle⟩)
    · exact .inr hk
  past := h.past

theorem Inv.tick (h : Inv w) (seconds : ℕ) : Inv { w with clock := w.clock + seconds } where
  claimed := h.claimed
  alone := h.alone
  owing := h.owing
  once := h.once
  kept := by
    intro id hr
    obtain ⟨recorded, hc, hk⟩ := h.kept id hr
    refine ⟨recorded, hc, ?_⟩
    rcases hk with hk | hk | hk
    · exact .inl hk
    · exact .inr (.inl hk)
    · exact .inr (.inr (by simp only; omega))
  past := by
    intro id recorded hr
    exact (h.past id recorded hr).trans (Nat.le_add_right _ _)

theorem Inv.step (h : Inv w) (e : Event) (hc : Careful w e) : Inv (step w e) := by
  cases e with
  | start task ids => exact h.start task ids
  | claim task works => exact h.claim task works
  | deliver task ok => exact h.deliver task ok
  | record task => exact h.record task
  | clear task => exact h.clear task
  | die task => exact h.die task
  | sweep started =>
    rw [AtMostOnce.step]
    split
    · rename_i hs
      exact h.sweep hs hc
    · exact h
  | purge started =>
    rw [AtMostOnce.step]
    split
    · rename_i hs
      exact h.purge hs
    · exact h
  | tick seconds => exact h.tick seconds

theorem delivered_at_most_once (clock : ℕ) (events before : List Event) (h : Along step Careful (.init clock) events)
    (hb : before <+: events) (id : Text) : (run step (.init clock) before).received id ≤ 1 :=
  (run_prefix_induction (fun _ e hi hc ↦ hi.step e hc) (inv_init clock) h hb).once id

section Samples

def sampleId : Text := "discord"

/-- One dispatcher dies with its claim, the sweep frees the destination, and another delivers. -/
def crashed : List Event :=
  [.start 1 [sampleId], .claim 1 true, .die 1, .tick 3601, .sweep 3601, .start 2 [sampleId], .claim 2 true,
    .deliver 2 true, .record 2]

theorem crashed_careful : Along step Careful (.init 0) crashed := by
  have hidle : ∀ id, (run step (.init 0) [.start 1 [sampleId], .claim 1 true, .die 1, .tick 3601]).Idle id := by
    intro id task p hp
    simp [step, AtMostOnce.start, AtMostOnce.claim, AtMostOnce.die, World.setTask, World.setClaim, World.init] at hp
  refine ⟨trivial, trivial, trivial, trivial, ?_, trivial, trivial, trivial, trivial, trivial⟩
  intro _ id recorded _ hst
  exact ⟨hidle id, List.not_mem_nil, hst.2.1⟩

theorem crashed_delivers_once : (run step (.init 0) crashed).received sampleId = 1 ∧
    (run step (.init 0) crashed).received sampleId ≤ 1 :=
  ⟨by decide +kernel, delivered_at_most_once 0 crashed crashed crashed_careful (List.prefix_refl _) sampleId⟩

/-- The first delivery waits for more than an hour. -/
def waiting : List Event :=
  [.start 1 [sampleId], .claim 1 true, .tick 3601, .sweep 3601, .start 2 [sampleId], .claim 2 true, .deliver 2 true,
    .record 2, .deliver 1 true]

theorem waiting_delivers_twice : ¬∀ before, before <+: waiting → (run step (.init 0) before).received sampleId ≤ 1 := by
  intro h
  have ht := h waiting (List.prefix_refl _)
  revert ht
  decide +kernel

end Samples

end Briefr.Webhooks.AtMostOnce
