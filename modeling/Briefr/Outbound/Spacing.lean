import Briefr.Library.Runs
import Briefr.Outbound.ResilientClient

namespace Briefr.Outbound.Spacing

open Briefr.Python Briefr.Library.Runs Briefr.Outbound.Pacing Briefr.Outbound.ApiQueue
open Briefr.Outbound.ResilientClient (Call Client Instant Reply Phase Next Circuits attemptOf circuitBlocks circuitWaitSeconds)

/-- What `await_api_slot` keeps for its task. -/
structure Ticket where
  id : RequestId
  pacing : SourcePacing

/-- An HTTP request on the wire: its pacing key, when it starts, the interval that its task has read, and the
pause of the source at that moment. -/
structure Sent where
  key : Text
  time : Time
  interval : Time
  pauseUntil : Time

/-- The queue and the clients over it, with the requests that have been sent, newest first. -/
structure World where
  queue : Queue
  client : Client
  tickets : ℕ → Ticket
  sent : List Sent

def World.init : World := ⟨Queue.empty, Client.init, fun _ ↦ ⟨[], single 0⟩, []⟩

inductive Event
  | top (t : ℕ) (id : RequestId) (settings : Settings) (now : Instant)
  | poll (t : ℕ) (now : Instant)
  | reply (t : ℕ) (r : Reply) (now : Instant)
  | retry (t : ℕ) (now : Instant)
  | cancel (t : ℕ)
  | reset (source : Text)
  | pause (source : Text) (seconds : Time) (reason : WaitReason) (now : Instant)

def sending (queue : Queue) (key : Text) (ticket : Ticket) (now : Instant) : Sent :=
  ⟨key, now.mono, ticket.pacing.minIntervalSeconds, (queue.states key).pauseUntil⟩

def granted (queue : Queue) (source : Text) (ticket : Ticket) (now : Instant) : Bool :=
  grants queue ticket.pacing (resolvePacingKey source) now.mono

/-- One pass of `await_api_slot`. A task that gets its slot sends at once. -/
def World.pass (w : World) (source : Text) (ticket : Ticket) (queue : Queue) (now : Instant) : World :=
  let key := resolvePacingKey source
  { w with
    queue := ApiQueue.pass queue ticket.pacing key ticket.id now.mono
    sent := if granted queue source ticket now then sending queue key ticket now :: w.sent else w.sent }

def pauseAll (queue : Queue) (source : Text) (pauses : List (Time × WaitReason)) (now : Instant) : Queue :=
  pauses.foldl (fun q p ↦ scheduleSourcePause q source p.1 p.2 now.mono) queue

section
variable [Interp] [Wire] [Circuits] (calls : ℕ → Call)

/-- The top of the loop of `resilient_request`. -/
def World.top (w : World) (t : ℕ) (id : RequestId) (settings : Settings) (now : Instant) : World :=
  let c := calls t
  let health := w.client.health c.source
  if circuitBlocks c health now then
    { w with
      client := ResilientClient.step calls w.client (.top t now false)
      queue :=
        if c.waitOnCircuit then
          scheduleSourcePause w.queue c.source (circuitWaitSeconds health now) .circuitOpen now.mono
        else w.queue }
  else
    let ticket := ⟨id, getSourcePacing settings c.source⟩
    let queue := register w.queue c.source id
    let client := ResilientClient.step calls w.client (.top t now (granted queue c.source ticket now))
    { w with client, tickets := Function.update w.tickets t ticket }.pass c.source ticket queue now

/-- An attempt ends. Unless it is tried again in the slot, the `finally` releases the slot. -/
def World.reply (w : World) (t : ℕ) (attempt : ℕ) (r : Reply) (now : Instant) : World :=
  let c := calls t
  let a := attemptOf c attempt now.wall r
  let paused := pauseAll w.queue c.source a.pauses now
  { w with
    client := ResilientClient.step calls w.client (.reply t r now)
    queue :=
      match a.next with
      | .backoff _ => paused
      | .returns | .raises _ => releaseApiSlot paused c.source (some (w.tickets t).id) }

def step (w : World) : Event → World
  | .top t id settings now =>
    if (w.client.phases t).starts now ∧ (w.queue.requests id).isNone then w.top calls t id settings now else w
  | .poll t now =>
    match w.client.phases t with
    | .queued =>
      let c := calls t
      let ticket := w.tickets t
      let client :=
        if granted w.queue c.source ticket now then ResilientClient.step calls w.client (.granted t) else w.client
      { w with client }.pass c.source ticket w.queue now
    | _ => w
  | .reply t r now =>
    match w.client.phases t with
    | .sending attempt => w.reply calls t attempt r now
    | _ => w
  -- the back-off is over: the next attempt goes out in the same slot
  | .retry t now =>
    match w.client.phases t with
    | .backoff _ resumeAt =>
      if resumeAt ≤ now.mono then
        { w with
          client := ResilientClient.step calls w.client (.retry t now)
          sent := sending w.queue (resolvePacingKey (calls t).source) (w.tickets t) now :: w.sent }
      else w
    | _ => w
  | .cancel t =>
    let client := ResilientClient.step calls w.client (.cancel t)
    match w.client.phases t with
    | .queued => { w with client, queue := abandon w.queue (calls t).source (w.tickets t).id }
    | .sending _ | .backoff _ _ =>
      { w with client, queue := releaseApiSlot w.queue (calls t).source (some (w.tickets t).id) }
    | .top | .circuitWait _ | .done _ => { w with client }
  | .reset source => { w with client := ResilientClient.step calls w.client (.reset source) }
  | .pause source seconds reason now => { w with queue := scheduleSourcePause w.queue source seconds reason now.mono }

end

/-- Every request starts at least its interval after the one before it on its key, and not during a pause. -/
def Spaced : List Sent → Prop
  | [] => True
  | x :: earlier =>
    (∀ y ∈ earlier.find? fun y ↦ decide (y.key = x.key), y.time + x.interval ≤ x.time) ∧
      x.pauseUntil ≤ x.time ∧ Spaced earlier

instance : (l : List Sent) → Decidable (Spaced l)
  | [] => inferInstanceAs (Decidable True)
  | x :: earlier =>
    have : Decidable (Spaced earlier) := instDecidableSpaced earlier
    inferInstanceAs (Decidable ((∀ y ∈ earlier.find? fun y ↦ decide (y.key = x.key), y.time + x.interval ≤ x.time) ∧
      x.pauseUntil ≤ x.time ∧ Spaced earlier))

/-- A task sends again in the slot it was granted for its first attempt. -/
def RetriesInSlot (w : World) : Event → Prop
  | .retry t now => ∃ attempt resumeAt, w.client.phases t = .backoff attempt resumeAt ∧ resumeAt ≤ now.mono
  | _ => False

structure Inv (w : World) : Prop where
  spaced : Spaced w.sent
  last : ∀ key, ∀ y ∈ w.sent.find? fun y ↦ decide (y.key = key), y.time = (w.queue.states key).lastRequestAt

theorem pauseAll_lastRequestAt (queue : Queue) (key source : Text) (pauses : List (Time × WaitReason)) (now : Instant) :
    ((pauseAll queue source pauses now).states key).lastRequestAt = (queue.states key).lastRequestAt := by
  induction pauses generalizing queue with
  | nil => rfl
  | cons p pauses ih => exact (ih _).trans (scheduleSourcePause_lastRequestAt queue key source p.1 p.2 now.mono)

namespace Inv

variable {w w' : World}

theorem init : Inv World.init := ⟨trivial, by simp [World.init]⟩

theorem quiet (h : Inv w) (hs : w'.sent = w.sent)
    (hl : ∀ key, (w'.queue.states key).lastRequestAt = (w.queue.states key).lastRequestAt) : Inv w' where
  spaced := hs ▸ h.spaced
  last key y hy := by
    rw [hl]
    exact h.last key y (hs ▸ hy)

/-- The queue's gate is the spacing, as long as the last grant is the last request. -/
theorem pass (h : Inv w) (source : Text) (ticket : Ticket) {queue : Queue} (now : Instant)
    (hl : ∀ key, (queue.states key).lastRequestAt = (w.queue.states key).lastRequestAt) :
    Inv (w.pass source ticket queue now) := by
  cases hg : granted queue source ticket now with
  | true =>
    have hgate : earliest (queue.states (resolvePacingKey source)) ticket.pacing ≤ now.mono :=
      of_decide_eq_true (Bool.and_eq_true_iff.mp hg).2
    obtain ⟨hp, hi⟩ := max_le_iff.mp hgate
    have hq : ApiQueue.pass queue ticket.pacing (resolvePacingKey source) ticket.id now.mono =
        grant queue (resolvePacingKey source) ticket.id now.mono := pass_of_grants hg
    constructor
    · simp only [World.pass, hg, if_true]
      refine ⟨?_, hp, h.spaced⟩
      intro y hy
      rw [h.last _ y hy, ← hl]
      exact hi
    · intro key y hy
      simp only [World.pass, hg, if_true] at hy ⊢
      rw [hq, grant_lastRequestAt]
      by_cases hk : key = resolvePacingKey source
      · rw [List.find?_cons_of_pos (by simp [sending, hk])] at hy
        rw [if_pos hk, ← Option.some.inj hy]
        rfl
      · rw [List.find?_cons_of_neg (by simp [sending, Ne.symm hk])] at hy
        rw [if_neg hk, hl]
        exact h.last key y hy
  | false =>
    obtain ⟨state, reason, -, hq⟩ := pass_of_not_grants ticket.id hg
    refine h.quiet (by simp [World.pass, hg]) ?_
    intro key
    simp only [World.pass]
    rw [hq, keepWaiting_lastRequestAt, hl]

variable [Interp] [Wire] [Circuits] {calls : ℕ → Call}

theorem top (h : Inv w) (t : ℕ) (id : RequestId) (settings : Settings) (now : Instant) :
    Inv (w.top calls t id settings now) := by
  simp only [World.top]
  split
  · refine h.quiet rfl ?_
    intro key
    dsimp only
    split
    · rw [scheduleSourcePause_lastRequestAt]
    · rfl
  · have hw : Inv { w with
        client := ResilientClient.step calls w.client (.top t now (granted (register w.queue (calls t).source id)
          (calls t).source ⟨id, getSourcePacing settings (calls t).source⟩ now))
        tickets := Function.update w.tickets t ⟨id, getSourcePacing settings (calls t).source⟩ } :=
      h.quiet rfl fun _ ↦ rfl
    refine hw.pass (calls t).source _ now ?_
    intro key
    rw [register_lastRequestAt]

theorem reply (h : Inv w) (t attempt : ℕ) (r : Reply) (now : Instant) : Inv (w.reply calls t attempt r now) := by
  refine h.quiet rfl ?_
  intro key
  simp only [World.reply]
  split
  · exact pauseAll_lastRequestAt w.queue key (calls t).source _ now
  · rw [releaseApiSlot_lastRequestAt]
    exact pauseAll_lastRequestAt w.queue key (calls t).source _ now
  · rw [releaseApiSlot_lastRequestAt]
    exact pauseAll_lastRequestAt w.queue key (calls t).source _ now

theorem step (h : Inv w) (e : Event) (he : ¬RetriesInSlot w e) : Inv (step calls w e) := by
  cases e with
  | top t id settings now =>
    rw [Spacing.step]
    split
    · exact h.top t id settings now
    · exact h
  | poll t now =>
    rw [Spacing.step]
    cases w.client.phases t with
    | queued =>
      have hw : Inv { w with client := if granted w.queue (calls t).source (w.tickets t) now
          then ResilientClient.step calls w.client (.granted t) else w.client } := h.quiet rfl fun _ ↦ rfl
      exact hw.pass (calls t).source (w.tickets t) now fun _ ↦ rfl
    | top | circuitWait | sending | backoff | done => exact h
  | reply t r now =>
    rw [Spacing.step]
    cases w.client.phases t with
    | sending attempt => exact h.reply t attempt r now
    | top | circuitWait | queued | backoff | done => exact h
  | retry t now =>
    rw [Spacing.step]
    cases hp : w.client.phases t with
    | backoff attempt resumeAt =>
      have hlate : ¬resumeAt ≤ now.mono := fun hr ↦ he ⟨attempt, resumeAt, hp, hr⟩
      dsimp only
      rw [if_neg hlate]
      exact h
    | top | circuitWait | queued | sending | done => exact h
  | cancel t =>
    rw [Spacing.step]
    cases w.client.phases t with
    | queued => exact h.quiet rfl fun key ↦ abandon_lastRequestAt w.queue key _ _
    | sending | backoff => exact h.quiet rfl fun key ↦ releaseApiSlot_lastRequestAt w.queue key _ _
    | top | circuitWait | done => exact h.quiet rfl fun _ ↦ rfl
  | reset source => exact h.quiet rfl fun _ ↦ rfl
  | pause source seconds reason now =>
    exact h.quiet rfl fun key ↦ scheduleSourcePause_lastRequestAt w.queue key source seconds reason now.mono

end Inv

section
variable [Interp] [Wire] [Circuits]

theorem client_step (calls : ℕ → Call) (w : World) (e : Event) :
    ∃ steps, (step calls w e).client = run (ResilientClient.step calls) w.client steps := by
  cases e with
  | top t id settings now =>
    rw [step]
    split
    · rw [World.top]
      dsimp only
      split
      · exact ⟨[.top t now false], rfl⟩
      · exact ⟨[.top t now _], rfl⟩
    · exact ⟨[], rfl⟩
  | poll t now =>
    rw [step]
    cases w.client.phases t with
    | queued =>
      dsimp only [World.pass]
      split
      · exact ⟨[.granted t], rfl⟩
      · exact ⟨[], rfl⟩
    | top | circuitWait | sending | backoff | done => exact ⟨[], rfl⟩
  | reply t r now =>
    rw [step]
    cases w.client.phases t with
    | sending attempt => exact ⟨[.reply t r now], rfl⟩
    | top | circuitWait | queued | backoff | done => exact ⟨[], rfl⟩
  | retry t now =>
    rw [step]
    cases w.client.phases t with
    | backoff attempt resumeAt =>
      dsimp only
      split
      · exact ⟨[.retry t now], rfl⟩
      · exact ⟨[], rfl⟩
    | top | circuitWait | queued | sending | done => exact ⟨[], rfl⟩
  | cancel t =>
    rw [step]
    cases w.client.phases t with
    | top | circuitWait | queued | sending | backoff | done => exact ⟨[.cancel t], rfl⟩
  | reset source => exact ⟨[.reset source], rfl⟩
  | pause source seconds reason now => exact ⟨[], rfl⟩

/-- The clients' part of a run with the queue is a run of the clients. -/
theorem client_run (calls : ℕ → Call) (w : World) (events : List Event) :
    ∃ steps, (run (step calls) w events).client = run (ResilientClient.step calls) w.client steps := by
  induction events generalizing w with
  | nil => exact ⟨[], rfl⟩
  | cons e events ih =>
    obtain ⟨first, hfirst⟩ := client_step calls w e
    obtain ⟨rest, hrest⟩ := ih (step calls w e)
    refine ⟨first ++ rest, ?_⟩
    rw [run_cons, hrest, hfirst, run_append]

end

section
local instance : Interp := ascii fun _ ↦ none
local instance : Wire := plainWire
local instance : Circuits := ⟨3, 60⟩

def freeTier : Settings := ⟨.free, fun _ ↦ none, fun _ ↦ false, fun _ ↦ none⟩

def virustotal (_ : ℕ) : Call := ⟨"virustotal".toList, 2, true, false, true, true, false⟩

/-- A request is tried again 1.5 s after a transport error. -/
def transportRetry : List Event :=
  [.top 0 "a".toList freeTier ⟨100, 0⟩, .reply 0 (.httpError []) ⟨101, 1⟩, .retry 0 ⟨102.5, 2.5⟩]

/-- The server asks for 300 s of silence and gets 120 s. -/
def cappedWait : List Event :=
  [.top 0 "a".toList freeTier ⟨100, 0⟩,
    .reply 0 (.response 429 { noHeaders with retryAfter := "300".toList }) ⟨101, 1⟩, .retry 0 ⟨221, 121⟩]

/-- A request that fails for good, and the next one after the interval. -/
def singleAttempts : List Event :=
  [.top 0 "a".toList freeTier ⟨100, 0⟩, .reply 0 (.response 404 noHeaders) ⟨101, 1⟩, .top 1 "b".toList freeTier ⟨102, 2⟩,
    .poll 1 ⟨114, 14⟩, .poll 1 ⟨115, 15⟩]

end

end Briefr.Outbound.Spacing
