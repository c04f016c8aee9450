import Briefr.Outbound.ApiQueue

namespace Briefr.Outbound.ResilientClient

open Briefr.Python Briefr.Outbound.Pacing Briefr.Outbound.ApiQueue

/-- `CIRCUIT_FAILURE_THRESHOLD` and `CIRCUIT_COOLDOWN_SECONDS`. -/
class Circuits where
  threshold : ℤ
  cooldown : Time

structure Health where
  lastSuccess : Option Time
  lastFailure : Option Time
  lastError : Option Text
  consecutiveFailures : ℕ
  circuitOpenUntil : Time

def Health.new : Health := ⟨none, none, none, 0, 0⟩

def recordSuccess (wall : Time) (h : Health) : Health :=
  { h with lastSuccess := some wall, consecutiveFailures := 0, circuitOpenUntil := 0, lastError := none }

def recordFailure [Circuits] (wall : Time) (error : Text) (cooldown : Option Time) (h : Health) : Health :=
  let failures := h.consecutiveFailures + 1
  { h with
    lastFailure := some wall
    lastError := some (error.take 300)
    consecutiveFailures := failures
    circuitOpenUntil :=
      if (failures : ℤ) ≥ Circuits.threshold then wall + cooldown.getD Circuits.cooldown else h.circuitOpenUntil }

def isCircuitOpen (h : Health) (wall : Time) : Bool := decide (h.circuitOpenUntil ≠ 0) && decide (wall < h.circuitOpenUntil)

/-- `reset_circuit` of a source that has a record. -/
def resetCircuit (h : Health) : Health := { h with circuitOpenUntil := 0, consecutiveFailures := 0, lastError := none }

/-- The parameters of `resilient_request`. -/
structure Call where
  source : Text
  retries : ℕ
  waitOnRateLimit : Bool
  waitOnCircuit : Bool
  recordClientError : Bool
  recordCircuit : Bool
  ignoreCircuit : Bool

def Call.isProbe (c : Call) : Bool := !c.recordCircuit && c.ignoreCircuit

inductive Reply
  | response (status : ℕ) (headers : Headers)
  | httpError (text : Text)
  | otherError

inductive Error
  | status (code : ℕ) (rateLimited : Bool)
  | httpError
  | other

/-- What an attempt leaves in the health record. -/
inductive Recording
  | nothing
  | success
  | failure (error : Text) (cooldown : Option Time)
  | clientError (error : Text)

inductive Next
  | backoff (seconds : Time)
  | raises (e : Error)
  | returns

structure Attempt where
  pauses : List (Time × WaitReason)
  recording : Recording
  next : Next

def retryBackoffSeconds : Time := 3 / 2

def retryableStatus : List ℕ := [500, 502, 503, 504]

/-- The exception of `raise_for_status`, with what `resilient_request` asks of a 403. -/
def statusError (status : ℕ) (h : Headers) : Error := .status status (decide (h.remaining = some "0".toList))

def httpText (status : ℕ) : Text := "HTTP ".toList ++ Nat.toDigits 10 status

section
variable [Interp] [Wire]

def retryAfterSeconds (h : Headers) (attempt : ℕ) (wall : Time) : Time :=
  let fallback := retryBackoffSeconds * 2 ^ attempt
  if strip h.retryAfter = [] then fallback
  else if parseDurationSeconds wall (strip h.retryAfter) > 0 then min (parseDurationSeconds wall (strip h.retryAfter)) 120
  else fallback

/-- One round of the loop of `_execute_request_attempt`. -/
def attemptOf [Circuits] (c : Call) (attempt : ℕ) (wall : Time) : Reply → Attempt
  | .otherError => ⟨[], .nothing, .raises .other⟩
  | .httpError text =>
    if attempt < c.retries then ⟨[], .nothing, .backoff (retryBackoffSeconds * 2 ^ attempt)⟩
    else ⟨[], .failure text none, .raises .httpError⟩
  | .response status headers =>
    let pauses := headerPauses headers none wall
    let wait := retryAfterSeconds headers attempt wall
    let failed := statusError status headers
    if status ∈ retryableStatus then
      if attempt < c.retries then ⟨[], .nothing, .backoff wait⟩
      else ⟨[], .failure (httpText status) (some (max wait Circuits.cooldown)), .raises failed⟩
    else if status = 429 then
      if attempt < c.retries then ⟨pauses, .nothing, .backoff wait⟩ else ⟨pauses, .nothing, .raises failed⟩
    else if status = 403 ∧ quotaAtMost 0 headers.remaining then
      if attempt < c.retries then ⟨pauses, .nothing, .backoff wait⟩ else ⟨pauses, .nothing, .raises failed⟩
    else if 500 ≤ status ∧ status < 600 then ⟨[], .failure (httpText status) none, .raises failed⟩
    else if 400 ≤ status ∧ status < 500 then
      ⟨if status = 403 then pauses else [], .clientError (httpText status), .raises failed⟩
    else ⟨pauses, .success, .returns⟩

end

def recordAttempt [Circuits] (c : Call) (wall : Time) (r : Recording) (h : Health) : Health :=
  match r with
  | .nothing => h
  | .success => if c.recordCircuit then recordSuccess wall h else h
  | .failure error cooldown => if c.recordCircuit then recordFailure wall error cooldown h else h
  | .clientError error => if c.recordClientError then { h with lastError := some error } else h

inductive Outcome
  | response
  | circuitOpen
  | error (e : Error)
  | cancelled

/-- The clocks of an instant: `time.monotonic` and `time.time`. -/
structure Instant where
  mono : Time
  wall : Time

/-- A task at the top of the loop of `resilient_request`, or at an `await` in it. -/
inductive Phase
  | top
  | circuitWait (resumeAt : Time)
  | queued
  | sending (attempt : ℕ)
  | backoff (attempt : ℕ) (resumeAt : Time)
  | done (o : Outcome)

def Error.isRateLimited : Error → Bool
  | .status code rateLimited => code == 429 || (code == 403 && rateLimited)
  | _ => false

/-- Where the call goes after an attempt. A rate-limited call starts again. -/
def phaseAfter (c : Call) (attempt : ℕ) (now : Instant) : Next → Phase
  | .backoff seconds => .backoff attempt (now.mono + seconds)
  | .returns => .done .response
  | .raises e => if c.waitOnRateLimit && e.isRateLimited then .top else .done (.error e)

/-- A task that starts a round of the loop. -/
def Phase.starts (now : Instant) : Phase → Bool
  | .top => true
  | .circuitWait resumeAt => decide (resumeAt ≤ now.mono)
  | _ => false

/-- The health records, and where each task is. -/
structure Client where
  health : Text → Health
  phases : ℕ → Phase

def Client.init : Client := ⟨fun _ ↦ .new, fun _ ↦ .top⟩

def Client.put (s : Client) (t : ℕ) (p : Phase) : Client := { s with phases := Function.update s.phases t p }

def Client.record (s : Client) (source : Text) (f : Health → Health) : Client :=
  { s with health := Function.update s.health source (f (s.health source)) }

/-- A step of a task between two awaits. Whether the queue grants a slot is part of the event. -/
inductive Event
  | top (t : ℕ) (now : Instant) (granted : Bool)
  | granted (t : ℕ)
  | reply (t : ℕ) (r : Reply) (now : Instant)
  | retry (t : ℕ) (now : Instant)
  | cancel (t : ℕ)
  | reset (source : Text)

def circuitBlocks (c : Call) (h : Health) (now : Instant) : Bool := isCircuitOpen h now.wall && !c.ignoreCircuit

/-- How long `resilient_request` waits for the circuit to close. -/
def circuitWaitSeconds (h : Health) (now : Instant) : Time := h.circuitOpenUntil - now.wall + 1 / 10

/-- The top of the loop: the circuit, then the queue. -/
def afterTop (c : Call) (h : Health) (now : Instant) (granted : Bool) : Phase :=
  if circuitBlocks c h now then
    if c.waitOnCircuit then .circuitWait (now.mono + circuitWaitSeconds h now) else .done .circuitOpen
  else if granted then .sending 0 else .queued

/-- Task `t` makes the request `calls t`. -/
def step [Interp] [Wire] [Circuits] (calls : ℕ → Call) (s : Client) : Event → Client
  | .top t now granted =>
    if (s.phases t).starts now then s.put t (afterTop (calls t) (s.health (calls t).source) now granted) else s
  | .granted t =>
    match s.phases t with
    | .queued => s.put t (.sending 0)
    | _ => s
  | .reply t r now =>
    match s.phases t with
    | .sending attempt =>
      let a := attemptOf (calls t) attempt now.wall r
      (s.record (calls t).source (recordAttempt (calls t) now.wall a.recording)).put t
        (phaseAfter (calls t) attempt now a.next)
    | _ => s
  | .retry t now =>
    match s.phases t with
    | .backoff attempt resumeAt => if resumeAt ≤ now.mono then s.put t (.sending (attempt + 1)) else s
    | _ => s
  | .cancel t =>
    match s.phases t with
    | .done _ => s
    | _ => s.put t (.done .cancelled)
  | .reset source => s.record source resetCircuit

end Briefr.Outbound.ResilientClient
