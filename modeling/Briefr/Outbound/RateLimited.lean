import Briefr.Outbound.ResilientClient
import Briefr.Outbound.SourcePauses

namespace Briefr.Outbound.RateLimited

open Briefr.Python Briefr.Outbound.Pacing Briefr.Outbound.Durations
open Briefr.Outbound.ApiQueue (Headers Queue noHeaders)
open Briefr.Outbound.SourcePauses (applyRateLimitHeaders HeadersReadable apply_returns)
open Briefr.Outbound.ResilientClient hiding retryAfterSeconds

section
variable [Interp] [HeaderReaders]

/-- The header says that nothing remains of the quota, as `_execute_request_attempt` reads it. -/
def quotaSpent (h : Headers) : Bool := (h.remaining.bind HeaderReaders.int).any fun n ↦ decide (n ≤ 0)

/-- `_retry_after_seconds`, with what the reader of durations raises. -/
def retryAfterSeconds (h : Headers) (attempt : ℕ) (wall : Time) : Py Time :=
  let fallback := retryBackoffSeconds * 2 ^ attempt
  if strip h.retryAfter = [] then .ok fallback
  else do
    match ← parseDurationSeconds wall (strip h.retryAfter) with
    | .finite x => return if 0 < x then min x 120 else fallback
    | .posInf => return 120
    | .negInf | .nan => return fallback

/-- What a round of the loop of `_execute_request_attempt` leaves, and where it goes. -/
structure Round where
  queue : Queue
  recording : Recording
  next : Next

/-- `await asyncio.sleep(...)` and `continue`. -/
def sleepAndContinue (q : Queue) : Py Time → Round
  | .ok seconds => ⟨q, .nothing, .backoff seconds⟩
  | .error _ => ⟨q, .nothing, .raises .other⟩

variable [Circuits] (c : Call) (attempt : ℕ) (now : Instant) (q : Queue)

def onRetryable (status : ℕ) (h : Headers) : Round :=
  let wait := retryAfterSeconds h attempt now.wall
  if attempt < c.retries then sleepAndContinue q wait
  else
    match wait with
    | .ok seconds =>
      ⟨q, .failure (httpText status) (some (max seconds Circuits.cooldown)), .raises (statusError status h)⟩
    | .error _ => ⟨q, .nothing, .raises .other⟩

def onTooManyRequests (h : Headers) : Round :=
  let applied := applyRateLimitHeaders ⟨now.mono, now.wall⟩ c.source h none q
  if applied.raised ≠ none then ⟨applied.queue, .nothing, .raises .other⟩
  else if attempt < c.retries then sleepAndContinue applied.queue (retryAfterSeconds h attempt now.wall)
  else ⟨applied.queue, .nothing, .raises (statusError 429 h)⟩

def onForbidden (h : Headers) : Round :=
  let applied := applyRateLimitHeaders ⟨now.mono, now.wall⟩ c.source h none q
  let clientError : Round := ⟨applied.queue, .clientError (httpText 403), .raises (statusError 403 h)⟩
  if applied.raised ≠ none then ⟨applied.queue, .nothing, .raises .other⟩
  else if quotaSpent h then
    if attempt < c.retries then
      match retryAfterSeconds h attempt now.wall with
      -- the `try` around `int(remaining)` covers the sleep too
      | .error .valueError => clientError
      | wait => sleepAndContinue applied.queue wait
    else ⟨applied.queue, .nothing, .raises (statusError 403 h)⟩
  else clientError

def onSuccess (h : Headers) : Round :=
  let applied := applyRateLimitHeaders ⟨now.mono, now.wall⟩ c.source h none q
  ⟨applied.queue, .success, if applied.raised ≠ none then .raises .other else .returns⟩

/-- One round of the loop of `_execute_request_attempt`; `attemptOf` is this round for headers that can be read. -/
def roundOf : Reply → Round
  | .otherError => ⟨q, .nothing, .raises .other⟩
  | .httpError text =>
    if attempt < c.retries then ⟨q, .nothing, .backoff (retryBackoffSeconds * 2 ^ attempt)⟩
    else ⟨q, .failure text none, .raises .httpError⟩
  | .response status h =>
    if status ∈ retryableStatus then onRetryable c attempt now q status h
    else if status = 429 then onTooManyRequests c attempt now q h
    else if status = 403 then onForbidden c attempt now q h
    else if 500 ≤ status ∧ status < 600 then ⟨q, .failure (httpText status) none, .raises (statusError status h)⟩
    else if 400 ≤ status ∧ status < 500 then ⟨q, .clientError (httpText status), .raises (statusError status h)⟩
    else onSuccess c now q h

end

/-- One call of `resilient_request` between two requests. -/
structure Session where
  queue : Queue
  health : Health
  phase : Phase

/-- The way from an `await` to the next request, when no other task is in the way. -/
def proceed (c : Call) (health : Health) (now : Instant) : Phase → Phase
  | .backoff attempt _ => .sending (attempt + 1)
  | .top => afterTop c health now true
  | p => p

def start (c : Call) (q : Queue) (health : Health) (now : Instant) : Session :=
  ⟨q, health, proceed c health now .top⟩

/-- A reply, and when it arrives. -/
structure Arrival where
  now : Instant
  reply : Reply

section
variable [Interp] [HeaderReaders] [Circuits]

def receive (c : Call) (s : Session) (a : Arrival) : Session :=
  match s.phase with
  | .sending attempt =>
    let r := roundOf c attempt a.now s.queue a.reply
    let health := recordAttempt c a.now.wall r.recording s.health
    ⟨r.queue, health, proceed c health a.now (phaseAfter c attempt a.now r.next)⟩
  | _ => s

def session (c : Call) (s : Session) (arrivals : List Arrival) : Session := arrivals.foldl (receive c) s

end

/-- A reply between the session that it finds and the one that it leaves. -/
structure Point where
  before : Session
  arrival : Arrival
  after : Session

section
variable [Interp] [HeaderReaders] [Circuits]

def points (c : Call) (s : Session) : List Arrival → List Point
  | [] => []
  | a :: arrivals => ⟨s, a, receive c s a⟩ :: points c (receive c s a) arrivals

end

def Succeeds : Reply → Prop
  | .response status _ => ¬(400 ≤ status ∧ status < 600)
  | _ => False

section
variable [HeaderReaders]

def Limited : Reply → Prop
  | .response status h => status = 429 ∨ status = 403 ∧ quotaSpent h = true
  | _ => False

/-- A rate-limited reply does not end the call, and a successful one is returned. -/
def Point.Served (p : Point) : Prop :=
  ∀ attempt, p.before.phase = .sending attempt →
    (Limited p.arrival.reply → ∃ next, p.after.phase = .sending next) ∧
    (Succeeds p.arrival.reply → p.after.phase = .done .response)

variable [Interp]

/-- The headers can be read, and a rate-limited 403 that comes when no retry is left says so with the text `0`. -/
def Clear (c : Call) (attempt : ℕ) : Reply → Prop
  | .response status h =>
    (Limited (.response status h) ∨ Succeeds (.response status h) → HeadersReadable h none) ∧
    (status = 403 → quotaSpent h = true → c.retries ≤ attempt → h.remaining = some "0".toList)
  | _ => True

def Point.Clear (c : Call) (p : Point) : Prop :=
  ∀ attempt, p.before.phase = .sending attempt → RateLimited.Clear c attempt p.arrival.reply

end

/-- The call makes another request after the round. -/
def GoesOn (c : Call) : Next → Prop
  | .backoff _ => True
  | .raises e => c.waitOnRateLimit = true ∧ e.isRateLimited = true
  | .returns => False

theorem phaseAfter_goesOn {c : Call} {next : Next} (h : GoesOn c next) (attempt : ℕ) (now : Instant) :
    (∃ n resumeAt, phaseAfter c attempt now next = .backoff n resumeAt) ∨ phaseAfter c attempt now next = .top := by
  cases next with
  | backoff seconds => exact .inl ⟨attempt, _, rfl⟩
  | returns => cases h
  | raises e =>
    refine .inr ?_
    rw [phaseAfter, h.1, h.2]
    rfl

theorem goesOn_of_sending {c : Call} {health : Health} {now : Instant} {next : Next} {attempt n : ℕ}
    (h : proceed c health now (phaseAfter c attempt now next) = .sending n) : GoesOn c next := by
  cases next with
  | backoff seconds => trivial
  | returns => cases h
  | raises e =>
    rw [phaseAfter] at h
    split at h
    next hlimited => exact Bool.and_eq_true_iff.mp hlimited
    next => cases h

theorem proceed_of_goesOn {c : Call} {health : Health} {now : Instant} {next : Next} {attempt : ℕ} (h : GoesOn c next)
    (hclosed : circuitBlocks c health now = false) :
    ∃ n, proceed c health now (phaseAfter c attempt now next) = .sending n := by
  obtain ⟨n, resumeAt, heq⟩ | heq := phaseAfter_goesOn h attempt now
  · exact ⟨n + 1, by rw [heq]; rfl⟩
  · refine ⟨0, ?_⟩
    rw [heq, proceed, afterTop, hclosed]
    rfl

theorem proceed_response_iff {c : Call} {health : Health} {now : Instant} {next : Next} (attempt : ℕ) :
    proceed c health now (phaseAfter c attempt now next) = .done .response ↔ next = .returns := by
  refine ⟨fun h ↦ ?_, fun h ↦ by rw [h]; rfl⟩
  cases next with
  | backoff seconds => cases h
  | returns => rfl
  | raises e =>
    rw [phaseAfter] at h
    split at h
    · rw [proceed, afterTop] at h
      split at h
      · split at h <;> cases h
      · cases h
    · cases h

theorem sleepAndContinue_recording (q : Queue) (wait : Py Time) : (sleepAndContinue q wait).recording = .nothing := by
  cases wait <;> rfl

/-- What is recorded says nothing about the circuit. -/
def Quiet (r : Recording) : Prop := r = .nothing ∨ ∃ error, r = .clientError error

theorem quiet_circuit [Circuits] (c : Call) {r : Recording} (hquiet : Quiet r) (wall : Time) (health : Health) :
    (recordAttempt c wall r health).circuitOpenUntil = health.circuitOpenUntil := by
  obtain rfl | ⟨error, rfl⟩ := hquiet
  · rfl
  · rw [recordAttempt]
    split <;> rfl

theorem statusError_not_limited {c : Call} {status : ℕ} (h : Headers) (h429 : status ≠ 429) (h403 : status ≠ 403) :
    ¬GoesOn c (.raises (statusError status h)) := by
  rintro ⟨-, hlimited⟩
  rw [statusError, Error.isRateLimited, beq_false_of_ne h429, beq_false_of_ne h403] at hlimited
  cases hlimited

theorem circuitBlocks_congr {c : Call} {h h' : Health} (heq : h.circuitOpenUntil = h'.circuitOpenUntil) (now : Instant) :
    circuitBlocks c h now = circuitBlocks c h' now := by
  rw [circuitBlocks, circuitBlocks, isCircuitOpen, isCircuitOpen, heq]

theorem not_succeeds_of_limited [HeaderReaders] {reply : Reply} (hlimited : Limited reply) : ¬Succeeds reply := by
  cases reply with
  | otherError => cases hlimited
  | httpError text => cases hlimited
  | response status h =>
    intro hsuccess
    obtain rfl | ⟨rfl, -⟩ := hlimited
    · exact hsuccess (by decide)
    · exact hsuccess (by decide)

theorem sleepAndContinue_ne_returns (q : Queue) (wait : Py Time) : (sleepAndContinue q wait).next ≠ .returns := by
  intro h
  cases wait <;> cases h

section
variable [Interp]

theorem parses_strip {text : Text} (h : Parses text) : Parses (strip text) := by
  intro u hu
  rw [strip_strip] at hu
  exact h u hu

variable [HeaderReaders]

/-- A `Retry-After` that `apply_rate_limit_headers` accepts can be read for the sleep too. -/
theorem retryAfterSeconds_of_parses {h : Headers} (hparses : Parses h.retryAfter) (attempt : ℕ) (wall : Time) :
    ∃ seconds, retryAfterSeconds h attempt wall = .ok seconds := by
  rw [retryAfterSeconds]
  split
  · exact ⟨_, rfl⟩
  · obtain ⟨x, hx⟩ := (parseDurationSeconds_ok_iff wall (strip h.retryAfter)).mpr (parses_strip hparses)
    rw [hx, ok_bind]
    split <;> exact ⟨_, rfl⟩

/-- The seconds of a duration, where every pause is capped. -/
def cappedSeconds : PyFloat → Time
  | .finite x => x
  | .posInf => ApiQueue.maxSourcePauseSeconds
  | .negInf | .nan => 0

/-- The readers of headers, where nothing raises. -/
@[reducible] def totalWire : ApiQueue.Wire where
  parseDurationSeconds wall text := (parseDurationSeconds wall text).toOption.elim 0 cappedSeconds
  int := HeaderReaders.int
  float text := (HeaderReaders.float text).map cappedSeconds

theorem retryAfterSeconds_total {h : Headers} (hparses : Parses h.retryAfter) (attempt : ℕ) (wall : Time) :
    retryAfterSeconds h attempt wall = .ok (@ResilientClient.retryAfterSeconds _ totalWire h attempt wall) := by
  dsimp only [retryAfterSeconds, ResilientClient.retryAfterSeconds]
  split
  next => rfl
  next =>
    obtain ⟨x, hx⟩ := (parseDurationSeconds_ok_iff wall (strip h.retryAfter)).mpr (parses_strip hparses)
    have htotal : @ApiQueue.Wire.parseDurationSeconds totalWire wall (strip h.retryAfter) = cappedSeconds x := by
      have hdef : @ApiQueue.Wire.parseDurationSeconds totalWire wall (strip h.retryAfter) =
          (parseDurationSeconds wall (strip h.retryAfter)).toOption.elim 0 cappedSeconds := rfl
      rw [hdef, hx]
      rfl
    rw [hx, ok_bind, htotal]
    cases x with
    | finite x => rfl
    | posInf =>
      have hpos : (0 : ℚ) < 3600 := by decide
      have hmin : min (3600 : ℚ) 120 = 120 := by decide
      exact congrArg Except.ok ((if_pos hpos).trans hmin).symm
    | negInf => exact congrArg Except.ok (if_neg (lt_irrefl (0 : ℚ))).symm
    | nan => exact congrArg Except.ok (if_neg (lt_irrefl (0 : ℚ))).symm

theorem applied_none_iff (c : Call) (now : Instant) (q : Queue) (h : Headers) :
    (applyRateLimitHeaders ⟨now.mono, now.wall⟩ c.source h none q).raised = none ↔ HeadersReadable h none :=
  apply_returns ⟨now.mono, now.wall⟩ c.source h none q

variable {c : Call} {attempt : ℕ} {now : Instant} {q : Queue}

theorem onTooManyRequests_goesOn_iff (hwait : c.waitOnRateLimit = true) (h : Headers) :
    GoesOn c (onTooManyRequests c attempt now q h).next ↔ HeadersReadable h none := by
  rw [← applied_none_iff c now q, onTooManyRequests]
  split
  next hraised => exact ⟨fun hgo ↦ (by cases hgo.2), fun hnone ↦ absurd hnone hraised⟩
  next hraised =>
    have hnone := not_not.mp hraised
    refine ⟨fun _ ↦ hnone, fun _ ↦ ?_⟩
    split
    · obtain ⟨seconds, hseconds⟩ :=
        retryAfterSeconds_of_parses ((applied_none_iff c now q h).mp hnone).retryAfter attempt now.wall
      rw [hseconds]
      trivial
    · exact ⟨hwait, rfl⟩

/-- Whether a 403 is waited for is decided by the text of the header once the retries are used up. -/
theorem onForbidden_goesOn_iff (hwait : c.waitOnRateLimit = true) {h : Headers} (hspent : quotaSpent h = true) :
    GoesOn c (onForbidden c attempt now q h).next ↔
      HeadersReadable h none ∧ (c.retries ≤ attempt → h.remaining = some "0".toList) := by
  rw [← applied_none_iff c now q, onForbidden]
  split
  next hraised => exact ⟨fun hgo ↦ (by cases hgo.2), fun hnone ↦ absurd hnone.1 hraised⟩
  next hraised =>
    have hnone := not_not.mp hraised
    rw [and_iff_right hnone]
    split
    next hretry =>
      obtain ⟨seconds, hseconds⟩ :=
        retryAfterSeconds_of_parses ((applied_none_iff c now q h).mp hnone).retryAfter attempt now.wall
      rw [hseconds]
      exact ⟨fun _ hle ↦ absurd hretry (Nat.not_lt_of_le hle), fun _ ↦ trivial⟩
    next hlast =>
      constructor
      · intro hgo _
        exact of_decide_eq_true hgo.2
      · intro htext
        exact ⟨hwait, decide_eq_true (htext (Nat.le_of_not_lt hlast))⟩

theorem onSuccess_returns_iff (h : Headers) : (onSuccess c now q h).next = .returns ↔ HeadersReadable h none := by
  rw [← applied_none_iff c now q, onSuccess]
  dsimp only
  split
  next hraised => exact ⟨fun hnext ↦ (by cases hnext), fun hnone ↦ absurd hnone hraised⟩
  next hraised => exact ⟨fun _ ↦ not_not.mp hraised, fun _ ↦ rfl⟩

variable [Circuits]

theorem roundOf_limited (hwait : c.waitOnRateLimit = true) {status : ℕ} {h : Headers}
    (hlimited : Limited (.response status h)) :
    GoesOn c (roundOf c attempt now q (.response status h)).next ↔
      HeadersReadable h none ∧ (status = 403 → c.retries ≤ attempt → h.remaining = some "0".toList) := by
  rcases hlimited with rfl | ⟨rfl, hspent⟩
  · have hround : roundOf c attempt now q (.response 429 h) = onTooManyRequests c attempt now q h := rfl
    rw [hround, onTooManyRequests_goesOn_iff hwait]
    exact ⟨fun hreadable ↦ ⟨hreadable, fun h ↦ by cases h⟩, And.left⟩
  · have hround : roundOf c attempt now q (.response 403 h) = onForbidden c attempt now q h := rfl
    rw [hround, onForbidden_goesOn_iff hwait hspent]
    exact ⟨fun h ↦ ⟨h.1, fun _ ↦ h.2⟩, fun h ↦ ⟨h.1, h.2 rfl⟩⟩

theorem roundOf_success {status : ℕ} (hsuccess : ¬(400 ≤ status ∧ status < 600)) (h : Headers) :
    roundOf c attempt now q (.response status h) = onSuccess c now q h := by
  have hretryable : status ∉ retryableStatus := by
    simp only [retryableStatus, List.mem_cons, List.not_mem_nil, or_false]
    omega
  rw [roundOf, if_neg hretryable, if_neg (by omega), if_neg (by omega), if_neg (by omega), if_neg (by omega)]

/-- For headers that can be read, the round is the one of the model whose readers never raise. -/
theorem roundOf_total {status : ℕ} {h : Headers} (hreadable : HeadersReadable h none) :
    (roundOf c attempt now q (.response status h)).next =
        (@attemptOf _ totalWire _ c attempt now.wall (.response status h)).next ∧
      (roundOf c attempt now q (.response status h)).recording =
        (@attemptOf _ totalWire _ c attempt now.wall (.response status h)).recording := by
  have hwait := retryAfterSeconds_total hreadable.retryAfter attempt now.wall
  have hnone := (applied_none_iff c now q h).mpr hreadable
  have hspent : @ApiQueue.quotaAtMost totalWire 0 h.remaining = quotaSpent h := rfl
  dsimp only [roundOf, attemptOf]
  by_cases hretryable : status ∈ retryableStatus
  · rw [if_pos hretryable, if_pos hretryable, onRetryable, hwait]
    split <;> exact ⟨rfl, rfl⟩
  · rw [if_neg hretryable, if_neg hretryable]
    by_cases h429 : status = 429
    · rw [if_pos h429, if_pos h429, onTooManyRequests, if_neg (not_not.mpr hnone), hwait]
      subst h429
      split <;> exact ⟨rfl, rfl⟩
    · rw [if_neg h429, if_neg h429]
      by_cases h403 : status = 403
      · subst h403
        rw [if_pos rfl, onForbidden, if_neg (not_not.mpr hnone), hspent]
        cases quotaSpent h with
        | true =>
          have hlimited : 403 = 403 ∧ true = true := ⟨rfl, rfl⟩
          rw [if_pos (rfl : true = true), hwait, if_pos hlimited]
          split <;> exact ⟨rfl, rfl⟩
        | false =>
          have hlimited : ¬(403 = 403 ∧ false = true) := fun h ↦ Bool.false_ne_true h.2
          have hserver : ¬(500 ≤ 403 ∧ 403 < 600) := by decide
          have hclient : 400 ≤ 403 ∧ 403 < 500 := by decide
          rw [if_neg Bool.false_ne_true, if_neg hlimited, if_neg hserver, if_pos hclient]
          exact ⟨rfl, rfl⟩
      · have hlimited : ¬(status = 403 ∧ quotaSpent h = true) := fun h ↦ h403 h.1
        rw [hspent, if_neg h403, if_neg hlimited]
        by_cases hserver : 500 ≤ status ∧ status < 600
        · rw [if_pos hserver, if_pos hserver]
          exact ⟨rfl, rfl⟩
        · rw [if_neg hserver, if_neg hserver]
          by_cases hclient : 400 ≤ status ∧ status < 500
          · rw [if_pos hclient, if_pos hclient]
            exact ⟨rfl, rfl⟩
          · rw [if_neg hclient, if_neg hclient, onSuccess, if_neg (not_not.mpr hnone)]
            exact ⟨rfl, rfl⟩

theorem quiet_of_goesOn {reply : Reply} (hgo : GoesOn c (roundOf c attempt now q reply).next) :
    Quiet (roundOf c attempt now q reply).recording := by
  cases reply with
  | otherError => exact .inl rfl
  | httpError text =>
    rw [roundOf] at hgo ⊢
    split at hgo
    next hretry => rw [if_pos hretry]; exact .inl rfl
    next => cases hgo.2
  | response status h =>
    rw [roundOf] at hgo ⊢
    by_cases hretryable : status ∈ retryableStatus
    · have hstatus : status ≠ 429 ∧ status ≠ 403 := by
        simp only [retryableStatus, List.mem_cons, List.not_mem_nil, or_false] at hretryable
        omega
      rw [if_pos hretryable, onRetryable] at hgo ⊢
      split at hgo
      next hretry =>
        rw [if_pos hretry]
        exact .inl (sleepAndContinue_recording q _)
      next hlast =>
        rw [if_neg hlast]
        split at hgo
        next => exact absurd hgo (statusError_not_limited h hstatus.1 hstatus.2)
        next => cases hgo.2
    · rw [if_neg hretryable] at hgo ⊢
      by_cases h429 : status = 429
      · rw [if_pos h429, onTooManyRequests]
        split
        · exact .inl rfl
        · split
          · exact .inl (sleepAndContinue_recording _ _)
          · exact .inl rfl
      · rw [if_neg h429] at hgo ⊢
        by_cases h403 : status = 403
        · rw [if_pos h403, onForbidden]
          split
          · exact .inl rfl
          · split
            · split
              · split
                · exact .inr ⟨_, rfl⟩
                · exact .inl (sleepAndContinue_recording _ _)
              · exact .inl rfl
            · exact .inr ⟨_, rfl⟩
        · rw [if_neg h403] at hgo ⊢
          split at hgo
          next => exact absurd hgo (statusError_not_limited h h429 h403)
          next hserver =>
            rw [if_neg hserver]
            split at hgo
            next => exact absurd hgo (statusError_not_limited h h429 h403)
            next =>
              rw [onSuccess] at hgo
              split at hgo
              · cases hgo.2
              · cases hgo

end

section
variable [Interp] [HeaderReaders] [Circuits] {c : Call} {health : Health}

/-- While the call is at work, its circuit is as it was. -/
def Calm (health : Health) (s : Session) : Prop :=
  ∀ attempt, s.phase = .sending attempt → s.health.circuitOpenUntil = health.circuitOpenUntil

theorem receive_sending {s : Session} {attempt : ℕ} (hs : s.phase = .sending attempt) (a : Arrival) :
    receive c s a =
      ⟨(roundOf c attempt a.now s.queue a.reply).queue,
        recordAttempt c a.now.wall (roundOf c attempt a.now s.queue a.reply).recording s.health,
        proceed c (recordAttempt c a.now.wall (roundOf c attempt a.now s.queue a.reply).recording s.health) a.now
          (phaseAfter c attempt a.now (roundOf c attempt a.now s.queue a.reply).next)⟩ := by
  rw [receive, hs]

theorem receive_calm {s : Session} (hcalm : Calm health s) (a : Arrival) : Calm health (receive c s a) := by
  intro n hn
  cases hs : s.phase with
  | sending attempt =>
    rw [receive_sending hs] at hn ⊢
    have hquiet := quiet_of_goesOn (goesOn_of_sending hn)
    exact (quiet_circuit c hquiet a.now.wall s.health).trans (hcalm attempt hs)
  | top | circuitWait resumeAt | queued | backoff n resumeAt | done o =>
    rw [receive, hs] at hn
    rw [hs] at hn
    cases hn

theorem receive_sending_iff {s : Session} {attempt : ℕ} {a : Arrival} (hs : s.phase = .sending attempt)
    (hcalm : Calm health s) (hclosed : circuitBlocks c health a.now = false) :
    (∃ n, (receive c s a).phase = .sending n) ↔ GoesOn c (roundOf c attempt a.now s.queue a.reply).next := by
  rw [receive_sending hs]
  constructor
  · rintro ⟨n, hn⟩
    exact goesOn_of_sending hn
  · intro hgo
    have hcircuit := (quiet_circuit c (quiet_of_goesOn hgo) a.now.wall s.health).trans (hcalm attempt hs)
    exact proceed_of_goesOn hgo ((circuitBlocks_congr hcircuit a.now).trans hclosed)

theorem receive_response_iff {s : Session} {attempt : ℕ} (hs : s.phase = .sending attempt) (a : Arrival) :
    (receive c s a).phase = .done .response ↔ (roundOf c attempt a.now s.queue a.reply).next = .returns := by
  rw [receive_sending hs]
  exact proceed_response_iff attempt

/-- One reply is served as promised exactly when it is clear. -/
theorem point_served_iff (hwait : c.waitOnRateLimit = true) {s : Session} {a : Arrival} (hcalm : Calm health s)
    (hclosed : circuitBlocks c health a.now = false) :
    (Point.mk s a (receive c s a)).Served ↔ (Point.mk s a (receive c s a)).Clear c := by
  refine forall_congr' fun attempt ↦ forall_congr' fun hs ↦ ?_
  dsimp only at hs ⊢
  rw [receive_sending_iff hs hcalm hclosed, receive_response_iff hs]
  cases a.reply with
  | otherError => exact ⟨fun _ ↦ trivial, fun _ ↦ ⟨fun h ↦ (by cases h), fun h ↦ by cases h⟩⟩
  | httpError text => exact ⟨fun _ ↦ trivial, fun _ ↦ ⟨fun h ↦ (by cases h), fun h ↦ by cases h⟩⟩
  | response status h =>
    constructor
    · intro hserved
      refine ⟨?_, fun hstatus hspent ↦ ?_⟩
      · rintro (hlimited | hsuccess)
        · exact ((roundOf_limited hwait hlimited).mp (hserved.1 hlimited)).1
        · have hreturns := hserved.2 hsuccess
          rw [roundOf_success hsuccess] at hreturns
          exact (onSuccess_returns_iff h).mp hreturns
      · have hlimited : Limited (.response status h) := .inr ⟨hstatus, hspent⟩
        exact ((roundOf_limited hwait hlimited).mp (hserved.1 hlimited)).2 hstatus
    · intro hclear
      refine ⟨fun hlimited ↦ (roundOf_limited hwait hlimited).mpr ⟨hclear.1 (.inl hlimited), ?_⟩, fun hsuccess ↦ ?_⟩
      · intro hstatus
        refine hclear.2 hstatus ?_
        rcases hlimited with h429 | h403
        · rw [hstatus] at h429
          cases h429
        · exact h403.2
      · rw [roundOf_success hsuccess]
        exact (onSuccess_returns_iff h).mpr (hclear.1 (.inr hsuccess))

theorem points_served_iff (hwait : c.waitOnRateLimit = true) (arrivals : List Arrival) {s : Session}
    (hcalm : Calm health s) (hclosed : ∀ a ∈ arrivals, circuitBlocks c health a.now = false) :
    (∀ p ∈ points c s arrivals, p.Served) ↔ ∀ p ∈ points c s arrivals, p.Clear c := by
  induction arrivals generalizing s with
  | nil => exact ⟨fun _ p hp ↦ (by cases hp), fun _ p hp ↦ by cases hp⟩
  | cons a arrivals ih =>
    obtain ⟨ha, hrest⟩ := List.forall_mem_cons.mp hclosed
    rw [points, List.forall_mem_cons, List.forall_mem_cons, point_served_iff hwait hcalm ha,
      ih (receive_calm hcalm a) hrest]

theorem limited_ne_returns {reply : Reply} (hlimited : Limited reply) (attempt : ℕ) (now : Instant) (q : Queue) :
    (roundOf c attempt now q reply).next ≠ .returns := by
  cases reply with
  | otherError => cases hlimited
  | httpError text => cases hlimited
  | response status h =>
    obtain rfl | ⟨rfl, hspent⟩ := hlimited
    · have hround : roundOf c attempt now q (.response 429 h) = onTooManyRequests c attempt now q h := rfl
      rw [hround, onTooManyRequests]
      split
      · exact fun h ↦ by cases h
      · split
        · exact sleepAndContinue_ne_returns _ _
        · exact fun h ↦ by cases h
    · have hround : roundOf c attempt now q (.response 403 h) = onForbidden c attempt now q h := rfl
      rw [hround, onForbidden]
      split
      · exact fun h ↦ by cases h
      · split
        · split
          · exact fun h ↦ by cases h
          · exact sleepAndContinue_ne_returns _ _
        · exact fun h ↦ by cases h

/-- A call that is not at work takes no more replies. -/
theorem session_of_not_sending (arrivals : List Arrival) {s : Session} (hs : ¬∃ n, s.phase = .sending n) :
    session c s arrivals = s := by
  induction arrivals with
  | nil => rfl
  | cons a arrivals ih =>
    have hstay : receive c s a = s := by
      rw [receive]
      split
      next attempt hphase => exact absurd ⟨attempt, hphase⟩ hs
      next => rfl
    rw [session, List.foldl_cons, hstay]
    exact ih

/-- A successful reply after rate-limited ones is returned exactly when all of them are served. -/
theorem session_returns_iff {before : List Arrival} {last : Arrival} {s : Session} (hs : ∃ n, s.phase = .sending n)
    (hlimited : ∀ a ∈ before, Limited a.reply) (hlast : Succeeds last.reply) :
    (session c s (before ++ [last])).phase = .done .response ↔ ∀ p ∈ points c s (before ++ [last]), p.Served := by
  induction before generalizing s with
  | nil =>
    obtain ⟨n, hn⟩ := hs
    rw [List.nil_append, points, points, List.forall_mem_singleton]
    constructor
    · intro hdone attempt _
      exact ⟨fun hl ↦ absurd hlast (not_succeeds_of_limited hl), fun _ ↦ hdone⟩
    · intro hserved
      exact (hserved n hn).2 hlast
  | cons a before ih =>
    obtain ⟨n, hn⟩ := hs
    obtain ⟨hla, hlbefore⟩ := List.forall_mem_cons.mp hlimited
    rw [List.cons_append, points, List.forall_mem_cons]
    by_cases hgo : ∃ n, (receive c s a).phase = .sending n
    · have hpoint : (Point.mk s a (receive c s a)).Served :=
        fun _ _ ↦ ⟨fun _ ↦ hgo, fun hsuccess ↦ absurd hsuccess (not_succeeds_of_limited hla)⟩
      rw [and_iff_right hpoint]
      exact ih hgo hlbefore
    · constructor
      · intro hdone
        have hstay : session c s (a :: (before ++ [last])) = receive c s a :=
          session_of_not_sending (c := c) (before ++ [last]) hgo
        rw [hstay, receive_response_iff hn] at hdone
        exact absurd hdone (limited_ne_returns hla n a.now s.queue)
      · intro hserved
        exact absurd ((hserved.1 n hn).1 hla) hgo

end

/-- The two loops agree on a 403 unless its header is another spelling of a spent quota than `0`. -/
theorem forbidden_agrees_iff [HeaderReaders] (hzero : HeaderReaders.int "0".toList = some 0) (h : Headers) :
    (quotaSpent h = (statusError 403 h).isRateLimited) ↔ (quotaSpent h = true → h.remaining = some "0".toList) := by
  have houter : (statusError 403 h).isRateLimited = decide (h.remaining = some "0".toList) := rfl
  rw [houter]
  constructor
  · intro heq hspent
    rw [hspent] at heq
    exact of_decide_eq_true heq.symm
  · intro himp
    by_cases htext : h.remaining = some "0".toList
    · rw [decide_eq_true htext, quotaSpent, htext, Option.bind_some, hzero]
      rfl
    · rw [decide_eq_false htext]
      exact Bool.eq_false_of_not_eq_true fun hspent ↦ htext (himp hspent)

section
variable [Interp] [HeaderReaders] [Circuits]

/-- Rate limits drop no request exactly while their headers can be read and no rate-limited 403 with another text
than `0` comes at the last attempt. -/
theorem rate_limits_iff (c : Call) (hwait : c.waitOnRateLimit = true) (q : Queue) (health : Health) (now : Instant)
    (arrivals : List Arrival) (hopen : circuitBlocks c health now = false)
    (hclosed : ∀ a ∈ arrivals, circuitBlocks c health a.now = false)
    (hzero : HeaderReaders.int "0".toList = some 0) :
    ((∀ p ∈ points c (start c q health now) arrivals, p.Served) ↔
      ∀ p ∈ points c (start c q health now) arrivals, p.Clear c) ∧
    (∀ before last, arrivals = before ++ [last] → (∀ a ∈ before, Limited a.reply) → Succeeds last.reply →
      ((session c (start c q health now) arrivals).phase = .done .response ↔
        ∀ p ∈ points c (start c q health now) arrivals, p.Clear c)) ∧
    ∀ h, quotaSpent h = (statusError 403 h).isRateLimited ↔ (quotaSpent h = true → h.remaining = some "0".toList) := by
  have hstart : (start c q health now).phase = .sending 0 := by
    rw [start, proceed, afterTop, hopen]
    rfl
  have hcalm : Calm health (start c q health now) := fun _ _ ↦ rfl
  have hserved := points_served_iff hwait arrivals hcalm hclosed
  refine ⟨hserved, ?_, forbidden_agrees_iff hzero⟩
  rintro before last rfl hlimited hlast
  exact (session_returns_iff ⟨0, hstart⟩ hlimited hlast).trans hserved

end

/-- Readers of signed numbers in ASCII digits. -/
@[reducible] def plainReaders : HeaderReaders where
  float _ := none
  int
    | '-' :: s => (ApiQueue.digits s).map fun n ↦ -(n : ℤ)
    | s => (ApiQueue.digits s).map Int.ofNat
  date _ := none

@[reducible] def defaultCircuits : Circuits := ⟨3, 60⟩

/-- A call with the default arguments. -/
def defaultCall : Call := ⟨[], 2, true, false, true, true, false⟩

def tooMany : Arrival := ⟨⟨0, 0⟩, .response 429 noHeaders⟩

def forbidden (remaining : String) : Arrival :=
  ⟨⟨0, 0⟩, .response 403 { noHeaders with remaining := some remaining.toList }⟩

def okay : Arrival := ⟨⟨0, 0⟩, .response 200 noHeaders⟩

theorem rate_limits_tooMany :
    letI := latinDecimals
    letI := plainReaders
    letI := defaultCircuits
    (∀ p ∈ points defaultCall (start defaultCall Queue.empty .new ⟨0, 0⟩) [tooMany, forbidden "0", okay], p.Served) ↔
      ∀ p ∈ points defaultCall (start defaultCall Queue.empty .new ⟨0, 0⟩) [tooMany, forbidden "0", okay],
        p.Clear defaultCall :=
  letI := latinDecimals
  letI := plainReaders
  letI := defaultCircuits
  (rate_limits_iff defaultCall rfl Queue.empty .new ⟨0, 0⟩ [tooMany, forbidden "0", okay] rfl
    (List.forall_mem_cons.mpr ⟨rfl, List.forall_mem_cons.mpr ⟨rfl, List.forall_mem_singleton.mpr rfl⟩⟩) rfl).1

/-- The last of three rate-limited replies ends the call, since its header is not the text `0`. -/
theorem forbidden_is_dropped :
    letI := latinDecimals
    letI := plainReaders
    letI := defaultCircuits
    Limited (forbidden "-1").reply ∧ Succeeds okay.reply ∧
      (session defaultCall (start defaultCall Queue.empty .new ⟨0, 0⟩)
        [forbidden "-1", forbidden "-1", forbidden "-1", okay]).phase = .done (.error (.status 403 false)) :=
  ⟨.inr ⟨rfl, rfl⟩, (by decide : ¬(400 ≤ 200 ∧ 200 < 600)), rfl⟩

end Briefr.Outbound.RateLimited
