import Briefr.Outbound.Pacing

namespace Briefr.Outbound.ApiQueue

open Briefr.Python Briefr.Outbound.Pacing

abbrev RequestId := Text

inductive WaitReason
  | concurrency
  | pacing
  | circuitOpen
  | retryAfter
  | tokenQuota
  | requestQuota
  | githubQuota
  | rateLimit
  deriving DecidableEq

/-- `RATE_LIMIT_REASONS`. -/
def WaitReason.isRateLimit : WaitReason → Bool
  | retryAfter | tokenQuota | requestQuota | githubQuota | rateLimit => true
  | concurrency | pacing | circuitOpen => false

inductive RequestState
  | queued
  | waiting
  | rateLimited
  | active
  deriving DecidableEq

/-- `_SourceQueueState`. -/
structure SourceQueueState where
  queued : ℕ
  active : ℕ
  pauseUntil : Time
  lastRequestAt : Time
  waitReason : Option WaitReason

/-- `_ApiRequest`. -/
structure ApiRequest where
  source : Text
  pacingKey : Text
  state : RequestState
  waitReason : Option WaitReason

/-- `_states`, `_requests` and `_active_stacks`, whose last entry is the newest. -/
structure Queue where
  states : Text → SourceQueueState
  requests : RequestId → Option ApiRequest
  activeStacks : Text → List RequestId

def Queue.empty : Queue := ⟨fun _ ↦ ⟨0, 0, 0, 0, none⟩, fun _ ↦ none, fun _ ↦ []⟩

def Queue.setState (q : Queue) (key : Text) (st : SourceQueueState) : Queue :=
  { q with states := Function.update q.states key st }

def Queue.setRequest (q : Queue) (id : RequestId) (req : Option ApiRequest) : Queue :=
  { q with requests := Function.update q.requests id req }

def Queue.setStack (q : Queue) (key : Text) (stack : List RequestId) : Queue :=
  { q with activeStacks := Function.update q.activeStacks key stack }

def maxSourcePauseSeconds : Time := 3600

/-- What a request that is not active shows of its source's wait. -/
def syncRequest (key : Text) (st : SourceQueueState) (now : Time) (req : ApiRequest) : ApiRequest :=
  if req.pacingKey ≠ key ∨ req.state = .active then req
  else
    { req with
      state :=
        if st.pauseUntil > now ∨ st.waitReason.any WaitReason.isRateLimit then .rateLimited
        else if st.waitReason.isSome then .waiting
        else .queued
      waitReason := st.waitReason }

def syncRequestWaitStates (q : Queue) (source : Text) (now : Time) : Queue :=
  let key := resolvePacingKey source
  { q with requests := fun id ↦ (q.requests id).map (syncRequest key (q.states key) now) }

def scheduleSourcePause (q : Queue) (source : Text) (seconds : Time) (reason : WaitReason) (now : Time) : Queue :=
  if seconds ≤ 0 then q
  else
    let key := resolvePacingKey source
    let st := q.states key
    let pauseUntil := max st.pauseUntil (now + min seconds maxSourcePauseSeconds)
    syncRequestWaitStates (q.setState key { st with pauseUntil, waitReason := some reason }) source now

/-- How header texts are read: `_parse_duration_seconds` at a time of day, `int` and `float`, whose `none`
is a `ValueError`. -/
class Wire where
  parseDurationSeconds : Time → Text → Time
  int : Text → Option ℤ
  float : Text → Option Time

export Wire (parseDurationSeconds)

/-- The response headers that bear on rate limits; an absent `Retry-After` is the empty text. -/
structure Headers where
  retryAfter : Text
  remainingTokens : Option Text
  resetTokens : Option Text
  remainingRequests : Option Text
  resetRequests : Option Text
  remaining : Option Text
  reset : Option Text

section
variable [Wire]

/-- A quota header that is at or below a bound. -/
def quotaAtMost (bound : ℤ) (header : Option Text) : Bool := (header.bind Wire.int).any fun n ↦ decide (n ≤ bound)

/-- The pauses that `apply_rate_limit_headers` schedules, in order. -/
def headerPauses (h : Headers) (estimatedTokens : Option ℤ) (wall : Time) : List (Time × WaitReason) :=
  let reset (header : Option Text) (reason : WaitReason) : List (Time × WaitReason) :=
    match header with
    | none => []
    | some text => if text.isEmpty then [] else [(parseDurationSeconds wall text, reason)]
  (if h.retryAfter.isEmpty then [] else [(parseDurationSeconds wall h.retryAfter, .retryAfter)]) ++
  (if estimatedTokens.any fun n ↦ quotaAtMost (n - 1) h.remainingTokens then reset h.resetTokens .tokenQuota else []) ++
  (if quotaAtMost 0 h.remainingRequests then reset h.resetRequests .requestQuota else []) ++
  (if quotaAtMost 0 h.remaining then
    match h.reset.bind Wire.float with
    | some resetAt => [(max (1 / 2) (resetAt - wall), .githubQuota)]
    | none => []
  else [])

end

def digits (s : Text) : Option ℕ :=
  if !s.isEmpty && s.all Char.isDigit then some (s.foldl (fun n c ↦ 10 * n + (c.toNat - 48)) 0) else none

/-- Headers that hold plain numbers, for runs on concrete inputs. -/
@[reducible] def plainWire : Wire where
  parseDurationSeconds _ s := ((digits s).getD 0 : ℕ)
  int s := (digits s).map Int.ofNat
  float s := (digits s).map fun n ↦ (n : ℚ)

def noHeaders : Headers := ⟨[], none, none, none, none, none, none⟩

/-- `await_api_slot` up to its loop: the request is in the table and counted as queued. -/
def register (q : Queue) (source : Text) (id : RequestId) : Queue :=
  let key := resolvePacingKey source
  let st := q.states key
  (q.setRequest id (some ⟨source, key, .queued, none⟩)).setState key { st with queued := st.queued + 1 }

/-- The request keeps waiting, for a reason that its source shows too. -/
def keepWaiting (q : Queue) (key : Text) (id : RequestId) (state : RequestState) (reason : WaitReason) : Queue :=
  let st := q.states key
  { q.setState key { st with waitReason := some reason } with
    requests := Function.update q.requests id
      ((q.requests id).map fun req ↦ { req with state, waitReason := some reason }) }

/-- The request is active, and the `finally` of `await_api_slot` has run. -/
def grant (q : Queue) (key : Text) (id : RequestId) (now : Time) : Queue :=
  let st := q.states key
  let q := q.setState key
    { st with active := st.active + 1, lastRequestAt := now, waitReason := none, queued := st.queued - 1 }
  { q.setStack key (q.activeStacks key ++ [id]) with
    requests := Function.update q.requests id
      ((q.requests id).map fun req ↦ { req with state := .active, waitReason := none }) }

/-- When the source allows the next request. -/
def earliest (st : SourceQueueState) (pacing : SourcePacing) : Time :=
  max st.pauseUntil (st.lastRequestAt + pacing.minIntervalSeconds)

def grants (q : Queue) (pacing : SourcePacing) (key : Text) (now : Time) : Bool :=
  decide ((q.states key).active < pacing.maxConcurrent) && decide (earliest (q.states key) pacing ≤ now)

/-- One pass of the loop of `await_api_slot`, which holds the lock from its first read to its last write. -/
def pass (q : Queue) (pacing : SourcePacing) (key : Text) (id : RequestId) (now : Time) : Queue :=
  let st := q.states key
  if st.active ≥ pacing.maxConcurrent then keepWaiting q key id .waiting .concurrency
  else if earliest st pacing > now then
    let reason := st.waitReason.getD .pacing
    let limited := decide (st.pauseUntil > now) && reason.isRateLimit
    keepWaiting q key id (if limited then .rateLimited else .waiting) reason
  else grant q key id now

/-- The `finally` of `await_api_slot` after a cancellation. -/
def abandon (q : Queue) (source : Text) (id : RequestId) : Queue :=
  let key := resolvePacingKey source
  let st := q.states key
  let q := q.setState key { st with queued := st.queued - 1 }
  if (q.requests id).any fun req ↦ req.state = .active then q else q.setRequest id none

def decrementActive (q : Queue) (key : Text) : Queue :=
  let st := q.states key
  q.setState key { st with active := st.active - 1 }

/-- `release_api_slot`, with the request id or in the legacy form. -/
def releaseApiSlot (q : Queue) (source : Text) : Option RequestId → Queue
  | some id =>
    let key := resolvePacingKey source
    if (q.requests id).isSome then
      decrementActive ((q.setRequest id none).setStack key ((q.activeStacks key).erase id)) key
    else q
  | none =>
    let key := resolvePacingKey source
    match (q.activeStacks key).getLast? with
    | some id => decrementActive ((q.setStack key (q.activeStacks key).dropLast).setRequest id none) key
    | none => decrementActive q key

theorem releaseApiSlot_legacy {q : Queue} {source : Text} {id : RequestId}
    (h : (q.activeStacks (resolvePacingKey source)).getLast? = some id) :
    releaseApiSlot q source none =
      decrementActive ((q.setStack (resolvePacingKey source) (q.activeStacks (resolvePacingKey source)).dropLast).setRequest
        id none) (resolvePacingKey source) := by
  rw [releaseApiSlot, h]

section
variable (q : Queue) (key k : Text) (id i : RequestId)

@[simp] theorem setState_states (st : SourceQueueState) :
    (q.setState key st).states k = if k = key then st else q.states k := by
  simp [Queue.setState, Function.update_apply]

@[simp] theorem setState_requests (st : SourceQueueState) : (q.setState key st).requests = q.requests := rfl

@[simp] theorem setState_activeStacks (st : SourceQueueState) : (q.setState key st).activeStacks = q.activeStacks := rfl

@[simp] theorem setRequest_states (req : Option ApiRequest) : (q.setRequest id req).states = q.states := rfl

@[simp] theorem setRequest_requests (req : Option ApiRequest) :
    (q.setRequest id req).requests i = if i = id then req else q.requests i := by
  simp [Queue.setRequest, Function.update_apply]

@[simp] theorem setRequest_activeStacks (req : Option ApiRequest) : (q.setRequest id req).activeStacks = q.activeStacks := rfl

@[simp] theorem setStack_states (stack : List RequestId) : (q.setStack key stack).states = q.states := rfl

@[simp] theorem setStack_requests (stack : List RequestId) : (q.setStack key stack).requests = q.requests := rfl

@[simp] theorem setStack_activeStacks (stack : List RequestId) :
    (q.setStack key stack).activeStacks k = if k = key then stack else q.activeStacks k := by
  simp [Queue.setStack, Function.update_apply]

@[simp] theorem keepWaiting_active (state : RequestState) (reason : WaitReason) :
    ((keepWaiting q key id state reason).states k).active = (q.states k).active := by
  by_cases h : k = key <;> simp [keepWaiting, h]

@[simp] theorem keepWaiting_queued (state : RequestState) (reason : WaitReason) :
    ((keepWaiting q key id state reason).states k).queued = (q.states k).queued := by
  by_cases h : k = key <;> simp [keepWaiting, h]

@[simp] theorem keepWaiting_activeStacks (state : RequestState) (reason : WaitReason) :
    (keepWaiting q key id state reason).activeStacks = q.activeStacks := rfl

theorem keepWaiting_requests (state : RequestState) (reason : WaitReason) :
    (keepWaiting q key id state reason).requests i =
      if i = id then (q.requests i).map fun req ↦ { req with state, waitReason := some reason } else q.requests i := by
  by_cases h : i = id
  · subst h
    simp [keepWaiting]
  · simp [keepWaiting, h]

theorem register_active (source : Text) : ((register q source id).states k).active = (q.states k).active := by
  by_cases h : k = resolvePacingKey source <;> simp [register, h]

theorem grant_active (now : Time) :
    ((grant q key id now).states k).active = if k = key then (q.states k).active + 1 else (q.states k).active := by
  by_cases h : k = key <;> simp [grant, h]

theorem grant_queued (now : Time) :
    ((grant q key id now).states k).queued = if k = key then (q.states k).queued - 1 else (q.states k).queued := by
  by_cases h : k = key <;> simp [grant, h]

theorem grant_activeStacks (now : Time) :
    (grant q key id now).activeStacks k = if k = key then q.activeStacks k ++ [id] else q.activeStacks k := by
  by_cases h : k = key <;> simp [grant, h]

theorem grant_requests (now : Time) :
    (grant q key id now).requests i =
      if i = id then (q.requests i).map fun req ↦ { req with state := .active, waitReason := none } else q.requests i := by
  by_cases h : i = id
  · subst h
    simp [grant]
  · simp [grant, h]

@[simp] theorem register_lastRequestAt (source : Text) :
    ((register q source id).states k).lastRequestAt = (q.states k).lastRequestAt := by
  by_cases h : k = resolvePacingKey source <;> simp [register, h]

@[simp] theorem keepWaiting_lastRequestAt (state : RequestState) (reason : WaitReason) :
    ((keepWaiting q key id state reason).states k).lastRequestAt = (q.states k).lastRequestAt := by
  by_cases h : k = key <;> simp [keepWaiting, h]

theorem grant_lastRequestAt (now : Time) :
    ((grant q key id now).states k).lastRequestAt = if k = key then now else (q.states k).lastRequestAt := by
  by_cases h : k = key <;> simp [grant, h]

@[simp] theorem scheduleSourcePause_lastRequestAt (source : Text) (seconds : Time) (reason : WaitReason) (now : Time) :
    ((scheduleSourcePause q source seconds reason now).states k).lastRequestAt = (q.states k).lastRequestAt := by
  rw [scheduleSourcePause]
  split
  · rfl
  · by_cases h : k = resolvePacingKey source <;> simp [syncRequestWaitStates, h]

@[simp] theorem decrementActive_lastRequestAt :
    ((decrementActive q key).states k).lastRequestAt = (q.states k).lastRequestAt := by
  by_cases h : k = key <;> simp [decrementActive, h]

@[simp] theorem abandon_lastRequestAt (source : Text) :
    ((abandon q source id).states k).lastRequestAt = (q.states k).lastRequestAt := by
  simp only [abandon]
  split <;> by_cases h : k = resolvePacingKey source <;> simp [h]

@[simp] theorem releaseApiSlot_lastRequestAt (source : Text) :
    ((releaseApiSlot q source (some id)).states k).lastRequestAt = (q.states k).lastRequestAt := by
  simp only [releaseApiSlot]
  split <;> simp

theorem decrementActive_active :
    ((decrementActive q key).states k).active = if k = key then (q.states k).active - 1 else (q.states k).active := by
  by_cases h : k = key <;> simp [decrementActive, h]

@[simp] theorem decrementActive_queued : ((decrementActive q key).states k).queued = (q.states k).queued := by
  by_cases h : k = key <;> simp [decrementActive, h]

@[simp] theorem decrementActive_requests : (decrementActive q key).requests = q.requests := rfl

@[simp] theorem decrementActive_activeStacks : (decrementActive q key).activeStacks = q.activeStacks := rfl

end

theorem abandon_spec {q : Queue} {id : RequestId} (source : Text)
    (h : ∀ req, q.requests id = some req → req.state ≠ .active) :
    (∀ k, ((abandon q source id).states k).active = (q.states k).active) ∧
    (∀ k, ((abandon q source id).states k).queued =
      if k = resolvePacingKey source then (q.states k).queued - 1 else (q.states k).queued) ∧
    (abandon q source id).activeStacks = q.activeStacks ∧
    ∀ i, (abandon q source id).requests i = if i = id then none else q.requests i := by
  have hidle : (q.requests id).any (fun req ↦ decide (req.state = .active)) = false := by
    rw [Bool.eq_false_iff]
    intro ha
    obtain ⟨req, hr, hs⟩ := (Option.any_eq_true _ _).mp ha
    exact h req hr (of_decide_eq_true hs)
  rw [abandon]
  simp only [setState_requests, hidle, Bool.false_eq_true, if_false]
  refine ⟨?_, ?_, rfl, ?_⟩
  · intro k
    by_cases hk : k = resolvePacingKey source <;> simp [hk]
  · intro k
    by_cases hk : k = resolvePacingKey source <;> simp [hk]
  · intro i
    rw [setRequest_requests]
    rfl

theorem scheduleSourcePause_spec (q : Queue) (source : Text) (seconds : Time) (reason : WaitReason) (now : Time) :
    (∀ k, ((scheduleSourcePause q source seconds reason now).states k).active = (q.states k).active) ∧
    (∀ k, ((scheduleSourcePause q source seconds reason now).states k).queued = (q.states k).queued) ∧
    (scheduleSourcePause q source seconds reason now).activeStacks = q.activeStacks ∧
    ∀ i, ∃ f : ApiRequest → ApiRequest, (∀ req, (f req).state = .active ↔ req.state = .active) ∧
      (scheduleSourcePause q source seconds reason now).requests i = (q.requests i).map f := by
  rw [scheduleSourcePause]
  split
  · exact ⟨fun _ ↦ rfl, fun _ ↦ rfl, rfl, fun i ↦ ⟨fun req ↦ req, by simp, by simp⟩⟩
  · refine ⟨?_, ?_, rfl, ?_⟩
    · intro k
      by_cases h : k = resolvePacingKey source <;> simp [syncRequestWaitStates, h]
    · intro k
      by_cases h : k = resolvePacingKey source <;> simp [syncRequestWaitStates, h]
    · intro i
      refine ⟨syncRequest _ _ now, ?_, rfl⟩
      intro req
      rw [syncRequest]
      split
      · rfl
      · rename_i h
        have hne : req.state ≠ .active := fun ha ↦ h (.inr ha)
        simp only [hne, iff_false]
        split
        · decide
        · split <;> decide

theorem pass_of_grants {q : Queue} {pacing : SourcePacing} {key : Text} {id : RequestId} {now : Time}
    (h : grants q pacing key now = true) : pass q pacing key id now = grant q key id now := by
  obtain ⟨ha, he⟩ := Bool.and_eq_true_iff.mp h
  have ha : (q.states key).active < pacing.maxConcurrent := of_decide_eq_true ha
  have he : earliest (q.states key) pacing ≤ now := of_decide_eq_true he
  rw [pass, if_neg (Nat.not_le.mpr ha), if_neg (not_lt.mpr he)]

theorem pass_of_not_grants {q : Queue} {pacing : SourcePacing} {key : Text} {now : Time} (id : RequestId)
    (h : grants q pacing key now = false) :
    ∃ state reason, state ≠ .active ∧ pass q pacing key id now = keepWaiting q key id state reason := by
  rw [pass]
  dsimp only
  split
  · exact ⟨.waiting, .concurrency, by decide, rfl⟩
  · split
    · refine ⟨_, _, ?_, rfl⟩
      split <;> decide
    · rename_i ha he
      have hg : grants q pacing key now = true := by simp [grants, Nat.not_le.mp ha, not_lt.mp he]
      rw [hg] at h
      cases h

end Briefr.Outbound.ApiQueue
