import Briefr.Outbound.ApiQueue
import Briefr.Outbound.DurationNotation

namespace Briefr.Outbound.SourcePauses

open Briefr.Python Briefr.Outbound.Pacing Briefr.Outbound.Durations
open Briefr.Outbound.ApiQueue hiding parseDurationSeconds scheduleSourcePause

/-- `time.monotonic` and `time.time` at a call. -/
structure Clocks where
  mono : Time
  wall : Time

/-- `schedule_source_pause`, for any `float`. -/
def scheduleSourcePause (q : Queue) (source : Text) (seconds : PyFloat) (reason : WaitReason) (now : Time) : Queue :=
  match seconds with
  | .finite x => ApiQueue.scheduleSourcePause q source x reason now
  | .posInf => ApiQueue.scheduleSourcePause q source maxSourcePauseSeconds reason now
  | .negInf => q
  -- no comparison with nan holds, so `max` keeps the pause
  | .nan =>
    let key := resolvePacingKey source
    syncRequestWaitStates (q.setState key { q.states key with waitReason := some reason }) source now

/-- The queue that a call leaves, and the exception that ends it. -/
structure Outcome where
  queue : Queue
  raised : Option Exc

def Outcome.andThen (o : Outcome) (f : Queue → Outcome) : Outcome :=
  match o.raised with
  | none => f o.queue
  | some _ => o

/-- `except ValueError: pass`. -/
def Outcome.passValueError (o : Outcome) : Outcome :=
  if o.raised = some .valueError then ⟨o.queue, none⟩ else o

section
variable [Interp] [HeaderReaders] (t : Clocks) (source : Text)

/-- A pause for the duration of a header. -/
def headerPause (reason : WaitReason) (text : Text) (q : Queue) : Outcome :=
  match parseDurationSeconds t.wall text with
  | .ok seconds => ⟨scheduleSourcePause q source seconds reason t.mono, none⟩
  | .error e => ⟨q, some e⟩

def retryAfterPause (h : Headers) (q : Queue) : Outcome :=
  if h.retryAfter = [] then ⟨q, none⟩ else headerPause t source .retryAfter h.retryAfter q

/-- A pause until a quota is reset, when what remains of it is spent. -/
def quotaPause (spent : ℤ → Bool) (remaining reset : Option Text) (reason : WaitReason) (q : Queue) : Outcome :=
  match remaining, reset with
  | some remaining, some reset =>
    if reset = [] then ⟨q, none⟩
    else
      match HeaderReaders.int remaining with
      | none => ⟨q, none⟩
      | some n => if spent n then (headerPause t source reason reset q).passValueError else ⟨q, none⟩
  | _, _ => ⟨q, none⟩

def tokenPause (h : Headers) (estimatedTokens : Option ℤ) (q : Queue) : Outcome :=
  match estimatedTokens with
  | some tokens => quotaPause t source (fun n ↦ decide (n < tokens)) h.remainingTokens h.resetTokens .tokenQuota q
  | none => ⟨q, none⟩

def requestPause (h : Headers) (q : Queue) : Outcome :=
  quotaPause t source (fun n ↦ decide (n ≤ 0)) h.remainingRequests h.resetRequests .requestQuota q

def githubPause (h : Headers) (q : Queue) : Outcome :=
  match h.remaining, h.reset with
  | some remaining, some reset =>
    if reset = [] then ⟨q, none⟩
    else
      match HeaderReaders.int remaining, HeaderReaders.float reset with
      | some n, some resetAt =>
        if n ≤ 0 then ⟨scheduleSourcePause q source ((resetAt.minus t.wall).atLeast (1 / 2)) .githubQuota t.mono, none⟩
        else ⟨q, none⟩
      | _, _ => ⟨q, none⟩
  | _, _ => ⟨q, none⟩

/-- `apply_rate_limit_headers`; the quota snapshot at its end leaves the queue alone and never raises. -/
def applyRateLimitHeaders (h : Headers) (estimatedTokens : Option ℤ) (q : Queue) : Outcome :=
  (((retryAfterPause t source h q).andThen (tokenPause t source h estimatedTokens)).andThen
    (requestPause t source h)).andThen (githubPause t source h)

end

inductive Call
  | scheduleSourcePause (source : Text) (seconds : PyFloat) (reason : WaitReason)
  | applyRateLimitHeaders (source : Text) (h : Headers) (estimatedTokens : Option ℤ)

structure TimedCall where
  clocks : Clocks
  call : Call

/-- A call between the queue it finds and what it leaves. -/
structure Step where
  before : Queue
  now : Time
  after : Outcome

section
variable [Interp] [HeaderReaders]

def TimedCall.make (c : TimedCall) (q : Queue) : Outcome :=
  match c.call with
  | .scheduleSourcePause source seconds reason => ⟨scheduleSourcePause q source seconds reason c.clocks.mono, none⟩
  | .applyRateLimitHeaders source h estimatedTokens => applyRateLimitHeaders c.clocks source h estimatedTokens q

/-- The calls one after the other, also after a call that raises. -/
def steps (q : Queue) : List TimedCall → List Step
  | [] => []
  | c :: calls => ⟨q, c.clocks.mono, c.make q⟩ :: steps (c.make q).queue calls

/-- The call returns, and moves no pause back nor further than an hour ahead. -/
structure Step.Sound (s : Step) : Prop where
  returns : s.after.raised = none
  grows (key : Text) : (s.before.states key).pauseUntil ≤ (s.after.queue.states key).pauseUntil
  bounded (key : Text) : (s.after.queue.states key).pauseUntil ≤ s.now + maxSourcePauseSeconds

/-- The clock never runs back. -/
def ClockRuns (calls : List TimedCall) : Prop := (0 :: calls.map fun c ↦ c.clocks.mono).Pairwise (· ≤ ·)

/-- A reset header that is read for a spent quota does not raise an `OverflowError`. -/
def QuotaReadable (spent : ℤ → Bool) (remaining reset : Option Text) : Prop :=
  (remaining.bind HeaderReaders.int).any spent = true → ∀ text ∈ reset, Caught text

/-- Every duration that is read from the headers can be used, or fails with a `ValueError` that is caught. -/
structure HeadersReadable (h : Headers) (estimatedTokens : Option ℤ) : Prop where
  retryAfter : Parses h.retryAfter
  tokens : ∀ tokens ∈ estimatedTokens, QuotaReadable (fun n ↦ decide (n < tokens)) h.remainingTokens h.resetTokens
  requests : QuotaReadable (fun n ↦ decide (n ≤ 0)) h.remainingRequests h.resetRequests

def Call.Readable : Call → Prop
  | .scheduleSourcePause _ _ _ => True
  | .applyRateLimitHeaders _ h estimatedTokens => HeadersReadable h estimatedTokens

end

/-- No pause is moved back, and none further than an hour ahead of the clock. -/
def Kept (now : Time) (q q' : Queue) : Prop :=
  ∀ key, (q.states key).pauseUntil ≤ (q'.states key).pauseUntil ∧
    (q'.states key).pauseUntil ≤ max (q.states key).pauseUntil (now + maxSourcePauseSeconds)

theorem Kept.refl (now : Time) (q : Queue) : Kept now q q := fun _ ↦ ⟨le_refl _, le_max_left _ _⟩

theorem Kept.trans {now : Time} {q q' q'' : Queue} (h : Kept now q q') (h' : Kept now q' q'') : Kept now q q'' := by
  intro key
  refine ⟨(h key).1.trans (h' key).1, (h' key).2.trans ?_⟩
  exact max_le (h key).2 (le_max_right _ _)

theorem schedule_finite_kept (q : Queue) (source : Text) (x : Time) (reason : WaitReason) (now : Time) :
    Kept now q (ApiQueue.scheduleSourcePause q source x reason now) := by
  rw [ApiQueue.scheduleSourcePause]
  split
  next => exact .refl now q
  next hpos =>
    intro key
    dsimp only [syncRequestWaitStates]
    rw [setState_states]
    split
    next hkey =>
      subst hkey
      exact ⟨le_max_left _ _, max_le_max_left _ (add_le_add_right (min_le_right _ _) _)⟩
    next => exact Kept.refl now q key

theorem schedule_kept (q : Queue) (source : Text) (seconds : PyFloat) (reason : WaitReason) (now : Time) :
    Kept now q (scheduleSourcePause q source seconds reason now) := by
  cases seconds with
  | finite x => exact schedule_finite_kept q source x reason now
  | posInf => exact schedule_finite_kept q source maxSourcePauseSeconds reason now
  | negInf => exact .refl now q
  | nan =>
    intro key
    dsimp only [scheduleSourcePause, syncRequestWaitStates]
    rw [setState_states]
    split
    next hkey =>
      subst hkey
      exact Kept.refl now q (resolvePacingKey source)
    next => exact Kept.refl now q key

theorem andThen_kept {now : Time} {q : Queue} {o : Outcome} {f : Queue → Outcome} (h : Kept now q o.queue)
    (hf : ∀ q', Kept now q' (f q').queue) : Kept now q (o.andThen f).queue := by
  rw [Outcome.andThen]
  split
  · exact h.trans (hf o.queue)
  · exact h

theorem andThen_returns {o : Outcome} {f : Queue → Outcome} {p : Prop} (hf : ∀ q', (f q').raised = none ↔ p) :
    (o.andThen f).raised = none ↔ o.raised = none ∧ p := by
  rw [Outcome.andThen]
  split
  next h => rw [hf, h, eq_self, true_and]
  next e h =>
    rw [h]
    exact ⟨fun h ↦ (by cases h), fun h ↦ by cases h.1⟩

theorem passValueError_queue (o : Outcome) : o.passValueError.queue = o.queue := by
  rw [Outcome.passValueError]
  split <;> rfl

theorem passValueError_raised (o : Outcome) :
    o.passValueError.raised = none ↔ o.raised = none ∨ o.raised = some .valueError := by
  rw [Outcome.passValueError]
  split
  next h => exact ⟨fun _ ↦ .inr h, fun _ ↦ rfl⟩
  next h => exact ⟨.inl, fun h' ↦ h'.resolve_right h⟩

section
variable [HeaderReaders] (t : Clocks) (source : Text)

theorem githubPause_cases (h : Headers) (q : Queue) :
    githubPause t source h q = ⟨q, none⟩ ∨
      ∃ seconds, githubPause t source h q = ⟨scheduleSourcePause q source seconds .githubQuota t.mono, none⟩ := by
  rw [githubPause]
  split
  · split
    · exact .inl rfl
    · split
      · split
        · exact .inr ⟨_, rfl⟩
        · exact .inl rfl
      · exact .inl rfl
  · exact .inl rfl

theorem githubPause_kept (h : Headers) (q : Queue) : Kept t.mono q (githubPause t source h q).queue := by
  obtain heq | ⟨seconds, heq⟩ := githubPause_cases t source h q
  · rw [heq]
    exact .refl t.mono q
  · rw [heq]
    exact schedule_kept q source seconds .githubQuota t.mono

theorem githubPause_returns (h : Headers) (q : Queue) : (githubPause t source h q).raised = none := by
  obtain heq | ⟨seconds, heq⟩ := githubPause_cases t source h q <;> rw [heq]

end

section
variable [Interp]

theorem parses_nil : Parses [] := by
  intro u hu
  obtain rfl := Option.some.inj hu
  exact ⟨fun _ h ↦ (by cases h), fun _ h ↦ by cases h⟩

theorem caught_nil : Caught [] := fun u hu ↦ .inl (parses_nil u hu)

variable [HeaderReaders] (t : Clocks) (source : Text)

theorem headerPause_kept (reason : WaitReason) (text : Text) (q : Queue) :
    Kept t.mono q (headerPause t source reason text q).queue := by
  rw [headerPause]
  split
  · exact schedule_kept q source _ reason t.mono
  · exact .refl t.mono q

theorem headerPause_returns (reason : WaitReason) (text : Text) (q : Queue) :
    (headerPause t source reason text q).raised = none ↔ ∃ x, parseDurationSeconds t.wall text = .ok x := by
  rw [headerPause]
  cases h : parseDurationSeconds t.wall text with
  | ok x => exact ⟨fun _ ↦ ⟨x, rfl⟩, fun _ ↦ rfl⟩
  | error e =>
    constructor
    · intro h
      cases h
    · rintro ⟨x, h⟩
      cases h

theorem headerPause_raised (reason : WaitReason) (text : Text) (q : Queue) (e : Exc) :
    (headerPause t source reason text q).raised = some e ↔ parseDurationSeconds t.wall text = .error e := by
  rw [headerPause]
  cases h : parseDurationSeconds t.wall text with
  | ok x =>
    constructor
    · intro h
      cases h
    · intro h
      cases h
  | error e' => rw [Option.some.injEq, Except.error.injEq]

theorem retryAfterPause_kept (h : Headers) (q : Queue) : Kept t.mono q (retryAfterPause t source h q).queue := by
  rw [retryAfterPause]
  split
  · exact .refl t.mono q
  · exact headerPause_kept t source .retryAfter h.retryAfter q

theorem retryAfterPause_returns (h : Headers) (q : Queue) :
    (retryAfterPause t source h q).raised = none ↔ Parses h.retryAfter := by
  rw [retryAfterPause]
  split
  next hnil =>
    rw [hnil]
    exact ⟨fun _ ↦ parses_nil, fun _ ↦ rfl⟩
  next => rw [headerPause_returns, parseDurationSeconds_ok_iff]

/-- A quota either schedules a pause or leaves the queue alone. -/
theorem quotaPause_cases (spent : ℤ → Bool) (remaining reset : Option Text) (reason : WaitReason) (q : Queue) :
    (∃ text ∈ reset, (remaining.bind HeaderReaders.int).any spent = true ∧
      quotaPause t source spent remaining reset reason q = (headerPause t source reason text q).passValueError) ∨
    quotaPause t source spent remaining reset reason q = ⟨q, none⟩ ∧
      ((remaining.bind HeaderReaders.int).any spent = true → ∀ text ∈ reset, text = []) := by
  cases remaining with
  | none => exact .inr ⟨rfl, fun h ↦ by cases h⟩
  | some remaining =>
    cases reset with
    | none => exact .inr ⟨rfl, fun _ _ h ↦ by cases h⟩
    | some reset =>
      rw [quotaPause, Option.bind_some]
      by_cases hnil : reset = []
      · rw [if_pos hnil]
        exact .inr ⟨rfl, fun _ text h ↦ Option.mem_some_iff.mp h ▸ hnil⟩
      · rw [if_neg hnil]
        cases hint : HeaderReaders.int remaining with
        | none => exact .inr ⟨rfl, fun h ↦ by cases h⟩
        | some n =>
          dsimp only
          rw [Option.any_some]
          cases hspent : spent n with
          | false => exact .inr ⟨rfl, fun h ↦ by cases h⟩
          | true => exact .inl ⟨reset, rfl, rfl, rfl⟩

theorem quotaPause_kept (spent : ℤ → Bool) (remaining reset : Option Text) (reason : WaitReason) (q : Queue) :
    Kept t.mono q (quotaPause t source spent remaining reset reason q).queue := by
  obtain ⟨text, -, -, heq⟩ | ⟨heq, -⟩ := quotaPause_cases t source spent remaining reset reason q
  · rw [heq, passValueError_queue]
    exact headerPause_kept t source reason text q
  · rw [heq]
    exact .refl t.mono q

/-- The `ValueError` of a duration with too many digits is caught, its `OverflowError` is not. -/
theorem quotaPause_returns (spent : ℤ → Bool) (remaining reset : Option Text) (reason : WaitReason) (q : Queue) :
    (quotaPause t source spent remaining reset reason q).raised = none ↔ QuotaReadable spent remaining reset := by
  obtain ⟨text, htext, hspent, heq⟩ | ⟨heq, hnil⟩ := quotaPause_cases t source spent remaining reset reason q
  · rw [heq, passValueError_raised, headerPause_returns, headerPause_raised, parseDurationSeconds_caught_iff]
    constructor
    · intro hcaught _ text' htext'
      exact Option.mem_unique htext htext' ▸ hcaught
    · intro h
      exact h hspent text htext
  · rw [heq]
    refine ⟨fun _ hspent text htext ↦ ?_, fun _ ↦ rfl⟩
    rw [hnil hspent text htext]
    exact caught_nil

theorem tokenPause_kept (h : Headers) (estimatedTokens : Option ℤ) (q : Queue) :
    Kept t.mono q (tokenPause t source h estimatedTokens q).queue := by
  cases estimatedTokens with
  | none => exact .refl t.mono q
  | some tokens => exact quotaPause_kept t source _ _ _ _ q

theorem tokenPause_returns (h : Headers) (estimatedTokens : Option ℤ) (q : Queue) :
    (tokenPause t source h estimatedTokens q).raised = none ↔ ∀ tokens ∈ estimatedTokens,
      QuotaReadable (fun n ↦ decide (n < tokens)) h.remainingTokens h.resetTokens := by
  cases estimatedTokens with
  | none => exact ⟨fun _ _ hmem ↦ (by cases hmem), fun _ ↦ rfl⟩
  | some tokens =>
    rw [tokenPause, quotaPause_returns]
    exact ⟨fun h tokens' hmem ↦ Option.mem_some_iff.mp hmem ▸ h, fun h ↦ h tokens rfl⟩

theorem apply_kept (h : Headers) (estimatedTokens : Option ℤ) (q : Queue) :
    Kept t.mono q (applyRateLimitHeaders t source h estimatedTokens q).queue := by
  rw [applyRateLimitHeaders]
  refine andThen_kept (andThen_kept (andThen_kept ?_ ?_) ?_) ?_
  · exact retryAfterPause_kept t source h q
  · exact tokenPause_kept t source h estimatedTokens
  · exact quotaPause_kept t source _ _ _ _
  · exact githubPause_kept t source h

theorem apply_returns (h : Headers) (estimatedTokens : Option ℤ) (q : Queue) :
    (applyRateLimitHeaders t source h estimatedTokens q).raised = none ↔ HeadersReadable h estimatedTokens := by
  have hgithub : ∀ q', (githubPause t source h q').raised = none ↔ True :=
    fun q' ↦ iff_true_intro (githubPause_returns t source h q')
  have hrequest : ∀ q', (requestPause t source h q').raised = none ↔
      QuotaReadable (fun n ↦ decide (n ≤ 0)) h.remainingRequests h.resetRequests :=
    fun q' ↦ quotaPause_returns t source _ _ _ _ q'
  rw [applyRateLimitHeaders, andThen_returns hgithub, and_true, andThen_returns hrequest,
    andThen_returns (tokenPause_returns t source h estimatedTokens), retryAfterPause_returns]
  exact ⟨fun h ↦ ⟨h.1.1, h.1.2, h.2⟩, fun h ↦ ⟨⟨h.retryAfter, h.tokens⟩, h.requests⟩⟩

end

section
variable [Interp] [HeaderReaders]

theorem make_kept (c : TimedCall) (q : Queue) : Kept c.clocks.mono q (c.make q).queue := by
  rw [TimedCall.make]
  split
  · exact schedule_kept q _ _ _ c.clocks.mono
  · exact apply_kept c.clocks _ _ _ q

theorem make_returns (c : TimedCall) (q : Queue) : (c.make q).raised = none ↔ c.call.Readable := by
  rw [TimedCall.make]
  split
  next source seconds reason heq =>
    rw [heq]
    exact ⟨fun _ ↦ trivial, fun _ ↦ rfl⟩
  next source h estimatedTokens heq =>
    rw [heq]
    exact apply_returns c.clocks source h estimatedTokens q

/-- Pauses stay within an hour of the clock, whatever the calls are and whether they raise or not. -/
theorem steps_kept (calls : List TimedCall) {q : Queue} {now : Time}
    (hq : ∀ key, (q.states key).pauseUntil ≤ now + maxSourcePauseSeconds)
    (hclock : (now :: calls.map fun c ↦ c.clocks.mono).Pairwise (· ≤ ·)) :
    ∀ s ∈ steps q calls, ∀ key, (s.before.states key).pauseUntil ≤ (s.after.queue.states key).pauseUntil ∧
      (s.after.queue.states key).pauseUntil ≤ s.now + maxSourcePauseSeconds := by
  induction calls generalizing q now with
  | nil => exact fun s hs ↦ by cases hs
  | cons c calls ih =>
    obtain ⟨hnow, hrest⟩ := List.pairwise_cons.mp hclock
    have hle : now ≤ c.clocks.mono := hnow _ (List.mem_cons_self ..)
    have hkept := make_kept c q
    have hafter : ∀ key, ((c.make q).queue.states key).pauseUntil ≤ c.clocks.mono + maxSourcePauseSeconds :=
      fun key ↦ (hkept key).2.trans (max_le ((hq key).trans (add_le_add_left hle _)) (le_refl _))
    intro s hs
    rcases List.mem_cons.mp hs with rfl | hs
    · exact fun key ↦ ⟨(hkept key).1, hafter key⟩
    · exact ih hafter hrest s hs

theorem steps_return_iff (calls : List TimedCall) (q : Queue) :
    (∀ s ∈ steps q calls, s.after.raised = none) ↔ ∀ c ∈ calls, c.call.Readable := by
  induction calls generalizing q with
  | nil => exact ⟨fun _ c hc ↦ (by cases hc), fun _ s hs ↦ by cases hs⟩
  | cons c calls ih => rw [steps, List.forall_mem_cons, List.forall_mem_cons, ih, make_returns]

end

section
variable [Decimals] [HeaderReaders]

/-- Every call of a run returns, with its pauses in bounds, exactly when its durations are readable; and the
notation of durations is read back as long as a float can hold the number of seconds. -/
theorem source_pauses_iff (calls : List TimedCall) (hclock : ClockRuns calls) :
    ((∀ s ∈ steps Queue.empty calls, s.Sound) ↔ ∀ c ∈ calls, c.call.Readable) ∧
    (∀ (wall : Time) (h m s : ℕ) (showH showM showS : Bool), (showH = false → h = 0) → (showM = false → m = 0) →
      (showS = false → s = 0) →
        (parseDurationSeconds wall (unitText h m s showH showM showS) = .ok (.finite (3600 * h + 60 * m + s)) ↔
          3600 * h + 60 * m + s < floatLimit)) ∧
    ∀ (wall : Time) (n : ℕ), parseDurationSeconds wall (milliText n) = .ok (.finite (n / 1000)) ↔ n < floatLimit := by
  have hempty : ∀ key, (Queue.empty.states key).pauseUntil ≤ 0 + maxSourcePauseSeconds := by
    intro key
    rw [zero_add]
    exact (by decide : (0 : ℚ) ≤ 3600)
  have hkept := steps_kept calls hempty hclock
  refine ⟨?_, fun wall h m s showH showM showS hh hm hs ↦ parse_unitText_iff wall h m s hh hm hs, parse_milliText_iff⟩
  rw [← steps_return_iff calls Queue.empty]
  constructor
  · intro hsound s hs
    exact (hsound s hs).returns
  · intro hreturns s hs
    exact ⟨hreturns s hs, fun key ↦ (hkept s hs key).1, fun key ↦ (hkept s hs key).2⟩

end

/-- Readers that refuse every text. -/
@[reducible] def noReaders : HeaderReaders := ⟨fun _ ↦ none, fun _ ↦ none, fun _ ↦ none⟩

def retryIn (seconds : ℕ) (mono : Time) : TimedCall :=
  ⟨⟨mono, 0⟩, .applyRateLimitHeaders [] { noHeaders with retryAfter := unitText 0 0 seconds false false true } none⟩

theorem source_pauses_retries :
    letI := latinDecimals
    letI := noReaders
    ClockRuns [retryIn 30 10, retryIn 90 20] ∧
      ((∀ s ∈ steps Queue.empty [retryIn 30 10, retryIn 90 20], s.Sound) ↔
        ∀ c ∈ [retryIn 30 10, retryIn 90 20], c.call.Readable) :=
  letI := latinDecimals
  letI := noReaders
  have hclock : ClockRuns [retryIn 30 10, retryIn 90 20] := by
    rw [ClockRuns]
    decide
  ⟨hclock, (source_pauses_iff [retryIn 30 10, retryIn 90 20] hclock).1⟩

def longRetryAfter : TimedCall :=
  ⟨⟨0, 0⟩, .applyRateLimitHeaders [] { noHeaders with retryAfter := List.replicate 400 '9' ++ ['h'] } none⟩

/-- Hours that no float can hold raise an exception that nothing catches. -/
theorem longRetryAfter_raises :
    letI := latinDecimals
    letI := noReaders
    ClockRuns [longRetryAfter] ∧ ∃ s ∈ steps Queue.empty [longRetryAfter], s.after.raised = some .overflowError := by
  refine ⟨?_, _, .head _, by decide +kernel⟩
  rw [ClockRuns]
  decide

end Briefr.Outbound.SourcePauses
