import Briefr.Library.Runs
import Briefr.Outbound.ResilientClient

namespace Briefr.Outbound.ResilientClient

open Briefr.Python Briefr.Library.Runs Briefr.Outbound.Pacing Briefr.Outbound.ApiQueue

structure Circuit where
  consecutiveFailures : ℕ
  circuitOpenUntil : Time
  lastSuccess : Option Time
  deriving DecidableEq

def Health.circuit (h : Health) : Circuit := ⟨h.consecutiveFailures, h.circuitOpenUntil, h.lastSuccess⟩

def Event.task : Event → Option ℕ
  | .top t _ _ | .granted t | .reply t _ _ | .retry t _ | .cancel t => some t
  | .reset _ => none

def Event.isProbe (e : Event) (calls : ℕ → Call) : Bool := e.task.any fun t ↦ (calls t).isProbe

def withoutProbes (calls : ℕ → Call) (events : List Event) : List Event := events.filter fun e ↦ !e.isProbe calls

section
variable {h h' : Health}

theorem circuit_eq_iff :
    h.circuit = h'.circuit ↔ h.consecutiveFailures = h'.consecutiveFailures ∧
      h.circuitOpenUntil = h'.circuitOpenUntil ∧ h.lastSuccess = h'.lastSuccess := by
  simp [Health.circuit]

theorem resetCircuit_congr (he : h.circuit = h'.circuit) :
    (resetCircuit h).circuit = (resetCircuit h').circuit := by
  obtain ⟨-, -, hs⟩ := circuit_eq_iff.mp he
  simp [Health.circuit, resetCircuit, hs]

variable [Circuits] (c : Call) (wall : Time)

/-- What a call leaves in the circuit fields depends on them alone. -/
theorem recordAttempt_congr (r : Recording) (he : h.circuit = h'.circuit) :
    (recordAttempt c wall r h).circuit = (recordAttempt c wall r h').circuit := by
  obtain ⟨hf, ho, hs⟩ := circuit_eq_iff.mp he
  cases r with
  | nothing => exact he
  | success =>
    rw [recordAttempt, recordAttempt]
    split
    · rfl
    · exact he
  | failure error cooldown =>
    rw [recordAttempt, recordAttempt]
    split
    · simp [Health.circuit, recordFailure, hf, ho, hs]
    · exact he
  | clientError error =>
    rw [recordAttempt, recordAttempt]
    split
    · simp [Health.circuit, hf, ho, hs]
    · exact he

theorem recordAttempt_of_not_recordCircuit (r : Recording) (hc : c.recordCircuit = false) (h : Health) :
    (recordAttempt c wall r h).circuit = h.circuit := by
  cases r with
  | nothing => rfl
  | success => simp [recordAttempt, hc]
  | failure error cooldown => simp [recordAttempt, hc]
  | clientError error =>
    rw [recordAttempt]
    split <;> rfl

omit [Circuits] in
theorem afterTop_congr (now : Instant) (granted : Bool) (he : h.circuit = h'.circuit) :
    afterTop c h now granted = afterTop c h' now granted := by
  obtain ⟨-, ho, -⟩ := circuit_eq_iff.mp he
  simp [afterTop, circuitBlocks, circuitWaitSeconds, isCircuitOpen, ho]

end

/-- Two states with the same circuits, in which the tasks other than the probes are at the same places. -/
structure Alike (calls : ℕ → Call) (s s' : Client) : Prop where
  circuit : ∀ source, (s.health source).circuit = (s'.health source).circuit
  phases : ∀ t, (calls t).isProbe = false → s.phases t = s'.phases t

namespace Alike

variable {calls : ℕ → Call} {s s' : Client}

theorem put (h : Alike calls s s') (t : ℕ) (p : Phase) : Alike calls (s.put t p) (s'.put t p) where
  circuit := h.circuit
  phases t' ht' := by
    simp only [Client.put, Function.update_apply]
    split
    · rfl
    · exact h.phases t' ht'

theorem put_probe (h : Alike calls s s') {t : ℕ} (ht : (calls t).isProbe = true) (p : Phase) :
    Alike calls (s.put t p) s' where
  circuit := h.circuit
  phases t' ht' := by
    have hne : t' ≠ t := fun he ↦ by simp [he, ht] at ht'
    simp only [Client.put, Function.update_apply, if_neg hne]
    exact h.phases t' ht'

theorem record (h : Alike calls s s') (source : Text) {f : Health → Health}
    (hf : ∀ h h', h.circuit = h'.circuit → (f h).circuit = (f h').circuit) :
    Alike calls (s.record source f) (s'.record source f) where
  circuit source' := by
    simp only [Client.record, Function.update_apply]
    split
    · exact hf _ _ (h.circuit source)
    · exact h.circuit source'
  phases := h.phases

theorem record_silent (h : Alike calls s s') (source : Text) {f : Health → Health}
    (hf : ∀ h, (f h).circuit = h.circuit) : Alike calls (s.record source f) s' where
  circuit source' := by
    simp only [Client.record, Function.update_apply]
    split
    · rename_i he
      rw [hf, he]
      exact h.circuit source
    · exact h.circuit source'
  phases := h.phases

variable [Interp] [Wire] [Circuits]

theorem step_other (h : Alike calls s s') (e : Event) (he : e.isProbe calls = false) :
    Alike calls (step calls s e) (step calls s' e) := by
  cases e with
  | reset source => exact h.record source fun _ _ ↦ resetCircuit_congr
  | top t now granted =>
    have hp : s.phases t = s'.phases t := h.phases t he
    rw [step, step, hp, afterTop_congr (calls t) now granted (h.circuit (calls t).source)]
    split
    · exact h.put t _
    · exact h
  | granted t =>
    have hp : s.phases t = s'.phases t := h.phases t he
    rw [step, step, hp]
    cases s'.phases t with
    | queued => exact h.put t _
    | top | circuitWait | sending | backoff | done => exact h
  | reply t r now =>
    have hp : s.phases t = s'.phases t := h.phases t he
    rw [step, step, hp]
    cases s'.phases t with
    | sending attempt =>
      exact (h.record _ fun _ _ ↦ recordAttempt_congr (calls t) now.wall _).put t _
    | top | circuitWait | queued | backoff | done => exact h
  | retry t now =>
    have hp : s.phases t = s'.phases t := h.phases t he
    rw [step, step, hp]
    cases s'.phases t with
    | backoff attempt resumeAt =>
      dsimp only
      split
      · exact h.put t _
      · exact h
    | top | circuitWait | queued | sending | done => exact h
  | cancel t =>
    have hp : s.phases t = s'.phases t := h.phases t he
    rw [step, step, hp]
    cases s'.phases t with
    | done => exact h
    | top | circuitWait | queued | sending | backoff => exact h.put t _

theorem step_probe (h : Alike calls s s') (e : Event) (he : e.isProbe calls = true) :
    Alike calls (step calls s e) s' := by
  cases e with
  | reset source => cases he
  | top t now granted =>
    rw [step]
    split
    · exact h.put_probe he _
    · exact h
  | granted t =>
    rw [step]
    cases s.phases t with
    | queued => exact h.put_probe he _
    | top | circuitWait | sending | backoff | done => exact h
  | reply t r now =>
    have hc : (calls t).recordCircuit = false := by
      have hp : (calls t).isProbe = true := he
      simp only [Call.isProbe, Bool.and_eq_true, Bool.not_eq_true'] at hp
      exact hp.1
    rw [step]
    cases s.phases t with
    | sending attempt =>
      exact (h.record_silent _ (recordAttempt_of_not_recordCircuit (calls t) now.wall _ hc)).put_probe he _
    | top | circuitWait | queued | backoff | done => exact h
  | retry t now =>
    rw [step]
    cases s.phases t with
    | backoff attempt resumeAt =>
      dsimp only
      split
      · exact h.put_probe he _
      · exact h
    | top | circuitWait | queued | sending | done => exact h
  | cancel t =>
    rw [step]
    cases s.phases t with
    | done => exact h
    | top | circuitWait | queued | sending | backoff => exact h.put_probe he _

end Alike

/-- The request has failed: a transport error or a server error that is not retried any more. -/
def failed (c : Call) (attempt : ℕ) : Reply → Bool
  | .otherError => false
  | .httpError _ => decide (c.retries ≤ attempt)
  | .response status _ =>
    decide (500 ≤ status ∧ status < 600) && (decide (status ∉ retryableStatus) || decide (c.retries ≤ attempt))

/-- The request has succeeded: a response that is no client error and no server error. -/
def succeeded : Reply → Bool
  | .response status _ => decide (status < 400 ∨ 600 ≤ status)
  | .httpError _ | .otherError => false

/-- The failed requests of a source since its last success or reset, probes left out, after one more event. -/
def tally (calls : ℕ → Call) (source : Text) (s : Client) (n : ℕ) : Event → ℕ
  | .reset source' => if source' = source then 0 else n
  | .reply t r _ =>
    match s.phases t with
    | .sending attempt =>
      if (calls t).source = source ∧ (calls t).isProbe = false then
        if failed (calls t) attempt r then n + 1 else if succeeded r then 0 else n
      else n
    | _ => n
  | _ => n

section
variable [Interp] [Wire] [Circuits] (calls : ℕ → Call) (source : Text)

def failuresFrom (s : Client) (n : ℕ) : List Event → ℕ
  | [] => n
  | e :: events => failuresFrom (step calls s e) (tally calls source s n e) events

def failures (events : List Event) : ℕ := failuresFrom calls source Client.init 0 events

variable {calls source}

/-- What a recording says of the reply. -/
def Recording.Tells (c : Call) (attempt : ℕ) (r : Reply) : Recording → Prop
  | .success => failed c attempt r = false ∧ succeeded r = true
  | .failure _ _ => failed c attempt r = true
  | .nothing | .clientError _ => failed c attempt r = false ∧ succeeded r = false

theorem recording_tells (c : Call) (attempt : ℕ) (wall : Time) (r : Reply) :
    (attemptOf c attempt wall r).recording.Tells c attempt r := by
  cases r with
  | otherError => exact ⟨rfl, rfl⟩
  | httpError text =>
    rw [attemptOf]
    split
    · rename_i ha
      exact ⟨by simpa [failed] using ha, rfl⟩
    · rename_i ha
      simpa [Recording.Tells, failed] using ha
  | response status headers =>
    have hretry : status ∈ retryableStatus → 500 ≤ status ∧ status < 600 := by
      simp only [retryableStatus, List.mem_cons, List.not_mem_nil, or_false]
      omega
    simp only [attemptOf]
    split
    · rename_i hr
      split
      · rename_i ha
        refine ⟨?_, ?_⟩
        · simp [failed, hr, ha]
        · have := hretry hr
          simp only [succeeded, decide_eq_false_iff_not]
          omega
      · rename_i ha
        simp [Recording.Tells, failed, hretry hr, Nat.not_lt.mp ha]
    · rename_i hr
      split
      · rename_i h429
        subst h429
        split <;> simp [Recording.Tells, failed, succeeded]
      · split
        · rename_i h403
          obtain ⟨rfl, -⟩ := h403
          split <;> simp [Recording.Tells, failed, succeeded]
        · split
          · rename_i h5
            simp [Recording.Tells, failed, hr, h5]
          · split
            · rename_i h5 h4
              simp only [Recording.Tells, failed, succeeded]
              simp only [h5, decide_false, Bool.false_and, decide_eq_false_iff_not, true_and]
              omega
            · rename_i h5 h4
              simp only [Recording.Tells, failed, succeeded]
              simp only [h5, decide_false, Bool.false_and, decide_eq_true_eq, true_and]
              omega

/-- The counter is the count, and the circuit is closed below the threshold. -/
structure Counted (source : Text) (s : Client) (n : ℕ) : Prop where
  count : (s.health source).consecutiveFailures = n
  closed : (s.health source).circuitOpenUntil ≠ 0 → Circuits.threshold ≤ (n : ℤ)

omit [Interp] [Wire] in
theorem Counted.of_health {s s' : Client} {n : ℕ} (h : Counted source s n)
    (he : (s'.health source).circuit = (s.health source).circuit) : Counted source s' n := by
  obtain ⟨hf, ho, -⟩ := circuit_eq_iff.mp he
  exact ⟨hf.trans h.count, fun hne ↦ h.closed (ho ▸ hne)⟩

theorem Counted.reply {s : Client} {n : ℕ} (h : Counted source s n) {c : Call} (hc : c.source = source)
    (hr : c.recordCircuit = true) (attempt : ℕ) (r : Reply) (wall : Time) :
    Counted source (s.record c.source (recordAttempt c wall (attemptOf c attempt wall r).recording))
      (if failed c attempt r then n + 1 else if succeeded r then 0 else n) := by
  subst hc
  have ht := recording_tells c attempt wall r
  cases hrec : (attemptOf c attempt wall r).recording with
  | nothing =>
    rw [hrec] at ht
    obtain ⟨hf, hs⟩ := ht
    simp only [hf, hs, Bool.false_eq_true, if_false]
    refine h.of_health ?_
    simp [Client.record, recordAttempt]
  | clientError error =>
    rw [hrec] at ht
    obtain ⟨hf, hs⟩ := ht
    simp only [hf, hs, Bool.false_eq_true, if_false]
    refine h.of_health ?_
    simp only [Client.record, Function.update_self, recordAttempt]
    split <;> rfl
  | success =>
    rw [hrec] at ht
    obtain ⟨hf, hs⟩ := ht
    simp only [hf, hs, Bool.false_eq_true, if_false, if_true]
    constructor
    · simp [Client.record, recordAttempt, hr, recordSuccess]
    · simp [Client.record, recordAttempt, hr, recordSuccess]
  | failure error cooldown =>
    rw [hrec] at ht
    have hf : failed c attempt r = true := ht
    simp only [hf, if_true]
    constructor
    · simp [Client.record, recordAttempt, hr, recordFailure, h.count]
    · simp only [Client.record, Function.update_self, recordAttempt, hr, if_true, recordFailure, h.count]
      intro hne
      split at hne
      · assumption
      · exact (h.closed hne).trans (by omega)

theorem Counted.step (hcalls : ∀ t, (calls t).isProbe = true ∨ (calls t).recordCircuit = true) {s : Client} {n : ℕ}
    (h : Counted source s n) (e : Event) : Counted source (step calls s e) (tally calls source s n e) := by
  cases e with
  | reset source' =>
    simp only [ResilientClient.step, tally]
    split
    · rename_i he
      subst he
      constructor <;> simp [Client.record, resetCircuit]
    · rename_i he
      refine h.of_health ?_
      simp [Client.record, Ne.symm he]
  | reply t r now =>
    simp only [ResilientClient.step, tally]
    cases s.phases t with
    | sending attempt =>
      dsimp only
      split
      · rename_i hc
        have hr : (calls t).recordCircuit = true := by
          rcases hcalls t with hp | hr
          · simp [hc.2] at hp
          · exact hr
        have hreply := h.reply hc.1 hr attempt r now.wall
        exact hreply.of_health rfl
      · rename_i hc
        refine h.of_health ?_
        simp only [Client.put, Client.record, Function.update_apply]
        split
        · rename_i hs
          subst hs
          have hp : (calls t).isProbe = true := by simpa using hc
          simp only [Call.isProbe, Bool.and_eq_true, Bool.not_eq_true'] at hp
          exact recordAttempt_of_not_recordCircuit (calls t) now.wall _ hp.1 _
        · rfl
    | top | circuitWait | queued | backoff | done => exact h
  | top t now granted =>
    simp only [ResilientClient.step, tally]
    split
    · exact h.of_health rfl
    · exact h
  | granted t =>
    simp only [ResilientClient.step, tally]
    cases s.phases t with
    | queued => exact h.of_health rfl
    | top | circuitWait | sending | backoff | done => exact h
  | retry t now =>
    simp only [ResilientClient.step, tally]
    cases s.phases t with
    | backoff attempt resumeAt =>
      dsimp only
      split
      · exact h.of_health rfl
      · exact h
    | top | circuitWait | queued | sending | done => exact h
  | cancel t =>
    simp only [ResilientClient.step, tally]
    cases s.phases t with
    | done => exact h
    | top | circuitWait | queued | sending | backoff => exact h.of_health rfl

theorem Counted.run (hcalls : ∀ t, (calls t).isProbe = true ∨ (calls t).recordCircuit = true) (events : List Event)
    {s : Client} {n : ℕ} (h : Counted source s n) :
    Counted source (run (ResilientClient.step calls) s events) (failuresFrom calls source s n events) := by
  induction events generalizing s n with
  | nil => exact h
  | cons e events ih => exact ih (h.step hcalls e)

omit [Interp] [Wire] in
theorem Counted.init : Counted source Client.init 0 := ⟨rfl, fun h ↦ absurd rfl h⟩

/-- Leaving the probes out of a run changes no circuit and no other request. Where every call is a probe or
records its circuit, an open circuit has had as many failed requests as the threshold since the last success
or reset, probes left out. -/
theorem probes_do_not_interfere (calls : ℕ → Call) (events : List Event) (source : Text) :
    ((run (step calls) Client.init events).health source).circuit =
        ((run (step calls) Client.init (withoutProbes calls events)).health source).circuit ∧
    (∀ t, (calls t).isProbe = false →
      (run (step calls) Client.init events).phases t =
        (run (step calls) Client.init (withoutProbes calls events)).phases t) ∧
    ((∀ t, (calls t).isProbe = true ∨ (calls t).recordCircuit = true) → ∀ wall,
      isCircuitOpen ((run (step calls) Client.init events).health source) wall = true →
      Circuits.threshold ≤ (failures calls source events : ℤ)) := by
  have hrun : Alike calls (run (step calls) Client.init events)
      (run (step calls) Client.init (withoutProbes calls events)) := by
    refine run_filter events ?_ ?_ ⟨fun _ ↦ rfl, fun _ _ ↦ rfl⟩
    · intro s s' e h he
      exact h.step_other e (by simpa using he)
    · intro s s' e h he
      exact h.step_probe e (by simpa using he)
  refine ⟨hrun.circuit source, hrun.phases, ?_⟩
  intro hcalls wall hopen
  have hne : ((run (step calls) Client.init events).health source).circuitOpenUntil ≠ 0 := by
    simp only [isCircuitOpen, Bool.and_eq_true, decide_eq_true_eq] at hopen
    exact hopen.1
  exact (Counted.init.run hcalls events).closed hne

end

section
local instance : Interp := ascii fun _ ↦ none
local instance : Wire := plainWire
local instance : Circuits := ⟨3, 60⟩

def otxCall (t : ℕ) : Call :=
  if t = 3 then ⟨"otx".toList, 0, true, false, true, false, true⟩ else ⟨"otx".toList, 0, true, false, true, true, false⟩

/-- Three requests fail while a probe gets through. -/
def outage : List Event :=
  [.top 0 ⟨1, 1⟩ true, .reply 0 (.response 500 noHeaders) ⟨2, 2⟩, .top 3 ⟨3, 3⟩ true,
    .reply 3 (.response 200 noHeaders) ⟨4, 4⟩, .top 1 ⟨5, 5⟩ true, .reply 1 (.httpError []) ⟨6, 6⟩,
    .top 2 ⟨7, 7⟩ true, .reply 2 (.response 503 noHeaders) ⟨8, 8⟩]

theorem outage_opens_circuit :
    isCircuitOpen ((run (step otxCall) Client.init outage).health "otx".toList) 9 = true ∧
      Circuits.threshold ≤ (failures otxCall "otx".toList outage : ℤ) := by
  have hcalls : ∀ t, (otxCall t).isProbe = true ∨ (otxCall t).recordCircuit = true := by
    intro t
    rw [otxCall]
    split
    · exact .inl rfl
    · exact .inr rfl
  have hopen : isCircuitOpen ((run (step otxCall) Client.init outage).health "otx".toList) 9 = true := by
    decide +kernel
  exact ⟨hopen, (probes_do_not_interfere otxCall outage "otx".toList).2.2 hcalls 9 hopen⟩

end

end Briefr.Outbound.ResilientClient
