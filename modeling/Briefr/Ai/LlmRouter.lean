import Mathlib.Data.List.Basic
import Mathlib.Data.Int.Order.Basic
import Briefr.Library.Runs
import Briefr.Python.Value

namespace Briefr.Ai.LlmRouter

open Briefr.Python Briefr.Library.Runs

/-- An integer setting of the environment, as `int` reads it. -/
inductive Setting
  | unset
  | invalid
  | value (n : ℤ)

def Setting.atLeastOne (default : ℤ) : Setting → ℤ
  | .unset => max 1 default
  | .invalid => default
  | .value n => max 1 n

/-- `AI_DAILY_REQUEST_CAP` and `AI_PER_MINUTE_CAP`. -/
structure Caps where
  daily : Setting
  minute : Setting

def aiDailyCap (c : Caps) : ℤ := c.daily.atLeastOne 200

def aiMinuteCap (c : Caps) : ℤ := c.minute.atLeastOne 10

structure ProviderStep where
  provider : Text
  model : Text

/-- A call of `chat_completion_task`, with the chain of its task. -/
structure Request where
  task : Text
  hasPayload : Bool
  contextType : Text
  contextId : Text
  ignoreProviderCircuit : Bool
  chain : List ProviderStep

/-- A row of `ai_operations`. -/
structure Row where
  startedAt : ℕ
  task : Text
  step : ProviderStep
  success : Bool
  retryIndex : ℕ
  fallbackFrom : Option ProviderStep

/-- `attempt_index` and what failed last. -/
structure Progress where
  attemptIndex : ℕ
  lastFailed : Option ProviderStep

/-- A task at an `await` of `chat_completion_task`. -/
inductive Phase
  | countingToday (since : ℕ)
  | countingMinute (since : ℕ)
  | choosing (p : Progress) (rest : List ProviderStep)
  | calling (p : Progress) (step : ProviderStep) (rest : List ProviderStep)
  | recording (p : Progress) (step : ProviderStep) (rest : List ProviderStep) (success : Bool)
  | storing (p : Progress) (step : ProviderStep) (rest : List ProviderStep) (success : Bool) (startedAt : ℕ)
  | ended

structure Task where
  request : Request
  phase : Phase

/-- What is asked about a provider before it is called. -/
structure Gate where
  hasKey : Bool
  enabled : Bool
  hasQuota : Bool
  skippedInJob : Bool
  circuitOpen : Bool

inductive Choice
  | passOver
  | skip
  | call

def Gate.choice (g : Gate) (ignoreProviderCircuit : Bool) : Choice :=
  if !g.hasKey || !g.enabled then .passOver
  else if !g.hasQuota || g.skippedInJob || (!ignoreProviderCircuit && g.circuitOpen) then .skip
  else .call

/-- How `record_llm_attempt` begins: recording is off, `get_db` raises, or the row gets its time. -/
inductive Opening
  | off
  | raised
  | stamped

/-- The table, the recent completions, the tasks, and the time of day in seconds. -/
structure World where
  rows : List Row
  recent : Text × Text → Option ℕ
  tasks : List Task
  clock : ℕ

def World.init : World := ⟨[], fun _ ↦ none, [], 0⟩

inductive Event
  | tick (seconds : ℕ)
  | call (r : Request)
  | countToday (i : ℕ) (available : Bool)
  | countMinute (i : ℕ) (available : Bool)
  | choose (i : ℕ) (g : Gate)
  | reply (i : ℕ) (content : Bool)
  | record (i : ℕ) (o : Opening)
  | store (i : ℕ) (committed : Bool)
  | cancel (i : ℕ)

def dayOf (time : ℕ) : ℕ := time / 86400

def countSince (w : World) (since : ℕ) : ℤ := w.rows.countP fun row ↦ decide (since ≤ row.startedAt)

def idempotencyWindow : ℕ := 30

def Request.key (r : Request) : Option (Text × Text) :=
  if r.contextType = "cve".toList ∧ r.contextId ≠ [] then some (r.task, r.contextId) else none

def idempotencyBlocked (w : World) (r : Request) : Bool :=
  ((r.key).bind w.recent).any fun last ↦ decide (w.clock < last + idempotencyWindow)

def recordIdempotency (w : World) (r : Request) : World :=
  match r.key with
  | some key => { w with recent := Function.update w.recent key (some w.clock) }
  | none => w

def World.put (w : World) (i : ℕ) (t : Task) (p : Phase) : World := { w with tasks := w.tasks.set i { t with phase := p } }

def Progress.after (p : Progress) (step : ProviderStep) : Progress := ⟨p.attemptIndex + 1, some step⟩

/-- The attempt has been recorded, or could not be. -/
def World.next (w : World) (i : ℕ) (t : Task) (p : Progress) (step : ProviderStep) (rest : List ProviderStep)
    (success : Bool) : World :=
  if success then (recordIdempotency w t.request).put i t .ended
  else w.put i t (.choosing (p.after step) rest)

def rowOf (t : Task) (p : Progress) (step : ProviderStep) (success : Bool) (startedAt : ℕ) : Row :=
  ⟨startedAt, t.request.task, step, success, p.attemptIndex, if success then p.lastFailed else none⟩

def taskStep (caps : Caps) (w : World) (i : ℕ) (t : Task) : Event → World
  | .countToday _ available =>
    match t.phase with
    | .countingToday since =>
      if !available || decide (countSince w since ≥ aiDailyCap caps) then w.put i t .ended
      else w.put i t (.countingMinute (w.clock - 60))
    | _ => w
  | .countMinute _ available =>
    match t.phase with
    | .countingMinute since =>
      if !available || decide (countSince w since ≥ aiMinuteCap caps) || idempotencyBlocked w t.request then
        w.put i t .ended
      else w.put i t (.choosing ⟨0, none⟩ t.request.chain)
    | _ => w
  | .choose _ g =>
    match t.phase with
    | .choosing _ [] => w.put i t .ended
    | .choosing p (step :: rest) =>
      match g.choice t.request.ignoreProviderCircuit with
      | .passOver => w.put i t (.choosing p rest)
      | .skip => w.put i t (.choosing (p.after step) rest)
      | .call => w.put i t (.calling p step rest)
    | _ => w
  | .reply _ content =>
    match t.phase with
    | .calling p step rest => w.put i t (.recording p step rest content)
    | _ => w
  | .record _ o =>
    match t.phase with
    | .recording p step rest success =>
      match o with
      | .stamped => w.put i t (.storing p step rest success w.clock)
      | .off => w.next i t p step rest success
      -- the handler of exceptions records a failure
      | .raised => w.put i t (if success then .recording p step rest false else .ended)
    | _ => w
  | .store _ committed =>
    match t.phase with
    | .storing p step rest success startedAt =>
      let rows := if committed then rowOf t p step success startedAt :: w.rows else w.rows
      { w with rows }.next i t p step rest success
    | _ => w
  | .cancel _ => w.put i t .ended
  | .tick _ | .call _ => w

def step (caps : Caps) (w : World) (e : Event) : World :=
  match e with
  | .tick seconds => { w with clock := w.clock + seconds }
  | .call r =>
    let phase := if r.hasPayload then .countingToday (dayOf w.clock * 86400) else .ended
    { w with tasks := w.tasks ++ [⟨r, phase⟩] }
  | .countToday i _ | .countMinute i _ | .choose i _ | .reply i _ | .record i _ | .store i _ | .cancel i =>
    match w.tasks[i]? with
    | some t => taskStep caps w i t e
    | none => w

/-- An attempt that has not got its time yet. -/
def Phase.isOpen : Phase → Bool
  | .calling _ _ _ | .recording _ _ _ _ => true
  | _ => false

def Phase.storesOn (day : ℕ) : Phase → Bool
  | .storing _ _ _ _ startedAt => decide (dayOf startedAt = day)
  | _ => false

def Row.isOn (day : ℕ) (row : Row) : Bool := decide (dayOf row.startedAt = day)

def recordedOn (w : World) (day : ℕ) : ℕ := w.rows.countP (Row.isOn day)

def storingOn (w : World) (day : ℕ) : ℕ := w.tasks.countP fun t ↦ t.phase.storesOn day

/-- The attempts that will get their row later. -/
def underWay (w : World) : ℕ := w.tasks.countP fun t ↦ t.phase.isOpen

def startsIn (g : Gate) (t : Task) : Bool :=
  match t.phase, g.choice t.request.ignoreProviderCircuit with
  | .choosing _ (_ :: _), .call => true
  | _, _ => false

def starts (w : World) : Event → Bool
  | .choose i g => w.tasks[i]?.any (startsIn g)
  | _ => false

/-- An attempt starts only while the day has room for it next to those recorded and those under way. -/
def Reserves (caps : Caps) (w : World) (e : Event) : Prop :=
  starts w e = true → ((recordedOn w (dayOf w.clock) + storingOn w (dayOf w.clock) + underWay w : ℕ) : ℤ) < aiDailyCap caps

instance (caps : Caps) (w : World) (e : Event) : Decidable (Reserves caps w e) := inferInstanceAs (Decidable (_ → _))

/-- The rows of the day, written or being written. -/
def load (w : World) (day : ℕ) : ℕ := recordedOn w day + storingOn w day

section
variable {w : World} {i : ℕ} {t : Task}

theorem countP_put (test : Task → Bool) (h : w.tasks[i]? = some t) (p : Phase) :
    (w.put i t p).tasks.countP test + (test t).toNat = w.tasks.countP test + (test { t with phase := p }).toNat := by
  obtain ⟨hi, ht⟩ := List.getElem?_eq_some_iff.mp h
  have hset := List.countP_set (p := test) (a := { t with phase := p }) hi
  rw [ht] at hset
  have hpos : test t = true → 0 < w.tasks.countP test := fun htest ↦
    List.countP_pos_iff.mpr ⟨t, List.mem_of_getElem? h, htest⟩
  rw [World.put, hset]
  cases htest : test t with
  | false => cases test { t with phase := p } <;> simp
  | true =>
    have := hpos htest
    cases test { t with phase := p } <;> simp <;> omega

theorem load_put (h : w.tasks[i]? = some t) (p : Phase) (day : ℕ) :
    load (w.put i t p) day + (t.phase.storesOn day).toNat = load w day + (p.storesOn day).toNat := by
  have hput := countP_put (fun t ↦ t.phase.storesOn day) h p
  simp only [load, storingOn, recordedOn] at hput ⊢
  have hrows : (w.put i t p).rows = w.rows := rfl
  rw [hrows]
  omega

theorem underWay_put (h : w.tasks[i]? = some t) (p : Phase) :
    underWay (w.put i t p) + t.phase.isOpen.toNat = underWay w + p.isOpen.toNat :=
  countP_put (fun t ↦ t.phase.isOpen) h p

end

/-- What an event does to the rows of a day and the attempts under way, at a time. -/
inductive Effect (w w' : World) (started : Prop) : Prop
  | tick (hload : ∀ day, load w' day = load w day) (hopen : underWay w' = underWay w) (hclock : w.clock ≤ w'.clock)
  | quiet (hload : ∀ day, load w' day ≤ load w day) (hopen : underWay w' ≤ underWay w) (hclock : w'.clock = w.clock)
  | stamp (hload : ∀ day, load w' day ≤ load w day + if day = dayOf w.clock then 1 else 0)
      (hopen : underWay w' + 1 ≤ underWay w) (hclock : w'.clock = w.clock)
  | start (hstart : started) (hload : ∀ day, load w' day ≤ load w day) (hopen : underWay w' ≤ underWay w + 1)
      (hclock : w'.clock = w.clock)

section
variable {w : World} {i : ℕ} {t : Task} {started : Prop}

theorem Effect.put (h : w.tasks[i]? = some t) {p : Phase} (hs : ∀ day, p.storesOn day = false)
    (ho : p.isOpen = true → t.phase.isOpen = true) : Effect w (w.put i t p) started := by
  refine .quiet ?_ ?_ rfl
  · intro day
    have hput := load_put h p day
    rw [hs day] at hput
    simp only [Bool.toNat_false] at hput
    omega
  · have hput := underWay_put h p
    cases hp : p.isOpen with
    | false =>
      rw [hp] at hput
      simp only [Bool.toNat_false] at hput
      omega
    | true =>
      rw [hp, ho hp] at hput
      omega

/-- A task leaves its attempt, whose row may have been written. -/
theorem Effect.settle (h : w.tasks[i]? = some t) {w' : World} (htasks : w'.tasks = w.tasks)
    (hclock : w'.clock = w.clock) (hrows : ∀ day, recordedOn w' day ≤ recordedOn w day + (t.phase.storesOn day).toNat)
    {p : Phase} (hs : ∀ day, p.storesOn day = false) (ho : p.isOpen = false) : Effect w (w'.put i t p) started := by
  have h' : w'.tasks[i]? = some t := htasks ▸ h
  refine .quiet ?_ ?_ hclock
  · intro day
    have hput := load_put h' p day
    have hstoring : storingOn w' day = storingOn w day := by rw [storingOn, htasks, storingOn]
    have hday := hrows day
    rw [hs day] at hput
    simp only [load, Bool.toNat_false] at hput ⊢
    omega
  · have hput := underWay_put h' p
    have hopen : underWay w' = underWay w := by rw [underWay, htasks, underWay]
    rw [ho] at hput
    simp only [Bool.toNat_false] at hput
    omega

theorem Effect.next (h : w.tasks[i]? = some t) {w' : World} (htasks : w'.tasks = w.tasks) (hclock : w'.clock = w.clock)
    (hrows : ∀ day, recordedOn w' day ≤ recordedOn w day + (t.phase.storesOn day).toNat) (p : Progress)
    (step : ProviderStep) (rest : List ProviderStep) (success : Bool) :
    Effect w (w'.next i t p step rest success) started := by
  rw [World.next]
  split
  · rw [recordIdempotency]
    split
    · refine Effect.settle h ?_ ?_ ?_ (fun _ ↦ rfl) rfl
      · exact htasks
      · exact hclock
      · exact hrows
    · exact Effect.settle h htasks hclock hrows (fun _ ↦ rfl) rfl
  · exact Effect.settle h htasks hclock hrows (fun _ ↦ rfl) rfl

theorem Effect.same : Effect w w started := .quiet (fun _ ↦ le_rfl) le_rfl rfl

/-- A task goes to a phase in which no attempt is under way. -/
theorem Effect.shut (h : w.tasks[i]? = some t) {p : Phase} (hs : ∀ day, p.storesOn day = false) (ho : p.isOpen = false) :
    Effect w (w.put i t p) started :=
  .put h hs fun hp ↦ absurd hp (by simp [ho])

/-- What each task of that number would do, done where there is one. -/
theorem Effect.ofTask {next : Task → World} (h : ∀ t, w.tasks[i]? = some t → Effect w (next t) started) :
    Effect w (match w.tasks[i]? with
      | some t => next t
      | none => w) started := by
  split
  · rename_i t ht
    exact h t ht
  · exact .same

end

theorem effect_count (caps : Caps) {w : World} {i : ℕ} {t : Task} (available : Bool) (h : w.tasks[i]? = some t)
    (started : Prop) :
    Effect w (taskStep caps w i t (.countToday i available)) started ∧
      Effect w (taskStep caps w i t (.countMinute i available)) started := by
  simp only [taskStep]
  constructor
  · split
    · split
      · exact .shut h (fun _ ↦ rfl) rfl
      · exact .shut h (fun _ ↦ rfl) rfl
    · exact .same
  · split
    · split
      · exact .shut h (fun _ ↦ rfl) rfl
      · exact .shut h (fun _ ↦ rfl) rfl
    · exact .same

theorem effect_choose (caps : Caps) {w : World} {i : ℕ} {t : Task} (g : Gate) (h : w.tasks[i]? = some t) :
    Effect w (taskStep caps w i t (.choose i g)) (starts w (.choose i g) = true) := by
  simp only [taskStep]
  split
  · exact .shut h (fun _ ↦ rfl) rfl
  · rename_i p step rest hp
    split
    · exact .shut h (fun _ ↦ rfl) rfl
    · exact .shut h (fun _ ↦ rfl) rfl
    · rename_i hc
      refine .start (by simp [LlmRouter.starts, h, startsIn, hp, hc]) ?_ ?_ rfl
      · intro day
        have hput := load_put h (.calling p step rest) day
        simp only [Phase.storesOn, Bool.toNat_false] at hput
        omega
      · have hput := underWay_put h (.calling p step rest)
        simp only [Phase.isOpen, Bool.toNat_true] at hput
        omega
  · exact Effect.same

theorem effect_record (caps : Caps) {w : World} {i : ℕ} {t : Task} (o : Opening) (h : w.tasks[i]? = some t)
    (started : Prop) : Effect w (taskStep caps w i t (.record i o)) started := by
  simp only [taskStep]
  split
  · rename_i p step rest success hp
    split
    · refine .stamp ?_ ?_ rfl
      · intro day
        have hput := load_put h (.storing p step rest success w.clock) day
        simp only [Phase.storesOn, hp, Bool.toNat_false, eq_comm] at hput
        split
        · rename_i hd
          simp only [hd, decide_true, Bool.toNat_true] at hput ⊢
          omega
        · rename_i hd
          simp only [hd, decide_false, Bool.toNat_false] at hput
          omega
      · have hput := underWay_put h (.storing p step rest success w.clock)
        simp only [Phase.isOpen, hp, Bool.toNat_true, Bool.toNat_false] at hput
        omega
    · exact Effect.next h rfl rfl (fun _ ↦ Nat.le_add_right _ _) p step rest success
    · refine Effect.put h ?_ ?_
      · intro day
        split <;> rfl
      · simp [hp, Phase.isOpen]
  · exact Effect.same

theorem effect_store (caps : Caps) {w : World} {i : ℕ} {t : Task} (committed : Bool) (h : w.tasks[i]? = some t)
    (started : Prop) : Effect w (taskStep caps w i t (.store i committed)) started := by
  simp only [taskStep]
  split
  · rename_i p step rest success startedAt hp
    refine Effect.next h ?_ ?_ ?_ p step rest success
    · rfl
    · rfl
    intro day
    simp only [recordedOn, hp, Phase.storesOn]
    split
    · rw [List.countP_cons]
      by_cases hd : dayOf startedAt = day
      · simp [Row.isOn, rowOf, hd]
      · simp [Row.isOn, rowOf, hd]
    · exact Nat.le_add_right _ _
  · exact Effect.same

theorem step_effect (caps : Caps) (w : World) (e : Event) : Effect w (step caps w e) (starts w e = true) := by
  cases e with
  | tick seconds => exact .tick (fun _ ↦ rfl) rfl (Nat.le_add_right _ _)
  | call r =>
    refine .quiet ?_ ?_ rfl
    · intro day
      simp only [load, recordedOn, storingOn, step, List.countP_append]
      split <;> simp [Phase.storesOn]
    · simp only [underWay, step, List.countP_append]
      split <;> simp [Phase.isOpen]
  | countToday i available => exact .ofTask fun t h ↦ (effect_count caps available h _).1
  | countMinute i available => exact .ofTask fun t h ↦ (effect_count caps available h _).2
  | choose i g => exact .ofTask fun t h ↦ effect_choose caps g h
  | reply i content =>
    refine .ofTask fun t h ↦ ?_
    simp only [taskStep]
    split
    · rename_i hp
      exact .put h (fun _ ↦ rfl) (by simp [hp, Phase.isOpen])
    · exact .same
  | record i o => exact .ofTask fun t h ↦ effect_record caps o h _
  | store i committed => exact .ofTask fun t h ↦ effect_store caps committed h _
  | cancel i => exact .ofTask fun t h ↦ .shut h (fun _ ↦ rfl) rfl

/-- No day is over the cap, the day that runs has room for what is under way, and no row is of a later day. -/
structure Inv (caps : Caps) (w : World) : Prop where
  within : ∀ day, (load w day : ℤ) ≤ aiDailyCap caps
  today : ((load w (dayOf w.clock) + underWay w : ℕ) : ℤ) ≤ aiDailyCap caps
  future : ∀ day, dayOf w.clock < day → load w day = 0

theorem Inv.init (caps : Caps) : Inv caps World.init := by
  have hcap : 0 ≤ aiDailyCap caps := by
    rw [aiDailyCap]
    cases caps.daily with
    | unset => decide
    | invalid => decide
    | value n => exact le_trans (by decide) (le_max_left 1 n)
  exact ⟨fun _ ↦ hcap, hcap, fun _ _ ↦ rfl⟩

theorem Inv.less {caps : Caps} {w w' : World} (h : Inv caps w) (hload : ∀ day, load w' day ≤ load w day)
    (hclock : w'.clock = w.clock) (htoday : ((load w' (dayOf w.clock) + underWay w' : ℕ) : ℤ) ≤ aiDailyCap caps) :
    Inv caps w' := by
  refine ⟨?_, hclock ▸ htoday, ?_⟩
  · intro day
    have hwithin := h.within day
    have hday := hload day
    omega
  · intro day hd
    rw [hclock] at hd
    have hday := hload day
    rw [h.future day hd] at hday
    omega

theorem Inv.step {caps : Caps} {w : World} (h : Inv caps w) {e : Event} (he : Reserves caps w e) :
    Inv caps (step caps w e) := by
  have htoday := h.today
  cases step_effect caps w e with
  | tick hload hopen hclock =>
    have hday : dayOf w.clock ≤ dayOf (LlmRouter.step caps w e).clock := Nat.div_le_div_right hclock
    refine ⟨fun day ↦ hload day ▸ h.within day, ?_, ?_⟩
    · rw [hload, hopen]
      rcases hday.eq_or_lt with heq | hlt
      · rw [← heq]
        exact htoday
      · rw [h.future _ hlt]
        omega
    · intro day hd
      rw [hload]
      exact h.future day (hday.trans_lt hd)
  | quiet hload hopen hclock =>
    have hday := hload (dayOf w.clock)
    exact h.less hload hclock (by omega)
  | stamp hload hopen hclock =>
    refine ⟨?_, ?_, ?_⟩
    · intro day
      have hwithin := h.within day
      have hday := hload day
      split at hday
      · rename_i hd
        subst hd
        omega
      · omega
    · rw [hclock]
      have hday := hload (dayOf w.clock)
      rw [if_pos rfl] at hday
      omega
    · intro day hd
      rw [hclock] at hd
      have hday := hload day
      rw [if_neg (Nat.ne_of_gt hd), h.future day hd] at hday
      omega
  | start hstart hload hopen hclock =>
    have hroom := he hstart
    have hday := hload (dayOf w.clock)
    refine h.less hload hclock ?_
    simp only [load] at hday ⊢
    omega

/-- As long as an attempt starts only where the day has room for it, no day has more attempts recorded than
the cap. -/
theorem recorded_within_cap (caps : Caps) (events before : List Event)
    (h : Along (step caps) (Reserves caps) World.init events) (hb : before <+: events) (day : ℕ) :
    (recordedOn (run (step caps) World.init before) day : ℤ) ≤ aiDailyCap caps := by
  have hinv : Inv caps (run (step caps) World.init before) := by
    refine run_prefix_induction ?_ (Inv.init caps) h hb
    intro w e hw he
    exact hw.step he
  have hload := hinv.within day
  rw [load] at hload
  omega

def openGate : Gate := ⟨true, true, true, false, false⟩

def extraction : Request :=
  ⟨"product_extraction".toList, true, "task".toList, [], false,
    [⟨"groq".toList, []⟩, ⟨"cerebras".toList, []⟩]⟩

/-- The first provider fails and the second answers. -/
def failover : List Event :=
  [.call extraction, .countToday 0 true, .countMinute 0 true, .choose 0 openGate, .reply 0 false, .record 0 .stamped,
    .store 0 true, .choose 0 openGate, .reply 0 true, .record 0 .stamped, .store 0 true]

/-- Two tasks are admitted before either has an attempt recorded. -/
def twoAtOnce : List Event :=
  [.call extraction, .call extraction, .countToday 0 true, .countToday 1 true, .countMinute 0 true, .countMinute 1 true,
    .choose 0 openGate, .choose 1 openGate, .reply 0 true, .record 0 .stamped, .store 0 true, .reply 1 true,
    .record 1 .stamped, .store 1 true]

theorem recorded_over_cap :
    aiDailyCap ⟨.value 1, .unset⟩ < (recordedOn (run (step ⟨.value 1, .unset⟩) World.init failover) 0 : ℤ) ∧
      aiDailyCap ⟨.value 1, .unset⟩ < (recordedOn (run (step ⟨.value 1, .unset⟩) World.init twoAtOnce) 0 : ℤ) := by
  constructor <;> decide +kernel

theorem failover_within_two :
    recordedOn (run (step ⟨.value 2, .unset⟩) World.init failover) 0 = 2 ∧
      (recordedOn (run (step ⟨.value 2, .unset⟩) World.init failover) 0 : ℤ) ≤ aiDailyCap ⟨.value 2, .unset⟩ := by
  have hrun : Along (step ⟨.value 2, .unset⟩) (Reserves ⟨.value 2, .unset⟩) World.init failover := by decide +kernel
  exact ⟨by decide +kernel, recorded_within_cap ⟨.value 2, .unset⟩ failover _ hrun List.prefix_rfl 0⟩

end Briefr.Ai.LlmRouter
