import Briefr.Library.Runs
import Briefr.Python.Value

namespace Briefr.Catchup

open Briefr.Python Briefr.Library Briefr.Library.Runs

/-- Instants are microseconds of UTC; `F` is the type of `float`. -/
class Times (F : Type) where
  isoformat : ℤ → Text
  hoursBetween : ℤ → ℤ → F
  addHours : ℤ → F → Py ℤ
  isPositive : F → Bool
  exceeds : F → ℕ → Bool
  ofNat : ℕ → F

export Times (isoformat)

def defaultDurationHours : ℕ := 6

def maxDurationHours : ℕ := 24

def windDownSeconds : ℤ := 300

structure CatchupState (F : Type) where
  active : Bool := false
  startedAt : Option ℤ := none
  endsAt : Option ℤ := none
  durationHours : Option F := none
  startedBy : Option Text := none
  clearedReason : Option Text := none
  /-- False means that `sync_state` still needs a write for this transition. -/
  dbPersisted : Bool := true

/-- What `_public_status` leaves of a status, and what is stored in `sync_state`. -/
structure PublicStatus (F : Type) where
  active : Bool
  startedAt : Option Text
  endsAt : Option Text
  durationHours : Option F
  startedBy : Option Text
  clearedReason : Option Text
  inWindDown : Bool
  shouldStartNewWork : Bool

structure Status (F : Type) extends PublicStatus F where
  dbPersisted : Bool

inductive StartError
  | conflict (message : Text)
  | validation (message : Text)
  | raised (exc : Exc)

section
variable {F : Type}

def expireIfNeeded (now : ℤ) (st : CatchupState F) : CatchupState F :=
  if st.active && st.endsAt.any (· ≤ now) then
    { st with active := false, clearedReason := some "expired".toList, dbPersisted := false }
  else st

def inWindDown (now : ℤ) (st : CatchupState F) : Bool :=
  st.active && st.endsAt.any fun endsAt ↦ endsAt - now ≤ windDownSeconds * 1000000

variable [Times F]

def statusLocked (now : ℤ) (st : CatchupState F) : Status F where
  active := st.active
  startedAt := st.startedAt.map (isoformat F)
  endsAt := st.endsAt.map (isoformat F)
  durationHours := st.durationHours
  startedBy := st.startedBy
  clearedReason := st.clearedReason
  inWindDown := inWindDown now st
  shouldStartNewWork := st.active && !inWindDown now st
  dbPersisted := st.dbPersisted

/-- The end of the window is the instant that `_as_utc` makes of it. -/
def resolveWindow (startedAt : ℤ) (durationHours : Option F) (endsAt : Option ℤ) : Except StartError (F × ℤ) := do
  let (duration, endTime) ←
    match durationHours, endsAt with
    | some _, some _ => .error (.validation "Provide duration_hours or ends_at, not both".toList)
    | _, some endTime => pure (Times.hoursBetween startedAt endTime, endTime)
    | durationHours, none =>
      let duration := durationHours.getD (Times.ofNat defaultDurationHours)
      match Times.addHours startedAt duration with
      | .ok endTime => pure (duration, endTime)
      | .error exc => .error (.raised exc)
  if !Times.isPositive duration then .error (.validation "Catch-up duration must be in the future".toList)
  else if Times.exceeds duration maxDurationHours then
    .error (.validation "Catch-up duration cannot exceed 24 hours".toList)
  else pure (duration, endTime)

/-- What `_utc_now` returns to the expiry check, to the transition and to the status. -/
structure Clock where
  expiry : ℤ
  transition : ℤ
  status : ℤ

def getCatchupStatus (clock : Clock) (st : CatchupState F) : Status F × CatchupState F :=
  let st := expireIfNeeded clock.expiry st
  (statusLocked clock.status st, st)

def stopCatchup (clock : Clock) (reason : Text) (st : CatchupState F) : Status F × CatchupState F :=
  let st := expireIfNeeded clock.expiry st
  let st := if st.active then { st with active := false, clearedReason := some reason, dbPersisted := false } else st
  (statusLocked clock.status st, st)

def startCatchup (clock : Clock) (durationHours : Option F) (endsAt : Option ℤ) (startedBy : Option Text)
    (st : CatchupState F) : Except StartError (Status F) × CatchupState F :=
  let st := expireIfNeeded clock.expiry st
  if st.active then (.error (.conflict "Catch-up mode is already active".toList), st)
  else
    match resolveWindow clock.transition durationHours endsAt with
    | .error e => (.error e, st)
    | .ok (duration, endTime) =>
      let st := {
        active := true, startedAt := some clock.transition, endsAt := some endTime, durationHours := some duration
        startedBy := startedBy, clearedReason := none, dbPersisted := false }
      (.ok (statusLocked clock.status st), st)

end

/-- A running `persist_catchup_status`: before its commit, between the commit and the flag, and in its `finally`. -/
inductive Phase
  | writing
  | committed
  | closing
  deriving DecidableEq

structure Persist (F : Type) where
  payload : PublicStatus F
  phase : Phase

structure World (F : Type) where
  state : CatchupState F
  blob : Option (PublicStatus F)
  persists : ℕ → Option (Persist F)

inductive Event (F : Type)
  | start (clock : Clock) (durationHours : Option F) (endsAt : Option ℤ) (startedBy : Option Text)
  | stop (clock : Clock) (reason : Text)
  | read (clock : Clock)
  | persist (p : ℕ) (clock : Clock) (status : Option (PublicStatus F))
  | commit (p : ℕ)
  | mark (p : ℕ)
  | fail (p : ℕ)
  | close (p : ℕ)

section
variable {F : Type}

def World.init (state : CatchupState F) (blob : Option (PublicStatus F)) : World F := ⟨state, blob, fun _ ↦ none⟩

def World.set (w : World F) (p : ℕ) (persist : Option (Persist F)) : World F :=
  { w with persists := Function.update w.persists p persist }

def World.idle (w : World F) : Prop := ∀ p, w.persists p = none

variable [Times F]

/-- `persist_catchup_status` up to its first `await`. -/
def beginPersist (w : World F) (p : ℕ) (clock : Clock) : Option (PublicStatus F) → World F
  | some status => w.set p (some ⟨status, .writing⟩)
  | none =>
    let (status, state) := getCatchupStatus clock w.state
    { w with state := state }.set p (some ⟨status.toPublicStatus, .writing⟩)

def step (w : World F) : Event F → World F
  | .start clock durationHours endsAt startedBy =>
    { w with state := (startCatchup clock durationHours endsAt startedBy w.state).2 }
  | .stop clock reason => { w with state := (stopCatchup clock reason w.state).2 }
  | .read clock => { w with state := (getCatchupStatus clock w.state).2 }
  | .persist p clock status =>
    match w.persists p with
    | none => beginPersist w p clock status
    | some _ => w
  | .commit p =>
    match w.persists p with
    | some ⟨payload, .writing⟩ => { w with blob := some payload }.set p (some ⟨payload, .committed⟩)
    | _ => w
  | .mark p =>
    match w.persists p with
    | some ⟨payload, .committed⟩ =>
      { w with state := { w.state with dbPersisted := true } }.set p (some ⟨payload, .closing⟩)
    | _ => w
  | .fail p =>
    match w.persists p with
    | some ⟨payload, _⟩ => w.set p (some ⟨payload, .closing⟩)
    | none => w
  | .close p =>
    match w.persists p with
    | some ⟨_, .closing⟩ => w.set p none
    | _ => w

def PublicStatus.Describes (s : PublicStatus F) (st : CatchupState F) : Prop :=
  s.active = st.active ∧ s.startedAt = st.startedAt.map (isoformat F) ∧ s.endsAt = st.endsAt.map (isoformat F) ∧
    s.startedBy = st.startedBy ∧ s.clearedReason = st.clearedReason

/-- A state that was never active needs no stored status. -/
def World.stored (w : World F) : PublicStatus F := w.blob.getD (statusLocked 0 ({} : CatchupState F)).toPublicStatus

/-- The flag is right. -/
def World.Truthful (w : World F) : Prop := w.state.dbPersisted = true → w.stored.Describes w.state

/-- What a call can make of the state: a transition clears the flag. -/
def Marked (st st' : CatchupState F) : Prop := st' = st ∨ st'.dbPersisted = false

omit [Times F] in
theorem marked_expire (now : ℤ) (st : CatchupState F) : Marked st (expireIfNeeded now st) := by
  rw [expireIfNeeded]
  split
  · exact .inr rfl
  · exact .inl rfl

omit [Times F] in
theorem Marked.trans {st st' st'' : CatchupState F} (h : Marked st st') (h' : Marked st' st'') : Marked st st'' := by
  rcases h' with rfl | h'
  · exact h
  · exact .inr h'

theorem marked_start (clock : Clock) (durationHours : Option F) (endsAt : Option ℤ) (startedBy : Option Text)
    (st : CatchupState F) : Marked st (startCatchup clock durationHours endsAt startedBy st).2 := by
  refine (marked_expire clock.expiry st).trans ?_
  simp only [startCatchup]
  split
  · exact .inl rfl
  · split
    · exact .inl rfl
    · exact .inr rfl

theorem marked_stop (clock : Clock) (reason : Text) (st : CatchupState F) :
    Marked st (stopCatchup clock reason st).2 := by
  refine (marked_expire clock.expiry st).trans ?_
  simp only [stopCatchup]
  split
  · exact .inr rfl
  · exact .inl rfl

theorem World.Truthful.marked {w : World F} {st : CatchupState F} (h : w.Truthful) (hm : Marked w.state st) :
    { w with state := st }.Truthful := by
  rcases hm with rfl | hm
  · exact h
  · intro hp
    exact absurd (hm.symm.trans hp) (by simp)

/-- Whenever a status is committed under a set flag it is the current one, and whenever the flag is set the status
committed last is the current one. -/
def Current (w : World F) : Event F → Prop
  | .commit p =>
    ∀ payload, w.persists p = some ⟨payload, .writing⟩ → w.state.dbPersisted = true → payload.Describes w.state
  | .mark p => ∀ payload, w.persists p = some ⟨payload, .committed⟩ → w.stored.Describes w.state
  | _ => True

theorem Current.truthful {w : World F} {e : Event F} (hw : w.Truthful) (h : Current w e) : (step w e).Truthful := by
  cases e with
  | start clock durationHours endsAt startedBy => exact hw.marked (marked_start clock durationHours endsAt startedBy _)
  | stop clock reason => exact hw.marked (marked_stop clock reason _)
  | read clock => exact hw.marked (marked_expire clock.expiry _)
  | persist p clock status =>
    simp only [step]
    split
    · cases status with
      | some status => exact hw
      | none => exact hw.marked (marked_expire clock.expiry _)
    · exact hw
  | commit p =>
    simp only [step]
    split
    · next payload hp => exact fun hf ↦ h payload hp hf
    · exact hw
  | mark p =>
    simp only [step]
    split
    · next payload hp => exact fun _ ↦ h payload hp
    · exact hw
  | fail p =>
    simp only [step]
    split <;> exact hw
  | close p =>
    simp only [step]
    split <;> exact hw

theorem truthful_step_iff {w : World F} {e : Event F} (hw : w.Truthful) : (step w e).Truthful ↔ Current w e := by
  refine ⟨fun h ↦ ?_, Current.truthful hw⟩
  cases e with
  | commit p =>
    intro payload hp hf
    simp only [step, hp] at h
    exact h hf
  | mark p =>
    intro payload hp
    simp only [step, hp] at h
    exact h rfl
  | _ => trivial

/-- A running persist fails or returns. -/
def Ending : Event F → Prop
  | .fail _ | .close _ => True
  | _ => False

theorem truthful_ending {w : World F} {e : Event F} (h : Ending e) : (step w e).Truthful ↔ w.Truthful := by
  cases e with
  | fail p =>
    simp only [step]
    split <;> rfl
  | close p =>
    simp only [step]
    split <;> rfl
  | _ => exact h.elim

theorem truthful_run_ending {w : World F} {rest : List (Event F)} (h : ∀ e ∈ rest, Ending e) :
    (run step w rest).Truthful ↔ w.Truthful := by
  induction rest generalizing w with
  | nil => rfl
  | cons e rest ih =>
    rw [run_cons, ih fun e he ↦ h e (.tail _ he), truthful_ending (h e (.head _))]

/-- The persists that run have ids below `n`. -/
def World.Below (w : World F) (n : ℕ) : Prop := ∀ p, n ≤ p → w.persists p = none

omit [Times F] in
theorem World.Below.set {w : World F} {n p : ℕ} (h : w.Below n) (persist : Option (Persist F)) :
    (w.set p persist).Below (max n (p + 1)) := by
  intro q hq
  have hne : q ≠ p := by omega
  exact (Function.update_of_ne hne _ _).trans (h q (le_trans (le_max_left _ _) hq))

theorem World.Below.step {w : World F} {n : ℕ} (h : w.Below n) (e : Event F) : ∃ m, (step w e).Below m := by
  cases e with
  | persist p clock status =>
    simp only [Catchup.step]
    split
    · cases status with
      | some status => exact ⟨_, h.set _⟩
      | none => exact ⟨_, World.Below.set (w := { w with state := (getCatchupStatus clock w.state).2 }) h _⟩
    · exact ⟨n, h⟩
  | commit p =>
    simp only [Catchup.step]
    split
    · next payload _ => exact ⟨_, World.Below.set (w := { w with blob := some payload }) h _⟩
    · exact ⟨n, h⟩
  | mark p =>
    simp only [Catchup.step]
    split
    · exact ⟨_, World.Below.set (w := { w with state := { w.state with dbPersisted := true } }) h _⟩
    · exact ⟨n, h⟩
  | fail p =>
    simp only [Catchup.step]
    split
    · exact ⟨_, h.set _⟩
    · exact ⟨n, h⟩
  | close p =>
    simp only [Catchup.step]
    split
    · exact ⟨_, h.set _⟩
    · exact ⟨n, h⟩
  | _ => exact ⟨n, h⟩

theorem persists_fail_close (w : World F) (p : ℕ) :
    (step (step w (.fail p)) (.close p)).persists = Function.update w.persists p none := by
  cases hp : w.persists p with
  | none =>
    simp only [step, hp]
    exact (Function.update_eq_self_iff.mpr hp.symm).symm
  | some persist => simp [step, hp, World.set]

/-- All that run can fail. -/
theorem World.Below.idle {w : World F} {n : ℕ} (h : w.Below n) :
    ∃ rest, (∀ e ∈ rest, Ending e) ∧ (run Catchup.step w rest).idle := by
  induction n generalizing w with
  | zero => exact ⟨[], by simp, fun p ↦ h p (Nat.zero_le p)⟩
  | succ n ih =>
    have hb : (Catchup.step (Catchup.step w (.fail n)) (.close n)).Below n := by
      intro p hp
      rw [persists_fail_close]
      by_cases hpn : p = n
      · rw [hpn, Function.update_self]
      · rw [Function.update_of_ne hpn]
        exact h p (by omega)
    obtain ⟨rest, hrest, hi⟩ := ih hb
    refine ⟨.fail n :: .close n :: rest, ?_, hi⟩
    intro e he
    rcases List.mem_cons.mp he with rfl | he
    · trivial
    · rcases List.mem_cons.mp he with rfl | he
      · trivial
      · exact hrest e he

/-- However the persists end that run now, the flag is right when none runs. -/
def World.Settles (w : World F) : Prop :=
  ∀ rest, (∀ e ∈ rest, Ending e) → (run step w rest).idle → (run step w rest).Truthful

theorem settles_iff {w : World F} {n : ℕ} (hb : w.Below n) : w.Settles ↔ w.Truthful := by
  constructor
  · intro h
    obtain ⟨rest, hrest, hi⟩ := hb.idle
    exact (truthful_run_ending hrest).mp (h rest hrest hi)
  · intro h rest hrest _
    exact (truthful_run_ending hrest).mpr h

/-- The flag is right, and finitely many persists run. -/
def World.Sound (w : World F) : Prop := w.Truthful ∧ ∃ n, w.Below n

theorem World.Sound.settles {w : World F} (h : w.Sound) : w.Settles := by
  obtain ⟨hw, n, hb⟩ := h
  exact (settles_iff hb).mpr hw

theorem World.Sound.step {w : World F} {e : Event F} (h : w.Sound) (he : Current w e) : (Catchup.step w e).Sound := by
  obtain ⟨hw, n, hb⟩ := h
  exact ⟨he.truthful hw, hb.step e⟩

theorem World.Sound.not_settles {w : World F} {e : Event F} (h : w.Sound) (he : ¬Current w e) :
    ¬(Catchup.step w e).Settles := by
  obtain ⟨hw, n, hb⟩ := h
  obtain ⟨m, hb'⟩ := hb.step e
  intro hs
  exact he ((truthful_step_iff hw).mp ((settles_iff hb').mp hs))

/-- From a state in which nothing runs, the flag is right whenever no persist runs, in this run and in those that go
on from it by failures alone, exactly when it is right at the start and each step meets `Current`. -/
theorem persisted_flag_truthful_iff (state : CatchupState F) (blob : Option (PublicStatus F)) (events : List (Event F)) :
    (∀ before, before <+: events → (run step (.init state blob) before).Settles) ↔
      (World.init state blob).Truthful ∧ Along step Current (.init state blob) events := by
  have hinit : (World.init state blob).Below 0 := fun _ _ ↦ rfl
  have hiff : (World.init state blob).Truthful →
      ((∀ before, before <+: events → (run step (.init state blob) before).Settles) ↔
        Along step Current (.init state blob) events) := fun h ↦
    forall_prefix_iff (fun _ hw ↦ World.Sound.settles hw) (fun _ _ hw he ↦ World.Sound.step hw he)
      (fun _ _ hw he ↦ World.Sound.not_settles hw he) ⟨h, 0, hinit⟩
  constructor
  · intro h
    have h0 := (settles_iff hinit).mp (h [] List.nil_prefix)
    exact ⟨h0, (hiff h0).mp h⟩
  · intro ⟨h0, h⟩
    exact (hiff h0).mpr h

end

section

/-- Whole hours for the durations. -/
local instance wholeHours : Times ℤ where
  isoformat t := (toString t).toList
  hoursBetween a b := (b - a) / 3600000000
  addHours t h := .ok (t + h * 3600000000)
  isPositive h := decide (0 < h)
  exceeds h n := decide ((n : ℤ) < h)
  ofNat n := n

/-- A slow write of the started catch-up: it is stopped before the write is committed, and the write of the stop
fails. -/
def stoppedMeanwhile : List (Event ℤ) :=
  [.start ⟨0, 0, 0⟩ none none none, .persist 0 ⟨1, 1, 1⟩ none, .stop ⟨2, 2, 2⟩ "ended_early".toList,
    .persist 1 ⟨3, 3, 3⟩ none, .commit 0, .mark 0, .close 0, .fail 1, .close 1]

theorem persisted_flag_wrong :
    ¬∀ events : List (Event ℤ), (run step (.init {} none) events).idle → (run step (.init {} none) events).Truthful := by
  intro h
  have hidle : (run step (.init {} none) stoppedMeanwhile).idle := by
    intro p
    simp only [stoppedMeanwhile, run_cons, run_nil]
    match p with
    | 0 => decide
    | 1 => decide
    | p + 2 => rfl
  have hactive := (h stoppedMeanwhile hidle (by decide)).1
  revert hactive
  decide

end

end Briefr.Catchup
