import Briefr.Backfill.Progress
import Mathlib.Logic.Function.Basic

namespace Briefr.Backfill

open Briefr.Python Briefr.Library.Runs

/-- One call of `process_stack_backfill_run`, and whether its claim of the run succeeded. -/
structure Call where
  worker : Worker
  claimed : Bool

/-- A run and the calls for it that have neither returned nor crashed. -/
structure Calls where
  tables : Tables
  calls : ℕ → Option Call

inductive CallEvent
  | start (i : ℕ) (monotonic : ℤ)
  | step (i : ℕ) (now : ℤ) (s : Step)

/-- The step is a successful `claim_run_running`. -/
def wins (stale now : ℤ) (t : Tables) (w : Worker) (s : Step) : Bool :=
  match s, w.phase with
  | .claim, .claiming => claimable stale now t.run
  | _, _ => false

def callStep (stale : ℤ) (w : Calls) : CallEvent → Calls
  | .start i monotonic =>
    match w.calls i with
    | none => { w with calls := Function.update w.calls i ((begin monotonic w.tables).map fun wk ↦ ⟨wk, false⟩) }
    | some _ => w
  | .step i now s =>
    match w.calls i with
    | none => w
    | some c =>
      let r := advance stale now w.tables c.worker s
      ⟨r.1, Function.update w.calls i (r.2.map fun wk ↦ ⟨wk, c.claimed || wins stale now w.tables c.worker s⟩)⟩

/-- Past a successful claim, and not yet returned. -/
def Live (w : Calls) (i : ℕ) : Prop := (w.calls i).any Call.claimed = true

def OneLive (w : Calls) : Prop := ∀ i j, Live w i → Live w j → i = j

theorem live_iff {w : Calls} {i : ℕ} : Live w i ↔ ∃ c, w.calls i = some c ∧ c.claimed = true := by
  rw [Live]
  cases w.calls i <;> simp

/-- The run was handed back for a later resume. -/
def HandedBack (run : Run) : Prop := run.status = .deferred ∨ run.status = .onHold

/-- Nobody tries to claim the run while another call has handed it back but not returned, or has not committed for
longer than the stale seconds. -/
def Unstolen (stale : ℤ) (w : Calls) : CallEvent → Prop
  | .step i now .claim => ∀ c, w.calls i = some c → c.worker.phase = .claiming →
    ∀ j d, w.calls j = some d → d.claimed = true →
      w.tables.run.status.isTerminal = true ∨ (¬HandedBack w.tables.run ∧ now - stale ≤ d.worker.beat)
  | _ => True

/-- The heartbeat of the run is that of the call that works on it. -/
def Beats (run : Run) (w : Worker) : Prop :=
  w.phase ≠ .claiming ∧ run.status ≠ .pending ∧ (run.status = .running → run.updatedAt = some w.beat)

def Waits (w : Worker) : Prop := w.phase = .claiming ∨ w.phase = .closing

structure Lease (w : Calls) : Prop where
  one : OneLive w
  live : ∀ i c, w.calls i = some c → c.claimed = true → Beats w.tables.run c.worker
  waits : ∀ i c, w.calls i = some c → c.claimed = false → Waits c.worker

/-- The call that has the run, if it still runs after the step, keeps its heartbeat. -/
def Beating (r : Tables × Option Worker) : Prop := ∀ wk, r.2 = some wk → Beats r.1.run wk

theorem Beating.gone (t : Tables) : Beating (t, none) := by
  intro wk hwk
  cases hwk

theorem Beats.moved {t : Tables} {w : Worker} (h : Beats t.run w) {phase : Phase} (hp : phase ≠ .claiming) :
    Beating (t, some { w with phase := phase }) := by
  intro wk hwk
  obtain rfl := Option.some.inj hwk
  exact ⟨hp, h.2⟩

theorem Beating.write {now : ℤ} {t : Tables} {f : Run → Run} {w : Worker} (hp : w.phase ≠ .claiming)
    (hf : (f t.run).status ≠ .pending) : Beating (updateRun now t f, some { w with beat := now }) := by
  intro wk hwk
  obtain rfl := Option.some.inj hwk
  exact ⟨hp, hf, fun _ ↦ rfl⟩

theorem Beating.handle (now : ℤ) (t : Tables) (w : Worker) : Beating (handle now t w) := by
  rw [Backfill.handle]
  refine .write (w := { w with phase := .closing }) ?_ ?_ <;> simp

theorem pageBranch_working (w : Worker) (cp : Checkpoint) (p : Page) {run : Run} (h : run.status ≠ .pending) :
    (pageBranch w cp p).next.phase ≠ .claiming ∧ ((pageBranch w cp p).run run).status ≠ .pending := by
  rw [pageBranch]
  split
  · simp
  · split
    · simp
    · split <;> exact ⟨by simp, h⟩

theorem Beats.page {now : ℤ} {t : Tables} {w : Worker} {cp : Checkpoint} {p : Page} {fault : Fault}
    (h : Beats t.run w) : Beating (pageStep now t w cp p fault) := by
  cases fault with
  | beforeCheckpoint => exact .handle _ _ _
  | afterCheckpoint => exact .handle _ _ _
  | none =>
    have hrun : ((pageBranch w cp p).write t).run = t.run := run_upsertCheckpoint _ _
    obtain ⟨hp, hs⟩ := pageBranch_working w cp p h.2.1
    exact .write hp (hrun ▸ hs)

theorem Beats.loop {now monotonic : ℤ} {t : Tables} {w : Worker} (h : Beats t.run w) :
    Beating (loopStep now monotonic t w) := by
  rw [loopStep]
  split
  · refine .write (w := { w with phase := .closing }) ?_ ?_ <;> simp
  · split
    · refine .write (w := { w with phase := .closing }) ?_ ?_ <;> simp
    · split
      · next cp hcp =>
        refine .write (w := { w with phase := .fetching cp }) (by simp) ?_
        rw [run_upsertCheckpoint]
        exact h.2.1
      · split
        · exact h.moved (by simp)
        · exact .write (w := { w with phase := .enriching }) (by simp) h.2.1

/-- A call that has the run renews its heartbeat with each of its commits. -/
theorem Beats.advance {stale now : ℤ} {t : Tables} {w : Worker} {s : Step} (h : Beats t.run w) :
    Beating (advance stale now t w s) := by
  have hsame : Beating (t, some w) := h.moved h.1
  cases s with
  | claim =>
    cases hw : w.phase with
    | claiming => exact absurd hw h.1
    | _ => simpa only [Backfill.advance, hw] using hsame
  | loop monotonic =>
    cases hw : w.phase with
    | looping => simpa only [Backfill.advance, hw] using h.loop
    | _ => simpa only [Backfill.advance, hw] using hsame
  | page p fault =>
    cases hw : w.phase with
    | fetching cp => simpa only [Backfill.advance, hw] using h.page
    | _ => simpa only [Backfill.advance, hw] using hsame
  | resumed =>
    cases hw : w.phase with
    | deferring =>
      simp only [Backfill.advance, hw]
      exact .write (w := { w with phase := .closing }) (by simp) h.2.1
    | _ => simpa only [Backfill.advance, hw] using hsame
  | enrich =>
    cases hw : w.phase with
    | enriching =>
      have hmoved : Beating (t, some { w with phase := .completing }) := h.moved (by simp)
      simp only [Backfill.advance, hw]
      exact fun wk hwk ↦ hmoved wk hwk
    | _ => simpa only [Backfill.advance, hw] using hsame
  | complete =>
    cases hw : w.phase with
    | completing =>
      simp only [Backfill.advance, hw]
      refine .write (w := { w with phase := .closing }) ?_ ?_ <;> simp
    | _ => simpa only [Backfill.advance, hw] using hsame
  | raise handled =>
    have hclosing : Beating (t, some { w with phase := .closing }) := h.moved (by simp)
    cases handled <;> cases hw : w.phase <;> simp only [Backfill.advance, hw] <;>
      first
        | exact .handle _ _ _
        | exact .gone _
        | exact hsame
        | exact hclosing
  | close =>
    cases hw : w.phase with
    | closing => simpa only [Backfill.advance, hw] using Beating.gone t
    | _ => simpa only [Backfill.advance, hw] using hsame
  | crash => exact .gone _

/-- A step of a call that has not got the run, short of a successful claim: it can only fail the run. -/
structure Idle (t : Tables) (r : Tables × Option Worker) : Prop where
  run : r.1.run = t.run ∨ r.1.run.status = .failed
  waits : ∀ wk, r.2 = some wk → Waits wk

theorem Idle.gone (t : Tables) : Idle t (t, none) := ⟨.inl rfl, by simp⟩

theorem Idle.handle (now : ℤ) (t : Tables) (w : Worker) : Idle t (handle now t w) := by
  refine ⟨.inr rfl, fun wk hwk ↦ ?_⟩
  obtain rfl := Option.some.inj hwk
  exact .inr rfl

theorem Waits.advance {stale now : ℤ} {t : Tables} {w : Worker} {s : Step} (h : Waits w)
    (hs : wins stale now t w s = false) : Idle t (advance stale now t w s) := by
  have hsame : Idle t (t, some w) := ⟨.inl rfl, fun wk hwk ↦ Option.some.inj hwk ▸ h⟩
  rcases h with hw | hw
  · cases s with
    | claim =>
      simp only [wins, hw] at hs
      simp only [Backfill.advance, hw, claimRunRunning, hs]
      exact .gone t
    | raise handled =>
      cases handled <;> simp only [Backfill.advance, hw]
      · exact .gone t
      · exact .handle now t w
    | crash => exact .gone t
    | _ => simpa only [Backfill.advance, hw] using hsame
  · cases s with
    | raise handled =>
      cases handled <;> simp only [Backfill.advance, hw]
      · exact .gone t
      · exact hsame
    | close => simpa only [Backfill.advance, hw] using Idle.gone t
    | crash => exact .gone t
    | _ => simpa only [Backfill.advance, hw] using hsame

theorem advance_wins {stale now : ℤ} {t : Tables} {w : Worker} {s : Step} (h : wins stale now t w s = true) :
    s = .claim ∧ w.phase = .claiming ∧ claimable stale now t.run = true ∧
      advance stale now t w s =
        (updateRun now t fun run ↦ { run with status := .running }, some { w with phase := .looping, beat := now }) := by
  cases s with
  | claim =>
    cases hw : w.phase with
    | claiming =>
      simp only [wins, hw] at h
      exact ⟨rfl, rfl, h, by simp only [advance, hw, claimRunRunning, h, if_true]⟩
    | _ => simp [wins, hw] at h
  | _ => simp [wins] at h

/-- After a step of one call the others are where they were. -/
theorem eq_some_of_update {calls : ℕ → Option Call} {i j : ℕ} {call : Option Call} {d : Call}
    (h : Function.update calls i call j = some d) : j = i ∧ call = some d ∨ j ≠ i ∧ calls j = some d := by
  by_cases hj : j = i
  · subst hj
    rw [Function.update_self] at h
    exact .inl ⟨rfl, h⟩
  · rw [Function.update_of_ne hj] at h
    exact .inr ⟨hj, h⟩

theorem Lease.of_only {w : Calls} {i : ℕ} {t : Tables} {call : Option Call}
    (hone : ∀ j d, j ≠ i → w.calls j = some d → d.claimed = false)
    (hlive : ∀ d, call = some d → d.claimed = true → Beats t.run d.worker)
    (hi : ∀ d, call = some d → d.claimed = false → Waits d.worker)
    (hwaits : ∀ j d, w.calls j = some d → d.claimed = false → Waits d.worker) :
    Lease ⟨t, Function.update w.calls i call⟩ := by
  have honly : ∀ j d, Function.update w.calls i call j = some d → d.claimed = true → j = i ∧ call = some d := by
    intro j d hd hc
    rcases eq_some_of_update hd with ⟨hj, hd⟩ | ⟨hj, hd⟩
    · exact ⟨hj, hd⟩
    · rw [hone j d hj hd] at hc
      cases hc
  refine ⟨?_, ?_, ?_⟩
  · intro j k hj hk
    obtain ⟨d, hd, hdc⟩ := live_iff.mp hj
    obtain ⟨e, he, hec⟩ := live_iff.mp hk
    exact (honly j d hd hdc).1.trans (honly k e he hec).1.symm
  · intro j d hd hc
    exact hlive d (honly j d hd hc).2 hc
  · intro j d hd hc
    rcases eq_some_of_update hd with ⟨-, hd⟩ | ⟨-, hd⟩
    · exact hi d hd hc
    · exact hwaits j d hd hc

/-- A call that has not got the run comes, goes on or ends. -/
theorem Lease.of_waiting {w : Calls} {i : ℕ} {t : Tables} {call : Option Call} (h : Lease w)
    (hrun : t.run = w.tables.run ∨ t.run.status = .failed)
    (hcall : ∀ d, call = some d → d.claimed = false ∧ Waits d.worker) :
    Lease ⟨t, Function.update w.calls i call⟩ := by
  have hold : ∀ j d, Function.update w.calls i call j = some d → d.claimed = true → w.calls j = some d := by
    intro j d hd hc
    rcases eq_some_of_update hd with ⟨-, hd⟩ | ⟨-, hd⟩
    · rw [(hcall d hd).1] at hc
      cases hc
    · exact hd
  refine ⟨?_, ?_, ?_⟩
  · intro j k hj hk
    obtain ⟨d, hd, hdc⟩ := live_iff.mp hj
    obtain ⟨e, he, hec⟩ := live_iff.mp hk
    exact h.one j k (live_iff.mpr ⟨d, hold j d hd hdc, hdc⟩) (live_iff.mpr ⟨e, hold k e he hec, hec⟩)
  · intro j d hd hc
    have hbeats := h.live j d (hold j d hd hc) hc
    rcases hrun with hrun | hfailed
    · rw [hrun]
      exact hbeats
    · exact ⟨hbeats.1, by simp [hfailed], by simp [hfailed]⟩
  · intro j d hd hc
    rcases eq_some_of_update hd with ⟨-, hd⟩ | ⟨-, hd⟩
    · exact (hcall d hd).2
    · exact h.waits j d hd hc

theorem waits_of_begin {monotonic : ℤ} {t : Tables} {wk : Worker} (h : begin monotonic t = some wk) : Waits wk := by
  rw [begin] at h
  split at h
  · cases h
  · obtain rfl := Option.some.inj h
    exact .inl rfl

/-- A claim is lost while another call keeps the heartbeat fresh. -/
theorem Beats.not_claimable {stale now : ℤ} {run : Run} {w : Worker} (h : Beats run w)
    (hfresh : run.status.isTerminal = true ∨ (¬HandedBack run ∧ now - stale ≤ w.beat)) :
    claimable stale now run = false := by
  rw [claimable]
  rcases hfresh with ht | ⟨hback, hbeat⟩
  · rw [ht]
    rfl
  · cases hs : run.status with
    | running =>
      rw [h.2.2 hs]
      simp [RunStatus.isTerminal, hbeat]
    | pending => exact absurd hs h.2.1
    | deferred => exact absurd (.inl hs) hback
    | onHold => exact absurd (.inr hs) hback
    | _ => rfl

theorem Beats.claimable {stale now : ℤ} {run : Run} {w : Worker} (h : Beats run w)
    (hstale : ¬(run.status.isTerminal = true ∨ (¬HandedBack run ∧ now - stale ≤ w.beat))) :
    claimable stale now run = true := by
  rw [not_or, not_and] at hstale
  obtain ⟨ht, hbeat⟩ := hstale
  rw [Backfill.claimable, Bool.eq_false_iff.mpr ht]
  cases hs : run.status with
  | running =>
    rw [h.2.2 hs]
    have hlt : w.beat < now - stale := Int.not_le.mp (hbeat (by simp [HandedBack, hs]))
    simpa using hlt
  | _ => rfl

theorem Lease.step {stale : ℤ} {w : Calls} {e : CallEvent} (h : Lease w) (he : Unstolen stale w e) :
    Lease (callStep stale w e) := by
  cases e with
  | start i monotonic =>
    simp only [callStep]
    split
    · refine h.of_waiting (.inl rfl) ?_
      intro d hd
      obtain ⟨wk, hwk, rfl⟩ := Option.map_eq_some_iff.mp hd
      exact ⟨rfl, waits_of_begin hwk⟩
    · exact h
  | step i now s =>
    cases hc : w.calls i with
    | none => simpa only [callStep, hc] using h
    | some c =>
      simp only [callStep, hc]
      cases hwins : wins stale now w.tables c.worker s with
      | true =>
        obtain ⟨rfl, hphase, hclaim, ha⟩ := advance_wins hwins
        have hone : ∀ j d, j ≠ i → w.calls j = some d → d.claimed = false := by
          intro j d _ hd
          by_contra hclaimed
          have hclaimed : d.claimed = true := by simpa using hclaimed
          rw [(h.live j d hd hclaimed).not_claimable (he c hc hphase j d hd hclaimed)] at hclaim
          cases hclaim
        rw [ha]
        refine .of_only hone ?_ ?_ h.waits
        · intro d hd _
          obtain rfl := Option.some.inj hd
          exact ⟨by simp, by simp [updateRun], fun _ ↦ rfl⟩
        · intro d hd hclaimed
          obtain rfl := Option.some.inj hd
          simp at hclaimed
      | false =>
        cases hclaimed : c.claimed with
        | true =>
          have hone : ∀ j d, j ≠ i → w.calls j = some d → d.claimed = false := by
            intro j d hj hd
            by_contra hdc
            have hdc : d.claimed = true := by simpa using hdc
            exact hj (h.one j i (live_iff.mpr ⟨d, hd, hdc⟩) (live_iff.mpr ⟨c, hc, hclaimed⟩))
          refine .of_only hone ?_ ?_ h.waits
          · intro d hd _
            obtain ⟨wk, hwk, rfl⟩ := Option.map_eq_some_iff.mp hd
            exact (h.live i c hc hclaimed).advance wk hwk
          · intro d hd hdc
            obtain ⟨wk, hwk, rfl⟩ := Option.map_eq_some_iff.mp hd
            cases hdc
        | false =>
          have hidle : Idle w.tables (advance stale now w.tables c.worker s) := (h.waits i c hc hclaimed).advance hwins
          refine h.of_waiting hidle.run ?_
          intro d hd
          obtain ⟨wk, hwk, rfl⟩ := Option.map_eq_some_iff.mp hd
          exact ⟨rfl, hidle.waits wk hwk⟩

theorem Lease.not_oneLive {stale : ℤ} {w : Calls} {e : CallEvent} (h : Lease w) (he : ¬Unstolen stale w e) :
    ¬OneLive (callStep stale w e) := by
  cases e with
  | start i monotonic => exact absurd trivial he
  | step i now s =>
    cases s with
    | claim =>
      simp only [Unstolen, not_forall] at he
      obtain ⟨c, hc, hphase, j, d, hd, hclaimed, hstale⟩ := he
      have hclaim := (h.live j d hd hclaimed).claimable hstale
      have hji : j ≠ i := by
        rintro rfl
        obtain rfl := Option.some.inj (hc.symm.trans hd)
        exact (h.live j c hc hclaimed).1 hphase
      have hi : Live (callStep stale w (.step i now .claim)) i := by
        simp [Live, callStep, hc, advance, wins, hphase, claimRunRunning, hclaim]
      have hj : Live (callStep stale w (.step i now .claim)) j := by
        refine live_iff.mpr ⟨d, ?_, hclaimed⟩
        simp only [callStep, hc]
        rw [Function.update_of_ne hji, hd]
      exact fun hone ↦ hji (hone j i hj hi)
    | _ => exact absurd trivial he

/-- No call has begun yet. -/
theorem lease_createRun (maxCves maxRuntime now : ℤ) (productKeys : List Text) :
    Lease ⟨createRun maxCves maxRuntime now productKeys, fun _ ↦ none⟩ :=
  ⟨fun i _ hi _ ↦ by simp [Live] at hi, fun _ _ h ↦ by simp at h, fun _ _ h ↦ by simp at h⟩

/-- At most one call that has not crashed is between its claim of the run and its return, at every moment, exactly
when every claim of the run meets `Unstolen`. -/
theorem backfill_one_live_iff (configured : Option ℤ) (maxCves maxRuntime now : ℤ) (productKeys : List Text)
    (events : List CallEvent) :
    (∀ before, before <+: events →
      OneLive (run (callStep (staleRunningSeconds configured))
        ⟨createRun maxCves maxRuntime now productKeys, fun _ ↦ none⟩ before)) ↔
    Along (callStep (staleRunningSeconds configured)) (Unstolen (staleRunningSeconds configured))
      ⟨createRun maxCves maxRuntime now productKeys, fun _ ↦ none⟩ events := by
  have hgood : ∀ w, Lease w → OneLive w := fun _ h ↦ h.one
  have hstep : ∀ w e, Lease w → Unstolen (staleRunningSeconds configured) w e →
      Lease (callStep (staleRunningSeconds configured) w e) := fun _ _ h he ↦ h.step he
  have hbreak : ∀ w e, Lease w → ¬Unstolen (staleRunningSeconds configured) w e →
      ¬OneLive (callStep (staleRunningSeconds configured) w e) := fun _ _ h he ↦ h.not_oneLive he
  exact forall_prefix_iff hgood hstep hbreak (lease_createRun maxCves maxRuntime now productKeys)

/-- The first page is fetched for longer than the stale seconds, and the run is claimed again. -/
def slowFetch : List CallEvent :=
  [.start 0 0, .step 0 1 .claim, .step 0 1 (.loop 1), .start 1 902, .step 1 902 .claim]

theorem backfill_claim_stolen :
    ¬∀ (configured : Option ℤ) (maxCves maxRuntime now : ℤ) (productKeys : List Text) (events : List CallEvent),
      OneLive (run (callStep (staleRunningSeconds configured))
        ⟨createRun maxCves maxRuntime now productKeys, fun _ ↦ none⟩ events) := by
  intro h
  have hone := h none 5000 3600 0 ["::nginx".toList] slowFetch 0 1 (by unfold Live; decide) (by unfold Live; decide)
  cases hone

end Briefr.Backfill
