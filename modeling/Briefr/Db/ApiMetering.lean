import Mathlib.Data.Multiset.AddSub
import Briefr.Library.Runs

namespace Briefr.Db.ApiMetering

open Briefr.Library.Runs Briefr.Library.Tasks

variable {α : Type}

/-- What `flush_api_call_event_buffer` has taken. It returns before it connects where there is nothing. -/
structure Batch (α : Type) where
  events : List α
  nonempty : events ≠ []

/-- A call of `flush_api_call_event_buffer`: asleep before it, with the batch that it took, or past it. -/
inductive Phase (α : Type)
  | absent
  | sleeping
  | connecting (batch : Batch α)
  | writing (batch : Batch α)
  | closing
  | done

def Phase.batch : Phase α → Multiset α
  | .connecting b | .writing b => b.events
  | _ => 0

/-- The task is done or there is none. -/
def Phase.isDone : Phase α → Bool
  | .done => true
  | _ => false

/-- `_event_buffer`, `_flush_task` and the flushes, with the table and with all that was ever buffered. -/
structure State (α : Type) where
  buffer : List α
  stored : List α
  flushTask : Option ℕ
  flushes : ℕ → Phase α
  next : ℕ
  queued : List α

def State.init : State α := ⟨[], [], none, fun _ ↦ .absent, 0, []⟩

inductive Event (α : Type)
  | queue (setting : Option ℤ) (fields : α)
  | call
  | wake (f : ℕ)
  | connect (f : ℕ)
  | commit (f : ℕ)
  | fail (f : ℕ)
  | close (f : ℕ)

/-- What `int` reads of the setting, `none` where it reads nothing. -/
def apiCallEventsBatchMs (setting : Option ℤ) : ℤ := max 0 (setting.getD 0)

def State.setFlush (s : State α) (f : ℕ) (p : Phase α) : State α := { s with flushes := Function.update s.flushes f p }

/-- The buffer goes to the flush. No other task runs between the copy and the `clear`. -/
def flushApiCallEventBuffer (s : State α) (f : ℕ) : State α :=
  { s.setFlush f (if h : s.buffer = [] then .done else .connecting ⟨s.buffer, h⟩) with buffer := [] }

def scheduleBufferedFlush (s : State α) : State α :=
  if s.flushTask.all fun f ↦ (s.flushes f).isDone then
    { s.setFlush s.next .sleeping with flushTask := some s.next, next := s.next + 1 }
  else s

/-- Both awaits of the call return at once: the buffer lock is never held across one. -/
def queueApiCallEvent (s : State α) (setting : Option ℤ) (fields : α) : State α :=
  if apiCallEventsBatchMs setting ≤ 0 then s
  else scheduleBufferedFlush { s with buffer := s.buffer ++ [fields], queued := s.queued ++ [fields] }

def step (s : State α) : Event α → State α
  | .queue setting fields => queueApiCallEvent s setting fields
  | .call => flushApiCallEventBuffer { s with next := s.next + 1 } s.next
  | .wake f =>
    match s.flushes f with
    | .sleeping => flushApiCallEventBuffer s f
    | _ => s
  | .connect f =>
    match s.flushes f with
    | .connecting batch => s.setFlush f (.writing batch)
    | _ => s
  | .commit f =>
    match s.flushes f with
    | .writing batch => { s.setFlush f .closing with stored := s.stored ++ batch.events }
    | _ => s
  -- the connection is closed where there is one, and nothing of the batch is kept
  | .fail f =>
    match s.flushes f with
    | .connecting _ => s.setFlush f .done
    | .writing _ => s.setFlush f .closing
    | _ => s
  | .close f =>
    match s.flushes f with
    | .closing => s.setFlush f .done
    | _ => s

/-- The batches of the flushes that run. -/
def State.held (s : State α) : Multiset α := ∑ f ∈ Finset.range s.next, (s.flushes f).batch

/-- Every event is in one place, once. -/
def Conserved (s : State α) : Prop := (s.queued : Multiset α) = s.buffer + s.held + s.stored

/-- There is a flush that will take what is in the buffer. -/
def Scheduled (s : State α) : Prop := s.buffer ≠ [] → ∃ f, s.flushes f = .sleeping

/-- The flush that `_flush_task` names has not taken the buffer yet or has returned, or there is none. -/
def Rested (s : State α) : Prop := ∀ f, s.flushTask = some f → s.flushes f = .sleeping ∨ s.flushes f = .done

/-- No flush fails with a batch, and no event comes while the flush of `_flush_task` writes or closes. -/
def Undisturbed (s : State α) : Event α → Prop
  | .queue setting _ => 0 < apiCallEventsBatchMs setting → Rested s
  | .fail f => (s.flushes f).batch = 0
  | _ => True

structure Tasks (s : State α) : Prop where
  named : ∀ f, s.flushes f = .sleeping → s.flushTask = some f
  fresh : ∀ f, s.next ≤ f → s.flushes f = .absent

structure Inv (s : State α) : Prop extends Tasks s where
  conserved : Conserved s
  scheduled : Scheduled s

theorem lt_next {s : State α} {f : ℕ} (h : Tasks s) (hf : s.flushes f ≠ .absent) : f < s.next := by
  by_contra hn
  exact hf (h.fresh f (Nat.not_lt.mp hn))

theorem flushes_self (s : State α) (f : ℕ) (p : Phase α) : (s.setFlush f p).flushes f = p := by
  simp [State.setFlush]

theorem flushes_of_ne (s : State α) {f g : ℕ} (p : Phase α) (h : g ≠ f) : (s.setFlush f p).flushes g = s.flushes g := by
  simp [State.setFlush, h]

theorem held_setFlush {s : State α} {f : ℕ} (p : Phase α) (hf : f < s.next) :
    (s.setFlush f p).held + (s.flushes f).batch = s.held + p.batch :=
  sum_moved Phase.batch s.flushes p (Finset.mem_range.mpr hf)

/-- The number of a call that has not been made holds nothing. -/
theorem held_grow {s : State α} (h : Tasks s) : ({ s with next := s.next + 1 } : State α).held = s.held := by
  rw [State.held, Finset.sum_range_succ]
  change s.held + (s.flushes s.next).batch = s.held
  rw [h.fresh s.next (Nat.le_refl _)]
  exact add_zero _

namespace Inv

variable {s : State α} {f : ℕ}

theorem grow (h : Inv s) : Inv { s with next := s.next + 1 } where
  named := h.named
  fresh g hg := h.fresh g (Nat.le_of_succ_le hg)
  conserved := by
    have hc := h.conserved
    rw [Conserved] at hc ⊢
    rw [held_grow h.toTasks]
    exact hc
  scheduled := h.scheduled

/-- A flush that has taken its batch goes on. Where the batch is stored it is no longer held. -/
theorem move (h : Inv s) {p : Phase α} {stored : List α} (hf : s.flushes f ≠ .absent) (hs : s.flushes f ≠ .sleeping)
    (hp : p ≠ .sleeping) (hkept : (stored : Multiset α) + p.batch = s.stored + (s.flushes f).batch) :
    Inv { s.setFlush f p with stored := stored } where
  named g hg := by
    by_cases he : g = f
    · subst he
      exact absurd ((flushes_self s g p).symm.trans hg) hp
    · exact h.named g ((flushes_of_ne s p he).symm.trans hg)
  fresh g hg := by
    have he : g ≠ f := (Nat.lt_of_lt_of_le (lt_next h.toTasks hf) hg).ne'
    exact (flushes_of_ne s p he).trans (h.fresh g hg)
  conserved := by
    have hc : (s.queued : Multiset α) = s.buffer + s.held + s.stored := h.conserved
    have hheld := held_setFlush p (lt_next h.toTasks hf)
    change (s.queued : Multiset α) = s.buffer + (s.setFlush f p).held + stored
    apply add_right_cancel (b := p.batch + (s.flushes f).batch)
    calc (s.queued : Multiset α) + (p.batch + (s.flushes f).batch)
        = s.buffer + (s.held + p.batch) + (s.stored + (s.flushes f).batch) := by rw [hc]; ac_rfl
      _ = s.buffer + ((s.setFlush f p).held + (s.flushes f).batch) + (stored + p.batch) := by rw [hheld, hkept]
      _ = s.buffer + (s.setFlush f p).held + stored + (p.batch + (s.flushes f).batch) := by ac_rfl
  scheduled hb := by
    obtain ⟨g, hg⟩ := h.scheduled hb
    have he : g ≠ f := fun he ↦ hs (he ▸ hg)
    exact ⟨g, (flushes_of_ne s p he).trans hg⟩

/-- What was in the buffer is in the batch. -/
theorem flush (h : Inv s) (hf : f < s.next) (hb : (s.flushes f).batch = 0) : Inv (flushApiCallEventBuffer s f) where
  named g hg := by
    by_cases he : g = f
    · subst he
      have hp := (flushes_self s g _).symm.trans hg
      split at hp
      · cases hp
      · cases hp
    · exact h.named g ((flushes_of_ne s _ he).symm.trans hg)
  fresh g hg := by
    have he : g ≠ f := (Nat.lt_of_lt_of_le hf hg).ne'
    exact (flushes_of_ne s _ he).trans (h.fresh g hg)
  conserved := by
    have hc : (s.queued : Multiset α) = s.buffer + s.held + s.stored := h.conserved
    have hheld := held_setFlush (if h : s.buffer = [] then Phase.done else .connecting ⟨s.buffer, h⟩) hf
    rw [hb, add_zero] at hheld
    change (s.queued : Multiset α) = 0 + (s.setFlush f _).held + s.stored
    rw [hheld, hc, zero_add]
    congr 1
    split
    · rename_i he
      rw [he]
      exact add_comm _ _
    · exact add_comm _ _
  scheduled hn := absurd rfl hn

theorem append (h : Inv s) (fields : α) (hw : ∃ f, s.flushes f = .sleeping) :
    Inv { s with buffer := s.buffer ++ [fields], queued := s.queued ++ [fields] } where
  named := h.named
  fresh := h.fresh
  conserved := by
    have hc : (s.queued : Multiset α) = s.buffer + s.held + s.stored := h.conserved
    change ((s.queued ++ [fields] : List α) : Multiset α) = (s.buffer ++ [fields] : List α) + s.held + s.stored
    rw [← Multiset.coe_add, ← Multiset.coe_add, hc]
    ac_rfl
  scheduled _ := hw

/-- A new task, where none is under way. -/
theorem create (h : Inv s) (hn : ∀ g, s.flushes g ≠ .sleeping) :
    Inv { s.setFlush s.next .sleeping with flushTask := some s.next, next := s.next + 1 } where
  named g hg := by
    by_cases he : g = s.next
    · exact congrArg some he.symm
    · exact absurd ((flushes_of_ne s _ he).symm.trans hg) (hn g)
  fresh g hg := by
    have he : g ≠ s.next := (Nat.lt_of_succ_le hg).ne'
    exact (flushes_of_ne s _ he).trans (h.fresh g (Nat.le_of_succ_le hg))
  conserved := by
    have hc : (s.queued : Multiset α) = s.buffer + s.held + s.stored := h.conserved
    have hheld : (State.setFlush { s with next := s.next + 1 } s.next .sleeping).held + (s.flushes s.next).batch = _ :=
      held_setFlush Phase.sleeping (Nat.lt_succ_self s.next)
    have hzero : (s.flushes s.next).batch = 0 := by rw [h.fresh s.next (Nat.le_refl _)]; rfl
    rw [held_grow h.toTasks, hzero, add_zero] at hheld
    change (s.queued : Multiset α) = s.buffer + State.held (State.setFlush { s with next := s.next + 1 } s.next .sleeping) + s.stored
    rw [hheld, hc]
    simp [Phase.batch]
  scheduled _ := ⟨s.next, flushes_self s s.next _⟩

theorem queue (h : Inv s) {setting : Option ℤ} {fields : α} (hr : 0 < apiCallEventsBatchMs setting → Rested s) :
    Inv (queueApiCallEvent s setting fields) := by
  rw [queueApiCallEvent]
  split
  · exact h
  · rename_i hon
    rw [scheduleBufferedFlush]
    split
    · -- the new task sleeps, and `_flush_task` names it
      rename_i hdone
      have hn : ∀ g, s.flushes g ≠ .sleeping := by
        intro g hg
        simp [h.named g hg, hg, Phase.isDone] at hdone
      exact (h.create hn).append fields ⟨s.next, flushes_self s s.next _⟩
    · rename_i hdone
      obtain ⟨f, hf⟩ : ∃ f, s.flushTask = some f := by
        cases hf : s.flushTask with
        | none => simp [hf] at hdone
        | some f => exact ⟨f, rfl⟩
      rcases hr (Int.not_le.mp hon) f hf with hs | hd
      · exact h.append fields ⟨f, hs⟩
      · simp [hf, hd, Phase.isDone] at hdone

theorem init : Inv (State.init : State α) where
  named _ h := nomatch h
  fresh _ _ := rfl
  conserved := rfl
  scheduled h := absurd rfl h

theorem step (h : Inv s) {e : Event α} (he : Undisturbed s e) : Inv (step s e) := by
  cases e with
  | queue setting fields => exact h.queue he
  | call =>
    refine h.grow.flush (Nat.lt_succ_self s.next) ?_
    change (s.flushes s.next).batch = 0
    rw [h.fresh s.next (Nat.le_refl _)]
    rfl
  | wake f =>
    rw [ApiMetering.step]
    split
    · rename_i hf
      exact h.flush (lt_next h.toTasks (by simp [hf])) (by rw [hf]; rfl)
    · exact h
  | connect f =>
    rw [ApiMetering.step]
    split
    · rename_i hf
      exact h.move (by simp [hf]) (by simp [hf]) nofun (by rw [hf]; rfl)
    · exact h
  | commit f =>
    rw [ApiMetering.step]
    split
    · rename_i hf
      refine h.move (by simp [hf]) (by simp [hf]) nofun ?_
      rw [hf, ← Multiset.coe_add]
      exact add_zero _
    · exact h
  | fail f =>
    rw [ApiMetering.step]
    split
    · rename_i batch hf
      refine h.move (by simp [hf]) (by simp [hf]) nofun (congrArg (_ + ·) ?_)
      exact he.symm
    · rename_i batch hf
      refine h.move (by simp [hf]) (by simp [hf]) nofun (congrArg (_ + ·) ?_)
      exact he.symm
    · exact h
  | close f =>
    rw [ApiMetering.step]
    split
    · rename_i hf
      exact h.move (by simp [hf]) (by simp [hf]) nofun (by rw [hf]; rfl)
    · exact h

/-- An event that finds the flush of `_flush_task` at work starts no other, and that one will not take it. -/
theorem stranded (h : Inv s) {setting : Option ℤ} {fields : α} (hon : 0 < apiCallEventsBatchMs setting) (hr : ¬Rested s) :
    ¬Scheduled (queueApiCallEvent s setting fields) := by
  intro hs
  rw [Rested] at hr
  push Not at hr
  obtain ⟨f, hf, hsleep, hdone⟩ := hr
  have hbusy : ¬(s.flushTask.all fun f ↦ (s.flushes f).isDone) = true := by
    rw [hf, Option.all_some]
    intro hd
    cases hp : s.flushes f with
    | done => exact hdone hp
    | _ => rw [hp] at hd; cases hd
  rw [queueApiCallEvent, if_neg (Int.not_le.mpr hon), scheduleBufferedFlush, if_neg hbusy] at hs
  obtain ⟨g, hg⟩ := hs (List.append_ne_nil_of_right_ne_nil _ (List.cons_ne_nil _ _))
  obtain rfl : f = g := Option.some.inj (hf.symm.trans (h.named g hg))
  exact hsleep hg

/-- A flush that fails drops what it took. -/
theorem lost (h : Inv s) (hb : (s.flushes f).batch ≠ 0) : ¬Conserved (ApiMetering.step s (.fail f)) := by
  have hlost : ∀ p : Phase α, p.batch = 0 → ¬Conserved (s.setFlush f p) := by
    intro p hp hc
    have hf : s.flushes f ≠ .absent := fun he ↦ hb (by rw [he]; rfl)
    have hheld := held_setFlush p (lt_next h.toTasks hf)
    have hbefore : (s.queued : Multiset α) = s.buffer + s.held + s.stored := h.conserved
    have hafter : (s.queued : Multiset α) = s.buffer + (s.setFlush f p).held + s.stored := hc
    have hsame : s.held = (s.setFlush f p).held :=
      add_left_cancel (add_right_cancel (hbefore.symm.trans hafter))
    rw [hp, add_zero, ← hsame] at hheld
    exact hb (left_eq_add.mp hheld.symm)
  rw [ApiMetering.step]
  split
  · exact hlost .done rfl
  · exact hlost .closing rfl
  · rename_i hc hw
    cases hp : s.flushes f with
    | connecting batch => exact absurd hp (hc batch)
    | writing batch => exact absurd hp (hw batch)
    | _ => exact absurd (by rw [hp]; rfl) hb

end Inv

/-- The events of a run stay accounted for and scheduled exactly when no flush fails with a batch
and no event comes between the take and the end of the flush that `_flush_task` names. -/
theorem events_kept_iff (events : List (Event α)) :
    (∀ before, before <+: events → Conserved (run step State.init before) ∧ Scheduled (run step State.init before)) ↔
      Along step Undisturbed State.init events := by
  have hgood : ∀ s : State α, Inv s → Conserved s ∧ Scheduled s := fun s h ↦ ⟨h.conserved, h.scheduled⟩
  have hstep : ∀ (s : State α) (e : Event α), Inv s → Undisturbed s e → Inv (step s e) := fun s e h he ↦ h.step he
  refine forall_prefix_iff hgood hstep ?_ Inv.init
  intro s e h he hgood
  cases e with
  | queue setting fields =>
    rw [Undisturbed] at he
    push Not at he
    exact h.stranded he.1 he.2 hgood.2
  | fail f => exact h.lost he hgood.1
  | _ => exact he trivial

/-- The second event comes while the flush writes the first, and after it there are no more. -/
def lastBeforeQuiet : List (Event ℕ) := [.queue (some 50) 1, .wake 0, .queue (some 50) 2, .connect 0, .commit 0, .close 0]

/-- The second event is left behind with no flush to come, and a flush that fails loses the first. -/
theorem second_event_stranded :
    ((run step State.init lastBeforeQuiet).buffer = [2] ∧ ∀ f, (run step State.init lastBeforeQuiet).flushes f ≠ .sleeping) ∧
    ¬Conserved (run step State.init [.queue (some 50) 1, .wake 0, .connect 0, .fail 0]) ∧
    ¬∀ events : List (Event ℕ), ∀ before, before <+: events →
      Conserved (run step State.init before) ∧ Scheduled (run step State.init before) := by
  have hstranded : ∀ f, (run step State.init lastBeforeQuiet).flushes f ≠ .sleeping := by
    intro f
    cases f with
    | zero => nofun
    | succ f => nofun
  refine ⟨⟨by decide, hstranded⟩, ?_, fun h ↦ ?_⟩
  · intro h
    have hcard := congrArg Multiset.card h
    exact absurd hcard (by decide)
  · obtain ⟨f, hf⟩ := (h lastBeforeQuiet _ (List.prefix_refl _)).2 (by decide)
    exact hstranded f hf

end Briefr.Db.ApiMetering
