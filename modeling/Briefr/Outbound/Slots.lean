import Mathlib.Data.List.Nodup
import Briefr.Library.Runs
import Briefr.Library.UniqueIndex
import Briefr.Outbound.ApiQueue

namespace Briefr.Outbound.Slots

open Briefr.Python Briefr.Library Briefr.Library.Runs Briefr.Outbound.Pacing Briefr.Outbound.ApiQueue

/-- A task inside `await_api_slot`, with the pacing it read when it came. -/
structure Waiter where
  id : RequestId
  source : Text
  pacing : SourcePacing

/-- A granted slot that its task has not released. -/
structure Holder where
  id : RequestId
  source : Text

def Waiter.key (w : Waiter) : Text := resolvePacingKey w.source

def Holder.key (h : Holder) : Text := resolvePacingKey h.source

/-- The queue and the tasks that use it. -/
structure State where
  queue : Queue
  waiting : List Waiter
  held : List Holder

def State.init : State := ⟨Queue.empty, [], []⟩

def State.live (s : State) : List RequestId := s.waiting.map Waiter.id ++ s.held.map Holder.id

inductive Event
  | enter (id : RequestId) (source : Text) (settings : Settings) (now : Time)
  | poll (id : RequestId) (now : Time)
  | cancel (id : RequestId)
  | release (id : RequestId)
  | releaseLegacy (id : RequestId)
  | pause (source : Text) (seconds : Time) (reason : WaitReason) (now : Time)

def State.dropWaiter (s : State) (id : RequestId) : List Waiter := s.waiting.filter fun w ↦ w.id != id

def State.dropHolder (s : State) (id : RequestId) : List Holder := s.held.filter fun h ↦ h.id != id

def attempt (s : State) (w : Waiter) (now : Time) : State :=
  let queue := pass s.queue w.pacing w.key w.id now
  if grants s.queue w.pacing w.key now then ⟨queue, s.dropWaiter w.id, s.held ++ [⟨w.id, w.source⟩]⟩
  else { s with queue }

/-- `await_api_slot` until it first sleeps. -/
def enter (s : State) (w : Waiter) (now : Time) : State :=
  attempt { s with queue := register s.queue w.source w.id, waiting := s.waiting ++ [w] } w now

/-- Request ids do not repeat, tasks poll and cancel only while they wait, and release only what they hold. -/
def step (s : State) : Event → State
  | .enter id source settings now =>
    if id ∈ s.live then s else enter s ⟨id, source, getSourcePacing settings source⟩ now
  | .poll id now =>
    match s.waiting.find? fun w ↦ w.id == id with
    | some w => attempt s w now
    | none => s
  | .cancel id =>
    match s.waiting.find? fun w ↦ w.id == id with
    | some w => { s with queue := abandon s.queue w.source w.id, waiting := s.dropWaiter w.id }
    | none => s
  | .release id =>
    match s.held.find? fun h ↦ h.id == id with
    | some h => { s with queue := releaseApiSlot s.queue h.source (some h.id), held := s.dropHolder h.id }
    | none => s
  | .releaseLegacy id =>
    match s.held.find? fun h ↦ h.id == id with
    | some h => { s with queue := releaseApiSlot s.queue h.source none, held := s.dropHolder h.id }
    | none => s
  | .pause source seconds reason now => { s with queue := scheduleSourcePause s.queue source seconds reason now }

def State.waitingOn (s : State) (key : Text) : List Waiter := s.waiting.filter fun w ↦ decide (w.key = key)

def State.heldOn (s : State) (key : Text) : List Holder := s.held.filter fun h ↦ decide (h.key = key)

/-- The counters, the stack and the table tell who waits and who holds a slot. -/
structure Accounted (s : State) : Prop where
  active : ∀ key, (s.queue.states key).active = (s.heldOn key).length
  bounded : ∀ key, (s.queue.states key).active ≤ (profile key).maxConcurrent
  queued : ∀ key, (s.queue.states key).queued = (s.waitingOn key).length
  requests : ∀ id, (s.queue.requests id).isSome ↔ id ∈ s.live
  stack : ∀ key, (s.queue.activeStacks key).Perm ((s.heldOn key).map Holder.id)

/-- What the steps keep. The stack has the slots in the order in which they were granted. -/
structure Inv (s : State) : Prop where
  active : ∀ key, (s.queue.states key).active = (s.heldOn key).length
  bounded : ∀ key, (s.queue.states key).active ≤ (profile key).maxConcurrent
  queued : ∀ key, (s.queue.states key).queued = (s.waitingOn key).length
  requests : ∀ id, (s.queue.requests id).isSome ↔ id ∈ s.live
  stack : ∀ key, s.queue.activeStacks key = (s.heldOn key).map Holder.id
  nodup : s.live.Nodup
  limit : ∀ w ∈ s.waiting, w.pacing.maxConcurrent = (profile w.key).maxConcurrent
  idle : ∀ w ∈ s.waiting, ∀ req, s.queue.requests w.id = some req → req.state ≠ .active

theorem Inv.accounted {s : State} (h : Inv s) : Accounted s :=
  ⟨h.active, h.bounded, h.queued, h.requests, fun key ↦ h.stack key ▸ List.Perm.refl _⟩

theorem inv_init : Inv State.init where
  active _ := rfl
  bounded _ := Nat.zero_le _
  queued _ := rfl
  requests id := by simp [State.init, Queue.empty, State.live]
  stack _ := rfl
  nodup := List.nodup_nil
  limit := by simp [State.init]
  idle := by simp [State.init]

theorem map_filter_ne {α : Type} {f : α → RequestId} {l : List α} (hn : (l.map f).Nodup) (i : RequestId) :
    (l.filter fun a ↦ f a != i).map f = (l.map f).erase i := by
  rw [hn.erase_eq_filter, List.filter_map]
  rfl

/-- One entry less under its own key, none less under another. -/
theorem length_filter_ne {α : Type} {f : α → RequestId} {g : α → Text} {l : List α} (hn : (l.map f).Nodup) {x : α}
    (hx : x ∈ l) (key : Text) :
    ((l.filter fun a ↦ f a != f x).filter fun a ↦ decide (g a = key)).length =
      if key = g x then (l.filter fun a ↦ decide (g a = key)).length - 1
      else (l.filter fun a ↦ decide (g a = key)).length := by
  have hsub : ((l.filter fun a ↦ decide (g a = key)).map f).Nodup := hn.sublist (List.filter_sublist.map f)
  rw [List.filter_comm, ← List.length_map f, map_filter_ne hsub, List.length_erase, List.length_map]
  by_cases hk : key = g x
  · have hmem : f x ∈ (l.filter fun a ↦ decide (g a = key)).map f :=
      List.mem_map_of_mem (List.mem_filter.mpr ⟨hx, by simp [hk]⟩)
    rw [if_pos hmem, if_pos hk]
  · have hmem : f x ∉ (l.filter fun a ↦ decide (g a = key)).map f := by
      intro h
      obtain ⟨y, hy, he⟩ := List.mem_map.mp h
      obtain ⟨hyl, hyk⟩ := List.mem_filter.mp hy
      obtain rfl := List.inj_on_of_nodup_map hn hyl hx he
      exact hk (of_decide_eq_true hyk).symm
    rw [if_neg hmem, if_neg hk]

namespace Inv

variable {s : State}

theorem nodup_waiting (h : Inv s) : (s.waiting.map Waiter.id).Nodup := (List.nodup_append.mp h.nodup).1

theorem nodup_held (h : Inv s) : (s.held.map Holder.id).Nodup := (List.nodup_append.mp h.nodup).2.1

theorem waiter_not_held (h : Inv s) {w : Waiter} (hw : w ∈ s.waiting) : w.id ∉ s.held.map Holder.id := by
  intro hm
  exact (List.nodup_append.mp h.nodup).2.2 _ (List.mem_map_of_mem hw) _ hm rfl

theorem holder_not_waiting (h : Inv s) {x : Holder} (hx : x ∈ s.held) : x.id ∉ s.waiting.map Waiter.id := by
  intro hm
  exact (List.nodup_append.mp h.nodup).2.2 _ hm _ (List.mem_map_of_mem hx) rfl

theorem live_grant (h : Inv s) {w : Waiter} (hw : w ∈ s.waiting) :
    ((s.dropWaiter w.id).map Waiter.id ++ (s.held ++ [Holder.mk w.id w.source]).map Holder.id).Perm s.live := by
  have he : (s.dropWaiter w.id).map Waiter.id = (s.waiting.map Waiter.id).erase w.id := map_filter_ne h.nodup_waiting w.id
  have hp := List.perm_cons_erase (List.mem_map_of_mem (f := Waiter.id) hw)
  rw [he, State.live, List.map_append, List.map_singleton, ← List.append_assoc]
  refine (List.perm_append_singleton _ _).trans ?_
  exact (hp.append_right _).symm

theorem keep (h : Inv s) (key : Text) (id : RequestId) {state : RequestState} (reason : WaitReason)
    (hs : state ≠ .active) : Inv { s with queue := keepWaiting s.queue key id state reason } where
  active k := (keepWaiting_active s.queue key k id state reason).trans (h.active k)
  bounded k := (keepWaiting_active s.queue key k id state reason).symm ▸ h.bounded k
  queued k := (keepWaiting_queued s.queue key k id state reason).trans (h.queued k)
  requests i := by
    rw [keepWaiting_requests]
    split
    · rw [Option.isSome_map]
      exact h.requests i
    · exact h.requests i
  stack := h.stack
  nodup := h.nodup
  limit := h.limit
  idle w hw req hreq := by
    rw [keepWaiting_requests] at hreq
    split at hreq
    · obtain ⟨r, -, rfl⟩ := Option.map_eq_some_iff.mp hreq
      exact hs
    · exact h.idle w hw req hreq

theorem granted (h : Inv s) {w : Waiter} (hw : w ∈ s.waiting) (now : Time)
    (hg : grants s.queue w.pacing w.key now = true) :
    Inv ⟨grant s.queue w.key w.id now, s.dropWaiter w.id, s.held ++ [⟨w.id, w.source⟩]⟩ where
  active k := by
    rw [grant_active, h.active, State.heldOn, State.heldOn, List.filter_append, List.length_append]
    by_cases hk : k = w.key
    · simp [hk, Holder.key, Waiter.key]
    · have hk' : ¬resolvePacingKey w.source = k := fun he ↦ hk he.symm
      simp [hk, Holder.key, hk']
  bounded k := by
    rw [grant_active]
    split
    · rename_i hk
      subst hk
      have hlt : (s.queue.states w.key).active < w.pacing.maxConcurrent :=
        of_decide_eq_true (Bool.and_eq_true_iff.mp hg).1
      rw [← h.limit w hw]
      exact hlt
    · exact h.bounded k
  queued k := by
    rw [grant_queued, h.queued]
    exact (length_filter_ne h.nodup_waiting hw k).symm
  requests i := by
    rw [grant_requests]
    have hl := (h.live_grant hw).mem_iff (a := i)
    refine Iff.trans ?_ hl.symm
    split
    · rw [Option.isSome_map]
      exact h.requests i
    · exact h.requests i
  stack k := by
    rw [grant_activeStacks, h.stack, State.heldOn, State.heldOn, List.filter_append, List.map_append]
    by_cases hk : k = w.key
    · simp [hk, Holder.key, Waiter.key]
    · have hk' : ¬resolvePacingKey w.source = k := fun he ↦ hk he.symm
      simp [hk, Holder.key, hk']
  nodup := (h.live_grant hw).nodup_iff.mpr h.nodup
  limit w' hw' := h.limit w' (List.mem_filter.mp hw').1
  idle w' hw' req hreq := by
    obtain ⟨hm, hne⟩ := List.mem_filter.mp hw'
    have hne : w'.id ≠ w.id := by simpa using hne
    rw [grant_requests, if_neg hne] at hreq
    exact h.idle w' hm req hreq

theorem attempt (h : Inv s) {w : Waiter} (hw : w ∈ s.waiting) (now : Time) : Inv (attempt s w now) := by
  rw [Slots.attempt]
  split
  · rename_i hg
    rw [pass_of_grants hg]
    exact h.granted hw now hg
  · rename_i hg
    obtain ⟨state, reason, hs, he⟩ := pass_of_not_grants w.id (by simpa using hg)
    rw [he]
    exact h.keep w.key w.id reason hs

theorem register (h : Inv s) {w : Waiter} (hw : w.id ∉ s.live)
    (hl : w.pacing.maxConcurrent = (profile w.key).maxConcurrent) :
    Inv { s with queue := register s.queue w.source w.id, waiting := s.waiting ++ [w] } where
  active k := (register_active s.queue k w.id w.source).trans (h.active k)
  bounded k := (register_active s.queue k w.id w.source).symm ▸ h.bounded k
  queued k := by
    rw [State.waitingOn, List.filter_append, List.length_append]
    have hq := h.queued k
    rw [State.waitingOn] at hq
    by_cases hk : k = resolvePacingKey w.source
    · simp [ApiQueue.register, ← hk, hq, Waiter.key]
    · have hk' : ¬w.key = k := fun he ↦ hk he.symm
      simp [ApiQueue.register, hk, hk', hq]
  requests i := by
    have hm : i ∈ (s.waiting ++ [w]).map Waiter.id ++ s.held.map Holder.id ↔ i = w.id ∨ i ∈ s.live := by
      simp only [State.live, List.map_append, List.map_singleton, List.mem_append, List.mem_singleton, or_assoc]
      exact or_left_comm
    refine Iff.trans ?_ hm.symm
    by_cases hi : i = w.id
    · simp [ApiQueue.register, hi]
    · simp [ApiQueue.register, hi, h.requests]
  stack k := h.stack k
  nodup := by
    have hp : ((s.waiting ++ [w]).map Waiter.id ++ s.held.map Holder.id).Perm (w.id :: s.live) := by
      rw [List.map_append, List.append_assoc, State.live]
      exact List.perm_middle
    exact hp.nodup_iff.mpr (List.nodup_cons.mpr ⟨hw, h.nodup⟩)
  limit w' hw' := by
    rcases List.mem_append.mp hw' with hw' | hw'
    · exact h.limit w' hw'
    · exact List.mem_singleton.mp hw' ▸ hl
  idle w' hw' req hreq := by
    by_cases hi : w'.id = w.id
    · have hreq : some (ApiRequest.mk w.source (resolvePacingKey w.source) .queued none) = some req := by
        simpa [ApiQueue.register, hi] using hreq
      rw [← Option.some_inj.mp hreq]
      exact RequestState.noConfusion
    · have hm : w' ∈ s.waiting := by
        rcases List.mem_append.mp hw' with hw' | hw'
        · exact hw'
        · exact absurd (congrArg Waiter.id (List.mem_singleton.mp hw')) hi
      exact h.idle w' hm req (by simpa [ApiQueue.register, hi] using hreq)

theorem abandon (h : Inv s) {w : Waiter} (hw : w ∈ s.waiting) :
    Inv { s with queue := abandon s.queue w.source w.id, waiting := s.dropWaiter w.id } := by
  obtain ⟨ha, hq, hs, hr⟩ := abandon_spec w.source (h.idle w hw)
  have hlive : ((s.dropWaiter w.id).map Waiter.id ++ s.held.map Holder.id) = s.live.erase w.id := by
    rw [State.live, List.erase_append_left _ (List.mem_map_of_mem hw)]
    exact congrArg (· ++ s.held.map Holder.id) (map_filter_ne h.nodup_waiting w.id)
  constructor
  · exact fun k ↦ (ha k).trans (h.active k)
  · exact fun k ↦ (ha k).symm ▸ h.bounded k
  · intro k
    refine ((hq k).trans ?_).trans (length_filter_ne (g := Waiter.key) h.nodup_waiting hw k).symm
    rw [h.queued k]
    rfl
  · intro i
    have hm : i ∈ (s.dropWaiter w.id).map Waiter.id ++ s.held.map Holder.id ↔ i ≠ w.id ∧ i ∈ s.live := by
      rw [hlive, h.nodup.mem_erase_iff]
    refine Iff.trans ?_ hm.symm
    rw [hr]
    by_cases hi : i = w.id
    · simp [hi]
    · simp [hi, h.requests]
  · exact fun k ↦ (congrFun hs k).trans (h.stack k)
  · change ((s.dropWaiter w.id).map Waiter.id ++ s.held.map Holder.id).Nodup
    rw [hlive]
    exact h.nodup.erase _
  · exact fun w' hw' ↦ h.limit w' (List.mem_filter.mp hw').1
  · intro w' hw' req hreq
    obtain ⟨hm, hne⟩ := List.mem_filter.mp hw'
    have hne : w'.id ≠ w.id := by simpa using hne
    rw [hr, if_neg hne] at hreq
    exact h.idle w' hm req hreq

/-- The queue without one of the slots, wherever it is on its stack. -/
theorem removed (h : Inv s) {x : Holder} (hx : x ∈ s.held) :
    Inv ⟨decrementActive ((s.queue.setRequest x.id none).setStack x.key ((s.queue.activeStacks x.key).erase x.id)) x.key,
      s.waiting, s.dropHolder x.id⟩ := by
  have hlive : (s.waiting.map Waiter.id ++ (s.dropHolder x.id).map Holder.id) = s.live.erase x.id := by
    rw [State.live, List.erase_append_right _ (h.holder_not_waiting hx)]
    exact congrArg (s.waiting.map Waiter.id ++ ·) (map_filter_ne h.nodup_held x.id)
  have ha : ∀ k, ((decrementActive ((s.queue.setRequest x.id none).setStack x.key
      ((s.queue.activeStacks x.key).erase x.id)) x.key).states k).active =
        if k = x.key then (s.queue.states k).active - 1 else (s.queue.states k).active :=
    fun k ↦ decrementActive_active _ x.key k
  constructor
  · intro k
    refine ((ha k).trans ?_).trans (length_filter_ne (g := Holder.key) h.nodup_held hx k).symm
    rw [h.active k]
    rfl
  · intro k
    rw [ha k]
    split
    · exact (Nat.sub_le _ 1).trans (h.bounded k)
    · exact h.bounded k
  · exact fun k ↦ (decrementActive_queued _ x.key k).trans (h.queued k)
  · intro i
    have hm : i ∈ s.waiting.map Waiter.id ++ (s.dropHolder x.id).map Holder.id ↔ i ≠ x.id ∧ i ∈ s.live := by
      rw [hlive, h.nodup.mem_erase_iff]
    refine Iff.trans ?_ hm.symm
    by_cases hi : i = x.id
    · simp [hi]
    · simp [hi, h.requests]
  · intro k
    have hsub : ((s.heldOn k).map Holder.id).Nodup := h.nodup_held.sublist (List.filter_sublist.map _)
    have hmap : (State.heldOn ⟨s.queue, s.waiting, s.dropHolder x.id⟩ k).map Holder.id =
        ((s.heldOn k).map Holder.id).erase x.id := by
      rw [← map_filter_ne hsub x.id, State.heldOn, State.dropHolder, List.filter_comm]
      rfl
    refine Eq.trans ?_ hmap.symm
    rw [decrementActive_activeStacks, setStack_activeStacks]
    by_cases hk : k = x.key
    · rw [if_pos hk, ← hk, h.stack k]
    · have hnot : x.id ∉ (s.heldOn k).map Holder.id := by
        intro hm
        obtain ⟨y, hy, he⟩ := List.mem_map.mp hm
        obtain ⟨hyl, hyk⟩ := List.mem_filter.mp hy
        obtain rfl := List.inj_on_of_nodup_map h.nodup_held hyl hx he
        exact hk (of_decide_eq_true hyk).symm
      rw [if_neg hk, List.erase_of_not_mem hnot]
      exact h.stack k
  · change (s.waiting.map Waiter.id ++ (s.dropHolder x.id).map Holder.id).Nodup
    rw [hlive]
    exact h.nodup.erase _
  · exact h.limit
  · intro w hw req hreq
    have hne : w.id ≠ x.id := by
      intro he
      exact h.holder_not_waiting hx (he ▸ List.mem_map_of_mem hw)
    exact h.idle w hw req (by simpa [hne] using hreq)

theorem mem_stack (h : Inv s) {x : Holder} (hx : x ∈ s.held) : x.id ∈ s.queue.activeStacks x.key := by
  rw [h.stack]
  exact List.mem_map_of_mem (List.mem_filter.mpr ⟨hx, by simp⟩)

theorem nodup_stack (h : Inv s) (key : Text) : (s.queue.activeStacks key).Nodup := by
  rw [h.stack]
  exact h.nodup_held.sublist (List.filter_sublist.map _)

theorem release (h : Inv s) {x : Holder} (hx : x ∈ s.held) :
    Inv { s with queue := releaseApiSlot s.queue x.source (some x.id), held := s.dropHolder x.id } := by
  have hsome : (s.queue.requests x.id).isSome = true :=
    (h.requests x.id).mpr (List.mem_append_right _ (List.mem_map_of_mem hx))
  rw [releaseApiSlot]
  simp only [hsome, if_true]
  exact h.removed hx

theorem releaseLegacy (h : Inv s) {x : Holder} (hx : x ∈ s.held)
    (ht : (s.queue.activeStacks x.key).getLast? = some x.id) :
    Inv { s with queue := releaseApiSlot s.queue x.source none, held := s.dropHolder x.id } := by
  have hdrop : (s.queue.activeStacks x.key).dropLast = (s.queue.activeStacks x.key).erase x.id := by
    obtain ⟨init, hi⟩ := List.getLast?_eq_some_iff.mp ht
    have hn := h.nodup_stack x.key
    rw [hi] at hn ⊢
    have hnot : x.id ∉ init := by
      intro hm
      exact (List.nodup_append.mp hn).2.2 _ hm _ (by simp) rfl
    rw [List.dropLast_concat, List.erase_append_right _ hnot]
    simp
  have hq : releaseApiSlot s.queue x.source none = decrementActive ((s.queue.setRequest x.id none).setStack x.key
      ((s.queue.activeStacks x.key).erase x.id)) x.key := by
    refine (releaseApiSlot_legacy ht).trans ?_
    rw [← hdrop]
    rfl
  rw [hq]
  exact h.removed hx

theorem pause (h : Inv s) (source : Text) (seconds : Time) (reason : WaitReason) (now : Time) :
    Inv { s with queue := scheduleSourcePause s.queue source seconds reason now } := by
  obtain ⟨ha, hq, hs, hr⟩ := scheduleSourcePause_spec s.queue source seconds reason now
  constructor
  · exact fun k ↦ (ha k).trans (h.active k)
  · exact fun k ↦ (ha k).symm ▸ h.bounded k
  · exact fun k ↦ (hq k).trans (h.queued k)
  · intro i
    obtain ⟨f, -, hf⟩ := hr i
    rw [hf, Option.isSome_map]
    exact h.requests i
  · exact fun k ↦ (congrFun hs k).trans (h.stack k)
  · exact h.nodup
  · exact h.limit
  · intro w hw req hreq
    obtain ⟨f, hf, he⟩ := hr w.id
    obtain ⟨r, hr, rfl⟩ := Option.map_eq_some_iff.mp (he ▸ hreq)
    exact fun hact ↦ h.idle w hw r hr ((hf r).mp hact)

end Inv

/-- A legacy release comes from the task whose slot was granted last among those of its source. -/
def OnTop (s : State) : Event → Prop
  | .releaseLegacy id => ∀ x ∈ s.held, x.id = id → (s.queue.activeStacks x.key).getLast? = some id
  | _ => True

theorem Inv.step {s : State} (h : Inv s) {e : Event} (hc : OnTop s e) : Inv (step s e) := by
  cases e with
  | enter id source settings now =>
    rw [Slots.step]
    split
    · exact h
    · rename_i hid
      apply Inv.attempt
      · exact h.register hid (getSourcePacing_maxConcurrent settings source)
      · exact List.mem_append_right _ (List.mem_singleton_self _)
  | poll id now =>
    rw [Slots.step]
    split
    · rename_i hw
      exact h.attempt (List.mem_of_find?_eq_some hw) now
    · exact h
  | cancel id =>
    rw [Slots.step]
    split
    · rename_i hw
      exact h.abandon (List.mem_of_find?_eq_some hw)
    · exact h
  | release id =>
    rw [Slots.step]
    split
    · rename_i hx
      exact h.release (List.mem_of_find?_eq_some hx)
    · exact h
  | releaseLegacy id =>
    rw [Slots.step]
    split
    · rename_i x hx
      have hid : x.id = id := by simpa using List.find?_some hx
      exact h.releaseLegacy (List.mem_of_find?_eq_some hx) (hid ▸ hc x (List.mem_of_find?_eq_some hx) hid)
    · exact h
  | pause source seconds reason now => exact h.pause source seconds reason now

theorem Inv.find_holder {s : State} (h : Inv s) {x : Holder} (hx : x ∈ s.held) :
    (s.held.find? fun y ↦ y.id == x.id) = some x := by
  simp only [beq_eq_decide]
  exact (UniqueIndex.find?_eq_some h.nodup_held).mpr ⟨hx, rfl⟩

/-- A legacy release takes the newest slot off the stack, whoever holds it. -/
theorem not_accounted_of_not_onTop {s : State} (h : Inv s) {e : Event} (hc : ¬OnTop s e) : ¬Accounted (step s e) := by
  cases e with
  | releaseLegacy id =>
    simp only [OnTop, not_forall] at hc
    obtain ⟨x, hx, hid, ht⟩ := hc
    subst hid
    obtain ⟨init, t, hi⟩ := (s.queue.activeStacks x.key).eq_nil_or_concat'.resolve_left
      (List.ne_nil_of_mem (h.mem_stack hx))
    have hlast : (s.queue.activeStacks x.key).getLast? = some t := by rw [hi, List.getLast?_concat]
    have hne : t ≠ x.id := fun he ↦ ht (he ▸ hlast)
    have hnot : t ∉ init := by
      have hn := h.nodup_stack x.key
      rw [hi] at hn
      exact fun hm ↦ (List.nodup_append.mp hn).2.2 _ hm _ (by simp) rfl
    -- the newest slot is still held, and is no longer on the stack
    have hstep : step s (.releaseLegacy x.id) =
        { s with queue := releaseApiSlot s.queue x.source none, held := s.dropHolder x.id } := by
      rw [step, h.find_holder hx]
    have hstack : (step s (.releaseLegacy x.id)).queue.activeStacks x.key = init := by
      have hrelease : releaseApiSlot s.queue x.source none = decrementActive
          ((s.queue.setStack x.key (s.queue.activeStacks x.key).dropLast).setRequest t none) x.key :=
        releaseApiSlot_legacy hlast
      rw [hstep, hrelease, hi, List.dropLast_concat]
      simp
    have hheld : t ∈ ((step s (.releaseLegacy x.id)).heldOn x.key).map Holder.id := by
      have hm : t ∈ (s.heldOn x.key).map Holder.id := by
        rw [← h.stack, hi]
        simp
      obtain ⟨y, hy, rfl⟩ := List.mem_map.mp hm
      obtain ⟨hyl, hyk⟩ := List.mem_filter.mp hy
      rw [hstep]
      exact List.mem_map_of_mem (List.mem_filter.mpr ⟨List.mem_filter.mpr ⟨hyl, by simpa using hne⟩, hyk⟩)
    intro ha
    exact hnot (hstack ▸ (ha.stack x.key).mem_iff.mpr hheld)
  | _ => exact absurd trivial hc

/-- The queue accounts for its callers throughout a run exactly when every legacy release comes from the
newest slot of its source. -/
theorem accounted_iff (events : List Event) :
    (∀ before, before <+: events → Accounted (run step State.init before)) ↔ Along step OnTop State.init events :=
  forall_prefix_iff (fun _ h ↦ h.accounted) (fun _ _ h hc ↦ h.step hc) (fun _ _ h hc ↦ not_accounted_of_not_onTop h hc)
    inv_init

/-- Two RSS fetches run at once. The first releases in the legacy form, the second with its id. -/
def mixedReleases : List Event :=
  [.enter "a" "rss:one" ⟨.free, fun _ ↦ none, fun _ ↦ false, fun _ ↦ none⟩ 1,
    .enter "b" "rss:two" ⟨.free, fun _ ↦ none, fun _ ↦ false, fun _ ↦ none⟩ 2,
    .releaseLegacy "a", .release "b"]

/-- Both tasks are done, and the queue still counts one of them. -/
theorem slot_leaked : (run step State.init mixedReleases).held = [] ∧ ¬Accounted (run step State.init mixedReleases) := by
  have hheld : (run step State.init mixedReleases).held.length = 0 := by decide +kernel
  have hactive : ((run step State.init mixedReleases).queue.states "rss".toList).active = 1 := by decide +kernel
  have hheld := List.length_eq_zero_iff.mp hheld
  refine ⟨hheld, ?_⟩
  intro h
  have hzero := h.active "rss".toList
  rw [hactive, State.heldOn, hheld] at hzero
  cases hzero

end Briefr.Outbound.Slots
