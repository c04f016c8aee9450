import Briefr.Library.Runs
import Briefr.Notifications.Inbox
import Briefr.Python.Loop

namespace Briefr.Notifications

open Briefr.Python Briefr.Library Briefr.Library.Runs

/-- What becomes of a row: only its time stamps change, what was read stays read, and what is cleared is read. The
parameters are reasons for which it may be cleared, and may be changed. -/
structure Moved (clears touched : Prop) (n n' : Notification) : Prop where
  alert : n'.toAlert = n.toAlert
  id : n'.id = n.id
  userId : n'.userId = n.userId
  createdAt : n'.createdAt = n.createdAt
  read : n.readAt.isSome → n'.readAt.isSome
  cleared : n'.dismissedAt.isSome → n.dismissedAt.isSome ∨ n'.readAt.isSome
  kept : n.dismissedAt = none → n'.dismissedAt = none ∨ clears
  untouched : n' = n ∨ touched

section
variable {clears touched : Prop} {n n' n'' : Notification}

theorem Moved.refl (n : Notification) : Moved clears touched n n :=
  ⟨rfl, rfl, rfl, rfl, fun h ↦ h, .inl, .inl, .inl rfl⟩

theorem Moved.trans (h : Moved clears touched n n') (h' : Moved clears touched n' n'') :
    Moved clears touched n n'' where
  alert := h'.alert.trans h.alert
  id := h'.id.trans h.id
  userId := h'.userId.trans h.userId
  createdAt := h'.createdAt.trans h.createdAt
  read := fun hread ↦ h'.read (h.read hread)
  cleared := fun hcleared ↦ (h'.cleared hcleared).elim (fun hmiddle ↦ (h.cleared hmiddle).imp_right h'.read) .inr
  kept := fun hopen ↦ (h.kept hopen).elim h'.kept .inr
  untouched := by
    rcases h'.untouched with rfl | ht
    · exact h.untouched
    · exact .inr ht

theorem moved_ite {p : Bool} {m : Notification} (h : p = true → Moved clears touched n m) :
    Moved clears touched n (if p then m else n) := by
  cases p with
  | true => exact h rfl
  | false => exact .refl n

/-- A row that is cleared, and read with it. -/
theorem moved_clear (now : Text) (hclears : clears) (htouched : touched) :
    Moved clears touched n { n with readAt := n.readBy now, dismissedAt := some now } :=
  ⟨rfl, rfl, rfl, rfl, fun _ ↦ rfl, fun _ ↦ .inr rfl, fun _ ↦ .inr hclears, .inr htouched⟩

theorem moved_read {readAt : Option Text} (hread : readAt.isSome) (htouched : touched) :
    Moved clears touched n { n with readAt, dismissedAt := n.dismissedAt } :=
  ⟨rfl, rfl, rfl, rfl, fun _ ↦ hread, fun _ ↦ .inr hread, .inl, .inr htouched⟩

theorem moved_restore (htouched : touched) : Moved clears touched n { n with dismissedAt := none } :=
  ⟨rfl, rfl, rfl, rfl, fun h ↦ h, fun h ↦ absurd h Bool.false_ne_true, fun _ ↦ .inl rfl, .inr htouched⟩

end

/-- A row that an alert has made. -/
structure Emitted (alert : Alert) (recipients : List User) (n : Notification) : Prop where
  alert : n.toAlert = alert
  recipient : ∃ user ∈ recipients, user.id = n.userId
  unread : n.readAt = none
  unseen : n.dismissedAt = none

theorem rows_emitToUsers (alert : Alert) (recipients : List User) (t : Inbox) :
    ∃ new, (emitToUsers t recipients alert).1.rows = t.rows ++ new ∧ ∀ n ∈ new, Emitted alert recipients n := by
  have hfold : ∀ (users : List User) (acc : Inbox × ℕ), (∀ user ∈ users, user ∈ recipients) →
      ∃ new, (users.foldl (emitToUser alert) acc).1.rows = acc.1.rows ++ new ∧
        ∀ n ∈ new, Emitted alert recipients n := by
    intro users
    induction users with
    | nil => exact fun acc _ ↦ ⟨[], (List.append_nil _).symm, fun n hn ↦ absurd hn List.not_mem_nil⟩
    | cons user users ih =>
      intro acc husers
      obtain ⟨new, hnew, hemitted⟩ := ih (emitToUser alert acc user) fun user huser ↦ husers user (.tail _ huser)
      have hone : ∃ first, (emitToUser alert acc user).1.rows = acc.1.rows ++ first ∧
          ∀ n ∈ first, Emitted alert recipients n := by
        rw [emitToUser]
        split
        · exact ⟨[], (List.append_nil _).symm, fun n hn ↦ absurd hn List.not_mem_nil⟩
        · rw [insertNotification]
          split
          · exact ⟨[], (List.append_nil _).symm, fun n hn ↦ absurd hn List.not_mem_nil⟩
          · refine ⟨_, rfl, fun n hn ↦ ?_⟩
            obtain rfl := List.mem_singleton.mp hn
            exact ⟨rfl, ⟨user, husers user (.head _), rfl⟩, rfl, rfl⟩
      obtain ⟨first, hfirst, hfirst'⟩ := hone
      refine ⟨first ++ new, ?_, fun n hn ↦ (List.mem_append.mp hn).elim (hfirst' n) (hemitted n)⟩
      rw [List.foldl_cons, hnew, hfirst, List.append_assoc]
  exact hfold recipients (t, 0) fun user huser ↦ huser

theorem mem_recoveredJobIds {app : App} {jobId : Text} :
    jobId ∈ recoveredJobIds app ↔ jobId ≠ [] ∧ app.recovered jobId = true := by
  rw [recoveredJobIds, List.mem_map, App.recovered]
  constructor
  · rintro ⟨⟨jobId, stored⟩, hentry, rfl⟩
    obtain ⟨hitem, hentry⟩ := List.mem_filter.mp hentry
    obtain ⟨hne, hlatest⟩ := Bool.and_eq_true_iff.mp hentry
    rw [Dict.mem_items_iff.mp hitem]
    exact ⟨bne_iff_ne.mp hne, hlatest⟩
  · rintro ⟨hne, hrecovered⟩
    cases hget : app.lastRuns.get? jobId with
    | none =>
      rw [hget] at hrecovered
      cases hrecovered
    | some stored =>
      rw [hget] at hrecovered
      exact ⟨(jobId, stored), List.mem_filter.mpr ⟨Dict.mem_items_iff.mpr hget,
        Bool.and_eq_true_iff.mpr ⟨bne_iff_ne.mpr hne, hrecovered⟩⟩, rfl⟩

/-- The alert is of a job of which the last run was a success. -/
def Recovered [Interp] (app : App) (n : Notification) : Prop :=
  ∃ jobId ∈ recoveredJobIds app, strip jobId ≠ [] ∧ n.isJobErrorOf (strip jobId) = true

section
variable [Interp]

/-- An event that may clear a row that is open. -/
def Clears (app : App) (n : Notification) : Event → Prop
  | .emit _ _ | .lastRun _ _ | .purge _ => False
  | .jobSucceeded jobId _ => n.isJobErrorOf (strip jobId) = true
  | .startup _ => Recovered app n
  | .request userId _ _ request =>
    match request with
    | .notifications reach _ _ _ | .unreadCount reach | .readAll reach =>
      reach.includesOperator = true ∧ Recovered app n
    | .read _ | .restore _ => False
    | .dismiss id => n.id = id ∧ n.userId = userId
    | .dismissAll reach => n.userId = userId ∧ reach.covers n.scope = true

/-- An event that may change a row: a request of its user, or one that clears the errors of recovered jobs. -/
def Touches (app : App) (n : Notification) : Event → Prop
  | .request userId _ _ _ => n.userId = userId ∨ Recovered app n
  | e => Clears app n e

theorem clears_congr {app : App} {n n' : Notification} (halert : n'.toAlert = n.toAlert) (hid : n'.id = n.id)
    (huser : n'.userId = n.userId) (e : Event) : Clears app n' e ↔ Clears app n e := by
  have hjob : ∀ jobId, n'.isJobErrorOf jobId = n.isJobErrorOf jobId := by
    intro jobId
    rw [Notification.isJobErrorOf, Notification.isJobErrorOf, halert]
  have hrecovered : Recovered app n' ↔ Recovered app n := by simp only [Recovered, hjob]
  cases e with
  | emit alert recipients => rfl
  | lastRun jobId run => rfl
  | purge cutoff => rfl
  | jobSucceeded jobId now => rw [Clears, Clears, hjob]
  | startup now => exact hrecovered
  | request userId isAdmin now request =>
    cases request with
    | notifications reach limit view cutoff => exact and_congr_right' hrecovered
    | unreadCount reach => exact and_congr_right' hrecovered
    | readAll reach => exact and_congr_right' hrecovered
    | read id => rfl
    | restore id => rfl
    | dismiss id =>
      rw [Clears, Clears, hid, huser]
    | dismissAll reach =>
      rw [Clears, Clears, huser, halert]

theorem touches_congr {app : App} {n n' : Notification} (halert : n'.toAlert = n.toAlert) (hid : n'.id = n.id)
    (huser : n'.userId = n.userId) (e : Event) : Touches app n' e ↔ Touches app n e := by
  have hclears : ∀ e, Clears app n' e ↔ Clears app n e := clears_congr halert hid huser
  have hrecovered : Recovered app n' ↔ Recovered app n := hclears (.startup [])
  cases e with
  | request userId isAdmin now request => rw [Touches, Touches, huser, hrecovered]
  | emit alert recipients => rfl
  | lastRun jobId run => rfl
  | purge cutoff => rfl
  | jobSucceeded jobId now => exact hclears (.jobSucceeded jobId now)
  | startup now => exact hclears (.startup now)

/-- Each row of the new table comes of the row of the old one at its place, as the event may change it. -/
def Evolves (app : App) (e : Event) (t t' : Inbox) : Prop :=
  ∃ f : Notification → Notification, t'.rows = t.rows.map f ∧ ∀ n, Moved (Clears app n e) (Touches app n e) n (f n)

variable {app : App} {e : Event} {t t' t'' : Inbox}

theorem Evolves.refl (t : Inbox) : Evolves app e t t := ⟨id, (List.map_id _).symm, fun n ↦ .refl n⟩

theorem Evolves.trans (h : Evolves app e t t') (h' : Evolves app e t' t'') : Evolves app e t t'' := by
  obtain ⟨f, hf, hmoved⟩ := h
  obtain ⟨g, hg, hmoved'⟩ := h'
  refine ⟨g ∘ f, by rw [hg, hf, List.map_map], fun n ↦ (hmoved n).trans ?_⟩
  have hfirst := hmoved n
  have hsecond := hmoved' (f n)
  rwa [clears_congr hfirst.alert hfirst.id hfirst.userId, touches_congr hfirst.alert hfirst.id hfirst.userId] at hsecond

theorem evolves_stamp {p : Notification → Bool} {readAt dismissedAt : Notification → Option Text}
    (h : ∀ n, p n = true →
      Moved (Clears app n e) (Touches app n e) n { n with readAt := readAt n, dismissedAt := dismissedAt n }) :
    Evolves app e t (stamp t p readAt dismissedAt).1 := ⟨_, rfl, fun n ↦ moved_ite (h n)⟩

theorem evolves_jobError (jobId now : Text) (h : ∀ n, strip jobId ≠ [] → n.isJobErrorOf (strip jobId) = true →
    Clears app n e ∧ Touches app n e) : Evolves app e t (dismissJobErrorNotifications t jobId now).1 := by
  rw [dismissJobErrorNotifications]
  split
  next => exact .refl t
  next hjob =>
    refine evolves_stamp fun n hn ↦ ?_
    obtain ⟨hclears, htouches⟩ := h n hjob (Bool.and_eq_true_iff.mp hn).1
    exact moved_clear now hclears htouches

theorem evolves_reconcile (app' : App) (now : Text) (happ : recoveredJobIds app' = recoveredJobIds app)
    (h : ∀ n, Recovered app n → Clears app n e ∧ Touches app n e) :
    Evolves app e app'.inbox (reconcileRecoveredJobErrors app' now).1.inbox := by
  have hfold : ∀ (jobIds : List Text) (acc : Inbox × ℕ), (∀ jobId ∈ jobIds, jobId ∈ recoveredJobIds app) →
      Evolves app e acc.1 (jobIds.foldl (dismissRecovered now) acc).1 := by
    intro jobIds
    induction jobIds with
    | nil => exact fun acc _ ↦ .refl acc.1
    | cons jobId jobIds ih =>
      intro acc hjobs
      rw [List.foldl_cons]
      refine Evolves.trans ?_ (ih _ fun jobId hjob ↦ hjobs jobId (.tail _ hjob))
      exact evolves_jobError jobId now fun n hne hn ↦ h n ⟨jobId, hjobs jobId (.head _), hne, hn⟩
  exact hfold _ _ fun jobId hjob ↦ happ ▸ hjob

theorem evolves_reconcileFor (app' : App) {reach : Reach} (now : Text)
    (happ : recoveredJobIds app' = recoveredJobIds app)
    (h : reach.includesOperator = true → ∀ n, Recovered app n → Clears app n e ∧ Touches app n e) :
    Evolves app e app'.inbox (reconcileFor app' reach now).inbox := by
  rw [reconcileFor]
  split
  next hreach => exact evolves_reconcile app' now happ (h hreach)
  next => exact .refl _

theorem recoveredJobIds_reconcileFor (app : App) (reach : Reach) (now : Text) :
    recoveredJobIds (reconcileFor app reach now) = recoveredJobIds app := by
  rw [reconcileFor]
  split
  · rfl
  · rfl

/-- What one request does to the rows. -/
theorem evolves_handle (app : App) (userId : ℕ) (isAdmin : Bool) (now : Text) (request : Request) :
    Evolves app (.request userId isAdmin now request) app.inbox (handle app userId isAdmin now request).inbox := by
  have hsame := recoveredJobIds_reconcileFor app
  cases request with
  | notifications reach limit view cutoff =>
    have hread : reach.includesOperator = true → ∀ n, Recovered app n →
        Clears app n (.request userId isAdmin now (.notifications reach limit view cutoff)) ∧
          Touches app n (.request userId isAdmin now (.notifications reach limit view cutoff)) :=
      fun hreach n hn ↦ ⟨⟨hreach, hn⟩, .inr hn⟩
    have hlisted := evolves_reconcileFor app now rfl hread
    rw [handle]
    split
    · dsimp only
      split
      · exact hlisted.trans (evolves_reconcileFor _ now (hsame reach now) hread)
      · exact hlisted
    · exact .refl _
  | unreadCount reach =>
    rw [handle]
    split
    · exact evolves_reconcileFor app now rfl fun hreach n hn ↦ ⟨⟨hreach, hn⟩, .inr hn⟩
    · exact .refl _
  | readAll reach =>
    rw [handle]
    split
    · refine Evolves.trans (evolves_stamp fun n hn ↦ ?_) (evolves_reconcileFor ⟨_, app.lastRuns⟩ now rfl
        fun hreach n hn ↦ ⟨⟨hreach, hn⟩, .inr hn⟩)
      simp only [Bool.and_eq_true, beq_iff_eq] at hn
      exact moved_read rfl (.inl hn.1.1.1)
    · exact .refl _
  | read id =>
    refine evolves_stamp fun n hn ↦ ?_
    simp only [Bool.and_eq_true, beq_iff_eq] at hn
    exact moved_read rfl (.inl hn.1.2)
  | restore id =>
    refine evolves_stamp fun n hn ↦ ?_
    simp only [Bool.and_eq_true, beq_iff_eq] at hn
    exact moved_restore (.inl hn.2)
  | dismiss id =>
    refine evolves_stamp fun n hn ↦ ?_
    simp only [Bool.and_eq_true, beq_iff_eq] at hn
    exact moved_clear now hn.1 (.inl hn.1.2)
  | dismissAll reach =>
    rw [handle]
    split
    · refine evolves_stamp fun n hn ↦ ?_
      simp only [Bool.and_eq_true, beq_iff_eq] at hn
      exact moved_clear now hn.1 (.inl hn.1.1)
    · exact .refl _

/-- A row after a step is a row before it, moved, or one that the step emits. -/
theorem mem_step {n' : Notification} (h : n' ∈ (step app e).inbox.rows) :
    (∃ n ∈ app.inbox.rows, Moved (Clears app n e) (Touches app n e) n n') ∨
      ∃ alert recipients, e = .emit alert recipients ∧ Emitted alert recipients n' := by
  have hevolved : Evolves app e app.inbox (step app e).inbox →
      ∃ n ∈ app.inbox.rows, Moved (Clears app n e) (Touches app n e) n n' := by
    rintro ⟨f, hf, hmoved⟩
    rw [hf] at h
    obtain ⟨n, hn, rfl⟩ := List.mem_map.mp h
    exact ⟨n, hn, hmoved n⟩
  cases e with
  | emit alert recipients =>
    obtain ⟨new, hnew, hemitted⟩ := rows_emitToUsers alert recipients app.inbox
    have h' : n' ∈ (emitToUsers app.inbox recipients alert).1.rows := h
    rw [hnew] at h'
    rcases List.mem_append.mp h' with hold | hnew'
    · exact .inl ⟨n', hold, .refl n'⟩
    · exact .inr ⟨alert, recipients, rfl, hemitted n' hnew'⟩
  | lastRun jobId run => exact .inl (hevolved (.refl _))
  | jobSucceeded jobId now => exact .inl (hevolved (evolves_jobError jobId now fun _ _ hn ↦ ⟨hn, hn⟩))
  | startup now => exact .inl (hevolved (evolves_reconcile app now rfl fun _ hn ↦ ⟨hn, hn⟩))
  | request userId isAdmin now request => exact .inl (hevolved (evolves_handle app userId isAdmin now request))
  | purge cutoff => exact .inl ⟨n', (List.mem_filter.mp h).1, .refl n'⟩

/-- A row is there after a step, moved, unless it was cleared and is swept. -/
theorem step_mem {n : Notification} (h : n ∈ app.inbox.rows) :
    (∃ n' ∈ (step app e).inbox.rows, Moved (Clears app n e) (Touches app n e) n n') ∨
      ∃ cutoff, e = .purge cutoff ∧ n.dismissedAt.isSome := by
  have hevolved : Evolves app e app.inbox (step app e).inbox →
      ∃ n' ∈ (step app e).inbox.rows, Moved (Clears app n e) (Touches app n e) n n' := by
    rintro ⟨f, hf, hmoved⟩
    exact ⟨f n, hf ▸ List.mem_map_of_mem h, hmoved n⟩
  cases e with
  | emit alert recipients =>
    obtain ⟨new, hnew, -⟩ := rows_emitToUsers alert recipients app.inbox
    exact .inl ⟨n, hnew ▸ List.mem_append_left _ h, .refl n⟩
  | lastRun jobId run => exact .inl (hevolved (.refl _))
  | jobSucceeded jobId now => exact .inl (hevolved (evolves_jobError jobId now fun _ _ hn ↦ ⟨hn, hn⟩))
  | startup now => exact .inl (hevolved (evolves_reconcile app now rfl fun _ hn ↦ ⟨hn, hn⟩))
  | request userId isAdmin now request => exact .inl (hevolved (evolves_handle app userId isAdmin now request))
  | purge cutoff =>
    cases hdismissed : n.dismissedAt with
    | none =>
      have hkept : (n.dismissedAt.any fun dismissedAt ↦ decide (dismissedAt < cutoff)) = false := by
        rw [hdismissed]
        rfl
      exact .inl ⟨n, List.mem_filter.mpr ⟨h, (Bool.not_eq_true' _).mpr hkept⟩, .refl n⟩
    | some dismissedAt => exact .inr ⟨cutoff, rfl, rfl⟩

def App.initial : App := ⟨.empty, .empty⟩

/-- What was cleared was read. -/
def ClearedRead (app : App) : Prop := ∀ n ∈ app.inbox.rows, n.dismissedAt.isSome → n.readAt.isSome

theorem clearedRead_step (h : ClearedRead app) (e : Event) : ClearedRead (step app e) := by
  intro n' hn' hcleared
  rcases mem_step hn' with ⟨n, hn, hmoved⟩ | ⟨alert, recipients, -, hemitted⟩
  · exact (hmoved.cleared hcleared).elim (fun h' ↦ hmoved.read (h n hn h')) id
  · rw [hemitted.unseen] at hcleared
    cases hcleared

theorem clearedRead_run (events : List Event) : ClearedRead (run step .initial events) :=
  run_invariant events (fun _ e h ↦ clearedRead_step h e) fun _ hn ↦ absurd hn List.not_mem_nil

/-- An alert for the user, in a scope of the request. -/
def Alerts (userId : ℕ) (reach : Reach) : Event → Prop
  | .emit alert recipients => reach.covers alert.scope = true ∧ ∃ user ∈ recipients, user.id = userId
  | _ => False

/-- The user has read all of a scope. -/
def AllRead (userId : ℕ) (reach : Reach) (t : Inbox) : Prop :=
  ∀ n ∈ t.rows, n.userId = userId → reach.covers n.scope = true → n.readAt.isSome

section
variable {userId : ℕ} {reach : Reach}

theorem AllRead.evolves (h : AllRead userId reach t) (ht : Evolves app e t t') : AllRead userId reach t' := by
  obtain ⟨f, hf, hmoved⟩ := ht
  intro n' hn' huser hscope
  rw [hf] at hn'
  obtain ⟨n, hn, rfl⟩ := List.mem_map.mp hn'
  have hn'' := hmoved n
  rw [hn''.alert] at hscope
  exact hn''.read (h n hn (hn''.userId ▸ huser) hscope)

theorem allRead_step (h : AllRead userId reach app.inbox) (he : ¬Alerts userId reach e) :
    AllRead userId reach (step app e).inbox := by
  intro n' hn' huser hscope
  rcases mem_step hn' with ⟨n, hn, hmoved⟩ | ⟨alert, recipients, rfl, hemitted⟩
  · rw [hmoved.alert] at hscope
    exact hmoved.read (h n hn (hmoved.userId ▸ huser) hscope)
  · obtain ⟨user, hrecipient, hid⟩ := hemitted.recipient
    rw [hemitted.alert] at hscope
    exact absurd ⟨hscope, user, hrecipient, hid.trans huser⟩ he

theorem allRead_readAll (hread : ClearedRead app) {isAdmin : Bool} (hallowed : reach.allowed isAdmin = true)
    (now : Text) : AllRead userId reach (step app (.request userId isAdmin now (.readAll reach))).inbox := by
  have hmarked : AllRead userId reach (markScopeRead app.inbox userId reach now).1 := by
    intro n' hn' huser hscope
    obtain ⟨n, hn, rfl⟩ := List.mem_map.mp hn'
    dsimp only at huser hscope ⊢
    split
    next => rfl
    next hskip =>
      rw [if_neg hskip] at huser hscope
      by_contra hunread
      have hopen : n.dismissedAt.isNone = true := by
        rw [Option.isNone_iff_eq_none, ← Option.not_isSome_iff_eq_none]
        exact fun hcleared ↦ hunread (hread n hn hcleared)
      refine hskip ?_
      rw [hscope, hopen, beq_iff_eq.mpr huser, Option.isNone_iff_eq_none.mpr (Option.not_isSome_iff_eq_none.mp hunread)]
      rfl
  rw [step, handle, if_pos hallowed]
  exact hmarked.evolves (evolves_reconcileFor (e := .startup now) _ now rfl fun _ n hn ↦ ⟨hn, hn⟩)

/-- Once a user has marked a scope read, the badge stays at zero through every run in which no alert of the scope goes
to the user: what was cleared was read, so that no restored row brings it back. -/
theorem unread_stays_zero (before later : List Event) (userId : ℕ) (reach : Reach) {isAdmin : Bool}
    (hallowed : reach.allowed isAdmin = true) (now now' : Text) (hlater : ∀ e ∈ later, ¬Alerts userId reach e) :
    (countUnread (run step .initial (before ++ .request userId isAdmin now (.readAll reach) :: later)) userId reach
      now').2 = 0 := by
  rw [run_append, run_cons]
  have hread : AllRead userId reach
      (step (run step .initial before) (.request userId isAdmin now (.readAll reach))).inbox :=
    allRead_readAll (clearedRead_run before) hallowed now
  have halong : ∀ s, Along step (fun _ e ↦ ¬Alerts userId reach e) s later := fun _ ↦ along_const_iff.mpr hlater
  have hstep : ∀ s e, AllRead userId reach s.inbox → ¬Alerts userId reach e → AllRead userId reach (step s e).inbox :=
    fun s e hs he ↦ allRead_step hs he
  have hrun := run_induction hstep hread (halong _)
  have hreconciled : ∀ s, Evolves s (.startup now') s.inbox (reconcileFor s reach now').inbox :=
    fun s ↦ evolves_reconcileFor s now' rfl fun _ n hn ↦ ⟨hn, hn⟩
  have hcounted := AllRead.evolves hrun (hreconciled _)
  refine List.countP_eq_zero.mpr fun n hn hunread ↦ ?_
  simp only [Bool.and_eq_true, beq_iff_eq] at hunread
  have hsome := hcounted n hn hunread.1.1.1 hunread.1.1.2
  rw [Option.isNone_iff_eq_none.mp hunread.2] at hsome
  cases hsome

end

/-- An open notification stays in the inbox, open, through every run in which no event clears it. -/
theorem open_row_kept {n : Notification} (hn : n ∈ app.inbox.rows) (hopen : n.dismissedAt = none) (events : List Event)
    (h : Along step (fun app e ↦ ¬Clears app n e) app events) :
    ∃ n' ∈ (run step app events).inbox.rows, n'.id = n.id ∧ n'.toAlert = n.toAlert ∧ n'.userId = n.userId ∧
      n'.dismissedAt = none := by
  have hinv : ∀ app e, (∃ n' ∈ app.inbox.rows, n'.id = n.id ∧ n'.toAlert = n.toAlert ∧ n'.userId = n.userId ∧
      n'.dismissedAt = none) → ¬Clears app n e → ∃ n' ∈ (step app e).inbox.rows, n'.id = n.id ∧ n'.toAlert = n.toAlert ∧
        n'.userId = n.userId ∧ n'.dismissedAt = none := by
    rintro app e ⟨m, hm, hid, halert, huser, hopen⟩ hclears
    rcases step_mem (e := e) hm with ⟨m', hm', hmoved⟩ | ⟨cutoff, -, hcleared⟩
    · refine ⟨m', hm', hmoved.id.trans hid, hmoved.alert.trans halert, hmoved.userId.trans huser, ?_⟩
      exact (hmoved.kept hopen).resolve_right fun hm ↦ hclears ((clears_congr halert hid huser e).mp hm)
    · rw [hopen] at hcleared
      cases hcleared
  exact run_induction hinv ⟨n, hn, rfl, rfl, rfl, hopen⟩ h

theorem mem_dismissJobError {jobId now : Text} {n' : Notification}
    (h : n' ∈ (dismissJobErrorNotifications t jobId now).1.rows) : ∃ n ∈ t.rows, n'.toAlert = n.toAlert ∧
      (n.dismissedAt.isSome → n'.dismissedAt.isSome) ∧
        (strip jobId ≠ [] → n.isJobErrorOf (strip jobId) = true → n'.dismissedAt.isSome) := by
  rw [dismissJobErrorNotifications] at h
  split at h
  next hnil => exact ⟨n', h, rfl, fun h ↦ h, fun hne ↦ absurd hnil hne⟩
  next =>
    obtain ⟨n, hn, rfl⟩ := List.mem_map.mp h
    refine ⟨n, hn, ?_, ?_⟩
    · split
      · rfl
      · rfl
    · split
      next => exact ⟨fun _ ↦ rfl, fun _ _ ↦ rfl⟩
      next hskip =>
        refine ⟨fun h ↦ h, fun _ herror ↦ ?_⟩
        by_contra hopen
        have hnone := Option.isNone_iff_eq_none.mpr (Option.not_isSome_iff_eq_none.mp hopen)
        exact hskip (Bool.and_eq_true_iff.mpr ⟨herror, hnone⟩)

/-- A reconciliation clears the job errors of the jobs that it finds recovered. -/
theorem cleared_of_reconcile (now : Text) {n' : Notification}
    (hn' : n' ∈ (reconcileRecoveredJobErrors app now).1.inbox.rows) (hrecovered : Recovered app n') :
    n'.dismissedAt.isSome := by
  have hfold : ∀ jobIds : List Text, ∀ n' ∈ (jobIds.foldl (dismissRecovered now) (app.inbox, 0)).1.rows,
      (∃ jobId ∈ jobIds, strip jobId ≠ [] ∧ n'.isJobErrorOf (strip jobId) = true) → n'.dismissedAt.isSome := by
    intro jobIds
    induction jobIds using List.reverseRecOn with
    | nil => exact fun n' _ ⟨jobId, hjob, _⟩ ↦ absurd hjob List.not_mem_nil
    | append_singleton jobIds last ih =>
      rintro n' hn' ⟨jobId, hjob, hne, herror⟩
      rw [List.foldl_append] at hn'
      obtain ⟨n, hn, halert, hkept, hcleared⟩ := mem_dismissJobError hn'
      rw [Notification.isJobErrorOf, halert] at herror
      rcases List.mem_append.mp hjob with hjob | hjob
      · exact hkept (ih n hn ⟨jobId, hjob, hne, herror⟩)
      · obtain rfl := List.mem_singleton.mp hjob
        exact hcleared hne herror
  exact hfold _ n' hn' hrecovered

/-- No open job error that an operator's inbox lists is of a job of which the last run was a success. -/
theorem listed_job_errors_fail {userId : ℕ} {reach : Reach} (hreach : reach.includesOperator = true) {limit : ℤ}
    {view now cutoff : Text} {listed : List Notification}
    (h : (listNotifications app userId reach limit view now cutoff).2 = .ok listed) {n : Notification} (hn : n ∈ listed)
    (hopen : n.dismissedAt = none) (hjob : n.isJobErrorOf n.entityId = true) (hid : strip n.entityId = n.entityId)
    (hne : n.entityId ≠ []) : app.recovered n.entityId = false := by
  have hrow : n ∈ (reconcileRecoveredJobErrors app now).1.inbox.rows := by
    rw [listNotifications, reconcileFor, if_pos hreach] at h
    obtain ⟨view, -, rfl⟩ := map_eq_ok.mp h
    have hview := List.mem_of_mem_take hn
    cases view with
    | active => exact (List.mem_filter.mp (List.mem_mergeSort.mp hview)).1
    | cleared => exact (List.mem_filter.mp (List.mem_mergeSort.mp hview)).1
  by_contra hrecovered
  have hmem := mem_recoveredJobIds.mpr ⟨hne, Bool.eq_true_of_not_eq_false hrecovered⟩
  have hcleared := cleared_of_reconcile now hrow ⟨n.entityId, hmem, by rwa [hid], by rwa [hid]⟩
  rw [hopen] at hcleared
  cases hcleared

/-- Requests of other users leave a user's rows as they are, unless they are errors of recovered jobs. -/
theorem others_requests_keep {u : ℕ} {events : List Event}
    (h : ∀ e ∈ events, ∃ userId isAdmin now request, e = .request userId isAdmin now request ∧ userId ≠ u)
    {n : Notification} (hu : n.userId = u) (hjob : n.category ≠ .jobError) :
    n ∈ (run step app events).inbox.rows ↔ n ∈ app.inbox.rows := by
  have huntouched : ∀ {app : App} {userId isAdmin now request}, userId ≠ u → ∀ {m m' : Notification},
      Moved (Clears app m (.request userId isAdmin now request)) (Touches app m (.request userId isAdmin now request))
        m m' → m.userId = u → m.category ≠ .jobError → m' = m := by
    intro app userId isAdmin now request hne m m' hmoved hm hcategory
    refine hmoved.untouched.resolve_right ?_
    rintro (huser | ⟨jobId, -, -, herror⟩)
    · exact hne (huser.symm.trans hm)
    · simp only [Notification.isJobErrorOf, Bool.and_eq_true, beq_iff_eq] at herror
      exact hcategory herror.1.1
  induction events generalizing app with
  | nil => rfl
  | cons e events ih =>
    obtain ⟨userId, isAdmin, now, request, rfl, hne⟩ := h e (.head _)
    refine Iff.trans (ih fun e he ↦ h e (.tail _ he)) ?_
    constructor
    · intro hn
      rcases mem_step hn with ⟨m, hm, hmoved⟩ | ⟨alert, recipients, heq, -⟩
      · have hcategory : m.category ≠ .jobError := fun heq ↦ hjob ((congrArg Alert.category hmoved.alert).trans heq)
        rwa [huntouched hne hmoved (hmoved.userId.symm.trans hu) hcategory]
      · cases heq
    · intro hn
      rcases step_mem (e := .request userId isAdmin now request) hn with ⟨m', hm', hmoved⟩ | ⟨cutoff, heq, -⟩
      · rwa [huntouched hne hmoved hu hjob] at hm'
      · cases heq

end

section
local instance inboxInterp : Interp := ascii fun _ ↦ none

def aliceAt (insertedAt : Text) : User := ⟨1, true, true, none, false, insertedAt⟩

def nvdFailed : Alert :=
  jobErrorAlert "nvd_ingest".toList "timeout".toList "job:nvd_ingest:2026-05-01T00:00:00+00:00".toList

def noon : Text := "2026-05-01 12:00:00".toList

/-- The row of an alert to the first user. -/
def nvdRow : Notification := ⟨nvdFailed, 1, 1, noon, none, none⟩

def nvdAlerted : App := step .initial (.emit nvdFailed [aliceAt noon])

def nvdRun (hadError : Bool) : JobRun := ⟨"2026-05-01T00:00:00+00:00".toList, hadError, []⟩

/-- A notification that is cleared and restored does not count again. -/
theorem unread_after_restore : (countUnread (run step .initial ([.emit nvdFailed [aliceAt noon]] ++
    .request 1 true noon (.readAll .all) :: [.request 1 true noon (.dismiss 1), .request 1 true noon (.restore 1)])) 1
      .all noon).2 = 0 := by
  have hallowed : Reach.all.allowed true = true := rfl
  refine unread_stays_zero _ _ 1 .all hallowed noon noon fun e he ↦ ?_
  rcases List.mem_cons.mp he with rfl | he
  · exact id
  · obtain rfl := List.mem_singleton.mp he
    exact id

/-- Another failure and a read of the inbox leave the alert of the first one open. -/
theorem alert_kept_while_failing : ∃ n' ∈ (run step nvdAlerted [.lastRun "nvd_ingest".toList (nvdRun true),
    .request 1 true noon (.notifications .all 30 "inbox".toList noon)]).inbox.rows, n'.id = 1 ∧ n'.toAlert = nvdFailed ∧
      n'.userId = 1 ∧ n'.dismissedAt = none := by
  have hn : nvdRow ∈ nvdAlerted.inbox.rows := .head _
  refine open_row_kept hn rfl _ ⟨id, ?_, trivial⟩
  rintro ⟨-, jobId, hjob, -⟩
  cases hjob

def nvdFailing : App := writeJobLastRun nvdAlerted "nvd_ingest".toList (nvdRun true)

theorem listed_failure : nvdFailing.recovered nvdRow.entityId = false := by
  have hrows : InboxView.active.rows (reconcileFor nvdFailing .all noon).inbox 1 .all noon = [nvdRow] :=
    List.mergeSort_singleton nvdRow
  have hlisted : (listNotifications nvdFailing 1 .all 30 "inbox".toList noon noon).2 = .ok [nvdRow] := by
    exact congrArg (fun listed ↦ Except.ok (listed.take 30)) hrows
  exact listed_job_errors_fail rfl hlisted (.head _) rfl rfl rfl (List.cons_ne_nil _ _)

def watched : Notification :=
  ⟨watchlistAlert "CVE-2026-0001".toList "added to KEV".toList [] "kev:1".toList "high".toList, 1, 1, noon, none, none⟩

/-- A dismissal of all by another user. -/
theorem watched_row_kept : watched ∈ (run step (step .initial (.emit watched.toAlert [aliceAt noon]))
    [.request 2 true noon (.dismissAll .all)]).inbox.rows := by
  have hothers : ∀ e ∈ [Event.request 2 true noon (.dismissAll .all)], ∃ userId isAdmin now request,
      e = .request userId isAdmin now request ∧ userId ≠ 1 := by
    intro e he
    obtain rfl := List.mem_singleton.mp he
    exact ⟨2, true, noon, .dismissAll .all, rfl, by decide⟩
  exact (others_requests_keep hothers rfl (by decide)).mpr (.head _)

end

end Briefr.Notifications
