import Briefr.Library.Dict
import Briefr.Library.SerialTable
import Briefr.Python.Text
import Mathlib.Data.List.Lex

namespace Briefr.Notifications

open Briefr.Python Briefr.Library

inductive Scope
  | analyst
  | operator
  deriving DecidableEq

inductive Category
  | watchlist
  | iocWatchlist
  | jobError
  | apiKeyUnhealthy
  | webhookFailure
  deriving DecidableEq

inductive EntityType
  | cve
  | ioc
  | job
  | apiKey
  | webhook
  deriving DecidableEq

structure Alert where
  scope : Scope
  category : Category
  severity : Text
  title : Text
  body : Text
  entityType : EntityType
  entityId : Text
  dedupeKey : Text

structure Notification extends Alert where
  id : ℕ
  userId : ℕ
  createdAt : Text
  readAt : Option Text
  dismissedAt : Option Text

def Notification.key (n : Notification) : ℕ × Text := (n.userId, n.dedupeKey)

/-- `user_notifications`, of which the user and the dedupe key are unique. -/
abbrev Inbox := SerialTable Notification (ℕ × Text) Notification.id Notification.key

/-- A user at the time of an alert: the muted categories, unless the preferences cannot be loaded, whether the insert
raises, and the clock when it is made. -/
structure User where
  id : ℕ
  isActive : Bool
  isAdmin : Bool
  notificationMutes : Option (Category → Bool)
  insertRaises : Bool
  insertedAt : Text

def listActiveUserIds (users : List User) : Scope → List User
  | .operator => users.filter fun user ↦ user.isActive && user.isAdmin
  | .analyst => users.filter User.isActive

def insertNotification (t : Inbox) (userId : ℕ) (alert : Alert) (createdAt : Text) : Inbox × Bool :=
  if h : (userId, alert.dedupeKey) ∈ t.rows.map Notification.key then (t.skip, false)
  else (t.insert ⟨alert, t.nextId, userId, createdAt, none, none⟩ rfl h, true)

def emitToUser (alert : Alert) (acc : Inbox × ℕ) (user : User) : Inbox × ℕ :=
  if (user.notificationMutes.getD fun _ ↦ false) alert.category || user.insertRaises then acc
  else
    let inserted := insertNotification acc.1 user.id alert user.insertedAt
    (inserted.1, if inserted.2 then acc.2 + 1 else acc.2)

def emitToUsers (t : Inbox) (users : List User) (alert : Alert) : Inbox × ℕ := users.foldl (emitToUser alert) (t, 0)

section
variable [Interp]

/-- `_DIGITS_RE.sub("#", error_text)`; the flag says that the digit before was of a run. -/
def collapseDigits : Bool → Text → Text
  | _, [] => []
  | inRun, c :: text =>
    if isDecimal c then (if inRun then collapseDigits true text else '#' :: collapseDigits true text)
    else c :: collapseDigits false text

def normalizeForDedupe (errorText : Text) : Text := collapseDigits false errorText

def watchlistAlert (cveId reason detail dedupeKey severity : Text) : Alert where
  scope := .analyst
  category := .watchlist
  severity := severity
  title := cveId ++ (" — ".toList ++ reason)
  body := detail
  entityType := .cve
  entityId := upper cveId
  dedupeKey := dedupeKey

def iocWatchlistAlert (iocValue source summary dedupeKey : Text) : Alert where
  scope := .analyst
  category := .iocWatchlist
  severity := "high".toList
  title := "IOC watchlist hit (".toList ++ (source ++ ")".toList)
  body := summary.take 500
  entityType := .ioc
  entityId := iocValue
  dedupeKey := dedupeKey

def jobErrorAlert (jobId errorMessage dedupeKey : Text) : Alert where
  scope := .operator
  category := .jobError
  severity := "critical".toList
  title := "Job failed: ".toList ++ jobId
  body := (if errorMessage = [] then "Scheduler job reported an error.".toList else errorMessage).take 500
  entityType := .job
  entityId := jobId
  dedupeKey := dedupeKey

def apiKeyUnhealthyAlert (provider error dedupeKey : Text) : Alert where
  scope := .operator
  category := .apiKeyUnhealthy
  severity := "high".toList
  title := "API key unhealthy: ".toList ++ provider
  body := (if error = [] then "Health ping failed".toList else error).take 500
  entityType := .apiKey
  entityId := provider
  dedupeKey := dedupeKey

/-- The alert of a failed delivery, with the error that `mask_webhook_delivery_error` leaves. -/
def webhookFailureAlert (destinationId : Text) (label : Option Text) (maskedError eventType : Text)
    (dedupeKey : Option Text) : Alert :=
  let safeError := if maskedError = [] then "Delivery failed".toList else maskedError
  let name := match label with
    | some label => if label = [] then destinationId else label
    | none => destinationId
  let titleLabel := if strip name = [] then destinationId else strip name
  let ownKey := "webhook:".toList ++ (destinationId ++ (':' :: normalizeForDedupe safeError))
  { scope := .operator
    category := .webhookFailure
    severity := "high".toList
    title := "Webhook delivery failed: ".toList ++ titleLabel
    body := (safeError ++ if eventType = [] then [] else " — Event: ".toList ++ eventType).take 500
    entityType := .webhook
    entityId := destinationId
    dedupeKey := match dedupeKey with
      | some key => if key = [] then ownKey else key
      | none => ownKey }

end

/-- The scope of a request. -/
inductive Reach
  | only (scope : Scope)
  | all
  deriving DecidableEq

def Reach.covers : Reach → Scope → Bool
  | .only scope, scope' => scope' == scope
  | .all, _ => true

def Reach.includesOperator : Reach → Bool
  | .only .analyst => false
  | _ => true

/-- An update of the two time stamps, with the number of rows that it meets. -/
def stamp (t : Inbox) (p : Notification → Bool) (readAt dismissedAt : Notification → Option Text) : Inbox × ℕ :=
  (t.update (fun n ↦ if p n then { n with readAt := readAt n, dismissedAt := dismissedAt n } else n)
    (fun n ↦ by split <;> rfl) (fun n ↦ by split <;> rfl), t.rows.countP p)

/-- `COALESCE(read_at, now)`. -/
def Notification.readBy (now : Text) (n : Notification) : Option Text := some (n.readAt.getD now)

def markOneRead (t : Inbox) (userId id : ℕ) (now : Text) : Inbox × ℕ :=
  stamp t (fun n ↦ n.id == id && n.userId == userId && n.dismissedAt.isNone) (Notification.readBy now)
    Notification.dismissedAt

def markScopeRead (t : Inbox) (userId : ℕ) (reach : Reach) (now : Text) : Inbox × ℕ :=
  stamp t (fun n ↦ n.userId == userId && reach.covers n.scope && n.dismissedAt.isNone && n.readAt.isNone)
    (fun _ ↦ some now) Notification.dismissedAt

def dismissNotification (t : Inbox) (userId id : ℕ) (now : Text) : Inbox × ℕ :=
  stamp t (fun n ↦ n.id == id && n.userId == userId && n.dismissedAt.isNone) (Notification.readBy now)
    fun _ ↦ some now

def dismissAllNotifications (t : Inbox) (userId : ℕ) (reach : Reach) (now : Text) : Inbox × ℕ :=
  stamp t (fun n ↦ n.userId == userId && reach.covers n.scope && n.dismissedAt.isNone) (Notification.readBy now)
    fun _ ↦ some now

def undoDismissNotification (t : Inbox) (userId id : ℕ) : Inbox × ℕ :=
  stamp t (fun n ↦ n.id == id && n.userId == userId) Notification.readAt fun _ ↦ none

def purgeClearedNotifications (t : Inbox) (cutoff : Text) : Inbox × ℕ :=
  let gone := fun n : Notification ↦ n.dismissedAt.any fun dismissedAt ↦ decide (dismissedAt < cutoff)
  (t.delete gone, t.rows.countP gone)

def Notification.isJobErrorOf (jobId : Text) (n : Notification) : Bool :=
  n.category == .jobError && n.entityType == .job && n.entityId == jobId

structure JobRun where
  startedAt : Text
  hadError : Bool
  errorMessage : Text

/-- The stored JSON of a job's last runs. -/
inductive LastRuns
  | corrupt
  | legacy (run : JobRun)
  | history (runs : List JobRun)

def latestSchedulerRun : LastRuns → Option JobRun
  | .corrupt => none
  | .legacy run => some run
  | .history runs => runs.head?

structure App where
  inbox : Inbox
  lastRuns : Dict Text LastRuns

def writeJobLastRun (app : App) (jobId : Text) (run : JobRun) : App :=
  let history := match app.lastRuns.get? jobId with
    | some (.history runs) => runs
    | some (.legacy old) => [old]
    | _ => []
  { app with lastRuns := app.lastRuns.set jobId (.history ((run :: history).take 5)) }

/-- The last run of the job was a success. -/
def App.recovered (app : App) (jobId : Text) : Bool :=
  ((app.lastRuns.get? jobId).bind latestSchedulerRun).any fun run ↦ !run.hadError

def recoveredJobIds (app : App) : List Text :=
  (app.lastRuns.items.filter fun entry ↦
    entry.1 != [] && (latestSchedulerRun entry.2).any fun run ↦ !run.hadError).map Prod.fst

section
variable [Interp]

def dismissJobErrorNotifications (t : Inbox) (jobId now : Text) : Inbox × ℕ :=
  if strip jobId = [] then (t, 0)
  else
    stamp t (fun n ↦ n.isJobErrorOf (strip jobId) && n.dismissedAt.isNone) (Notification.readBy now) fun _ ↦ some now

def dismissRecovered (now : Text) (acc : Inbox × ℕ) (jobId : Text) : Inbox × ℕ :=
  let dismissed := dismissJobErrorNotifications acc.1 jobId now
  (dismissed.1, acc.2 + dismissed.2)

def reconcileRecoveredJobErrors (app : App) (now : Text) : App × ℕ :=
  let dismissed := (recoveredJobIds app).foldl (dismissRecovered now) (app.inbox, 0)
  ({ app with inbox := dismissed.1 }, dismissed.2)

/-- What a read of the inbox does first. -/
def reconcileFor (app : App) (reach : Reach) (now : Text) : App :=
  if reach.includesOperator then (reconcileRecoveredJobErrors app now).1 else app

inductive InboxView
  | active
  | cleared
  deriving DecidableEq

def viewAliases : List (Text × InboxView) :=
  [("inbox".toList, .active), ("active".toList, .active), ("done".toList, .cleared), ("cleared".toList, .cleared)]

def normalizeNotificationView (view : Text) : Py InboxView :=
  match viewAliases.lookup (lower (strip (if view = [] then "inbox".toList else view))) with
  | some mapped => .ok mapped
  | none => .error .valueError

/-- The rows of a view, the last first; rows of one time are in the order of their ids. -/
def InboxView.rows (view : InboxView) (t : Inbox) (userId : ℕ) (reach : Reach) (cutoff : Text) : List Notification :=
  match view with
  | .active =>
    (t.rows.filter fun n ↦ n.userId == userId && reach.covers n.scope && n.dismissedAt.isNone).mergeSort
      fun a b ↦ decide (b.createdAt ≤ a.createdAt)
  | .cleared =>
    (t.rows.filter fun n ↦ n.userId == userId && reach.covers n.scope &&
      n.dismissedAt.any fun dismissedAt ↦ decide (cutoff ≤ dismissedAt)).mergeSort
        fun a b ↦ decide (b.dismissedAt.getD [] ≤ a.dismissedAt.getD [])

def listNotifications (app : App) (userId : ℕ) (reach : Reach) (limit : ℤ) (view now cutoff : Text) :
    App × Py (List Notification) :=
  let app := reconcileFor app reach now
  (app, (normalizeNotificationView view).map fun view ↦
    (view.rows app.inbox userId reach cutoff).take (max 1 (min limit 100)).toNat)

def countUnread (app : App) (userId : ℕ) (reach : Reach) (now : Text) : App × ℕ :=
  let app := reconcileFor app reach now
  (app, app.inbox.rows.countP fun n ↦
    n.userId == userId && reach.covers n.scope && n.dismissedAt.isNone && n.readAt.isNone)

/-- The requests of a signed-in user. -/
inductive Request
  | notifications (reach : Reach) (limit : ℤ) (view cutoff : Text)
  | unreadCount (reach : Reach)
  | readAll (reach : Reach)
  | read (id : ℕ)
  | restore (id : ℕ)
  | dismiss (id : ℕ)
  | dismissAll (reach : Reach)

/-- `_require_scope_access`. -/
def Reach.allowed (reach : Reach) (isAdmin : Bool) : Bool := !reach.includesOperator || isAdmin

def handle (app : App) (userId : ℕ) (isAdmin : Bool) (now : Text) : Request → App
  | .notifications reach limit view cutoff =>
    if reach.allowed isAdmin then
      let listed := listNotifications app userId reach limit view now cutoff
      match listed.2 with
      | .ok _ => (countUnread listed.1 userId reach now).1
      | .error _ => listed.1
    else app
  | .unreadCount reach => if reach.allowed isAdmin then (countUnread app userId reach now).1 else app
  | .readAll reach =>
    if reach.allowed isAdmin then
      (countUnread { app with inbox := (markScopeRead app.inbox userId reach now).1 } userId reach now).1
    else app
  | .read id => { app with inbox := (markOneRead app.inbox userId id now).1 }
  | .restore id => { app with inbox := (undoDismissNotification app.inbox userId id).1 }
  | .dismiss id => { app with inbox := (dismissNotification app.inbox userId id now).1 }
  | .dismissAll reach =>
    if reach.allowed isAdmin then { app with inbox := (dismissAllNotifications app.inbox userId reach now).1 } else app

/-- What happens to the inboxes: alerts with their recipients, ends of jobs, requests, and the sweeps. -/
inductive Event
  | emit (alert : Alert) (recipients : List User)
  | lastRun (jobId : Text) (run : JobRun)
  | jobSucceeded (jobId now : Text)
  | startup (now : Text)
  | request (userId : ℕ) (isAdmin : Bool) (now : Text) (request : Request)
  | purge (cutoff : Text)

def step (app : App) : Event → App
  | .emit alert recipients => { app with inbox := (emitToUsers app.inbox recipients alert).1 }
  | .lastRun jobId run => writeJobLastRun app jobId run
  | .jobSucceeded jobId now => { app with inbox := (dismissJobErrorNotifications app.inbox jobId now).1 }
  | .startup now => (reconcileRecoveredJobErrors app now).1
  | .request userId isAdmin now request => handle app userId isAdmin now request
  | .purge cutoff => { app with inbox := (purgeClearedNotifications app.inbox cutoff).1 }

end

end Briefr.Notifications
