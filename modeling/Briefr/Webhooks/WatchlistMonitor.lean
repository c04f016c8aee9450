import Briefr.Library.Dict
import Briefr.Library.StableSort
import Briefr.Webhooks.AtMostOnce
import Mathlib.Data.List.Lex

namespace Briefr.Webhooks.WatchlistMonitor

open Briefr.Python Briefr.Library Briefr.Library.Runs Briefr.Library.StableSort

inductive Trigger
  | kev
  | epss
  | poc
  | patch
  | withdrawn
  deriving DecidableEq

inductive DeliveryMode
  | immediate
  | digest
  deriving DecidableEq

/-- The sanitised policy; an override stands under its CVE id. -/
structure Policy where
  triggers : Trigger → Bool
  delivery : DeliveryMode
  overrides : Text → Trigger → Option Bool

def Policy.allTriggersEnabled (p : Policy) : Bool :=
  [Trigger.kev, .epss, .poc, .patch, .withdrawn].all p.triggers

def Policy.deliveryMode (p : Policy) : DeliveryMode :=
  if p.delivery = .digest ∨ p.allTriggersEnabled then .digest else .immediate

def epssScore : Text := "epss_score".toList

def hasPoc : Text := "has_poc".toList

def patchAvailable : Text := "patch_available".toList

def changeFieldToTrigger (field : Text) : Option Trigger :=
  if field = epssScore then some .epss
  else if field = hasPoc then some .poc
  else if field = patchAvailable then some .patch
  else if field = "is_kev".toList then some .kev
  else none

/-- A row of `cve_change_history`. -/
structure ChangeRow where
  cveId : Text
  fieldName : Text
  oldValue : Option Text
  newValue : Option Text
  detectedAt : ℕ

/-- `get_recent_cve_changes` on a table whose newest row comes first. -/
def getRecentCveChanges (table : List ChangeRow) (sinceHours : ℤ) (limit now : ℕ) : List ChangeRow :=
  (table.filter fun c ↦ decide (sinceHours ≤ 0 ∨ (now : ℤ) - sinceHours * 3600 ≤ c.detectedAt)).take limit

/-- `float` as the monitor needs it: it rejects a text with a comma, and `reaches old new` is
`not (new - old < WATCHLIST_EPSS_MIN_DELTA)`. -/
class EpssDelta (Score : outParam Type) extends Floats Score where
  zero : Score
  reaches : Score → Score → Bool
  float_comma : ∀ s x, float (.str s) = .value x → ',' ∉ s

section
variable {Score : Type} [Interp] [EpssDelta Score]

def Policy.triggerEnabled (p : Policy) (cveId : Text) (trigger : Trigger) : Bool :=
  (p.overrides (upper cveId) trigger).getD (p.triggers trigger)

omit [Interp] in
def parseScore (value : Option Text) : Option Score :=
  if value.getD [] = [] then some EpssDelta.zero
  else
    match (Floats.float (Value.str (value.getD [])) : FloatCall Score) with
    | .value score => some score
    | _ => none

def truthyValue (value : Option Text) : Bool :=
  value.any fun text ↦ decide (lower (strip text) ∈ ["1".toList, "true".toList, "yes".toList, "y".toList])

/-- The suffix of a change that is worth an alert. -/
def dedupeSuffix (change : ChangeRow) : Option Text :=
  if change.fieldName = epssScore then
    match parseScore change.oldValue, parseScore change.newValue with
    | some old, some new => if EpssDelta.reaches old new then some (change.newValue.getD "None".toList) else none
    | _, _ => none
  else if change.fieldName = hasPoc ∨ change.fieldName = patchAvailable then
    if truthyValue change.oldValue || !truthyValue change.newValue then none else some "1".toList
  else none

/-- The CVE of a change that qualifies, and the change as its field and new value. -/
def qualifying (pinned : List Text) (policy : Policy) (change : ChangeRow) : Option (Text × Text) :=
  if upper change.cveId ∈ pinned then
    match changeFieldToTrigger change.fieldName with
    | some trigger =>
      if policy.triggerEnabled (upper change.cveId) trigger then
        (dedupeSuffix change).map fun suffix ↦ (upper change.cveId, change.fieldName ++ ':' :: suffix)
      else none
    | none => none
  else none

end

structure Message where
  cveId : Text
  items : List Text
  key : Text

def digestKey (cveId : Text) (items : List Text) : Text :=
  cveId ++ ":digest:".toList ++ [','].intercalate (sortBy id items)

/-- How the dispatch to one destination goes when the key is free there. -/
inductive Outcome
  | notReached
  | failed
  | delivered
  deriving DecidableEq

/-- One `process_watchlist_monitor_alerts`: what it loads, the destinations that subscribe, and how each of them takes
a message. `pinned` is in upper case; the ids were validated as `CVE-\d{4}-\d+` when they were pinned. -/
structure MonitorRun where
  pinned : List Text
  pinned_valid : ∀ id ∈ pinned, ':' ∉ id
  policy : Policy
  sinceHours : ℤ
  targets : List Text
  outcome : Text → Text → Outcome

/-- A message for one destination. -/
structure Dispatch where
  destinationId : Text
  message : Message
  outcome : Outcome

/-- The tables. Beside them the history: the dispatches that a destination took, and those that it would have taken if
the key had been free. -/
structure Monitor where
  clock : ℕ
  changes : List ChangeRow
  claims : Text → Text → Option ℕ
  okLog : List (Text × Text × ℕ)
  due : List Dispatch
  delivered : List Dispatch

def Monitor.init (clock : ℕ) : Monitor := ⟨clock, [], fun _ _ ↦ none, [], [], []⟩

/-- `dispatch_event` for one destination; a failed delivery takes its claim back. -/
def dispatchOne (w : Monitor) (d : Dispatch) : Monitor :=
  match d.outcome with
  | .notReached | .failed => w
  | .delivered =>
    if w.claims d.destinationId d.message.key = none then
      { w with
        claims := fun id key ↦
          if id = d.destinationId ∧ key = d.message.key then some w.clock else w.claims id key
        okLog := (d.destinationId, d.message.key, w.clock) :: w.okLog
        due := d :: w.due
        delivered := d :: w.delivered }
    else { w with due := d :: w.due }

/-- `purge_old_webhook_delivery_log`, then `purge_stranded_webhook_dedupe`. -/
def runRetentionCleanup (w : Monitor) : Monitor :=
  let okLog := w.okLog.filter fun row ↦ !decide (row.2.2 + AtMostOnce.retention < w.clock)
  { w with
    okLog := okLog
    claims := fun id key ↦ (w.claims id key).filter fun recorded ↦
      !decide (recorded + AtMostOnce.grace < w.clock ∧ w.clock ≤ recorded + AtMostOnce.retention ∧
        ∀ row ∈ okLog, ¬(row.1 = id ∧ row.2.1 = key)) }

section
variable {Score : Type} [Interp] [EpssDelta Score]

def messages (r : MonitorRun) (changes : List ChangeRow) : List Message :=
  let found := changes.filterMap (qualifying r.pinned r.policy)
  match r.policy.deliveryMode with
  | .digest => (Dict.groups found).items.map fun e ↦ ⟨e.1, e.2, digestKey e.1 e.2⟩
  | .immediate => found.map fun e ↦ ⟨e.1, [e.2], e.1 ++ ':' :: e.2⟩

def dispatches (w : Monitor) (r : MonitorRun) : List Dispatch :=
  (messages r (getRecentCveChanges w.changes r.sinceHours 500 w.clock)).flatMap fun m ↦
    r.targets.map fun id ↦ ⟨id, m, r.outcome id m.key⟩

inductive Event
  | change (cveId fieldName : Text) (oldValue newValue : Option Text)
  | monitor (r : MonitorRun) (digest : r.policy.deliveryMode = .digest)
  | cleanup
  | tick (seconds : ℕ)

def step (w : Monitor) : Event → Monitor
  | .change cveId fieldName oldValue newValue =>
    { w with changes := ⟨cveId, fieldName, oldValue, newValue, w.clock⟩ :: w.changes }
  | .monitor r _ => run dispatchOne w (dispatches w r)
  | .cleanup => runRetentionCleanup w
  | .tick seconds => { w with clock := w.clock + seconds }

end

end Briefr.Webhooks.WatchlistMonitor
