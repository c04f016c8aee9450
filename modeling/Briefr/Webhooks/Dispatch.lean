import Briefr.Library.Dict
import Briefr.Library.StableSort
import Briefr.Python.Value
import Mathlib.Data.List.Lex

namespace Briefr.Webhooks

open Briefr.Python Briefr.Library.StableSort

def eventKevAlert : Text := "kev_alert"

def eventKevBacklog : Text := "kev_backlog"

def eventIocWatchlistHit : Text := "ioc_watchlist_hit"

def eventBackupFailure : Text := "backup_failure"

def eventHealth : Text := "health"

def eventWatchlistAlert : Text := "watchlist_alert"

def eventDailyBrief : Text := "daily_brief"

def kevStack : Text := "kev_stack"

def backupDeadman : Text := "backup_deadman"

def allEventTypes : List Text :=
  [eventKevAlert, eventKevBacklog, eventIocWatchlistHit, eventBackupFailure, eventHealth, eventWatchlistAlert,
    eventDailyBrief]

def normalizeEventType (eventType : Text) : Text :=
  if eventType = kevStack then eventKevAlert
  else if eventType = backupDeadman then eventBackupFailure
  else eventType

/-- `_webhook_alert_types`: the names under which a row of this type can stand. -/
def webhookAlertTypes (alertType : Text) : List Text :=
  if alertType = eventKevAlert ∨ alertType = kevStack then [eventKevAlert, kevStack]
  else if alertType = eventBackupFailure ∨ alertType = backupDeadman then [eventBackupFailure, backupDeadman]
  else [alertType]

theorem mem_webhookAlertTypes (alertType : Text) : alertType ∈ webhookAlertTypes alertType := by
  unfold webhookAlertTypes
  split
  · rename_i h
    simpa using h
  · split
    · rename_i h
      simpa using h
    · exact List.mem_singleton_self alertType

/-- How a destination is reached is left to the delivery. -/
structure WebhookDestination where
  id : Text
  label : Text
  enabled : Bool
  eventTypes : List Text

def WebhookDestination.subscribesTo (dest : WebhookDestination) (eventType : Text) : Bool :=
  dest.enabled && decide (normalizeEventType eventType ∈ dest.eventTypes)

structure Active where
  list : List WebhookDestination
  nodup : (list.map WebhookDestination.id).Nodup

/-- A dictionary in which each destination stands under its own id. -/
def Keyed (d : Library.Dict Text WebhookDestination) : Prop := ∀ e ∈ d.items, e.2.id = e.1

theorem Keyed.set {d : Library.Dict Text WebhookDestination} (h : Keyed d) {dest : WebhookDestination} {id : Text}
    (hid : dest.id = id) : Keyed (d.set id dest) := by
  intro e he
  have hg := Library.Dict.mem_items_iff.mp he
  rw [Library.Dict.get?_set] at hg
  split at hg
  · rename_i hk
    rw [hk, ← Option.some.inj hg, hid]
  · exact h e (Library.Dict.mem_items_iff.mpr hg)

theorem Keyed.foldl {ρ : Type} {d : Library.Dict Text WebhookDestination} (h : Keyed d) (rows : List ρ)
    (key : ρ → Text) (dest : ρ → WebhookDestination) (hid : ∀ r, (dest r).id = key r) :
    Keyed (rows.foldl (fun d r ↦ d.set (key r) (dest r)) d) := by
  induction rows generalizing d with
  | nil => exact h
  | cons r rows ih => exact ih (h.set (hid r))

theorem Keyed.nodup {d : Library.Dict Text WebhookDestination} (h : Keyed d) :
    ((d.items.map Prod.snd).map WebhookDestination.id).Nodup := by
  have he : (d.items.map Prod.snd).map WebhookDestination.id = d.items.map Prod.fst := by
    rw [List.map_map]
    exact List.map_congr_left h
  rw [he]
  exact d.nodup

/-- A row of `webhook_destinations` against the destination of the same id that the environment sets up. -/
def mergeRow (envDests : Library.Dict Text WebhookDestination) (row : WebhookDestination) : WebhookDestination :=
  match envDests.get? row.id with
  | some envDest => { row with label := if row.label = [] then envDest.label else row.label }
  | none => row

theorem id_mergeRow (envDests : Library.Dict Text WebhookDestination) (row : WebhookDestination) :
    (mergeRow envDests row).id = row.id := by
  unfold mergeRow
  split <;> rfl

def byId (env : List WebhookDestination) : Library.Dict Text WebhookDestination :=
  env.foldl (fun d dest ↦ d.set dest.id dest) .empty

def merged (env rows : List WebhookDestination) : Library.Dict Text WebhookDestination :=
  rows.foldl (fun d row ↦ d.set row.id (mergeRow (byId env) row)) (byId env)

theorem keyed_byId (env : List WebhookDestination) : Keyed (byId env) :=
  Keyed.foldl (by simp [Keyed, Library.Dict.empty]) env _ _ fun _ ↦ rfl

theorem keyed_merged (env rows : List WebhookDestination) : Keyed (merged env rows) :=
  (keyed_byId env).foldl rows _ _ (id_mergeRow (byId env))

def loadList (env rows : List WebhookDestination) (tombstoned : Text → Bool) : List WebhookDestination :=
  if rows = [] then (byId env).items.map Prod.snd
  else sortBy WebhookDestination.id (((merged env rows).items.map Prod.snd).filter fun dest ↦ !tombstoned dest.id)

theorem nodup_loadList (env rows : List WebhookDestination) (tombstoned : Text → Bool) :
    ((loadList env rows tombstoned).map WebhookDestination.id).Nodup := by
  unfold loadList
  split
  · exact (keyed_byId env).nodup
  · rw [((perm_sortBy _ _).map _).nodup_iff]
    exact (keyed_merged env rows).nodup.sublist (List.filter_sublist.map _)

/-- `load_destinations`: the rows override the environment, and the ids of both are distinct. -/
def loadDestinations (env rows : List WebhookDestination) (tombstoned : Text → Bool) : Active :=
  ⟨loadList env rows tombstoned, nodup_loadList env rows tombstoned⟩

end Briefr.Webhooks

namespace Briefr.Webhooks

open Briefr.Python

inductive Backend
  | sqlite
  | postgres
  deriving DecidableEq

/-- How `db = await get_db()`, the statement, `await db.commit()` and `await db.close()` of one
connection end: `true` where the call returns. -/
structure Session where
  opens : Bool
  runs : Bool
  commits : Bool
  closes : Bool

def Session.stores (s : Session) : Bool := s.opens && s.runs && s.commits

/-- `deliver_to_destination` turns every exception into an error text; only its cancellation escapes. -/
inductive Delivery
  | ok
  | failed (error : Text)
  | cancelled
  deriving DecidableEq

inductive Emission
  | emitted
  | raised
  | cancelled
  deriving DecidableEq

/-- How the steps for one destination end. `held` says that another dispatch's claim is in the table
when this one is inserted. -/
structure Steps where
  claim : Session
  held : Bool
  delivery : Delivery
  record : Session
  emission : Emission
  clear : Session

/-- A row of `webhook_destination_dedupe`. -/
structure DedupeClaim where
  destinationId : Text
  eventType : Text
  dedupeKey : Text
  deriving DecidableEq

/-- `claims` are the committed rows that this call wrote and did not clear, `delivered` the destinations
that took the message. -/
structure Progress where
  claims : List DedupeClaim
  delivered : List Text
  sent : List Text
  errors : Library.Dict Text Text
  skippedDedupe : List Text

def Progress.init : Progress := ⟨[], [], [], .empty, []⟩

inductive Flow
  | goesOn
  | continues
  | raises
  deriving DecidableEq

structure Request where
  backend : Backend
  eventType : Text
  dedupeKey : Text
  skipDedupe : Bool

def Request.normalized (r : Request) : Text := normalizeEventType r.eventType

/-- `dedupe_key and not skip_dedupe`. -/
def Request.dedupes (r : Request) : Bool := decide (r.dedupeKey ≠ []) && !r.skipDedupe

def Request.claimOf (r : Request) (id : Text) : DedupeClaim := ⟨id, r.normalized, r.dedupeKey⟩

/-- The `INSERT`, without and with `ON CONFLICT DO NOTHING`. SQLite's is wrapped in `except Exception`. -/
def claimWebhookDestinationSent (backend : Backend) (held runs : Bool) : Except Unit Bool :=
  match backend with
  | .postgres => if runs then .ok !held else .error ()
  | .sqlite => .ok (runs && !held)

def clearWebhookDestinationDedupeForDest (r : Request) (id : Text) (claims : List DedupeClaim) : List DedupeClaim :=
  claims.filter fun c ↦
    !(decide (c.eventType ∈ webhookAlertTypes r.normalized) && decide (c.destinationId = id) &&
      decide (c.dedupeKey = r.dedupeKey))

def Session.leave (s : Session) (flow : Flow) : Flow := if s.closes then flow else .raises

def claimPart (r : Request) (id : Text) (s : Steps) (p : Progress) : Progress × Flow :=
  if r.dedupes then
    if s.claim.opens then
      match claimWebhookDestinationSent r.backend s.held s.claim.runs with
      | .error _ => (p, .raises)
      | .ok false => ({ p with skippedDedupe := p.skippedDedupe ++ [id] }, s.claim.leave .continues)
      | .ok true =>
        if s.claim.commits then ({ p with claims := r.claimOf id :: p.claims }, s.claim.leave .goesOn)
        else (p, .raises)
    else (p, .raises)
  else (p, .goesOn)

/-- The delivery log row and the operator's notification, which is attempted for an error text only. -/
def recordPart (s : Steps) (error : Option Text) : Flow :=
  if s.record.stores then
    if (error.getD []) ≠ [] ∧ s.emission = .cancelled then .raises else s.record.leave .goesOn
  else .raises

def clearPart (r : Request) (id : Text) (s : Steps) (p : Progress) : Progress × Flow :=
  if r.dedupes then
    if s.clear.stores then
      ({ p with claims := clearWebhookDestinationDedupeForDest r id p.claims }, s.clear.leave .goesOn)
    else (p, .raises)
  else (p, .goesOn)

def noteError (id error : Text) (p : Progress) : Progress :=
  if error = [] then p else { p with errors := p.errors.set id error }

def deliverPart (r : Request) (id : Text) (s : Steps) (p : Progress) : Progress × Flow :=
  match s.delivery with
  | .cancelled => (p, .raises)
  | .ok =>
    let p := { p with delivered := id :: p.delivered }
    match recordPart s none with
    | .goesOn => ({ p with sent := p.sent ++ [id] }, .goesOn)
    | flow => (p, flow)
  | .failed error =>
    match recordPart s (some error) with
    | .goesOn =>
      match clearPart r id s p with
      | (p, .goesOn) => (noteError id error p, .goesOn)
      | (p, flow) => (p, flow)
    | flow => (p, flow)

/-- The body of the delivery loop. -/
def dispatchOne (r : Request) (id : Text) (s : Steps) (p : Progress) : Progress × Flow :=
  match claimPart r id s p with
  | (p, .goesOn) => deliverPart r id s p
  | (p, flow) => (p, flow)

/-- The loop, and whether it ended by an exception. -/
def dispatchLoop (r : Request) (steps : Text → Steps) : List Text → Progress → Progress × Bool
  | [], p => (p, false)
  | id :: rest, p =>
    match dispatchOne r id (steps id) p with
    | (p, .raises) => (p, true)
    | (p, _) => dispatchLoop r steps rest p

inductive Status
  | ok
  | skipped
  | partlySent
  | failed
  deriving DecidableEq

inductive Reason
  | unknownEventType
  | noWebhookDestinations
  | noSubscribers
  | deduped
  deriving DecidableEq

structure Report where
  status : Status
  reason : Option Reason
  sent : List Text
  errors : Library.Dict Text Text
  skippedDedupe : Option (List Text)

def overallStatus (p : Progress) : Status :=
  if p.sent ≠ [] ∧ p.errors.items = [] then .ok
  else if p.sent = [] ∧ p.skippedDedupe ≠ [] ∧ p.errors.items = [] then .skipped
  else if p.sent ≠ [] then .partlySent
  else .failed

def report (p : Progress) : Report :=
  let deduped := overallStatus p = .skipped ∧ p.skippedDedupe ≠ []
  ⟨overallStatus p, if deduped then some .deduped else none, p.sent, p.errors,
    if deduped then some p.skippedDedupe else none⟩

def nothingSent (status : Status) (reason : Reason) : Report := ⟨status, some reason, [], .empty, none⟩

/-- The subscribers that the loop goes through. -/
def targets (r : Request) (active : Active) : List Text :=
  if r.normalized ∈ allEventTypes then
    (active.list.filter fun dest ↦ dest.subscribesTo r.normalized).map WebhookDestination.id
  else []

/-- The call's end: what it wrote and delivered, and its report where it returns one. -/
def dispatchEvent (r : Request) (active : Active) (steps : Text → Steps) : Progress × Option Report :=
  if r.normalized ∉ allEventTypes then (.init, some (nothingSent .failed .unknownEventType))
  else if active.list.any WebhookDestination.enabled = false then
    (.init, some (nothingSent .skipped .noWebhookDestinations))
  else if targets r active = [] then (.init, some (nothingSent .skipped .noSubscribers))
  else
    match dispatchLoop r steps (targets r active) .init with
    | (p, true) => (p, none)
    | (p, false) => (p, some (report p))

/-- What the call promises to later dispatches: it keeps a claim only where the message was taken, and
treats a destination as already sent only where another dispatch holds the claim. -/
structure Retryable (steps : Text → Steps) (p : Progress) : Prop where
  claims : ∀ c ∈ p.claims, c.destinationId ∈ p.delivered
  skipped : ∀ id ∈ p.skippedDedupe, (steps id).held = true

/-- A failed delivery is recorded and its claim cleared before anything raises. -/
def Steps.RollsBack (s : Steps) (error : Text) : Prop :=
  s.record.stores = true ∧ s.record.closes = true ∧ (error ≠ [] → s.emission ≠ .cancelled) ∧ s.clear.stores = true

def Steps.Releases (s : Steps) : Prop :=
  s.claim.closes = true ∧
    match s.delivery with
    | .ok => True
    | .failed error => s.RollsBack error
    | .cancelled => False

structure Steps.Good (r : Request) (s : Steps) : Prop where
  refused : r.backend = .sqlite → s.claim.opens = true → s.claim.runs = false → s.held = true
  released : s.claim.stores = true → s.held = false → s.Releases

/-- No exception leaves the iteration. -/
def Steps.Quiet (r : Request) (s : Steps) : Prop :=
  s.claim.opens = true ∧ s.claim.closes = true ∧ (s.claim.runs = true ∨ r.backend = .sqlite) ∧
    (s.claim.runs = true → s.held = false → s.claim.commits = true ∧
      match s.delivery with
      | .ok => s.record.stores = true ∧ s.record.closes = true
      | .failed error => s.RollsBack error ∧ s.clear.closes = true
      | .cancelled => False)

/-- Every iteration that the loop reaches is good. -/
def Clean (r : Request) (steps : Text → Steps) : List Text → Prop
  | [] => True
  | id :: rest => (steps id).Good r ∧ ((steps id).Quiet r → Clean r steps rest)

variable {r : Request} {id : Text} {s : Steps} {p : Progress}

theorem leave_eq_goesOn {s : Session} : s.leave .goesOn = .goesOn ↔ s.closes = true := by
  unfold Session.leave
  split <;> simp [*]

theorem recordPart_goesOn {error : Option Text} : recordPart s error = .goesOn ↔
    s.record.stores = true ∧ s.record.closes = true ∧ (error.getD [] ≠ [] → s.emission ≠ .cancelled) := by
  unfold recordPart
  split
  · rename_i hs
    split
    · rename_i he
      simp [hs, he.1, he.2]
    · rename_i he
      rw [leave_eq_goesOn]
      exact ⟨fun h ↦ ⟨hs, h, fun h' h'' ↦ he ⟨h', h''⟩⟩, fun h ↦ h.2.1⟩
  · rename_i hs
    simp [hs]

theorem recordPart_raises {error : Option Text} (h : recordPart s error ≠ .goesOn) : recordPart s error = .raises := by
  unfold recordPart Session.leave at h ⊢
  split_ifs at h ⊢ <;> simp_all

theorem noteError_eq (id error : Text) (p : Progress) :
    noteError id error p = { p with errors := if error = [] then p.errors else p.errors.set id error } := by
  unfold noteError
  split <;> rfl

theorem mem_clear {claims : List DedupeClaim} {c : DedupeClaim}
    (h : c ∈ clearWebhookDestinationDedupeForDest r id claims) : c ∈ claims ∧ c ≠ r.claimOf id := by
  obtain ⟨hc, hk⟩ := List.mem_filter.mp h
  refine ⟨hc, ?_⟩
  intro he
  subst he
  simp [Request.claimOf, mem_webhookAlertTypes] at hk

theorem claimPart_cases (hd : r.dedupes = true) (id : Text) (s : Steps) (p : Progress) :
    (claimPart r id s p = (p, .raises) ∧ s.Good r ∧ ¬s.Quiet r) ∨
    (claimPart r id s p = ({ p with skippedDedupe := p.skippedDedupe ++ [id] }, s.claim.leave .continues) ∧
      s.claim.opens = true ∧ (s.claim.runs = true → s.held = true) ∧ (s.claim.runs = true ∨ r.backend = .sqlite)) ∨
    (claimPart r id s p = ({ p with claims := r.claimOf id :: p.claims }, s.claim.leave .goesOn) ∧
      s.claim.stores = true ∧ s.held = false) := by
  cases ho : s.claim.opens with
  | false =>
    refine .inl ⟨by simp [claimPart, hd, ho], ⟨by simp [ho], by simp [Session.stores, ho]⟩, ?_⟩
    intro hq
    simp [hq.1] at ho
  | true =>
    cases hr : s.claim.runs with
    | false =>
      cases hb : r.backend with
      | sqlite => exact .inr (.inl (by simp [claimPart, hd, ho, hr, hb, claimWebhookDestinationSent]))
      | postgres =>
        refine .inl ⟨?_, ⟨by simp [hb], by simp [Session.stores, hr]⟩, ?_⟩
        · simp [claimPart, hd, ho, hr, hb, claimWebhookDestinationSent]
        · intro hq
          simpa [hr, hb] using hq.2.2.1
    | true =>
      have hc : claimWebhookDestinationSent r.backend s.held true = .ok !s.held := by
        cases r.backend <;> simp [claimWebhookDestinationSent]
      cases hh : s.held with
      | true =>
        rw [hh] at hc
        exact .inr (.inl (by simp [claimPart, hd, ho, hr, hh, hc]))
      | false =>
        rw [hh] at hc
        cases hm : s.claim.commits with
        | true => exact .inr (.inr (by simp [claimPart, hd, ho, hr, hh, hc, hm, Session.stores]))
        | false =>
          refine .inl ⟨by simp [claimPart, hd, ho, hr, hh, hc, hm], ⟨by simp [hr], by simp [Session.stores, hm]⟩, ?_⟩
          intro hq
          simp [(hq.2.2.2 hr hh).1] at hm

/-- The three ways in which the delivery and what follows it end. -/
theorem deliverPart_cases (hd : r.dedupes = true) (id : Text) (s : Steps) (p : Progress) :
    (s.delivery = .ok ∧ ∃ sent, deliverPart r id s p =
      ({ p with delivered := id :: p.delivered, sent := sent }, recordPart s none)) ∨
    (∃ error, s.delivery = .failed error ∧ s.RollsBack error ∧ ∃ errors, deliverPart r id s p =
      ({ p with claims := clearWebhookDestinationDedupeForDest r id p.claims, errors := errors },
        s.clear.leave .goesOn)) ∨
    ((s.delivery = .cancelled ∨ ∃ error, s.delivery = .failed error ∧ ¬s.RollsBack error) ∧
      deliverPart r id s p = (p, .raises)) := by
  cases hy : s.delivery with
  | cancelled => exact .inr (.inr ⟨.inl rfl, by simp [deliverPart, hy]⟩)
  | ok =>
    refine .inl ⟨rfl, ?_⟩
    by_cases hr : recordPart s none = .goesOn
    · exact ⟨p.sent ++ [id], by simp [deliverPart, hy, hr]⟩
    · exact ⟨p.sent, by simp [deliverPart, hy, recordPart_raises hr]⟩
  | failed error =>
    by_cases hr : recordPart s (some error) = .goesOn
    · have hg := recordPart_goesOn.mp hr
      rw [Option.getD_some] at hg
      cases hs : s.clear.stores with
      | true =>
        refine .inr (.inl ⟨error, rfl, ⟨hg.1, hg.2.1, hg.2.2, hs⟩, ?_⟩)
        cases hc : s.clear.closes with
        | true =>
          exact ⟨_, by simp only [deliverPart, hy, hr, clearPart, hd, hs, Session.leave, hc, if_true, noteError_eq]; rfl⟩
        | false => exact ⟨p.errors, by simp [deliverPart, hy, hr, clearPart, hd, hs, Session.leave, hc]⟩
      | false =>
        refine .inr (.inr ⟨.inr ⟨error, rfl, fun h ↦ ?_⟩, by simp [deliverPart, hy, hr, clearPart, hd, hs]⟩)
        simp [h.2.2.2] at hs
    · refine .inr (.inr ⟨.inr ⟨error, rfl, fun h ↦ hr ?_⟩, by simp [deliverPart, hy, recordPart_raises hr]⟩)
      exact recordPart_goesOn.mpr ⟨h.1, h.2.1, h.2.2.1⟩

/-- What one iteration can do. -/
inductive Iteration (r : Request) (id : Text) (s : Steps) (p : Progress) : Progress × Flow → Prop
  | stopped (good : s.Good r) (loud : ¬s.Quiet r) : Iteration r id s p (p, .raises)
  | skipped (opens : s.claim.opens = true) (refused : s.claim.runs = true → s.held = true)
      (sqlite : s.claim.runs = true ∨ r.backend = .sqlite) :
      Iteration r id s p ({ p with skippedDedupe := p.skippedDedupe ++ [id] }, s.claim.leave .continues)
  | stranded (stores : s.claim.stores = true) (free : s.held = false) (kept : ¬s.Releases) :
      Iteration r id s p ({ p with claims := r.claimOf id :: p.claims }, .raises)
  | delivered (stores : s.claim.stores = true) (free : s.held = false) (closes : s.claim.closes = true)
      (ok : s.delivery = .ok) (sent : List Text) : Iteration r id s p
        ({ p with claims := r.claimOf id :: p.claims, delivered := id :: p.delivered, sent := sent }, recordPart s none)
  | cleared (stores : s.claim.stores = true) (free : s.held = false) (closes : s.claim.closes = true)
      (error : Text) (failed : s.delivery = .failed error) (rolls : s.RollsBack error)
      (errors : Library.Dict Text Text) : Iteration r id s p
        ({ p with
            claims := clearWebhookDestinationDedupeForDest r id (r.claimOf id :: p.claims)
            errors := errors }, s.clear.leave .goesOn)

theorem dispatchOne_iteration (hd : r.dedupes = true) (id : Text) (s : Steps) (p : Progress) :
    Iteration r id s p (dispatchOne r id s p) := by
  unfold dispatchOne
  rcases claimPart_cases hd id s p with ⟨hc, hg, hq⟩ | ⟨hc, ho, hh, hb⟩ | ⟨hc, hs, hh⟩
  · rw [hc]
    exact .stopped hg hq
  · rw [hc]
    have hf : s.claim.leave .continues ≠ .goesOn := by
      unfold Session.leave
      split <;> simp
    split
    · rename_i q he
      exact absurd (Prod.mk.inj he).2 hf
    · rename_i q flow hne he
      rw [← he]
      exact .skipped ho hh hb
  · rw [hc]
    cases hl : s.claim.closes with
    | false =>
      simp only [Session.leave, hl]
      exact .stranded hs hh fun h ↦ by simp [h.1] at hl
    | true =>
      simp only [Session.leave, hl, if_true]
      rcases deliverPart_cases hd id s { p with claims := r.claimOf id :: p.claims } with
        ⟨hy, sent, he⟩ | ⟨error, hy, hr, errors, he⟩ | ⟨hy, he⟩
      · rw [he]
        exact .delivered hs hh hl hy sent
      · rw [he]
        exact .cleared hs hh hl error hy hr errors
      · rw [he]
        refine .stranded hs hh ?_
        intro ⟨_, hrel⟩
        rcases hy with hy | ⟨error, hy, hr⟩
        · simp [hy] at hrel
        · rw [hy] at hrel
          exact hr hrel

theorem quiet_of_stores (hs : s.claim.stores = true) (hh : s.held = false) : s.Quiet r ↔
    s.claim.closes = true ∧
      match s.delivery with
      | .ok => s.record.stores = true ∧ s.record.closes = true
      | .failed error => s.RollsBack error ∧ s.clear.closes = true
      | .cancelled => False := by
  obtain ⟨⟨ho, hr⟩, hc⟩ : (s.claim.opens = true ∧ s.claim.runs = true) ∧ s.claim.commits = true := by
    simpa [Session.stores] using hs
  simp only [Steps.Quiet, ho, hr, hc, hh, true_and, true_or, forall_const]

theorem Iteration.raises_iff {q : Progress × Flow} (h : Iteration r id s p q) : q.2 = .raises ↔ ¬s.Quiet r := by
  cases h with
  | stopped good loud => simp [loud]
  | skipped opens refused sqlite =>
    have hq : s.Quiet r ↔ s.claim.closes = true := by
      refine ⟨fun h ↦ h.2.1, fun h ↦ ⟨opens, h, sqlite, ?_⟩⟩
      intro hr hh
      simp [refused hr] at hh
    rw [hq]
    cases hc : s.claim.closes <;> simp [Session.leave, hc]
  | stranded stores free kept =>
    refine iff_of_true rfl ?_
    rw [quiet_of_stores stores free]
    intro ⟨hc, h⟩
    refine kept ⟨hc, ?_⟩
    cases hy : s.delivery with
    | ok => trivial
    | failed error =>
      rw [hy] at h
      exact h.1
    | cancelled => simp [hy] at h
  | delivered stores free closes ok sent =>
    rw [quiet_of_stores stores free, ok]
    have hg : recordPart s none = .goesOn ↔ _ := recordPart_goesOn
    simp only [Option.getD_none, ne_eq, not_true_eq_false, false_implies, and_true] at hg
    simp only [closes, true_and, ← hg]
    exact ⟨fun h ↦ by simp [h], recordPart_raises⟩
  | cleared stores free closes error failed rolls errors =>
    rw [quiet_of_stores stores free, failed]
    cases hc : s.clear.closes <;> simp [closes, rolls, Session.leave, hc]

theorem Iteration.frame {q : Progress × Flow} (h : Iteration r id s p q) :
    (∀ i ∈ p.skippedDedupe, i ∈ q.1.skippedDedupe) ∧ (∀ i ∈ p.delivered, i ∈ q.1.delivered) ∧
      ∀ i ∈ q.1.delivered, i = id ∨ i ∈ p.delivered := by
  cases h with
  | skipped => exact ⟨fun i hi ↦ List.mem_append_left _ hi, fun _ hi ↦ hi, fun _ hi ↦ .inr hi⟩
  | delivered => exact ⟨fun _ hi ↦ hi, fun i hi ↦ List.mem_cons_of_mem id hi, fun i hi ↦ List.mem_cons.mp hi⟩
  | stopped | stranded | cleared => exact ⟨fun _ hi ↦ hi, fun _ hi ↦ hi, fun _ hi ↦ .inr hi⟩

theorem Iteration.retryable {steps : Text → Steps} {q : Progress × Flow} (h : Iteration r id (steps id) p q)
    (hg : (steps id).Good r) (hp : Retryable steps p) : Retryable steps q.1 := by
  cases h with
  | stopped => exact hp
  | skipped opens refused sqlite =>
    refine ⟨hp.claims, ?_⟩
    intro i hi
    rcases List.mem_append.mp hi with hi | hi
    · exact hp.skipped i hi
    · obtain rfl := List.mem_singleton.mp hi
      cases hr : (steps i).claim.runs with
      | true => exact refused hr
      | false => exact hg.refused (sqlite.resolve_left (by simp [hr])) opens hr
  | stranded stores free kept => exact absurd (hg.released stores free) kept
  | delivered =>
    refine ⟨?_, hp.skipped⟩
    intro c hc
    rcases List.mem_cons.mp hc with rfl | hc
    · exact List.mem_cons_self
    · exact List.mem_cons_of_mem id (hp.claims c hc)
  | cleared =>
    refine ⟨?_, hp.skipped⟩
    intro c hc
    obtain ⟨hc, hne⟩ := mem_clear hc
    exact hp.claims c ((List.mem_cons.mp hc).resolve_left hne)

/-- An iteration that is not good skips without a claim of another dispatch, or raises and leaves its own. -/
theorem Iteration.bad {q : Progress × Flow} (h : Iteration r id s p q) (hg : ¬s.Good r) :
    (id ∈ q.1.skippedDedupe ∧ s.held = false) ∨
      (q.2 = .raises ∧ r.claimOf id ∈ q.1.claims ∧ q.1.delivered = p.delivered) := by
  cases h with
  | stopped good => exact absurd good hg
  | skipped opens refused sqlite =>
    refine .inl ⟨List.mem_append_right _ (List.mem_singleton_self id), ?_⟩
    by_contra hh
    rw [Bool.not_eq_false] at hh
    exact hg ⟨fun _ _ _ ↦ hh, fun _ hf ↦ by simp [hh] at hf⟩
  | stranded => exact .inr ⟨rfl, List.mem_cons_self, rfl⟩
  | delivered stores free closes ok sent =>
    refine absurd ⟨fun _ _ hr ↦ ?_, fun _ _ ↦ ⟨closes, by simp [ok]⟩⟩ hg
    simp [Session.stores, hr] at stores
  | cleared stores free closes error failed rolls errors =>
    refine absurd ⟨fun _ _ hr ↦ ?_, fun _ _ ↦ ⟨closes, by simpa [failed] using rolls⟩⟩ hg
    simp [Session.stores, hr] at stores

theorem dispatchLoop_cons (r : Request) (steps : Text → Steps) (id : Text) (rest : List Text) (p : Progress) :
    dispatchLoop r steps (id :: rest) p =
      if (dispatchOne r id (steps id) p).2 = .raises then ((dispatchOne r id (steps id) p).1, true)
      else dispatchLoop r steps rest (dispatchOne r id (steps id) p).1 := by
  cases hq : dispatchOne r id (steps id) p with
  | mk q flow => cases flow <;> simp [dispatchLoop, hq]

theorem dispatchLoop_skipped (hd : r.dedupes = true) (steps : Text → Steps) (ids : List Text) {p : Progress} {i : Text}
    (h : i ∈ p.skippedDedupe) : i ∈ (dispatchLoop r steps ids p).1.skippedDedupe := by
  induction ids generalizing p with
  | nil => exact h
  | cons id rest ih =>
    have hi := (dispatchOne_iteration hd id (steps id) p).frame.1 i h
    rw [dispatchLoop_cons]
    split
    · exact hi
    · exact ih hi

theorem dispatchLoop_retryable_iff (hd : r.dedupes = true) {steps : Text → Steps} {ids : List Text} (hn : ids.Nodup)
    (hp : Retryable steps p) (hi : ∀ id ∈ ids, id ∉ p.delivered) :
    Retryable steps (dispatchLoop r steps ids p).1 ↔ Clean r steps ids := by
  induction ids generalizing p with
  | nil => exact iff_of_true hp trivial
  | cons id rest ih =>
    obtain ⟨hid, hn⟩ := List.nodup_cons.mp hn
    have hone := dispatchOne_iteration hd id (steps id) p
    have hq := hone.raises_iff
    rw [Clean, dispatchLoop_cons]
    by_cases hg : (steps id).Good r
    · have hnew := hone.retryable hg hp
      split
      · rename_i hr
        exact iff_of_true hnew ⟨hg, fun h ↦ absurd h (hq.mp hr)⟩
      · rename_i hr
        have hquiet : (steps id).Quiet r := by
          by_contra h
          exact hr (hq.mpr h)
        rw [ih hn hnew]
        · exact ⟨fun h ↦ ⟨hg, fun _ ↦ h⟩, fun h ↦ h.2 hquiet⟩
        · intro i hi' hm
          rcases hone.frame.2.2 i hm with rfl | h
          · exact hid hi'
          · exact hi i (List.mem_cons_of_mem id hi') h
    · refine iff_of_false ?_ fun h ↦ hg h.1
      intro h
      rcases hone.bad hg with ⟨hs, hh⟩ | ⟨hr, hc, hl⟩
      · refine Bool.false_ne_true (hh.symm.trans (h.skipped id ?_))
        split
        · exact hs
        · exact dispatchLoop_skipped hd steps rest hs
      · rw [if_pos hr] at h
        have hin := h.claims _ hc
        rw [hl] at hin
        exact hi id List.mem_cons_self hin

theorem nodup_targets (r : Request) (active : Active) : (targets r active).Nodup := by
  unfold targets
  split
  · exact active.nodup.sublist (List.filter_sublist.map _)
  · exact List.nodup_nil

theorem retryable_init (steps : Text → Steps) : Retryable steps .init := ⟨by simp [Progress.init], by simp [Progress.init]⟩

/-- The early returns have nothing to go through. -/
theorem dispatchEvent_fst (r : Request) (active : Active) (steps : Text → Steps) :
    (dispatchEvent r active steps).1 = (dispatchLoop r steps (targets r active) .init).1 := by
  unfold dispatchEvent
  split
  · rename_i h
    simp [targets, h, dispatchLoop]
  · split
    · rename_i _ h
      have ht : targets r active = [] := by
        unfold targets
        split
        · rw [List.map_eq_nil_iff, List.filter_eq_nil_iff]
          intro dest hdest
          have hoff : dest.enabled = false := by simpa using List.any_eq_false.mp h dest hdest
          simp [WebhookDestination.subscribesTo, hoff]
        · rfl
      simp [ht, dispatchLoop]
    · split
      · rename_i h
        simp [h, dispatchLoop]
      · split <;> rename_i h <;> rw [h]

theorem dispatchOne_of_not_dedupes (hd : r.dedupes = false) (id : Text) (s : Steps) (p : Progress) :
    (dispatchOne r id s p).1.claims = p.claims ∧ (dispatchOne r id s p).1.skippedDedupe = p.skippedDedupe := by
  simp only [dispatchOne, claimPart, hd, Bool.false_eq_true, if_false, deliverPart, clearPart, noteError_eq]
  cases s.delivery with
  | cancelled => exact ⟨rfl, rfl⟩
  | ok => cases recordPart s none <;> exact ⟨rfl, rfl⟩
  | failed error => cases hr : recordPart s (some error) <;> simp [hr]

theorem dispatchLoop_of_not_dedupes (hd : r.dedupes = false) (steps : Text → Steps) (ids : List Text) (p : Progress) :
    (dispatchLoop r steps ids p).1.claims = p.claims ∧
      (dispatchLoop r steps ids p).1.skippedDedupe = p.skippedDedupe := by
  induction ids generalizing p with
  | nil => exact ⟨rfl, rfl⟩
  | cons id rest ih =>
    obtain ⟨hc, hs⟩ := dispatchOne_of_not_dedupes hd id (steps id) p
    rw [dispatchLoop_cons]
    split
    · exact ⟨hc, hs⟩
    · obtain ⟨hc', hs'⟩ := ih (dispatchOne r id (steps id) p).1
      exact ⟨hc'.trans hc, hs'.trans hs⟩

theorem dispatchEvent_retryable_iff (r : Request) (active : Active) (steps : Text → Steps) :
    Retryable steps (dispatchEvent r active steps).1 ↔ (r.dedupes = true → Clean r steps (targets r active)) := by
  rw [dispatchEvent_fst]
  cases hd : r.dedupes with
  | true =>
    rw [dispatchLoop_retryable_iff hd (nodup_targets r active) (retryable_init steps) (by simp [Progress.init])]
    simp
  | false =>
    obtain ⟨hc, hs⟩ := dispatchLoop_of_not_dedupes hd steps (targets r active) .init
    refine iff_of_true ⟨?_, ?_⟩ (by simp)
    · intro c h
      rw [hc] at h
      exact absurd h List.not_mem_nil
    · intro id h
      rw [hs] at h
      exact absurd h List.not_mem_nil

section Samples

def discordId : Text := "discord"

def sampleActive : Active := ⟨[⟨discordId, discordId, true, allEventTypes⟩], List.nodup_singleton discordId⟩

def works : Session := ⟨true, true, true, true⟩

/-- The delivery fails, and then the delivery log cannot be written. -/
def logRaises : Steps := ⟨works, false, .failed "503", { works with runs := false }, .emitted, works⟩

theorem claim_survives_failure :
    ¬Retryable (fun _ ↦ logRaises)
      (dispatchEvent ⟨.sqlite, eventKevAlert, "CVE-2024-3094", false⟩ sampleActive fun _ ↦ logRaises).1 := by
  intro h
  have hc := h.claims ⟨discordId, eventKevAlert, "CVE-2024-3094"⟩
  revert hc
  decide +kernel

/-- A locked database answers "already sent". -/
def locked : Steps := ⟨{ works with runs := false }, false, .ok, works, .emitted, works⟩

example : (dispatchEvent ⟨.sqlite, eventKevAlert, "CVE-2024-3094", false⟩ sampleActive fun _ ↦ locked).1.skippedDedupe =
    [discordId] := by
  decide +kernel

end Samples

end Briefr.Webhooks
