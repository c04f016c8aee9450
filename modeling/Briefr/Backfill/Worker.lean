import Briefr.Python.Value
import Mathlib.Data.List.Nodup

namespace Briefr.Backfill

open Briefr.Python

inductive RunStatus
  | pending
  | running
  | deferred
  | onHold
  | completed
  | partialRun
  | failed
  deriving DecidableEq

def RunStatus.isTerminal : RunStatus → Bool
  | .completed | .partialRun | .failed => true
  | .pending | .running | .deferred | .onHold => false

inductive CheckpointStatus
  | pending
  | running
  | deferred
  | onHold
  | done
  | notFound
  deriving DecidableEq

/-- `status IN ('pending', 'running', 'deferred', 'on_hold')`. -/
def CheckpointStatus.isOpen : CheckpointStatus → Bool
  | .pending | .running | .deferred | .onHold => true
  | .done | .notFound => false

/-- A row of `stack_backfill_runs`; the limits are as configured. -/
structure Run where
  status : RunStatus
  maxCves : ℤ
  maxRuntimeSeconds : ℤ
  cvesUpserted : ℕ
  pagesDone : ℕ
  updatedAt : Option ℤ

structure Checkpoint where
  productKey : Text
  status : CheckpointStatus
  startIndex : ℕ
  totalResults : ℤ
  cvesUpserted : ℕ
  deriving DecidableEq

/-- What is committed of a run: its row, its checkpoints in the order of their ids, the pages and the CVE ids that were
upserted for it, and the ids for which EPSS and KEV were tried. -/
structure Tables where
  run : Run
  checkpoints : List Checkpoint
  keys : (checkpoints.map Checkpoint.productKey).Nodup
  pages : List (Text × ℕ)
  upserted : List Text
  epssTried : List Text
  kevTried : List Text

def resultsPerPage : ℕ := 2000

/-- What `fetch_cves_keyword_page` reports besides a page. -/
inductive FetchError
  | notFound
  | rateLimited
  | http5xx
  | error
  deriving DecidableEq

/-- A fetched page: of each record that was not rejected, its CVE id after the upsert. -/
structure Page where
  cves : List Text
  total : ℤ
  err : Option FetchError

def Page.ids (p : Page) : List Text := p.cves.filter fun id ↦ id ≠ []

/-- Where a statement of a page raises, if one does; the exception handler then commits what is before it. -/
inductive Fault
  | none
  | beforeCheckpoint
  | afterCheckpoint
  deriving DecidableEq

/-- The place of the next wait of a worker. -/
inductive Phase
  | claiming
  | looping
  | fetching (cp : Checkpoint)
  | deferring
  | enriching
  | completing
  | closing

/-- The local variables of one `process_stack_backfill_run`, and the time of its last commit of the run. -/
structure Worker where
  phase : Phase
  started : ℤ
  maxCves : ℤ
  maxRuntime : ℤ
  cvesUpserted : ℕ
  pagesDone : ℕ
  newIds : List Text
  beat : ℤ

/-- What a worker does next: the clock readings, fetched pages and failures are those of this step. -/
inductive Step
  | claim
  | loop (monotonic : ℤ)
  | page (p : Page) (fault : Fault)
  | resumed
  | enrich
  | complete
  | raise (handled : Bool)
  | close
  | crash

def setRow (cp old : Checkpoint) : Checkpoint := if old.productKey = cp.productKey then cp else old

theorem setRow_productKey (cp old : Checkpoint) : (setRow cp old).productKey = old.productKey := by
  rw [setRow]
  split
  · next h => exact h.symm
  · rfl

def upsertCheckpoint (t : Tables) (cp : Checkpoint) : Tables :=
  if h : cp.productKey ∈ t.checkpoints.map Checkpoint.productKey then
    { t with
      checkpoints := t.checkpoints.map (setRow cp)
      keys := by
        rw [List.map_map, show Checkpoint.productKey ∘ setRow cp = Checkpoint.productKey from
          funext (setRow_productKey cp)]
        exact t.keys }
  else
    { t with
      checkpoints := t.checkpoints ++ [cp]
      keys := by
        rw [List.map_append]
        refine t.keys.append (List.nodup_singleton _) ?_
        intro k hold hnew
        exact h (List.mem_singleton.mp hnew ▸ hold) }

/-- `update_run` with the fields that `f` sets. -/
def updateRun (now : ℤ) (t : Tables) (f : Run → Run) : Tables := { t with run := { f t.run with updatedAt := some now } }

def nextPendingCheckpoint (t : Tables) : Option Checkpoint := t.checkpoints.find? fun cp ↦ cp.status.isOpen

/-- The configured number of seconds, if it is one. -/
def staleRunningSeconds (configured : Option ℤ) : ℤ := (configured.map (max 60)).getD 900

def claimable (stale now : ℤ) (run : Run) : Bool :=
  !run.status.isTerminal && (run.status != .running || run.updatedAt.all (· < now - stale))

def createRun (maxCves maxRuntime now : ℤ) (productKeys : List Text) : Tables :=
  productKeys.foldl (fun t key ↦ upsertCheckpoint t ⟨key, .pending, 0, 0, 0⟩)
    ⟨⟨.pending, maxCves, maxRuntime, 0, 0, some now⟩, [], List.nodup_nil, [], [], [], []⟩

def orDefault (n default : ℤ) : ℤ := if n = 0 then default else n

/-- `_process` up to the claim; `none` is its early return. -/
def begin (monotonic : ℤ) (t : Tables) : Option Worker :=
  if t.run.status.isTerminal then none
  else
    some {
      phase := .claiming, started := monotonic, maxCves := orDefault t.run.maxCves 5000
      maxRuntime := orDefault t.run.maxRuntimeSeconds 3600, cvesUpserted := t.run.cvesUpserted
      pagesDone := t.run.pagesDone, newIds := [], beat := 0 }

/-- The claim and the first progress message, which are committed together. -/
def claimRunRunning (stale now : ℤ) (t : Tables) (w : Worker) : Tables × Option Worker :=
  if claimable stale now t.run then
    (updateRun now t fun run ↦ { run with status := .running }, some { w with phase := .looping, beat := now })
  else (t, none)

/-- The loop up to the fetch of a page, or what follows the loop up to the enrichment. -/
def loopStep (now monotonic : ℤ) (t : Tables) (w : Worker) : Tables × Option Worker :=
  if w.maxRuntime < monotonic - w.started then
    (updateRun now t fun run ↦ { run with status := .partialRun }, some { w with phase := .closing, beat := now })
  else if w.maxCves ≤ w.cvesUpserted then
    (updateRun now t fun run ↦ { run with status := .partialRun, cvesUpserted := w.cvesUpserted },
      some { w with phase := .closing, beat := now })
  else
    match nextPendingCheckpoint t with
    | some cp =>
      (updateRun now (upsertCheckpoint t { cp with status := .running }) id,
        some { w with phase := .fetching cp, beat := now })
    | none =>
      if w.newIds = [] then (t, some { w with phase := .completing })
      else (updateRun now t id, some { w with phase := .enriching, beat := now })

/-- What the branch that a page takes writes: the checkpoint, the run, and what was upserted before them. -/
structure Branch where
  checkpoint : Checkpoint
  run : Run → Run
  pages : List (Text × ℕ) := []
  ids : List Text := []
  next : Worker

def pageBranch (w : Worker) (cp : Checkpoint) (p : Page) : Branch :=
  if p.err = some .rateLimited then
    { checkpoint := { cp with status := .deferred }
      run := fun run ↦ { run with status := .deferred }
      next := { w with phase := .deferring } }
  else if p.err = some .http5xx ∨ p.err = some .error then
    { checkpoint := { cp with status := .onHold }
      run := fun run ↦ { run with status := .onHold }
      next := { w with phase := .closing } }
  else if p.err = some .notFound ∨ (p.total = 0 ∧ cp.startIndex = 0) then
    { checkpoint := ⟨cp.productKey, .notFound, 0, 0, 0⟩
      run := fun run ↦ { run with pagesDone := w.pagesDone + 1 }
      next := { w with phase := .looping, pagesDone := w.pagesDone + 1 } }
  else
    let nextIndex := cp.startIndex + resultsPerPage
    let doneProduct := p.total ≤ nextIndex ∨ p.cves = []
    { checkpoint := {
        productKey := cp.productKey, status := if doneProduct then .done else .pending
        startIndex := if doneProduct then 0 else nextIndex, totalResults := p.total
        cvesUpserted := cp.cvesUpserted + p.ids.length }
      run := fun run ↦ { run with cvesUpserted := w.cvesUpserted + p.ids.length, pagesDone := w.pagesDone + 1 }
      pages := [(cp.productKey, cp.startIndex)]
      ids := p.ids
      next := { w with
        phase := .looping, cvesUpserted := w.cvesUpserted + p.ids.length, pagesDone := w.pagesDone + 1
        newIds := w.newIds ++ p.ids } }

/-- The handler of `_process`: it marks the run as failed and commits whatever was written, unless it fails too. -/
def handle (now : ℤ) (t : Tables) (w : Worker) : Tables × Option Worker :=
  (updateRun now t fun run ↦ { run with status := .failed }, some { w with phase := .closing, beat := now })

/-- `upsert_cves`. -/
def Branch.upsertCves (branch : Branch) (t : Tables) : Tables := { t with upserted := t.upserted ++ branch.ids }

/-- The page and its checkpoint. -/
def Branch.write (branch : Branch) (t : Tables) : Tables :=
  upsertCheckpoint { t with upserted := t.upserted ++ branch.ids, pages := t.pages ++ branch.pages } branch.checkpoint

def pageStep (now : ℤ) (t : Tables) (w : Worker) (cp : Checkpoint) (p : Page) (fault : Fault) : Tables × Option Worker :=
  let branch := pageBranch w cp p
  match fault with
  | .beforeCheckpoint => handle now (branch.upsertCves t) w
  | .afterCheckpoint => handle now (branch.write t) w
  | .none => (updateRun now (branch.write t) branch.run, some { branch.next with beat := now })

/-- EPSS is tried for the ids of this execution, KEV for all that is stored. -/
def enrichStep (t : Tables) (w : Worker) : Tables × Option Worker :=
  ({ t with epssTried := t.epssTried ++ w.newIds, kevTried := t.kevTried ++ t.upserted },
    some { w with phase := .completing })

def completeStep (now : ℤ) (t : Tables) (w : Worker) : Tables × Option Worker :=
  (updateRun now t fun run ↦
      { run with status := .completed, cvesUpserted := w.cvesUpserted, pagesDone := w.pagesDone },
    some { w with phase := .closing, beat := now })

/-- One stretch of `_process` from a wait to the next. -/
def advance (stale now : ℤ) (t : Tables) (w : Worker) (step : Step) : Tables × Option Worker :=
  match step, w.phase with
  | .crash, _ => (t, none)
  | .claim, .claiming => claimRunRunning stale now t w
  | .loop monotonic, .looping => loopStep now monotonic t w
  | .page p fault, .fetching cp => pageStep now t w cp p fault
  | .resumed, .deferring => (updateRun now t id, some { w with phase := .closing, beat := now })
  | .enrich, .enriching => enrichStep t w
  | .complete, .completing => completeStep now t w
  | .close, .closing => (t, none)
  | .raise true, .claiming | .raise true, .looping | .raise true, .fetching _ | .raise true, .deferring |
    .raise true, .enriching | .raise true, .completing => handle now t w
  | .raise false, .claiming | .raise false, .closing => (t, none)
  | .raise false, _ => (t, some { w with phase := .closing })
  | _, _ => (t, some w)

end Briefr.Backfill
