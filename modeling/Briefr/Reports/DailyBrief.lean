import Briefr.Python.Value
import Briefr.Library.StableSort
import Briefr.Library.Runs
import Mathlib.Data.List.Lex
import Mathlib.Data.Prod.Lex
import Mathlib.Data.Int.Notation
import Mathlib.Algebra.Order.Ring.Int

namespace Briefr.Reports.DailyBrief

open Briefr.Python Briefr.Library Briefr.Library.StableSort

/-- The texts of an instant, a number of microseconds: its date in the zone of the brief, and its UTC time to the second. -/
class Zone where
  dateLocal : ℤ → Text
  boundUtc : ℤ → Text

export Zone (dateLocal boundUtc)

def second : ℤ := 1000000

def minutes (n : ℤ) : ℤ := n * 60 * second

def hours (n : ℤ) : ℤ := n * 60 * minutes 1

/-- A row of `kev_deadlines`. -/
structure KevRow where
  cveId : Text
  shortDescription : Option Text
  dateAdded : Option Text
  deriving DecidableEq

structure CveRow where
  cveId : Text
  severity : Option Text
  published : Option Text

/-- The tables that a brief reads. `onStack` tells of a CVE whether it matches the assets of the admin; it is `none` where
there are no assets. -/
structure Db where
  kev : List KevRow
  cves : List CveRow
  onStack : Option (Text → Bool)
  /-- `daily_brief:last_eod_end`, as the instant that it is parsed to. -/
  watermark : Option ℤ

structure Item where
  cveId : Text
  reason : Text
  severity : Text

/-- `_kev_date_predicate`; a NULL date is in no range. -/
def kevDatePredicate (startDate endDate : Text) (row : KevRow) : Bool :=
  match row.dateAdded with
  | none => false
  | some date => (if startDate = endDate then decide (startDate ≤ date) else decide (startDate < date)) && decide (date ≤ endDate)

def Db.kevInRange (db : Db) (startDate endDate : Text) : List KevRow := db.kev.filter (kevDatePredicate startDate endDate)

def listQueryLimit : ℕ := 50

/-- `LEFT JOIN cves`. -/
def Db.severity (db : Db) (cveId : Text) : Option Text := (db.cves.find? fun c ↦ c.cveId = cveId).bind CveRow.severity

/-- `ORDER BY date_added DESC, cve_id`. -/
def newestFirst (row : KevRow) : Textᵒᵈ ×ₗ Text := toLex (OrderDual.toDual (row.dateAdded.getD []), row.cveId)

/-- `_fetch_kev`: the listed rows and the number of all. -/
def fetchKev [Interp] (db : Db) (startDate endDate : Text) : List Item × ℕ :=
  let reason (row : KevRow) : Text :=
    if strip (row.shortDescription.getD []) = [] then "added to KEV" else strip (row.shortDescription.getD [])
  (((sortBy newestFirst (db.kevInRange startDate endDate)).take listQueryLimit).map fun row ↦
      ⟨row.cveId, reason row, strip ((db.severity row.cveId).getD [])⟩,
    (db.kevInRange startDate endDate).length)

/-- `REPLACE(SUBSTR(published, 1, 19), 'T', ' ')`. -/
def publishedValue (published : Text) : Text := (published.take 19).map fun c ↦ if c = 'T' then ' ' else c

def criticalHigh (startBound endBound : Text) (row : CveRow) : Bool :=
  match row.published, row.severity with
  | some published, some severity =>
    decide (startBound ≤ publishedValue published) && decide (publishedValue published < endBound) &&
      decide (severity.map Char.toUpper ∈ ["CRITICAL".toList, "HIGH".toList])
  | _, _ => false

/-- A row of the subquery `candidates`. -/
structure Candidate where
  cveId : Text
  severity : Text
  reason : Text
  sourceOrder : ℕ
  sortValue : Text

def kevCandidate (db : Db) (row : KevRow) : Candidate where
  cveId := row.cveId
  severity := (db.severity row.cveId).getD []
  reason := if row.shortDescription.getD [] = [] then "added to KEV" else row.shortDescription.getD []
  sourceOrder := 0
  sortValue := row.dateAdded.getD []

def criticalCandidate (row : CveRow) : Candidate where
  cveId := row.cveId
  severity := row.severity.getD []
  reason := "new Critical/High"
  sourceOrder := 1
  sortValue := publishedValue (row.published.getD [])

def candidateOrder (c : Candidate) : ℕ ×ₗ Textᵒᵈ ×ₗ Text :=
  toLex (c.sourceOrder, toLex (OrderDual.toDual c.sortValue, c.cveId))

def candidates (db : Db) (kevStartDate kevEndDate startBound endBound : Text) : List Candidate :=
  sortBy candidateOrder ((db.kevInRange kevStartDate kevEndDate).map (kevCandidate db) ++
    (db.cves.filter (criticalHigh startBound endBound)).map criticalCandidate)

/-- The pages that `_fetch_stack_candidate_page` gives from an offset on, the first short one being the last. -/
def pagesFrom (rows : List Candidate) (offset : ℕ) : List (List Candidate) :=
  let page := (rows.drop offset).take listQueryLimit
  if h : page.length < listQueryLimit then [page] else page :: pagesFrom rows (offset + page.length)
termination_by rows.length - offset
decreasing_by
  have hle : page.length ≤ rows.length - offset := by simp [page]
  have hpos : 0 < page.length := lt_of_lt_of_le (by decide : 0 < listQueryLimit) (not_lt.mp h)
  exact Nat.sub_lt_sub_left (by omega) (Nat.lt_add_of_pos_right hpos)

structure Scan where
  seen : List Text
  stack : List Item
  matchedTotal : ℕ

def Scan.add (s : Scan) (c : Candidate) : Scan where
  seen := s.seen
  stack := if s.stack.length < listQueryLimit then s.stack ++ [⟨c.cveId, c.reason, c.severity⟩] else s.stack
  matchedTotal := s.matchedTotal + 1

/-- One round of the loop: the rows of a page that no earlier page had, and those of them that match. -/
def Scan.page (onStack : Text → Bool) (s : Scan) (page : List Candidate) : Scan :=
  let fresh := page.filter fun c ↦ c.cveId ≠ [] ∧ c.cveId ∉ s.seen
  (fresh.filter fun c ↦ onStack c.cveId).foldl Scan.add ⟨s.seen ++ fresh.map Candidate.cveId, s.stack, s.matchedTotal⟩

/-- `_collect_stack`, with the pages that it went through. -/
def collectStack (db : Db) (kevStartDate kevEndDate startBound endBound : Text) : Scan × List (List Candidate) :=
  match db.onStack with
  | none => (⟨[], [], 0⟩, [])
  | some onStack =>
    let pages := pagesFrom (candidates db kevStartDate kevEndDate startBound endBound) 0
    (pages.foldl (Scan.page onStack) ⟨[], [], 0⟩, pages)

/-- The part of a brief that the KEV entries are in. `counted` are the rows that `kev_new` is the number of. -/
structure Brief where
  kev : List Item
  kevNew : ℕ
  counted : List KevRow
  stack : List Item
  stackMatches : ℕ
  pages : List (List Candidate)

def collectDailyBrief [Interp] [Zone] (db : Db) (windowStart windowEnd : ℤ) : Brief :=
  let (kevRows, kevTotal) := fetchKev db (dateLocal windowStart) (dateLocal windowEnd)
  let (scan, pages) :=
    collectStack db (dateLocal windowStart) (dateLocal windowEnd) (boundUtc windowStart) (boundUtc windowEnd)
  ⟨kevRows, kevTotal, db.kevInRange (dateLocal windowStart) (dateLocal windowEnd), scan.stack, scan.matchedTotal, pages⟩

/-- The status that `dispatch_event` returns. -/
inductive Delivery
  | ok
  | partly
  | skipped
  | failed
  deriving DecidableEq

/-- A call of `run_daily_brief_slot`: its time, the two flags and what becomes of the message. -/
structure Call where
  now : ℤ
  eodEnabled : Bool
  standupEnabled : Bool
  delivery : Delivery

inductive Slot
  | eod
  | standup
  deriving DecidableEq

def windowForSlot (watermark : Option ℤ) (slot : Slot) (c : Call) : ℤ :=
  match slot with
  | .eod => c.now - hours 24
  | .standup =>
    if c.eodEnabled then
      match watermark with
      | none => c.now - hours 12
      | some watermark => max watermark (c.now - hours 24)
    else c.now - hours 12

/-- An instant as the watermark keeps it, to the second. -/
def stamp (t : ℤ) : ℤ := t - t % second

def enabled (slot : Slot) (c : Call) : Bool :=
  match slot with
  | .eod => c.eodEnabled
  | .standup => c.standupEnabled

def runDailyBriefSlot [Interp] [Zone] (db : Db) (slot : Slot) (c : Call) : Db × Option Brief :=
  if enabled slot c then
    let windowStart := windowForSlot db.watermark slot c
    if slot = .standup ∧ c.now - windowStart < minutes 15 then (db, none)
    else
      let brief := collectDailyBrief db windowStart c.now
      if slot = .eod ∧ c.delivery ∈ [.ok, .partly] then ({ db with watermark := some (stamp c.now) }, some brief)
      else (db, some brief)
  else (db, none)

/-- `INSERT INTO kev_deadlines … ON CONFLICT(cve_id) DO UPDATE`. -/
def upsertKev (db : Db) (row : KevRow) : Db :=
  if row.cveId ∈ db.kev.map KevRow.cveId then
    { db with kev := db.kev.map fun r ↦ if r.cveId = row.cveId then row else r }
  else { db with kev := db.kev ++ [row] }

/-- What happens around the briefs: a KEV row is stored, other tables are written, a slot is run. -/
inductive Event
  | stored (row : KevRow)
  | wrote (cves : List CveRow) (onStack : Option (Text → Bool))
  | ran (slot : Slot) (c : Call)

/-- An event, with the brief that it sends. -/
def act [Interp] [Zone] (db : Db) : Event → Db × Option Brief
  | .stored row => (upsertKev db row, none)
  | .wrote cves onStack => ({ db with cves := cves, onStack := onStack }, none)
  | .ran slot c => runDailyBriefSlot db slot c

def step [Interp] [Zone] (db : Db) (e : Event) : Db := (act db e).1

def briefs [Interp] [Zone] : Db → List Event → List Brief
  | _, [] => []
  | db, e :: events => (act db e).2.toList ++ briefs (step db e) events

end Briefr.Reports.DailyBrief
