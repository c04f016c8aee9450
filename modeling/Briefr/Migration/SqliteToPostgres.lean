import Briefr.Python.Value
import Briefr.Library.Batches
import Briefr.Library.KeyedUpdates
import Mathlib.Data.Int.Notation
import Mathlib.Algebra.Order.Ring.Int

namespace Briefr.Migration

open Briefr.Python Briefr.Library

/-- A cell; of a value that is no integer the text is enough. -/
inductive Cell
  | null
  | int (n : ℤ)
  | other (shown : Text)
  deriving DecidableEq

abbrev Row := Text → Cell

/-- What a COPY is given for a row, by the column. -/
abbrev Record := List (Text × Cell)

structure SqliteTable where
  name : Text
  columns : List Text
  rows : List Row

structure Sqlite [Interp] where
  tables : List SqliteTable
  names : (tables.map SqliteTable.name).Nodup
  /-- SQLite tells no two columns apart by case. -/
  columns : ∀ t ∈ tables, (t.columns.map lower).Nodup

/-- A table of the target. A serial id comes from a sequence, whose next value is `nextId`. -/
structure Table where
  schema : Text
  name : Text
  columns : List Text
  serialId : Bool
  nextId : ℤ
  /-- The tables that its foreign keys refer to. -/
  references : List (Text × Text)
  rows : List Row

def Table.key (t : Table) : Text × Text := (t.schema, t.name)

/-- The key that an unqualified name has: the connection is left with the default search path. -/
def inPublic (name : Text) : Text × Text := ("public".toList, name)

structure Pg where
  tables : List Table
  keys : (tables.map Table.key).Nodup

/-- A change of each table that leaves its name alone. -/
def Pg.mapTables (pg : Pg) (f : Table → Table) (hf : ∀ t, (f t).key = t.key) : Pg where
  tables := pg.tables.map f
  keys := by
    rw [List.map_map, show Table.key ∘ f = Table.key from funext hf]
    exact pg.keys

def Pg.updateTable (pg : Pg) (name : Text) (f : Table → Table) (hf : ∀ t, (f t).key = t.key) : Pg where
  tables := updateAt Table.key (inPublic name) f pg.tables
  keys := by
    rw [map_key_updateAt hf]
    exact pg.keys

def Pg.table (pg : Pg) (name : Text) : Option Table := pg.tables.find? fun t ↦ t.key = inPublic name

/-- PostgreSQL and Alembic. -/
class Server where
  /-- The target after `alembic upgrade head`, and whether that and the connection succeed. -/
  upgrade : Pg → Pg × Bool
  /-- Whether a COPY of these records goes through. -/
  takes : Pg → Text → List Record → Bool
  /-- The default of a column. -/
  columnDefault : Text → Text → Cell

export Server (upgrade takes columnDefault)

def tableOrder : List Text := List.map String.toList
  ["cves", "ioc_cache", "kev_deadlines", "api_usage", "sync_state", "app_settings",
    "mitre_techniques", "cve_technique_map", "atlas_techniques",
    "atlas_case_studies", "cve_atlas_map", "epss_history", "cve_exploits",
    "feed_cache", "cve_change_history", "otx_cve_pulses", "otx_pulse_iocs", "otx_pulses",
    "correlation_actor", "correlation_temporal",
    "correlation_campaigns", "correlation_campaign_members", "correlation_suppressions",
    "mitre_groups", "group_technique_map", "cve_embeddings", "hunt_packs",
    "audit_log", "watchlist", "webhook_alert_log",
    "webhook_destinations", "webhook_delivery_log",
    "users", "sessions", "user_preferences"]

def serialIdTables : List Text := List.map String.toList
  ["cve_exploits", "cve_change_history", "hunt_packs", "audit_log",
    "correlation_suppressions", "webhook_delivery_log", "users", "sessions"]

def batchSize : ℕ := 2000

section

variable [Interp]

def Sqlite.table (source : Sqlite) (name : Text) : Option SqliteTable := source.tables.find? fun t ↦ t.name = name

/-- `_intersect_columns`: the columns of SQLite that the target has, whatever their case, each with its name there. -/
def intersectColumns (sqliteCols pgCols : List Text) : List (Text × Text) :=
  sqliteCols.filterMap fun col ↦
    match pgCols.reverse.find? fun c ↦ lower c = lower col with
    | some pgCol => if pgCol = [] then none else some (col, pgCol)
    | none => none

end

def Pg.columns (pg : Pg) (name : Text) : List Text := ((pg.table name).map Table.columns).getD []

def Table.truncated (t : Table) : Table := { t with rows := [], nextId := 1 }

/-- The tables that refer to one of these, with these: one round of CASCADE. -/
def Pg.referring (pg : Pg) (cut : List (Text × Text)) : List (Text × Text) :=
  cut ++ (pg.tables.filter fun t ↦ t.key ∉ cut ∧ t.references.any fun k ↦ k ∈ cut).map Table.key

def Pg.cascade (pg : Pg) (names : List Text) : List (Text × Text) := pg.referring^[pg.tables.length] (names.map inPublic)

/-- `TRUNCATE TABLE … RESTART IDENTITY CASCADE`. -/
def Pg.truncate (pg : Pg) (names : List Text) : Pg :=
  pg.mapTables (fun t ↦ if t.key ∈ pg.cascade names then t.truncated else t) fun t ↦ by
    split <;> rfl

inductive Fault
  | missing (table : Text)
  | copy (table : Text)
  | relation (table : Text)
  | bounds (table : Text)

structure Count where
  table : Text
  sqliteRows : ℕ
  postgresRows : ℕ

def record (shared : List (Text × Text)) (row : Row) : Record := shared.map fun p ↦ (p.2, row p.1)

section

variable [Server]

/-- The serial id of a record that has none is the next of the sequence. -/
def Table.insert (t : Table) (r : Record) : Table where
  schema := t.schema
  name := t.name
  columns := t.columns
  serialId := t.serialId
  nextId := if t.serialId ∧ r.lookup "id".toList = none then t.nextId + 1 else t.nextId
  references := t.references
  rows := t.rows ++ [fun c ↦
    match r.lookup c with
    | some v => v
    | none => if t.serialId ∧ c = "id".toList then .int t.nextId else columnDefault t.name c]

theorem Table.key_foldl_insert (rs : List Record) (t : Table) : (rs.foldl Table.insert t).key = t.key := by
  induction rs generalizing t with
  | nil => rfl
  | cons r rs ih => exact ih _

def copyRecords (pg : Pg) (table : Text) (batch : List Record) : Except Fault Pg :=
  if takes pg table batch then .ok (pg.updateTable table (fun t ↦ batch.foldl Table.insert t) (Table.key_foldl_insert batch))
  else .error (.copy table)

variable [Interp]

/-- One round of the loop over `TABLE_ORDER`. -/
def copyTable (source : Sqlite) (s : Pg × List Count) (table : Text) : Except Fault (Pg × List Count) :=
  match source.table table with
  | none => .ok s
  | some src =>
    if s.1.columns table = [] then .error (.missing table)
    else
      let shared := intersectColumns src.columns (s.1.columns table)
      if shared = [] then .ok s
      else do
        let pg ← (batches batchSize (src.rows.map (record shared))).foldlM (fun pg batch ↦ copyRecords pg table batch) s.1
        return (pg, s.2 ++ [⟨table, src.rows.length, ((pg.table table).map fun t ↦ t.rows.length).getD 0⟩])

end

def Table.ids (t : Table) : List ℤ :=
  t.rows.filterMap fun row ↦
    match row "id".toList with
    | .int n => some n
    | _ => none

/-- `COALESCE(MAX(id), 1)`. -/
def Table.maxId (t : Table) : ℤ := t.ids.max?.getD 1

/-- `SELECT setval(pg_get_serial_sequence(table, 'id'), COALESCE((SELECT MAX(id) FROM table), 1))`. -/
def resetSequence (pg : Pg) (table : Text) : Except Fault Pg :=
  match pg.table table with
  | none => .error (.relation table)
  | some t =>
    if "id".toList ∉ t.columns then .error (.relation table)
    else if t.serialId = false then .ok pg
    else if t.maxId < 1 then .error (.bounds table)
    else .ok (pg.updateTable table (fun t ↦ { t with nextId := t.maxId + 1 }) fun _ ↦ rfl)

section

variable [Server] [Interp]

/-- What happens within `pg.transaction()`. -/
def transaction (source : Sqlite) (pg : Pg) : Except Fault (Pg × List Count) := do
  let existingPg := tableOrder.filter fun table ↦ pg.columns table ≠ []
  let pg := if existingPg = [] then pg else pg.truncate existingPg
  let (pg, counts) ← tableOrder.foldlM (copyTable source) (pg, [])
  let pg ← serialIdTables.foldlM resetSequence pg
  return (pg, counts)

inductive Status
  | done
  | error
  deriving DecidableEq

/-- How a migration ends: the status, the row counts of the verification and the target. -/
structure Outcome where
  status : Status
  counts : List Count
  target : Pg

def Outcome.mismatches (o : Outcome) : List Text :=
  (o.counts.filter fun c ↦ c.sqliteRows ≠ c.postgresRows).map Count.table

/-- `run_migration`. A transaction that raises is rolled back. -/
def runMigration (source : Sqlite) (pg : Pg) : Outcome :=
  match upgrade pg with
  | (pg, false) => ⟨.error, [], pg⟩
  | (pg, true) =>
    match transaction source pg with
    | .error _ => ⟨.error, [], pg⟩
    | .ok (copied, counts) => ⟨.done, counts, copied⟩

end

end Briefr.Migration
