import Mathlib.Data.List.ReduceOption
import Briefr.Python.Loop

namespace Briefr.Feeds.Epss

open Briefr.Python

/-- How one request to the EPSS API ends. -/
inductive Reply
  | circuitOpen
  | statusError (code : ℕ)
  | httpError
  | otherError
  | body (data : Value)

/-- The bytes of the gzipped CSV file. -/
abbrev File := List UInt8

inductive Download
  | failed
  | got (raw : File)

/-- A row of the CSV file as `csv.DictReader` gives it; a short row leaves fields out. -/
structure CsvRow where
  cve : Option Text
  epss : Option Text
  percentile : Option Text

/-- `hashlib.sha256` and the reading of the file: gunzip, decode and split into rows, which may fail. -/
class FileFormat where
  sha256 : File → Text
  csvRows : File → Option (List CsvRow)

export FileFormat (sha256 csvRows)

/-- A score and its percentile, as the feeds deliver them. -/
structure Feed (Score : Type) where
  score : Score
  percentile : Option Score

/-- The `dict` of scores by upper-case CVE id. -/
abbrev Scores (Score : Type) := Text → Option (Feed Score)

/-- `scores.update(other)`. -/
def Scores.update {Score : Type} (scores other : Scores Score) : Scores Score := fun cveId ↦ (other cveId).or (scores cveId)

def Scores.set {Score : Type} (scores : Scores Score) (cveId : Text) (feed : Feed Score) : Scores Score :=
  fun k ↦ if k = cveId then some feed else scores k

structure HistoryRow (Score : Type) where
  cveId : Text
  score : Score
  date : Value

def batchSize : ℕ := 100

def backfillBatchSize : ℕ := 100

/-- `cve_ids[offset : offset + size]` for the offsets 0, size, 2 size and so on. -/
def batches (size : ℕ) (cveIds : List Text) : List (List Text) :=
  (List.range ((cveIds.length + size - 1) / size)).map fun i ↦ (cveIds.drop (i * size)).take size

section
variable {Score : Type} [Interp] [Floats Score]

/-- `None` or an empty string. -/
def isBlank : Value → Bool
  | .none => true
  | .str s => s.isEmpty
  | _ => false

/-- `float(value)` with a `ValueError` or `TypeError` read as absent. -/
def tryFloat (v : Value) : Py (Option Score) :=
  match float v with
  | .value score => .ok (some score)
  | .valueError => .ok none
  | .overflowError => .error .overflowError

def parseEpssFields (epssVal percentileVal : Value) : Py (Option (Feed Score)) :=
  if isBlank epssVal then .ok none
  else do
    match ← tryFloat epssVal with
    | none => return none
    | some score =>
      let percentile ← if isBlank percentileVal then .ok none else tryFloat percentileVal
      return some ⟨score, percentile⟩

def fieldValue : Option Text → Value
  | none => .none
  | some s => .str s

/-- One CSV row; `needed` is the set of CVEs that are asked for. -/
def addCsvRow (needed : Text → Bool) (scores : Scores Score) (row : CsvRow) : Py (Scores Score) :=
  let cveId := upper (row.cve.getD [])
  if needed cveId then do
    match ← parseEpssFields (fieldValue row.epss) (fieldValue row.percentile) with
    | some feed => return scores.set cveId feed
    | none => return scores
  else .ok scores

def parseEpssCsvGz [FileFormat] (raw : File) (needed : Text → Bool) : Py (Scores Score) :=
  match csvRows raw with
  | none => .error .valueError
  | some rows => rows.foldlM (addCsvRow needed) fun _ ↦ none

theorem addCsvRow_congr {needed : Text → Bool} {id : Text} (hn : needed id = true) {acc acc' scores : Scores Score}
    (ha : acc' id = acc id) {row : CsvRow} (h : addCsvRow needed acc row = .ok scores) :
    ∃ scores', addCsvRow (fun c ↦ decide (c = id)) acc' row = .ok scores' ∧ scores' id = scores id := by
  by_cases hc : upper (row.cve.getD []) = id
  · simp only [addCsvRow, hc, hn, if_true, bind_eq_ok] at h
    obtain ⟨feed, hf, h⟩ := h
    simp only [addCsvRow, hc, decide_true, if_true, hf, ok_bind]
    cases feed with
    | none =>
      cases h
      exact ⟨acc', rfl, ha⟩
    | some feed =>
      cases h
      exact ⟨acc'.set id feed, rfl, by simp [Scores.set]⟩
  · have hacc : scores id = acc id := by
      simp only [addCsvRow] at h
      split at h
      · obtain ⟨feed, -, h⟩ := bind_eq_ok.mp h
        cases feed with
        | none =>
          cases h
          rfl
        | some feed =>
          cases h
          simp [Scores.set, Ne.symm hc]
      · cases h
        rfl
    exact ⟨acc', by simp [addCsvRow, hc], ha.trans hacc.symm⟩

/-- Which CVEs are asked for makes no difference to the score of one of them. -/
theorem parse_congr [FileFormat] {raw : File} {needed : Text → Bool} {id : Text} (hn : needed id = true)
    {scores : Scores Score} (h : parseEpssCsvGz raw needed = .ok scores) :
    ∃ scores', parseEpssCsvGz raw (fun c ↦ decide (c = id)) = .ok scores' ∧ scores' id = scores id := by
  suffices ∀ rows (acc acc' : Scores Score), acc' id = acc id → List.foldlM (addCsvRow needed) acc rows = .ok scores →
      ∃ scores', List.foldlM (addCsvRow fun c ↦ decide (c = id)) acc' rows = .ok scores' ∧ scores' id = scores id by
    unfold parseEpssCsvGz at h ⊢
    split at h
    · cases h
    · rename_i rows hr
      exact this rows _ (fun _ ↦ none) rfl h
  intro rows
  induction rows with
  | nil =>
    intro acc acc' ha h
    cases h
    exact ⟨acc', rfl, ha⟩
  | cons row rows ih =>
    intro acc acc' ha h
    rw [List.foldlM_cons] at h
    obtain ⟨mid, hm, h⟩ := bind_eq_ok.mp h
    obtain ⟨mid', hm', he⟩ := addCsvRow_congr hn ha hm
    rw [List.foldlM_cons, hm', ok_bind]
    exact ih mid mid' he h

omit [Interp] in
theorem parseEpssFields_defined (epss percentile : Option Text) :
    ∃ feed, (parseEpssFields (fieldValue epss) (fieldValue percentile) : Py (Option (Feed Score))) = .ok feed := by
  have ht : ∀ v : Option Text, isBlank (fieldValue v) = false → ∃ x, (tryFloat (fieldValue v) : Py (Option Score)) = .ok x := by
    intro v hv
    cases v with
    | none => cases hv
    | some s =>
      have hs := Floats.float_str s
      unfold tryFloat fieldValue
      split
      · exact ⟨_, rfl⟩
      · exact ⟨_, rfl⟩
      · rename_i h
        exact (hs h).elim
  unfold parseEpssFields
  cases he : isBlank (fieldValue epss) with
  | true => exact ⟨none, rfl⟩
  | false =>
    obtain ⟨x, hx⟩ := ht epss he
    simp only [Bool.false_eq_true, if_false, hx, ok_bind]
    cases x with
    | none => exact ⟨none, rfl⟩
    | some score =>
      cases hp : isBlank (fieldValue percentile) with
      | true => exact ⟨_, rfl⟩
      | false =>
        obtain ⟨y, hy⟩ := ht percentile hp
        exact ⟨some ⟨score, y⟩, by simp [hy]⟩

theorem addCsvRow_defined (needed : Text → Bool) (acc : Scores Score) (row : CsvRow) :
    ∃ scores, addCsvRow needed acc row = .ok scores := by
  unfold addCsvRow
  dsimp only
  split
  · obtain ⟨feed, hf⟩ := parseEpssFields_defined row.epss row.percentile
    rw [hf, ok_bind]
    cases feed with
    | none => exact ⟨_, rfl⟩
    | some feed => exact ⟨_, rfl⟩
  · exact ⟨acc, rfl⟩

theorem parse_defined [FileFormat] {raw : File} {rows : List CsvRow} (h : csvRows raw = some rows)
    (needed : Text → Bool) : ∃ scores : Scores Score, parseEpssCsvGz raw needed = .ok scores := by
  rw [parseEpssCsvGz, h]
  clear h
  suffices ∀ acc : Scores Score, ∃ scores, rows.foldlM (addCsvRow needed) acc = .ok scores from this _
  induction rows with
  | nil => exact fun acc ↦ ⟨acc, rfl⟩
  | cons row rows ih =>
    intro acc
    obtain ⟨mid, hm⟩ := addCsvRow_defined needed acc row
    rw [List.foldlM_cons, hm, ok_bind]
    exact ih mid

/-- One object of an API reply. -/
def addItem (scores : Scores Score) (item : Value) : Py (Scores Score) := do
  let cve ← item.get "cve"
  let epss ← item.get "epss"
  let percentile ← item.get "percentile"
  match ← parseEpssFields epss percentile with
  | some feed =>
    let cveId ← cve.orText
    return if cveId = [] then scores else scores.set (upper cveId) feed
  | none => return scores

def dataItems (data : Value) : Py (List Value) :=
  match data with
  | .dict fields => ((fields.lookup ("data" : String).toList).getD (.list [])).iter
  | _ => .error .attributeError

def fetchBatchApi (reply : List Text → Reply) (cveIds : List Text) : Py (Scores Score) :=
  match reply cveIds with
  | .body data => do (← dataItems data).foldlM addItem fun _ ↦ none
  | _ => .ok fun _ ↦ none

def fetchEpssApi (reply : List Text → Reply) (cveIds : List Text) : Py (Scores Score) :=
  (batches batchSize cveIds).foldlM
    (fun scores batch ↦ do return scores.update (← fetchBatchApi reply batch)) fun _ ↦ none

def fetchEpssBulk [FileFormat] (download : Download) (cveIds : List Text) : Scores Score :=
  match download with
  | .failed => fun _ ↦ none
  | .got [] => fun _ ↦ none
  | .got raw =>
    match parseEpssCsvGz raw fun c ↦ decide (c ∈ cveIds.map upper) with
    | .ok scores => scores
    | .error _ => fun _ ↦ none

def fetchEpss [FileFormat] (download : Download) (reply : List Text → Reply) (cveIds : List Text) :
    Py (Scores Score) := do
  let unique := (cveIds.map upper).dedup
  let scores := fetchEpssBulk download unique
  let missing := unique.filter fun c ↦ (scores c).isNone
  return scores.update (← fetchEpssApi reply missing)

def itemRow (item : Value) : Py (Option (HistoryRow Score)) := do
  let cve ← item.get "cve"
  let cveId ← cve.orText
  let epssVal ← item.get "epss"
  let date ← item.get "date"
  if upper cveId = [] ∨ epssVal.isNone = true ∨ date.truthy = false then return none
  match ← tryFloat epssVal with
  | some score => return some ⟨upper cveId, score, date⟩
  | none => return none

/-- The rows of the objects under `data`, which is read as empty when it is missing. -/
def bodyRows (fields : Dict) : Py (List (HistoryRow Score)) := do
  let items ← dataItems (.dict fields)
  let rows ← items.mapM itemRow
  return rows.reduceOption

/-- Every failed request, and a body that is no object, gives an empty list. -/
def replyRows : Reply → Py (List (HistoryRow Score))
  | .body (.dict fields) => bodyRows fields
  | _ => .ok []

def fetchEpssTimeSeriesBatch (reply : List Text → Reply) (cveIds : List Text) : Py (List (HistoryRow Score)) :=
  if cveIds = [] then .ok [] else replyRows (reply cveIds)

end

end Briefr.Feeds.Epss
