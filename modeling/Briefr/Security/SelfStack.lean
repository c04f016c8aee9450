import Briefr.Library.StableSort
import Briefr.Matching.StackAssets
import Briefr.Routers.CveFeed

namespace Briefr.Security.SelfStack

open Briefr.Python Briefr.Library.StableSort Briefr.Matching.Cpe Briefr.Scoring.AssetMatch Briefr.Routers.CveFilters
open Briefr.Routers.CveFeed (orNull)

/-- A row of `cves`. -/
structure Row where
  cveId : Text
  severity : Option Text
  cvssScore : Value
  epssScore : Value
  isKev : Option ℤ
  published : Option Text
  affectedProducts : Option Text
  cpeMatches : Option Text

/-- The table; `cve_id` is its primary key. -/
structure CveTable where
  rows : List Row
  key : (rows.map Row.cveId).Nodup

/-- An entry of `self_stack.yaml`; its fields are texts or missing. -/
structure Entry where
  term : Option Text
  title : Option Text
  vendor : Option Text
  version : Option Text

structure LiveRow where
  id : Text
  title : Text
  summary : Text
  category : Text
  origin : Text
  status : Text
  severity : Text
  cveId : Text
  matchedTerm : Text
  matchScore : ℕ
  matchBasis : Text
  isKev : Bool
  cvssScore : Value
  epssScore : Value
  published : Option Text

structure Stats where
  candidateRows : ℕ
  scoredMatches : ℕ
  admitted : ℕ
  cap : ℕ
  deriving DecidableEq

def selfStackLiveCap : ℕ := 50

def emptySelfStackRiskStats : Stats := ⟨0, 0, 0, selfStackLiveCap⟩

/-- `LIMIT 2000`. -/
def candidateLimit : ℕ := 2000

section

variable [Interp]

/-- `json.loads` of a column, and the list in it if it is one. -/
def loadList : Option Text → List Value
  | none => []
  | some s =>
    match loads s with
    | some (.list l) => l
    | _ => []

/-- An entry of `affected_products` as a CPE entry. -/
def hydrateProduct : Value → Option Value
  | .str entry =>
    if isIn ":" entry then
      some (.dict [("vendor", .str (splitColon entry).1), ("product", .str (splitColon entry).2)])
    else none
  | .dict entry =>
    let get := Dict.get entry
    if (get "product").truthy then
      some (.dict [("vendor", (get "vendor").orElse (.str [])), ("product", (get "product").orElse (.str [])),
        ("version", get "version"),
        ("version_start_including", get "version_start_including"),
        ("version_start_excluding", get "version_start_excluding"),
        ("version_end_including", get "version_end_including"),
        ("version_end_excluding", get "version_end_excluding")])
    else none
  | _ => none

/-- `_hydrate_cpe_matches`. -/
def hydrateCpeMatches (row : Row) : List Value :=
  match loadList row.cpeMatches with
  | [] => (loadList row.affectedProducts).filterMap hydrateProduct
  | cpes => cpes

/-- `a or b` on texts that may be missing. -/
def orMissing (a b : Option Text) : Text := if a.getD [] = [] then b.getD [] else a.getD []

/-- `_self_stack_assets`. -/
def selfStackAssets (corpus : List Entry) : List Asset :=
  corpus.filterMap fun e ↦
    if orMissing e.term e.title = [] then none
    else some ⟨orMissing e.term e.title, strip (e.version.getD []), e.vendor.getD []⟩

def productTokens (assets : List Asset) : List Text :=
  sortedSet ((assets.map fun a ↦ lower (strip a.product)).filter fun p ↦ !p.isEmpty)

/-- `c.is_kev = 1 OR c.severity = 'CRITICAL'`. -/
def kevOrCritical (row : Row) : Bool := row.isKev == some 1 || row.severity == some "CRITICAL".toList

/-- `COALESCE(column, '') NOT IN ('', '[]')`. -/
def hasData (column : Option Text) : Bool := !(column.getD []).isEmpty && column.getD [] != "[]".toList

/-- `LOWER(COALESCE(column, '')) LIKE '%token%'`. -/
def mentions (column : Option Text) (token : Text) : Bool := like (anywhere token) (lowerAscii (column.getD []))

def prefilter (tokens : List Text) (row : Row) : Bool :=
  (hasData row.cpeMatches || hasData row.affectedProducts) &&
    tokens.any fun t ↦ mentions row.cpeMatches t || mentions row.affectedProducts t

/-- `ORDER BY c.is_kev DESC, c.published DESC`. -/
def fetchKey (row : Row) : (WithBot ℤ ×ₗ WithBot Text)ᵒᵈ :=
  OrderDual.toDual (toLex ((row.isKev : WithBot ℤ), orNull row.published))

/-- The rows that the `WHERE` clause lets through. -/
def candidates (cves : List Row) (tokens : List Text) : List Row :=
  cves.filter fun row ↦ kevOrCritical row && prefilter tokens row

def fetch (cves : List Row) (tokens : List Text) : List Row :=
  (sortBy fetchKey (candidates cves tokens)).take candidateLimit

def matchBasis (score : ℕ) : Text := if score = 100 then "product+version" else "product-only"

/-- `_matched_asset`: the first asset that has the score by itself. -/
def matchedAsset (cpes : List Value) (score : ℕ) : List Asset → Py (Option Asset)
  | [] => .ok none
  | asset :: assets => do
    let own ← scoreCveForAssets (.list cpes) [asset]
    if own = score then return some asset
    matchedAsset cpes score assets

def matchedLabel (asset : Asset) : Text :=
  if asset.version = [] then asset.product else asset.product ++ '@' :: asset.version

def liveRow (row : Row) (score : ℕ) (asset : Asset) : LiveRow :=
  let isKev := row.isKev.any (· != 0)
  { id := "self-stack-".toList ++ row.cveId
    title := row.cveId ++ " — ".toList ++ matchBasis score ++ " CPE match \"".toList ++ matchedLabel asset ++ ['"']
    summary := (if isKev then "CISA KEV" else "Critical").toList ++
      " CVE matching BRIEFR's own generated self-stack via structured CPE ".toList ++ matchBasis score ++
      " scoring for \"".toList ++ matchedLabel asset ++ "\".".toList
    category := "self-exposure"
    origin := "live"
    status := "open"
    severity := lower (row.severity.getD [])
    cveId := row.cveId
    matchedTerm := asset.product
    matchScore := score
    matchBasis := matchBasis score
    isKev := isKev
    cvssScore := row.cvssScore
    epssScore := row.epssScore
    published := row.published }

/-- The asset of a row that no asset matches alone. -/
def unknownAsset : Asset := ⟨"unknown", [], []⟩

/-- The score of a row on its hydrated entries. -/
def rowScore (assets : List Asset) (row : Row) : Py ℕ := scoreCveForAssets (.list (hydrateCpeMatches row)) assets

/-- `score in (55, 100)`. -/
def admissible (score : ℕ) : Bool := score == 55 || score == 100

def liveRows (assets : List Asset) : List Row → Py (List LiveRow)
  | [] => .ok []
  | row :: rows => do
    let score ← rowScore assets row
    if admissible score then
      let asset ← matchedAsset (hydrateCpeMatches row) score assets
      let rest ← liveRows assets rows
      return liveRow row score (asset.getD unknownAsset) :: rest
    else liveRows assets rows

/-- The key of the final sort, which is in reverse order. -/
def liveKey (r : LiveRow) : (Bool ×ₗ ℕ ×ₗ Text)ᵒᵈ :=
  OrderDual.toDual (toLex (r.isKev, toLex (r.matchScore, r.published.getD [])))

def withStats (candidates : ℕ) (live : List LiveRow) : List LiveRow × Stats :=
  let admitted := (sortBy liveKey live).take selfStackLiveCap
  (admitted, ⟨candidates, live.length, admitted.length, selfStackLiveCap⟩)

def selfStackRiskRowsWithStats (cves : List Row) (corpus : List Entry) : Py (List LiveRow × Stats) := do
  let assets := selfStackAssets corpus
  if assets = [] then return ([], emptySelfStackRiskStats)
  let tokens := productTokens assets
  if tokens = [] then return ([], emptySelfStackRiskStats)
  let rows := fetch cves tokens
  let live ← liveRows assets rows
  return withStats rows.length live

/-- The scorer gives the row 55 or 100. -/
def scores (assets : List Asset) (row : Row) : Bool :=
  match rowScore assets row with
  | .ok score => admissible score
  | .error _ => false

/-- What the register shows for a row that scores. -/
def liveOf (assets : List Asset) (row : Row) : LiveRow :=
  match rowScore assets row with
  | .ok score =>
    match matchedAsset (hydrateCpeMatches row) score assets with
    | .ok asset => liveRow row score (asset.getD unknownAsset)
    | .error _ => liveRow row score unknownAsset
  | .error _ => liveRow row 0 unknownAsset

/-- All KEV or critical CVEs that score. -/
def exposure (cves : List Row) (corpus : List Entry) : List Row :=
  cves.filter fun row ↦ kevOrCritical row && scores (selfStackAssets corpus) row

/-- The first rows, in the order of the final sort, of all that score, and the number of these. -/
def Complete (cves : List Row) (corpus : List Entry) (result : List LiveRow × Stats) : Prop :=
  ∃ rows : List Row, rows.Perm (exposure cves corpus) ∧
    (rows.map (liveOf (selfStackAssets corpus))).Pairwise (fun a b ↦ liveKey a ≤ liveKey b) ∧
    result.1 = (rows.map (liveOf (selfStackAssets corpus))).take selfStackLiveCap ∧
    result.2.scoredMatches = (exposure cves corpus).length

/-- Each row that scores has a term in its raw columns, and its place among the candidates is within the limit; no
candidate within the limit makes the scorer raise. -/
structure Kept (cves : List Row) (corpus : List Entry) : Prop where
  mentioned : ∀ row ∈ exposure cves corpus, prefilter (productTokens (selfStackAssets corpus)) row = true
  within : ∀ row ∈ exposure cves corpus,
    place fetchKey Row.cveId (candidates cves (productTokens (selfStackAssets corpus))) row < candidateLimit
  scored : ∀ row ∈ candidates cves (productTokens (selfStackAssets corpus)),
    place fetchKey Row.cveId (candidates cves (productTokens (selfStackAssets corpus))) row < candidateLimit →
      ∃ score, rowScore (selfStackAssets corpus) row = .ok score

end

end Briefr.Security.SelfStack
