import Briefr.Scoring.AssetMatch

namespace Briefr.Matching.StackAssets

open Briefr.Python Briefr.Matching.Cpe Briefr.Scoring.AssetMatch

section
variable [Interp]

/-- `_parse_json_list` of `stack_assets`, which also takes a list. -/
def parseJsonList : Value → List Value
  | .list l => l
  | .str s => if s = [] then [] else
    match loads s with
    | some (.list l) => l
    | _ => []
  | _ => []

/-- The vendor and product that a name without CPE data is split into. -/
def splitName (text : Text) : Text × Text := if isIn ":" text then splitColon text else ([], text)

def affectedToCpe (item : Value) : Option Value :=
  let text := strip (strOr item)
  if text = [] then none
  else some (.dict [("vendor", .str (strip (splitName text).1)), ("product", .str (strip (splitName text).2)),
    ("version", .str "*")])

def affectedToCpes (affectedProducts : Value) : List Value :=
  (parseJsonList affectedProducts).filterMap affectedToCpe

def cveMatchesAssets (cpeMatches affectedProducts : Value) (assets : List Asset) : Py Bool :=
  if assets = [] then .ok false
  else do
    let score ← scoreCveForAssets (.list ((parseJsonList cpeMatches).filter Value.isDict)) assets
    if 0 < score then return true
    let score ← scoreCveForAssets (.list (affectedToCpes affectedProducts)) assets
    return decide (0 < score)

/-- A row of `cves` with its two JSON columns. Their writers dump lists, of strings for the
affected products; a column may still be NULL, empty or no JSON at all. -/
structure CveRow where
  cveId : Text
  cpeMatches : Option Text
  affectedProducts : Option Text
  cpe_list : ∀ s v, cpeMatches = some s → loads s = some v → ∃ l, v = .list l
  affected_list : ∀ s v, affectedProducts = some s → loads s = some v → ∃ l : List Text, v = .list (l.map .str)

def column : Option Text → Value
  | none => .none
  | some s => .str s

/-- `_parse_json_list` of `db.metadata`. -/
def parseColumn : Option Text → List Value
  | none => []
  | some s => if s = [] then [] else
    match loads s with
    | some (.list l) => l
    | _ => []

def affectedEntry : Value → Option Value
  | .str entry =>
    if isIn ":" entry then
      some (.dict [("vendor", .str (splitColon entry).1), ("product", .str (splitColon entry).2)])
    else none
  | _ => none

/-- The entries `match_cves_for_assets` scores for one row. -/
def matchEntries (row : CveRow) : List Value :=
  match parseColumn row.cpeMatches with
  | [] => (parseColumn row.affectedProducts).filterMap affectedEntry
  | cpes => cpes

def rowScore (assets : List Asset) (row : CveRow) : Py ℕ := scoreCveForAssets (.list (matchEntries row)) assets

/-- `scores[key] = score`. -/
def assign (scores : List (Text × ℕ)) (key : Text) (score : ℕ) : List (Text × ℕ) :=
  (key, score) :: scores.filter fun p ↦ p.1 ≠ key

def scanRow (assets : List Asset) (scores : List (Text × ℕ)) (row : CveRow) : Py (List (Text × ℕ)) := do
  let score ← rowScore assets row
  return if 0 < score then assign scores row.cveId score else scores

def matchCvesForAssets (rows : List CveRow) (assets : List Asset) : Py (List (Text × ℕ)) :=
  rows.foldlM (scanRow assets) []

/-- A JSON column as `row_to_cve_dict` and the risk route load it. -/
def loadColumn : Option Text → Value
  | none => .list []
  | some s => if s = [] then .list [] else (loads s).getD (.list [])

/-- The part of the risk route's CVE that `cpe_match_score_for_cve` reads. -/
def riskCve (row : CveRow) : Dict :=
  [("cpe_matches", loadColumn row.cpeMatches), ("affected_products", loadColumn row.affectedProducts)]

end

end Briefr.Matching.StackAssets
