import Briefr.Correlation.Suppressions
import Briefr.Python.Objects

namespace Briefr.Correlation

open Briefr.Python Briefr.Library Briefr.Library.StableSort

/-- A row of `_shared_ioc_rows`: an indicator that the CVE shares with a peer. -/
structure SharedIoc where
  cveIdB : Text
  iocType : Text
  iocValue : Text
  observedAt : Option Text
  fetchedAt : Option Text
  degree : ℕ

/-- What `_parse_confirmations` reads from the cached lookups. -/
structure Confirmations where
  greynoise : Option Text
  malwarebazaar : Bool
  urlhausActive : Bool

structure Verdict (F : Type) where
  confidence : Text
  why : Option Text
  factors : List (Json F)

/-- `confidence_for_ioc_edge`, which reads the clock where it weighs the age of an observation. -/
class EdgeRules (F : Type) where
  confidenceForIocEdge : ℕ → SharedIoc → Confirmations → List Text → Verdict F

/-- When a computation runs, and the order in which it goes through its sets. -/
structure Reading where
  now : ℕ
  order : SetOrder

def Reading.iter (reading : Reading) (s : Finset Text) : List Text := reading.order.iter [] s

theorem Reading.mem_iter {reading : Reading} {s : Finset Text} {x : Text} : x ∈ reading.iter s ↔ x ∈ s :=
  reading.order.mem_iter [] s x

def confirmationReceipt {F : Type} (c : Confirmations) : Option (Json F) :=
  let parts := (c.greynoise.map fun g ↦ "GreyNoise: ".toList ++ g).toList ++
    (if c.malwarebazaar then ["MalwareBazaar: sample seen".toList] else []) ++
    (if c.urlhausActive then ["URLhaus: active URL".toList] else [])
  if parts = [] then none
  else some (.dict [("type".toList, .str "enrichment_confirmation".toList),
    ("summary".toList, .str ("; ".toList.intercalate parts))])

structure IocEdge (F : Type) where
  row : SharedIoc
  verdict : Verdict F
  corroboratedBy : List Text
  confirmation : Option (Json F)

/-- The factor from which the edge takes its freshness entries. -/
def IocEdge.freshness {F : Type} (e : IocEdge F) : Option (Json F) :=
  e.verdict.factors.find? fun f ↦
    match f.1.get "factor".toList with
    | .str s => s == "freshness".toList
    | _ => false

namespace Json

/-- An entry of a plain `dict`. -/
def field {F : Type} (j : Json F) (key : Text) : Option (Json F) :=
  match j with
  | ⟨.dict fields, h⟩ => (fields.attach.find? fun e ↦ e.1.1 = key).map fun e ↦
    ⟨e.1.2, Obj.plain_dict.mp h e.1 e.2⟩
  | _ => none

end Json

structure TypeCounts where
  ip : ℕ
  domain : ℕ
  hash : ℕ
  url : ℕ

section
variable [Interp]

/-- The type under which an indicator is counted. -/
def countedType (iocType : Text) : Text :=
  let t := upper iocType
  if t = "IPV4".toList ∨ t = "IPV6".toList then "IP".toList else t

def countByType (types : List Text) : TypeCounts where
  ip := types.countP fun t ↦ countedType t = "IP".toList
  domain := types.countP fun t ↦ countedType t = "DOMAIN".toList
  hash := types.countP fun t ↦ countedType t = "HASH".toList
  url := types.countP fun t ↦ countedType t = "URL".toList

end

def TypeCounts.sum (c : TypeCounts) : ℕ := c.ip + c.domain + c.hash + c.url

def natText (n : ℕ) : Text := (toString n).toList

/-- `f"{n} hash{'es' if n != 1 else ''}"` and its likes. -/
def counted (n : ℕ) (noun plural : String) : List Text :=
  if n = 0 then [] else [natText n ++ ' ' :: noun.toList ++ if n = 1 then [] else plural.toList]

def infrastructureSummary (peer : Text) (c : TypeCounts) : Text :=
  let parts := counted c.hash "hash" "es" ++ counted c.domain "domain" "s" ++ counted c.url "URL" "s" ++
    counted c.ip "IP" "s"
  let joined := if parts = [] then "shared indicators".toList else ", ".toList.intercalate parts
  "Shares ".toList ++ joined ++ " with ".toList ++ peer ++ " via OTX pulses.".toList

def levels : List Text := ["low".toList, "medium".toList, "high".toList]

/-- `_LEVELS.index(level)`, 0 for other texts. -/
def levelIndex (level : Text) : ℕ := if level ∈ levels then levels.idxOf level else 0

def levelOf (index : ℕ) : Text := levels.getD index []

section
variable {F : Type}

def optField (key : String) : Option (Json F) → List (Text × Json F)
  | some j => [(key.toList, j)]
  | none => []

def evidenceOf (e : IocEdge F) : Json F :=
  .dict ([("type".toList, Json.str "shared_indicator".toList), ("ioc_type".toList, Json.str e.row.iocType),
      ("value".toList, Json.str e.row.iocValue)] ++
    optField "confirmation" e.confirmation ++
    optField "observed_at" (e.row.observedAt.map Json.str) ++
    optField "ingested_at" (e.row.fetchedAt.map Json.str) ++
    optField "freshness_factor" (e.freshness.bind fun f ↦ Json.field f "value".toList) ++
    optField "freshness_reason" (e.freshness.bind fun f ↦ Json.field f "reason".toList) ++
    optField "freshness_fallback" (e.freshness.bind fun f ↦ Json.field f "freshness_fallback".toList) ++
    optField "corroborated_by" (if e.corroboratedBy = [] then none else some (Json.texts e.corroboratedBy)))

structure InfraPeer (F : Type) where
  cveIdB : Text
  counts : TypeCounts
  confidence : Text
  evidence : List (Json F)
  sources : List Text
  why : Option Text
  factors : List (Json F)

def InfraPeer.toJson (p : InfraPeer F) : Json F :=
  .dict [("cve_id_b".toList, .str p.cveIdB), ("shared_ip_count".toList, .int p.counts.ip),
    ("shared_domain_count".toList, .int p.counts.domain), ("shared_hash_count".toList, .int p.counts.hash),
    ("shared_url_count".toList, .int p.counts.url), ("shared_ioc_count".toList, .int p.counts.sum),
    ("confidence".toList, .str p.confidence), ("evidence".toList, .list p.evidence),
    ("summary".toList, .str (infrastructureSummary p.cveIdB p.counts)), ("sources".toList, .texts p.sources),
    ("why_not_higher".toList, .strOrNone p.why), ("confidence_factors".toList, .list p.factors)]

/-- The source names of the receipts. -/
def receiptPrefixes (edges : List (IocEdge F)) : Finset Text :=
  ((edges.flatMap IocEdge.corroboratedBy).filter (':' ∈ ·)).map (fun r ↦ r.takeWhile (· ≠ ':')) |>.toFinset

variable [Interp]

/-- `aggregate_infrastructure_confidence` and the rest of a peer's entry. -/
def infraPeer (reading : Reading) (peer : Text) (edges : List (IocEdge F)) : InfraPeer F :=
  let confidence := levelOf ((edges.map fun e ↦ levelIndex e.verdict.confidence).foldr max 0)
  let setting := edges.filter fun e ↦ e.verdict.confidence = confidence
  { cveIdB := peer
    counts := countByType (edges.map fun e ↦ e.row.iocType)
    confidence
    evidence := edges.map evidenceOf
    sources := "otx".toList :: (reading.iter (receiptPrefixes edges)).filter (· ≠ "otx".toList)
    why := (setting.filterMap fun e ↦ e.verdict.why.filter (· ≠ [])).head?
    factors := ((setting.map fun e ↦ e.verdict.factors).filter (· ≠ [])).headD [] }

def peerRank (p : InfraPeer F) : ℤ ×ₗ ℤ ×ₗ ℤ ×ₗ ℤ ×ₗ ℤ ×ₗ Text :=
  toLex (-(levelIndex p.confidence : ℤ), toLex (-(p.counts.hash : ℤ), toLex (-(p.counts.domain : ℤ),
    toLex (-(p.counts.url : ℤ), toLex (-(p.counts.ip : ℤ), p.cveIdB)))))

variable [EdgeRules F]

def iocEdge (reading : Reading) (confirmations : Text → Confirmations) (corroborations : Text → Text → List Text)
    (row : SharedIoc) : IocEdge F where
  row
  verdict := EdgeRules.confidenceForIocEdge reading.now row (confirmations row.iocValue)
    (corroborations row.iocType row.iocValue)
  corroboratedBy := corroborations row.iocType row.iocValue
  confirmation := confirmationReceipt (confirmations row.iocValue)

def findSharedInfrastructure (reading : Reading) (confirmations : Text → Confirmations)
    (corroborations : Text → Text → List Text) (rows : List SharedIoc) : List (InfraPeer F) :=
  let byPeer := Library.Dict.groups (rows.map fun row ↦ (row.cveIdB, iocEdge (F := F) reading confirmations corroborations row))
  (sortBy peerRank (byPeer.items.map fun e ↦ infraPeer reading e.1 e.2)).take 20

end

end Briefr.Correlation
