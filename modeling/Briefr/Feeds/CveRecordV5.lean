import Mathlib.Data.List.Lex
import Mathlib.Data.List.Dedup
import Mathlib.Data.List.Sort
import Briefr.Python.Loop

namespace Briefr.Feeds.CveRecordV5

open Briefr.Python

/-- `sorted` of a set of strings. -/
def sortedSet (l : List Text) : List Text := l.dedup.insertionSort (· ≤ ·)

section
variable [Interp]

/-- `CVE_ID_RE.match`: `^CVE-\d{4}-\d{4,7}$` in any case, where `$` allows a final newline. -/
def isCveId (s : Text) : Bool :=
  let rest := s.drop 4
  let seq := rest.drop 5
  let seq := if seq.getLast? = some '\n' then seq.dropLast else seq
  decide ((s.take 4).map Char.toLower = "cve-") && decide ((rest.take 4).length = 4) && (rest.take 4).all isDecimal &&
    decide ((rest.drop 4).head? = some '-') && decide (4 ≤ seq.length) && decide (seq.length ≤ 7) &&
    seq.all isDecimal

/-- `path.rsplit("/", 1)[-1]`. -/
def fileName (path : Text) : Text := path.rtakeWhile (· != '/')

def cveIdFromRepoPath (path : Text) : Option Text :=
  let name := fileName path
  if (".json" : String).toList <:+ lower name then
    let candidate := upper (name.take (name.length - 5))
    if isCveId candidate then some candidate else none
  else none

/-- The stripped text of a string that is not blank. -/
def nonBlank : Value → Option Text
  | .str s => if strip s = [] then none else some (strip s)
  | _ => none

def itemValue (item : Value) : Option Text :=
  match item with
  | .dict d => nonBlank (Dict.get d "value")
  | _ => none

def isEnglish (item : Value) : Bool :=
  match item with
  | .dict d =>
    match Dict.get d "lang" with
    | .str s => decide (s = "en")
    | _ => false
  | _ => false

def extractDescription (container : Dict) : Text :=
  match container.get "descriptions" with
  | .list items => (((items.filter isEnglish).findSome? itemValue).or (items.findSome? itemValue)).getD []
  | _ => []

def extractCwe (desc : Value) : Option Text :=
  match desc with
  | .dict d =>
    match Dict.get d "cweId" with
    | .str s => if ("CWE-" : String).toList <+: upper (strip s) then some (upper (strip s)) else none
    | _ =>
      match Dict.get d "description" with
      | .str s =>
        let token := upper ((strip s).takeWhile fun c ↦ !isSpace c)
        if ("CWE-" : String).toList <+: upper (strip s) ∧ ("CWE-" : String).toList <+: token then some token else none
      | _ => none
  | _ => none

/-- The elements of a list under `key`; anything else counts as empty. -/
def listOf (key : Text) : Value → List Value
  | .dict d =>
    match Dict.get d key with
    | .list l => l
    | _ => []
  | _ => []

def extractCwes (container : Dict) : List Text :=
  sortedSet (((listOf "problemTypes" (.dict container)).flatMap (listOf "descriptions")).filterMap extractCwe)

def vendorProductKey (vendor product : Text) : Text :=
  lower (strip vendor) ++ (":" : String) ++ lower (strip product)

def isWildcard (s : Text) : Bool := decide (s = [] ∨ s = "*" ∨ s = "-")

def cpeProduct : Value → Option Text
  | .str cpe =>
    match cpe.splitOn ':' with
    | _ :: _ :: _ :: vendor :: product :: _ =>
      if isWildcard vendor || isWildcard product then none else some (vendorProductKey vendor product)
    | _ => none
  | _ => none

def namedProduct : Value → Option Text
  | .dict d =>
    match nonBlank (Dict.get d "vendor"), nonBlank (Dict.get d "product") with
    | some vendor, some product => some (vendorProductKey vendor product)
    | _, _ => none
  | _ => none

def extractAffectedProducts (containers : List Dict) : List Text :=
  sortedSet (containers.flatMap fun c ↦ (listOf "affected" (.dict c)).flatMap fun item ↦
    (namedProduct item).toList ++ (listOf "cpes" item).filterMap cpeProduct)

def isCveRecordRejected (record : Dict) : Option Text :=
  match record.get "cveMetadata" with
  | .dict m =>
    match Dict.get m "state", Dict.get m "cveId" with
    | .str state, .str cveId =>
      if upper (strip state) = "REJECTED" ∧ isCveId (upper (strip cveId)) then some (upper (strip cveId)) else none
    | _, _ => none
  | _ => none

def findCisaAdp (adpList : List Value) : Option Dict :=
  adpList.findSome? fun item ↦
    match item with
    | .dict d =>
      match Dict.get d "title" with
      | .str s => if s = "CISA ADP Vulnrichment" then some d else none
      | _ => none
    | _ => none

variable {Score : Type} [Floats Score]

/-- One CVSS object of a metric; `none` goes on to the next. -/
def cvssData : Value → Py (Option (Score × Text))
  | .dict d =>
    let severity := match Dict.get d "baseSeverity" with
      | .str s => upper s
      | _ => ("UNKNOWN" : String)
    if (Dict.get d "baseScore").isNone then .ok none
    else
      match float (Dict.get d "baseScore") with
      | .value score => .ok (some (score, severity))
      | .valueError => .ok none
      | .overflowError => .error .overflowError
  | _ => .ok none

def extractCvss (container : Dict) : Py (Option (Score × Text)) :=
  (listOf "metrics" (.dict container)).findSomeM? fun metric ↦
    match metric with
    | .dict m => (["cvssV3_1", "cvssV3_0", "cvssV4_0"] : List String).findSomeM? fun key ↦ cvssData (Dict.get m key)
    | _ => .ok none

/-- The enrichment a record carries. -/
structure Record (Score : Type) where
  cveId : Text
  description : Text
  cvssScore : Option Score
  severity : Text
  published : Value
  modified : Value
  affectedProducts : List Text
  cweIds : List Text

/-- The part of `parse_cvelistv5_record` below the identity checks. -/
def parseContainers (cveId : Text) (metadata containers : Dict) : Py (Record Score) := do
  let cna := match containers.get "cna" with
    | .dict d => d
    | _ => []
  let cisaAdp := (findCisaAdp (listOf "adp" (.dict containers))).getD []
  let cnaCvss ← extractCvss cna
  let cvss ← if cnaCvss.isNone then extractCvss cisaAdp else .ok cnaCvss
  return {
    cveId
    description := if extractDescription cna = [] then extractDescription cisaAdp else extractDescription cna
    cvssScore := cvss.map Prod.fst
    severity := (cvss.map Prod.snd).getD ("UNKNOWN" : String)
    published := (metadata.get "datePublished").orElse (.str [])
    modified := (metadata.get "dateUpdated").orElse (.str [])
    affectedProducts := extractAffectedProducts [cna, cisaAdp]
    cweIds := if extractCwes cna = [] then extractCwes cisaAdp else extractCwes cna }

def parseCvelistv5Record (record : Dict) : Py (Option (Record Score)) :=
  match record.get "cveMetadata" with
  | .dict metadata => do
    let cveId ← (Dict.get metadata "cveId").orText
    if isCveId (upper cveId) = false ∨ (isCveRecordRejected record).isSome then return none
    match record.get "containers" with
    | .dict containers => some <$> parseContainers (upper cveId) metadata containers
    | _ => return none
  | _ => .ok none

end

end Briefr.Feeds.CveRecordV5
