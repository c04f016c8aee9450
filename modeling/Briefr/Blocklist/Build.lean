import Briefr.Blocklist.Classify

namespace Briefr.Blocklist

open Briefr.Python Briefr.Library Briefr.Library.StableSort

/-- A row of the catalog query or of the OTX query; what the query does not select is missing. -/
structure Row where
  source : Option Text := none
  refId : Option Text := none
  iocType : Option Text := none
  iocValue : Option Text := none
  rawIoc : Option Text := none
  hostIoc : Option Text := none
  malware : Option Text := none
  threatType : Option Text := none
  confidenceLevel : Option ℤ := none
  firstSeen : Option Text := none
  observedAt : Option Text := none
  fetchedAt : Option Text := none
  pulseId : Option Text := none
  description : Option Text := none

structure Evidence where
  source : Text
  refId : Text
  iocType : Text
  iocValue : Text
  rawIoc : Text
  hostIoc : Text
  malware : Text
  threatType : Text
  confidenceLevel : ℤ
  firstSeen : Text
  fetchedAt : Text
  pulseId : Text
  description : Text
deriving DecidableEq

def evidenceRow (row : Row) : Evidence where
  source := orElse row.source (if orEmpty row.pulseId = [] then [] else "otx".toList)
  refId := orEmpty row.refId
  iocType := orEmpty row.iocType
  iocValue := orEmpty row.iocValue
  rawIoc := orEmpty row.rawIoc
  hostIoc := orEmpty row.hostIoc
  malware := orEmpty row.malware
  threatType := orEmpty row.threatType
  confidenceLevel := row.confidenceLevel.getD 0
  firstSeen := orElse row.firstSeen (orEmpty row.observedAt)
  fetchedAt := orEmpty row.fetchedAt
  pulseId := orEmpty row.pulseId
  description := orEmpty row.description

/-- The tuple of strings that orders evidence. -/
def evidenceSortKey (e : Evidence) : List Text := [e.source, e.refId, e.pulseId, e.firstSeen, e.fetchedAt]

def sortedEvidence (evidence : List Evidence) : List Evidence := sortBy evidenceSortKey evidence

def given (values : List Text) : List Text := values.filter (· ≠ [])

def earliestObservedAt (evidence : List Evidence) : Text :=
  (given ((sortedEvidence evidence).map Evidence.firstSeen)).min?.getD []

def candidateSortKey (e : Evidence) : List Text := [e.iocType, e.source, e.refId, e.rawIoc]

inductive Level
  | low
  | medium
  | high
deriving DecidableEq

def Level.index : Level → ℕ
  | low => 0
  | medium => 1
  | high => 2

def Level.text : Level → Text
  | low => "low".toList
  | medium => "medium".toList
  | high => "high".toList

def minOtxConfidence : Level := .medium

/-- A row of `ti_mirror_iocs` as `batch_source_evidence` returns it. -/
structure MirrorRow where
  source : Option Text
  refId : Option Text
  confidenceLevel : Option ℤ

def corroborationReceipt (sourceKey refId : Text) : Text := sourceKey ++ ':' :: refId

def catalogReceipts (rows : List MirrorRow) : List Text :=
  (rows.map fun row ↦ corroborationReceipt (orEmpty row.source) (orEmpty row.refId)).eraseDups

def upstreamConfidence (levels : List ℤ) : ℤ := levels.max?.getD 0

def upstreamLevel (confidenceLevel : ℤ) : Level :=
  if 80 ≤ confidenceLevel then .high else if 50 ≤ confidenceLevel then .medium else .low

/-- `confidence_for_ioc_edge` for a domain, which reads the clock, and `batch_source_evidence` for domain edges, which
reads the mirror: the rows it found for each lower-cased domain. -/
structure Services (Factor : Type) where
  confidenceForIocEdge : (corroboratedBy : List Text) → (observedAt ingestedAt : Text) → Level × List Factor
  batchSourceEvidence : (domains : List Text) → (suppressHostLevel : Finset Text) → Text → List MirrorRow

structure Record (Factor : Type) where
  domain : Text
  iocType : IocType
  exactIoc : Text
  eligible : Bool
  eligibleDomain : Bool
  eligibleUrl : Bool
  reason : Text
  classification : Classification
  classificationEnabled : Bool
  sources : List Text
  corroboratingSources : List Text
  otxCorroborated : Bool
  evidence : List Evidence
  confidenceLevel : ℤ
  confidence : Level
  confidenceFactors : List Factor
  malware : List Text
  threatType : List Text
  firstSeen : Text
  fetchedAt : Text

/-- What the five exits of the candidate loop pass on alike. -/
structure Candidate where
  domain : Text
  classified : Classified
  sources : List Text
  malware : List Text
  threatType : List Text
  firstSeen : Text
  fetchedAt : Text
  iocType : IocType
  exactIoc : Text
  evidence : List Evidence

variable {Factor : Type}

/-- The flags are computed unless the caller passes them. -/
def candidateRecord (c : Candidate) (eligible : Bool) (reason : Text) (confidenceLevel : ℤ) (confidence : Level)
    (corroboratingSources : List Text) (otxCorroborated : Bool) (confidenceFactors : List Factor)
    (flags : Option (Bool × Bool)) : Record Factor where
  domain := c.domain
  iocType := c.iocType
  exactIoc := c.exactIoc
  eligible := eligible
  eligibleDomain := (flags.getD (exportEligibility eligible c.classified c.iocType)).1
  eligibleUrl := (flags.getD (exportEligibility eligible c.classified c.iocType)).2
  reason := reason
  classification := c.classified.classification
  classificationEnabled := c.classified.enabled
  sources := c.sources
  corroboratingSources := corroboratingSources
  otxCorroborated := otxCorroborated
  evidence := c.evidence
  confidenceLevel := confidenceLevel
  confidence := confidence
  confidenceFactors := confidenceFactors
  malware := c.malware
  threatType := c.threatType
  firstSeen := c.firstSeen
  fetchedAt := c.fetchedAt

/-- The list that a candidate's record is appended to. -/
inductive Outcome (Factor : Type)
  | domains (record : Record Factor)
  | excluded (record : Record Factor)

structure Meta where
  generatedAt : Text
  candidateCount : ℕ
  eligibleCount : ℕ
  eligibleDomainCount : ℕ
  eligibleUrlCount : ℕ
  excludedCount : ℕ

structure Payload (Factor : Type) where
  info : Meta
  domains : List (Record Factor)
  excluded : List (Record Factor)

/-- What the three queries return. -/
structure Inputs where
  infraRows : List InfraRow
  catalogRows : List Row
  otxRows : List Row

section
variable [Interp]

def iocTypeFor (iocType rawIoc : Text) : IocType :=
  if lower (strip iocType) = "url".toList || isIn "://".toList rawIoc then .url else .domain

def Evidence.isUrl (e : Evidence) : Bool := iocTypeFor e.iocType e.rawIoc = .url

def Evidence.exact (e : Evidence) : Text := if strip e.rawIoc = [] then strip e.iocValue else strip e.rawIoc

def candidateIoc (evidence : List Evidence) : IocType × Text :=
  let sorted := sortBy candidateSortKey evidence
  match sorted.find? Evidence.isUrl with
  | some urlRow => (.url, urlRow.exact)
  | none =>
    match sorted with
    | [] => (.domain, [])
    | primary :: _ => (.domain, primary.exact)

def normalizeIocType (iocType : Text) : Text :=
  let t := upper (strip iocType)
  if t ∈ ["IP".toList, "IPV4".toList, "IPV6".toList] then "IP".toList
  else if t ∈ ["DOMAIN".toList, "HOSTNAME".toList] then "DOMAIN".toList
  else if t ∈ ["URL".toList, "URI".toList] then "URL".toList
  else if t ∈ ["FILE".toList, "HASH".toList, "MD5".toList, "SHA1".toList, "SHA256".toList, "SHA512".toList] then
    "HASH".toList
  else if t = [] then "UNKNOWN".toList
  else t

variable [Urls]

def urlRowHost (row : Row) : Text :=
  let host := strip (orEmpty row.hostIoc)
  canonicalHost (if host = [] then urlHost (orEmpty row.iocValue) else host)

def candidateDomainForRow (row : Row) : Text :=
  if lower (strip (orEmpty row.iocType)) = "url".toList then urlRowHost row else canonicalHost (orEmpty row.iocValue)

def otxDomainForRow (row : Row) : Text :=
  if normalizeIocType (orEmpty row.iocType) = "URL".toList then urlRowHost row else canonicalHost (orEmpty row.iocValue)

/-- The evidence of rows by domain; a domain without a dot is no candidate. -/
def byDomain (domainOf : Row → Text) (rows : List Row) : Dict Text (List Evidence) :=
  Dict.groups ((rows.filter fun row ↦ '.' ∈ domainOf row).map fun row ↦ (domainOf row, evidenceRow row))

namespace Inputs

def catalogByDomain (i : Inputs) : Dict Text (List Evidence) := byDomain candidateDomainForRow i.catalogRows

def otxByDomain (i : Inputs) : Dict Text (List Evidence) := byDomain otxDomainForRow i.otxRows

def catalogEv (i : Inputs) (domain : Text) : List Evidence := (i.catalogByDomain.get? domain).getD []

def otxEv (i : Inputs) (domain : Text) : List Evidence := (i.otxByDomain.get? domain).getD []

def allCandidateDomains (i : Inputs) : List Text := sortedSet (i.catalogByDomain.keys ++ i.otxByDomain.keys)

def corroboratingRows (i : Inputs) (svc : Services Factor) (domain : Text) : List MirrorRow :=
  svc.batchSourceEvidence (sortedSet i.otxByDomain.keys) (excludedHosts i.infraRows) (lower domain)

def candidate (i : Inputs) (generatedAt domain : Text) : Candidate :=
  let evidence := sortedEvidence (i.catalogEv domain ++ i.otxEv domain)
  { domain
    classified := classifyHost domain (classificationIndex i.infraRows)
    sources := sortedSet (given (evidence.map Evidence.source))
    malware := sortedSet (given (evidence.map Evidence.malware))
    threatType := sortedSet (given (evidence.map Evidence.threatType))
    firstSeen := (given (evidence.map Evidence.firstSeen)).min?.getD generatedAt
    fetchedAt := (given (evidence.map Evidence.fetchedAt)).max?.getD generatedAt
    iocType := (candidateIoc evidence).1
    exactIoc := (candidateIoc evidence).2
    evidence }

end Inputs

/-- The body of the candidate loop. -/
def outcome (svc : Services Factor) (c : Candidate) (catalogEv otxEv : List Evidence) (corroboratingRows : List MirrorRow) :
    Outcome Factor :=
  let upstream := upstreamConfidence (catalogEv.map Evidence.confidenceLevel)
  if isExcludedFromDomainExport c.classified && decide (c.iocType ≠ .url) then
    .excluded (candidateRecord c false ("Infrastructure classification: ".toList ++ c.classified.classification.text)
      upstream (upstreamLevel upstream) [] false [] (some (false, false)))
  else
    let receipts := catalogReceipts corroboratingRows
    let corroboratingSources := sortedSet ((receipts.filter (':' ∈ ·)).map fun receipt ↦ receipt.takeWhile (· != ':'))
    let otxCorroborated := !corroboratingRows.isEmpty
    let edge := svc.confidenceForIocEdge receipts (earliestObservedAt otxEv) c.fetchedAt
    if !catalogEv.isEmpty then
      let (confidence, factors) := if !otxEv.isEmpty && otxCorroborated then edge else (upstreamLevel upstream, [])
      .domains (candidateRecord c true "Catalog source evidence (ThreatFox/URLhaus/PhishTank)".toList
        upstream confidence (if otxEv.isEmpty then [] else corroboratingSources) otxCorroborated factors none)
    else if !otxCorroborated then
      .excluded (candidateRecord c false "OTX-only candidate without catalog corroboration".toList
        0 .low [] false [] none)
    else
      let (level, factors) := edge
      if level.index < minOtxConfidence.index then
        .excluded (candidateRecord c false
          ("OTX-only candidate below BRIEFR medium confidence (".toList ++ level.text ++ ")".toList)
          upstream level corroboratingSources true factors none)
      else
        .domains (candidateRecord c true "Catalog corroboration of OTX candidate".toList
          (upstreamConfidence (corroboratingRows.map fun row ↦ row.confidenceLevel.getD 0)) level
          corroboratingSources true factors none)

def Outcome.listed? : Outcome Factor → Option (Record Factor)
  | .domains record => some record
  | .excluded _ => none

def Outcome.excluded? : Outcome Factor → Option (Record Factor)
  | .domains _ => none
  | .excluded record => some record

def Inputs.outcomeOf (i : Inputs) (svc : Services Factor) (generatedAt domain : Text) : Outcome Factor :=
  outcome svc (i.candidate generatedAt domain) (i.catalogEv domain) (i.otxEv domain) (i.corroboratingRows svc domain)

def Inputs.outcomes (i : Inputs) (svc : Services Factor) (generatedAt : Text) : List (Outcome Factor) :=
  i.allCandidateDomains.map (i.outcomeOf svc generatedAt)

def buildBlocklist (svc : Services Factor) (generatedAt : Text) (i : Inputs) : Payload Factor :=
  let domains := sortBy Record.domain ((i.outcomes svc generatedAt).filterMap Outcome.listed?)
  let excluded := sortBy Record.domain ((i.outcomes svc generatedAt).filterMap Outcome.excluded?)
  { info :=
      { generatedAt
        candidateCount := i.allCandidateDomains.length
        eligibleCount := domains.length
        eligibleDomainCount := domains.countP Record.eligibleDomain
        eligibleUrlCount := domains.countP Record.eligibleUrl
        excludedCount := excluded.length }
    domains
    excluded }

end

end Briefr.Blocklist
