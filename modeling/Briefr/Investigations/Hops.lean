import Briefr.Correlation.IocNormalize
import Briefr.Investigations.Expansion
import Briefr.Python.Digits
import Briefr.Python.Loop

namespace Briefr.Investigations

open Briefr.Python Briefr.Python.Urllib Briefr.Library Briefr.Library.StableSort Briefr.Routers.CveFeed
open Briefr.Blocklist Briefr.Correlation.IocNormalize

structure TechniqueRow where
  techniqueId : Option Text
  name : Option Text

structure OtxRow where
  iocType : Option Text
  iocValue : Option Text
  observedAt : Option Text
  fetchedAt : Option Text

/-- A row of the mirror, without the columns that the graph does not read; the level as `str` writes it. -/
structure MirrorRow where
  source : Option Text
  confidenceLevel : Option Text
  firstSeen : Option Text

structure CampaignRow where
  campaignId : Option Text
  label : Option Text

structure SigmaRow where
  title : Option Text
  repoPath : Option Text
  updatedAt : Option Text
  matchBasis : Option Text

structure PublicationRow where
  publicationId : ℤ
  title : Text
  sourceKey : Text
  retrievedAt : Option Text

/-- The key of an edge in the answer of `batch_source_evidence` is a pair of a type and a value. -/
abbrev EdgeKey := Text × Text

/-- The answers of a database, or none where a query raises. The queries for similar CVEs write the similarity with
four digits, and answer with no rows where embeddings are off. -/
structure Queries where
  techniques : Text → Option (List TechniqueRow)
  otxIocs : Text → Option (List OtxRow)
  sourceEvidence : List EdgeKey → Option (List (EdgeKey × List MirrorRow))
  campaigns : Text → Option (List CampaignRow)
  sigmaRules : Text → Option (List SigmaRow)
  relatedCves : Text → ℕ → Option (List Text)
  publications : Text → Option (List PublicationRow)
  similarCves : Text → ℕ → Option (List (Text × Text))
  cvesOfIoc : Text → Text → Option (List (Text × Option Text))
  mirrorIocs : Text → Text → Option Bool
  cvesOfTechnique : Text → Option (List Text)
  cvesOfCampaign : Text → Option (List Text)
  cvesOfPublication : ℤ → Option (List (Text × Option Text))

/-- The rows of a query that is guarded, and whether it was skipped. -/
def guarded {α : Type} (answer : Option (List α)) : List α × Bool := (answer.getD [], answer.isNone)

/-- The rows of a query that is not guarded. -/
def unguarded {α : Type} (answer : Option α) : Except Failure α :=
  match answer with
  | some rows => .ok rows
  | none => .error .database

/-- What `normalize_ioc` raises goes through. -/
def raising {α : Type} (x : Py α) : Except Failure α :=
  match x with
  | .ok a => .ok a
  | .error _ => .error .malformedIoc

def str (n : ℤ) : Text :=
  if n < 0 then '-' :: Nat.toDigits 10 n.natAbs else Nat.toDigits 10 n.natAbs

def cveRef (cveId : Text) : EntityRef := ⟨.cve, cveId, cveId⟩

section
variable [Interp]

def optionalStr (value : Option Text) : Option Text :=
  match value with
  | none => none
  | some text => if strip text = [] then none else some (strip text)

/-- `int` of a text; more than 4300 digits raise like a text that is no number. -/
def int (text : Text) : Option ℤ :=
  let text := strip text
  let digits := if text.head? = some '-' ∨ text.head? = some '+' then text.tail else text
  let bare := digits.filter (· ≠ '_')
  if (digits.splitOn '_').all (fun part ↦ decide (part ≠ []) && part.all isDecimal) ∧ bare.length ≤ 4300 then
    some (if text.head? = some '-' then -(digitsValue bare : ℤ) else digitsValue bare)
  else none

/-- A match of `^CVE-\d{4}-\d{4,}$`, in any case. -/
def isValidCveId (value : Text) : Bool :=
  let v := strip value
  decide ((v.take 4).map Char.toLower = "cve-".toList) && ((v.drop 4).take 4).all isDecimal &&
    (decide (v[8]? = some '-') && (v.drop 9).all isDecimal && decide (13 ≤ v.length))

/-- A match of `^T\d{4}(?:\.\d{3})?$`, in any case. -/
def isValidTechniqueId (value : Text) : Bool :=
  let v := strip value
  decide (v.head?.map Char.toLower = some 't') && ((v.drop 1).take 4).all isDecimal &&
    (decide (v.length = 5) || decide (v.length = 9) && decide (v[5]? = some '.') && (v.drop 6).all isDecimal)

def mirrorIocType (canonType : Text) : Option Text :=
  let t := upper canonType
  if t = "IP".toList then some "ip".toList
  else if t = "HASH".toList then some "hash".toList
  else if t = "DOMAIN".toList then some "domain".toList
  else if t = "URL".toList then some "url".toList
  else none

def techniqueHop (row : TechniqueRow) : Option HopRow :=
  match optionalStr row.techniqueId with
  | none => none
  | some techniqueId =>
    if isValidTechniqueId techniqueId then
      some {
        targetRef := ⟨.technique, techniqueId, (optionalStr row.name).getD techniqueId⟩
        edgeClass := .directFact, sourceKey := "cve_technique_map".toList }
    else none

def campaignHop (row : CampaignRow) : Option HopRow :=
  (optionalStr row.campaignId).map fun campaignId ↦
    { targetRef := ⟨.campaign, campaignId, (optionalStr row.label).getD campaignId⟩
      edgeClass := .derived, sourceKey := "correlation".toList }

def sigmaHop (row : SigmaRow) : Option HopRow :=
  (optionalStr row.repoPath).map fun repoPath ↦
    { targetRef := ⟨.sigmaRule, repoPath, (optionalStr row.title).getD repoPath⟩
      edgeClass := if row.matchBasis.getD [] = "cve_exact".toList then .directFact else .reported
      sourceKey := "sigmahq".toList, fetchedAt := optionalStr row.updatedAt }

def relatedHop (relatedId : Text) : HopRow :=
  { targetRef := cveRef relatedId, edgeClass := .derived, sourceKey := "related_cve_heuristic".toList }

def publicationHop (row : PublicationRow) : HopRow :=
  let pubId := str row.publicationId
  { targetRef := ⟨.publication, pubId, if row.title = [] then "publication:".toList ++ pubId else row.title⟩
    edgeClass := .reported, sourceKey := "publication:".toList ++ row.sourceKey
    fetchedAt := optionalStr row.retrievedAt }

def similarHop (item : Text × Text) : HopRow :=
  { targetRef := cveRef item.1, edgeClass := .semantic, sourceKey := "embeddings".toList
    confidence := optionalStr (some item.2) }

def mirrorHop (target : EntityRef) (sourceKey : Text) (mirror : MirrorRow) : HopRow :=
  { targetRef := target, edgeClass := .reported, sourceKey := sourceKey
    confidence := optionalStr mirror.confidenceLevel, observedAt := optionalStr mirror.firstSeen }

def tiMirror : Text := "ti_mirror".toList

end

section
variable [Casing] [Netlocs] [IpAddresses]

def cveRefFromOtxIndicator (iocType iocValue anchorCveId : Text) : Py (Option EntityRef) := do
  match ← normalizeIoc iocType iocValue with
  | none => pure none
  | some normalized =>
    if normalized.type ≠ "CVE".toList ∨ isValidCveId normalized.value = false then pure none
    else
      let relatedId := upper normalized.value
      if relatedId = upper anchorCveId then pure none else pure (some (cveRef relatedId))

def iocRefFromRow (iocType iocValue : Text) : Py (Option EntityRef) := do
  match ← normalizeIoc iocType iocValue with
  | none => pure none
  | some normalized =>
    pure ((mirrorIocType normalized.type).map fun kind ↦ ⟨.ioc, kind ++ ':' :: normalized.value, normalized.value⟩)

/-- The edge of a row of OTX, and the pair that is looked up in the mirror. -/
def otxHop (cveId : Text) (row : OtxRow) : Py (List HopRow × List EdgeKey) := do
  let iocType := row.iocType.getD []
  let iocValue := row.iocValue.getD []
  let hop := fun target : EntityRef ↦
    { targetRef := target, edgeClass := .reported, sourceKey := "otx".toList
      observedAt := optionalStr row.observedAt, fetchedAt := optionalStr row.fetchedAt : HopRow }
  match ← cveRefFromOtxIndicator iocType iocValue cveId with
  | some target => pure ([hop target], [])
  | none =>
    match ← iocRefFromRow iocType iocValue with
    | none => pure ([], [])
    | some target => pure ([hop target], [(iocType, iocValue)])

/-- The edges of the mirror's rows under a key. -/
def evidenceHop (hit : EdgeKey × List MirrorRow) : Py (List HopRow) := do
  match ← iocRefFromRow hit.1.1 hit.1.2 with
  | none => pure []
  | some target => pure (hit.2.map fun mirror ↦ mirrorHop target ((optionalStr mirror.source).getD tiMirror) mirror)

def cveEdges (q : Queries) (entityId : Text) (limit : ℕ) (includeSemantic : Bool) :
    Except Failure (List HopRow × Bool) := do
  let cveId := upper entityId
  let techniqueRows := guarded (q.techniques cveId)
  let otxRows := guarded (q.otxIocs cveId)
  let otx ← raising (otxRows.1.mapM (otxHop cveId))
  let mirrorHits := guarded (q.sourceEvidence (otx.flatMap Prod.snd))
  let evidence ← raising (mirrorHits.1.mapM evidenceHop)
  let campaignRows := guarded (q.campaigns cveId)
  let sigmaRows := guarded (q.sigmaRules cveId)
  let related := guarded (q.relatedCves cveId limit)
  let publicationRows := guarded (q.publications cveId)
  let similar := if includeSemantic then guarded (q.similarCves cveId limit) else ([], false)
  pure (techniqueRows.1.filterMap techniqueHop ++ otx.flatMap Prod.fst ++ evidence.flatten ++
      campaignRows.1.filterMap campaignHop ++ sigmaRows.1.filterMap sigmaHop ++ related.1.map relatedHop ++
      publicationRows.1.map publicationHop ++ similar.1.map similarHop,
    techniqueRows.2 || otxRows.2 || mirrorHits.2 || campaignRows.2 || sigmaRows.2 || related.2 || publicationRows.2 ||
      similar.2)

def mirrorIocExists (q : Queries) (canonType canonValue : Text) : Except Failure Bool :=
  match mirrorIocType canonType with
  | none => .ok false
  | some mirrorType => unguarded (q.mirrorIocs mirrorType canonValue)

def iocEdges (q : Queries) (entityId : Text) : Except Failure (List HopRow × Bool) := do
  match ← raising (normalizeIoc (upper (cut ':' entityId).1) (cut ':' entityId).2) with
  | none => pure ([], false)
  | some normalized =>
    let rows ← unguarded (q.cvesOfIoc normalized.type normalized.value)
    let edges := rows.map fun row ↦
      { targetRef := cveRef row.1, edgeClass := .reported, sourceKey := "otx".toList
        fetchedAt := optionalStr row.2 : HopRow }
    let mirrorHits ← unguarded (q.sourceEvidence [(normalized.type, normalized.value)])
    let mirrorRows := mirrorHits.flatMap Prod.snd
    if edges ≠ [] then
      pure (edges ++ rows.flatMap (fun row ↦ mirrorRows.map fun mirror ↦
        mirrorHop (cveRef row.1) (if mirror.source.getD [] = [] then tiMirror else mirror.source.getD []) mirror), false)
    else
      let degraded ← mirrorIocExists q normalized.type normalized.value
      pure ([], degraded)

def techniqueEdges (q : Queries) (entityId : Text) : Except Failure (List HopRow) :=
  (unguarded (q.cvesOfTechnique (upper entityId))).map fun rows ↦ rows.map fun cveId ↦
    { targetRef := cveRef cveId, edgeClass := .directFact, sourceKey := "cve_technique_map".toList }

def campaignEdges (q : Queries) (entityId : Text) : Except Failure (List HopRow) :=
  (unguarded (q.cvesOfCampaign entityId)).map fun rows ↦ rows.map fun cveId ↦
    { targetRef := cveRef cveId, edgeClass := .derived, sourceKey := "correlation".toList }

def publicationEdges (q : Queries) (entityId : Text) : Except Failure (List HopRow) :=
  match int entityId with
  | none => .ok []
  | some pubId =>
    (unguarded (q.cvesOfPublication pubId)).map fun rows ↦ rows.map fun row ↦
      { targetRef := cveRef row.1, edgeClass := .reported, sourceKey := "publication_entity_link".toList
        fetchedAt := optionalStr row.2 }

/-- The hops of the projection over a database. -/
def hopsOf (q : Queries) : Db where
  cveRows := cveEdges q
  iocRows := iocEdges q
  techniqueRows := techniqueEdges q
  campaignRows := campaignEdges q
  publicationRows := publicationEdges q

end

end Briefr.Investigations
