import Briefr.Library.Dict
import Briefr.Library.JsonAscii
import Briefr.Routers.CveFeed
import Mathlib.Data.Finset.Card

namespace Briefr.Investigations

open Briefr.Python Briefr.Library Briefr.Library.StableSort Briefr.Routers.CveFeed

inductive EntityType
  | cve
  | ioc
  | technique
  | campaign
  | sigmaRule
  | publication
  deriving DecidableEq

def EntityType.value : EntityType → Text
  | .cve => "cve".toList
  | .ioc => "ioc".toList
  | .technique => "technique".toList
  | .campaign => "campaign".toList
  | .sigmaRule => "sigma_rule".toList
  | .publication => "publication".toList

inductive EdgeClass
  | directFact
  | reported
  | derived
  | analystAssertion
  | semantic
  deriving DecidableEq

def EdgeClass.value : EdgeClass → Text
  | .directFact => "direct_fact".toList
  | .reported => "reported".toList
  | .derived => "derived".toList
  | .analystAssertion => "analyst_assertion".toList
  | .semantic => "semantic".toList

inductive KnowledgeState
  | known
  | partialState
  | unknown
  | stale
  deriving DecidableEq

inductive SourceStatus
  | ok
  | degraded
  deriving DecidableEq

structure EntityRef where
  entityType : EntityType
  entityId : Text
  label : Text
  deriving DecidableEq

structure GraphNode where
  nodeId : Text
  entityType : EntityType
  entityId : Text
  label : Text
  knowledgeState : KnowledgeState
  deriving DecidableEq

structure GraphEdge where
  edgeId : Text
  sourceNodeId : Text
  targetNodeId : Text
  edgeClass : EdgeClass
  sourceKey : Text
  confidence : Option Text
  observedAt : Option Text
  fetchedAt : Option Text
  deriving DecidableEq

structure CandidateEdge where
  edge : GraphEdge
  target : GraphNode
  deriving DecidableEq

structure RelationshipFilters where
  depth : ℕ
  limit : ℕ
  cursor : Option Text
  edgeClass : Option EdgeClass
  minConfidence : Option Text
  includeSemantic : Bool
  depth_bounds : 1 ≤ depth ∧ depth ≤ 2
  limit_bounds : 1 ≤ limit ∧ limit ≤ 100

structure GraphPage where
  root : GraphNode
  nodes : List GraphNode
  edges : List GraphEdge
  sourceStatus : SourceStatus
  knowledgeState : KnowledgeState
  truncated : Bool
  nextCursor : Option Text
  depth : ℕ

def makeNodeId (entityType : EntityType) (entityId : Text) : Text := entityType.value ++ ':' :: entityId

def makeEdgeId (sourceNodeId targetNodeId : Text) (edgeClass : EdgeClass) (sourceKey : Text) : Text :=
  sourceNodeId ++ '|' :: targetNodeId ++ '|' :: edgeClass.value ++ '|' :: sourceKey

def nodeFromRef (ref : EntityRef) (knowledgeState : KnowledgeState) : GraphNode where
  nodeId := makeNodeId ref.entityType ref.entityId
  entityType := ref.entityType
  entityId := ref.entityId
  label := ref.label
  knowledgeState := knowledgeState

/-- The arguments of `_candidate_edge`, with the texts as `_optional_str` and `_optional_db_timestamp` leave them. -/
structure HopRow where
  targetRef : EntityRef
  edgeClass : EdgeClass
  sourceKey : Text
  confidence : Option Text := none
  observedAt : Option Text := none
  fetchedAt : Option Text := none

def candidateEdge (sourceNodeId : Text) (row : HopRow) : CandidateEdge :=
  let targetNode := nodeFromRef row.targetRef .known
  { edge := {
      edgeId := makeEdgeId sourceNodeId targetNode.nodeId row.edgeClass row.sourceKey
      sourceNodeId := sourceNodeId, targetNodeId := targetNode.nodeId, edgeClass := row.edgeClass
      sourceKey := row.sourceKey, confidence := row.confidence, observedAt := row.observedAt
      fetchedAt := row.fetchedAt }
    target := targetNode }

/-- Why an expansion raises. -/
inductive Failure
  | database
  | malformedIoc
  | unsupportedEntityType
  | cursorType
  deriving DecidableEq

/-- What the hops find in a database: for the id of an entity, the edges in the order in which they are built, and
whether a query failed and was skipped. The hop of a CVE also reads `limit` and `include_semantic`. -/
structure Db where
  cveRows : Text → ℕ → Bool → Except Failure (List HopRow × Bool)
  iocRows : Text → Except Failure (List HopRow × Bool)
  techniqueRows : Text → Except Failure (List HopRow)
  campaignRows : Text → Except Failure (List HopRow)
  publicationRows : Text → Except Failure (List HopRow)

def dedupeCandidates (candidates : List CandidateEdge) : List CandidateEdge :=
  candidates.foldl (fun out c ↦ if c.edge.edgeId ∈ out.map (·.edge.edgeId) then out else out ++ [c]) []

def hopRows (db : Db) (entity : EntityRef) (filters : RelationshipFilters) : Except Failure (List HopRow × Bool) :=
  match entity.entityType with
  | .cve => db.cveRows entity.entityId filters.limit filters.includeSemantic
  | .ioc => db.iocRows entity.entityId
  | .technique => (db.techniqueRows entity.entityId).map fun rows ↦ (rows, false)
  | .campaign => (db.campaignRows entity.entityId).map fun rows ↦ (rows, false)
  | .publication => (db.publicationRows entity.entityId).map fun rows ↦ (rows, false)
  | .sigmaRule => .error .unsupportedEntityType

def edgesForEntity (db : Db) (entity : EntityRef) (filters : RelationshipFilters) :
    Except Failure (List CandidateEdge × Bool) :=
  (hopRows db entity filters).map fun r ↦
    (dedupeCandidates (r.1.map (candidateEdge (makeNodeId entity.entityType entity.entityId))), r.2)

def maxFrontier : ℕ := 25

def maxCandidates : ℕ := 2000

/-- The variables of the expansion; `seen_edges` holds the ids of the candidates. -/
structure Expansion where
  nodesById : Dict Text GraphNode
  candidates : List CandidateEdge
  nextFrontier : List EntityRef
  degraded : Bool
  isPartial : Bool

def visit (deeper : Bool) (st : Expansion) (c : CandidateEdge) : Expansion :=
  if c.edge.edgeId ∈ st.candidates.map (·.edge.edgeId) then st
  else if c.target.nodeId ∈ st.nodesById.keys then { st with candidates := st.candidates ++ [c] }
  else
    { st with
      candidates := st.candidates ++ [c]
      nodesById := st.nodesById.set c.target.nodeId c.target
      nextFrontier :=
        if deeper && st.nextFrontier.length < maxFrontier then
          st.nextFrontier ++ [⟨c.target.entityType, c.target.entityId, c.target.label⟩]
        else st.nextFrontier }

def visitFrontier (db : Db) (filters : RelationshipFilters) (deeper : Bool) :
    List EntityRef → Expansion → Except Failure Expansion
  | [], st => .ok st
  | entity :: frontier, st => do
    let (hopEdges, degraded) ← edgesForEntity db entity filters
    let st := hopEdges.foldl (visit deeper) { st with degraded := st.degraded || degraded }
    if maxCandidates ≤ st.candidates.length then
      .ok { st with degraded := true, isPartial := true, nextFrontier := [] }
    else visitFrontier db filters deeper frontier st

/-- The levels that remain, from the one whose frontier is given. -/
def expandLevels (db : Db) (filters : RelationshipFilters) : ℕ → List EntityRef → Expansion → Except Failure Expansion
  | 0, _, st => .ok st
  | n + 1, frontier, st => do
    let st ← visitFrontier db filters (decide (0 < n)) frontier { st with nextFrontier := [] }
    let next := sortBy (fun item ↦ toLex (item.entityType.value, item.entityId)) st.nextFrontier
    expandLevels db filters n (next.take maxFrontier) st

def startExpansion (root : EntityRef) : Expansion where
  nodesById := Dict.empty.set (makeNodeId root.entityType root.entityId) (nodeFromRef root .known)
  candidates := []
  nextFrontier := []
  degraded := false
  isPartial := false

def expand (db : Db) (root : EntityRef) (filters : RelationshipFilters) : Except Failure Expansion :=
  expandLevels db filters filters.depth [root] (startExpansion root)

def passes (filters : RelationshipFilters) (c : CandidateEdge) : Bool :=
  filters.edgeClass.all (fun edgeClass ↦ c.edge.edgeClass = edgeClass) &&
    filters.minConfidence.all fun least ↦ c.edge.confidence.any fun confidence ↦ !decide (confidence < least)

def applyEdgeFilters (candidates : List CandidateEdge) (filters : RelationshipFilters) : List CandidateEdge :=
  candidates.filter (passes filters)

def cursorKey : Text := "after_edge_id".toList

/-- `_encode_cursor({"after_edge_id": edge_id})`. -/
def encodeCursor (edgeId : Text) : Text := Base64.encode (utf8 (JsonAscii.printMember cursorKey edgeId))

/-- The endpoints of an edge. -/
def endpoints (c : CandidateEdge) : Finset Text := {c.edge.sourceNodeId, c.edge.targetNodeId}

/-- The loop over the candidates after the cursor, and whether it stopped before their end. -/
def selectEdges (limit : ℕ) : List CandidateEdge → List CandidateEdge → Finset Text → List CandidateEdge × Bool
  | [], selected, _ => (selected, false)
  | c :: candidates, selected, nodeIds =>
    if limit ≤ selected.length then (selected, true)
    else if limit + 1 < (nodeIds ∪ endpoints c).card then (selected, true)
    else selectEdges limit candidates (selected ++ [c]) (nodeIds ∪ endpoints c)

structure Selection where
  edges : List CandidateEdge
  truncated : Bool
  nextCursor : Option Text

/-- `_paginate_candidates` on the candidates after the cursor. -/
def selection (filters : RelationshipFilters) (after : List CandidateEdge) : Selection :=
  let r := selectEdges filters.limit after [] ∅
  let truncated := r.2 || decide (r.1.length < after.length)
  { edges := r.1
    truncated := truncated
    nextCursor :=
      if truncated && !r.1.isEmpty then r.1.getLast?.map fun last ↦ encodeCursor last.edge.edgeId
      else if truncated && r.1.isEmpty && !after.isEmpty then filters.cursor
      else none }

section
variable [Interp]

/-- `_decode_cursor(cursor).get("after_edge_id")`. -/
def decodeCursor (cursor : Text) : Value :=
  if cursor.all fun c ↦ decide (c.toNat < 128) then
    match (Base64.decode cursor).bind fromUtf8 with
    | some raw =>
      match loads raw with
      | some (.dict fields) => (fields.lookup cursorKey).getD .none
      | _ => .none
    | none => .none
  else .none

/-- The candidates from `start_index` on. -/
def afterCursor (cursor : Option Text) (candidates : List CandidateEdge) : Except Failure (List CandidateEdge) :=
  let afterEdgeId := if cursor.getD [] = [] then .none else decodeCursor (cursor.getD [])
  if afterEdgeId.truthy then
    match afterEdgeId with
    | .str edgeId => .ok (candidates.dropWhile fun c ↦ !decide (edgeId < c.edge.edgeId))
    | _ => if candidates = [] then .ok [] else .error .cursorType
  else .ok candidates

def paginateCandidates (candidates : List CandidateEdge) (filters : RelationshipFilters) : Except Failure Selection :=
  (afterCursor filters.cursor candidates).map (selection filters)

/-- The candidates that pass the filters, in the order of their ids. -/
def filteredCandidates (st : Expansion) (filters : RelationshipFilters) : List CandidateEdge :=
  applyEdgeFilters (sortBy (fun c ↦ c.edge.edgeId) st.candidates) filters

def addNode (nodesById pageNodes : Dict Text GraphNode) (nodeId : Text) : Dict Text GraphNode :=
  match nodesById.get? nodeId with
  | some node => pageNodes.set nodeId node
  | none => pageNodes

/-- `page_nodes`: the root, and the endpoints of the edges. -/
def pageNodes (nodesById : Dict Text GraphNode) (root : GraphNode) (edges : List CandidateEdge) : Dict Text GraphNode :=
  (edges.flatMap fun c ↦ [c.edge.sourceNodeId, c.edge.targetNodeId]).foldl (addNode nodesById)
    (Dict.empty.set root.nodeId root)

def expandRelationships (db : Db) (root : EntityRef) (filters : RelationshipFilters) : Except Failure GraphPage := do
  let rootNode := nodeFromRef root .known
  let st ← expand db root filters
  let page ← paginateCandidates (filteredCandidates st filters) filters
  return {
    root := rootNode
    nodes := (pageNodes st.nodesById rootNode page.edges).items.map Prod.snd
    edges := page.edges.map CandidateEdge.edge
    sourceStatus := if st.degraded then .degraded else .ok
    knowledgeState := if st.isPartial || page.truncated || st.degraded then .partialState else .known
    truncated := page.truncated
    nextCursor := page.nextCursor
    depth := filters.depth }

end

end Briefr.Investigations
