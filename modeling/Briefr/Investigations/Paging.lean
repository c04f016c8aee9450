import Briefr.Investigations.Expansion

namespace Briefr.Investigations

open Briefr.Python Briefr.Library Briefr.Library.StableSort Briefr.Routers.CveFeed

/-- Endpoints of the edges stay within a set of `limit + 1`. -/
def Spans (limit : ℕ) (edges : List CandidateEdge) : Prop :=
  edges.length ≤ limit ∧ ∃ ids : Finset Text, ids.card ≤ limit + 1 ∧ ∀ c ∈ edges, endpoints c ⊆ ids

/-- What the loop selects is what comes first, and it stops early only before another candidate. -/
theorem selectEdges_spec {limit : ℕ} {candidates selected : List CandidateEdge} {nodeIds : Finset Text}
    (hlen : selected.length ≤ limit) (hcard : nodeIds.card ≤ limit + 1) (hends : ∀ c ∈ selected, endpoints c ⊆ nodeIds) :
    selected <+: (selectEdges limit candidates selected nodeIds).1 ∧
      Spans limit (selectEdges limit candidates selected nodeIds).1 ∧
      ∃ left, selected ++ candidates = (selectEdges limit candidates selected nodeIds).1 ++ left ∧
        ((selectEdges limit candidates selected nodeIds).2 = true → left ≠ []) := by
  induction candidates generalizing selected nodeIds with
  | nil => exact ⟨List.prefix_refl _, ⟨hlen, nodeIds, hcard, hends⟩, [], rfl, fun h ↦ by cases h⟩
  | cons c candidates ih =>
    rw [selectEdges]
    split
    · exact ⟨List.prefix_refl _, ⟨hlen, nodeIds, hcard, hends⟩, c :: candidates, rfl, fun _ ↦ List.cons_ne_nil _ _⟩
    · next hl =>
      split
      · exact ⟨List.prefix_refl _, ⟨hlen, nodeIds, hcard, hends⟩, c :: candidates, rfl, fun _ ↦ List.cons_ne_nil _ _⟩
      · next hn =>
        have hends' : ∀ d ∈ selected ++ [c], endpoints d ⊆ nodeIds ∪ endpoints c := by
          intro d hd
          rcases List.mem_append.mp hd with hd | hd
          · exact (hends d hd).trans Finset.subset_union_left
          · rw [List.mem_singleton.mp hd]
            exact Finset.subset_union_right
        have hlen' : (selected ++ [c]).length ≤ limit := by
          rw [List.length_append, List.length_singleton]
          omega
        obtain ⟨hpre, hspans, left, hleft, hstop⟩ := ih hlen' (Nat.not_lt.mp hn) hends'
        rw [List.append_assoc, List.singleton_append] at hleft
        exact ⟨(List.prefix_append _ _).trans hpre, hspans, left, hleft, hstop⟩

theorem card_endpoints (c : CandidateEdge) : (endpoints c).card ≤ 2 := Finset.card_le_two

theorem selectEdges_ne_nil {limit : ℕ} {candidates : List CandidateEdge} (hlimit : 1 ≤ limit) (h : candidates ≠ []) :
    (selectEdges limit candidates [] ∅).1 ≠ [] := by
  obtain ⟨c, candidates, rfl⟩ := List.exists_cons_of_ne_nil h
  have hc := card_endpoints c
  have hempty : ¬limit + 1 < (∅ ∪ endpoints c).card := by
    rw [Finset.empty_union]
    omega
  rw [selectEdges, if_neg (by simp; omega), if_neg hempty]
  have hpre : [c] <+: (selectEdges limit candidates ([] ++ [c]) (∅ ∪ endpoints c)).1 := by
    refine (selectEdges_spec ?_ (Nat.not_lt.mp hempty) ?_).1
    · exact hlimit
    · intro d hd
      rw [List.mem_singleton.mp hd]
      exact Finset.subset_union_right
  exact List.ne_nil_of_mem (hpre.subset (.head _))

/-- A page takes the candidates that come first, and its cursor is that of its last one when others are left. -/
theorem selection_spec (filters : RelationshipFilters) (after : List CandidateEdge) :
    Spans filters.limit (selection filters after).edges ∧ (after ≠ [] → (selection filters after).edges ≠ []) ∧
      ∃ left, after = (selection filters after).edges ++ left ∧
        (selection filters after).nextCursor =
          if left = [] then none
          else (selection filters after).edges.getLast?.map fun last ↦ encodeCursor last.edge.edgeId := by
  obtain ⟨-, hspans, left, hleft, hstop⟩ :=
    @selectEdges_spec filters.limit after [] ∅ (Nat.zero_le filters.limit) (by simp) (by simp)
  rw [List.nil_append] at hleft
  have hne : after ≠ [] → (selectEdges filters.limit after [] ∅).1 ≠ [] := selectEdges_ne_nil filters.limit_bounds.1
  refine ⟨hspans, hne, left, hleft, ?_⟩
  simp only [selection]
  by_cases hl : left = []
  · have hlen : ¬(selectEdges filters.limit after [] ∅).1.length < after.length := by
      rw [hl, List.append_nil] at hleft
      rw [← hleft]
      exact Nat.lt_irrefl _
    have hr : (selectEdges filters.limit after [] ∅).2 = false := by
      by_contra hr
      exact hstop (by simpa using hr) hl
    simp [hl, hr, hlen]
  · have hlen : (selectEdges filters.limit after [] ∅).1.length < after.length := by
      have hlen := congrArg List.length hleft
      have hpos := List.length_pos_of_ne_nil hl
      rw [List.length_append] at hlen
      omega
    have hafter : after ≠ [] := by
      rintro rfl
      exact Nat.not_lt_zero _ hlen
    simp [hl, hlen, hne hafter]

/-- The node ids that the edges of a page name. -/
def pageEndpoints (p : GraphPage) : Finset Text := (p.edges.flatMap fun e ↦ [e.sourceNodeId, e.targetNodeId]).toFinset

/-- A closed graph around the root. The bound on its nodes is that of the loop, which does not count the root. -/
structure Bounded (limit : ℕ) (p : GraphPage) : Prop where
  root : p.root.nodeId ∈ p.nodes.map GraphNode.nodeId
  closed : ∀ e ∈ p.edges, e.sourceNodeId ∈ p.nodes.map GraphNode.nodeId ∧ e.targetNodeId ∈ p.nodes.map GraphNode.nodeId
  edges : p.edges.length ≤ limit
  nodes : p.root.nodeId ∈ pageEndpoints p ∨ (pageEndpoints p).card ≤ limit → p.nodes.length ≤ limit + 1

theorem keys_addNode {nodesById d : Dict Text GraphNode} {id k : Text} (h : id ∈ nodesById.keys) :
    k ∈ (addNode nodesById d id).keys ↔ k = id ∨ k ∈ d.keys := by
  obtain ⟨⟨j, node⟩, he, rfl⟩ := List.mem_map.mp h
  rw [addNode, Dict.mem_items_iff.mp he]
  exact Dict.mem_keys_set

theorem named_addNode {nodesById d : Dict Text GraphNode} (id : Text) (hn : ∀ e ∈ nodesById.items, e.2.nodeId = e.1)
    (h : ∀ e ∈ d.items, e.2.nodeId = e.1) : ∀ e ∈ (addNode nodesById d id).items, e.2.nodeId = e.1 := by
  rw [addNode]
  split
  · next node hnode => exact named_set h (hn _ (Dict.mem_items_iff.mpr hnode))
  · exact h

theorem keys_addNodes {nodesById : Dict Text GraphNode} {ids : List Text} {d : Dict Text GraphNode} {k : Text}
    (h : ∀ id ∈ ids, id ∈ nodesById.keys) : k ∈ (ids.foldl (addNode nodesById) d).keys ↔ k ∈ ids ∨ k ∈ d.keys := by
  induction ids generalizing d with
  | nil => simp
  | cons id ids ih =>
    rw [List.foldl_cons, ih fun j hj ↦ h j (.tail _ hj), keys_addNode (h id (.head _)), List.mem_cons]
    tauto

theorem named_addNodes {nodesById : Dict Text GraphNode} {ids : List Text} {d : Dict Text GraphNode}
    (hn : ∀ e ∈ nodesById.items, e.2.nodeId = e.1) (h : ∀ e ∈ d.items, e.2.nodeId = e.1) :
    ∀ e ∈ (ids.foldl (addNode nodesById) d).items, e.2.nodeId = e.1 := by
  induction ids generalizing d with
  | nil => exact h
  | cons id ids ih => exact ih (named_addNode id hn h)

/-- The page that `expand_relationships` makes of a selection. -/
def pageOf (st : Expansion) (root : EntityRef) (depth : ℕ) (page : Selection) : GraphPage where
  root := nodeFromRef root .known
  nodes := (pageNodes st.nodesById (nodeFromRef root .known) page.edges).items.map Prod.snd
  edges := page.edges.map CandidateEdge.edge
  sourceStatus := if st.degraded then .degraded else .ok
  knowledgeState := if st.isPartial || page.truncated || st.degraded then .partialState else .known
  truncated := page.truncated
  nextCursor := page.nextCursor
  depth := depth

theorem keys_pageNodes {st : Expansion} {root : EntityRef} {edges : List CandidateEdge} (hst : Grown st)
    (hmem : ∀ c ∈ edges, c ∈ st.candidates) {k : Text} :
    k ∈ (pageNodes st.nodesById (nodeFromRef root .known) edges).keys ↔
      k ∈ (edges.flatMap fun c ↦ [c.edge.sourceNodeId, c.edge.targetNodeId]) ∨ k = (nodeFromRef root .known).nodeId := by
  rw [pageNodes, keys_addNodes, Dict.mem_keys_set]
  · simp [Dict.empty, Dict.keys]
  · intro id hid
    obtain ⟨c, hc, hid⟩ := List.mem_flatMap.mp hid
    have hknown := hst.known c (hmem c hc)
    simp only [List.mem_cons, List.not_mem_nil, or_false] at hid
    rcases hid with rfl | rfl
    · exact hknown.source
    · exact hknown.target

theorem named_pageNodes {st : Expansion} (root : EntityRef) (edges : List CandidateEdge) (hst : Grown st) :
    ∀ e ∈ (pageNodes st.nodesById (nodeFromRef root .known) edges).items, e.2.nodeId = e.1 := by
  have hempty : ∀ e ∈ (Dict.empty : Dict Text GraphNode).items, e.2.nodeId = e.1 := by simp [Dict.empty]
  exact named_addNodes hst.named (named_set hempty rfl)

theorem bounded_pageOf {st : Expansion} {root : EntityRef} {depth limit : ℕ} {page : Selection} (hst : Grown st)
    (hmem : ∀ c ∈ page.edges, c ∈ st.candidates) (hspans : Spans limit page.edges) :
    Bounded limit (pageOf st root depth page) := by
  have hnodes : (pageOf st root depth page).nodes.map GraphNode.nodeId =
      (pageNodes st.nodesById (nodeFromRef root .known) page.edges).keys := by
    rw [pageOf, List.map_map]
    exact List.map_congr_left (named_pageNodes root page.edges hst)
  have hends : pageEndpoints (pageOf st root depth page) =
      (page.edges.flatMap fun c ↦ [c.edge.sourceNodeId, c.edge.targetNodeId]).toFinset := by
    rw [pageEndpoints, pageOf, List.flatMap_map]
  obtain ⟨hlen, ids, hcard, hids⟩ := hspans
  have hsub : pageEndpoints (pageOf st root depth page) ⊆ ids := by
    intro id hid
    rw [hends, List.mem_toFinset] at hid
    obtain ⟨c, hc, hid⟩ := List.mem_flatMap.mp hid
    exact hids c hc (by simpa [endpoints] using hid)
  refine ⟨?_, ?_, ?_, ?_⟩
  · rw [hnodes]
    exact (keys_pageNodes hst hmem).mpr (.inr rfl)
  · intro e he
    obtain ⟨c, hc, rfl⟩ := List.mem_map.mp he
    rw [hnodes]
    refine ⟨(keys_pageNodes hst hmem).mpr (.inl ?_), (keys_pageNodes hst hmem).mpr (.inl ?_)⟩
    · exact List.mem_flatMap.mpr ⟨c, hc, by simp⟩
    · exact List.mem_flatMap.mpr ⟨c, hc, by simp⟩
  · rw [pageOf, List.length_map]
    exact hlen
  · intro hroot
    -- the nodes are the root and the endpoints, each once
    have hkeys : (pageNodes st.nodesById (nodeFromRef root .known) page.edges).keys.toFinset =
        insert (nodeFromRef root .known).nodeId (pageEndpoints (pageOf st root depth page)) := by
      ext k
      rw [List.mem_toFinset, keys_pageNodes hst hmem, Finset.mem_insert, hends, List.mem_toFinset, or_comm]
    have hlength : (pageOf st root depth page).nodes.length =
        (insert (nodeFromRef root .known).nodeId (pageEndpoints (pageOf st root depth page))).card := by
      calc
        _ = ((pageOf st root depth page).nodes.map GraphNode.nodeId).length := (List.length_map _).symm
        _ = (pageNodes st.nodesById (nodeFromRef root .known) page.edges).keys.length := by rw [hnodes]
        _ = (pageNodes st.nodesById (nodeFromRef root .known) page.edges).keys.toFinset.card :=
          (List.toFinset_card_of_nodup (pageNodes st.nodesById (nodeFromRef root .known) page.edges).nodup).symm
        _ = _ := by rw [hkeys]
    rw [hlength]
    rcases hroot with hroot | hfew
    · have hroot : (nodeFromRef root .known).nodeId ∈ pageEndpoints (pageOf st root depth page) := hroot
      rw [Finset.insert_eq_of_mem hroot]
      exact (Finset.card_le_card hsub).trans hcard
    · exact (Finset.card_insert_le _ _).trans (Nat.add_le_add_right hfew 1)

/-- The pages that a client gets who starts at `cursor` and follows `next_cursor` until it is null. -/
inductive Traversal [Interp] (db : Db) (root : EntityRef) (filters : RelationshipFilters) :
    Option Text → List GraphPage → Prop
  | last {cursor : Option Text} {p : GraphPage} :
      expandRelationships db root { filters with cursor := cursor } = .ok p → p.nextCursor = none →
      Traversal db root filters cursor [p]
  | next {cursor : Option Text} {p : GraphPage} {c : Text} {pages : List GraphPage} :
      expandRelationships db root { filters with cursor := cursor } = .ok p → p.nextCursor = some c →
      Traversal db root filters (some c) pages → Traversal db root filters cursor (p :: pages)

/-- `json.loads` reads an object with one string back from what `json.dumps` prints. -/
class JsonObjects [Interp] : Prop where
  loads_member : ∀ key value : Text, loads (JsonAscii.printMember key value) = some (.dict [(key, .str value)])

theorem lt_of_mem_utf8 {s : Text} : ∀ b ∈ utf8 s, b < 256 := by
  intro b hb
  obtain ⟨c, -, rfl⟩ := List.mem_map.mp hb
  exact c.toNat_lt

theorem encodeCursor_ne_nil (edgeId : Text) : encodeCursor edgeId ≠ [] := by
  intro h
  have hbytes := Base64.decode_encode (lt_of_mem_utf8 (s := JsonAscii.printMember cursorKey edgeId))
  rw [show Base64.encode (utf8 (JsonAscii.printMember cursorKey edgeId)) = [] from h] at hbytes
  have hnil : utf8 (JsonAscii.printMember cursorKey edgeId) = [] := (Option.some.inj hbytes).symm
  have htext := fromUtf8_utf8 (JsonAscii.printMember cursorKey edgeId)
  rw [hnil] at htext
  cases htext

section
variable [Interp]

theorem decodeCursor_encodeCursor [JsonObjects] (edgeId : Text) : decodeCursor (encodeCursor edgeId) = .str edgeId := by
  have hascii : (encodeCursor edgeId).all fun c ↦ decide (c.toNat < 128) := by
    rw [List.all_eq_true]
    intro c hc
    exact decide_eq_true (encode_ne_space hc).2
  rw [decodeCursor, if_pos hascii, encodeCursor, Base64.decode_encode lt_of_mem_utf8, Option.bind_some, fromUtf8_utf8]
  simp only [JsonObjects.loads_member]
  simp

/-- The ids rise along the list. -/
def Rising (candidates : List CandidateEdge) : Prop := candidates.Pairwise fun c d ↦ c.edge.edgeId < d.edge.edgeId

theorem afterCursor_encodeCursor [JsonObjects] {before left : List CandidateEdge} {last : CandidateEdge}
    (h : Rising (before ++ left)) (hlast : before.getLast? = some last) (hid : last.edge.edgeId ≠ []) :
    afterCursor (some (encodeCursor last.edge.edgeId)) (before ++ left) = .ok left := by
  have hdrop : (before ++ left).dropWhile (fun c ↦ !decide (last.edge.edgeId < c.edge.edgeId)) = left := by
    obtain ⟨init, rfl⟩ : ∃ init, before = init ++ [last] := List.getLast?_eq_some_iff.mp hlast
    obtain ⟨hbefore, -, hcross⟩ := List.pairwise_append.mp h
    rw [List.dropWhile_append_of_pos]
    · cases left with
      | nil => rfl
      | cons c left =>
        rw [List.dropWhile_cons_of_neg]
        simpa using hcross last (by simp) c (.head _)
    · intro c hc
      have hle : ¬last.edge.edgeId < c.edge.edgeId := by
        rcases List.mem_append.mp hc with hc | hc
        · exact not_lt_of_gt ((List.pairwise_append.mp hbefore).2.2 c hc last (.head _))
        · rw [List.mem_singleton.mp hc]
          exact lt_irrefl _
      simpa using hle
  have htruthy : (Value.str last.edge.edgeId).truthy = true := by simp [Value.truthy, hid]
  simp only [afterCursor, Option.getD_some, encodeCursor_ne_nil, if_false, decodeCursor_encodeCursor, htruthy, if_true,
    hdrop]

omit [Interp] in
theorem rising_filteredCandidates {st : Expansion} (hst : Grown st) (filters : RelationshipFilters) :
    Rising (filteredCandidates st filters) := by
  have hsorted : (sortBy (fun c ↦ c.edge.edgeId) st.candidates).Pairwise fun c d ↦ c.edge.edgeId ≤ d.edge.edgeId :=
    pairwise_sortBy (fun c : CandidateEdge ↦ c.edge.edgeId) st.candidates
  have hids : ((sortBy (fun c ↦ c.edge.edgeId) st.candidates).map fun c ↦ c.edge.edgeId).Nodup :=
    ((perm_sortBy _ st.candidates).map _).nodup_iff.mpr hst.ids
  have hdistinct : (sortBy (fun c ↦ c.edge.edgeId) st.candidates).Pairwise fun c d ↦ c.edge.edgeId ≠ d.edge.edgeId :=
    List.pairwise_map.mp hids
  have hrising : Rising (sortBy (fun c ↦ c.edge.edgeId) st.candidates) :=
    hsorted.imp₂ (fun _ _ hle hne ↦ lt_of_le_of_ne hle hne) hdistinct
  exact hrising.sublist List.filter_sublist

omit [Interp] in
theorem mem_filteredCandidates {st : Expansion} {filters : RelationshipFilters} {c : CandidateEdge} :
    c ∈ filteredCandidates st filters ↔ c ∈ st.candidates ∧ passes filters c = true := by
  rw [filteredCandidates, applyEdgeFilters, List.mem_filter, (perm_sortBy _ _).mem_iff]

theorem expandRelationships_eq {db : Db} {root : EntityRef} {filters : RelationshipFilters} {st : Expansion}
    {cursor : Option Text} {left : List CandidateEdge} (h : expand db root filters = .ok st)
    (hafter : afterCursor cursor (filteredCandidates st filters) = .ok left) :
    expandRelationships db root { filters with cursor := cursor } =
      .ok (pageOf st root filters.depth (selection { filters with cursor := cursor } left)) := by
  have hpage : paginateCandidates (filteredCandidates st { filters with cursor := cursor })
      { filters with cursor := cursor } = .ok (selection { filters with cursor := cursor } left) := by
    have hafter : afterCursor cursor (filteredCandidates st { filters with cursor := cursor }) = .ok left := hafter
    rw [paginateCandidates, hafter]
    rfl
  simp only [expandRelationships, expand_cursor, h, Except.bind, bind, hpage]
  rfl

/-- The pages from a cursor on show the candidates that it leaves. -/
theorem exists_traversal [JsonObjects] {db : Db} {root : EntityRef} {filters : RelationshipFilters} {st : Expansion}
    (h : expand db root filters = .ok st) {before left : List CandidateEdge} {cursor : Option Text}
    (hsplit : filteredCandidates st filters = before ++ left)
    (hafter : afterCursor cursor (filteredCandidates st filters) = .ok left) :
    ∃ pages, Traversal db root filters cursor pages ∧
      pages.flatMap GraphPage.edges = left.map CandidateEdge.edge ∧
      (left ≠ [] → ∀ p ∈ pages, p.edges ≠ []) ∧ ∀ p ∈ pages, Bounded filters.limit p := by
  induction hn : left.length using Nat.strong_induction_on generalizing before left cursor with
  | _ n ih =>
    subst hn
    have hst := grown_expand h
    have hpage := expandRelationships_eq h hafter
    obtain ⟨hspans, hne, rest, hrest, hcursor⟩ := selection_spec { filters with cursor := cursor } left
    generalize selection { filters with cursor := cursor } left = page at hpage hspans hne hrest hcursor
    have hmem : ∀ c ∈ page.edges, c ∈ st.candidates := by
      intro c hc
      have hc : c ∈ before ++ left := List.mem_append_right _ (hrest ▸ List.mem_append_left _ hc)
      rw [← hsplit] at hc
      exact (mem_filteredCandidates.mp hc).1
    have hbounded : Bounded filters.limit (pageOf st root filters.depth page) := bounded_pageOf hst hmem hspans
    have hedges : left ≠ [] → (pageOf st root filters.depth page).edges ≠ [] := by
      intro hl he
      exact hne hl (List.map_eq_nil_iff.mp he)
    by_cases hr : rest = []
    · rw [if_pos hr] at hcursor
      rw [hr, List.append_nil] at hrest
      refine ⟨[pageOf st root filters.depth page], .last hpage hcursor, ?_, ?_, ?_⟩
      · rw [List.flatMap_singleton, hrest]
        rfl
      · intro hl p hp
        rw [List.mem_singleton.mp hp]
        exact hedges hl
      · intro p hp
        rw [List.mem_singleton.mp hp]
        exact hbounded
    · have hl : left ≠ [] := by
        rintro rfl
        exact hr (List.append_eq_nil_iff.mp hrest.symm).2
      obtain ⟨last, hlast⟩ : ∃ last, page.edges.getLast? = some last := ⟨_, List.getLast?_eq_some_getLast (hne hl)⟩
      rw [if_neg hr, hlast, Option.map_some] at hcursor
      have hlastmem : last ∈ page.edges := List.mem_of_getLast? hlast
      have hsplit' : filteredCandidates st filters = (before ++ page.edges) ++ rest := by
        rw [hsplit, List.append_assoc, ← hrest]
      have hafter' : afterCursor (some (encodeCursor last.edge.edgeId)) (filteredCandidates st filters) = .ok rest := by
        have hrising := rising_filteredCandidates hst filters
        rw [hsplit'] at hrising ⊢
        refine afterCursor_encodeCursor hrising ?_ (hst.known last (hmem last hlastmem)).edgeId
        rw [List.getLast?_append, hlast, Option.some_or]
      have hshorter : rest.length < left.length := by
        have hlen := congrArg List.length hrest
        have hpos := List.length_pos_of_mem hlastmem
        rw [List.length_append] at hlen
        omega
      obtain ⟨pages, htraversal, hflat, hnonempty, hbounds⟩ := ih rest.length hshorter hsplit' hafter' rfl
      refine ⟨pageOf st root filters.depth page :: pages, .next hpage hcursor htraversal, ?_, ?_, ?_⟩
      · rw [List.flatMap_cons, hflat, hrest, List.map_append]
        rfl
      · intro _ p hp
        rcases List.mem_cons.mp hp with rfl | hp
        · exact hedges hl
        · exact hnonempty hr p hp
      · intro p hp
        rcases List.mem_cons.mp hp with rfl | hp
        · exact hbounded
        · exact hbounds p hp

end

section
local instance memberJson : Interp := ascii fun s ↦ (JsonAscii.readMember s).map fun m ↦ .dict [(m.1, .str m.2)]

local instance memberObjects : JsonObjects := by
  constructor
  intro key value
  change (JsonAscii.readMember (JsonAscii.printMember key value)).map _ = _
  rw [JsonAscii.readMember_print]
  rfl

def rootCve : EntityRef := ⟨.cve, "CVE-2024-0001".toList, "CVE-2024-0001".toList⟩

/-- A database in which a CVE is linked to techniques only. -/
def techniqueDb (techniques : List Text) : Db where
  cveRows _ _ _ := .ok (techniques.map fun t ↦
    { targetRef := ⟨.technique, t, t⟩, edgeClass := .directFact, sourceKey := "cve_technique_map".toList }, false)
  iocRows _ := .ok ([], false)
  techniqueRows _ := .ok []
  campaignRows _ := .ok []
  publicationRows _ := .ok []

def onePerPage : RelationshipFilters := ⟨1, 1, none, none, none, false, by decide, by decide⟩

end

end Briefr.Investigations
