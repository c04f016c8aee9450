import Briefr.Investigations.Projection

namespace Briefr.Investigations

open Briefr.Python Briefr.Library Briefr.Library.StableSort

/-- An edge between nodes that were collected. -/
structure Known (nodesById : Dict Text GraphNode) (c : CandidateEdge) : Prop where
  source : c.edge.sourceNodeId ∈ nodesById.keys
  target : c.edge.targetNodeId ∈ nodesById.keys
  edgeId : c.edge.edgeId ≠ []

structure Grown (st : Expansion) : Prop where
  ids : (st.candidates.map fun c ↦ c.edge.edgeId).Nodup
  known : ∀ c ∈ st.candidates, Known st.nodesById c
  named : ∀ e ∈ st.nodesById.items, e.2.nodeId = e.1
  frontier : ∀ ref ∈ st.nextFrontier, makeNodeId ref.entityType ref.entityId ∈ st.nodesById.keys

theorem Known.mono {nodes nodes' : Dict Text GraphNode} {c : CandidateEdge} (h : Known nodes c)
    (hk : nodes.keys ⊆ nodes'.keys) : Known nodes' c := ⟨hk h.source, hk h.target, h.edgeId⟩

theorem known_candidateEdge {nodes : Dict Text GraphNode} {source : Text} {row : HopRow} (hs : source ∈ nodes.keys)
    (ht : (candidateEdge source row).target.nodeId ∈ nodes.keys) : Known nodes (candidateEdge source row) :=
  ⟨hs, ht, by simp [candidateEdge, makeEdgeId]⟩

theorem subset_keys_set (nodes : Dict Text GraphNode) (k : Text) (node : GraphNode) :
    nodes.keys ⊆ (nodes.set k node).keys := fun _ hk ↦ Dict.mem_keys_set.mpr (.inr hk)

theorem named_set {nodes : Dict Text GraphNode} {node : GraphNode} {k : Text} (h : ∀ e ∈ nodes.items, e.2.nodeId = e.1)
    (hk : node.nodeId = k) : ∀ e ∈ (nodes.set k node).items, e.2.nodeId = e.1 := by
  intro ⟨j, v⟩ he
  rw [Dict.mem_items_iff, Dict.get?_set] at he
  split at he
  · next hj =>
    rw [← Option.some.inj he, hj]
    exact hk
  · exact h _ (Dict.mem_items_iff.mpr he)

theorem keys_visit (deeper : Bool) (st : Expansion) (c : CandidateEdge) :
    st.nodesById.keys ⊆ (visit deeper st c).nodesById.keys := by
  rw [visit]
  split
  · exact List.Subset.refl _
  · split
    · exact List.Subset.refl _
    · exact subset_keys_set _ _ _

/-- The candidates after an edge that was not seen. -/
theorem Grown.append {st : Expansion} {c : CandidateEdge} {nodes : Dict Text GraphNode} (h : Grown st)
    (hc : c.edge.edgeId ∉ st.candidates.map fun c ↦ c.edge.edgeId) (hk : st.nodesById.keys ⊆ nodes.keys)
    (hknown : Known nodes c) :
    ((st.candidates ++ [c]).map fun c ↦ c.edge.edgeId).Nodup ∧ ∀ d ∈ st.candidates ++ [c], Known nodes d := by
  constructor
  · rw [List.map_append]
    refine h.ids.append (List.nodup_singleton _) ?_
    intro id hold hnew
    obtain rfl : id = c.edge.edgeId := List.mem_singleton.mp hnew
    exact hc hold
  · intro d hd
    rcases List.mem_append.mp hd with hd | hd
    · exact (h.known d hd).mono hk
    · rw [List.mem_singleton.mp hd]
      exact hknown

theorem Grown.visit {deeper : Bool} {st : Expansion} {source : Text} {row : HopRow} (h : Grown st)
    (hs : source ∈ st.nodesById.keys) : Grown (visit deeper st (candidateEdge source row)) := by
  rw [Investigations.visit]
  split
  · exact h
  · next hc =>
    split
    · next ht =>
      obtain ⟨hids, hknown⟩ := h.append hc (List.Subset.refl _) (known_candidateEdge hs ht)
      exact ⟨hids, hknown, h.named, h.frontier⟩
    · have hk := subset_keys_set st.nodesById (candidateEdge source row).target.nodeId (candidateEdge source row).target
      have ht : (candidateEdge source row).target.nodeId ∈
          (st.nodesById.set (candidateEdge source row).target.nodeId (candidateEdge source row).target).keys :=
        Dict.mem_keys_set.mpr (.inl rfl)
      obtain ⟨hids, hknown⟩ := h.append hc hk (known_candidateEdge (hk hs) ht)
      refine ⟨hids, hknown, named_set h.named rfl, ?_⟩
      intro ref href
      simp only at href
      split at href
      · rcases List.mem_append.mp href with href | href
        · exact hk (h.frontier ref href)
        · rw [List.mem_singleton.mp href]
          exact ht
      · exact hk (h.frontier ref href)

theorem Grown.visits {deeper : Bool} {source : Text} {edges : List CandidateEdge} {st : Expansion} (h : Grown st)
    (hs : source ∈ st.nodesById.keys) (hedges : ∀ c ∈ edges, ∃ row, c = candidateEdge source row) :
    Grown (edges.foldl (Investigations.visit deeper) st) ∧
      st.nodesById.keys ⊆ (edges.foldl (Investigations.visit deeper) st).nodesById.keys := by
  induction edges generalizing st with
  | nil => exact ⟨h, List.Subset.refl _⟩
  | cons c edges ih =>
    have hk := keys_visit deeper st c
    obtain ⟨row, rfl⟩ := hedges c (.head _)
    obtain ⟨hgrown, hkeys⟩ := ih (h.visit hs) (hk hs) fun d hd ↦ hedges d (.tail _ hd)
    exact ⟨hgrown, List.Subset.trans hk hkeys⟩

theorem mem_dedupeCandidates {candidates : List CandidateEdge} {c : CandidateEdge}
    (h : c ∈ dedupeCandidates candidates) : c ∈ candidates := by
  have hfold : ∀ (l out : List CandidateEdge),
      c ∈ l.foldl (fun out c ↦ if c.edge.edgeId ∈ out.map (·.edge.edgeId) then out else out ++ [c]) out →
        c ∈ out ∨ c ∈ l := by
    intro l
    induction l with
    | nil => exact fun _ h ↦ .inl h
    | cons d l ih =>
      intro out h
      rcases ih _ h with h | h
      · simp only at h
        split at h
        · exact .inl h
        · rcases List.mem_append.mp h with h | h
          · exact .inl h
          · rw [List.mem_singleton.mp h]
            exact .inr (.head _)
      · exact .inr (.tail _ h)
  exact (hfold candidates [] h).resolve_left List.not_mem_nil

theorem mem_edgesForEntity {db : Db} {entity : EntityRef} {filters : RelationshipFilters}
    {r : List CandidateEdge × Bool} (h : edgesForEntity db entity filters = .ok r) :
    ∀ c ∈ r.1, ∃ row, c = candidateEdge (makeNodeId entity.entityType entity.entityId) row := by
  rw [edgesForEntity] at h
  cases hr : hopRows db entity filters with
  | error e =>
    rw [hr] at h
    cases h
  | ok rows =>
    rw [hr] at h
    obtain rfl := Except.ok.inj h
    intro c hc
    obtain ⟨row, -, rfl⟩ := List.mem_map.mp (mem_dedupeCandidates hc)
    exact ⟨row, rfl⟩

theorem Grown.visitFrontier {db : Db} {filters : RelationshipFilters} {deeper : Bool} {frontier : List EntityRef}
    {st st' : Expansion} (h : Grown st)
    (hf : ∀ ref ∈ frontier, makeNodeId ref.entityType ref.entityId ∈ st.nodesById.keys)
    (hst : visitFrontier db filters deeper frontier st = .ok st') : Grown st' := by
  induction frontier generalizing st with
  | nil =>
    obtain rfl := Except.ok.inj hst
    exact h
  | cons entity frontier ih =>
    rw [Investigations.visitFrontier] at hst
    cases hr : edgesForEntity db entity filters with
    | error e =>
      rw [hr] at hst
      cases hst
    | ok r =>
      rw [hr] at hst
      have h : Grown { st with degraded := st.degraded || r.2 } := ⟨h.ids, h.known, h.named, h.frontier⟩
      obtain ⟨hgrown, hkeys⟩ := @Grown.visits deeper _ _ _ h (hf entity (.head _)) (mem_edgesForEntity hr)
      change (if _ then _ else _) = _ at hst
      split at hst
      · obtain rfl := Except.ok.inj hst
        exact ⟨hgrown.ids, hgrown.known, hgrown.named, by simp⟩
      · exact ih hgrown (fun ref href ↦ hkeys (hf ref (.tail _ href))) hst

theorem Grown.expandLevels {db : Db} {filters : RelationshipFilters} {n : ℕ} {frontier : List EntityRef}
    {st st' : Expansion} (h : Grown st)
    (hf : ∀ ref ∈ frontier, makeNodeId ref.entityType ref.entityId ∈ st.nodesById.keys)
    (hst : expandLevels db filters n frontier st = .ok st') : Grown st' := by
  induction n generalizing frontier st with
  | zero =>
    obtain rfl := Except.ok.inj hst
    exact h
  | succ n ih =>
    rw [Investigations.expandLevels] at hst
    cases hr : Investigations.visitFrontier db filters (decide (0 < n)) frontier { st with nextFrontier := [] } with
    | error e =>
      rw [hr] at hst
      cases hst
    | ok next =>
      rw [hr] at hst
      have h : Grown { st with nextFrontier := [] } := ⟨h.ids, h.known, h.named, by simp⟩
      have hnext := h.visitFrontier hf hr
      refine ih hnext ?_ hst
      intro ref href
      exact hnext.frontier ref ((perm_sortBy _ _).mem_iff.mp (List.mem_of_mem_take href))

theorem grown_expand {db : Db} {root : EntityRef} {filters : RelationshipFilters} {st : Expansion}
    (h : expand db root filters = .ok st) : Grown st := by
  have hroot : (startExpansion root).nodesById.keys = [makeNodeId root.entityType root.entityId] := rfl
  have hstart : Grown (startExpansion root) := by
    refine ⟨List.nodup_nil, ?_, named_set ?_ rfl, ?_⟩ <;> simp [startExpansion, Dict.empty]
  refine hstart.expandLevels ?_ h
  intro ref href
  rw [List.mem_singleton.mp href, hroot]
  exact .head _

theorem visitFrontier_cursor (db : Db) (filters : RelationshipFilters) (cursor : Option Text) (deeper : Bool)
    (frontier : List EntityRef) (st : Expansion) :
    visitFrontier db { filters with cursor := cursor } deeper frontier st =
      visitFrontier db filters deeper frontier st := by
  induction frontier generalizing st with
  | nil => rfl
  | cons entity frontier ih =>
    have hedges : edgesForEntity db entity { filters with cursor := cursor } = edgesForEntity db entity filters := rfl
    simp only [visitFrontier, hedges, ih]

/-- What is collected does not depend on the page. -/
theorem expand_cursor (db : Db) (root : EntityRef) (filters : RelationshipFilters) (cursor : Option Text) :
    expand db root { filters with cursor := cursor } = expand db root filters := by
  have hlevels : ∀ (n : ℕ) (frontier : List EntityRef) (st : Expansion),
      expandLevels db { filters with cursor := cursor } n frontier st = expandLevels db filters n frontier st := by
    intro n
    induction n with
    | zero => exact fun _ _ ↦ rfl
    | succ n ih =>
      intro frontier st
      simp only [expandLevels, visitFrontier_cursor, ih]
  exact hlevels _ _ _

end Briefr.Investigations
