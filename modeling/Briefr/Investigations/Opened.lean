import Briefr.Investigations.Expansion
import Briefr.Python.Loop

namespace Briefr.Investigations

open Briefr.Python Briefr.Library Briefr.Library.StableSort

/-- The edges of an entity's hop. -/
def edgesOf (db : Db) (filters : RelationshipFilters) (entity : EntityRef) : List CandidateEdge :=
  match edgesForEntity db entity filters with
  | .ok r => r.1
  | .error _ => []

/-- The entities of a frontier whose hops are made, when edges were found before. -/
def openedFrom (db : Db) (filters : RelationshipFilters) : List CandidateEdge → List EntityRef → List EntityRef
  | _, [] => []
  | found, entity :: frontier =>
    entity :: if maxCandidates ≤ (dedupeCandidates (found ++ edgesOf db filters entity)).length then []
      else openedFrom db filters (found ++ edgesOf db filters entity) frontier

/-- The targets whose nodes were not seen, each once. -/
def freshTargets : List Text → List CandidateEdge → List EntityRef
  | _, [] => []
  | seen, c :: candidates =>
    if c.target.nodeId ∈ seen then freshTargets seen candidates
    else ⟨c.target.entityType, c.target.entityId, c.target.label⟩ :: freshTargets (c.target.nodeId :: seen) candidates

def secondFrontier (db : Db) (filters : RelationshipFilters) (root : EntityRef) : List EntityRef :=
  let targets := freshTargets [makeNodeId root.entityType root.entityId] (edgesOf db filters root)
  sortBy (fun item ↦ toLex (item.entityType.value, item.entityId)) (targets.take maxFrontier)

/-- The entities whose hops an expansion makes: the root, and at depth two its first targets, up to the one at which
there are edges enough. -/
def opened (db : Db) (filters : RelationshipFilters) (root : EntityRef) : List EntityRef :=
  root :: if filters.depth = 2 ∧ (edgesOf db filters root).length < maxCandidates then
    openedFrom db filters (edgesOf db filters root) (secondFrontier db filters root) else []

/-- The edges that an expansion finds. -/
def gathered (db : Db) (filters : RelationshipFilters) (root : EntityRef) : List CandidateEdge :=
  dedupeCandidates ((opened db filters root).flatMap (edgesOf db filters))

theorem dedupeCandidates_concat (candidates : List CandidateEdge) (c : CandidateEdge) :
    dedupeCandidates (candidates ++ [c]) =
      if c.edge.edgeId ∈ (dedupeCandidates candidates).map (·.edge.edgeId) then dedupeCandidates candidates
      else dedupeCandidates candidates ++ [c] := by
  rw [dedupeCandidates, List.foldl_append]
  rfl

theorem nodup_dedupeCandidates (candidates : List CandidateEdge) :
    ((dedupeCandidates candidates).map (·.edge.edgeId)).Nodup := by
  induction candidates using List.reverseRecOn with
  | nil => exact List.nodup_nil
  | append_singleton candidates c ih =>
    rw [dedupeCandidates_concat]
    split
    · exact ih
    · next hc =>
      rw [List.map_append, List.map_singleton]
      exact ih.append (List.nodup_singleton _) (List.disjoint_singleton.mpr hc)

theorem dedupeCandidates_of_nodup {candidates : List CandidateEdge} (h : (candidates.map (·.edge.edgeId)).Nodup) :
    dedupeCandidates candidates = candidates := by
  induction candidates using List.reverseRecOn with
  | nil => rfl
  | append_singleton candidates c ih =>
    rw [List.map_append, List.map_singleton] at h
    rw [dedupeCandidates_concat, ih (List.Nodup.of_append_left h), if_neg]
    exact fun hc ↦ List.disjoint_of_nodup_append h hc (List.mem_singleton_self _)

theorem edgesOf_eq {db : Db} {filters : RelationshipFilters} {entity : EntityRef} {r : List CandidateEdge × Bool}
    (h : edgesForEntity db entity filters = .ok r) : edgesOf db filters entity = r.1 := by
  rw [edgesOf, h]

theorem dedupeCandidates_edgesOf (db : Db) (filters : RelationshipFilters) (entity : EntityRef) :
    dedupeCandidates (edgesOf db filters entity) = edgesOf db filters entity := by
  refine dedupeCandidates_of_nodup ?_
  rw [edgesOf, edgesForEntity]
  cases hopRows db entity filters with
  | error e => exact List.nodup_nil
  | ok r => exact nodup_dedupeCandidates _

theorem candidates_visits (deeper : Bool) (edges found : List CandidateEdge) {st : Expansion}
    (h : st.candidates = dedupeCandidates found) :
    (edges.foldl (visit deeper) st).candidates = dedupeCandidates (found ++ edges) ∧
      (edges.foldl (visit deeper) st).degraded = st.degraded := by
  induction edges generalizing st found with
  | nil => exact ⟨by rw [List.foldl_nil, List.append_nil, h], rfl⟩
  | cons c edges ih =>
    have hstep : (visit deeper st c).candidates = dedupeCandidates (found ++ [c]) ∧
        (visit deeper st c).degraded = st.degraded := by
      rw [dedupeCandidates_concat, visit, h]
      split
      · exact ⟨h, rfl⟩
      · split
        · exact ⟨rfl, rfl⟩
        · exact ⟨rfl, rfl⟩
    obtain ⟨hcandidates, hdegraded⟩ := ih (found ++ [c]) hstep.1
    rw [List.append_assoc, List.singleton_append] at hcandidates
    exact ⟨hcandidates, hdegraded.trans hstep.2⟩

/-- The frontier that a hop's edges leave: the targets not seen before, as far as there is room. -/
theorem nextFrontier_visits {edges : List CandidateEdge} {st : Expansion} {seen : List Text}
    (hseen : ∀ id, id ∈ st.nodesById.keys ↔ id ∈ seen) (hids : (edges.map (·.edge.edgeId)).Nodup)
    (hnew : ∀ c ∈ edges, c.edge.edgeId ∉ st.candidates.map (·.edge.edgeId)) (hroom : st.nextFrontier.length ≤ maxFrontier) :
    (edges.foldl (visit true) st).nextFrontier = (st.nextFrontier ++ freshTargets seen edges).take maxFrontier := by
  induction edges generalizing st seen with
  | nil =>
    rw [freshTargets, List.append_nil, List.take_of_length_le hroom]
    rfl
  | cons c edges ih =>
    rw [List.map_cons, List.nodup_cons] at hids
    have hnew' : ∀ d ∈ edges, d.edge.edgeId ∉ (st.candidates ++ [c]).map (·.edge.edgeId) := by
      intro d hd hmem
      rw [List.map_append, List.map_singleton] at hmem
      rcases List.mem_append.mp hmem with hmem | hmem
      · exact hnew d (.tail _ hd) hmem
      · exact hids.1 (List.mem_map.mpr ⟨d, hd, List.mem_singleton.mp hmem⟩)
    rw [List.foldl_cons, visit, if_neg (hnew c (.head _)), freshTargets]
    by_cases htarget : c.target.nodeId ∈ seen
    · rw [if_pos ((hseen _).mpr htarget), if_pos htarget]
      exact ih hseen hids.2 hnew' hroom
    · rw [if_neg (fun h ↦ htarget ((hseen _).mp h)), if_neg htarget]
      have hseen' : ∀ id, id ∈ (st.nodesById.set c.target.nodeId c.target).keys ↔ id ∈ c.target.nodeId :: seen := by
        intro id
        rw [Dict.mem_keys_set, List.mem_cons, hseen]
      simp only [Bool.true_and, decide_eq_true_eq]
      split
      · next hless =>
        rw [ih hseen' hids.2 hnew' (by rw [List.length_append, List.length_singleton]; omega), List.append_assoc,
          List.singleton_append]
      · next hfull =>
        have hfold := @ih { st with
          candidates := st.candidates ++ [c], nodesById := st.nodesById.set c.target.nodeId c.target } _
          hseen' hids.2 hnew' hroom
        refine hfold.trans ?_
        rw [List.take_append_of_le_length (not_lt.mp hfull), List.take_append_of_le_length (not_lt.mp hfull)]

theorem visitFrontier_cons {db : Db} {filters : RelationshipFilters} {entity : EntityRef}
    {r : List CandidateEdge × Bool} (hr : edgesForEntity db entity filters = .ok r) (deeper : Bool)
    (frontier : List EntityRef) (st : Expansion) :
    visitFrontier db filters deeper (entity :: frontier) st =
      let st := (edgesOf db filters entity).foldl (visit deeper) { st with degraded := st.degraded || r.2 }
      if maxCandidates ≤ st.candidates.length then
        .ok { st with degraded := true, isPartial := true, nextFrontier := [] }
      else visitFrontier db filters deeper frontier st := by
  rw [visitFrontier, hr, edgesOf_eq hr]
  rfl

/-- A frontier is worked off: if the hops answer, the edges found are theirs, and a hop that is degraded shows. -/
theorem visitFrontier_ok {db : Db} {filters : RelationshipFilters} (deeper : Bool) {frontier : List EntityRef}
    {found : List CandidateEdge} {st : Expansion} (h : st.candidates = dedupeCandidates found)
    (hok : ∀ e ∈ openedFrom db filters found frontier, ∃ r, edgesForEntity db e filters = .ok r) :
    ∃ st', visitFrontier db filters deeper frontier st = .ok st' ∧
      st'.candidates = dedupeCandidates (found ++ (openedFrom db filters found frontier).flatMap (edgesOf db filters)) ∧
      (st.degraded = true → st'.degraded = true) ∧
      ∀ e ∈ openedFrom db filters found frontier, ∀ r, edgesForEntity db e filters = .ok r → r.2 = true →
        st'.degraded = true := by
  induction frontier generalizing found st with
  | nil =>
    refine ⟨st, rfl, ?_, id, fun e he ↦ absurd he List.not_mem_nil⟩
    rw [openedFrom, List.flatMap_nil, List.append_nil, h]
  | cons entity frontier ih =>
    rw [openedFrom] at hok ⊢
    obtain ⟨r, hr⟩ := hok entity (.head _)
    rw [visitFrontier_cons hr]
    obtain ⟨hcandidates, hdegraded⟩ := candidates_visits deeper (edgesOf db filters entity) found
      (show { st with degraded := st.degraded || r.2 }.candidates = _ from h)
    have hkept : st.degraded = true ∨ r.2 = true →
        ((edgesOf db filters entity).foldl (visit deeper) { st with degraded := st.degraded || r.2 }).degraded = true := by
      intro hflag
      rw [hdegraded, Bool.or_eq_true]
      exact hflag
    simp only [hcandidates]
    split
    · refine ⟨_, rfl, ?_, fun _ ↦ rfl, fun _ _ _ _ _ ↦ rfl⟩
      rw [List.flatMap_singleton]
    · next hless =>
      rw [if_neg hless] at hok
      obtain ⟨st', hst', hfound, hmono, hflags⟩ := ih hcandidates fun e he ↦ hok e (.tail _ he)
      refine ⟨st', hst', ?_, fun hflag ↦ hmono (hkept (.inl hflag)), ?_⟩
      · rw [hfound, List.flatMap_cons, List.append_assoc]
      · intro e he r' hr' hflag
        rcases List.mem_cons.mp he with rfl | he
        · rw [hr] at hr'
          obtain rfl := Except.ok.inj hr'
          exact hmono (hkept (.inr hflag))
        · exact hflags e he r' hr' hflag

theorem visitFrontier_error {db : Db} {filters : RelationshipFilters} (deeper : Bool) {frontier : List EntityRef}
    {found : List CandidateEdge} {st : Expansion} (h : st.candidates = dedupeCandidates found)
    (herror : ∃ e ∈ openedFrom db filters found frontier, ∃ failure, edgesForEntity db e filters = .error failure) :
    ∃ failure, visitFrontier db filters deeper frontier st = .error failure := by
  induction frontier generalizing found st with
  | nil =>
    obtain ⟨e, he, -⟩ := herror
    cases he
  | cons entity frontier ih =>
    rw [openedFrom] at herror
    cases hr : edgesForEntity db entity filters with
    | error failure => exact ⟨failure, by rw [visitFrontier, hr, error_bind]⟩
    | ok r =>
      rw [visitFrontier_cons hr]
      obtain ⟨hcandidates, -⟩ := candidates_visits deeper (edgesOf db filters entity) found
        (show { st with degraded := st.degraded || r.2 }.candidates = _ from h)
      obtain ⟨e, he, failure, hfailure⟩ := herror
      have hrest := (List.mem_cons.mp he).resolve_left fun heq ↦ by
        rw [heq, hr] at hfailure
        cases hfailure
      simp only [hcandidates]
      split
      · next hfull =>
        rw [if_pos hfull] at hrest
        cases hrest
      · next hless =>
        rw [if_neg hless] at hrest
        exact ih hcandidates ⟨e, hrest, failure, hfailure⟩

theorem openedFrom_singleton (db : Db) (filters : RelationshipFilters) (found : List CandidateEdge)
    (entity : EntityRef) : openedFrom db filters found [entity] = [entity] := by
  rw [openedFrom, openedFrom, ite_self]

/-- The frontier of the first level. -/
theorem nextFrontier_root {db : Db} {filters : RelationshipFilters} {root : EntityRef}
    {r : List CandidateEdge × Bool} (hr : edgesForEntity db root filters = .ok r) {st : Expansion}
    (hst : visitFrontier db filters true [root] (startExpansion root) = .ok st) :
    st.nextFrontier = if (edgesOf db filters root).length < maxCandidates then
      (freshTargets [makeNodeId root.entityType root.entityId] (edgesOf db filters root)).take maxFrontier else [] := by
  have hdedupe := dedupeCandidates_edgesOf db filters root
  have hids : ((edgesOf db filters root).map (·.edge.edgeId)).Nodup := by
    rw [← hdedupe]
    exact nodup_dedupeCandidates _
  obtain ⟨hcandidates, -⟩ := candidates_visits true (edgesOf db filters root) []
    (show { startExpansion root with degraded := (startExpansion root).degraded || r.2 }.candidates = _ from rfl)
  have hnext := @nextFrontier_visits (edgesOf db filters root)
    { startExpansion root with degraded := (startExpansion root).degraded || r.2 }
    [makeNodeId root.entityType root.entityId] (fun _ ↦ Iff.rfl) hids (fun _ _ ↦ List.not_mem_nil) (Nat.zero_le _)
  rw [List.nil_append, hdedupe] at hcandidates
  rw [visitFrontier_cons hr] at hst
  simp only [hcandidates] at hst
  split at hst
  · next hfull =>
    obtain rfl := Except.ok.inj hst
    rw [if_neg (not_lt.mpr hfull)]
  · next hless =>
    obtain rfl := Except.ok.inj hst
    rw [if_pos (not_le.mp hless)]
    exact hnext

/-- The frontier of the second level, in the order in which it is worked off. -/
theorem opened_two {db : Db} {filters : RelationshipFilters} {root : EntityRef} {r : List CandidateEdge × Bool}
    (hr : edgesForEntity db root filters = .ok r) (hdepth : filters.depth = 2) {st : Expansion}
    (hst : visitFrontier db filters true [root] (startExpansion root) = .ok st) :
    opened db filters root = root :: openedFrom db filters (edgesOf db filters root)
      ((sortBy (fun item ↦ toLex (item.entityType.value, item.entityId)) st.nextFrontier).take maxFrontier) := by
  rw [nextFrontier_root hr hst, opened, secondFrontier]
  by_cases hless : (edgesOf db filters root).length < maxCandidates
  · rw [if_pos ⟨hdepth, hless⟩, if_pos hless]
    congr 2
    refine (List.take_of_length_le ?_).symm
    rw [length_sortBy]
    exact List.length_take_le _ _
  · rw [if_neg (fun h ↦ hless h.2), if_neg hless]
    rfl

theorem depth_eq (filters : RelationshipFilters) : filters.depth = 1 ∨ filters.depth = 2 := by
  have h := filters.depth_bounds
  omega

/-- An expansion that makes no hop that fails ends with the edges of the entities opened, and a degraded hop shows. -/
theorem expand_ok {db : Db} {filters : RelationshipFilters} {root : EntityRef}
    (hok : ∀ e ∈ opened db filters root, ∃ r, edgesForEntity db e filters = .ok r) :
    ∃ st, expand db root filters = .ok st ∧ st.candidates = gathered db filters root ∧
      ∀ e ∈ opened db filters root, ∀ r, edgesForEntity db e filters = .ok r → r.2 = true → st.degraded = true := by
  obtain ⟨r, hr⟩ := hok root (.head _)
  have hroot : ∀ e ∈ openedFrom db filters [] [root], ∃ r, edgesForEntity db e filters = .ok r := by
    rw [openedFrom_singleton]
    intro e he
    obtain rfl := List.mem_singleton.mp he
    exact ⟨r, hr⟩
  rw [expand, gathered]
  rcases depth_eq filters with hdepth | hdepth
  · have hopened : opened db filters root = openedFrom db filters [] [root] := by
      rw [opened, if_neg (by omega), openedFrom_singleton]
    obtain ⟨st, hst, hfound, -, hflags⟩ :=
      visitFrontier_ok false (show (startExpansion root).candidates = dedupeCandidates [] from rfl) hroot
    rw [hdepth, hopened]
    refine ⟨st, ?_, by rw [hfound, List.nil_append], hflags⟩
    rw [expandLevels]
    change visitFrontier db filters false [root] (startExpansion root) >>= _ = _
    rw [hst, ok_bind]
    rfl
  · obtain ⟨st, hst, hfound, -, hflags⟩ :=
      visitFrontier_ok true (show (startExpansion root).candidates = dedupeCandidates [] from rfl) hroot
    have hnext := nextFrontier_root hr hst
    have hsecond := opened_two hr hdepth hst
    rw [openedFrom_singleton, List.flatMap_singleton, List.nil_append] at hfound
    rw [hsecond] at hok ⊢
    obtain ⟨st', hst', hfound', hmono, hflags'⟩ := visitFrontier_ok false
      (show { st with nextFrontier := [] }.candidates = dedupeCandidates (edgesOf db filters root) from hfound)
      fun e he ↦ hok e (.tail _ he)
    rw [hdepth]
    refine ⟨st', ?_, by rw [hfound', List.flatMap_cons], ?_⟩
    · rw [expandLevels]
      change visitFrontier db filters true [root] (startExpansion root) >>= _ = _
      rw [hst, ok_bind, expandLevels]
      change visitFrontier db filters false _ { st with nextFrontier := [] } >>= _ = _
      rw [hst', ok_bind]
      rfl
    · intro e he r' hr' hflag
      rcases List.mem_cons.mp he with rfl | he
      · refine hmono (hflags e ?_ r' hr' hflag)
        rw [openedFrom_singleton]
        exact .head _
      · exact hflags' e he r' hr' hflag

/-- An expansion that makes a hop that fails fails. -/
theorem expand_error {db : Db} {filters : RelationshipFilters} {root : EntityRef}
    (herror : ∃ e ∈ opened db filters root, ∃ failure, edgesForEntity db e filters = .error failure) :
    ∃ failure, expand db root filters = .error failure := by
  rw [expand]
  obtain ⟨e, he, failure, hfailure⟩ := herror
  cases hr : edgesForEntity db root filters with
  | error failure =>
    refine ⟨failure, ?_⟩
    rcases depth_eq filters with hdepth | hdepth
    · rw [hdepth, expandLevels, visitFrontier, hr]
      rfl
    · rw [hdepth, expandLevels, visitFrontier, hr]
      rfl
  | ok r =>
    rcases depth_eq filters with hdepth | hdepth
    · rw [opened, if_neg (by omega), List.mem_singleton] at he
      rw [he, hr] at hfailure
      cases hfailure
    · have hroot : ∀ e ∈ openedFrom db filters [] [root], ∃ r, edgesForEntity db e filters = .ok r := by
        rw [openedFrom_singleton]
        intro e he
        obtain rfl := List.mem_singleton.mp he
        exact ⟨r, hr⟩
      obtain ⟨st, hst, hfound, -⟩ :=
        visitFrontier_ok true (show (startExpansion root).candidates = dedupeCandidates [] from rfl) hroot
      rw [openedFrom_singleton, List.flatMap_singleton, List.nil_append] at hfound
      rw [opened_two hr hdepth hst] at he
      have hrest := (List.mem_cons.mp he).resolve_left fun heq ↦ by
        rw [heq, hr] at hfailure
        cases hfailure
      obtain ⟨failure', hfailure'⟩ := visitFrontier_error false
        (show { st with nextFrontier := [] }.candidates = dedupeCandidates (edgesOf db filters root) from hfound)
        ⟨e, hrest, failure, hfailure⟩
      refine ⟨failure', ?_⟩
      rw [hdepth, expandLevels]
      change visitFrontier db filters true [root] (startExpansion root) >>= _ = _
      rw [hst, ok_bind, expandLevels]
      change visitFrontier db filters false _ { st with nextFrontier := [] } >>= _ = _
      rw [hfailure', error_bind]

end Briefr.Investigations
