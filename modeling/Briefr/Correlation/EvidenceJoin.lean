import Mathlib.Data.Finset.Insert
import Briefr.Correlation.SourceEvidence

namespace Briefr.Correlation.SourceEvidence

open Briefr.Python Briefr.Python.Urllib Briefr.Library Briefr.Blocklist Briefr.Correlation.IocNormalize

/-- The rows that an edge key is given. -/
def found (hits : Dict EdgeKey (List Evidence)) (key : EdgeKey) : List Evidence := (hits.get? key).getD []

theorem found_append (hits : Dict EdgeKey (List Evidence)) (key key' : EdgeKey) (row : Evidence) :
    found (hits.append key' row) key = found hits key ++ if key = key' then [row] else [] := by
  rw [found, Dict.append, Dict.get?_set]
  by_cases h : key = key'
  · rw [if_pos h, if_pos h, h]
    rfl
  · rw [if_neg h, if_neg h, List.append_nil]
    rfl

theorem found_keys {keys : List EdgeKey} (hkeys : keys.Nodup) (hits : Dict EdgeKey (List Evidence)) (key : EdgeKey)
    (row : Evidence) : found (keys.foldl (fun hits key ↦ hits.append key row) hits) key =
      found hits key ++ if key ∈ keys then [row] else [] := by
  induction keys generalizing hits with
  | nil => simp
  | cons first keys ih =>
    obtain ⟨hfirst, hkeys⟩ := List.nodup_cons.mp hkeys
    rw [List.foldl_cons, ih hkeys, found_append, List.append_assoc]
    by_cases h : key = first
    · rw [h, if_pos rfl, if_neg hfirst, if_pos (.head _), List.append_nil]
    · rw [if_neg h, List.nil_append]
      simp only [List.mem_cons, h, false_or]

section
variable [Interp]

/-- A row is given to the keys that look up one of its candidates. -/
theorem mem_matchedKeys {lookup : Dict EdgeKey Lookup} {key : EdgeKey} {row : Evidence} :
    key ∈ matchedKeys (reverseIndex lookup) row ↔ ∃ candidate ∈ row.candidates, lookup.get? key = some candidate := by
  have hgroup : ∀ candidate, key ∈ ((reverseIndex lookup).get? candidate).getD [] ↔
      lookup.get? key = some candidate := by
    intro candidate
    rw [reverseIndex, Dict.get?_groups, ← Dict.mem_items_iff, List.mem_map]
    constructor
    · rintro ⟨entry, hentry, rfl⟩
      obtain ⟨hmem, hcandidate⟩ := List.mem_filter.mp hentry
      obtain ⟨item, hitem, rfl⟩ := List.mem_map.mp hmem
      obtain rfl := of_decide_eq_true hcandidate
      exact hitem
    · intro hitem
      exact ⟨(candidate, key), List.mem_filter.mpr ⟨List.mem_map.mpr ⟨_, hitem, rfl⟩, decide_eq_true rfl⟩, rfl⟩
  rw [matchedKeys, List.mem_dedup, List.mem_flatMap]
  exact exists_congr fun candidate ↦ and_congr_right' (hgroup candidate)

theorem nodup_matchedKeys (reverse : Dict Lookup (List EdgeKey)) (row : Evidence) : (matchedKeys reverse row).Nodup :=
  List.nodup_dedup _

theorem found_record (reverse : Dict Lookup (List EdgeKey)) (rows : List Evidence) (hits : Dict EdgeKey (List Evidence))
    (key : EdgeKey) : found (rows.foldl (record reverse) hits) key =
      found hits key ++ rows.filter fun row ↦ key ∈ matchedKeys reverse row := by
  induction rows generalizing hits with
  | nil => simp
  | cons row rows ih =>
    rw [List.foldl_cons, ih, record, found_keys (nodup_matchedKeys reverse row), List.append_assoc]
    by_cases h : key ∈ matchedKeys reverse row
    · rw [if_pos h, List.filter_cons_of_pos (by simpa using h), List.singleton_append]
    · rw [if_neg h, List.filter_cons_of_neg (by simpa using h), List.nil_append]

end

section
variable [Casing]

/-- A row's column that an edge is joined with. -/
def Lookup.selects (pair : Lookup) (row : MirrorRow) : Bool :=
  row.iocType == pair.mirrorType && match pair.column with
    | .hostIoc => row.hostIoc.any fun host ↦ lower host == pair.value
    | .iocValue => lower row.iocValue == pair.value

section
variable [Digests]

/-- A row whose type, value and host are stripped and in lower case, with the digest of its value. -/
structure Stored (row : MirrorRow) : Prop where
  type : strip row.iocType = row.iocType ∧ lower row.iocType = row.iocType
  value : strip row.iocValue = row.iocValue ∧ lower row.iocValue = row.iocValue
  host : ∀ host, row.hostIoc = some host → strip host = host ∧ lower host = host
  digest : row.iocValueDigest = iocValueDigest row.iocValue

theorem Stored.host_getD {row : MirrorRow} (hrow : Stored row) :
    lower (strip (row.hostIoc.getD [])) = row.hostIoc.getD [] := by
  cases hcell : row.hostIoc with
  | none =>
    rw [Option.getD_none, strip_eq_self fun c hc ↦ absurd hc List.not_mem_nil]
    exact lower_of_fixed fun c hc ↦ absurd hc List.not_mem_nil
  | some host =>
    obtain ⟨hstrip, hlower⟩ := hrow.host host hcell
    rw [Option.getD_some, hstrip, hlower]

theorem Stored.mem_candidates {row : MirrorRow} (hrow : Stored row) {pair : Lookup} :
    pair ∈ row.candidates ↔ row.iocType = pair.mirrorType ∧ (pair.mirrorType = "url".toList → pair.value ≠ []) ∧
      ((pair.column = .iocValue ∧ row.iocValue = pair.value) ∨
        (pair.column = .hostIoc ∧ pair.mirrorType = "url".toList ∧ row.hostIoc.getD [] = pair.value)) := by
  obtain ⟨column, mirrorType, value⟩ := pair
  have htype : lower (strip row.iocType) = row.iocType := by rw [hrow.type.1, hrow.type.2]
  have hjoined : lower (strip row.iocValue) = row.iocValue := by rw [hrow.value.1, hrow.value.2]
  rw [Evidence.candidates, htype, hjoined, hrow.host_getD]
  dsimp only
  by_cases hurl : row.iocType = "url".toList
  · rw [if_pos hurl, hurl, List.mem_append, List.mem_ite_nil_right, List.mem_ite_nil_right, List.mem_singleton,
      List.mem_singleton, Lookup.mk.injEq, Lookup.mk.injEq]
    constructor
    · rintro (⟨hne, rfl, rfl, rfl⟩ | ⟨hne, rfl, rfl, rfl⟩)
      · exact ⟨rfl, fun _ ↦ hne, .inr ⟨rfl, rfl, rfl⟩⟩
      · exact ⟨rfl, fun _ ↦ hne, .inl ⟨rfl, rfl⟩⟩
    · rintro ⟨rfl, hne, ⟨rfl, rfl⟩ | ⟨rfl, -, rfl⟩⟩
      · exact .inr ⟨hne rfl, rfl, rfl, rfl⟩
      · exact .inl ⟨hne rfl, rfl, rfl, rfl⟩
  · rw [if_neg hurl, List.mem_singleton, Lookup.mk.injEq]
    constructor
    · rintro ⟨rfl, rfl, rfl⟩
      exact ⟨rfl, fun h ↦ absurd h hurl, .inl ⟨rfl, rfl⟩⟩
    · rintro ⟨rfl, -, ⟨rfl, rfl⟩ | ⟨-, htype, -⟩⟩
      · exact ⟨rfl, rfl, rfl⟩
      · exact absurd htype hurl

/-- A row that a lookup selects is fetched by it. -/
theorem clause_of_selects {pair : Lookup} {row : MirrorRow} (hrow : Stored row) (h : pair.selects row = true) :
    pair.clause row = true := by
  obtain ⟨htype, hjoined⟩ := Bool.and_eq_true_iff.mp h
  rw [Lookup.clause]
  cases hcolumn : pair.column with
  | hostIoc =>
    rw [hcolumn] at hjoined
    obtain ⟨host, hcell, hvalue⟩ := (Option.any_eq_true _ _).mp hjoined
    refine Bool.and_eq_true_iff.mpr ⟨htype, (Option.any_eq_true _ _).mpr ⟨host, hcell, ?_⟩⟩
    rw [(hrow.host host hcell).2] at hvalue
    rwa [Digests.sqlLower_lower host (hrow.host host hcell).2]
  | iocValue =>
    rw [hcolumn] at hjoined
    have hvalue : row.iocValue = pair.value := hrow.value.2.symm.trans (eq_of_beq hjoined)
    refine Bool.and_eq_true_iff.mpr ⟨htype, Bool.or_eq_true_iff.mpr (.inl ?_)⟩
    rw [hrow.digest, hvalue]
    exact beq_self_eq_true _

end

end

section
variable [Casing] [Netlocs]

/-- What the joins use of a normalised indicator. -/
structure Usable (iocType : Text) (n : Normalized) : Prop where
  type : n.type = normalizeIocType iocType
  domain : n.type = "DOMAIN".toList → n.value ≠ []
  url : n.type = "URL".toList →
    (∃ v, normalizeUrl v = .ok n.value) ∧ (∃ host, urlHost n.value = .ok host) ∧ n.value ≠ []

/-- The end of `_mirror_lookup_pair`. -/
def pairOf (mirrorType : Text) (n : Normalized) : Py (Option Lookup) :=
  if mirrorType = "url".toList ∧ n.type = "DOMAIN".toList then
    .ok (some ⟨.hostIoc, "url".toList, lower n.value⟩)
  else if mirrorType = "url".toList ∧ n.type = "URL".toList then
    .ok (some ⟨.iocValue, "url".toList, lower n.value⟩)
  else if mirrorType = "domain".toList ∧ n.type = "URL".toList then
    urlHost n.value >>= fun host ↦
      if host = [] then .ok none else .ok (some ⟨.iocValue, "domain".toList, host⟩)
  else .ok (some ⟨.iocValue, mirrorType, lower n.value⟩)

theorem pairOf_ok (mirrorType : Text) {iocType : Text} {n : Normalized} (h : Usable iocType n) :
    ∃ pair, pairOf mirrorType n = .ok pair := by
  rw [pairOf]
  split
  · exact ⟨_, rfl⟩
  · split
    · exact ⟨_, rfl⟩
    · split
      next hurl =>
        obtain ⟨host, hhost⟩ := (h.url hurl.2).2.1
        rw [hhost, ok_bind]
        split
        · exact ⟨_, rfl⟩
        · exact ⟨_, rfl⟩
      next => exact ⟨_, rfl⟩

variable [IpAddresses]

theorem normalizeIoc_usable {iocType iocValue : Text} {n : Normalized}
    (h : normalizeIoc iocType iocValue = .ok (some n)) : Usable iocType n := by
  rw [normalizeIoc] at h
  dsimp only at h
  split at h
  · cases h
  · split at h
    next hip =>
      have hnot : "IP".toList ≠ "DOMAIN".toList ∧ "IP".toList ≠ "URL".toList := by decide
      split at h
      · cases h
      · cases h
        exact ⟨rfl, fun hd ↦ absurd (hip.symm.trans hd) hnot.1, fun hu ↦ absurd (hip.symm.trans hu) hnot.2⟩
    next =>
      split at h
      next hdomain =>
        have hnot : "DOMAIN".toList ≠ "URL".toList := by decide
        split at h
        · cases h
        next hvalue =>
          cases h
          exact ⟨rfl, fun _ hnil ↦ hvalue (.inl hnil), fun hu ↦ absurd (hdomain.symm.trans hu) hnot⟩
      next hdomain =>
        split at h
        next hurl =>
          obtain ⟨value, hvalue, h⟩ := bind_eq_ok.mp h
          split at h
          · cases h
          next hlength =>
            obtain ⟨host, hhost, h⟩ := bind_eq_ok.mp h
            cases h
            refine ⟨rfl, fun hd ↦ absurd hd hdomain, fun _ ↦ ⟨⟨_, hvalue⟩, ⟨host, hhost⟩, ?_⟩⟩
            rintro rfl
            exact hlength (by decide)
        next hurl =>
          split at h
          · split at h
            · cases h
            · cases h
              exact ⟨rfl, fun hd ↦ absurd hd hdomain, fun hu ↦ absurd hu hurl⟩
          · cases h
            exact ⟨rfl, fun hd ↦ absurd hd hdomain, fun hu ↦ absurd hu hurl⟩

theorem mirrorLookupPair_some (desc : SourceDescriptor) {iocType iocValue : Text} {n : Normalized}
    (h : normalizeIoc iocType iocValue = .ok (some n)) : mirrorLookupPair desc iocType iocValue =
      (desc.canonicalType iocType).elim (.ok none) fun mirrorType ↦ pairOf mirrorType n := by
  rw [mirrorLookupPair]
  cases desc.canonicalType iocType with
  | none => rfl
  | some mirrorType =>
    dsimp only
    rw [h]
    rfl

theorem mirrorLookupPair_none (desc : SourceDescriptor) {iocType iocValue : Text}
    (h : normalizeIoc iocType iocValue = .ok none) : mirrorLookupPair desc iocType iocValue = .ok none := by
  rw [mirrorLookupPair]
  cases desc.canonicalType iocType with
  | none => rfl
  | some mirrorType =>
    dsimp only
    rw [h]
    rfl

theorem mirrorLookupPair_ok (desc : SourceDescriptor) {iocType iocValue : Text} {n : Option Normalized}
    (h : normalizeIoc iocType iocValue = .ok n) : ∃ pair, mirrorLookupPair desc iocType iocValue = .ok pair := by
  cases n with
  | none => exact ⟨none, mirrorLookupPair_none desc h⟩
  | some n =>
    rw [mirrorLookupPair_some desc h]
    cases desc.canonicalType iocType with
    | none => exact ⟨none, rfl⟩
    | some mirrorType => exact pairOf_ok mirrorType (normalizeIoc_usable h)

theorem iocEdgeKey_some {iocType iocValue : Text} {key : EdgeKey} (h : iocEdgeKey iocType iocValue = .ok (some key)) :
    ∃ n, normalizeIoc iocType iocValue = .ok (some n) ∧ key = (n.type, lower n.value) := by
  obtain ⟨n, hn, h⟩ := bind_eq_ok.mp h
  cases n with
  | none => cases h
  | some n =>
    cases h
    exact ⟨n, hn, rfl⟩

/-- Edges of one key look up the same. -/
theorem mirrorLookupPair_congr (desc : SourceDescriptor) {e e' : Edge} {key : EdgeKey}
    (h : iocEdgeKey e.1 e.2 = .ok (some key)) (h' : iocEdgeKey e'.1 e'.2 = .ok (some key)) :
    mirrorLookupPair desc e.1 e.2 = mirrorLookupPair desc e'.1 e'.2 := by
  obtain ⟨n, hn, rfl⟩ := iocEdgeKey_some h
  obtain ⟨n', hn', heq⟩ := iocEdgeKey_some h'
  obtain ⟨htype, hvalue⟩ := Prod.mk.inj heq
  have hu := normalizeIoc_usable hn
  have hu' := normalizeIoc_usable hn'
  have hcanonical : desc.canonicalType e.1 = desc.canonicalType e'.1 := by
    rw [SourceDescriptor.canonicalType, SourceDescriptor.canonicalType, ← hu.type, ← hu'.type, htype]
  rw [mirrorLookupPair_some desc hn, mirrorLookupPair_some desc hn', hcanonical]
  cases desc.canonicalType e'.1 with
  | none => rfl
  | some mirrorType =>
    rw [Option.elim_some, Option.elim_some, pairOf, pairOf, ← htype, ← hvalue]
    by_cases hurl : n.type = "URL".toList
    · obtain ⟨v, hv⟩ := (hu.url hurl).1
      obtain ⟨v', hv'⟩ := (hu'.url (htype ▸ hurl)).1
      rw [urlHost_congr hv hv' hvalue]
    · simp only [hurl, and_false, if_false]

/-- What a source looks up for an edge: suppressed hosts are left out. -/
structure Looks (suppress : Finset Text) (desc : SourceDescriptor) (edge : Edge) (pair : Lookup) : Prop where
  looked : mirrorLookupPair desc edge.1 edge.2 = .ok (some pair)
  kept : ¬(pair.column = .hostIoc ∧ pair.value ∈ suppress)

theorem addLookup_spec (suppress : Finset Text) (desc : SourceDescriptor) {lookup : Dict EdgeKey Lookup}
    {entry : EdgeKey × Edge} {n : Option Normalized} (h : normalizeIoc entry.2.1 entry.2.2 = .ok n)
    (hnew : lookup.get? entry.1 = none) : ∃ lookup', addLookup desc suppress lookup entry = .ok lookup' ∧
      ∀ key pair, lookup'.get? key = some pair ↔
        (key = entry.1 ∧ Looks suppress desc entry.2 pair) ∨ lookup.get? key = some pair := by
  obtain ⟨found, hfound⟩ := mirrorLookupPair_ok desc h
  have hskip : (∀ pair, ¬Looks suppress desc entry.2 pair) → ∀ key pair, lookup.get? key = some pair ↔
      (key = entry.1 ∧ Looks suppress desc entry.2 pair) ∨ lookup.get? key = some pair := by
    intro hnone key pair
    exact ⟨.inr, fun h ↦ h.resolve_left fun h ↦ hnone pair h.2⟩
  rw [addLookup, hfound, ok_bind]
  cases found with
  | none =>
    refine ⟨lookup, rfl, hskip fun pair hlooks ↦ ?_⟩
    have heq := hfound.symm.trans hlooks.looked
    cases heq
  | some found =>
    dsimp only
    split
    next hsuppressed =>
      refine ⟨lookup, rfl, hskip fun pair hlooks ↦ ?_⟩
      obtain rfl := Option.some.inj (Except.ok.inj (hfound.symm.trans hlooks.looked))
      exact hlooks.kept hsuppressed
    next hkept =>
      refine ⟨_, rfl, fun key pair ↦ ?_⟩
      rw [Dict.get?_set]
      split
      next hkey =>
        rw [hkey, hnew]
        constructor
        · intro heq
          obtain rfl := Option.some.inj heq
          exact .inl ⟨rfl, hfound, hkept⟩
        · rintro (⟨-, hlooks⟩ | heq)
          · exact congrArg some (Option.some.inj (Except.ok.inj (hfound.symm.trans hlooks.looked)))
          · cases heq
      next hkey => exact ⟨.inr, fun h ↦ h.resolve_left fun h ↦ hkey h.1⟩

theorem lookups_items (suppress : Finset Text) (desc : SourceDescriptor) {entries : List (EdgeKey × Edge)}
    (hnodup : (entries.map Prod.fst).Nodup) (h : ∀ entry ∈ entries, ∃ n, normalizeIoc entry.2.1 entry.2.2 = .ok n) :
    ∃ lookup, entries.foldlM (addLookup desc suppress) .empty = .ok lookup ∧
      ∀ key pair, lookup.get? key = some pair ↔ ∃ edge, (key, edge) ∈ entries ∧ Looks suppress desc edge pair := by
  induction entries using List.reverseRecOn with
  | nil => exact ⟨.empty, rfl, fun key pair ↦ by simp⟩
  | append_singleton entries entry ih =>
    rw [List.map_append, List.nodup_append] at hnodup
    obtain ⟨hnodup, -, hdisjoint⟩ := hnodup
    obtain ⟨lookup, hlookup, hspec⟩ := ih hnodup fun entry hentry ↦ h entry (List.mem_append_left _ hentry)
    obtain ⟨n, hn⟩ := h entry (List.mem_append_right _ (.head _))
    have hnew : lookup.get? entry.1 = none := by
      refine Option.eq_none_iff_forall_ne_some.mpr fun pair hpair ↦ ?_
      obtain ⟨edge, hedge, -⟩ := (hspec _ _).mp hpair
      exact hdisjoint _ (List.mem_map_of_mem hedge) _ (.head _) rfl
    obtain ⟨lookup', hlookup', hspec'⟩ := addLookup_spec suppress desc hn hnew
    refine ⟨lookup', ?_, fun key pair ↦ ?_⟩
    · rw [List.foldlM_append, hlookup, ok_bind, List.foldlM_cons, hlookup']
      rfl
    · rw [hspec', hspec]
      constructor
      · rintro (⟨rfl, hlooks⟩ | ⟨edge, hedge, hlooks⟩)
        · exact ⟨entry.2, List.mem_append_right _ (.head _), hlooks⟩
        · exact ⟨edge, List.mem_append_left _ hedge, hlooks⟩
      · rintro ⟨edge, hedge, hlooks⟩
        rcases List.mem_append.mp hedge with hedge | hedge
        · exact .inr ⟨edge, hedge, hlooks⟩
        · obtain rfl := List.mem_singleton.mp hedge
          exact .inl ⟨rfl, hlooks⟩

theorem lookups_spec (suppress : Finset Text) (desc : SourceDescriptor) {keys : Dict EdgeKey Edge}
    (h : ∀ key edge, keys.get? key = some edge → ∃ n, normalizeIoc edge.1 edge.2 = .ok n) :
    ∃ lookup, lookups desc suppress keys = .ok lookup ∧ ∀ key pair, lookup.get? key = some pair ↔
      ∃ edge, keys.get? key = some edge ∧ Looks suppress desc edge pair := by
  obtain ⟨lookup, hlookup, hspec⟩ := lookups_items suppress desc keys.nodup fun entry hentry ↦
    h entry.1 entry.2 (Dict.mem_items_iff.mp hentry)
  refine ⟨lookup, hlookup, fun key pair ↦ ?_⟩
  rw [hspec]
  exact exists_congr fun edge ↦ and_congr_left' Dict.mem_items_iff

/-- The key of each edge is in the dictionary, with an edge of that key. -/
theorem edgeKeys_spec {iocs : List Edge} (h : ∀ edge ∈ iocs, ∃ n, normalizeIoc edge.1 edge.2 = .ok n) :
    ∃ keys, edgeKeys iocs = .ok keys ∧
      (∀ key edge, keys.get? key = some edge → edge ∈ iocs ∧ iocEdgeKey edge.1 edge.2 = .ok (some key)) ∧
        ∀ edge ∈ iocs, ∀ key, iocEdgeKey edge.1 edge.2 = .ok (some key) → ∃ edge', keys.get? key = some edge' := by
  induction iocs using List.reverseRecOn with
  | nil => exact ⟨.empty, rfl, fun key edge h ↦ by simp at h, fun edge hedge ↦ absurd hedge List.not_mem_nil⟩
  | append_singleton iocs edge ih =>
    obtain ⟨keys, hkeys, hsound, hcomplete⟩ := ih fun edge hedge ↦ h edge (List.mem_append_left _ hedge)
    obtain ⟨n, hn⟩ := h edge (List.mem_append_right _ (.head _))
    have hfold : edgeKeys (iocs ++ [edge]) = addEdge keys edge := by
      rw [edgeKeys, List.foldlM_append, ← edgeKeys, hkeys, ok_bind, List.foldlM_cons]
      exact bind_pure _
    have hsound' : ∀ key edge', keys.get? key = some edge' →
        edge' ∈ iocs ++ [edge] ∧ iocEdgeKey edge'.1 edge'.2 = .ok (some key) :=
      fun key edge' hedge' ↦ ⟨List.mem_append_left _ (hsound key edge' hedge').1, (hsound key edge' hedge').2⟩
    cases n with
    | none =>
      have hnone : iocEdgeKey edge.1 edge.2 = .ok none := by
        rw [iocEdgeKey, hn]
        rfl
      refine ⟨keys, ?_, hsound', fun edge' hedge' key hkey ↦ ?_⟩
      · rw [hfold, addEdge, hnone]
        rfl
      · rcases List.mem_append.mp hedge' with hedge' | hedge'
        · exact hcomplete edge' hedge' key hkey
        · obtain rfl := List.mem_singleton.mp hedge'
          rw [hnone] at hkey
          cases hkey
    | some n =>
      have hsome : iocEdgeKey edge.1 edge.2 = .ok (some (n.type, lower n.value)) := by
        rw [iocEdgeKey, hn]
        rfl
      refine ⟨keys.set (n.type, lower n.value) edge, ?_, fun key edge' hedge' ↦ ?_, fun edge' hedge' key hkey ↦ ?_⟩
      · rw [hfold, addEdge, hsome]
        rfl
      · rw [Dict.get?_set] at hedge'
        split at hedge'
        next heq =>
          obtain rfl := Option.some.inj hedge'
          rw [heq]
          exact ⟨List.mem_append_right _ (.head _), hsome⟩
        next => exact hsound' key edge' hedge'
      · rw [Dict.get?_set]
        split
        next => exact ⟨edge, rfl⟩
        next hne =>
          rcases List.mem_append.mp hedge' with hedge' | hedge'
          · exact hcomplete edge' hedge' key hkey
          · obtain rfl := List.mem_singleton.mp hedge'
            exact absurd (Option.some.inj (Except.ok.inj (hkey.symm.trans hsome))) hne

/-- Where an edge is joined by a host, or by a value of a mirror of URLs, there is a text to join by. -/
theorem Looks.shape {suppress : Finset Text} {desc : SourceDescriptor} {edge : Edge} {pair : Lookup}
    (h : Looks suppress desc edge pair) (hdesc : desc ∈ catalogSources) :
    (pair.column = .hostIoc → pair.mirrorType = "url".toList) ∧ (pair.mirrorType = "url".toList → pair.value ≠ []) := by
  obtain ⟨n, hn⟩ : ∃ n, normalizeIoc edge.1 edge.2 = .ok (some n) := by
    have hlooked := h.looked
    rw [mirrorLookupPair] at hlooked
    split at hlooked
    · cases hlooked
    · obtain ⟨n, hn, hlooked⟩ := bind_eq_ok.mp hlooked
      cases n with
      | none => cases hlooked
      | some n => exact ⟨n, hn⟩
  have hu := normalizeIoc_usable hn
  have hlooked := h.looked
  rw [mirrorLookupPair_some desc hn] at hlooked
  cases hcanonical : desc.canonicalType edge.1 with
  | none =>
    rw [hcanonical] at hlooked
    cases hlooked
  | some mirrorType =>
    rw [hcanonical, Option.elim_some, pairOf] at hlooked
    split at hlooked
    next hdomain =>
      obtain rfl := Option.some.inj (Except.ok.inj hlooked)
      exact ⟨fun _ ↦ rfl, fun _ ↦ lower_ne_nil (hu.domain hdomain.2)⟩
    next hdomain =>
      split at hlooked
      next hurl =>
        obtain rfl := Option.some.inj (Except.ok.inj hlooked)
        exact ⟨fun _ ↦ rfl, fun _ ↦ lower_ne_nil (hu.url hurl.2).2.2⟩
      next hurl =>
        split at hlooked
        · obtain ⟨host, -, hlooked⟩ := bind_eq_ok.mp hlooked
          split at hlooked
          · cases hlooked
          · obtain rfl := Option.some.inj (Except.ok.inj hlooked)
            have hnot : "domain".toList ≠ "url".toList := by decide
            exact ⟨fun hcolumn ↦ absurd hcolumn JoinColumn.noConfusion, fun htype ↦ absurd htype hnot⟩
        · obtain rfl := Option.some.inj (Except.ok.inj hlooked)
          refine ⟨fun hcolumn ↦ absurd hcolumn JoinColumn.noConfusion, fun htype ↦ ?_⟩
          -- No source takes another type for a URL or a domain of a mirror of URLs.
          have htypes : ∀ desc ∈ catalogSources, ∀ entry ∈ desc.mirrorTypeMap, entry.2 = "url".toList →
              entry.1 = "DOMAIN".toList ∨ entry.1 = "URL".toList := by decide
          obtain rfl : mirrorType = "url".toList := htype
          obtain ⟨before, after, hmap, -⟩ := List.lookup_eq_some_iff.mp hcanonical
          have hentry : (normalizeIocType edge.1, "url".toList) ∈ desc.mirrorTypeMap :=
            hmap ▸ List.mem_append_right _ (.head _)
          rcases htypes desc hdesc _ hentry rfl with htype | htype
          · exact absurd ⟨rfl, hu.type.trans htype⟩ hdomain
          · exact absurd ⟨rfl, hu.type.trans htype⟩ hurl

/-- The join of one edge with one row: by the edge's own lookup. -/
def edgeSelects (suppress : Finset Text) (desc : SourceDescriptor) (edge : Edge) (row : MirrorRow) : Bool :=
  match mirrorLookupPair desc edge.1 edge.2 with
  | .ok (some pair) => !decide (pair.column = .hostIoc ∧ pair.value ∈ suppress) && pair.selects row
  | _ => false

/-- The rows of a source that an edge selects. -/
def selectedRows (db : Mirror) (suppress : Finset Text) (edge : Edge) (desc : SourceDescriptor) : List Evidence :=
  (db.rows.filter fun row ↦ row.source == desc.sourceKey && edgeSelects suppress desc edge row).map MirrorRow.toEvidence

/-- The join of one edge on its own: source by source and row by row. -/
def nestedLoop (db : Mirror) (suppress : Finset Text) (edge : Edge) : List Evidence :=
  catalogSources.flatMap (selectedRows db suppress edge)

theorem edgeSelects_iff {suppress : Finset Text} {desc : SourceDescriptor} {edge : Edge} {row : MirrorRow} :
    edgeSelects suppress desc edge row = true ↔ ∃ pair, Looks suppress desc edge pair ∧ pair.selects row = true := by
  rw [edgeSelects]
  constructor
  · intro h
    split at h
    next pair hpair =>
      obtain ⟨hkept, hselects⟩ := Bool.and_eq_true_iff.mp h
      exact ⟨pair, ⟨hpair, of_decide_eq_false ((Bool.not_eq_true' _).mp hkept)⟩, hselects⟩
    next => cases h
  · rintro ⟨pair, hlooks, hselects⟩
    rw [hlooks.looked]
    exact Bool.and_eq_true_iff.mpr ⟨(Bool.not_eq_true' _).mpr (decide_eq_false hlooks.kept), hselects⟩

variable [Digests] {db : Mirror} {suppress : Finset Text}

/-- The reverse index gives a row to the edges that select it. -/
theorem Looks.mem_candidates {suppress : Finset Text} {desc : SourceDescriptor} {edge : Edge} {pair : Lookup}
    (h : Looks suppress desc edge pair) (hdesc : desc ∈ catalogSources) {row : MirrorRow} (hrow : Stored row) :
    pair ∈ row.candidates ↔ pair.selects row = true := by
  obtain ⟨hhost, hvalue⟩ := h.shape hdesc
  rw [hrow.mem_candidates, Lookup.selects, Bool.and_eq_true, beq_iff_eq]
  refine and_congr_right' ?_
  rw [and_iff_right hvalue]
  cases hcolumn : pair.column with
  | hostIoc =>
    have hne := hvalue (hhost hcolumn)
    cases hcell : row.hostIoc with
    | none =>
      refine iff_of_false ?_ Bool.false_ne_true
      rintro (⟨hcolumn, -⟩ | ⟨-, -, hnil⟩)
      · cases hcolumn
      · exact hne hnil.symm
    | some host =>
      rw [Option.any_some, (hrow.host host hcell).2, beq_iff_eq]
      constructor
      · rintro (⟨hcolumn, -⟩ | ⟨-, -, heq⟩)
        · cases hcolumn
        · exact heq
      · exact fun heq ↦ .inr ⟨rfl, hhost hcolumn, heq⟩
  | iocValue =>
    dsimp only
    rw [hrow.value.2, beq_iff_eq]
    constructor
    · rintro (⟨-, heq⟩ | ⟨hcolumn, -⟩)
      · exact heq
      · cases hcolumn
    · exact fun heq ↦ .inl ⟨rfl, heq⟩

theorem matched_rows {desc : SourceDescriptor} (hdesc : desc ∈ catalogSources) (hrows : ∀ row ∈ db.rows, Stored row)
    {keys : Dict EdgeKey Edge} {lookup : Dict EdgeKey Lookup} (hlookup : ∀ key pair, lookup.get? key = some pair ↔
      ∃ edge, keys.get? key = some edge ∧ Looks suppress desc edge pair) (key : EdgeKey) :
    ((sourceRows db desc lookup).filter fun row ↦ key ∈ matchedKeys (reverseIndex lookup) row) =
      (keys.get? key).elim [] fun edge ↦ selectedRows db suppress edge desc := by
  rw [sourceRows, List.filter_map, List.filter_filter]
  cases hkey : keys.get? key with
  | none =>
    rw [Option.elim_none, List.map_eq_nil_iff, List.filter_eq_nil_iff]
    intro row _ hmatched
    obtain ⟨candidate, -, hcandidate⟩ := mem_matchedKeys.mp (of_decide_eq_true (Bool.and_eq_true_iff.mp hmatched).1)
    obtain ⟨edge, hedge, -⟩ := (hlookup _ _).mp hcandidate
    rw [hkey] at hedge
    cases hedge
  | some edge =>
    rw [Option.elim_some, selectedRows]
    refine congrArg (List.map MirrorRow.toEvidence) (List.filter_congr fun row hrow ↦ ?_)
    have hlooks : ∀ pair, lookup.get? key = some pair ↔ Looks suppress desc edge pair := by
      intro pair
      rw [hlookup, hkey]
      exact ⟨fun ⟨edge', hedge', h⟩ ↦ Option.some.inj hedge' ▸ h, fun h ↦ ⟨edge, rfl, h⟩⟩
    rw [Bool.eq_iff_iff, Bool.and_eq_true, Bool.and_eq_true, Bool.and_eq_true, edgeSelects_iff]
    constructor
    · rintro ⟨hmatched, hsource, -⟩
      obtain ⟨pair, hpair, hlookup'⟩ := mem_matchedKeys.mp (of_decide_eq_true hmatched)
      have h := (hlooks pair).mp hlookup'
      exact ⟨hsource, pair, h, (h.mem_candidates hdesc (hrows row hrow)).mp hpair⟩
    · rintro ⟨hsource, pair, h, hselects⟩
      have hlookup' := (hlooks pair).mpr h
      refine ⟨decide_eq_true (mem_matchedKeys.mpr ⟨pair, ?_, hlookup'⟩), hsource,
        List.any_eq_true.mpr ⟨(key, pair), ?_, ?_⟩⟩
      · exact (h.mem_candidates hdesc (hrows row hrow)).mpr hselects
      · exact Dict.mem_items_iff.mpr hlookup'
      · exact clause_of_selects (hrows row hrow) hselects

theorem addSource_found {desc : SourceDescriptor} (hdesc : desc ∈ catalogSources)
    (hrows : ∀ row ∈ db.rows, Stored row) {keys : Dict EdgeKey Edge}
    (hkeys : ∀ key edge, keys.get? key = some edge → ∃ n, normalizeIoc edge.1 edge.2 = .ok n)
    (hits : Dict EdgeKey (List Evidence)) : ∃ hits', addSource db suppress keys hits desc = .ok hits' ∧
      ∀ key, found hits' key = found hits key ++ (keys.get? key).elim [] fun edge ↦
        selectedRows db suppress edge desc := by
  obtain ⟨lookup, hlookup, hspec⟩ := lookups_spec suppress desc hkeys
  rw [addSource, hlookup, ok_bind]
  split
  next hnil =>
    refine ⟨hits, rfl, fun key ↦ ?_⟩
    have hnone : sourceRows db desc lookup = [] := by
      rw [sourceRows, hnil, List.map_eq_nil_iff, List.filter_eq_nil_iff]
      intro row _ h
      exact Bool.false_ne_true (Bool.and_eq_true_iff.mp h).2
    rw [← matched_rows hdesc hrows hspec key, hnone, List.filter_nil, List.append_nil]
  next =>
    refine ⟨_, rfl, fun key ↦ ?_⟩
    rw [found_record, matched_rows hdesc hrows hspec key]

theorem addSources_found {sources : List SourceDescriptor} (hsources : sources ⊆ catalogSources)
    (hrows : ∀ row ∈ db.rows, Stored row) {keys : Dict EdgeKey Edge}
    (hkeys : ∀ key edge, keys.get? key = some edge → ∃ n, normalizeIoc edge.1 edge.2 = .ok n)
    (hits : Dict EdgeKey (List Evidence)) : ∃ hits', sources.foldlM (addSource db suppress keys) hits = .ok hits' ∧
      ∀ key, found hits' key =
        found hits key ++ (keys.get? key).elim [] fun edge ↦ sources.flatMap (selectedRows db suppress edge) := by
  induction sources generalizing hits with
  | nil => exact ⟨hits, rfl, fun key ↦ by cases keys.get? key <;> simp⟩
  | cons desc sources ih =>
    obtain ⟨hdesc, hsources⟩ := List.cons_subset.mp hsources
    obtain ⟨hits₁, hfirst, hfound₁⟩ := addSource_found hdesc hrows hkeys hits
    obtain ⟨hits₂, hrest, hfound₂⟩ := ih hsources hits₁
    refine ⟨hits₂, ?_, fun key ↦ ?_⟩
    · rw [List.foldlM_cons, hfirst, ok_bind, hrest]
    · rw [hfound₂, hfound₁, List.append_assoc]
      cases keys.get? key with
      | none => rfl
      | some edge => rfl

/-- Fetching the rows of all edges at once and giving them out by the reverse index gives each edge the rows of its own
join, whatever other edges are looked up with it. -/
theorem batch_eq_nestedLoop {iocs : List Edge} (hrows : ∀ row ∈ db.rows, Stored row)
    (hiocs : ∀ edge ∈ iocs, ∃ n, normalizeIoc edge.1 edge.2 = .ok n) :
    ∃ hits, batchSourceEvidence db iocs suppress = .ok hits ∧
      (∀ edge ∈ iocs, ∀ key, iocEdgeKey edge.1 edge.2 = .ok (some key) → found hits key = nestedLoop db suppress edge) ∧
        ∀ key, found hits key ≠ [] → ∃ edge ∈ iocs, iocEdgeKey edge.1 edge.2 = .ok (some key) := by
  obtain ⟨keys, hkeys, hsound, hcomplete⟩ := edgeKeys_spec hiocs
  have hnormal : ∀ key edge, keys.get? key = some edge → ∃ n, normalizeIoc edge.1 edge.2 = .ok n :=
    fun key edge h ↦ hiocs edge (hsound key edge h).1
  obtain ⟨hits, hhits, hfound⟩ := addSources_found (List.Subset.refl catalogSources) hrows hnormal .empty
  have hempty : ∀ key, found .empty key = [] := fun key ↦ rfl
  have hjoin : ∀ edge ∈ iocs, ∀ key, iocEdgeKey edge.1 edge.2 = .ok (some key) →
      found hits key = nestedLoop db suppress edge := by
    intro edge hedge key hkey
    obtain ⟨edge', hedge'⟩ := hcomplete edge hedge key hkey
    have hsame : ∀ desc, selectedRows db suppress edge' desc = selectedRows db suppress edge desc := by
      intro desc
      have hpair := mirrorLookupPair_congr desc (hsound key edge' hedge').2 hkey
      simp only [selectedRows, edgeSelects, hpair]
    rw [hfound, hempty, hedge', List.nil_append, Option.elim_some, nestedLoop]
    exact List.flatMap_congr fun desc _ ↦ hsame desc
  have hother : ∀ key, found hits key ≠ [] → ∃ edge ∈ iocs, iocEdgeKey edge.1 edge.2 = .ok (some key) := by
    intro key hne
    rw [hfound, hempty] at hne
    cases hkey : keys.get? key with
    | none =>
      rw [hkey] at hne
      exact absurd rfl hne
    | some edge => exact ⟨edge, hsound key edge hkey⟩
  rw [batchSourceEvidence]
  split
  next hnil =>
    refine ⟨.empty, rfl, fun edge hedge ↦ ?_, fun key hne ↦ absurd rfl hne⟩
    rw [hnil] at hedge
    cases hedge
  next =>
    rw [hkeys, ok_bind]
    split
    next hnil =>
      refine ⟨.empty, rfl, fun edge hedge key hkey ↦ ?_, fun key hne ↦ absurd rfl hne⟩
      obtain ⟨edge', hedge'⟩ := hcomplete edge hedge key hkey
      rw [← Dict.mem_items_iff, hnil] at hedge'
      cases hedge'
    next => exact ⟨hits, hhits, hjoin, hother⟩

end

section
local instance joinCasing : Casing := asciiCasing fun _ ↦ none

local instance joinNetlocs : Netlocs := ⟨fun _ ↦ true, fun _ _ ↦ rfl, fun _ _ ↦ rfl⟩

local instance joinAddresses : IpAddresses := noAddresses

def evilUrl : Text := "http://evil.example/a".toList

def evilHost : Text := "evil.example".toList

/-- The digest of the one value that is stored. -/
local instance joinDigests : Digests where
  md5 text := if text = evilUrl then "9b3004124a627a63316611589754511a".toList else []
  sqlLower := lower
  sqlLower_lower _ h := h

/-- A URLhaus row with its host. -/
def evilRow : MirrorRow where
  source := "urlhaus".toList
  refId := "1".toList
  iocType := "url".toList
  iocValue := evilUrl
  hostIoc := some evilHost
  malware := none
  threatType := none
  confidenceLevel := none
  firstSeen := none
  iocValueDigest := "9b3004124a627a63316611589754511a".toList

def evilMirror : Mirror := ⟨[evilRow], List.nodup_singleton _⟩

def evilEdges : List Edge := [("URL".toList, "hxxp://evil[.]example/a".toList), ("DOMAIN".toList, evilHost)]

/-- With its host suppressed, the row is found for the URL and not for the domain. -/
theorem batch_of_suppressed_host : ∃ hits, batchSourceEvidence evilMirror evilEdges {evilHost} = .ok hits ∧
    found hits ("URL".toList, evilUrl) = [evilRow.toEvidence] ∧ found hits ("DOMAIN".toList, evilHost) = [] := by
  have hrow : Stored evilRow := ⟨⟨rfl, rfl⟩, ⟨rfl, rfl⟩, fun host h ↦ Option.some.inj h ▸ ⟨rfl, rfl⟩, rfl⟩
  have hrows : ∀ row ∈ evilMirror.rows, Stored row := List.forall_mem_singleton.mpr hrow
  have hiocs : ∀ edge ∈ evilEdges, ∃ n, normalizeIoc edge.1 edge.2 = .ok n := by
    intro edge hedge
    rcases List.mem_cons.mp hedge with rfl | hedge
    · exact ⟨_, rfl⟩
    · obtain rfl := List.mem_singleton.mp hedge
      exact ⟨_, rfl⟩
  obtain ⟨hits, hhits, hfound, -⟩ := @batch_eq_nestedLoop _ _ _ _ evilMirror {evilHost} evilEdges hrows hiocs
  refine ⟨hits, hhits, ?_, ?_⟩
  · exact (hfound _ (.head _) ("URL".toList, evilUrl) rfl).trans rfl
  · exact (hfound _ (.tail _ (.head _)) ("DOMAIN".toList, evilHost) rfl).trans rfl

end

end Briefr.Correlation.SourceEvidence
