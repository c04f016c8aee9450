import Briefr.Investigations.Hops
import Briefr.Investigations.Opened
import Briefr.Investigations.Paging

namespace Briefr.Investigations

open Briefr.Python Briefr.Python.Urllib Briefr.Library Briefr.Library.StableSort Briefr.Routers.CveFeed
open Briefr.Blocklist Briefr.Correlation.IocNormalize

theorem raising_ok_iff {α : Type} {x : Py α} {a : α} : raising x = .ok a ↔ x = .ok a := by
  cases x with
  | error e => exact ⟨fun h ↦ (by cases h), fun h ↦ (by cases h)⟩
  | ok b => exact ⟨fun h ↦ congrArg Except.ok (Except.ok.inj h), fun h ↦ congrArg Except.ok (Except.ok.inj h)⟩

theorem unguarded_ok_iff {α : Type} {answer : Option α} {a : α} : unguarded answer = .ok a ↔ answer = some a := by
  cases answer with
  | none => exact ⟨fun h ↦ (by cases h), fun h ↦ (by cases h)⟩
  | some b => exact ⟨fun h ↦ congrArg some (Except.ok.inj h), fun h ↦ congrArg Except.ok (Option.some.inj h)⟩

theorem mapM_ok_iff {α β : Type} {f : α → Py β} {as : List α} :
    (∃ bs, as.mapM f = .ok bs) ↔ ∀ a ∈ as, ∃ b, f a = .ok b := by
  refine ⟨fun ⟨bs, h⟩ a ha ↦ ?_, mapM_defined⟩
  obtain ⟨b, -, hb⟩ := mem_of_mapM h ha
  exact ⟨b, hb⟩

/-- The `after_edge_id` of a cursor. -/
def cursorEdge [Interp] (cursor : Option Text) : Value :=
  if cursor.getD [] = [] then .none else decodeCursor (cursor.getD [])

/-- The cursor names an edge by a text, or none. -/
def TextCursor [Interp] (cursor : Option Text) : Prop :=
  (cursorEdge cursor).truthy = false ∨ ∃ edgeId, cursorEdge cursor = .str edgeId

section
variable [Casing] [Netlocs] [IpAddresses]

/-- `normalize_ioc` does not raise. -/
def Parses (iocType iocValue : Text) : Prop := ∃ normalized, normalizeIoc iocType iocValue = .ok normalized

/-- The pairs that the hop of a CVE looks up in the mirror. -/
def lookedUp (q : Queries) (cveId : Text) : List EdgeKey :=
  ((q.otxIocs cveId).getD []).flatMap fun row ↦
    match otxHop cveId row with
    | .ok hop => hop.2
    | .error _ => []

/-- The queries of an entity's hop that are not guarded answer, and its indicators can be read. -/
def Answers (q : Queries) (entity : EntityRef) : Prop :=
  match entity.entityType with
  | .cve =>
    (∀ row ∈ (q.otxIocs (upper entity.entityId)).getD [], Parses (row.iocType.getD []) (row.iocValue.getD [])) ∧
      ∀ hit ∈ (q.sourceEvidence (lookedUp q (upper entity.entityId))).getD [], Parses hit.1.1 hit.1.2
  | .ioc =>
    Parses (upper (cut ':' entity.entityId).1) (cut ':' entity.entityId).2 ∧
      ∀ normalized, normalizeIoc (upper (cut ':' entity.entityId).1) (cut ':' entity.entityId).2 = .ok (some normalized) →
        (q.cvesOfIoc normalized.type normalized.value).isSome ∧
          (q.sourceEvidence [(normalized.type, normalized.value)]).isSome ∧
          (q.cvesOfIoc normalized.type normalized.value = some [] →
            ∀ mirrorType ∈ mirrorIocType normalized.type, (q.mirrorIocs mirrorType normalized.value).isSome)
  | .technique => (q.cvesOfTechnique (upper entity.entityId)).isSome
  | .campaign => (q.cvesOfCampaign entity.entityId).isSome
  | .publication => ∀ pubId ∈ int entity.entityId, (q.cvesOfPublication pubId).isSome
  | .sigmaRule => False

/-- A guarded query of an entity's hop raises. -/
def Skips (q : Queries) (filters : RelationshipFilters) (entity : EntityRef) : Prop :=
  entity.entityType = .cve ∧
    (q.techniques (upper entity.entityId) = none ∨ q.otxIocs (upper entity.entityId) = none ∨
      q.sourceEvidence (lookedUp q (upper entity.entityId)) = none ∨ q.campaigns (upper entity.entityId) = none ∨
      q.sigmaRules (upper entity.entityId) = none ∨ q.relatedCves (upper entity.entityId) filters.limit = none ∨
      q.publications (upper entity.entityId) = none ∨
      filters.includeSemantic = true ∧ q.similarCves (upper entity.entityId) filters.limit = none)

theorem iocRefFromRow_ok_iff {iocType iocValue : Text} :
    (∃ ref, iocRefFromRow iocType iocValue = .ok ref) ↔ Parses iocType iocValue := by
  rw [iocRefFromRow, Parses]
  cases normalizeIoc iocType iocValue with
  | error e =>
    constructor
    · rintro ⟨_, h⟩
      cases h
    · rintro ⟨_, h⟩
      cases h
  | ok normalized =>
    refine ⟨fun _ ↦ ⟨normalized, rfl⟩, fun _ ↦ ?_⟩
    cases normalized with
    | none => exact ⟨_, rfl⟩
    | some normalized => exact ⟨_, rfl⟩

theorem cveRefFromOtxIndicator_ok_iff {iocType iocValue anchor : Text} :
    (∃ ref, cveRefFromOtxIndicator iocType iocValue anchor = .ok ref) ↔ Parses iocType iocValue := by
  rw [cveRefFromOtxIndicator, Parses]
  cases normalizeIoc iocType iocValue with
  | error e =>
    constructor
    · rintro ⟨_, h⟩
      cases h
    · rintro ⟨_, h⟩
      cases h
  | ok normalized =>
    refine ⟨fun _ ↦ ⟨normalized, rfl⟩, fun _ ↦ ?_⟩
    cases normalized with
    | none => exact ⟨_, rfl⟩
    | some normalized =>
      rw [ok_bind]
      dsimp only
      split
      · exact ⟨_, rfl⟩
      · split
        · exact ⟨_, rfl⟩
        · exact ⟨_, rfl⟩

theorem otxHop_ok_iff {cveId : Text} {row : OtxRow} :
    (∃ hop, otxHop cveId row = .ok hop) ↔ Parses (row.iocType.getD []) (row.iocValue.getD []) := by
  rw [otxHop]
  constructor
  · rintro ⟨hop, h⟩
    obtain ⟨ref, href, -⟩ := bind_eq_ok.mp h
    exact cveRefFromOtxIndicator_ok_iff.mp ⟨ref, href⟩
  · intro h
    obtain ⟨ref, href⟩ := cveRefFromOtxIndicator_ok_iff.mpr h
    obtain ⟨iocRef, hiocRef⟩ := iocRefFromRow_ok_iff.mpr h
    rw [href, ok_bind]
    cases ref with
    | some target => exact ⟨_, rfl⟩
    | none =>
      dsimp only
      rw [hiocRef, ok_bind]
      cases iocRef with
      | none => exact ⟨_, rfl⟩
      | some target => exact ⟨_, rfl⟩

theorem evidenceHop_ok_iff {hit : EdgeKey × List MirrorRow} :
    (∃ rows, evidenceHop hit = .ok rows) ↔ Parses hit.1.1 hit.1.2 := by
  rw [evidenceHop]
  constructor
  · rintro ⟨rows, h⟩
    obtain ⟨ref, href, -⟩ := bind_eq_ok.mp h
    exact iocRefFromRow_ok_iff.mp ⟨ref, href⟩
  · intro h
    obtain ⟨ref, href⟩ := iocRefFromRow_ok_iff.mpr h
    rw [href, ok_bind]
    cases ref with
    | none => exact ⟨_, rfl⟩
    | some target => exact ⟨_, rfl⟩

theorem lookedUp_eq {q : Queries} {cveId : Text} {hops : List (List HopRow × List EdgeKey)}
    (h : ((q.otxIocs cveId).getD []).mapM (otxHop cveId) = .ok hops) : hops.flatMap Prod.snd = lookedUp q cveId := by
  have hall : ∀ {rows : List OtxRow} {hops : List (List HopRow × List EdgeKey)},
      List.Forall₂ (fun row hop ↦ otxHop cveId row = .ok hop) rows hops →
        hops.flatMap Prod.snd = rows.flatMap fun row ↦
          match otxHop cveId row with
          | .ok hop => hop.2
          | .error _ => [] := by
    intro rows hops h
    induction h with
    | nil => rfl
    | cons hrow _ ih => rw [List.flatMap_cons, List.flatMap_cons, ih, hrow]
  exact hall (mapM_eq_ok.mp h)

theorem cveEdges_spec (q : Queries) (entityId : Text) (limit : ℕ) (includeSemantic : Bool) :
    (∃ r, cveEdges q entityId limit includeSemantic = .ok r) ↔
      (∀ row ∈ (q.otxIocs (upper entityId)).getD [], Parses (row.iocType.getD []) (row.iocValue.getD [])) ∧
        ∀ hit ∈ (q.sourceEvidence (lookedUp q (upper entityId))).getD [], Parses hit.1.1 hit.1.2 := by
  rw [cveEdges]
  constructor
  · rintro ⟨r, h⟩
    obtain ⟨otx, hotx, h⟩ := bind_eq_ok.mp h
    obtain ⟨evidence, hevidence, -⟩ := bind_eq_ok.mp h
    rw [raising_ok_iff] at hotx hevidence
    simp only [lookedUp_eq hotx] at hevidence
    exact ⟨fun row hrow ↦ otxHop_ok_iff.mp (mapM_ok_iff.mp ⟨otx, hotx⟩ row hrow),
      fun hit hhit ↦ evidenceHop_ok_iff.mp (mapM_ok_iff.mp ⟨evidence, hevidence⟩ hit hhit)⟩
  · rintro ⟨hrows, hhits⟩
    obtain ⟨otx, hotx⟩ := mapM_ok_iff.mpr fun row hrow ↦ otxHop_ok_iff.mpr (hrows row hrow)
    obtain ⟨evidence, hevidence⟩ := mapM_ok_iff.mpr fun hit hhit ↦ evidenceHop_ok_iff.mpr (hhits hit hhit)
    rw [← lookedUp_eq hotx] at hevidence
    refine ⟨_, bind_eq_ok.mpr ⟨otx, raising_ok_iff.mpr hotx, bind_eq_ok.mpr ⟨evidence, raising_ok_iff.mpr hevidence, rfl⟩⟩⟩

theorem cveEdges_skips {q : Queries} {entityId : Text} {limit : ℕ} {includeSemantic : Bool}
    {r : List HopRow × Bool} (h : cveEdges q entityId limit includeSemantic = .ok r)
    (hskips : q.techniques (upper entityId) = none ∨ q.otxIocs (upper entityId) = none ∨
      q.sourceEvidence (lookedUp q (upper entityId)) = none ∨ q.campaigns (upper entityId) = none ∨
      q.sigmaRules (upper entityId) = none ∨ q.relatedCves (upper entityId) limit = none ∨
      q.publications (upper entityId) = none ∨ includeSemantic = true ∧ q.similarCves (upper entityId) limit = none) :
    r.2 = true := by
  rw [cveEdges] at h
  obtain ⟨otx, hotx, h⟩ := bind_eq_ok.mp h
  obtain ⟨evidence, -, h⟩ := bind_eq_ok.mp h
  rw [raising_ok_iff] at hotx
  rw [lookedUp_eq hotx] at h
  obtain rfl := Except.ok.inj h
  simp only [guarded, Bool.or_eq_true, Option.isNone_iff_eq_none]
  rcases hskips with h | h | h | h | h | h | h | ⟨hsemantic, h⟩
  · simp [h]
  · simp [h]
  · simp [h]
  · simp [h]
  · simp [h]
  · simp [h]
  · simp [h]
  · simp [h, hsemantic]

omit [Netlocs] [IpAddresses] in
theorem mirrorIocExists_ok_iff {q : Queries} {canonType canonValue : Text} :
    (∃ b, mirrorIocExists q canonType canonValue = .ok b) ↔
      ∀ mirrorType ∈ mirrorIocType canonType, (q.mirrorIocs mirrorType canonValue).isSome := by
  rw [mirrorIocExists]
  cases mirrorIocType canonType with
  | none => simp
  | some mirrorType => simp [unguarded_ok_iff, Option.isSome_iff_exists]

theorem iocEdges_ok_iff {q : Queries} {entityId : Text} :
    (∃ r, iocEdges q entityId = .ok r) ↔
      Parses (upper (cut ':' entityId).1) (cut ':' entityId).2 ∧
        ∀ normalized, normalizeIoc (upper (cut ':' entityId).1) (cut ':' entityId).2 = .ok (some normalized) →
          (q.cvesOfIoc normalized.type normalized.value).isSome ∧
            (q.sourceEvidence [(normalized.type, normalized.value)]).isSome ∧
            (q.cvesOfIoc normalized.type normalized.value = some [] →
              ∀ mirrorType ∈ mirrorIocType normalized.type, (q.mirrorIocs mirrorType normalized.value).isSome) := by
  rw [iocEdges, Parses]
  cases normalizeIoc (upper (cut ':' entityId).1) (cut ':' entityId).2 with
  | error e =>
    constructor
    · rintro ⟨_, h⟩
      cases h
    · rintro ⟨⟨_, h⟩, -⟩
      cases h
  | ok result =>
    cases result with
    | none => exact ⟨fun _ ↦ ⟨⟨none, rfl⟩, fun _ h ↦ by cases h⟩, fun _ ↦ ⟨_, rfl⟩⟩
    | some normalized =>
      rw [raising, ok_bind]
      constructor
      · rintro ⟨r, h⟩
        obtain ⟨rows, hrows, h⟩ := bind_eq_ok.mp h
        obtain ⟨hits, hhits, h⟩ := bind_eq_ok.mp h
        rw [unguarded_ok_iff] at hrows hhits
        refine ⟨⟨_, rfl⟩, fun normalized' hnormalized ↦ ?_⟩
        obtain rfl := Option.some.inj (Except.ok.inj hnormalized)
        refine ⟨by rw [hrows]; rfl, by rw [hhits]; rfl, fun hnil ↦ ?_⟩
        rw [hrows] at hnil
        obtain rfl := Option.some.inj hnil
        obtain ⟨b, hb, -⟩ := bind_eq_ok.mp h
        exact mirrorIocExists_ok_iff.mp ⟨b, hb⟩
      · rintro ⟨-, hall⟩
        obtain ⟨hrows, hhits, hmirror⟩ := hall normalized rfl
        obtain ⟨rows, hrows⟩ := Option.isSome_iff_exists.mp hrows
        obtain ⟨hits, hhits⟩ := Option.isSome_iff_exists.mp hhits
        simp only [unguarded_ok_iff.mpr hrows, unguarded_ok_iff.mpr hhits, ok_bind]
        cases rows with
        | nil =>
          obtain ⟨b, hb⟩ := mirrorIocExists_ok_iff.mpr (hmirror hrows)
          exact ⟨([], b), bind_eq_ok.mpr ⟨b, hb, rfl⟩⟩
        | cons row rows => exact ⟨_, rfl⟩

omit [Casing] [Netlocs] [IpAddresses] in
theorem map_unguarded_ok_iff {α β : Type} {answer : Option α} {f : α → β} :
    (∃ r, (unguarded answer).map f = .ok r) ↔ answer.isSome := by
  cases answer with
  | none =>
    refine ⟨?_, fun h ↦ by cases h⟩
    rintro ⟨_, h⟩
    cases h
  | some a => exact ⟨fun _ ↦ rfl, fun _ ↦ ⟨f a, rfl⟩⟩

omit [Casing] [Netlocs] [IpAddresses] in
theorem map_ok_iff {ε α β : Type} {x : Except ε α} {f : α → β} :
    (∃ r, x.map f = .ok r) ↔ ∃ a, x = .ok a := by
  cases x with
  | error e =>
    constructor
    · rintro ⟨_, h⟩
      cases h
    · rintro ⟨_, h⟩
      cases h
  | ok a => exact ⟨fun _ ↦ ⟨a, rfl⟩, fun _ ↦ ⟨f a, rfl⟩⟩

/-- A hop of an entity is made exactly if it answers. -/
theorem edgesForEntity_ok_iff (q : Queries) (filters : RelationshipFilters) (entity : EntityRef) :
    (∃ r, edgesForEntity (hopsOf q) entity filters = .ok r) ↔ Answers q entity := by
  rw [edgesForEntity, map_ok_iff, hopRows, Answers]
  cases entity.entityType with
  | cve => exact cveEdges_spec q entity.entityId filters.limit filters.includeSemantic
  | ioc => exact iocEdges_ok_iff
  | technique => exact map_ok_iff.trans map_unguarded_ok_iff
  | campaign => exact map_ok_iff.trans map_unguarded_ok_iff
  | publication =>
    refine map_ok_iff.trans ?_
    change (∃ rows, publicationEdges q entity.entityId = .ok rows) ↔ _
    rw [publicationEdges]
    cases int entity.entityId with
    | none => simp
    | some pubId => simpa using map_unguarded_ok_iff
  | sigmaRule =>
    refine iff_of_false ?_ id
    rintro ⟨_, h⟩
    cases h

theorem degraded_of_skips {q : Queries} {filters : RelationshipFilters} {entity : EntityRef}
    {r : List CandidateEdge × Bool} (h : edgesForEntity (hopsOf q) entity filters = .ok r)
    (hskips : Skips q filters entity) : r.2 = true := by
  obtain ⟨htype, hskips⟩ := hskips
  rw [edgesForEntity, hopRows, htype] at h
  cases hr : cveEdges q entity.entityId filters.limit filters.includeSemantic with
  | error e =>
    change (cveEdges q entity.entityId filters.limit filters.includeSemantic).map _ = _ at h
    rw [hr] at h
    cases h
  | ok rows =>
    change (cveEdges q entity.entityId filters.limit filters.includeSemantic).map _ = _ at h
    rw [hr] at h
    obtain rfl := Except.ok.inj h
    exact cveEdges_skips hr hskips

omit [Netlocs] [IpAddresses] in
theorem afterCursor_ok_iff {cursor : Option Text} {candidates : List CandidateEdge} :
    (∃ after, afterCursor cursor candidates = .ok after) ↔ TextCursor cursor ∨ candidates = [] := by
  rw [afterCursor, TextCursor, ← cursorEdge]
  by_cases htruthy : (cursorEdge cursor).truthy = true
  · rw [if_pos htruthy, htruthy, or_iff_right Bool.true_eq_false.mp]
    split
    · next edgeId hedge => exact iff_of_true ⟨_, rfl⟩ (.inl ⟨edgeId, hedge⟩)
    · next hother =>
      rw [or_iff_right (not_exists.mpr hother)]
      split
      · next hnil => exact iff_of_true ⟨_, rfl⟩ hnil
      · next hne =>
        refine iff_of_false ?_ hne
        rintro ⟨_, h⟩
        cases h
  · rw [if_neg htruthy]
    exact iff_of_true ⟨_, rfl⟩ (.inl (.inl (Bool.not_eq_true _ ▸ htruthy)))

omit [Casing] [Netlocs] [IpAddresses] in
theorem filteredCandidates_eq_nil_iff {st : Expansion} {filters : RelationshipFilters} :
    filteredCandidates st filters = [] ↔ ∀ c ∈ st.candidates, passes filters c = false := by
  rw [List.eq_nil_iff_forall_not_mem]
  constructor
  · intro h c hc
    exact Bool.eq_false_of_not_eq_true fun hpasses ↦ h c (mem_filteredCandidates.mpr ⟨hc, hpasses⟩)
  · intro h c hc
    obtain ⟨hmem, hpasses⟩ := mem_filteredCandidates.mp hc
    rw [h c hmem] at hpasses
    cases hpasses

omit [Netlocs] [IpAddresses] in
theorem status_of_degraded {db : Db} {root : EntityRef} {filters : RelationshipFilters} {st : Expansion}
    {page : GraphPage} (hst : expand db root filters = .ok st) (hpage : expandRelationships db root filters = .ok page)
    (h : st.degraded = true) : page.sourceStatus = .degraded ∧ page.knowledgeState = .partialState := by
  rw [expandRelationships, hst, ok_bind] at hpage
  obtain ⟨selected, -, hpage⟩ := bind_eq_ok.mp hpage
  obtain rfl := Except.ok.inj hpage
  simp [h]

/-- An expansion returns a page, marked where a hop skipped a query, exactly if the hops of the entities that it opens
answer, none of them is a Sigma rule, and the cursor holds a text or no edge is left to page. -/
theorem expansion_returns_iff (q : Queries) (root : EntityRef) (filters : RelationshipFilters) :
    (∃ page, expandRelationships (hopsOf q) root filters = .ok page ∧
        ∀ e ∈ opened (hopsOf q) filters root, Skips q filters e →
          page.sourceStatus = .degraded ∧ page.knowledgeState = .partialState) ↔
      (∀ e ∈ opened (hopsOf q) filters root, Answers q e) ∧
        (TextCursor filters.cursor ∨ ∀ c ∈ gathered (hopsOf q) filters root, passes filters c = false) := by
  constructor
  · rintro ⟨page, hpage, -⟩
    obtain ⟨st, hst, hrest⟩ := bind_eq_ok.mp hpage
    have hok : ∀ e ∈ opened (hopsOf q) filters root, ∃ r, edgesForEntity (hopsOf q) e filters = .ok r := by
      intro e he
      cases hr : edgesForEntity (hopsOf q) e filters with
      | ok r => exact ⟨r, rfl⟩
      | error failure =>
        obtain ⟨failure', hfailure⟩ := expand_error ⟨e, he, failure, hr⟩
        rw [hst] at hfailure
        cases hfailure
    refine ⟨fun e he ↦ (edgesForEntity_ok_iff q filters e).mp (hok e he), ?_⟩
    obtain ⟨st', hst', hfound, -⟩ := expand_ok hok
    rw [hst] at hst'
    obtain rfl := Except.ok.inj hst'
    obtain ⟨selected, hselected, -⟩ := bind_eq_ok.mp hrest
    rw [paginateCandidates] at hselected
    rw [← hfound, ← filteredCandidates_eq_nil_iff]
    exact afterCursor_ok_iff.mp (map_ok_iff.mp ⟨selected, hselected⟩)
  · rintro ⟨hanswers, hcursor⟩
    have hok := fun e he ↦ (edgesForEntity_ok_iff q filters e).mpr (hanswers e he)
    obtain ⟨st, hst, hfound, hflags⟩ := expand_ok hok
    rw [← hfound, ← filteredCandidates_eq_nil_iff] at hcursor
    obtain ⟨after, hafter⟩ := afterCursor_ok_iff.mpr hcursor
    have hpage := expandRelationships_eq hst hafter
    refine ⟨_, hpage, fun e he hskips ↦ ?_⟩
    obtain ⟨r, hr⟩ := hok e he
    exact status_of_degraded hst hpage (hflags e he r hr (degraded_of_skips hr hskips))

end

section
local instance hopCasing : Casing := asciiCasing fun _ ↦ none

local instance hopNetlocs : Netlocs := ⟨fun _ ↦ true, fun _ _ ↦ rfl, fun _ _ ↦ rfl⟩

local instance hopAddresses : IpAddresses := noAddresses

/-- A database with one CVE, which a Sigma rule detects. -/
def oneSigmaRule : Queries where
  techniques _ := some []
  otxIocs _ := some []
  sourceEvidence _ := some []
  campaigns _ := some []
  sigmaRules _ := some [⟨some "Rule".toList, some "rules/web/rule.yml".toList, none, some "cve_exact".toList⟩]
  relatedCves _ _ := some []
  publications _ := some []
  similarCves _ _ := some []
  cvesOfIoc _ _ := some []
  mirrorIocs _ _ := some false
  cvesOfTechnique _ := some []
  cvesOfCampaign _ := some []
  cvesOfPublication _ := some []

def twoLevels : RelationshipFilters := ⟨2, 50, none, none, none, false, by decide, by decide⟩

/-- The second level asks for the hop of the Sigma rule that the first one found. -/
theorem sigma_rule_unsupported :
    expandRelationships (hopsOf oneSigmaRule) ⟨.cve, "CVE-2024-0001".toList, "CVE-2024-0001".toList⟩ twoLevels =
      .error .unsupportedEntityType := by
  rfl

end

end Briefr.Investigations
