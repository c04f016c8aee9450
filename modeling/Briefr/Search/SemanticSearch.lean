import Briefr.Routers.CveFilters
import Briefr.Search.Hybrid

namespace Briefr.Search

open Briefr.Python Briefr.Library Briefr.Routers.CveFilters

structure TechniqueCard where
  name : Option Text
  description : Option Text
  tactic : Option Text
  url : Option Text

structure CampaignCard where
  label : Option Text
  adversary : Option Text
  lifecycle : Option Text
  memberCount : Option ℤ
  confidence : Option Text

/-- `text or fallback`. -/
def orElse (text : Option Text) (fallback : Text) : Text := if text.getD [] = [] then fallback else text.getD []

def TechniqueCard.shown (id : Text) (card : TechniqueCard) : Shown :=
  .technique (orElse card.name id) (card.description.getD []) (card.tactic.getD []) (card.url.getD [])

def CampaignCard.shown (id : Text) (card : CampaignCard) : Shown :=
  .campaign (orElse card.label id) (card.adversary.getD []) (card.lifecycle.getD []) (card.memberCount.getD 0)
    (card.confidence.getD [])

section
variable (round : ℚ → ℕ → ℚ)

/-- `list(dict.fromkeys(l))`. -/
def fromKeys (l : List Text) : List Text := (l.foldl (fun d k ↦ d.set k ()) (Dict.empty : Dict Text Unit)).keys

def typedItem (kwIds vecIds : List Text) (vecSim : Dict Text ℚ) (limit : ℕ) (out : List Item) (id : Text)
    (card : Shown) :
    Item where
  entityId := id
  score := round ((vecSim.get? id).getD ((limit : ℚ) - out.length)) 6
  matchReasons := if reasonsOf kwIds vecIds id = [] then [.keyword] else reasonsOf kwIds vecIds id
  similarity := (vecSim.get? id).map (round · 4)
  shown := card

/-- `_technique_results` and `_campaign_results`, which differ in their cards only. -/
def typedResults {γ : Type} (entityType : EntityType) (keywordRows : List (Text × γ)) (vectorHits : List Hit)
    (shown : Text → Option Shown) (limit : ℕ) : List Item :=
  let kwIds := rowIds keywordRows
  let typedHits := vectorHits.filter fun h ↦ h.entityType = entityType
  let vecIds := hitIds typedHits
  let vecSim := simOf (withId typedHits)
  ((fromKeys (kwIds ++ vecIds)).take limit).foldl
    (fun out id ↦ (shown id).elim out fun card ↦ out ++ [typedItem round kwIds vecIds vecSim limit out id card]) []

def techniqueResults (keywordRows : List (Text × TechniqueCard)) (vectorHits : List Hit)
    (cards : Text → Option TechniqueCard) (limit : ℕ) : List Item :=
  typedResults round .technique keywordRows vectorHits (fun id ↦ (cards id).map (·.shown id)) limit

def campaignResults (keywordRows : List (Text × CampaignCard)) (vectorHits : List Hit)
    (cards : Text → Option CampaignCard) (limit : ℕ) : List Item :=
  typedResults round .campaign keywordRows vectorHits (fun id ↦ (cards id).map (·.shown id)) limit

/-- The loop that appends techniques and campaigns to the page. -/
def addTyped (capped : ℕ) : List Item → List Item → List Item
  | combined, [] => combined
  | combined, hit :: rest =>
    if hit.entityId ∈ combined.map Item.entityId then addTyped capped combined rest
    else if capped ≤ combined.length then combined
    else addTyped capped (combined ++ [hit]) rest

structure Budgets where
  tech : ℕ
  camp : ℕ
  cve : ℕ

/-- The slots of a page. Campaigns give way where both kinds would leave none to CVEs. -/
def budgets (capped : ℕ) (filtered anyTech anyCamp : Bool) : Budgets :=
  let tech := if 1 < capped ∧ anyTech then
    min (if filtered then max 2 (capped / 5) else max 3 (capped / 4)) (capped - 1) else 0
  let camp := if 1 < capped ∧ anyCamp then
    min (if filtered then max 1 (capped / 8) else max 2 (capped / 6)) (capped - 1) else 0
  let reserved := min (tech + camp) (capped - 1)
  let short := reserved ≠ 0 ∧ reserved < tech + camp
  let camp := if short then min camp (reserved - min tech reserved) else camp
  let tech := if short then min tech (reserved - camp) else tech
  ⟨tech, camp, max 1 (capped - tech - camp)⟩

/-- What the tables answer. `nearest` is empty where the query cannot be embedded or the index raises, and `similar` where
the CVE has no neighbours. The ids of a table's rows are its key. -/
structure Database where
  keywordCves : Text → ℕ → List (Text × CveCard)
  keywordCves_nodup : ∀ text limit, ((keywordCves text limit).map Prod.fst).Nodup
  keywordTechniques : Text → ℕ → List (Text × TechniqueCard)
  keywordCampaigns : Text → ℕ → List (Text × CampaignCard)
  similar : Text → ℕ → List (Text × ℚ)
  similar_nodup : ∀ cveId limit, ((similar cveId limit).map Prod.fst).Nodup
  nearest : Text → ℕ → List Hit
  nearest_nodup : ∀ text limit, ((nearest text limit).map fun h ↦ (h.entityType, h.entityId)).Nodup
  meets : List StackPart → Option Text → Bool → Text → Bool
  cveCard : Text → Option CveCard
  techniqueCard : Text → Option TechniqueCard
  campaignCard : Text → Option CampaignCard

structure Query where
  q : Text
  mode : SearchMode
  limit : ℤ
  stack : Option Text
  severity : Option Text
  kevOnly : Bool

/-- The part of `meta` that only a search that ran has. -/
structure Ran where
  embeddingsEnabled : Bool
  includesTechniques : Bool
  includesCampaigns : Bool

structure Response where
  data : List Item
  method : Method
  modeRequested : SearchMode
  shape : QueryShape
  q : Text
  stackTerms : List Text
  severity : Option Text
  kevOnly : Bool
  ran : Option Ran

section
variable [Interp] (db : Database) (enabled : Bool) (query : Query)

namespace Query

def text : Text := strip query.q

def capped : ℕ := (max 1 (min query.limit 50)).toNat

def shape : QueryShape := classifyQueryShape query.text

def severityUpper : Option Text :=
  if upper (strip (query.severity.getD [])) = [] then none else some (upper (strip (query.severity.getD [])))

def overFetches : Bool := decide (query.stack.getD [] ≠ []) || decide (query.severity.getD [] ≠ []) || query.kevOnly

def fetchLimit : ℕ := max 1 (min (if query.overFetches then query.capped * 3 else query.capped) 150)

/-- Whether the filters of CVEs apply. -/
def filtered : Bool :=
  !(stackMatchClause query.stack).1.isEmpty || query.severityUpper.isSome || query.kevOnly

/-- The filters as `_allowed_cve_ids_for_filters` puts them to the database. -/
def Allows (id : Text) : Prop :=
  query.filtered = true → db.meets (stackMatchClause query.stack).1 query.severityUpper query.kevOnly id = true

instance (id : Text) : Decidable (query.Allows db id) := by
  unfold Allows
  infer_instance

def needVector : Bool := decide (query.mode = .semantic) ||
    (decide (query.mode = .hybrid) && decide (query.shape ≠ .cveId))

end Query

def vectorHits : List Hit :=
  if query.needVector && enabled then
    if query.shape = .cveId then
      (db.similar (upper query.text) query.fetchLimit).map fun s ↦ ⟨.cve, s.1, some s.2⟩
    else db.nearest query.text query.fetchLimit
  else []

/-- What is searched in, filters applied. -/
structure Candidates where
  keywordRows : List (Text × CveCard)
  cveHits : List Hit
  cveCards : Text → Option CveCard
  techKeyword : List (Text × TechniqueCard)
  techCards : Text → Option TechniqueCard
  campKeyword : List (Text × CampaignCard)
  campCards : Text → Option CampaignCard
  hits : List Hit

/-- A card of the keyword rows replaces one that was read for the ids. -/
def cardOf {γ : Type} (rows : List (Text × γ)) (ids : List Text) (card : Text → Option γ) (id : Text) : Option γ :=
  ((rows.reverse.lookup id).or (if id ∈ ids then card id else none))

def typedIds (entityType : EntityType) (kwIds : List Text) (hits : List Hit) : List Text :=
  fromKeys (kwIds ++ ((hits.filter fun h ↦ h.entityType = entityType).map Hit.entityId))

def candidates : Candidates :=
  let text := query.text
  let keywordRows := db.keywordCves text query.fetchLimit
  let techKeyword := db.keywordTechniques text (max 5 (query.fetchLimit / 2))
  let campKeyword := db.keywordCampaigns text (max 5 (query.fetchLimit / 3))
  let hits := vectorHits db enabled query
  let cveHits := hits.filter fun h ↦ h.entityType = .cve
  let ids := fromKeys (keywordRows.map Prod.fst ++ (cveHits.map Hit.entityId).filter (· ≠ []))
  let allowed (id : Text) : Bool :=
    !query.filtered || (decide (id ∈ (ids.filter (· ≠ [])).map upper) &&
      db.meets (stackMatchClause query.stack).1 query.severityUpper query.kevOnly id)
  let keywordRows := keywordRows.filter fun r ↦ allowed r.1
  let ids := ids.filter allowed
  let techIds := typedIds .technique (techKeyword.map Prod.fst) hits
  let campIds := typedIds .campaign (campKeyword.map Prod.fst) hits
  { keywordRows := keywordRows
    cveHits := cveHits.filter fun h ↦ allowed h.entityId
    cveCards := cardOf keywordRows ((ids.filter (· ≠ [])).map upper) db.cveCard
    techKeyword := techKeyword
    techCards := cardOf techKeyword ((techIds.filter (· ≠ [])).map upper) db.techniqueCard
    campKeyword := campKeyword
    campCards := cardOf campKeyword (campIds.filter (· ≠ [])) db.campaignCard
    hits := hits }

def Candidates.budgets (c : Candidates) (query : Query) : Budgets :=
  Search.budgets query.capped query.filtered
    (typedIds .technique (c.techKeyword.map Prod.fst) c.hits ≠ [])
    (typedIds .campaign (c.campKeyword.map Prod.fst) c.hits ≠ [])

def Candidates.cves (c : Candidates) (query : Query) : List Item × Method :=
  buildHybridResults round c.keywordRows c.cveHits c.cveCards (c.budgets query).cve query.shape query.mode

def Candidates.techniques (c : Candidates) (query : Query) : List Item :=
  techniqueResults round c.techKeyword c.hits c.techCards (c.budgets query).tech

def Candidates.campaigns (c : Candidates) (query : Query) : List Item :=
  campaignResults round c.campKeyword c.hits c.campCards (c.budgets query).camp

def runSemanticSearch : Response :=
  if query.text = [] then ⟨[], .keyword, query.mode, .short, [], [], none, false, none⟩
  else
    let c := candidates db enabled query
    let combined := addTyped query.capped (c.cves round query).1 (c.techniques round query ++ c.campaigns round query)
    { data := combined.take query.capped
      method := (c.cves round query).2
      modeRequested := query.mode
      shape := query.shape
      q := query.text.take 200
      stackTerms := (stackMatchClause query.stack).2
      severity := query.severityUpper
      kevOnly := query.kevOnly
      ran := some ⟨enabled, !(c.techniques round query).isEmpty, !(c.campaigns round query).isEmpty⟩ }

end

end

section

variable {capped : ℕ} {combined typed : List Item}

/-- The slots of the three kinds fill a page and leave one to CVEs. -/
theorem budgets_fill (hc : 1 ≤ capped) (filtered anyTech anyCamp : Bool) :
    let b := budgets capped filtered anyTech anyCamp
    1 ≤ b.cve ∧ b.cve + (b.tech + b.camp) = capped := by
  simp only [budgets]
  split_ifs <;> omega

/-- Where there are slots for all, the loop leaves none of the typed hits out, and only repeats. -/
theorem addTyped_fits (hn : (combined.map Item.entityId).Nodup) (hfit : combined.length + typed.length ≤ capped) :
    combined <+: addTyped capped combined typed ∧
      (∀ hit ∈ typed, hit.entityId ∈ (addTyped capped combined typed).map Item.entityId) ∧
      ((addTyped capped combined typed).map Item.entityId).Nodup ∧
      (addTyped capped combined typed).length ≤ combined.length + typed.length ∧
      addTyped capped combined typed ⊆ combined ++ typed := by
  induction typed generalizing combined with
  | nil => simpa [addTyped] using hn
  | cons hit rest ih =>
    rw [List.length_cons] at hfit ⊢
    unfold addTyped
    split
    · rename_i hseen
      obtain ⟨hpre, hall, hnodup, hlen, hsub⟩ := ih hn (by omega)
      refine ⟨hpre, ?_, hnodup, by omega, fun x hx ↦ ?_⟩
      · intro x hx
        obtain rfl | hx := List.mem_cons.mp hx
        · exact (hpre.map Item.entityId).subset hseen
        · exact hall x hx
      · obtain hx | hx := List.mem_append.mp (hsub hx)
        · exact List.mem_append_left _ hx
        · exact List.mem_append_right _ (List.mem_cons_of_mem _ hx)
    · rename_i hnew
      rw [if_neg (by omega)]
      have hn' : ((combined ++ [hit]).map Item.entityId).Nodup := by
        rw [List.map_append, List.map_singleton, ← List.concat_eq_append, List.nodup_concat]
        exact ⟨hnew, hn⟩
      have hlen' : (combined ++ [hit]).length = combined.length + 1 := List.length_append
      obtain ⟨hpre, hall, hnodup, hlen, hsub⟩ := ih hn' (by omega)
      refine ⟨(List.prefix_append _ _).trans hpre, ?_, hnodup, by omega, fun x hx ↦ ?_⟩
      · intro x hx
        obtain rfl | hx := List.mem_cons.mp hx
        · refine (hpre.map Item.entityId).subset ?_
          simp
        · exact hall x hx
      · rw [← List.singleton_append, ← List.append_assoc]
        exact hsub hx

theorem length_foldl_le (shown : Text → Option Shown) (item : List Item → Text → Shown → Item) (ids : List Text)
    (out : List Item) :
    (ids.foldl (fun out id ↦ (shown id).elim out fun card ↦ out ++ [item out id card]) out).length ≤
      out.length + ids.length := by
  induction ids generalizing out with
  | nil => exact le_rfl
  | cons id ids ih =>
    rw [List.foldl_cons, List.length_cons]
    refine (ih _).trans ?_
    cases shown id with
    | none => simp
    | some card => simp [Nat.add_assoc, Nat.add_comm 1]

theorem length_typedResults {γ : Type} (round : ℚ → ℕ → ℚ) (entityType : EntityType) (rows : List (Text × γ))
    (hits : List Hit) (shown : Text → Option Shown) (limit : ℕ) :
    (typedResults round entityType rows hits shown limit).length ≤ limit := by
  unfold typedResults
  refine (length_foldl_le shown _ _ []).trans ?_
  rw [List.length_nil, Nat.zero_add]
  exact List.length_take_le _ _

theorem mem_foldl_items {shown : Text → Option Shown} {item : List Item → Text → Shown → Item} {P : Item → Prop}
    (hP : ∀ out id card, shown id = some card → P (item out id card)) (ids : List Text) {out : List Item}
    (hout : ∀ x ∈ out, P x) :
    ∀ x ∈ ids.foldl (fun out id ↦ (shown id).elim out fun card ↦ out ++ [item out id card]) out, P x := by
  induction ids generalizing out with
  | nil => exact hout
  | cons id ids ih =>
    rw [List.foldl_cons]
    refine ih ?_
    cases h : shown id with
    | none => exact hout
    | some card =>
      intro x hx
      obtain hx | hx := List.mem_append.mp hx
      · exact hout x hx
      · rw [List.mem_singleton.mp hx]
        exact hP out id card h

theorem entityType_typedResults {γ : Type} (round : ℚ → ℕ → ℚ) {entityType : EntityType} {rows : List (Text × γ)}
    {hits : List Hit} {shown : Text → Option Shown}
    (hs : ∀ id card, shown id = some card → card.entityType = entityType) (limit : ℕ) :
    ∀ x ∈ typedResults round entityType rows hits shown limit, x.entityType = entityType :=
  mem_foldl_items (fun _ id card h ↦ hs id card h) _ (by simp)

section
variable [Interp] (round : ℚ → ℕ → ℚ) (db : Database) (enabled : Bool) (query : Query)

theorem nodup_vectorHits : ((vectorHits db enabled query).map fun h ↦ (h.entityType, h.entityId)).Nodup := by
  unfold vectorHits
  split_ifs
  · rw [List.map_map]
    have h := (db.similar_nodup (upper query.text) query.fetchLimit).map (Prod.mk_right_injective EntityType.cve)
    rwa [List.map_map] at h
  · exact db.nearest_nodup _ _
  · exact List.nodup_nil

theorem nodup_cveHits :
    (((vectorHits db enabled query).filter fun h ↦ h.entityType = .cve).map Hit.entityId).Nodup := by
  have h := (nodup_vectorHits db enabled query).sublist
    ((List.filter_sublist (p := fun h : Hit ↦ h.entityType = .cve)).map _)
  have he : ((vectorHits db enabled query).filter fun h ↦ h.entityType = .cve).map
        (fun h ↦ (h.entityType, h.entityId)) =
      (((vectorHits db enabled query).filter fun h ↦ h.entityType = .cve).map Hit.entityId).map
        (Prod.mk EntityType.cve) := by
    rw [List.map_map]
    refine List.map_congr_left fun x hx ↦ ?_
    rw [of_decide_eq_true (List.mem_filter.mp hx).2]
    rfl
  rw [he] at h
  exact h.of_map _

omit [Interp] in
theorem capped_pos : 1 ≤ query.capped := by
  unfold Query.capped
  omega

/-- The candidates are the rows and hits that the filters allow. -/
theorem candidates_spec : let c := candidates db enabled query
    (c.keywordRows.map Prod.fst).Nodup ∧ (c.cveHits.map Hit.entityId).Nodup ∧
      ∀ id, id ∈ c.keywordRows.map Prod.fst ∨ id ∈ c.cveHits.map Hit.entityId → query.Allows db id := by
  refine ⟨(db.keywordCves_nodup _ _).sublist (List.filter_sublist.map _),
    (nodup_cveHits db enabled query).sublist (List.filter_sublist.map _), fun id hid hf ↦ ?_⟩
  obtain hid | hid := hid
  · obtain ⟨r, hr, rfl⟩ := List.mem_map.mp hid
    have hallowed := (List.mem_filter.mp hr).2
    simp only [hf, Bool.not_true, Bool.false_or, Bool.and_eq_true] at hallowed
    exact hallowed.2
  · obtain ⟨r, hr, rfl⟩ := List.mem_map.mp hid
    have hallowed := (List.mem_filter.mp hr).2
    simp only [hf, Bool.not_true, Bool.false_or, Bool.and_eq_true] at hallowed
    exact hallowed.2

section
variable (c : Candidates)

theorem cves_ids (hrows : (c.keywordRows.map Prod.fst).Nodup) (hhits : (c.cveHits.map Hit.entityId).Nodup) :
    let ids := (c.cves round query).1.map Item.entityId
    ids.Nodup ∧ ids.length ≤ (c.budgets query).cve ∧
      ∀ id ∈ ids, id ∈ c.keywordRows.map Prod.fst ∨ id ∈ c.cveHits.map Hit.entityId :=
  buildHybridResults_ids round c.cveCards _ _ _ hrows hhits

theorem typed_fits (hlen : ((c.cves round query).1.map Item.entityId).length ≤ (c.budgets query).cve) :
    (c.cves round query).1.length + (c.techniques round query ++ c.campaigns round query).length ≤ query.capped := by
  obtain ⟨-, hfill⟩ : 1 ≤ (c.budgets query).cve ∧
      (c.budgets query).cve + ((c.budgets query).tech + (c.budgets query).camp) = query.capped :=
    budgets_fill (capped_pos query) query.filtered _ _
  have htechs : (c.techniques round query).length ≤ (c.budgets query).tech := length_typedResults ..
  have hcamps : (c.campaigns round query).length ≤ (c.budgets query).camp := length_typedResults ..
  rw [List.length_map] at hlen
  rw [List.length_append, ← hfill]
  exact Nat.add_le_add hlen (Nat.add_le_add htechs hcamps)

theorem typed_ne_cve : ∀ item ∈ c.techniques round query ++ c.campaigns round query, item.entityType ≠ .cve := by
  have htech : ∀ id card, (c.techCards id).map (·.shown id) = some card → card.entityType = .technique := by
    intro id card h
    obtain ⟨_, -, rfl⟩ := Option.map_eq_some_iff.mp h
    rfl
  have hcamp : ∀ id card, (c.campCards id).map (·.shown id) = some card → card.entityType = .campaign := by
    intro id card h
    obtain ⟨_, -, rfl⟩ := Option.map_eq_some_iff.mp h
    rfl
  intro item hitem hcve
  obtain hitem | hitem := List.mem_append.mp hitem
  · exact absurd (hcve.symm.trans (entityType_typedResults round htech _ item hitem)) (by decide)
  · exact absurd (hcve.symm.trans (entityType_typedResults round hcamp _ item hitem)) (by decide)

end

/-- The typed hits of a page fit it, so that its last cut takes nothing away. -/
theorem runSemanticSearch_data (hq : query.text ≠ []) :
    let c := candidates db enabled query
    (runSemanticSearch round db enabled query).data =
        addTyped query.capped (c.cves round query).1 (c.techniques round query ++ c.campaigns round query) ∧
      ((c.cves round query).1.map Item.entityId).Nodup ∧
      (c.cves round query).1.length + (c.techniques round query ++ c.campaigns round query).length ≤ query.capped := by
  intro c
  obtain ⟨hrows, hhits, -⟩ := candidates_spec db enabled query
  obtain ⟨hn, hlen, -⟩ := cves_ids round query c hrows hhits
  have hfit := typed_fits round query c hlen
  refine ⟨?_, hn, hfit⟩
  simp only [runSemanticSearch, if_neg hq]
  exact List.take_of_length_le ((addTyped_fits hn hfit).2.2.2.1.trans hfit)

/-- The CVEs of a page are CVE results. -/
theorem mem_cves_of_data (hq : query.text ≠ []) {item : Item}
    (hitem : item ∈ (runSemanticSearch round db enabled query).data)
    (hcve : item.entityType = .cve) : item ∈ ((candidates db enabled query).cves round query).1 := by
  obtain ⟨hdata, hn, hfit⟩ := runSemanticSearch_data round db enabled query hq
  rw [hdata] at hitem
  obtain hitem | hitem := List.mem_append.mp ((addTyped_fits hn hfit).2.2.2.2 hitem)
  · exact hitem
  · exact absurd hcve (typed_ne_cve round query _ item hitem)

/-- Nothing that was given a slot is cut off a page: the CVE results come first, every technique and campaign within
its budget follows unless its id is on the page, no id stands twice and the page keeps its limit. Under the filters the
page's CVEs are those that meet them, and one slot at least is theirs. -/
theorem page_whole (hq : query.text ≠ []) :
    let c := candidates db enabled query
    let page := (runSemanticSearch round db enabled query).data
    (c.cves round query).1 <+: page ∧
      (∀ hit ∈ c.techniques round query ++ c.campaigns round query, hit.entityId ∈ page.map Item.entityId) ∧
      (page.map Item.entityId).Nodup ∧ page.length ≤ query.capped ∧ 1 ≤ (c.budgets query).cve ∧
      ∀ item ∈ page, item.entityType = .cve → query.Allows db item.entityId := by
  intro c page
  obtain ⟨hdata, hn, hfit⟩ := runSemanticSearch_data round db enabled query hq
  obtain ⟨hpre, htyped, hnodup, hlength, -⟩ := addTyped_fits hn hfit
  have hslot : 1 ≤ (c.budgets query).cve := (budgets_fill (capped_pos query) query.filtered _ _).1
  rw [← hdata] at hpre htyped hnodup hlength
  refine ⟨hpre, htyped, hnodup, hlength.trans hfit, hslot, fun item hitem hcve ↦ ?_⟩
  obtain ⟨hrows, hhits, hallows⟩ := candidates_spec db enabled query
  have hsub := (cves_ids round query c hrows hhits).2.2
  exact hallows _ (hsub _ (List.mem_map_of_mem (mem_cves_of_data round db enabled query hq hitem hcve)))

/-- A response does not claim more than the search did: the reasons of a CVE are the lists it was found in, all CVEs
under a keyword method come from the keyword rows and all under the semantic one from the hits, and without
embeddings the method is a keyword one. -/
theorem method_honest (hq : query.text ≠ []) :
    let c := candidates db enabled query
    let response := runSemanticSearch round db enabled query
    (∀ item ∈ response.data, item.entityType = .cve →
      (.keyword ∈ item.matchReasons ↔ item.entityId ∈ c.keywordRows.map Prod.fst) ∧
      (.vector ∈ item.matchReasons ↔ item.entityId ∈ c.cveHits.map Hit.entityId) ∧
      (response.method.isKeyword = true → .keyword ∈ item.matchReasons) ∧
      (response.method = .semantic → .vector ∈ item.matchReasons)) ∧
      (enabled = false → response.method.isKeyword = true) := by
  intro c response
  obtain ⟨hitems, hnone⟩ := buildHybridResults_says round c.keywordRows c.cveHits c.cveCards (c.budgets query).cve
    query.shape query.mode
  have hmethod : response.method = (c.cves round query).2 := by simp only [response, runSemanticSearch, if_neg hq, c]
  rw [hmethod]
  refine ⟨fun item hitem hcve ↦ hitems item (mem_cves_of_data round db enabled query hq hitem hcve), fun h ↦ hnone ?_⟩
  have hhits : vectorHits db enabled query = [] := by simp [vectorHits, h]
  simp only [c, candidates, hhits, List.filter_nil]

/-- Where every list that has a CVE puts another one ahead of it, so does the page: the keyword rows and the hits cannot
be fused into an order that both contradict. -/
theorem consensus_ahead (hq : query.text ≠ []) {a b : Text} :
    let c := candidates db enabled query
    let page := (runSemanticSearch round db enabled query).data
    (b ∈ rowIds c.keywordRows → (rowIds c.keywordRows).idxOf a < (rowIds c.keywordRows).idxOf b) →
      (b ∈ hitIds c.cveHits → (hitIds c.cveHits).idxOf a < (hitIds c.cveHits).idxOf b) →
      (c.cveCards a).isSome → (∃ item ∈ page, item.entityType = .cve ∧ item.entityId = b) →
      [a, b].Sublist (page.map Item.entityId) := by
  intro c page hkw hvec hcard hb
  obtain ⟨item, hitem, hcve, rfl⟩ := hb
  obtain ⟨hrows, hhits, -⟩ := candidates_spec db enabled query
  obtain ⟨hdata, hn, hfit⟩ := runSemanticSearch_data round db enabled query hq
  have hpre := (addTyped_fits hn hfit).1
  rw [← hdata] at hpre
  have hmem := mem_cves_of_data round db enabled query hq hitem hcve
  exact (buildHybridResults_ahead round hrows hhits hkw hvec hcard (List.mem_map_of_mem hmem)).trans
    (hpre.map Item.entityId).sublist

end

end

section Samples

local instance searchInterp : Interp := ascii fun _ ↦ none

def plainCard : CveCard := ⟨none, none, none, none, none, none, none⟩

def firstCve : Text := "CVE-2024-3094"

def secondCve : Text := "CVE-2024-3095"

/-- Two CVEs in both lists, and a technique. -/
def sampleDatabase : Database where
  keywordCves _ _ := [(firstCve, plainCard), (secondCve, plainCard)]
  keywordCves_nodup _ _ := by decide
  keywordTechniques _ _ := [("T1195", ⟨none, none, none, none⟩)]
  keywordCampaigns _ _ := []
  similar _ _ := []
  similar_nodup _ _ := List.nodup_nil
  nearest _ _ := [⟨.cve, firstCve, some (9 / 10)⟩, ⟨.cve, secondCve, some (8 / 10)⟩]
  nearest_nodup _ _ := by decide
  meets _ _ _ _ := true
  cveCard _ := some plainCard
  techniqueCard _ := none
  campaignCard _ := none

def backdoors : Query := ⟨"backdoor in xz", .hybrid, 8, none, some "critical", false⟩

def unrounded (x : ℚ) (_ : ℕ) : ℚ := x

theorem page_of_backdoors :
    (runSemanticSearch unrounded sampleDatabase true backdoors).data.length ≤ 8 ∧
      ((runSemanticSearch unrounded sampleDatabase true backdoors).data.map Item.entityId).Nodup := by
  obtain ⟨-, -, hn, hlen, -⟩ := page_whole unrounded sampleDatabase true backdoors (by decide)
  exact ⟨hlen, hn⟩

theorem backdoors_method : (runSemanticSearch unrounded sampleDatabase false backdoors).method.isKeyword = true :=
  (method_honest unrounded sampleDatabase false backdoors (by decide)).2 rfl

theorem backdoors_ahead :
    [firstCve, secondCve].Sublist ((runSemanticSearch unrounded sampleDatabase true backdoors).data.map
      Item.entityId) :=
  consensus_ahead unrounded sampleDatabase true backdoors (by decide) (by decide +kernel) (by decide +kernel)
    (by decide +kernel) (by decide +kernel)

end Samples

end Briefr.Search
