import Mathlib.Algebra.Order.Field.Rat
import Mathlib.Data.List.Lex
import Mathlib.Data.Prod.Lex
import Mathlib.Tactic.Positivity
import Briefr.Library.Dict
import Briefr.Library.StableSort
import Briefr.Python.Value

namespace Briefr.Search

open Briefr.Python Briefr.Library Briefr.Library.StableSort

inductive EntityType
  | cve
  | technique
  | campaign
  deriving DecidableEq

inductive QueryShape
  | cveId
  | short
  | long
  deriving DecidableEq

inductive SearchMode
  | hybrid
  | keyword
  | semantic
  deriving DecidableEq

inductive Method
  | keyword
  | keywordFirst
  | keywordFallback
  | semantic
  | hybrid
  deriving DecidableEq

/-- `method.startswith("keyword")`. -/
def Method.isKeyword : Method → Bool
  | .keyword | .keywordFirst | .keywordFallback => true
  | .semantic | .hybrid => false

inductive MatchReason
  | keyword
  | vector
  deriving DecidableEq

structure CveCard where
  description : Option Text
  summary : Option Text
  cvssScore : Option ℚ
  severity : Option Text
  published : Option Text
  epssScore : Option ℚ
  isKev : Option ℤ

/-- What a result shows of its card. -/
inductive Shown
  | cve (description summary : Text) (cvssScore : Option ℚ) (severity published : Option Text) (epssScore : Option ℚ)
    (isKev : Bool)
  | technique (name description tactic url : Text)
  | campaign (label adversary lifecycle : Text) (memberCount : ℤ) (confidence : Text)

def Shown.entityType : Shown → EntityType
  | .cve .. => .cve
  | .technique .. => .technique
  | .campaign .. => .campaign

structure Item where
  entityId : Text
  score : ℚ
  matchReasons : List MatchReason
  similarity : Option ℚ
  shown : Shown

def Item.entityType (item : Item) : EntityType := item.shown.entityType

/-- A row of `embeddings` near the query. -/
structure Hit where
  entityType : EntityType
  entityId : Text
  similarity : Option ℚ

def rrfK : ℚ := 60

def CveCard.shown (card : CveCard) : Shown :=
  .cve (card.description.getD []) (card.summary.getD []) card.cvssScore card.severity card.published card.epssScore
    (decide (card.isKev.getD 0 ≠ 0))

section
variable [Interp]

/-- `^CVE-\d{4}-\d{4,}$` without regard to case. -/
def isFullCveId : Text → Bool
  | c :: v :: e :: '-' :: a :: b :: y :: d :: '-' :: n =>
    [c, v, e].map Char.toUpper == "CVE".toList && [a, b, y, d].all isDecimal && decide (4 ≤ n.length) && n.all isDecimal
  | _ => false

def classifyQueryShape (q : Text) : QueryShape :=
  let text := strip q
  if isFullCveId text then .cveId
  else if ((text.splitOnP isSpace).filter (· ≠ [])).length ≤ 2 then .short
  else .long

end

/-- Adds to every id of a list its weight over its rank. -/
def addRanks (weight : ℚ) (scores : Dict Text ℚ) (ids : List Text) : Dict Text ℚ :=
  (ids.zipIdx 1).foldl (fun scores e ↦ scores.set e.1 ((scores.get? e.1).getD 0 + weight / (rrfK + e.2))) scores

def hybridWeights (shape : QueryShape) : ℚ × ℚ := if shape = .short then (7 / 10, 3 / 10) else (4 / 10, 6 / 10)

/-- Equal scores stand in the order of their ids. -/
def rankKey (e : Text × ℚ) : ℚ ×ₗ Text := toLex (-e.2, e.1)

def simOf (hits : List Hit) : Dict Text ℚ := hits.foldl (fun d h ↦ d.set h.entityId (h.similarity.getD 0)) .empty

/-- The ids of the results before they get their cards, with their scores. -/
def rankIds (kwIds vecIds : List Text) (vecSim : Dict Text ℚ) (limit : ℕ) (shape : QueryShape) (mode : SearchMode) :
    List (Text × ℚ) × Method :=
  let byKeyword := (kwIds.take limit).zipIdx.map fun e ↦ (e.1, (limit : ℚ) - e.2)
  let bySimilarity := (vecIds.take limit).map fun id ↦ (id, (vecSim.get? id).getD 0)
  if mode = .keyword ∨ (mode = .hybrid ∧ shape = .cveId) then
    (byKeyword, if mode = .keyword then .keyword else .keywordFirst)
  else if mode = .semantic then
    if vecIds = [] then (byKeyword, .keywordFallback) else (bySimilarity, .semantic)
  else if vecIds = [] then (byKeyword, .keywordFallback)
  else if kwIds = [] then (bySimilarity, .semantic)
  else
    let scores := addRanks (hybridWeights shape).2 (addRanks (hybridWeights shape).1 .empty kwIds) vecIds
    ((sortBy rankKey scores.items).take limit, .hybrid)

section
variable (round : ℚ → ℕ → ℚ)

def reasonsOf (kwIds vecIds : List Text) (id : Text) : List MatchReason :=
  (if id ∈ kwIds then [.keyword] else []) ++ (if id ∈ vecIds then [.vector] else [])

def cveItem (kwIds vecIds : List Text) (vecSim : Dict Text ℚ) (method : Method) (e : Text × ℚ)
    (card : CveCard) : Item where
  entityId := e.1
  score := round e.2 6
  matchReasons :=
    if reasonsOf kwIds vecIds e.1 = [] then [if method.isKeyword then .keyword else .vector]
    else reasonsOf kwIds vecIds e.1
  similarity := (vecSim.get? e.1).map (round · 4)
  shown := card.shown

/-- The ids that are not empty. -/
def rowIds {γ : Type} (rows : List (Text × γ)) : List Text := (rows.map Prod.fst).filter (· ≠ [])

def withId (hits : List Hit) : List Hit := hits.filter (·.entityId ≠ [])

def hitIds (hits : List Hit) : List Text := (withId hits).map Hit.entityId

/-- The vector hits are those of CVEs. -/
def buildHybridResults (keywordRows : List (Text × CveCard)) (vectorHits : List Hit) (cardsById : Text → Option CveCard)
    (limit : ℕ) (shape : QueryShape) (mode : SearchMode) : List Item × Method :=
  let kwIds := rowIds keywordRows
  let vecIds := hitIds vectorHits
  let vecSim := simOf (withId vectorHits)
  let ranked := rankIds kwIds vecIds vecSim limit shape mode
  (ranked.1.filterMap fun e ↦ (cardsById e.1).map (cveItem round kwIds vecIds vecSim ranked.2 e), ranked.2)

end

section

variable {kwIds vecIds : List Text} {vecSim : Dict Text ℚ} {limit : ℕ} {shape : QueryShape} {mode : SearchMode}

theorem keys_addRanks (weight : ℚ) (scores : Dict Text ℚ) (ids : List Text) (id : Text) :
    id ∈ (addRanks weight scores ids).keys ↔ id ∈ ids ∨ id ∈ scores.keys := by
  have h : ∀ (n : ℕ) (scores : Dict Text ℚ),
      id ∈ ((ids.zipIdx n).foldl (fun scores e ↦
        scores.set e.1 ((scores.get? e.1).getD 0 + weight / (rrfK + e.2))) scores).keys ↔
          id ∈ ids ∨ id ∈ scores.keys := by
    induction ids with
    | nil => simp
    | cons j ids ih =>
      intro n scores
      rw [List.zipIdx_cons, List.foldl_cons, ih, Dict.mem_keys_set, List.mem_cons, ← or_assoc, or_comm (a := id ∈ ids)]
  exact h 1 scores

/-- The ids of the ranking. -/
def rankedIds (kwIds vecIds : List Text) (vecSim : Dict Text ℚ) (limit : ℕ) (shape : QueryShape) (mode : SearchMode) :
    List Text :=
  (rankIds kwIds vecIds vecSim limit shape mode).1.map Prod.fst

/-- The whole order of the ids and the method, by the ways through `build_hybrid_results`. -/
inductive Ranks (kwIds vecIds : List Text) (shape : QueryShape) (mode : SearchMode) : List Text → Method → Prop
  | keyword (h : mode = .keyword) : Ranks kwIds vecIds shape mode kwIds .keyword
  | keywordFirst (h : mode = .hybrid ∧ shape = .cveId) : Ranks kwIds vecIds shape mode kwIds .keywordFirst
  | keywordFallback (h : vecIds = []) : Ranks kwIds vecIds shape mode kwIds .keywordFallback
  | semantic (h : vecIds ≠ []) (hm : mode = .semantic ∨ kwIds = []) : Ranks kwIds vecIds shape mode vecIds .semantic
  | hybrid (hv : vecIds ≠ []) (hk : kwIds ≠ []) : Ranks kwIds vecIds shape mode
      ((sortBy rankKey (addRanks (hybridWeights shape).2 (addRanks (hybridWeights shape).1 .empty kwIds)
        vecIds).items).map
        Prod.fst) .hybrid

theorem rankIds_ranks (kwIds vecIds : List Text) (vecSim : Dict Text ℚ) (limit : ℕ) (shape : QueryShape)
    (mode : SearchMode) : ∃ order, Ranks kwIds vecIds shape mode order
      (rankIds kwIds vecIds vecSim limit shape mode).2 ∧
      rankedIds kwIds vecIds vecSim limit shape mode = order.take limit := by
  have hkeyword : ((kwIds.take limit).zipIdx.map fun e ↦ (e.1, (limit : ℚ) - e.2)).map Prod.fst = kwIds.take limit := by
    rw [List.map_map]
    exact List.zipIdx_map_fst 0 _
  have hsimilar : ((vecIds.take limit).map fun id ↦ (id, (vecSim.get? id).getD 0)).map Prod.fst =
      vecIds.take limit := by
    rw [List.map_map]
    exact List.map_id _
  unfold rankedIds rankIds
  split_ifs with hfirst hkw hsem hnone hnone hempty
  · exact ⟨kwIds, .keyword hkw, hkeyword⟩
  · exact ⟨kwIds, .keywordFirst (hfirst.resolve_left hkw), hkeyword⟩
  · exact ⟨kwIds, .keywordFallback hnone, hkeyword⟩
  · exact ⟨vecIds, .semantic hnone (.inl hsem), hsimilar⟩
  · exact ⟨kwIds, .keywordFallback hnone, hkeyword⟩
  · exact ⟨vecIds, .semantic hnone (.inr hempty), hsimilar⟩
  · exact ⟨_, .hybrid hnone hempty, List.map_take⟩

variable {order : List Text} {method : Method}

theorem Ranks.subset (h : Ranks kwIds vecIds shape mode order method) : ∀ id ∈ order, id ∈ kwIds ∨ id ∈ vecIds := by
  intro id hid
  cases h with
  | keyword | keywordFirst | keywordFallback => exact .inl hid
  | semantic => exact .inr hid
  | hybrid hv hk =>
    obtain ⟨e, he, rfl⟩ := List.mem_map.mp hid
    have hkey : e.1 ∈ (addRanks _ (addRanks _ .empty kwIds) vecIds).keys :=
      List.mem_map_of_mem ((perm_sortBy rankKey _).mem_iff.mp he)
    rw [keys_addRanks, keys_addRanks] at hkey
    obtain hvec | hkw | hnone := hkey
    · exact .inr hvec
    · exact .inl hkw
    · exact absurd hnone List.not_mem_nil

theorem Ranks.nodup (h : Ranks kwIds vecIds shape mode order method) (hk : kwIds.Nodup) (hv : vecIds.Nodup) :
    order.Nodup := by
  cases h with
  | keyword | keywordFirst | keywordFallback => exact hk
  | semantic => exact hv
  | hybrid => exact ((perm_sortBy rankKey _).map Prod.fst).nodup_iff.mpr (Dict.nodup _)

/-- Each method names where its ids come from. -/
theorem Ranks.method_says (h : Ranks kwIds vecIds shape mode order method) :
    (method.isKeyword = true → ∀ id ∈ order, id ∈ kwIds) ∧ (method = .semantic → ∀ id ∈ order, id ∈ vecIds) ∧
      (vecIds = [] → method.isKeyword = true) := by
  cases h with
  | keyword | keywordFirst | keywordFallback => exact ⟨fun _ _ h ↦ h, fun h ↦ by simp at h, fun _ ↦ rfl⟩
  | semantic hv hm => exact ⟨fun h ↦ by simp [Method.isKeyword] at h, fun _ _ h ↦ h, fun h ↦ absurd h hv⟩
  | hybrid hv hk => exact ⟨fun h ↦ by simp [Method.isKeyword] at h, fun h ↦ by simp at h, fun h ↦ absurd h hv⟩

theorem ids_filterMap {item : Text × ℚ → CveCard → Item} (hid : ∀ e card, (item e card).entityId = e.1)
    (cards : Text → Option CveCard) (ranked : List (Text × ℚ)) :
    (ranked.filterMap fun e ↦ (cards e.1).map (item e)).map Item.entityId =
      (ranked.map Prod.fst).filter fun id ↦ (cards id).isSome := by
  induction ranked with
  | nil => rfl
  | cons e ranked ih =>
    cases h : cards e.1 with
    | none => simp [h, ih]
    | some card => simp [h, ih, hid]

theorem ids_buildHybridResults (round : ℚ → ℕ → ℚ) (rows : List (Text × CveCard)) (hits : List Hit)
    (cards : Text → Option CveCard) (limit : ℕ) (shape : QueryShape) (mode : SearchMode) :
    (buildHybridResults round rows hits cards limit shape mode).1.map Item.entityId =
      (rankedIds (rowIds rows) (hitIds hits) (simOf (withId hits)) limit shape mode).filter fun id ↦
        (cards id).isSome :=
  ids_filterMap (fun _ _ ↦ rfl) cards _

/-- What a list gives to an id. -/
def rankScore (weight : ℚ) (ids : List Text) (id : Text) : ℚ :=
  if id ∈ ids then weight / (rrfK + (ids.idxOf id + 1 : ℕ)) else 0

theorem get?_addRanks (weight : ℚ) (scores : Dict Text ℚ) {ids : List Text} (hn : ids.Nodup) (id : Text) :
    (addRanks weight scores ids).get? id =
      if id ∈ ids then some ((scores.get? id).getD 0 + rankScore weight ids id) else scores.get? id := by
  have h : ∀ (n : ℕ) (scores : Dict Text ℚ),
      ((ids.zipIdx n).foldl (fun scores e ↦
        scores.set e.1 ((scores.get? e.1).getD 0 + weight / (rrfK + e.2))) scores).get? id =
      if id ∈ ids then some ((scores.get? id).getD 0 + weight / (rrfK + (ids.idxOf id + n : ℕ)))
      else scores.get? id := by
    induction ids with
    | nil => simp
    | cons j ids ih =>
      obtain ⟨hj, hn⟩ := List.nodup_cons.mp hn
      intro n scores
      rw [List.zipIdx_cons, List.foldl_cons, ih hn, Dict.get?_set]
      by_cases hid : id = j
      · subst hid
        simp [hj]
      · simp [hid, List.idxOf_cons_ne _ (Ne.symm hid), Nat.add_assoc, Nat.add_comm 1 n]
  unfold addRanks
  rw [h 1 scores]
  split_ifs with hid <;> simp [rankScore, hid]

theorem rankScore_nonneg {weight : ℚ} (hw : 0 < weight) (ids : List Text) (id : Text) :
    0 ≤ rankScore weight ids id := by
  unfold rankScore rrfK
  split_ifs <;> positivity

/-- The id that stands first in a list gets more of it. -/
theorem rankScore_lt {weight : ℚ} (hw : 0 < weight) {ids : List Text} {a b : Text} (hb : b ∈ ids)
    (h : ids.idxOf a < ids.idxOf b) : rankScore weight ids b < rankScore weight ids a := by
  have ha : a ∈ ids := List.idxOf_lt_length_iff.mp (h.trans (List.idxOf_lt_length_of_mem hb))
  have hlt : rrfK + (ids.idxOf a + 1 : ℕ) < rrfK + (ids.idxOf b + 1 : ℕ) :=
    add_lt_add_right (Nat.cast_lt.mpr (Nat.succ_lt_succ h)) rrfK
  have hpos : 0 < rrfK + (ids.idxOf a + 1 : ℕ) := add_pos_of_pos_of_nonneg (by decide) (Nat.cast_nonneg _)
  rw [rankScore, rankScore, if_pos ha, if_pos hb]
  exact div_lt_div_of_pos_left hw hpos hlt

theorem rankScore_le {weight : ℚ} (hw : 0 < weight) {ids : List Text} {a b : Text}
    (h : b ∈ ids → ids.idxOf a < ids.idxOf b) :
    rankScore weight ids b ≤ rankScore weight ids a := by
  by_cases hb : b ∈ ids
  · exact (rankScore_lt hw hb (h hb)).le
  · rw [rankScore, if_neg hb]
    exact rankScore_nonneg hw ids a

theorem ahead_of_idxOf {l : List Text} {a b : Text} {n : ℕ} (hb : b ∈ l.take n) (h : l.idxOf a < l.idxOf b) :
    [a, b].Sublist (l.take n) := by
  obtain ⟨s, t, hst, hs⟩ := List.eq_append_cons_of_mem hb
  have hl : l = s ++ b :: (t ++ l.drop n) := by
    rw [← List.cons_append, ← List.append_assoc, ← hst, List.take_append_drop]
  have ha : a ∈ s := by
    by_contra ha
    rw [hl, List.idxOf_append_of_notMem ha, List.idxOf_append_of_notMem hs, List.idxOf_cons_self] at h
    omega
  rw [hst]
  exact pair_sublist ha

/-- The score of an id under both lists. -/
theorem get?_fused (shape : QueryShape) (hk : kwIds.Nodup) (hv : vecIds.Nodup) (id : Text) :
    (addRanks (hybridWeights shape).2 (addRanks (hybridWeights shape).1 .empty kwIds) vecIds).get? id =
      if id ∈ kwIds ∨ id ∈ vecIds then
        some (rankScore (hybridWeights shape).1 kwIds id + rankScore (hybridWeights shape).2 vecIds id)
      else none := by
  rw [get?_addRanks _ _ hv, get?_addRanks _ _ hk]
  by_cases hkw : id ∈ kwIds <;> by_cases hvec : id ∈ vecIds <;> simp [hkw, hvec, rankScore]

theorem fused_lt (shape : QueryShape) {a b : Text} (hb : b ∈ kwIds ∨ b ∈ vecIds)
    (hkw : b ∈ kwIds → kwIds.idxOf a < kwIds.idxOf b) (hvec : b ∈ vecIds → vecIds.idxOf a < vecIds.idxOf b) :
    rankScore (hybridWeights shape).1 kwIds b + rankScore (hybridWeights shape).2 vecIds b <
      rankScore (hybridWeights shape).1 kwIds a + rankScore (hybridWeights shape).2 vecIds a := by
  have hweights : 0 < (hybridWeights shape).1 ∧ 0 < (hybridWeights shape).2 := by
    unfold hybridWeights
    split_ifs <;> exact ⟨by positivity, by positivity⟩
  obtain hb | hb := hb
  · exact add_lt_add_of_lt_of_le (rankScore_lt hweights.1 hb (hkw hb)) (rankScore_le hweights.2 hvec)
  · exact add_lt_add_of_le_of_lt (rankScore_le hweights.1 hkw) (rankScore_lt hweights.2 hb (hvec hb))

/-- An id that every list puts ahead of another, or has alone, is ahead of it in the results. -/
theorem Ranks.ahead (h : Ranks kwIds vecIds shape mode order method) (hk : kwIds.Nodup) (hv : vecIds.Nodup) {a b : Text}
    {n : ℕ} (hkw : b ∈ kwIds → kwIds.idxOf a < kwIds.idxOf b) (hvec : b ∈ vecIds → vecIds.idxOf a < vecIds.idxOf b)
    (hb : b ∈ order.take n) : [a, b].Sublist (order.take n) := by
  have hlists := h.subset b (List.mem_of_mem_take hb)
  cases h with
  | keyword | keywordFirst | keywordFallback => exact ahead_of_idxOf hb (hkw (List.mem_of_mem_take hb))
  | semantic => exact ahead_of_idxOf hb (hvec (List.mem_of_mem_take hb))
  | hybrid =>
    have halso : a ∈ kwIds ∨ a ∈ vecIds := by
      refine hlists.imp (fun h ↦ ?_) fun h ↦ ?_
      · exact List.idxOf_lt_length_iff.mp ((hkw h).trans (List.idxOf_lt_length_of_mem h))
      · exact List.idxOf_lt_length_iff.mp ((hvec h).trans (List.idxOf_lt_length_of_mem h))
    rw [← List.map_take] at hb ⊢
    obtain ⟨⟨b, score⟩, hmem, rfl⟩ := List.mem_map.mp hb
    have hb' := Dict.mem_items_iff.mp ((perm_sortBy rankKey _).mem_iff.mp (List.mem_of_mem_take hmem))
    have ha' := get?_fused shape hk hv a
    rw [get?_fused shape hk hv, if_pos hlists, Option.some.injEq] at hb'
    rw [if_pos halso] at ha'
    have hkey : rankKey (a, rankScore (hybridWeights shape).1 kwIds a + rankScore (hybridWeights shape).2 vecIds a) <
        rankKey (b, score) := by
      rw [← hb']
      exact Prod.Lex.toLex_lt_toLex.mpr (.inl (neg_lt_neg (fused_lt shape hlists hkw hvec)))
    exact (ahead_of_key (pairwise_sortBy rankKey _)
      ((perm_sortBy rankKey _).mem_iff.mpr (Dict.mem_items_iff.mpr ha')) hmem hkey).map Prod.fst

theorem mem_rowIds {γ : Type} {rows : List (Text × γ)} {id : Text} :
    id ∈ rowIds rows ↔ id ∈ rows.map Prod.fst ∧ id ≠ [] := by
  rw [rowIds, List.mem_filter, decide_eq_true_iff]

theorem mem_hitIds {hits : List Hit} {id : Text} : id ∈ hitIds hits ↔ id ∈ hits.map Hit.entityId ∧ id ≠ [] := by
  have h : hitIds hits = (hits.map Hit.entityId).filter (· ≠ []) := by
    rw [hitIds, withId, List.filter_map]
    rfl
  rw [h, List.mem_filter, decide_eq_true_iff]

theorem buildHybridResults_ahead (round : ℚ → ℕ → ℚ) {rows : List (Text × CveCard)} {hits : List Hit}
    {cards : Text → Option CveCard} {a b : Text} (hrows : (rows.map Prod.fst).Nodup)
    (hhits : (hits.map Hit.entityId).Nodup)
    (hkw : b ∈ rowIds rows → (rowIds rows).idxOf a < (rowIds rows).idxOf b)
    (hvec : b ∈ hitIds hits → (hitIds hits).idxOf a < (hitIds hits).idxOf b) (hcard : (cards a).isSome)
    (hb : b ∈ (buildHybridResults round rows hits cards limit shape mode).1.map Item.entityId) :
    [a, b].Sublist ((buildHybridResults round rows hits cards limit shape mode).1.map Item.entityId) := by
  rw [ids_buildHybridResults] at hb ⊢
  obtain ⟨order, hranks, horder⟩ := rankIds_ranks (rowIds rows) (hitIds hits) (simOf (withId hits)) limit shape mode
  rw [horder] at hb ⊢
  obtain ⟨hb, hcardb⟩ := List.mem_filter.mp hb
  have hahead := hranks.ahead (hrows.filter _) (hhits.sublist (List.filter_sublist.map _)) hkw hvec hb
  have hboth : [a, b].filter (fun id ↦ (cards id).isSome) = [a, b] := by simp [hcard, hcardb]
  rw [← hboth]
  exact hahead.filter _

/-- The ids of the CVE results are among the keyword rows and the hits, none twice and within the limit. -/
theorem buildHybridResults_ids (round : ℚ → ℕ → ℚ) {rows : List (Text × CveCard)} {hits : List Hit}
    (cards : Text → Option CveCard) (limit : ℕ) (shape : QueryShape) (mode : SearchMode)
    (hrows : (rows.map Prod.fst).Nodup) (hhits : (hits.map Hit.entityId).Nodup) :
    let ids := (buildHybridResults round rows hits cards limit shape mode).1.map Item.entityId
    ids.Nodup ∧ ids.length ≤ limit ∧ ∀ id ∈ ids, id ∈ rows.map Prod.fst ∨ id ∈ hits.map Hit.entityId := by
  simp only [ids_buildHybridResults]
  obtain ⟨order, hranks, horder⟩ := rankIds_ranks (rowIds rows) (hitIds hits) (simOf (withId hits)) limit shape mode
  rw [horder]
  have hn := hranks.nodup (hrows.filter _) (hhits.sublist (List.filter_sublist.map _))
  refine ⟨(hn.sublist (List.take_sublist _ _)).filter _, ?_, fun id hid ↦ ?_⟩
  · exact (List.length_filter_le _ _).trans (List.length_take_le _ _)
  · have hlist := hranks.subset id (List.mem_of_mem_take (List.mem_of_mem_filter hid))
    exact hlist.imp (fun h ↦ (mem_rowIds.mp h).1) fun h ↦ (mem_hitIds.mp h).1

theorem mem_reasonsOf {id : Text} : (.keyword ∈ reasonsOf kwIds vecIds id ↔ id ∈ kwIds) ∧
    (.vector ∈ reasonsOf kwIds vecIds id ↔ id ∈ vecIds) := by
  unfold reasonsOf
  constructor <;> split_ifs <;> simp_all

theorem mem_matchReasons (round : ℚ → ℕ → ℚ) (vecSim : Dict Text ℚ) (method : Method) {e : Text × ℚ} (card : CveCard)
    (h : e.1 ∈ kwIds ∨ e.1 ∈ vecIds) :
    let item := cveItem round kwIds vecIds vecSim method e card
    (.keyword ∈ item.matchReasons ↔ e.1 ∈ kwIds) ∧ (.vector ∈ item.matchReasons ↔ e.1 ∈ vecIds) := by
  have hreasons : (cveItem round kwIds vecIds vecSim method e card).matchReasons = reasonsOf kwIds vecIds e.1 := by
    refine if_neg fun hnone ↦ ?_
    obtain hkw | hvec := h
    · exact List.not_mem_nil (hnone ▸ mem_reasonsOf.1.mpr hkw)
    · exact List.not_mem_nil (hnone ▸ mem_reasonsOf.2.mpr hvec)
  intro item
  rw [hreasons]
  exact mem_reasonsOf

/-- The reasons of a result say in which lists it was found, and the method where the results come from. -/
theorem buildHybridResults_says (round : ℚ → ℕ → ℚ) (rows : List (Text × CveCard)) (hits : List Hit)
    (cards : Text → Option CveCard) (limit : ℕ) (shape : QueryShape) (mode : SearchMode) :
    let results := buildHybridResults round rows hits cards limit shape mode
    (∀ item ∈ results.1, (.keyword ∈ item.matchReasons ↔ item.entityId ∈ rows.map Prod.fst) ∧
      (.vector ∈ item.matchReasons ↔ item.entityId ∈ hits.map Hit.entityId) ∧
      (results.2.isKeyword = true → .keyword ∈ item.matchReasons) ∧
      (results.2 = .semantic → .vector ∈ item.matchReasons)) ∧
      (hits = [] → results.2.isKeyword = true) := by
  intro results
  obtain ⟨order, hranks, horder⟩ := rankIds_ranks (rowIds rows) (hitIds hits) (simOf (withId hits)) limit shape mode
  obtain ⟨hkeyword, hsemantic, hnone⟩ := hranks.method_says
  refine ⟨fun item hitem ↦ ?_, fun h ↦ hnone (by rw [h]; rfl)⟩
  have hid : item.entityId ∈ order := by
    have hmem : item.entityId ∈ results.1.map Item.entityId := List.mem_map_of_mem hitem
    rw [ids_buildHybridResults, horder] at hmem
    exact List.mem_of_mem_take (List.mem_of_mem_filter hmem)
  obtain ⟨e, -, hcard⟩ := List.mem_filterMap.mp hitem
  obtain ⟨card, -, rfl⟩ := Option.map_eq_some_iff.mp hcard
  have hlist := hranks.subset e.1 hid
  have hne : e.1 ≠ [] := hlist.elim (fun h ↦ (mem_rowIds.mp h).2) fun h ↦ (mem_hitIds.mp h).2
  obtain ⟨hkw, hvec⟩ := mem_matchReasons round (simOf (withId hits)) results.2 card hlist
  refine ⟨?_, ?_, fun h ↦ hkw.mpr (hkeyword h e.1 hid), fun h ↦ hvec.mpr (hsemantic h e.1 hid)⟩
  · exact hkw.trans (mem_rowIds.trans (and_iff_left hne))
  · exact hvec.trans (mem_hitIds.trans (and_iff_left hne))

end

end Briefr.Search
