import Mathlib.Data.Prod.Lex
import Mathlib.Order.WithBot
import Mathlib.Data.List.Lex
import Briefr.Library.Base64
import Briefr.Library.KeysetPaging
import Briefr.Routers.CveFilters

namespace Briefr.Routers.CveFeed

open Briefr.Python Briefr.Library Briefr.Library.StableSort Briefr.Library.KeysetPaging Briefr.Routers.CveFilters

/-- What `row_to_cve_dict` makes of a row. The last three keys may be absent. -/
structure CveDict where
  cveId : Text
  description : Option Text
  cvssScore : Option ℚ
  severity : Option Text
  published : Option Text
  modified : Option Text
  affectedProducts : Value
  affectedProductsSource : Text
  mitreTechnique : Option Text
  summary : Option Text
  isKev : Bool
  epssScore : Option ℚ
  epssPercentile : Option ℚ
  hasPoc : Bool
  patchAvailable : Bool
  hasAiContext : Bool
  sourceUrls : Value
  cweIds : Value
  updatedAt : Option Text
  kevDateAdded : Option Text
  kevDueDate : Option Text
  kevRansomwareUse : Bool
  memberOfCampaign : Bool
  campaignLifecycle : Option (Option Text)
  watchlistState : Option WatchState
  watchlistSnoozeUntil : Option (Option Text)

/-- `CASE cc.lifecycle` of the campaign column. -/
def lifecycleRank (lifecycle : Option Text) : ℕ :=
  if lifecycle = some "active".toList then 1
  else if lifecycle = some "emerging".toList then 2
  else if lifecycle = some "declining".toList then 3
  else if lifecycle = some "stale".toList then 4
  else 5

/-- `bool` of an integer column. -/
def flag (column : Option ℤ) : Bool := column.any (· != 0)

section
variable [Interp]

def jsonField (column : Option Text) : Value :=
  match given column with
  | none => .list []
  | some s => (loads s).getD (.list [])

/-- `(column or "").strip() or None`. -/
def stripped (column : Option Text) : Option Text := given (some (strip (column.getD [])))

def rowToCveDict [Sqlite] (r : CveRow) : CveDict where
  cveId := r.cveId
  description := r.description
  cvssScore := r.cvssScore
  severity := r.severity
  published := r.published
  modified := r.modified
  affectedProducts := jsonField r.affectedProducts
  affectedProductsSource := r.affectedProductsSource.getD []
  mitreTechnique := r.mitreTechnique
  summary := r.summary
  isKev := flag r.isKev
  epssScore := r.epssScore
  epssPercentile := r.epssPercentile
  hasPoc := flag r.hasPoc
  patchAvailable := flag r.patchAvailable
  hasAiContext := flag r.hasAiContext
  sourceUrls := jsonField r.sourceUrls
  cweIds := jsonField r.cweIds
  updatedAt := r.updatedAt
  kevDateAdded := none
  kevDueDate := stripped (r.kev.bind KevDeadline.dueDate)
  kevRansomwareUse :=
    r.kev.any fun k ↦ lowerAscii (trim (k.knownRansomware.getD [])) == "known".toList
  memberOfCampaign := r.memberOfCampaign
  campaignLifecycle :=
    if r.memberOfCampaign then (given (sortBy lifecycleRank r.lifecycles).head?.join).map fun s ↦ given (some (strip s))
    else none
  watchlistState := (r.watch.filter Watch.active).map Watch.state
  watchlistSnoozeUntil := (r.watch.filter Watch.active).map fun w ↦ stripped w.snoozeUntil

/-- `[p.lower() for p in (affected_products or [])]`. -/
def lowerProducts (affectedProducts : Value) : Py (List Text) := do
  let products ← (affectedProducts.orElse (.list [])).iter
  products.mapM fun
    | .str p => .ok (lower p)
    | _ => .error .attributeError

def relevanceScore (stackProducts : List Text) (cve : CveDict) : Py ℕ := do
  let products ← lowerProducts cve.affectedProducts
  let desc := lower (cve.description.getD [])
  let summary := lower (cve.summary.getD [])
  return stackProducts.foldl (fun score sp ↦
    if isIn sp desc || isIn sp summary then score + 1
    else if products.any (isIn sp) then score + 1
    else score) 0

def withScore (stackProducts : List Text) (cve : CveDict) : Py (ℕ × CveDict) := do
  return (← relevanceScore stackProducts cve, cve)

/-- `_sort_by_stack_relevance`; `sorted` with `reverse=True` is stable. -/
def sortByStackRelevance (cveList : List CveDict) (stackProducts : List Text) : Py (List CveDict) :=
  if stackProducts.isEmpty then .ok cveList
  else do
    let scored ← cveList.mapM (withScore stackProducts)
    return (fallingRank Prod.fst scored).map Prod.snd

end

def utf8 (s : Text) : List ℕ := (s.flatMap String.utf8EncodeChar).map UInt8.toNat

/-- `bytes.decode()`; `none` is a `UnicodeDecodeError`. -/
def fromUtf8 (bytes : List ℕ) : Option Text :=
  (bytes.map UInt8.ofNat).toByteArray.utf8Decode?.map Array.toList

def encodeFeedCursor (published cveId : Text) : Text := Base64.bare (utf8 (published ++ '\t' :: cveId))

/-- `decoded.split("\t", 1)` unpacked to two names. -/
def splitTab (decoded : Text) : Option (Text × Text) :=
  if '\t' ∈ decoded then some (decoded.takeWhile (· != '\t'), (decoded.dropWhile (· != '\t')).tail) else none

/-- `_decode_feed_cursor`; `none` is a `ValueError`, of which the other errors are kinds. -/
def decodeFeedCursor (cursor : Text) : Option (Text × Text) := do
  let bytes ← Base64.decode (Base64.repad cursor)
  let decoded ← fromUtf8 bytes
  splitTab decoded

structure Query where
  filters : Filters
  limit : ℕ
  cursor : Option Text

def atMost (n : ℕ) (param : Option Text) : Bool := param.all fun s ↦ decide (s.length ≤ n)

/-- The bounds of the query parameters other than the cursor. -/
def Query.withinBounds (q : Query) : Bool :=
  atMost 200 q.filters.search && atMost 500 q.filters.stack && atMost 500 q.filters.vendors &&
  atMost 500 q.filters.excludeVendors && atMost 64 q.filters.severityList && atMost 32 q.filters.technique &&
  atMost 10 q.filters.publishedOn && atMost 500 q.filters.frameworks &&
  q.filters.epssMin.all (fun e ↦ decide (0 ≤ e ∧ e ≤ 1)) && decide (1 ≤ q.limit ∧ q.limit ≤ 50)

structure Payload where
  total : Option ℕ
  page : ℕ
  limit : ℕ
  pages : ℕ
  data : List CveDict
  nextCursor : Option Text

/-- `c.published < ? OR (c.published = ? AND c.cve_id < ?)`. -/
def afterCursor (cursor : Text × Text) (published : Option Text) (cveId : Text) : Bool :=
  published.any fun p ↦ decide (p < cursor.1) || (p == cursor.1 && decide (cveId < cursor.2))

/-- NULL counts as the least text. -/
def orNull : Option Text → WithBot Text
  | none => ⊥
  | some p => p

/-- `ORDER BY c.published DESC, c.cve_id DESC`. -/
def feedKey (published : Option Text) (cveId : Text) : (WithBot Text ×ₗ Text)ᵒᵈ :=
  OrderDual.toDual (toLex (orNull published, cveId))

section
variable [Interp] [Sqlite]

def cursorCond (cursor : Option Text) : Http (Option Text → Text → Bool) :=
  if strip (cursor.getD []) = [] then .ok fun _ _ ↦ true
  else
    match decodeFeedCursor (strip (cursor.getD [])) with
    | some c => .ok (afterCursor c)
    | none => .error (.badRequest "Invalid feed cursor")

def payload (limit : ℕ) (hasMore : Bool) (cveList : List CveDict) : Payload where
  total := none
  page := 1
  limit := limit
  pages := 0
  data := if hasMore then cveList.take limit else cveList
  nextCursor := if hasMore then
      (cveList.take limit).getLast?.map fun last ↦ encodeFeedCursor (last.published.getD []) last.cveId
    else none

/-- What the request makes of the rows it fetched. -/
def payloadOf (limit : ℕ) (stackProducts : List Text) (rows : List CveDict) : Http Payload :=
  match sortByStackRelevance rows stackProducts with
  | .error e => .error (.serverError e)
  | .ok cveList => .ok (payload limit (decide (limit < rows.length)) cveList)

/-- `list_cves` with `pagination=keyset`. -/
def listCves (table : List CveRow) (q : Query) : Http Payload :=
  if q.withinBounds && atMost 256 q.cursor then do
    let (conditions, stackProducts) ← buildCveFilters q.filters
    let after ← cursorCond q.cursor
    let rows := (sortBy (fun r ↦ feedKey r.published r.cveId)
      (table.filter fun r ↦ satisfies conditions r && after r.published r.cveId)).take (q.limit + 1)
    payloadOf q.limit stackProducts (rows.map rowToCveDict)
  else .error .unprocessable

/-- The pages a client gets that starts at `cursor` and follows `next_cursor` until it is null. -/
inductive Traversal (table : List CveRow) (q : Query) : Option Text → List (List CveDict) → Prop
  | last {cursor : Option Text} {p : Payload} :
      listCves table { q with cursor } = .ok p → p.nextCursor = none → Traversal table q cursor [p.data]
  | next {cursor : Option Text} {p : Payload} {c : Text} {pages : List (List CveDict)} :
      listCves table { q with cursor } = .ok p → p.nextCursor = some c → Traversal table q (some c) pages →
      Traversal table q cursor (p.data :: pages)

/-- The rows that satisfy the filters, newest first. -/
def feed (table : List CveRow) (conditions : List Cond) : List CveDict :=
  (sortBy (fun r ↦ feedKey r.published r.cveId) (table.filter (satisfies conditions))).map rowToCveDict

end

theorem fromUtf8_utf8 (s : Text) : fromUtf8 (utf8 s) = some s := by
  have hb : ((utf8 s).map UInt8.ofNat).toByteArray = s.utf8Encode := by
    rw [utf8, List.map_map]
    simp only [Function.comp_def, UInt8.ofNat_toNat, List.map_id', List.utf8Encode]
  rw [fromUtf8, hb, List.utf8Decode?_utf8Encode]
  rfl

theorem splitTab_append {a : Text} (ha : '\t' ∉ a) (b : Text) : splitTab (a ++ '\t' :: b) = some (a, b) := by
  have hp : ∀ c ∈ a, (c != '\t') = true := by
    intro c hc
    rw [bne_iff_ne]
    exact fun h ↦ ha (h ▸ hc)
  rw [splitTab, if_pos (by simp), List.takeWhile_append_of_pos hp, List.dropWhile_append_of_pos hp]
  simp

theorem decode_encodeFeedCursor (published cveId : Text) :
    decodeFeedCursor (encodeFeedCursor published cveId) = splitTab (published ++ '\t' :: cveId) := by
  have hb : ∀ b ∈ utf8 (published ++ '\t' :: cveId), b < 256 := by
    intro b hb
    obtain ⟨c, -, rfl⟩ := List.mem_map.mp hb
    exact c.toNat_lt
  rw [decodeFeedCursor, encodeFeedCursor, Base64.decode_repad_bare hb]
  simp [fromUtf8_utf8]

theorem lt_append_cons (a : Text) (c : Char) (b : Text) : a < a ++ c :: b := by
  induction a with
  | nil => exact List.nil_lt_cons _ _
  | cons d a ih => exact List.cons_lt_cons_self.mpr ih

/-- The cursor of a row reads back as a key that is not above the row's. -/
theorem exists_decoded (published cveId : Text) :
    ∃ c, decodeFeedCursor (encodeFeedCursor published cveId) = some c ∧ toLex c ≤ toLex (published, cveId) := by
  rw [decode_encodeFeedCursor]
  by_cases ht : '\t' ∈ published
  · obtain ⟨a, b, rfl, ha⟩ := List.eq_append_cons_of_mem ht
    rw [List.append_assoc, List.cons_append, splitTab_append ha]
    refine ⟨_, rfl, ?_⟩
    rw [Prod.Lex.toLex_le_toLex]
    exact .inl (lt_append_cons _ _ _)
  · rw [splitTab_append ht]
    exact ⟨_, rfl, le_rfl⟩

theorem encode_ne_space {bs : List ℕ} {c : Char} (hc : c ∈ Base64.encode bs) : isAsciiSpace c = false ∧ c.toNat < 128 := by
  have hn : ∀ n, isAsciiSpace (Base64.char n) = false ∧ (Base64.char n).toNat < 128 := by
    intro n
    by_cases h : n < 63
    · have hall : ∀ n < 63, isAsciiSpace (Base64.char n) = false ∧ (Base64.char n).toNat < 128 := by decide
      exact hall n h
    · rw [Base64.char, if_neg (by omega), if_neg (by omega), if_neg (by omega), if_neg (by omega)]
      decide
  have hp : isAsciiSpace '=' = false ∧ ('=').toNat < 128 := by decide
  induction bs using Base64.encode.induct with
  | case1 a b d rest ih =>
    simp only [Base64.encode, List.mem_cons] at hc
    rcases hc with rfl | rfl | rfl | rfl | hc
    · exact hn _
    · exact hn _
    · exact hn _
    · exact hn _
    · exact ih hc
  | case2 a b =>
    simp only [Base64.encode, List.mem_cons, List.not_mem_nil, or_false] at hc
    rcases hc with rfl | rfl | rfl | rfl
    · exact hn _
    · exact hn _
    · exact hn _
    · exact hp
  | case3 a =>
    simp only [Base64.encode, List.mem_cons, List.not_mem_nil, or_false] at hc
    rcases hc with rfl | rfl | rfl | rfl
    · exact hn _
    · exact hn _
    · exact hp
    · exact hp
  | case4 => cases hc

theorem encodeFeedCursor_ne_nil (published cveId : Text) : encodeFeedCursor published cveId ≠ [] := by
  intro h
  have hl := congrArg List.length h
  have hu : 0 < (utf8 (published ++ '\t' :: cveId)).length := by
    rw [utf8, List.length_map, List.length_pos_iff]
    simp
  rw [encodeFeedCursor, Base64.length_bare, List.length_nil] at hl
  omega

/-- The rows that the request with the cursor of `d` reads from; `none` if it is refused. -/
def cursorRows (rows : List CveDict) (d : CveDict) : Option (List CveDict) :=
  let cursor := encodeFeedCursor (d.published.getD []) d.cveId
  if cursor.length ≤ 256 then
    (decodeFeedCursor cursor).map fun c ↦ rows.filter fun e ↦ afterCursor c e.published e.cveId
  else none

theorem cursorRows_subset {rows rest : List CveDict} {d c : CveDict} (h : cursorRows rows d = some rest) (hc : c ∈ rest) :
    c ∈ rows := by
  rw [cursorRows] at h
  split at h
  · obtain ⟨k, -, rfl⟩ := Option.map_eq_some_iff.mp h
    exact (List.mem_filter.mp hc).1
  · cases h

theorem afterCursor_iff {c : Text × Text} {published : Option Text} {cveId : Text} :
    afterCursor c published cveId = true ↔ ∃ p, published = some p ∧ toLex (p, cveId) < toLex c := by
  obtain ⟨cp, ci⟩ := c
  cases published with
  | none => simp [afterCursor]
  | some p => simp [afterCursor, Prod.Lex.toLex_lt_toLex]

/-- The rows with a date come first, and a cursor selects a tail of them. -/
def Sorted (rows : List CveDict) : Prop :=
  rows.Pairwise fun a b ↦ feedKey a.published a.cveId ≤ feedKey b.published b.cveId

def dated (rows : List CveDict) : List CveDict := rows.filter fun d ↦ d.published.isSome

def undated (rows : List CveDict) : List CveDict := rows.filter fun d ↦ d.published.isNone

theorem feedKey_le {a b : Option Text} {i j : Text} :
    feedKey a i ≤ feedKey b j ↔ orNull b < orNull a ∨ orNull b = orNull a ∧ j ≤ i := by
  rw [feedKey, feedKey, OrderDual.toDual_le_toDual, Prod.Lex.toLex_le_toLex]

theorem feedKey_some_le {p q : Text} {i j : Text} :
    feedKey (some p) i ≤ feedKey (some q) j ↔ toLex (q, j) ≤ toLex (p, i) := by
  rw [feedKey_le, Prod.Lex.toLex_le_toLex]
  simp only [orNull, WithBot.coe_lt_coe, WithBot.coe_inj]

theorem published_of_feedKey_le {a : Option Text} {i j : Text} (h : feedKey none i ≤ feedKey a j) : a = none := by
  rw [feedKey_le] at h
  cases a with
  | none => rfl
  | some p => simp [orNull] at h

theorem dated_append_undated {rows : List CveDict} (h : Sorted rows) : dated rows ++ undated rows = rows := by
  induction rows with
  | nil => rfl
  | cons d rows ih =>
    obtain ⟨hd, h⟩ := List.pairwise_cons.mp h
    have ih := ih h
    cases hp : d.published with
    | some p => simpa [dated, undated, hp] using ih
    | none =>
      have hn : ∀ e ∈ rows, e.published = none := by
        intro e he
        have hde := hd e he
        rw [hp] at hde
        exact published_of_feedKey_le hde
      have hs : dated rows = [] := by
        rw [dated, List.filter_eq_nil_iff]
        intro e he
        simp [hn e he]
      rw [hs, List.nil_append] at ih
      rw [dated, undated, List.filter_cons_of_neg (by simp [hp]), List.filter_cons_of_pos (by simp [hp])]
      change dated rows ++ d :: undated rows = d :: rows
      rw [hs, ih]
      rfl

theorem filter_suffix {α : Type} {l : List α} {p : α → Bool} (h : l.Pairwise fun a b ↦ p a → p b) :
    l.filter p <:+ l := by
  induction l with
  | nil => exact List.suffix_rfl
  | cons a l ih =>
    obtain ⟨ha, h⟩ := List.pairwise_cons.mp h
    by_cases hp : p a
    · have hall : (a :: l).filter p = a :: l := by
        rw [List.filter_eq_self]
        intro b hb
        rcases List.mem_cons.mp hb with rfl | hb
        · exact hp
        · exact ha b hb hp
      rw [hall]
    · rw [List.filter_cons_of_neg hp]
      exact (ih h).trans (List.suffix_cons a l)

theorem cursors_cursorRows {rows : List CveDict} (h : Sorted rows) : Cursors (cursorRows rows) (dated rows) := by
  intro d rest hr
  obtain ⟨c, hc, hle⟩ := exists_decoded (d.published.getD []) d.cveId
  rw [cursorRows, hc] at hr
  by_cases hl : (encodeFeedCursor (d.published.getD []) d.cveId).length ≤ 256
  · rw [if_pos hl, Option.map_some, Option.some_inj] at hr
    subst hr
    constructor
    · have hf : rows.filter (fun e ↦ afterCursor c e.published e.cveId) =
          (dated rows).filter fun e ↦ afterCursor c e.published e.cveId := by
        rw [dated, List.filter_filter]
        apply List.filter_congr
        intro e _
        cases e.published <;> simp [afterCursor]
      rw [hf]
      apply filter_suffix
      apply (h.filter _).imp_of_mem
      intro a b _ hb hab ha
      obtain ⟨p, hp, hlt⟩ := afterCursor_iff.mp ha
      obtain ⟨q, hq⟩ := Option.isSome_iff_exists.mp (List.mem_filter.mp hb).2
      rw [hp, hq, feedKey_some_le] at hab
      exact afterCursor_iff.mpr ⟨q, hq, hab.trans_lt hlt⟩
    · intro hd
      obtain ⟨p, hp, hlt⟩ := afterCursor_iff.mp (List.mem_filter.mp hd).2
      rw [hp] at hle
      exact absurd hlt (not_lt.mpr hle)
  · rw [if_neg hl] at hr
    cases hr

section
variable [Interp]

def rank (stackProducts : List Text) (cve : CveDict) : ℕ :=
  match relevanceScore stackProducts cve with
  | .ok score => score
  | .error _ => 0

/-- Sorting the rows raises nothing. -/
def Rankable (stackProducts : List Text) (rows : List CveDict) : Prop :=
  stackProducts ≠ [] → ∀ c ∈ rows, ∃ score, relevanceScore stackProducts c = .ok score

theorem Rankable.mono {stackProducts : List Text} {rows rows' : List CveDict} (h : Rankable stackProducts rows)
    (hs : ∀ c ∈ rows', c ∈ rows) : Rankable stackProducts rows' :=
  fun hn c hc ↦ h hn c (hs c hc)

theorem rank_nil (cve : CveDict) : rank [] cve = 0 := by
  rw [rank]
  cases h : relevanceScore [] cve with
  | error e => rfl
  | ok n =>
    simp only [relevanceScore, bind_eq_ok, List.foldl_nil, pure_eq_ok, Except.ok.injEq] at h
    obtain ⟨_, -, hn⟩ := h
    exact hn.symm

theorem withScore_eq_ok {stackProducts : List Text} {c : CveDict} {p : ℕ × CveDict} :
    withScore stackProducts c = .ok p ↔
      (∃ score, relevanceScore stackProducts c = .ok score) ∧ p = (rank stackProducts c, c) := by
  simp only [withScore, rank, bind_eq_ok, pure_eq_ok, Except.ok.injEq]
  constructor
  · rintro ⟨score, hs, rfl⟩
    exact ⟨⟨score, hs⟩, by rw [hs]⟩
  · rintro ⟨⟨score, hs⟩, rfl⟩
    exact ⟨score, hs, by rw [hs]⟩

theorem mapM_withScore {rows : List CveDict} {stackProducts : List Text} {scored : List (ℕ × CveDict)} :
    rows.mapM (withScore stackProducts) = .ok scored ↔
      (∀ c ∈ rows, ∃ score, relevanceScore stackProducts c = .ok score) ∧
        scored = rows.map fun c ↦ (rank stackProducts c, c) := by
  simp only [mapM_eq_ok, withScore_eq_ok]
  induction rows generalizing scored with
  | nil => simp
  | cons c rows ih =>
    simp only [List.forall₂_cons_left_iff, ih, List.forall_mem_cons, List.map_cons]
    constructor
    · rintro ⟨_, _, ⟨hc, rfl⟩, ⟨hr, rfl⟩, rfl⟩
      exact ⟨⟨hc, hr⟩, rfl⟩
    · rintro ⟨⟨hc, hr⟩, rfl⟩
      exact ⟨_, _, ⟨hc, rfl⟩, ⟨hr, rfl⟩, rfl⟩

theorem sortByStackRelevance_eq_ok {rows s : List CveDict} {stackProducts : List Text} :
    sortByStackRelevance rows stackProducts = .ok s ↔
      Rankable stackProducts rows ∧ s = fallingRank (rank stackProducts) rows := by
  by_cases hs : stackProducts = []
  · subst hs
    have hid : fallingRank (rank []) rows = rows := by
      apply List.Pairwise.insertionSort_eq
      apply List.pairwise_of_forall
      intro a b
      simp only [rank_nil, le_refl]
    rw [hid, sortByStackRelevance, List.isEmpty_nil, if_pos rfl, Except.ok.injEq, eq_comm]
    exact ⟨fun h ↦ ⟨fun hn ↦ absurd rfl hn, h⟩, fun h ↦ h.2⟩
  · have hsort : (fallingRank Prod.fst (rows.map fun c ↦ (rank stackProducts c, c))).map Prod.snd =
        fallingRank (rank stackProducts) rows := by
      have hm := map_sortBy (fun c ↦ (rank stackProducts c, c)) (fun p : ℕ × CveDict ↦ OrderDual.toDual p.1) rows
      rw [fallingRank, ← hm, List.map_map]
      exact List.map_id _
    have hne : stackProducts.isEmpty = false := by simpa using hs
    simp only [sortByStackRelevance, hne, Bool.false_eq_true, if_false, bind_eq_ok, pure_eq_ok, Except.ok.injEq]
    constructor
    · rintro ⟨scored, hm, rfl⟩
      have hall := mapM_withScore.mp hm
      exact ⟨fun _ ↦ hall.1, by rw [hall.2, hsort]⟩
    · rintro ⟨hr, rfl⟩
      exact ⟨_, mapM_withScore.mpr ⟨hr hs, rfl⟩, hsort⟩

variable [Sqlite] {table : List CveRow} {q : Query} {conditions : List Cond} {stackProducts : List Text}

theorem sorted_feed (table : List CveRow) (conditions : List Cond) : Sorted (feed table conditions) := by
  rw [Sorted, feed, List.pairwise_map]
  exact pairwise_sortBy _ _

theorem map_cveId_feed_perm (table : List CveRow) (conditions : List Cond) :
    ((feed table conditions).map CveDict.cveId).Perm ((table.filter (satisfies conditions)).map CveRow.cveId) := by
  rw [feed, List.map_map]
  exact (perm_sortBy _ _).map _

theorem nodup_feed (hu : (table.map CveRow.cveId).Nodup) (conditions : List Cond) : (feed table conditions).Nodup := by
  apply List.Nodup.of_map CveDict.cveId
  rw [(map_cveId_feed_perm table conditions).nodup_iff]
  exact hu.sublist (List.filter_sublist.map _)

theorem listCves_eq (table : List CveRow) (hb : q.withinBounds = true) (hc : atMost 256 q.cursor = true)
    (hf : buildCveFilters q.filters = .ok (conditions, stackProducts)) {after : Option Text → Text → Bool}
    (ha : cursorCond q.cursor = .ok after) :
    listCves table q = payloadOf q.limit stackProducts
      (((feed table conditions).filter fun d ↦ after d.published d.cveId).take (q.limit + 1)) := by
  have hrows : (sortBy (fun r ↦ feedKey r.published r.cveId)
      (table.filter fun r ↦ satisfies conditions r && after r.published r.cveId)).map rowToCveDict =
        (feed table conditions).filter fun d ↦ after d.published d.cveId := by
    have hand : (table.filter fun r ↦ satisfies conditions r && after r.published r.cveId) =
        (table.filter (satisfies conditions)).filter fun r ↦ after r.published r.cveId := by
      rw [List.filter_filter]
      exact List.filter_congr fun r _ ↦ Bool.and_comm _ _
    rw [hand, ← filter_sortBy, feed, List.filter_map]
    rfl
  rw [listCves, hb, hc, hf, ha, ← hrows, ← List.map_take]
  rfl

omit [Sqlite] in
theorem payloadOf_eq_ok {limit : ℕ} {rest : List CveDict} {p : Payload} :
    payloadOf limit stackProducts (rest.take (limit + 1)) = .ok p ↔
      Rankable stackProducts (rest.take (limit + 1)) ∧
        p = payload limit (decide (limit < rest.length)) (fallingRank (rank stackProducts) (rest.take (limit + 1))) := by
  have hlen : limit < (rest.take (limit + 1)).length ↔ limit < rest.length := by
    rw [List.length_take]
    omega
  simp only [payloadOf, hlen]
  cases hs : sortByStackRelevance (rest.take (limit + 1)) stackProducts with
  | error e =>
    simp only [reduceCtorEq, false_iff, not_and]
    intro hr
    rw [sortByStackRelevance_eq_ok.mpr ⟨hr, rfl⟩] at hs
    cases hs
  | ok l =>
    obtain ⟨hr, rfl⟩ := sortByStackRelevance_eq_ok.mp hs
    simp only [hr, true_and, Except.ok.injEq, eq_comm]

omit [Sqlite] in
theorem cursorCond_encode (published cveId : Text) {c : Text × Text}
    (hc : decodeFeedCursor (encodeFeedCursor published cveId) = some c) :
    cursorCond (some (encodeFeedCursor published cveId)) = .ok (afterCursor c) := by
  have hs : strip (encodeFeedCursor published cveId) = encodeFeedCursor published cveId := by
    apply strip_eq_self
    intro c hc
    have hc : c ∈ Base64.encode _ := (List.rdropWhile_prefix _ _).subset hc
    obtain ⟨hn, ha⟩ := encode_ne_space hc
    rw [Interp.isSpace_ascii c ha, hn]
  rw [cursorCond, Option.getD_some, hs, if_neg (encodeFeedCursor_ne_nil _ _), hc]

/-- The request with this cursor makes its page from these rows. -/
def Reads (table : List CveRow) (q : Query) (stackProducts : List Text) (cursor : Option Text)
    (rest : List CveDict) : Prop :=
  listCves table { q with cursor } = payloadOf q.limit stackProducts (rest.take (q.limit + 1))

section
variable (hb : q.withinBounds = true) (hf : buildCveFilters q.filters = .ok (conditions, stackProducts))
include hb hf

theorem reads_start : Reads table q stackProducts none (feed table conditions) := by
  have ha : cursorCond none = .ok fun _ _ ↦ true := if_pos (by rfl)
  have h := listCves_eq table (q := { q with cursor := none }) hb rfl hf ha
  simp only [List.filter_true] at h
  exact h

theorem reads_cursor {d : CveDict} {rest : List CveDict} (hr : cursorRows (feed table conditions) d = some rest) :
    Reads table q stackProducts (some (encodeFeedCursor (d.published.getD []) d.cveId)) rest := by
  obtain ⟨c, hc, -⟩ := exists_decoded (d.published.getD []) d.cveId
  by_cases hl : (encodeFeedCursor (d.published.getD []) d.cveId).length ≤ 256
  · rw [cursorRows, if_pos hl, hc, Option.map_some, Option.some_inj] at hr
    subst hr
    exact listCves_eq table (q := { q with cursor := some _ }) hb (by simpa [atMost] using hl) hf (cursorCond_encode _ _ hc)
  · rw [cursorRows, if_neg hl] at hr
    cases hr

omit hb hf in
theorem cursorRows_of_ok {rows : List CveDict} {d : CveDict} {p : Payload}
    (h : listCves table { q with cursor := some (encodeFeedCursor (d.published.getD []) d.cveId) } = .ok p) :
    ∃ rest, cursorRows rows d = some rest := by
  obtain ⟨c, hc, -⟩ := exists_decoded (d.published.getD []) d.cveId
  by_cases hl : (encodeFeedCursor (d.published.getD []) d.cveId).length ≤ 256
  · exact ⟨_, by rw [cursorRows, if_pos hl, hc, Option.map_some]⟩
  · have hn : atMost 256 (some (encodeFeedCursor (d.published.getD []) d.cveId)) = false := by simpa [atMost] using hl
    rw [listCves, hn, Bool.and_false] at h
    cases h

omit hb hf in
theorem Traversal.cursorRows {d : CveDict} {pages : List (List CveDict)} (rows : List CveDict)
    (h : Traversal table q (some (encodeFeedCursor (d.published.getD []) d.cveId)) pages) :
    ∃ rest, CveFeed.cursorRows rows d = some rest := by
  cases h with
  | last hp _ => exact cursorRows_of_ok hp
  | next hp _ _ => exact cursorRows_of_ok hp

omit [Interp] [Sqlite] hb hf in
theorem limit_pos (hb : q.withinBounds = true) : 0 < q.limit := by
  simp only [Query.withinBounds, Bool.and_eq_true, decide_eq_true_eq] at hb
  exact hb.2.1

theorem traversal_of_follows {cursor : Option Text} {rest : List CveDict} {pages : List (List CveDict)}
    (hr : Rankable stackProducts (feed table conditions))
    (h : Follows (rank stackProducts) (cursorRows (feed table conditions)) q.limit rest pages)
    (hs : ∀ c ∈ rest, c ∈ feed table conditions) (hc : Reads table q stackProducts cursor rest) :
    Traversal table q cursor pages := by
  induction h generalizing cursor with
  | @last rest hl =>
    have hp := hc.trans (payloadOf_eq_ok.mpr ⟨hr.mono fun c hc ↦ hs c (List.mem_of_mem_take hc), rfl⟩)
    rw [List.take_of_length_le (by omega), decide_eq_false (by omega)] at hp
    exact .last hp rfl
  | @next rest rest' pages x hl hx hn _ ih =>
    have hp := hc.trans (payloadOf_eq_ok.mpr ⟨hr.mono fun c hc ↦ hs c (List.mem_of_mem_take hc), rfl⟩)
    rw [decide_eq_true hl] at hp
    refine .next hp ?_ (ih (fun _ hc ↦ cursorRows_subset hn hc) (reads_cursor hb hf hn))
    simp only [payload, if_true, hx, Option.map_some]

theorem follows_of_traversal {cursor : Option Text} {rest : List CveDict} {pages : List (List CveDict)}
    (h : Traversal table q cursor pages) (hc : Reads table q stackProducts cursor rest) :
    Follows (rank stackProducts) (cursorRows (feed table conditions)) q.limit rest pages ∧
      Rankable stackProducts pages.flatten := by
  induction h generalizing rest with
  | @last cursor p hp hn =>
    obtain ⟨hr, rfl⟩ := payloadOf_eq_ok.mp (hc.symm.trans hp)
    by_cases hl : q.limit < rest.length
    · obtain ⟨x, hx⟩ := exists_last (rank stackProducts) (limit_pos hb) hl
      simp [payload, hl, hx] at hn
    · rw [List.take_of_length_le (by omega)] at hr
      rw [List.take_of_length_le (by omega), decide_eq_false hl]
      refine ⟨.last (not_lt.mp hl), hr.mono fun c hc ↦ ?_⟩
      rw [List.flatten_singleton] at hc
      exact (perm_fallingRank _ _).mem_iff.mp hc
  | @next cursor p c pages hp hn ht ih =>
    obtain ⟨hr, rfl⟩ := payloadOf_eq_ok.mp (hc.symm.trans hp)
    by_cases hl : q.limit < rest.length
    · obtain ⟨x, hx⟩ := exists_last (rank stackProducts) (limit_pos hb) hl
      rw [decide_eq_true hl] at hn ⊢
      simp only [payload, if_true, hx, Option.map_some, Option.some_inj] at hn
      subst hn
      obtain ⟨rest', hr'⟩ := ht.cursorRows (feed table conditions)
      obtain ⟨hfol, hrank⟩ := ih (reads_cursor hb hf hr')
      refine ⟨.next hl hx hr' hfol, fun hne c hc ↦ ?_⟩
      rw [List.flatten_cons, List.mem_append] at hc
      rcases hc with hc | hc
      · exact hr hne c ((perm_fallingRank _ _).mem_iff.mp (List.mem_of_mem_take hc))
      · exact hrank hne c hc
    · rw [decide_eq_false hl] at hn
      cases hn

end

end

section
local instance : Interp := ascii fun _ ↦ none

local instance : Sqlite where
  datetime s := some s
  date s := some (s.take 10)
  now := "2026-01-02 00:00:00".toList
  today := "2026-01-02".toList

def cveRow (cveId description published : String) : CveRow where
  cveId := cveId.toList
  description := some description.toList
  cvssScore := none
  severity := none
  published := some published.toList
  modified := none
  affectedProducts := none
  affectedProductsSource := none
  mitreTechnique := none
  summary := none
  isKev := some 0
  epssScore := none
  epssPercentile := none
  hasPoc := some 0
  patchAvailable := some 0
  hasAiContext := some 0
  sourceUrls := none
  cweIds := none
  updatedAt := none
  kev := none
  watch := none
  techniques := []
  memberOfCampaign := false
  lifecycles := []

/-- A request for the CVEs of a stack, one a page. -/
def stackQuery (stack : String) : Query where
  filters :=
    { severity := none, kevOnly := false, kevOverdueOnly := false, pocOnly := false, patchOnly := false,
      epssMin := none, search := none, stack := some stack.toList, vendors := none, technique := none,
      publishedOn := none, summaryOnly := false, aiContextOnly := false, frameworks := none,
      watchlistOnly := false, severityList := none, excludeVendors := none }
  limit := 1
  cursor := none

def twoRows : List CveRow :=
  [cveRow "CVE-2026-2" "nginx crash" "2026-01-02", cveRow "CVE-2026-1" "nginx and php crash" "2026-01-01"]

def stackConditions : List Cond :=
  [.stack [.mention "%nginx%".toList, .mention "%php%".toList], .notSnoozed]

theorem stackQuery_filters :
    buildCveFilters (stackQuery "nginx,php").filters = .ok (stackConditions, ["nginx".toList, "php".toList]) := rfl

def oneRow : List CveRow := [cveRow "CVE-2026-2" "nginx crash" "2026-01-02"]

end

end Briefr.Routers.CveFeed
