import Briefr.Library.Batches
import Briefr.Library.Runs
import Briefr.Library.SerialTable
import Briefr.Library.StableSort
import Briefr.Library.Substitution
import Briefr.Library.UniqueIndex
import Briefr.Python.Digits
import Mathlib.Data.List.Lex

namespace Briefr.Db.Publications

open Briefr.Python Briefr.Library Briefr.Library.PagedReads Briefr.Library.Runs Briefr.Library.StableSort
  Briefr.Library.Substitution

/-- The character tables of `re`: the decimals and the ASCII letters are of a word. -/
class Words extends Digits where
  isWord : Char → Bool
  isWord_of_isDecimal : ∀ c, isDecimal c = true → isWord c = true
  isWord_ascii : ∀ c, c.toNat < 128 → isWord c = (c.isAlphanum || c == '_')

export Words (isWord isWord_of_isDecimal isWord_ascii)

/-- The hash, and `LIKE` of the database. -/
class Engine where
  sha256 : Text → Text
  like : Text → Text → Bool

export Engine (sha256 like)

section
variable [Words]

/-- `\b` between two characters, or at an end of the text. -/
def boundary (before after : Option Char) : Bool := before.any isWord != after.any isWord

/-- `CVE_RE` at a place. The digits at the end are all taken: no shorter match ends at a boundary. -/
def cveLength (before : Option Char) : Text → ℕ
  | c :: v :: e :: h :: y₁ :: y₂ :: y₃ :: y₄ :: h' :: rest =>
    let serial := rest.takeWhile isDecimal
    if [c, v, e, h].map Char.toLower = "cve-".toList ∧ [y₁, y₂, y₃, y₄].all isDecimal ∧ h' = '-' ∧ 4 ≤ serial.length ∧
        boundary before (some c) ∧ boundary serial.getLast? (rest.dropWhile isDecimal).head? then
      9 + serial.length
    else 0
  | _ => 0

/-- The lengths that `T\d{4}(?:\.\d{3})?` can take, the longer one first. -/
def techniqueNumbers (text : Text) : List ℕ :=
  let digits := (text.drop 1).take 4
  let sub := (text.drop 6).take 3
  if text.head?.map Char.toLower = some 't' ∧ digits.length = 4 ∧ digits.all isDecimal then
    if text[5]? = some '.' ∧ sub.length = 3 ∧ sub.all isDecimal then [9, 5] else [5]
  else []

/-- `TECHNIQUE_RE` at a place. -/
def techniqueLength (before : Option Char) (text : Text) : ℕ :=
  let atlas :=
    if (text.take 4).map Char.toLower = "aml.".toList then (techniqueNumbers (text.drop 4)).map (4 + ·) else []
  if boundary before text.head? then
    ((techniqueNumbers text ++ atlas).find? fun n ↦ boundary text[n - 1]? text[n]?).getD 0
  else 0

/-- The matches in upper case, each once. -/
def extractIds (matchAt : Option Char → Text → ℕ) (texts : List Text) : List Text :=
  UniqueIndex.insertAllIgnore id [] ((texts.flatMap (allMatches matchAt)).map upper)

def extractCveIds (texts : List Text) : List Text := extractIds cveLength texts

def extractTechniqueIds (texts : List Text) : List Text := extractIds techniqueLength texts

end

/-- An item as `parse_publication_rss_items` gives it. -/
structure FeedItem where
  canonicalUrl : Text
  title : Text
  body : Text
  publishedAt : Text
  updatedAt : Text
  documentKind : Text

/-- The columns that an update writes. -/
structure Columns where
  contentSha256 : Text
  title : Text
  documentKind : Text
  publishedAt : Text
  updatedAt : Text
  retrievedAt : Text
  canonicalExternalId : Text
  language : Text
  knowledgeState : Text
  extractionStatus : Text

structure Publication extends Columns where
  publicationId : ℕ
  sourceKey : Text
  canonicalUrl : Text
  urlHash : Text

def Publication.key (p : Publication) : Text × Text := (p.sourceKey, p.canonicalUrl)

/-- `publications`, with its `UNIQUE (source_key, canonical_url)`. -/
abbrev Table := SerialTable Publication (Text × Text) Publication.publicationId Publication.key

inductive EntityType
  | cve
  | technique
  deriving DecidableEq

structure EntityLink where
  publicationId : ℕ
  entityType : EntityType
  entityId : Text
  extractor : Text
  evidenceField : Text
  confidence : Text
  observedAt : Text
  retrievedAt : Text

/-- The columns of the `UNIQUE` of `publication_entity_links`. -/
def EntityLink.key (l : EntityLink) : ℕ × EntityType × Text × Text × Text :=
  (l.publicationId, l.entityType, l.entityId, l.extractor, l.evidenceField)

structure Store where
  publications : Table
  links : List EntityLink

def refresh (id : ℕ) (hash : Text) (columns : Columns) (p : Publication) : Publication :=
  if p.publicationId = id then { p with toColumns := columns, urlHash := hash } else p

theorem id_refresh (id : ℕ) (hash : Text) (columns : Columns) (p : Publication) :
    (refresh id hash columns p).publicationId = p.publicationId := by
  rw [refresh]; split <;> rfl

theorem key_refresh (id : ℕ) (hash : Text) (columns : Columns) (p : Publication) :
    (refresh id hash columns p).key = p.key := by
  rw [refresh]; split <;> rfl

section
variable [Engine]

def urlHash (canonicalUrl : Text) : Text := (sha256 canonicalUrl).take 32

/-- The table, with the id of the publication and whether it is new; an empty URL is a `ValueError`. -/
def upsertPublication [Interp] (t : Table) (sourceKey canonicalUrl : Text) (columns : Columns) :
    Option (Table × ℕ × Bool) :=
  let canonical := strip canonicalUrl
  let hash := urlHash canonical
  if canonical = [] then none
  else
    match h : t.lookup (sourceKey, canonical) with
    | some old =>
      let id := old.publicationId
      some (t.update (refresh id hash columns) (id_refresh id hash columns) (key_refresh id hash columns), id, false)
    | none =>
      some (t.insert ⟨columns, t.nextId, sourceKey, canonical, hash⟩ rfl (SerialTable.lookup_eq_none.mp h),
        t.nextId, true)

end

def cveLink (publicationId : ℕ) (now cveId : Text) : EntityLink where
  publicationId := publicationId
  entityType := .cve
  entityId := cveId
  extractor := "regex_cve"
  evidenceField := "title+body"
  confidence := "high"
  observedAt := now
  retrievedAt := now

def techniqueLink (publicationId : ℕ) (now techniqueId : Text) : EntityLink where
  publicationId := publicationId
  entityType := .technique
  entityId := techniqueId
  extractor := "regex_attack"
  evidenceField := "title+body"
  confidence := "medium"
  observedAt := now
  retrievedAt := now

/-- An INSERT; a second row of one key raises. -/
def insertLink (links : List EntityLink) (l : EntityLink) : Option (List EntityLink) :=
  if l.key ∈ links.map EntityLink.key then none else some (links ++ [l])

section
variable [Words]

def linksOf (publicationId : ℕ) (title body now : Text) : List EntityLink :=
  (extractCveIds [title, body]).map (cveLink publicationId now) ++
    (extractTechniqueIds [title, body]).map (techniqueLink publicationId now)

/-- The links after the call, and how many it has written. -/
def replacePublicationEntityLinks (links : List EntityLink) (publicationId : ℕ) (title body now : Text) :
    Option (List EntityLink × ℕ) :=
  let new := linksOf publicationId title body now
  (new.foldlM insertLink (links.filter fun l ↦ l.publicationId ≠ publicationId)).map fun links ↦ (links, new.length)

structure Stats where
  inserted : ℕ := 0
  updated : ℕ := 0
  linksWritten : ℕ := 0

def Stats.add (stats : Stats) (isNew : Bool) (written : ℕ) : Stats where
  inserted := if isNew then stats.inserted + 1 else stats.inserted
  updated := if isNew then stats.updated else stats.updated + 1
  linksWritten := stats.linksWritten + written

variable [Engine]

def FeedItem.columns (item : FeedItem) (now : Text) : Columns where
  contentSha256 := sha256 (item.canonicalUrl ++ '\n' :: item.title ++ '\n' :: item.body)
  title := item.title
  documentKind := item.documentKind
  publishedAt := item.publishedAt
  updatedAt := item.updatedAt
  retrievedAt := now
  canonicalExternalId := []
  language := []
  knowledgeState := "known"
  extractionStatus := "complete"

def ingest (sourceKey now : Text) (acc : Store × Stats) (item : FeedItem) : Option (Store × Stats) := do
  let (db, stats) := acc
  let (publications, id, isNew) ← upsertPublication db.publications sourceKey item.canonicalUrl (item.columns now)
  let (links, written) ← replacePublicationEntityLinks db.links id item.title item.body now
  return (⟨publications, links⟩, stats.add isNew written)

/-- A configured source, with the items of its feed. -/
abbrev Feed := Text × List FeedItem

/-- The loop of `sync_publication_rss_source`. -/
def syncPublicationRssSource (now : Text) (db : Store) (feed : Feed) : Option (Store × Stats) :=
  feed.2.foldlM (ingest feed.1 now) (db, {})

/-- `run_publication_source_sync`: all sources, and one commit. -/
def runPublicationSourceSync (now : Text) (db : Store) (feeds : List Feed) : Option Store :=
  feeds.foldlM (fun db feed ↦ (syncPublicationRssSource now db feed).map Prod.fst) db

structure Filters where
  cveId : Option Text
  sourceKey : Option Text
  documentKind : Option Text
  q : Option Text

/-- A parameter that is there and not empty. -/
def given (value : Option Text) : Option Text := value.filter fun s ↦ s ≠ []

def mentionsCve (db : Store) (p : Publication) (cveId : Text) : Bool :=
  db.links.any fun l ↦ l.publicationId = p.publicationId && l.entityType = .cve && l.entityId = cveId

def selects (db : Store) (f : Filters) (p : Publication) : Bool :=
  (given f.cveId).all (fun c ↦ mentionsCve db p (upper c)) &&
    ((given f.sourceKey).all (fun s ↦ p.sourceKey = strip s) &&
      ((given f.documentKind).all (fun s ↦ p.documentKind = strip s) &&
        (given f.q).all (fun s ↦ like ('%' :: strip s ++ ['%']) p.title)))

/-- A row of the response, with its CVE ids. -/
structure Listed where
  publication : Publication
  cveIds : List Text

def cveIdsOf (db : Store) (p : Publication) : List Text :=
  sortBy id ((db.links.filter fun l ↦ l.publicationId = p.publicationId && l.entityType = .cve).map EntityLink.entityId)

/-- The rows that a cursor leaves, newest first. -/
def selected (db : Store) (f : Filters) (cursor : Option ℕ) : List Publication :=
  sortBy (fun p ↦ OrderDual.toDual p.publicationId)
    (db.publications.rows.filter fun p ↦ selects db f p && cursor.all (p.publicationId < ·))

def listPublications (db : Store) (f : Filters) (limit : ℕ) (cursor : Option ℕ) : List Listed × Option ℕ :=
  let rows := (selected db f cursor).take (limit + 1)
  let next := if rows.length > limit then rows[limit - 1]?.map Publication.publicationId else none
  ((rows.take limit).map fun p ↦ ⟨p, cveIdsOf db p⟩, next)

/-- `require_cve_id`; `none` is a 400. -/
def requireCveId (cveId : Text) : Option Text :=
  if "CVE-".toList <+: upper (strip cveId) then some (upper (strip cveId)) else none

def checkedFilters (f : Filters) : Option Filters :=
  match given f.cveId with
  | none => some f
  | some cveId => (requireCveId cveId).map fun cveId ↦ { f with cveId := some cveId }

/-- The route; `none` is an error response. -/
def publicationsList (db : Store) (f : Filters) (limit : ℕ) (cursor : Option ℕ) : Option (List Listed × Option ℕ) :=
  if 1 ≤ limit ∧ limit ≤ 100 ∧ cursor.all (1 ≤ ·) then
    (checkedFilters f).map fun f ↦ listPublications db f limit cursor
  else none

/-- The store, and a client that walks through a listing: the cursor of its next request, and what it was shown. -/
structure State where
  db : Store
  walk : Option (Option ℕ)
  shown : List Listed

/-- The job syncs its sources or is rolled back, though the ids drawn stay used; the client asks for a page. -/
inductive Event
  | sync (feeds : List Feed) (now : Text)
  | rolledBack (ids : ℕ)
  | page (limit : ℕ)

variable (f : Filters)

def step (s : State) : Event → State
  | .sync feeds now => { s with db := (runPublicationSourceSync now s.db feeds).getD s.db }
  | .rolledBack ids => { s with db := { s.db with publications := SerialTable.skip^[ids] s.db.publications } }
  | .page limit =>
    match s.walk with
    | none => s
    | some cursor =>
      match publicationsList s.db f limit cursor with
      | none => s
      | some (rows, next) => { s with walk := next.map some, shown := s.shown ++ rows }

end

theorem eq_of_toLower_c {c : Char} (h : c.toLower = 'c') : c = 'c' ∨ c = 'C' := by
  by_cases hu : isUpperAscii c
  · have hn := toNat_toLower hu
    rw [h] at hn
    have hC : 'c'.toNat = 'C'.toNat + 32 := rfl
    exact .inr (Char.toNat_inj.mp (by omega))
  · exact .inl ((toLower_of_not_upper hu).symm.trans h)

section
variable [Words] {before : Option Char} {text m b : Text}

theorem toLower_of_isDecimal {c : Char} (h : isDecimal c = true) : c.toLower ≠ 'c' := by
  intro hc
  rcases eq_of_toLower_c hc with rfl | rfl
  · rw [Digits.isDecimal_ascii _ (by decide)] at h
    exact absurd h (by decide)
  · rw [Digits.isDecimal_ascii _ (by decide)] at h
    exact absurd h (by decide)

/-- A CVE id, in any case. -/
def IsCveId (m : Text) : Prop :=
  ∃ c v e h y₁ y₂ y₃ y₄ serial, m = c :: v :: e :: h :: y₁ :: y₂ :: y₃ :: y₄ :: '-' :: serial ∧
    [c, v, e, h].map Char.toLower = "cve-".toList ∧ [y₁, y₂, y₃, y₄].all isDecimal = true ∧ 4 ≤ serial.length ∧
      serial.all isDecimal = true

theorem boundary_of_name {c : Char} (h : c.toLower = 'c') :
    boundary before (some c) = true ↔ before.any isWord = false := by
  have hword : isWord c = true := by
    rcases eq_of_toLower_c h with rfl | rfl
    · exact isWord_ascii _ (by decide)
    · exact isWord_ascii _ (by decide)
  rw [boundary, Option.any_some, hword]
  cases before.any isWord <;> decide

theorem boundary_of_serial {serial : Text} (hlength : 4 ≤ serial.length) (hdigits : serial.all isDecimal = true)
    {after : Option Char} : boundary serial.getLast? after = true ↔ after.any isWord = false := by
  have hne : serial ≠ [] := List.ne_nil_of_length_pos (lt_of_lt_of_le (by decide) hlength)
  obtain ⟨c, hc⟩ := Option.isSome_iff_exists.mp (List.getLast?_isSome.mpr hne)
  have hword : isWord c = true :=
    isWord_of_isDecimal c (List.all_eq_true.mp hdigits c (List.mem_of_getLast? hc))
  rw [boundary, hc, Option.any_some, hword]
  cases after.any isWord <;> decide

theorem exists_of_cveLength (h : cveLength before text ≠ 0) : ∃ m b, text = m ++ b ∧ cveLength before text = m.length ∧
    IsCveId m ∧ before.any isWord = false ∧ b.head?.any isWord = false := by
  rw [cveLength.eq_def] at h
  split at h
  next c v e k y₁ y₂ y₃ y₄ k' rest =>
    dsimp only at h
    split at h
    next hcond =>
      obtain ⟨hname, hyear, rfl, hserial, hbefore, hafter⟩ := hcond
      have hdigits : (rest.takeWhile isDecimal).all isDecimal = true := List.all_takeWhile
      refine ⟨c :: v :: e :: k :: y₁ :: y₂ :: y₃ :: y₄ :: '-' :: rest.takeWhile isDecimal,
        rest.dropWhile isDecimal, ?_, ?_,
        ⟨c, v, e, k, y₁, y₂, y₃, y₄, _, rfl, hname, hyear, hserial, hdigits⟩, ?_, ?_⟩
      · simp only [List.cons_append, List.takeWhile_append_dropWhile]
      · rw [cveLength, if_pos ⟨hname, hyear, rfl, hserial, hbefore, hafter⟩]
        simp only [List.length_cons]
        omega
      · exact (boundary_of_name (List.cons.inj hname).1).mp hbefore
      · exact (boundary_of_serial hserial hdigits).mp hafter
    next => exact absurd rfl h
  next => exact absurd rfl h

theorem cveLength_append (hm : IsCveId m) (hbefore : before.any isWord = false) (hafter : b.head?.any isWord = false) :
    cveLength before (m ++ b) = m.length := by
  obtain ⟨c, v, e, k, y₁, y₂, y₃, y₄, serial, rfl, hname, hyear, hlength, hdigits⟩ := hm
  have hstop : ∀ d ∈ b.head?, isDecimal d = false := by
    intro d hd
    rw [hd, Option.any_some] at hafter
    by_contra hdecimal
    rw [isWord_of_isDecimal d (Bool.eq_true_of_not_eq_false hdecimal)] at hafter
    cases hafter
  have htake : (serial ++ b).takeWhile isDecimal = serial ∧ (serial ++ b).dropWhile isDecimal = b := by
    have hall := List.all_eq_true.mp hdigits
    rw [List.takeWhile_append_of_pos hall, List.dropWhile_append_of_pos hall]
    cases b with
    | nil => exact ⟨List.append_nil _, rfl⟩
    | cons d b =>
      have hd := hstop d rfl
      rw [List.takeWhile_cons_of_neg (by simp [hd]), List.dropWhile_cons_of_neg (by simp [hd])]
      exact ⟨List.append_nil _, rfl⟩
  simp only [List.cons_append, cveLength, htake.1, htake.2]
  rw [if_pos ⟨hname, hyear, trivial, hlength, (boundary_of_name (List.cons.inj hname).1).mpr hbefore,
    (boundary_of_serial hlength hdigits).mpr hafter⟩]
  simp only [List.length_cons]
  omega

/-- Only the first letter of a CVE id is one that a CVE id begins with. -/
theorem IsCveId.tail (hm : IsCveId m) : ∀ c ∈ m.tail, c.toLower ≠ 'c' := by
  obtain ⟨c, v, e, k, y₁, y₂, y₃, y₄, serial, rfl, hname, hyear, -, hdigits⟩ := hm
  obtain ⟨-, hv, he, hk⟩ : c.toLower = 'c' ∧ v.toLower = 'v' ∧ e.toLower = 'e' ∧ k.toLower = '-' := by
    simpa using hname
  obtain ⟨h₁, h₂, h₃, h₄⟩ : isDecimal y₁ = true ∧ isDecimal y₂ = true ∧ isDecimal y₃ = true ∧ isDecimal y₄ = true := by
    simpa using hyear
  intro d hd
  rcases List.mem_append.mp (show d ∈ [v, e, k, y₁, y₂, y₃, y₄, '-'] ++ serial from hd) with hd | hd
  · simp only [List.mem_cons, List.not_mem_nil, or_false] at hd
    rcases hd with rfl | rfl | rfl | rfl | rfl | rfl | rfl | rfl
    · rw [hv]; decide
    · rw [he]; decide
    · rw [hk]; decide
    · exact toLower_of_isDecimal h₁
    · exact toLower_of_isDecimal h₂
    · exact toLower_of_isDecimal h₃
    · exact toLower_of_isDecimal h₄
    · decide
  · exact toLower_of_isDecimal (List.all_eq_true.mp hdigits d hd)

theorem separated_cveLength : Separated cveLength where
  length_le before text := by
    by_cases h : cveLength before text = 0
    · exact h ▸ Nat.zero_le _
    · obtain ⟨m, b, htext, hlength, -⟩ := exists_of_cveLength h
      rw [hlength, htext, List.length_append]
      exact Nat.le_add_right _ _
  inside before a b ha hlt := by
    by_contra h
    obtain ⟨m, r, htext, hlength, hm, -⟩ := exists_of_cveLength (Nat.ne_zero_of_lt hlt)
    obtain ⟨m', r', rfl, -, hm', -⟩ := exists_of_cveLength h
    obtain ⟨c, v, e, k, y₁, y₂, y₃, y₄, serial, rfl, hname, -⟩ := hm'
    obtain ⟨d, a, rfl⟩ := List.exists_cons_of_ne_nil ha
    -- the first letter of the inner match is in the tail of the outer one
    have hmem : c ∈ m.tail := by
      rw [hlength] at hlt
      cases m with
      | nil => cases hlt
      | cons d' m =>
        obtain ⟨rfl, htail⟩ := List.cons.inj htext
        have hlt : a.length < m.length := Nat.lt_of_succ_lt_succ hlt
        have hget : (a ++ (c :: v :: e :: k :: y₁ :: y₂ :: y₃ :: y₄ :: '-' :: serial ++ r'))[a.length]? =
            (m ++ r)[a.length]? :=
          congrArg (fun l ↦ l[a.length]?) htail
        rw [List.getElem?_append_right le_rfl, Nat.sub_self, List.cons_append, List.getElem?_cons_zero,
          List.getElem?_append_left hlt] at hget
        exact List.mem_of_getElem? hget.symm
    exact hm.tail c hmem (List.cons.inj hname).1

/-- A text mentions a CVE: its id stands there as a word of its own. -/
def Mentions (text cveId : Text) : Prop :=
  ∃ a m b, text = a ++ m ++ b ∧ IsCveId m ∧ a.getLast?.any isWord = false ∧ b.head?.any isWord = false ∧ upper m = cveId

section
variable {matchAt : Option Char → Text → ℕ} {texts : List Text}

theorem mem_extractIds {found : Text} :
    found ∈ extractIds matchAt texts ↔ ∃ text ∈ texts, ∃ m ∈ allMatches matchAt text, upper m = found := by
  have hmem : found ∈ (extractIds matchAt texts).map id ↔ found ∈ ([] : List Text).map id ∨
      found ∈ ((texts.flatMap (allMatches matchAt)).map upper).map id := UniqueIndex.mem_keys_insertAllIgnore
  rw [List.map_id, List.map_id, List.map_id, or_iff_right List.not_mem_nil, List.mem_map] at hmem
  rw [hmem]
  constructor
  · rintro ⟨m, hm, rfl⟩
    obtain ⟨text, htext, hm⟩ := List.mem_flatMap.mp hm
    exact ⟨text, htext, m, hm, rfl⟩
  · rintro ⟨text, htext, m, hm, rfl⟩
    exact ⟨m, List.mem_flatMap.mpr ⟨text, htext, hm⟩, rfl⟩

theorem nodup_extractIds : (extractIds matchAt texts).Nodup := by
  have h : ((extractIds matchAt texts).map id).Nodup := UniqueIndex.nodup_insertAllIgnore List.nodup_nil
  rwa [List.map_id] at h

end

theorem mem_allMatches_cve : m ∈ allMatches cveLength text ↔ ∃ a b, text = a ++ m ++ b ∧ IsCveId m ∧
    a.getLast?.any isWord = false ∧ b.head?.any isWord = false := by
  rw [mem_allMatches separated_cveLength]
  constructor
  · rintro ⟨hne, a, b, htext, hlength⟩
    have hzero : cveLength a.getLast? (m ++ b) ≠ 0 := by
      rw [hlength]
      exact fun h ↦ hne (List.length_eq_zero_iff.mp h)
    obtain ⟨m', b', heq, hlength', hm, hbefore, hafter⟩ := exists_of_cveLength hzero
    obtain ⟨rfl, rfl⟩ := List.append_inj heq (hlength.symm.trans hlength')
    exact ⟨a, b, htext, hm, hbefore, hafter⟩
  · rintro ⟨a, b, htext, hm, hbefore, hafter⟩
    refine ⟨?_, a, b, htext, cveLength_append hm hbefore hafter⟩
    rintro rfl
    obtain ⟨c, v, e, k, y₁, y₂, y₃, y₄, serial, hnil, -⟩ := hm
    cases hnil

/-- The extractor finds exactly the CVEs that one of the texts mentions. -/
theorem mem_extractCveIds {texts : List Text} {cveId : Text} :
    cveId ∈ extractCveIds texts ↔ ∃ text ∈ texts, Mentions text cveId := by
  rw [extractCveIds, mem_extractIds]
  refine exists_congr fun text ↦ and_congr_right fun _ ↦ ?_
  constructor
  · rintro ⟨m, hm, hid⟩
    obtain ⟨a, b, htext, hm, hbefore, hafter⟩ := mem_allMatches_cve.mp hm
    exact ⟨a, m, b, htext, hm, hbefore, hafter, hid⟩
  · rintro ⟨a, m, b, htext, hm, hbefore, hafter, hid⟩
    exact ⟨m, mem_allMatches_cve.mpr ⟨a, b, htext, hm, hbefore, hafter⟩, hid⟩

end

section
variable {links new : List EntityLink} {l : EntityLink}

/-- Links of new and distinct keys are all inserted. -/
theorem foldlM_insertLink (hnew : (new.map EntityLink.key).Nodup) (hold : ∀ l ∈ new, l.key ∉ links.map EntityLink.key) :
    new.foldlM insertLink links = some (links ++ new) := by
  induction new generalizing links with
  | nil => exact congrArg some (List.append_nil links).symm
  | cons l new ih =>
    obtain ⟨hl, hnew⟩ := List.nodup_cons.mp hnew
    rw [List.foldlM_cons, insertLink, if_neg (hold l (.head _))]
    have hrest : ∀ l' ∈ new, l'.key ∉ (links ++ [l]).map EntityLink.key := by
      intro l' hl' hmem
      rw [List.map_append, List.mem_append, List.map_singleton, List.mem_singleton] at hmem
      rcases hmem with hmem | hmem
      · exact hold l' (.tail _ hl') hmem
      · exact hl (hmem ▸ List.mem_map_of_mem hl')
    rw [Option.bind_eq_bind, Option.bind_some, ih hnew hrest, List.append_assoc, List.singleton_append]

variable [Words] {id : ℕ} {title body now : Text}

theorem publicationId_linksOf (h : l ∈ linksOf id title body now) : l.publicationId = id := by
  rcases List.mem_append.mp h with h | h
  · obtain ⟨found, -, rfl⟩ := List.mem_map.mp h
    rfl
  · obtain ⟨found, -, rfl⟩ := List.mem_map.mp h
    rfl

theorem nodup_linksOf : ((linksOf id title body now).map EntityLink.key).Nodup := by
  rw [linksOf, List.map_append, List.map_map, List.map_map]
  refine List.Nodup.append ?_ ?_ ?_
  · exact nodup_extractIds.map fun a b h ↦ (Prod.mk.inj (Prod.mk.inj (Prod.mk.inj h).2).2).1
  · exact nodup_extractIds.map fun a b h ↦ (Prod.mk.inj (Prod.mk.inj (Prod.mk.inj h).2).2).1
  · intro key hcve htechnique
    obtain ⟨a, -, rfl⟩ := List.mem_map.mp hcve
    obtain ⟨b, -, h⟩ := List.mem_map.mp htechnique
    cases (Prod.mk.inj (Prod.mk.inj h).2).1

/-- The old links of the publication are gone, and those of the text are there. -/
theorem replacePublicationEntityLinks_eq : replacePublicationEntityLinks links id title body now =
    some ((links.filter fun l ↦ l.publicationId ≠ id) ++ linksOf id title body now,
      (linksOf id title body now).length) := by
  have hold : ∀ l ∈ linksOf id title body now,
      l.key ∉ (links.filter fun l ↦ l.publicationId ≠ id).map EntityLink.key := by
    intro l hl hmem
    obtain ⟨l', hl', hkey⟩ := List.mem_map.mp hmem
    have hid : l'.publicationId = l.publicationId := (Prod.mk.inj hkey).1
    exact of_decide_eq_true (List.mem_filter.mp hl').2 (hid.trans (publicationId_linksOf hl))
  rw [replacePublicationEntityLinks, foldlM_insertLink nodup_linksOf hold, Option.map_some]

def linksFor (links : List EntityLink) (id : ℕ) : List EntityLink := links.filter fun l ↦ l.publicationId = id

theorem linksFor_replaced_self :
    linksFor ((links.filter fun l ↦ l.publicationId ≠ id) ++ linksOf id title body now) id =
      linksOf id title body now := by
  rw [linksFor, List.filter_append, List.filter_filter, List.filter_eq_nil_iff.mpr, List.nil_append,
    List.filter_eq_self.mpr fun l hl ↦ decide_eq_true (publicationId_linksOf hl)]
  intro l _ h
  obtain ⟨heq, hne⟩ := Bool.and_eq_true_iff.mp h
  exact of_decide_eq_true hne (of_decide_eq_true heq)

theorem linksFor_replaced_other {other : ℕ} (h : other ≠ id) :
    linksFor ((links.filter fun l ↦ l.publicationId ≠ id) ++ linksOf id title body now) other =
      linksFor links other := by
  have hnone : (linksOf id title body now).filter (fun l ↦ l.publicationId = other) = [] := by
    refine List.filter_eq_nil_iff.mpr fun l hl hother ↦ h ?_
    rw [← of_decide_eq_true hother, publicationId_linksOf hl]
  rw [linksFor, List.filter_append, hnone, List.append_nil, List.filter_filter, linksFor]
  refine List.filter_congr fun l _ ↦ ?_
  by_cases hl : l.publicationId = other
  · simp [hl, h]
  · simp [hl]

end

section
variable [Words] [Engine]

/-- The row of the key holds the columns, and every other one is as it was. -/
theorem upsertPublication_spec (t : Table) (sourceKey : Text) {canonicalUrl : Text} (columns : Columns)
    (hurl : strip canonicalUrl ≠ []) :
    ∃ t' id isNew, upsertPublication t sourceKey canonicalUrl columns = some (t', id, isNew) ∧ ∀ p ∈ t'.rows,
      (p.publicationId = id ∧ p.key = (sourceKey, strip canonicalUrl) ∧ p.toColumns = columns) ∨
        (p.publicationId ≠ id ∧ p.key ≠ (sourceKey, strip canonicalUrl) ∧ p ∈ t.rows) := by
  rw [upsertPublication]
  dsimp only
  rw [if_neg hurl]
  split
  next old hold =>
    obtain ⟨hmem, hkey⟩ := SerialTable.lookup_eq_some.mp hold
    refine ⟨_, _, _, rfl, fun p hp ↦ ?_⟩
    obtain ⟨q, hq, rfl⟩ := List.mem_map.mp hp
    rw [refresh]
    split
    next hid =>
      obtain rfl := SerialTable.eq_of_id t hq hmem hid
      exact .inl ⟨rfl, hkey, rfl⟩
    next hid =>
      refine .inr ⟨hid, fun hsame ↦ hid ?_, hq⟩
      rw [SerialTable.eq_of_key t hq hmem (hsame.trans hkey.symm)]
  next hnone =>
    refine ⟨_, _, _, rfl, fun p hp ↦ ?_⟩
    rw [SerialTable.rows_insert] at hp
    rcases List.mem_append.mp hp with hp | hp
    · refine .inr ⟨Nat.ne_of_lt (t.fresh p hp), fun hsame ↦ ?_, hp⟩
      exact SerialTable.lookup_eq_none.mp hnone (hsame ▸ List.mem_map_of_mem hp)
    · obtain rfl := List.mem_singleton.mp hp
      exact .inl ⟨rfl, rfl, rfl⟩

/-- The items that were ingested, in order, under the keys of their publications. -/
abbrev Ingested := List ((Text × Text) × FeedItem)

/-- The item that a publication was last ingested from. -/
def latest (l : Ingested) (key : Text × Text) : Option FeedItem := ((l.filter fun p ↦ p.1 = key).getLast?).map Prod.snd

omit [Words] [Engine] in
theorem latest_append_singleton (l : Ingested) (key key' : Text × Text) (item : FeedItem) :
    latest (l ++ [(key', item)]) key = if key' = key then some item else latest l key := by
  rw [latest, List.filter_append]
  split
  next h => rw [List.filter_cons_of_pos (by simpa using h), List.filter_nil, List.getLast?_concat, Option.map_some]
  next h => rw [List.filter_cons_of_neg (by simpa using h), List.filter_nil, List.append_nil, latest]

/-- Every publication shows the title of the item it was last ingested from, and has the links of its text. -/
def Indexed (l : Ingested) (db : Store) : Prop :=
  ∀ p ∈ db.publications.rows, ∃ item now, latest l p.key = some item ∧ p.title = item.title ∧
    linksFor db.links p.publicationId = linksOf p.publicationId item.title item.body now

def Feed.ingested (feed : Feed) : Ingested := feed.2.map fun item ↦ ((feed.1, strip item.canonicalUrl), item)

variable {l : Ingested} {db : Store}

theorem ingest_indexed (sourceKey now : Text) (stats : Stats) (h : Indexed l db) {item : FeedItem}
    (hurl : strip item.canonicalUrl ≠ []) :
    ∃ db' stats', ingest sourceKey now (db, stats) item = some (db', stats') ∧
      Indexed (l ++ [((sourceKey, strip item.canonicalUrl), item)]) db' := by
  obtain ⟨t, id, isNew, hupsert, hrows⟩ := upsertPublication_spec db.publications sourceKey (item.columns now) hurl
  have hingest : ingest sourceKey now (db, stats) item =
      some (⟨t, (db.links.filter fun l ↦ l.publicationId ≠ id) ++ linksOf id item.title item.body now⟩,
        stats.add isNew (linksOf id item.title item.body now).length) := by
    rw [ingest]
    dsimp only
    rw [hupsert, Option.bind_eq_bind, Option.bind_some, replacePublicationEntityLinks_eq]
    rfl
  refine ⟨_, _, hingest, fun p hp ↦ ?_⟩
  rcases hrows p hp with ⟨rfl, hkey, hcolumns⟩ | ⟨hid, hkey, hmem⟩
  · refine ⟨item, now, ?_, congrArg Columns.title hcolumns, linksFor_replaced_self⟩
    rw [latest_append_singleton, if_pos hkey.symm]
  · obtain ⟨old, at', hlatest, htitle, hlinks⟩ := h p hmem
    refine ⟨old, at', ?_, htitle, (linksFor_replaced_other hid).trans hlinks⟩
    rw [latest_append_singleton, if_neg (Ne.symm hkey), hlatest]

theorem ingest_blank {sourceKey now : Text} {item : FeedItem} (hurl : strip item.canonicalUrl = [])
    (acc : Store × Stats) : ingest sourceKey now acc item = none := by
  rw [ingest]
  dsimp only
  rw [upsertPublication, if_pos hurl]
  rfl

end

section
variable [Words] [Engine] {l : Ingested} {db : Store} {now : Text} {f : Filters} {s : State}

theorem foldlM_ingest (sourceKey now : Text) (items : List FeedItem) (stats : Stats) (h : Indexed l db)
    (hurls : ∀ item ∈ items, strip item.canonicalUrl ≠ []) :
    ∃ db' stats', items.foldlM (ingest sourceKey now) (db, stats) = some (db', stats') ∧
      Indexed (l ++ Feed.ingested (sourceKey, items)) db' := by
  induction items generalizing l db stats with
  | nil => exact ⟨db, stats, rfl, (List.append_nil l).symm ▸ h⟩
  | cons item items ih =>
    obtain ⟨db', stats', hingest, h'⟩ := ingest_indexed sourceKey now stats h (hurls item (.head _))
    obtain ⟨db'', stats'', hrest, h''⟩ := ih stats' h' fun item hitem ↦ hurls item (.tail _ hitem)
    refine ⟨db'', stats'', ?_, ?_⟩
    · rw [List.foldlM_cons, hingest]
      exact hrest
    · rw [List.append_assoc] at h''
      exact h''

theorem foldlM_ingest_blank {items : List FeedItem} {sourceKey : Text} {item : FeedItem} (hitem : item ∈ items)
    (hurl : strip item.canonicalUrl = []) (acc : Store × Stats) :
    items.foldlM (ingest sourceKey now) acc = none := by
  induction items generalizing acc with
  | nil => cases hitem
  | cons first items ih =>
    rw [List.foldlM_cons]
    rcases List.mem_cons.mp hitem with rfl | hitem
    · rw [ingest_blank hurl]
      rfl
    · cases ingest sourceKey now acc first with
      | none => rfl
      | some acc => exact ih hitem acc

/-- A feed that can be ingested: every item has a URL. -/
def Feed.complete (feed : Feed) : Bool := feed.2.all fun item ↦ strip item.canonicalUrl ≠ []

theorem runPublicationSourceSync_indexed (now : Text) (feeds : List Feed) (h : Indexed l db)
    (hfeeds : ∀ feed ∈ feeds, Feed.complete feed = true) :
    ∃ db', runPublicationSourceSync now db feeds = some db' ∧ Indexed (l ++ feeds.flatMap Feed.ingested) db' := by
  induction feeds generalizing l db with
  | nil => exact ⟨db, rfl, (List.append_nil l).symm ▸ h⟩
  | cons feed feeds ih =>
    have hurls : ∀ item ∈ feed.2, strip item.canonicalUrl ≠ [] := fun item hitem ↦
      of_decide_eq_true (List.all_eq_true.mp (hfeeds feed (.head _)) item hitem)
    obtain ⟨db', stats', hsync, h'⟩ := foldlM_ingest feed.1 now feed.2 {} h hurls
    obtain ⟨db'', hrest, h''⟩ := ih h' fun feed hfeed ↦ hfeeds feed (.tail _ hfeed)
    refine ⟨db'', ?_, ?_⟩
    · rw [runPublicationSourceSync, List.foldlM_cons, syncPublicationRssSource, hsync]
      exact hrest
    · rw [List.append_assoc] at h''
      exact h''

theorem runPublicationSourceSync_incomplete {feeds : List Feed} {feed : Feed} (hfeed : feed ∈ feeds)
    (hincomplete : Feed.complete feed ≠ true) (db : Store) : runPublicationSourceSync now db feeds = none := by
  induction feeds generalizing db with
  | nil => cases hfeed
  | cons first feeds ih =>
    rw [runPublicationSourceSync, List.foldlM_cons]
    rcases List.mem_cons.mp hfeed with rfl | hfeed
    · rw [Feed.complete, Ne, List.all_eq_true, not_forall] at hincomplete
      obtain ⟨item, hitem⟩ := hincomplete
      obtain ⟨hmem, hurl⟩ := Classical.not_imp.mp hitem
      rw [syncPublicationRssSource, foldlM_ingest_blank hmem (by simpa using hurl)]
      rfl
    · cases syncPublicationRssSource now db first with
      | none => rfl
      | some result => exact ih hfeed result.1

/-- What an event ingests. One item without a URL undoes the whole sync. -/
def Event.ingested : Event → Ingested
  | .sync feeds _ => if feeds.all Feed.complete then feeds.flatMap Feed.ingested else []
  | .rolledBack _ | .page _ => []

omit [Words] [Engine] in
theorem rows_iterate_skip (t : Table) (ids : ℕ) : (SerialTable.skip^[ids] t).rows = t.rows := by
  induction ids generalizing t with
  | zero => rfl
  | succ ids ih => rw [Function.iterate_succ_apply, ih, SerialTable.rows_skip]

theorem step_indexed (h : Indexed l s.db) (e : Event) : Indexed (l ++ e.ingested) (step f s e).db := by
  cases e with
  | sync feeds now =>
    rw [Event.ingested, step]
    split
    next hfeeds =>
      obtain ⟨db', hsync, h'⟩ := runPublicationSourceSync_indexed now feeds h (List.all_eq_true.mp hfeeds)
      dsimp only
      rwa [hsync, Option.getD_some]
    next hfeeds =>
      rw [List.all_eq_true, not_forall] at hfeeds
      obtain ⟨feed, hfeed⟩ := hfeeds
      obtain ⟨hmem, hincomplete⟩ := Classical.not_imp.mp hfeed
      dsimp only
      rwa [runPublicationSourceSync_incomplete hmem hincomplete, Option.getD_none, List.append_nil]
  | rolledBack ids =>
    rw [Event.ingested, List.append_nil, step]
    intro p hp
    rw [rows_iterate_skip] at hp
    exact h p hp
  | page limit =>
    rw [Event.ingested, List.append_nil, step]
    split
    · exact h
    · split
      · exact h
      · exact h

theorem run_indexed (h : Indexed l s.db) (events : List Event) :
    Indexed (l ++ events.flatMap Event.ingested) (run (step f) s events).db := by
  induction events generalizing l s with
  | nil => exact (List.append_nil l).symm ▸ h
  | cons e events ih =>
    rw [List.flatMap_cons, ← List.append_assoc]
    exact ih (step_indexed h e)

omit [Engine] in
theorem mem_cveIds_linksOf (id : ℕ) (now : Text) {title body cveId : Text} :
    (∃ link ∈ linksOf id title body now, link.entityType = .cve ∧ link.entityId = cveId) ↔
      Mentions title cveId ∨ Mentions body cveId := by
  have hfound : cveId ∈ extractCveIds [title, body] ↔ Mentions title cveId ∨ Mentions body cveId := by
    rw [mem_extractCveIds]
    simp
  rw [← hfound]
  constructor
  · rintro ⟨link, hlink, htype, rfl⟩
    rcases List.mem_append.mp hlink with hlink | hlink
    · obtain ⟨found, hmem, rfl⟩ := List.mem_map.mp hlink
      exact hmem
    · obtain ⟨found, -, rfl⟩ := List.mem_map.mp hlink
      cases htype
  · exact fun hmem ↦ ⟨_, List.mem_append_left _ (List.mem_map_of_mem hmem), rfl, rfl⟩

/-- After any run the CVEs of a publication, in its row and for the filter, are those that the title or the body of the
item mentions that it was last ingested from. -/
theorem links_follow_feed (hstart : s.db.publications.rows = []) (events : List Event) {p : Publication}
    (hp : p ∈ (run (step f) s events).db.publications.rows) :
    ∃ item, latest (events.flatMap Event.ingested) p.key = some item ∧ p.title = item.title ∧
      ∀ cveId, (cveId ∈ cveIdsOf (run (step f) s events).db p ↔ Mentions item.title cveId ∨ Mentions item.body cveId) ∧
        (mentionsCve (run (step f) s events).db p cveId = true ↔
          Mentions item.title cveId ∨ Mentions item.body cveId) := by
  have hempty : Indexed [] s.db := by
    intro p hp
    rw [hstart] at hp
    cases hp
  obtain ⟨item, now, hlatest, htitle, hlinks⟩ := run_indexed (f := f) hempty events p hp
  refine ⟨item, hlatest, htitle, fun cveId ↦ ?_⟩
  have hlinked : (∃ link ∈ (run (step f) s events).db.links, link.publicationId = p.publicationId ∧
      link.entityType = .cve ∧ link.entityId = cveId) ↔ Mentions item.title cveId ∨ Mentions item.body cveId := by
    rw [← mem_cveIds_linksOf p.publicationId now, ← hlinks]
    simp only [linksFor, List.mem_filter, decide_eq_true_eq, and_assoc]
  constructor
  · rw [← hlinked, cveIdsOf, (perm_sortBy id _).mem_iff, List.mem_map]
    simp only [List.mem_filter, Bool.and_eq_true, decide_eq_true_eq, and_assoc]
  · rw [← hlinked, mentionsCve, List.any_eq_true]
    simp only [Bool.and_eq_true, decide_eq_true_eq, and_assoc]

end

section
variable [Words] [Engine] {db : Store} {f : Filters} {cursor : Option ℕ} {limit : ℕ}

theorem pairwise_selected (db : Store) (f : Filters) (cursor : Option ℕ) :
    (selected db f cursor).Pairwise fun a b ↦ OrderDual.toDual a.publicationId < OrderDual.toDual b.publicationId := by
  refine pairwise_lt_sortBy ?_
  have hids := db.publications.ids.sublist
    (List.filter_sublist (p := fun p ↦ selects db f p && cursor.all (p.publicationId < ·)).map
      Publication.publicationId)
  rw [← List.nodup_map_iff (f := OrderDual.toDual) OrderDual.toDual.injective, List.map_map] at hids
  exact hids

theorem mem_selected {p : Publication} : p ∈ selected db f cursor ↔
    p ∈ db.publications.rows ∧ selects db f p = true ∧ ∀ c, cursor = some c → p.publicationId < c := by
  rw [selected, (perm_sortBy _ _).mem_iff, List.mem_filter, Bool.and_eq_true, Option.all_eq_true]
  simp only [decide_eq_true_eq]

/-- The ids of the listing at this moment, without regard to a cursor. -/
def Matches (db : Store) (f : Filters) (id : ℕ) : Prop :=
  ∃ f', checkedFilters f = some f' ∧ ∃ p ∈ db.publications.rows, p.publicationId = id ∧ selects db f' p = true

/-- The ids of a response. -/
def idsOf (page : List Listed) : List ℕ := page.map fun row ↦ row.publication.publicationId

/-- A page shows ids that match and that its cursor leaves, and its last one is the cursor of what it has not shown. -/
structure Page (db : Store) (f : Filters) (cursor : Option ℕ) (page : List Listed) (next : Option ℕ) : Prop where
  falling : (idsOf page).Pairwise (· > ·)
  matching : ∀ id ∈ idsOf page, Matches db f id ∧ ∀ c, cursor = some c → id < c
  covering : ∀ id, Matches db f id → (∀ c, cursor = some c → id < c) → id ∈ idsOf page ∨ ∃ c, next = some c ∧ id < c
  last : ∀ c, next = some c → c ∈ idsOf page ∧ ∀ id ∈ idsOf page, c ≤ id

theorem listPublications_eq (db : Store) (f : Filters) (cursor : Option ℕ) (hlimit : 1 ≤ limit) :
    listPublications db f limit cursor = (((selected db f cursor).take limit).map fun p ↦ ⟨p, cveIdsOf db p⟩,
      if limit < (selected db f cursor).length then
        ((selected db f cursor).take limit).getLast?.map Publication.publicationId
      else none) := by
  have hlen : ((selected db f cursor).take (limit + 1)).length > limit ↔ limit < (selected db f cursor).length := by
    rw [List.length_take]
    omega
  have htake : ((selected db f cursor).take (limit + 1)).take limit = (selected db f cursor).take limit := by
    rw [List.take_take, Nat.min_eq_left (Nat.le_succ limit)]
  rw [listPublications, htake]
  congr 1
  by_cases hmore : limit < (selected db f cursor).length
  · rw [if_pos (hlen.mpr hmore), if_pos hmore, List.getLast?_eq_getElem?, List.length_take, Nat.min_eq_left hmore.le,
      List.getElem?_take_of_lt (by omega), List.getElem?_take_of_lt (by omega)]
  · rw [if_neg (mt hlen.mp hmore), if_neg hmore]

/-- What a page does not take lies behind its last row. -/
theorem behind_page (hlimit : 1 ≤ limit) {p : Publication} (hp : p ∈ selected db f cursor)
    (hleft : p ∉ (selected db f cursor).take limit) : limit < (selected db f cursor).length ∧
      ∃ last, ((selected db f cursor).take limit).getLast? = some last ∧ p.publicationId < last.publicationId := by
  have hmore : limit < (selected db f cursor).length := by
    by_contra hall
    rw [List.take_of_length_le (Nat.le_of_not_lt hall)] at hleft
    exact hleft hp
  have hne : (selected db f cursor).take limit ≠ [] := by
    rw [← List.length_pos_iff, List.length_take]
    omega
  have hlast := List.getLast?_eq_some_getLast hne
  have hdrop : p ∈ (selected db f cursor).drop limit := by
    rw [← List.take_append_drop limit (selected db f cursor)] at hp
    exact (List.mem_append.mp hp).resolve_left hleft
  rw [← filter_behind_last (pairwise_selected db f cursor) hlast, List.mem_filter, decide_eq_true_eq] at hdrop
  exact ⟨hmore, _, hlast, hdrop.2⟩

theorem last_le_page {last p : Publication} (hlast : ((selected db f cursor).take limit).getLast? = some last)
    (hp : p ∈ (selected db f cursor).take limit) : last.publicationId ≤ p.publicationId := by
  obtain ⟨front, hfront⟩ := List.getLast?_eq_some_iff.mp hlast
  have htaken := (pairwise_selected db f cursor).sublist (List.take_sublist limit _)
  rw [hfront] at htaken hp
  rcases List.mem_append.mp hp with hp | hp
  · exact ((List.pairwise_append.mp htaken).2.2 p hp last List.mem_cons_self).le
  · rw [List.mem_singleton.mp hp]

theorem publicationsList_page {page : List Listed} {next : Option ℕ}
    (h : publicationsList db f limit cursor = some (page, next)) : Page db f cursor page next := by
  rw [publicationsList] at h
  split at h
  next hbounds =>
    obtain ⟨f', hf, hlist⟩ := Option.map_eq_some_iff.mp h
    rw [listPublications_eq db f' cursor hbounds.1] at hlist
    obtain ⟨rfl, rfl⟩ := Prod.mk.inj hlist
    have hids : idsOf (((selected db f' cursor).take limit).map fun p ↦ ⟨p, cveIdsOf db p⟩) =
        ((selected db f' cursor).take limit).map Publication.publicationId := by
      rw [idsOf, List.map_map]
      rfl
    refine ⟨?_, ?_, ?_, ?_⟩
    · rw [hids, List.pairwise_map]
      exact (pairwise_selected db f' cursor).sublist (List.take_sublist limit _)
    · intro id hid
      rw [hids] at hid
      obtain ⟨p, hp, rfl⟩ := List.mem_map.mp hid
      obtain ⟨hrow, hselects, hcursor⟩ := mem_selected.mp (List.mem_of_mem_take hp)
      exact ⟨⟨f', hf, p, hrow, rfl, hselects⟩, hcursor⟩
    · rintro id ⟨f'', hf', p, hrow, rfl, hselects⟩ hcursor
      obtain rfl : f' = f'' := Option.some.inj (hf.symm.trans hf')
      have hmem := mem_selected.mpr ⟨hrow, hselects, hcursor⟩
      rw [hids]
      by_cases htaken : p ∈ (selected db f' cursor).take limit
      · exact .inl (List.mem_map_of_mem htaken)
      · obtain ⟨hmore, last, hlast, hlt⟩ := behind_page hbounds.1 hmem htaken
        refine .inr ⟨last.publicationId, ?_, hlt⟩
        rw [if_pos hmore, hlast]
        rfl
    · intro c hc
      rw [hids]
      split at hc
      next =>
        obtain ⟨last, hlast, rfl⟩ := Option.map_eq_some_iff.mp hc
        refine ⟨List.mem_map_of_mem (List.mem_of_getLast? hlast), fun id hid ↦ ?_⟩
        obtain ⟨p, hp, rfl⟩ := List.mem_map.mp hid
        exact last_le_page hlast hp
      next => cases hc
  next => cases h

variable {s : State}

def State.ids (s : State) : List ℕ := idsOf s.shown

/-- The ids that the rest of a walk will still ask for. -/
def State.Ahead (s : State) (id : ℕ) : Prop := ∃ cursor, s.walk = some cursor ∧ ∀ c, cursor = some c → id < c

def Reached (id : ℕ) (s : State) : Prop := id ∈ s.ids ∨ s.Ahead id

/-- What was shown falls, and the walk is past it. -/
structure Walked (s : State) : Prop where
  falling : s.ids.Pairwise (· > ·)
  past : ∀ id ∈ s.ids, ¬s.Ahead id

/-- A page either leaves the walk as it is or carries it on. -/
theorem step_page_cases (f : Filters) (s : State) (limit : ℕ) : step f s (.page limit) = s ∨
    ∃ cursor page next, s.walk = some cursor ∧ Page s.db f cursor page next ∧
      step f s (.page limit) = { s with walk := next.map some, shown := s.shown ++ page } := by
  rw [step]
  split
  · exact .inl rfl
  next cursor hwalk =>
    split
    · exact .inl rfl
    next page next hpage => exact .inr ⟨cursor, page, next, hwalk, publicationsList_page hpage, rfl⟩

omit [Words] [Engine] in
theorem ids_page (s : State) (walk : Option (Option ℕ)) (page : List Listed) :
    { s with walk := walk, shown := s.shown ++ page : State }.ids = s.ids ++ idsOf page := List.map_append

omit [Words] [Engine] in
/-- What is shown is at or above the cursor. -/
theorem Walked.cursor_le (h : Walked s) (hwalk : s.walk = some cursor) {id : ℕ} (hid : id ∈ s.ids) :
    ∃ c, cursor = some c ∧ c ≤ id := by
  cases cursor with
  | none => exact absurd ⟨none, hwalk, fun c hc ↦ nomatch hc⟩ (h.past id hid)
  | some c =>
    refine ⟨c, rfl, Nat.le_of_not_lt fun hlt ↦ h.past id hid ⟨some c, hwalk, ?_⟩⟩
    rintro c' ⟨⟩
    exact hlt

theorem step_walked (h : Walked s) (e : Event) : Walked (step f s e) := by
  cases e with
  | sync feeds now => exact ⟨h.falling, h.past⟩
  | rolledBack ids => exact ⟨h.falling, h.past⟩
  | page limit =>
    rcases step_page_cases f s limit with hsame | ⟨cursor, page, next, hwalk, hpage, hnext⟩
    · rwa [hsame]
    · have hbelow : ∀ old ∈ s.ids, ∀ id ∈ idsOf page, id < old := by
        intro old hold id hid
        obtain ⟨c, hc, hle⟩ := h.cursor_le hwalk hold
        exact ((hpage.matching id hid).2 c hc).trans_le hle
      rw [hnext]
      refine ⟨?_, ?_⟩
      · rw [ids_page, List.pairwise_append]
        exact ⟨h.falling, hpage.falling, hbelow⟩
      · intro id hid
        rw [ids_page, List.mem_append] at hid
        rintro ⟨after, hafter, hahead⟩
        obtain ⟨c, hc, rfl⟩ := Option.map_eq_some_iff.mp hafter
        obtain ⟨hlast, hleast⟩ := hpage.last c hc
        have hlt := hahead c rfl
        rcases hid with hid | hid
        · exact absurd (hbelow id hid c hlast) hlt.not_gt
        · exact absurd (hleast id hid) hlt.not_ge

/-- An id that matches and is shown or still ahead is so after the step. -/
theorem step_reached {id : ℕ} (h : Reached id s) (hmatch : Matches s.db f id) (e : Event) :
    Reached id (step f s e) := by
  cases e with
  | sync feeds now => exact h
  | rolledBack ids => exact h
  | page limit =>
    rcases step_page_cases f s limit with hsame | ⟨cursor, page, next, hwalk, hpage, hnext⟩
    · rwa [hsame]
    · rw [hnext, Reached, ids_page, List.mem_append]
      rcases h with hid | ⟨cursor', hwalk', hahead⟩
      · exact .inl (.inl hid)
      · obtain rfl : cursor = cursor' := Option.some.inj (hwalk.symm.trans hwalk')
        rcases hpage.covering id hmatch hahead with hid | ⟨c, rfl, hlt⟩
        · exact .inl (.inr hid)
        · refine .inr ⟨some c, rfl, ?_⟩
          rintro c' ⟨⟩
          exact hlt

theorem step_shows {id : ℕ} {e : Event} (hid : id ∈ (step f s e).ids) : id ∈ s.ids ∨ Matches s.db f id := by
  cases e with
  | sync feeds now => exact .inl hid
  | rolledBack ids => exact .inl hid
  | page limit =>
    rcases step_page_cases f s limit with hsame | ⟨cursor, page, next, hwalk, hpage, hnext⟩
    · rw [hsame] at hid
      exact .inl hid
    · rw [hnext, ids_page] at hid
      exact (List.mem_append.mp hid).imp_right fun hid ↦ (hpage.matching id hid).1

theorem run_shows {events : List Event} {id : ℕ} (hid : id ∈ (run (step f) s events).ids) :
    id ∈ s.ids ∨ ∃ before, before <+: events ∧ Matches (run (step f) s before).db f id := by
  induction events generalizing s with
  | nil => exact .inl hid
  | cons e events ih =>
    rcases ih hid with hid | ⟨before, hbefore, hmatch⟩
    · exact (step_shows hid).imp_right fun hmatch ↦ ⟨[], List.nil_prefix, hmatch⟩
    · exact .inr ⟨e :: before, List.cons_prefix_cons.mpr ⟨rfl, hbefore⟩, hmatch⟩

/-- A walk that reaches its end has shown the publications that match throughout it, each once and the newest first, and
none that matched at no moment of it, whatever was synced between its pages. -/
theorem walk_shows_each_once (hwalk : s.walk = some none) (hshown : s.shown = []) {events : List Event}
    (hend : (run (step f) s events).walk = none) :
    (run (step f) s events).ids.Pairwise (· > ·) ∧ ∀ id,
      (Along (step f) (fun s _ ↦ Matches s.db f id) s events → id ∈ (run (step f) s events).ids) ∧
      (id ∈ (run (step f) s events).ids → ∃ before, before <+: events ∧ Matches (run (step f) s before).db f id) := by
  have hids : s.ids = [] := by rw [State.ids, hshown]; rfl
  have hstart : Walked s := by
    refine ⟨hids ▸ List.Pairwise.nil, fun id hid ↦ ?_⟩
    rw [hids] at hid
    cases hid
  have hwalked : Walked (run (step f) s events) := run_invariant events (fun s e h ↦ step_walked h e) hstart
  refine ⟨hwalked.falling, fun id ↦ ⟨fun hmatch ↦ ?_, fun hid ↦ ?_⟩⟩
  · have hahead : s.Ahead id := ⟨none, hwalk, fun c hc ↦ nomatch hc⟩
    have hreached : Reached id (run (step f) s events) :=
      run_induction (fun s e h hmatch ↦ step_reached h hmatch e) (.inr hahead) hmatch
    rcases hreached with hid | ⟨cursor, hcursor, -⟩
    · exact hid
    · rw [hend] at hcursor
      cases hcursor
  · refine (run_shows hid).resolve_left fun hold ↦ ?_
    rw [hids] at hold
    cases hold

end

section

local instance asciiWords : Words where
  toDigits := latinDigits
  isWord c := c.isAlphanum || c == '_'
  isWord_of_isDecimal c h := by
    have h : c.isDigit = true := h
    rw [Char.isAlphanum, h, Bool.or_true, Bool.true_or]
  isWord_ascii _ _ := rfl

/-- A hash that keeps the text, and a `LIKE` that takes every title. -/
local instance plainEngine : Engine where
  sha256 := id
  like _ _ := true

def advisory (n : Char) : FeedItem where
  canonicalUrl := "https://cisa.gov/" ++ [n]
  title := "Advisory CVE-2026-4242" ++ [n]
  body := "see CVE-2026-55555."
  publishedAt := "2026-05-01"
  updatedAt := "2026-05-01"
  documentKind := "advisory"

def emptyStore : State where
  db := ⟨.empty, []⟩
  walk := some none
  shown := []

def advisorySync : List Event := [.sync [("cisa", [advisory '4'])] "2026-05-02"]

def advisoryRow : Publication :=
  ⟨(advisory '4').columns "2026-05-02", 1, "cisa", "https://cisa.gov/4", "https://cisa.gov/4"⟩

def anyFilter : Filters := ⟨none, none, none, none⟩

example : extractCveIds ["xCVE-2026-42424", "CVE-2026-55555.", "cve-2026-55555"] = ["CVE-2026-55555"] := by decide

theorem advisory_stored : (run (step anyFilter) emptyStore advisorySync).db.publications.rows = [advisoryRow] := rfl

theorem advisory_links : cveIdsOf (run (step anyFilter) emptyStore advisorySync).db advisoryRow =
      ["CVE-2026-42424", "CVE-2026-55555"] ∧
    ∃ item, latest (advisorySync.flatMap Event.ingested) advisoryRow.key = some item ∧ advisoryRow.title = item.title ∧
      ∀ cveId, (cveId ∈ cveIdsOf (run (step anyFilter) emptyStore advisorySync).db advisoryRow ↔
          Mentions item.title cveId ∨ Mentions item.body cveId) ∧
        (mentionsCve (run (step anyFilter) emptyStore advisorySync).db advisoryRow cveId = true ↔
          Mentions item.title cveId ∨ Mentions item.body cveId) :=
  ⟨by decide, links_follow_feed (f := anyFilter) (s := emptyStore) rfl advisorySync
    (by rw [advisory_stored]; exact List.mem_singleton_self _)⟩

/-- The second advisory comes when the walk is under way, and the first is still shown once. -/
def advisoryWalk : List Event :=
  [.sync [("cisa", [advisory '4', advisory '5'])] "2026-05-02", .page 1,
    .sync [("cisa", [advisory '6', advisory '5'])] "2026-05-03", .page 0, .page 1]

theorem advisories_walked : (run (step anyFilter) emptyStore advisoryWalk).ids = [2, 1] ∧
    (run (step anyFilter) emptyStore advisoryWalk).ids.Pairwise (· > ·) ∧ ∀ id,
      (Along (step anyFilter) (fun s _ ↦ Matches s.db anyFilter id) emptyStore advisoryWalk →
        id ∈ (run (step anyFilter) emptyStore advisoryWalk).ids) ∧
      (id ∈ (run (step anyFilter) emptyStore advisoryWalk).ids →
        ∃ before, before <+: advisoryWalk ∧ Matches (run (step anyFilter) emptyStore before).db anyFilter id) :=
  ⟨by decide, walk_shows_each_once rfl rfl (by decide)⟩

end

end Briefr.Db.Publications
