import Briefr.Blocklist.Classify
import Briefr.Library.Batches
import Briefr.Library.Runs
import Briefr.Library.SerialTable
import Mathlib.Data.List.Infix

namespace Briefr.Blocklist.TrancoSync

open Briefr.Python Briefr.Library Briefr.Library.Runs

structure InfraClassification where
  id : ℕ
  host : Text
  classification : Classification
  enabled : Bool
  provenance : Text
  reason : Text
  notes : Text
  createdAt : Text
  updatedAt : Text

/-- `provenance LIKE 'tranco:%'`. -/
def InfraClassification.isTranco (row : InfraClassification) : Bool := "tranco:".toList.isPrefixOf row.provenance

/-- `app.infra_classifications`. -/
abbrev Table := SerialTable InfraClassification Text InfraClassification.id InfraClassification.host

/-- One row of the `INSERT … ON CONFLICT (host) DO NOTHING`, with the count of the rows written. -/
def insertOrSkip (classification : Classification) (provenance reason now : Text) (acc : Table × ℕ) (host : Text) :
    Table × ℕ :=
  if h : host ∈ acc.1.rows.map InfraClassification.host then (acc.1.skip, acc.2)
  else (acc.1.insert ⟨acc.1.nextId, host, classification, true, provenance, reason, [], now, now⟩ rfl h, acc.2 + 1)

def bulkInsertInfraClassifications (t : Table) (hosts : List Text) (classification : Classification)
    (provenance reason now : Text) (batchSize : ℕ) : Table × ℕ :=
  (batches batchSize hosts).foldl
    (fun acc batch ↦ batch.foldl (insertOrSkip classification provenance reason now) acc) (t, 0)

def InfraClassification.disable (now : Text) (row : InfraClassification) : InfraClassification :=
  { row with enabled := false, updatedAt := now }

def disableIn (now : Text) (ids : List ℕ) (row : InfraClassification) : InfraClassification :=
  if row.id ∈ ids then row.disable now else row

theorem disableIn_id (now : Text) (ids : List ℕ) (row : InfraClassification) : (disableIn now ids row).id = row.id := by
  rw [disableIn]; split <;> rfl

theorem disableIn_host (now : Text) (ids : List ℕ) (row : InfraClassification) :
    (disableIn now ids row).host = row.host := by
  rw [disableIn]; split <;> rfl

/-- `UPDATE … SET enabled = 0 … WHERE id IN batch`, with the count of the rows it meets. -/
def disableBatch (now : Text) (acc : Table × ℕ) (batch : List ℕ) : Table × ℕ :=
  (acc.1.update (disableIn now batch) (disableIn_id now batch) (disableIn_host now batch),
    acc.2 + (acc.1.rows.filter fun row ↦ row.id ∈ batch).length)

/-- The ids of the enabled Tranco rows whose hosts dropped off the list. -/
def supersededIds (t : Table) (keepHosts : List Text) : List ℕ :=
  ((t.rows.filter fun row ↦ row.enabled && row.isTranco).filter fun row ↦ row.host ∉ keepHosts).map
    InfraClassification.id

def expireSupersededTrancoHosts (t : Table) (keepHosts : List Text) (now : Text) : Table × ℕ :=
  if keepHosts = [] then (t, 0)
  else (batches 5000 (supersededIds t keepHosts)).foldl (disableBatch now) (t, 0)

def trancoBatchSize : ℕ := 5000

/-- A successful sync: what `fetch_tranco_domains` returned and what the clock showed. -/
structure Sync where
  listDate : Text
  domains : List Text
  startedAt : Text
  insertedAt : Text
  expiredAt : Text

def Sync.provenance (s : Sync) : Text :=
  "tranco:".toList ++ (if s.listDate = [] then s.startedAt.take 10 else s.listDate)

def applyTrancoSnapshot (t : Table) (s : Sync) : Table × ℕ :=
  let inserted := bulkInsertInfraClassifications t s.domains .legitimateDomain s.provenance [] s.insertedAt trancoBatchSize
  let expired := expireSupersededTrancoHosts inserted.1 s.domains s.expiredAt
  (expired.1, inserted.2)

def syncTrancoInfraClassifications (t : Table) (s : Sync) : Table × ℕ :=
  if s.domains = [] then (t, 0) else applyTrancoSnapshot t s

def sync (t : Table) (s : Sync) : Table := (syncTrancoInfraClassifications t s).1

/-- What the table says of a host. -/
inductive Standing
  | absent
  | other
  | listed
  | expired
  deriving DecidableEq

def InfraClassification.standing (row : InfraClassification) : Standing :=
  if row.isTranco then if row.enabled then .listed else .expired else .other

def standing (t : Table) (host : Text) : Standing :=
  match t.lookup host with
  | none => .absent
  | some row => row.standing

theorem standing_eq_of_mem {t : Table} {row : InfraClassification} (h : row ∈ t.rows) :
    standing t row.host = row.standing := by
  rw [standing, SerialTable.lookup_of_mem h]

theorem standing_eq_iff {t : Table} {host : Text} {st : Standing} (hst : st ≠ .absent) :
    standing t host = st ↔ ∃ row ∈ t.rows, row.host = host ∧ row.standing = st := by
  constructor
  · intro h
    rw [standing] at h
    split at h
    · exact absurd h.symm hst
    · next row hf =>
      obtain ⟨hrow, hhost⟩ := SerialTable.lookup_eq_some.mp hf
      exact ⟨row, hrow, hhost, h⟩
  · intro ⟨row, hrow, hhost, h⟩
    rw [← hhost, standing_eq_of_mem hrow, h]

theorem InfraClassification.standing_ne_absent (row : InfraClassification) : row.standing ≠ .absent := by
  rw [InfraClassification.standing]
  repeat' split
  all_goals decide

theorem standing_eq_absent {t : Table} {host : Text} :
    standing t host = .absent ↔ host ∉ t.rows.map InfraClassification.host := by
  rw [← SerialTable.lookup_eq_none, standing]
  cases t.lookup host with
  | none => simp
  | some row => simp [row.standing_ne_absent]

/-- What a sync makes of a host: the rows that were there stay as they are unless they are enabled Tranco rows. -/
def Standing.next (listed : Bool) : Standing → Standing
  | .absent => if listed then .listed else .absent
  | .other => .other
  | .listed => if listed then .listed else .expired
  | .expired => .expired

theorem isTranco_provenance (s : Sync) : "tranco:".toList.isPrefixOf s.provenance = true :=
  List.isPrefixOf_iff_prefix.mpr (List.prefix_append _ _)

theorem standing_insertOrSkip (classification : Classification) {provenance : Text} (reason now : Text)
    (hp : "tranco:".toList.isPrefixOf provenance = true) (acc : Table × ℕ) (host k : Text) :
    standing (insertOrSkip classification provenance reason now acc host).1 k =
      if k = host ∧ standing acc.1 k = .absent then .listed else standing acc.1 k := by
  rw [insertOrSkip]
  split
  · next h =>
    have hn : ¬(k = host ∧ standing acc.1 k = .absent) := fun ⟨hk, ha⟩ ↦ standing_eq_absent.mp ha (hk ▸ h)
    rw [if_neg hn]
    rfl
  · next h =>
    have hnew : (⟨acc.1.nextId, host, classification, true, provenance, reason, [], now, now⟩ :
        InfraClassification).standing = .listed := by
      rw [InfraClassification.standing, InfraClassification.isTranco, if_pos hp, if_pos rfl]
    rw [standing, SerialTable.lookup_insert]
    by_cases hk : k = host
    · have ha : standing acc.1 k = .absent := standing_eq_absent.mpr (hk ▸ h)
      rw [if_pos hk, if_pos ⟨hk, ha⟩]
      exact hnew
    · have hn : ¬(k = host ∧ standing acc.1 k = .absent) := fun h ↦ hk h.1
      rw [if_neg hk, if_neg hn]
      rfl

theorem standing_foldl_insert (classification : Classification) {provenance : Text} (reason now : Text)
    (hp : "tranco:".toList.isPrefixOf provenance = true) (hosts : List Text) (acc : Table × ℕ) (k : Text) :
    standing (hosts.foldl (insertOrSkip classification provenance reason now) acc).1 k =
      if k ∈ hosts ∧ standing acc.1 k = .absent then .listed else standing acc.1 k := by
  induction hosts generalizing acc with
  | nil => simp
  | cons host hosts ih =>
    rw [List.foldl_cons, ih, standing_insertOrSkip classification reason now hp]
    by_cases hk : k = host
    · by_cases ha : standing acc.1 k = .absent <;> simp [hk ▸ ha, hk]
    · simp [hk]

theorem standing_bulkInsert (t : Table) (hosts : List Text) (classification : Classification) {provenance : Text}
    (reason now : Text) {batchSize : ℕ} (hb : 0 < batchSize) (hp : "tranco:".toList.isPrefixOf provenance = true)
    (k : Text) :
    standing (bulkInsertInfraClassifications t hosts classification provenance reason now batchSize).1 k =
      if k ∈ hosts ∧ standing t k = .absent then .listed else standing t k := by
  rw [bulkInsertInfraClassifications, foldl_batches hb, standing_foldl_insert classification reason now hp]

theorem rows_foldl_disableBatch (now : Text) (l : List (List ℕ)) (acc : Table × ℕ) :
    (l.foldl (disableBatch now) acc).1.rows = acc.1.rows.map (disableIn now l.flatten) := by
  induction l generalizing acc with
  | nil => simp [show disableIn now [] = id from funext fun _ ↦ rfl]
  | cons batch l ih =>
    rw [List.foldl_cons, ih, disableBatch, SerialTable.rows_update, List.map_map]
    refine List.map_congr_left fun row _ ↦ ?_
    simp only [Function.comp, disableIn, List.flatten_cons, List.mem_append]
    by_cases hb : row.id ∈ batch <;> by_cases hl : row.id ∈ l.flatten <;>
      simp [hb, hl, InfraClassification.disable]

theorem mem_supersededIds {t : Table} {keepHosts : List Text} {row : InfraClassification} (h : row ∈ t.rows) :
    row.id ∈ supersededIds t keepHosts ↔ row.standing = .listed ∧ row.host ∉ keepHosts := by
  have hs : row.standing = .listed ↔ row.enabled = true ∧ row.isTranco = true := by
    rw [InfraClassification.standing]
    cases row.isTranco <;> cases row.enabled <;> simp
  rw [supersededIds, List.mem_map, hs]
  constructor
  · intro ⟨row', hrow', hid⟩
    obtain ⟨hrow', hk⟩ := List.mem_filter.mp hrow'
    obtain ⟨hrow', he⟩ := List.mem_filter.mp hrow'
    obtain rfl := List.inj_on_of_nodup_map t.ids hrow' h hid
    exact ⟨by simpa using he, by simpa using hk⟩
  · intro ⟨he, hk⟩
    exact ⟨row, List.mem_filter.mpr ⟨List.mem_filter.mpr ⟨h, by simpa using he⟩, by simpa using hk⟩, rfl⟩

theorem rows_expire (t : Table) {keepHosts : List Text} (h : keepHosts ≠ []) (now : Text) :
    (expireSupersededTrancoHosts t keepHosts now).1.rows = t.rows.map (disableIn now (supersededIds t keepHosts)) := by
  rw [expireSupersededTrancoHosts, if_neg h, rows_foldl_disableBatch, flatten_batches (by decide)]

theorem standing_disable (now : Text) (row : InfraClassification) (h : row.standing = .listed) :
    (row.disable now).standing = .expired := by
  rw [InfraClassification.standing] at h
  have ht : row.isTranco = true := by
    by_contra ht
    simp [ht] at h
  rw [InfraClassification.standing, if_pos (show (row.disable now).isTranco = true from ht)]
  rfl

theorem standing_expire (t : Table) {keepHosts : List Text} (h : keepHosts ≠ []) (now k : Text) :
    standing (expireSupersededTrancoHosts t keepHosts now).1 k =
      if standing t k = .listed ∧ k ∉ keepHosts then .expired else standing t k := by
  have hf : (expireSupersededTrancoHosts t keepHosts now).1.lookup k =
      (t.lookup k).map (disableIn now (supersededIds t keepHosts)) := by
    rw [SerialTable.lookup, rows_expire t h, List.find?_map]
    simp only [Function.comp_def, disableIn_host, SerialTable.lookup]
  rw [standing, standing, hf]
  cases hrow : t.lookup k with
  | none => simp
  | some row =>
    obtain ⟨hmem, hk⟩ := SerialTable.lookup_eq_some.mp hrow
    have hm : row.id ∈ supersededIds t keepHosts ↔ _ := mem_supersededIds hmem
    rw [hk] at hm
    simp only [Option.map_some, disableIn, hm]
    by_cases hs : row.standing = .listed ∧ k ∉ keepHosts
    · rw [if_pos hs, if_pos hs, standing_disable now row hs.1]
    · rw [if_neg hs, if_neg hs]

theorem standing_sync (t : Table) {s : Sync} (h : s.domains ≠ []) (k : Text) :
    standing (sync t s) k = (standing t k).next (k ∈ s.domains) := by
  rw [sync, syncTrancoInfraClassifications, if_neg h, applyTrancoSnapshot]
  simp only [standing_expire _ h, standing_bulkInsert t s.domains _ _ _ (show 0 < trancoBatchSize by decide)
    (isTranco_provenance s)]
  by_cases hk : k ∈ s.domains <;> cases hst : standing t k <;> simp [hk, Standing.next]

/-- The rows that no Tranco list owns. -/
def others (t : Table) : List InfraClassification := t.rows.filter fun row ↦ !row.isTranco

theorem others_foldl_insert (classification : Classification) {provenance : Text} (reason now : Text)
    (hp : "tranco:".toList.isPrefixOf provenance = true) (hosts : List Text) (acc : Table × ℕ) :
    others (hosts.foldl (insertOrSkip classification provenance reason now) acc).1 = others acc.1 := by
  induction hosts generalizing acc with
  | nil => rfl
  | cons host hosts ih =>
    rw [List.foldl_cons, ih, insertOrSkip]
    split
    · rfl
    · have hnew : InfraClassification.isTranco
          ⟨acc.1.nextId, host, classification, true, provenance, reason, [], now, now⟩ = true := hp
      simp only [others, SerialTable.rows_insert, List.filter_append, List.filter_singleton, hnew, Bool.not_true,
        cond_false, List.append_nil]

theorem others_expire (t : Table) {keepHosts : List Text} (h : keepHosts ≠ []) (now : Text) :
    others (expireSupersededTrancoHosts t keepHosts now).1 = others t := by
  have hid : ∀ row ∈ t.rows, (!row.isTranco) = true → disableIn now (supersededIds t keepHosts) row = row := by
    intro row hrow ho
    rw [disableIn, if_neg]
    rw [mem_supersededIds hrow, InfraClassification.standing, if_neg (by simpa using ho)]
    intro hs
    cases hs.1
  have ht : ∀ row, (disableIn now (supersededIds t keepHosts) row).isTranco = row.isTranco := by
    intro row
    rw [disableIn]
    split <;> rfl
  rw [others, rows_expire t h, List.filter_map, others]
  simp only [Function.comp_def, ht]
  calc
    _ = (t.rows.filter fun row ↦ !row.isTranco).map id := List.map_congr_left fun row hrow ↦
      hid row (List.mem_filter.mp hrow).1 (List.mem_filter.mp hrow).2
    _ = _ := List.map_id _

theorem others_sync (t : Table) (s : Sync) : others (sync t s) = others t := by
  rw [sync, syncTrancoInfraClassifications]
  split
  · rfl
  · next h =>
    rw [applyTrancoSnapshot, others_expire _ h, bulkInsertInfraClassifications, foldl_batches (by decide),
      others_foldl_insert _ _ _ (isTranco_provenance s)]

theorem others_run (t : Table) (syncs : List Sync) : others (run sync t syncs) = others t := by
  induction syncs generalizing t with
  | nil => rfl
  | cons s syncs ih => rw [run_cons, ih, others_sync]

theorem standing_run (t : Table) {syncs : List Sync} (h : ∀ s ∈ syncs, s.domains ≠ []) (k : Text) :
    standing (run sync t syncs) k = syncs.foldl (fun st s ↦ st.next (k ∈ s.domains)) (standing t k) := by
  induction syncs generalizing t with
  | nil => rfl
  | cons s syncs ih =>
    rw [run_cons, ih (sync t s) fun s' hs ↦ h s' (.tail _ hs), standing_sync t (h s (.head _)), List.foldl_cons]

theorem foldl_next_expired (k : Text) (syncs : List Sync) :
    syncs.foldl (fun st s ↦ st.next (k ∈ s.domains)) Standing.expired = .expired :=
  List.foldl_fixed' (fun _ ↦ rfl) syncs

theorem foldl_next_other (k : Text) (syncs : List Sync) :
    syncs.foldl (fun st s ↦ st.next (k ∈ s.domains)) Standing.other = .other :=
  List.foldl_fixed' (fun _ ↦ rfl) syncs

theorem foldl_next_listed (k : Text) (syncs : List Sync) :
    syncs.foldl (fun st s ↦ st.next (k ∈ s.domains)) Standing.listed = .expired ↔ ∃ s ∈ syncs, k ∉ s.domains := by
  induction syncs with
  | nil => simp
  | cons s syncs ih =>
    rw [List.foldl_cons]
    by_cases hk : k ∈ s.domains
    · have hl : Standing.listed.next (k ∈ s.domains) = .listed := by simp [Standing.next, hk]
      rw [hl, ih]
      simp [hk]
    · have he : Standing.listed.next (k ∈ s.domains) = .expired := by simp [Standing.next, hk]
      rw [he, foldl_next_expired]
      simp [hk]

theorem foldl_next_absent (k : Text) (syncs : List Sync) :
    syncs.foldl (fun st s ↦ st.next (k ∈ s.domains)) Standing.absent = .expired ↔
      ∃ s s', [s, s'].Sublist syncs ∧ k ∈ s.domains ∧ k ∉ s'.domains := by
  induction syncs with
  | nil => simp
  | cons s syncs ih =>
    rw [List.foldl_cons]
    by_cases hk : k ∈ s.domains
    · have hl : Standing.absent.next (k ∈ s.domains) = .listed := by simp [Standing.next, hk]
      rw [hl, foldl_next_listed]
      constructor
      · intro ⟨s', hs', hk'⟩
        exact ⟨s, s', .cons_cons s (List.singleton_sublist.mpr hs'), hk, hk'⟩
      · intro ⟨s₁, s₂, hs, _, hk₂⟩
        refine ⟨s₂, ?_, hk₂⟩
        cases hs with
        | cons _ hs => exact hs.subset (by simp)
        | cons_cons _ hs => exact hs.subset (by simp)
    · have ha : Standing.absent.next (k ∈ s.domains) = .absent := by simp [Standing.next, hk]
      rw [ha, ih]
      constructor
      · intro ⟨s₁, s₂, hs, h⟩
        exact ⟨s₁, s₂, hs.cons s, h⟩
      · intro ⟨s₁, s₂, hs, hk₁, hk₂⟩
        cases hs with
        | cons _ hs => exact ⟨s₁, s₂, hs, hk₁, hk₂⟩
        | cons_cons _ hs => exact absurd hk₁ hk

/-- The host has a disabled Tranco row, or gets one: it was on the list and is missing from a later one. -/
def Dropped (t : Table) (syncs : List Sync) (host : Text) : Prop :=
  match standing t host with
  | .absent => ∃ s s', [s, s'].Sublist syncs ∧ host ∈ s.domains ∧ host ∉ s'.domains
  | .other => False
  | .listed => ∃ s ∈ syncs, host ∉ s.domains
  | .expired => True

theorem standing_run_eq_expired (t : Table) {syncs : List Sync} (h : ∀ s ∈ syncs, s.domains ≠ []) (k : Text) :
    standing (run sync t syncs) k = .expired ↔ Dropped t syncs k := by
  rw [standing_run t h, Dropped]
  cases standing t k with
  | absent => exact foldl_next_absent k syncs
  | other => simp [foldl_next_other]
  | listed => exact foldl_next_listed k syncs
  | expired => simp [foldl_next_expired]

def TrancoEnabled (t : Table) (host : Text) : Prop :=
  ∃ row ∈ t.rows, row.host = host ∧ row.isTranco = true ∧ row.enabled = true

def HasOther (t : Table) (host : Text) : Prop := ∃ row ∈ others t, row.host = host

theorem trancoEnabled_iff {t : Table} {host : Text} : TrancoEnabled t host ↔ standing t host = .listed := by
  rw [standing_eq_iff (by decide), TrancoEnabled]
  refine exists_congr fun row ↦ and_congr_right fun _ ↦ and_congr_right fun _ ↦ ?_
  rw [InfraClassification.standing]
  cases row.isTranco <;> cases row.enabled <;> simp

theorem hasOther_iff {t : Table} {host : Text} : HasOther t host ↔ standing t host = .other := by
  rw [standing_eq_iff (by decide), HasOther]
  refine exists_congr fun row ↦ ?_
  rw [others, List.mem_filter, and_assoc, InfraClassification.standing]
  cases row.isTranco <;> cases row.enabled <;> simp

/-- The enabled Tranco rows are those of the last list, and the rows of other provenance are the old ones. -/
def Tracks (t : Table) (earlier : List Sync) (last : Sync) : Prop :=
  (∀ host, TrancoEnabled (run sync t (earlier ++ [last])) host ↔
    host ∈ last.domains ∧ ¬HasOther (run sync t (earlier ++ [last])) host) ∧
  others (run sync t (earlier ++ [last])) = others t

theorem tranco_tracks_iff (t : Table) (earlier : List Sync) (last : Sync) (h : ∀ s ∈ earlier ++ [last], s.domains ≠ []) :
    Tracks t earlier last ↔ ∀ host ∈ last.domains, ¬Dropped t earlier host := by
  have he : ∀ s ∈ earlier, s.domains ≠ [] := fun s hs ↦ h s (List.mem_append_left _ hs)
  have hstep : ∀ host, standing (run sync t (earlier ++ [last])) host =
      (standing (run sync t earlier) host).next (host ∈ last.domains) := by
    intro host
    rw [run_append]
    exact standing_sync _ (h last (by simp)) host
  rw [Tracks, and_iff_left (others_run t _)]
  refine forall_congr' fun host ↦ ?_
  rw [trancoEnabled_iff, hasOther_iff, hstep, ← standing_run_eq_expired t he]
  by_cases hk : host ∈ last.domains <;> cases standing (run sync t earlier) host <;> simp [hk, Standing.next]

def emptyTable : Table := .empty

/-- A sync of a day's list. -/
def daily (date : String) (domains : List String) : Sync :=
  ⟨date.toList, domains.map String.toList, date.toList, date.toList, date.toList⟩

def bothListed : Sync := daily "2026-08-01" ["a.com", "b.com"]

def oneLeaves : Sync := daily "2026-08-02" ["b.com"]

theorem tranco_tracks_stable : Tracks emptyTable [bothListed] bothListed :=
  (tranco_tracks_iff emptyTable [bothListed] bothListed (by decide)).mpr fun host _ h ↦ by
    obtain ⟨s, s', hs, -⟩ := h
    exact absurd hs.length_le (by simp)

theorem tranco_returning_host_lost :
    ¬∀ (t : Table) (earlier : List Sync) (last : Sync), (∀ s ∈ earlier ++ [last], s.domains ≠ []) →
      Tracks t earlier last := by
  intro h
  have ht := h emptyTable [bothListed, oneLeaves] bothListed (by decide)
  have he : standing (run sync emptyTable ([bothListed, oneLeaves] ++ [bothListed])) "a.com".toList = .expired :=
    (standing_run_eq_expired emptyTable (by decide) _).mpr
      ⟨bothListed, oneLeaves, by simp, by decide, by decide⟩
  have hin : TrancoEnabled (run sync emptyTable ([bothListed, oneLeaves] ++ [bothListed])) "a.com".toList := by
    refine (ht.1 _).mpr ⟨by decide, ?_⟩
    rw [hasOther_iff, he]
    decide
  rw [trancoEnabled_iff, he] at hin
  cases hin

end Briefr.Blocklist.TrancoSync
