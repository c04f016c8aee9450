import Briefr.Correlation.FamilyComponents
import Briefr.Correlation.LiveCorrelation

namespace Briefr.Correlation

open Briefr.Python Briefr.Library

namespace Result

variable {F : Type}

theorem get_set (r : Result F) (key key' : Text) (v : Obj F) :
    Result.get (r.set key v) key' = if key' = key then v else Result.get r key' := by
  rw [Result.get, Dict.get?_set]
  split <;> rfl

/-- `json.loads(json.dumps(result))`. -/
def reload (r : Result F) : Result F where
  items := r.items.map fun e ↦ (e.1, e.2.reload)
  nodup := by
    rw [List.map_map]
    exact r.nodup

theorem get_reload (r : Result F) (key : Text) : (reload r).get key = (r.get key).reload := by
  obtain ⟨items, hn⟩ := r
  simp only [Result.get, reload, Dict.get?]
  clear hn
  induction items with
  | nil => simp [Obj.reload]
  | cons e items ih =>
    obtain ⟨k, v⟩ := e
    by_cases hk : key = k
    · simp [hk]
    · rw [List.map_cons, Dict.lookup_cons_of_ne hk, Dict.lookup_cons_of_ne hk]
      exact ih

end Result

/-- A row of `correlation_cve_snapshot`, its payload parsed. -/
structure SnapshotRow (F : Type) where
  payload : Result F
  engineVersion : Text
  computedAt : Text
  hubEdgesSuppressed : ℤ

section
variable {F : Type}

def intOf : Obj F → ℤ
  | .int n => n
  | _ => 0

/-- What `run_correlation_precompute_slice` stores. -/
def snapshotOf (engineVersion : Text) (r : Result F) : SnapshotRow F where
  payload := r.reload
  engineVersion
  computedAt := (r.get computedAtKey).text
  hubEdgesSuppressed := intOf ((r.get metaKey).get "hub_edges_suppressed".toList)

def setField (key : Text) (v : Obj F) (o : Obj F) : Obj F :=
  match o with
  | .dict fields => .dict (Dict.setItem key v fields)
  | _ => .dict [(key, v)]

/-- The payload with the marks of the snapshot. -/
def patched (cfg : Config F) (row : SnapshotRow F) : Result F :=
  let engine := if row.engineVersion = [] then cfg.engineVersion else row.engineVersion
  let marked := setField "hub_edges_suppressed".toList (.int row.hubEdgesSuppressed)
    (setField "engine_version".toList (.str engine)
      (setField "precompute".toList (.bool true) (setField "cache_hit".toList (.bool true) (row.payload.get metaKey))))
  (row.payload.set metaKey marked).set computedAtKey
    (if row.computedAt = [] then row.payload.get computedAtKey else .str row.computedAt)

/-- The parts of a response that hold its findings. -/
def findingKeys : List Text := [campaignsKey, infrastructureKey, actorKey, temporalKey, boostersKey, priorityKey]

def findings (r : Result F) : List (Obj F) := findingKeys.map r.get

theorem findings_eq {r r' : Result F} : findings r = findings r' ↔ ∀ key ∈ findingKeys, r.get key = r'.get key :=
  List.map_inj_left

theorem keys_nodup : [cveIdKey, campaignsKey, infrastructureKey, actorKey, temporalKey, boostersKey, computedAtKey,
    otxStatusKey, metaKey, priorityKey].Nodup := by
  decide

section
variable [Interp] [FloatOps F] [Titles]

/-- The branch of `get_correlation_for_cve` that reads a snapshot. -/
def serveSnapshot (cfg : Config F) (db : Tables F) (cve userSector : Text) (row : SnapshotRow F) : Py (Result F) :=
  let result := patched cfg row
  if userSector = [] then .ok result
  else do
    let actor ← findActorSectorCorrelation cfg db cve userSector
    let result := result.set actorKey (Json.list actor).1
    return result.set priorityKey (CombinedPriority.computeCorrelationPriority result)

variable [Attribution F]

theorem Analysis.get_toResult (a : Analysis F) {key : Text} (h : key ≠ priorityKey) :
    a.toResult.get key = a.unranked.get key := by
  rw [Analysis.toResult, Result.get_set, if_neg h]

theorem Analysis.get_priority (a : Analysis F) :
    a.toResult.get priorityKey = CombinedPriority.computeCorrelationPriority a.unranked := by
  rw [Analysis.toResult, Result.get_set, if_pos rfl]

omit [Interp] [FloatOps F] [Titles] in
theorem Analysis.get_unranked (a : Analysis F) :
    a.unranked.get campaignsKey = (Json.list (a.campaigns.map CampaignFinding.toJson)).1 ∧
      a.unranked.get infrastructureKey = (Json.list (a.infrastructure.map InfraPeer.toJson)).1 ∧
      a.unranked.get actorKey = (Json.list a.actor).1 ∧ a.unranked.get temporalKey = (Json.list a.temporal).1 ∧
      a.unranked.get boostersKey = a.boosters.toJson.1 := by
  have hne := keys_nodup
  simp only [List.nodup_cons, List.mem_cons, not_or, List.not_mem_nil, not_false_eq_true] at hne
  simp only [Analysis.unranked, Result.get_set]
  simp [hne]

/-- The five parts below the priority are plain, whatever the priority is. -/
theorem Analysis.plain_get (a : Analysis F) : ∀ key ∈ findingKeys, (a.toResult.get key).Plain := by
  intro key hkey
  by_cases hp : key = priorityKey
  · rw [hp, a.get_priority]
    exact CombinedPriority.plain_computeCorrelationPriority a.unranked
  · rw [a.get_toResult hp]
    obtain ⟨hc, hi, ha, ht, hb⟩ := a.get_unranked
    simp only [findingKeys, List.mem_cons, List.not_mem_nil, or_false, hp] at hkey
    rcases hkey with rfl | rfl | rfl | rfl | rfl
    · exact hc ▸ Subtype.property _
    · exact hi ▸ Subtype.property _
    · exact ha ▸ Subtype.property _
    · exact ht ▸ Subtype.property _
    · exact hb ▸ Subtype.property _

theorem get_patched (cfg : Config F) (version : Text) (a : Analysis F) {key : Text} (hkey : key ∈ findingKeys) :
    (patched cfg (snapshotOf version a.toResult)).get key = a.toResult.get key := by
  have hne : key ≠ metaKey ∧ key ≠ computedAtKey := by
    revert hkey key
    decide
  rw [patched, Result.get_set, if_neg hne.2, Result.get_set, if_neg hne.1, snapshotOf, Result.get_reload,
    Obj.reload_of_plain _ (a.plain_get key hkey)]

/-- The payload with the caller's actors is the live answer before it is ranked. -/
theorem get_patched_actor (cfg : Config F) (version : Text) (a : Analysis F) (actor : List (Json F)) {key : Text}
    (hkey : key ∈ findingKeys) (hp : key ≠ priorityKey) :
    Result.get ((patched cfg (snapshotOf version a.toResult)).set actorKey (Json.list actor).1) key =
      ({ a with actor := actor } : Analysis F).unranked.get key := by
  obtain ⟨hc, hi, ha, ht, hb⟩ := ({ a with actor := actor } : Analysis F).get_unranked
  rw [Result.get_set]
  split
  · rename_i hk
    rw [hk, ha]
  · rename_i hk
    rw [get_patched cfg version a hkey, a.get_toResult hp]
    obtain ⟨hc', hi', -, ht', hb'⟩ := a.get_unranked
    simp only [findingKeys, List.mem_cons, List.not_mem_nil, or_false, hp, hk, false_or] at hkey
    rcases hkey with rfl | rfl | rfl | rfl
    · rw [hc, hc']
    · rw [hi, hi']
    · rw [ht, ht']
    · rw [hb, hb']
      rfl

variable [EdgeRules F] [Iso] [Sha256] [Stamps]

omit [Titles] in
theorem compute_sector {cfg : Config F} {reading : Reading} {db : Tables F} {cve : Text} {a : Analysis F}
    (h : computeCorrelationForCve cfg reading db cve [] = .ok a) (sector : Text) :
    computeCorrelationForCve cfg reading db cve sector =
      (findActorSectorCorrelation cfg db cve sector).map fun actor ↦ { a with actor := actor } := by
  obtain ⟨actor, campaigns, -, hc, rfl⟩ := compute_eq_ok.mp h
  rw [computeCorrelationForCve, hc]
  cases findActorSectorCorrelation cfg db cve sector <;> rfl

/-- The findings that a snapshot serves are those of a live computation at the reading of the snapshot. -/
theorem snapshot_serves_live (cfg : Config F) (reading : Reading) (db : Tables F) (cve sector version : Text)
    (a : Analysis F) (h : computeCorrelationForCve cfg reading db cve [] = .ok a) :
    (serveSnapshot cfg db cve sector (snapshotOf version a.toResult)).map findings =
      (computeCorrelationForCve cfg reading db cve sector).map fun live ↦ findings live.toResult := by
  by_cases hs : sector = []
  · subst hs
    rw [h, serveSnapshot, if_pos rfl]
    exact congrArg Except.ok (findings_eq.mpr fun key hkey ↦ get_patched cfg version a hkey)
  · rw [compute_sector h, serveSnapshot, if_neg hs]
    cases findActorSectorCorrelation cfg db cve sector with
    | error e => rfl
    | ok actor =>
      have hparts : ∀ key ∈ findingKeys, key ≠ priorityKey → _ := fun key ↦ get_patched_actor cfg version a actor
      refine congrArg Except.ok (findings_eq.mpr ?_)
      intro key hkey
      by_cases hp : key = priorityKey
      · rw [hp, Result.get_set, if_pos rfl, Analysis.get_priority]
        apply CombinedPriority.computeCorrelationPriority_congr
        · exact hparts campaignsKey (by decide) (by decide)
        · exact hparts infrastructureKey (by decide) (by decide)
        · exact hparts actorKey (by decide) (by decide)
        · exact hparts temporalKey (by decide) (by decide)
      · rw [Result.get_set, if_neg hp, Analysis.get_toResult _ hp]
        exact hparts key hkey hp

end

end

section Samples

local instance snapshotInterp : Interp := ascii fun _ ↦ none

local instance snapshotIso : Iso := ⟨fun _ ↦ none⟩

local instance snapshotSha256 : Sha256 := ⟨fun _ ↦ []⟩

local instance snapshotTitles : Titles := ⟨fun s ↦ s⟩

local instance snapshotStamps : Stamps := ⟨fun now ↦ natText now⟩

/-- Exact numbers serve where nothing is rounded. -/
local instance snapshotFloats : FloatOps ℚ where
  ofInt n := n
  lit n k := n / 10 ^ k
  add := (· + ·)
  mul := (· * ·)
  div := (· / ·)
  lt x y := decide (x < y)
  isZero x := decide (x = 0)
  round x _ := x
  fixed _ := []
  strOther _ := []

local instance snapshotAttribution : Attribution ℚ where
  sanitizePulseText s _ := s
  attributionConflict _ _ _ := false
  attributionClaims _ _ _ _ := .none

def ageFactor (reason : Text) (value : Json ℚ) : Json ℚ :=
  .dict [("factor".toList, .str "freshness".toList), ("value".toList, value), ("reason".toList, .str reason)]

/-- The verdict on a hash that was observed when the clock stood at 0, within its first two days. -/
local instance snapshotRules : EdgeRules ℚ where
  confidenceForIocEdge now _ _ _ :=
    { confidence := "high".toList
      why := none
      factors := [
        .dict [("factor".toList, .str "ioc_type".toList), ("value".toList, .str "HASH".toList),
          ("reason".toList, .str "Hash-type indicator".toList)],
        .dict [("factor".toList, .str "corroboration".toList), ("value".toList, .float (8 / 10)),
          ("k_sources".toList, .int 0), ("k_receipts".toList, .int 0),
          ("reason".toList, .str "Single community (OTX) source".toList)],
        ageFactor ("Indicator observed ".toList ++ natText (now / 86400) ++ "d ago (HASH half-life 365d)".toList)
          (.float (if now < 86400 then 1 else 9981 / 10000))] }

def sampleCve : Text := "CVE-2024-0001".toList

def sampleShared : SharedIoc :=
  ⟨"CVE-2024-0002".toList, "HASH".toList, "d41d8cd98f00b204e9800998ecf8427e".toList,
    some "2024-01-01T00:00:00+00:00".toList, none, 2⟩

/-- A CVE that shares one hash with another. -/
def sampleTables : Tables ℚ where
  suppressions := []
  familyPulses := []
  campaigns := []
  members := []
  links := []
  sharedIocs _ := [sampleShared]
  sharedWith _ _ := []
  confirmations _ _ := ⟨none, false, false⟩
  corroborations _ _ := []
  hubEdges _ := 0
  actorNames _ := []
  techniques _ := ∅
  groups := []
  aliases := []
  adversaries _ := []
  cves _ := none
  temporal := []
  stackTerms := []

def sampleConfig : Config ℚ := ⟨50, 25, 1 / 4, true, "2.0".toList⟩

def readingAt (now : ℕ) : Reading := ⟨now, Otx.sortedOrder⟩

/-- The reason that the first piece of evidence gives for its weight. -/
def firstReason (infrastructure : Obj ℚ) : Text :=
  let evidence := ((infrastructure.items.headD .none).get "evidence".toList).items.headD .none
  (evidence.get "freshness_reason".toList).text

def sampleAnalysis (now : ℕ) : Analysis ℚ := answer sampleConfig (readingAt now) sampleTables sampleCve [] []

theorem compute_sample (now : ℕ) (sector : Text) :
    computeCorrelationForCve sampleConfig (readingAt now) sampleTables sampleCve sector = .ok (sampleAnalysis now) :=
  compute_eq_ok.mpr ⟨[], [], rfl, rfl, rfl⟩

theorem sample_serves_live :
    (serveSnapshot sampleConfig sampleTables sampleCve "Finance".toList
        (snapshotOf "2.0".toList (sampleAnalysis 0).toResult)).map findings =
      (computeCorrelationForCve sampleConfig (readingAt 0) sampleTables sampleCve "Finance".toList).map
        fun live ↦ findings live.toResult :=
  snapshot_serves_live sampleConfig (readingAt 0) sampleTables sampleCve "Finance".toList "2.0".toList (sampleAnalysis 0)
    (compute_sample 0 [])

theorem snapshot_ages :
    (serveSnapshot sampleConfig sampleTables sampleCve []
        (snapshotOf "2.0".toList (sampleAnalysis 0).toResult)).map findings ≠
      (computeCorrelationForCve sampleConfig (readingAt 86400) sampleTables sampleCve []).map
        fun live ↦ findings live.toResult := by
  rw [compute_sample, serveSnapshot, if_pos rfl]
  intro h
  have hi := findings_eq.mp (Except.ok.inj h) infrastructureKey (by decide)
  rw [get_patched _ _ _ (by decide)] at hi
  have hr := congrArg firstReason hi
  revert hr
  decide +kernel

end Samples

end Briefr.Correlation
