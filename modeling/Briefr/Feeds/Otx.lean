import Briefr.Library.Runs
import Briefr.Library.StableSort
import Briefr.Library.UniqueIndex
import Briefr.Python.Loop
import Mathlib.Data.Int.Order.Basic
import Mathlib.Data.List.Lex
import Mathlib.Logic.Function.Basic

namespace Briefr.Feeds.Otx

open Briefr.Python Briefr.Library.Runs Briefr.Library.StableSort Briefr.Library.UniqueIndex

/-- What `normalize_ioc` makes of an indicator, with the digest of its value. -/
structure CanonicalIoc where
  type : Text
  value : Text
  digest : Text
  rawValue : Text
  host : Text

/-- The pure parts: how the pulses of an answer, and its general data on an indicator, are read, and the canonical form
of an indicator. -/
class Parsers where
  normalizePulses : Dict → Py (List Dict)
  indicatorGeneral : Dict → Py Dict
  normalizeIoc : Text → Text → Option CanonicalIoc

/-- A row of `otx_pulses`, and of `otx_cve_pulses` under its CVE; the columns are those of the pulse. -/
structure PulseRow where
  cveId : Text
  columns : Dict
  fetchedAt : ℤ

structure IocRow where
  pulseId : Text
  iocType : Text
  iocValue : Text
  digest : Text
  description : Value
  fetchedAt : ℤ
  observedAt : Value
  rawIoc : Text
  hostIoc : Text

/-- The tables that the loaders write; an entry of `feed_cache` has its `cached_at`. Times are in seconds. -/
structure Store where
  pulses : List PulseRow
  cvePulses : List PulseRow
  pulseIocs : List IocRow
  feedCache : Text → Option (Dict × ℤ)

def cacheSeconds : ℤ := 6 * 3600

def getFeedCache (s : Store) (key : Text) (now : ℤ) : Option Dict :=
  match s.feedCache key with
  | some (result, cachedAt) => if cachedAt > now - cacheSeconds then some result else none
  | none => none

def setFeedCache (s : Store) (key : Text) (result : Dict) (now : ℤ) : Store :=
  { s with feedCache := Function.update s.feedCache key (some (result, now)) }

def dicts (l : List Dict) : Value := .list (l.map .dict)

/-- `p.get(key) or default`. -/
def orDefault (p : Dict) (key : String) (default : Value) : Text × Value := (key, (p.get key).orElse default)

section

variable [Interp] [Parsers]

def pulseColumns (p : Dict) : Dict :=
  [orDefault p "pulse_id" (.str []), orDefault p "pulse_name" (.str []), orDefault p "author" (.str []),
    orDefault p "created_date" (.str []), orDefault p "adversary" (.str []), orDefault p "malware_families" (.list []),
    orDefault p "ioc_count" (.num "0" true), orDefault p "tags" (.list []), orDefault p "targeted_countries" (.list [])]

def pulseId (r : PulseRow) : Text := strOr (r.columns.get "pulse_id")

def upsertOtxPulses (s : Store) (pulses : List Dict) (now : ℤ) : Store :=
  let rows := (pulses.filter fun p ↦ (p.get "pulse_id").truthy).map fun p ↦ ⟨[], pulseColumns p, now⟩
  { s with pulses := rows.foldl (upsert pulseId) s.pulses }

def replaceOtxCvePulses (s : Store) (key : Text) (pulses : List Dict) (now : ℤ) : Store :=
  let kept := { s with cvePulses := s.cvePulses.filter fun r ↦ r.cveId ≠ key }
  if pulses = [] then kept
  else
    let s' := upsertOtxPulses kept pulses now
    { s' with cvePulses := s'.cvePulses ++
        (pulses.filter fun p ↦ (p.get "pulse_id").truthy).map fun p ↦ ⟨key, pulseColumns p, now⟩ }

def cveCacheKey (key : Text) : Text := "otx:cve:".toList ++ key

def storeOtxCvePulses (s : Store) (key : Text) (pulses : List Dict) (now : ℤ) : Store :=
  setFeedCache (replaceOtxCvePulses s key pulses now) (cveCacheKey key) [("pulses", dicts pulses)] now

/-- `ORDER BY created_date DESC`. -/
def createdDate (r : PulseRow) : Textᵒᵈ := OrderDual.toDual (strOr (r.columns.get "created_date"))

/-- The rows of the CVE fetched after the cutoff, if there is one. -/
def readOtxCvePulses (s : Store) (key : Text) (cutoff : Option ℤ) : Option (List Dict) :=
  match sortBy createdDate (s.cvePulses.filter fun r ↦ r.cveId = key ∧ cutoff.all (r.fetchedAt > ·)) with
  | [] => none
  | rows => some (rows.map PulseRow.columns)

/-- The row that `replace_otx_pulse_iocs` writes for an indicator. -/
def iocRow (pulseId : Text) (now : ℤ) (ioc : Dict) : Option IocRow :=
  (Parsers.normalizeIoc (strOr (ioc.get "ioc_type")) (strOr (ioc.get "ioc_value"))).map fun c ↦
    ⟨pulseId, c.type, c.value, c.digest, (ioc.get "description").orElse (.str []), now,
      (if strip (strOr (ioc.get "observed_at")) = [] then .none else .str (strip (strOr (ioc.get "observed_at")))),
      c.rawValue, c.host⟩

def IocRow.key (r : IocRow) : Text × Text × Text := (r.pulseId, r.iocType, r.iocValue)

def replaceOtxPulseIocs (s : Store) (pulseId : Text) (iocs : List Dict) (now : ℤ) : Store :=
  let rows := iocs.filterMap (iocRow pulseId now)
  if rows.isEmpty then { s with pulseIocs := s.pulseIocs.filter fun r ↦ r.pulseId ≠ pulseId }
  else
    { s with pulseIocs := (rows.foldl (upsert IocRow.key) s.pulseIocs).filter fun r ↦
        r.pulseId ≠ pulseId ∨ r.key ∈ rows.map IocRow.key }

def pulseCacheKey (pulseId : Text) : Text := "otx:pulse:".toList ++ pulseId

def storeOtxPulseIocs (s : Store) (pulseId : Text) (iocs : List Dict) (now : ℤ) : Store :=
  setFeedCache (replaceOtxPulseIocs s pulseId iocs now) (pulseCacheKey pulseId) [("iocs", dicts iocs)] now

def IocRow.shown (r : IocRow) : Dict :=
  [("ioc_type", .str r.iocType), ("ioc_value", .str r.iocValue), ("description", r.description),
    ("observed_at", r.observedAt)]

def readOtxPulseIocs (s : Store) (pulseId : Text) (cutoff : ℤ) : Option (List Dict) :=
  match s.pulseIocs.filter fun r ↦ r.pulseId = pulseId ∧ r.fetchedAt > cutoff with
  | [] => none
  | rows => some (rows.map IocRow.shown)

/-- `fetch_cve_pulses`: none where the request fails. The reply is what `_otx_get` returns. -/
def fetchCvePulses (key apiKey : Text) (reply : Option Dict) : Py (Option (List Dict)) :=
  if apiKey = [] ∨ key = [] then .ok (some [])
  else
    match reply with
    | none => .ok none
    | some data => some <$> Parsers.normalizePulses data

/-- One indicator of the answer, if it has a value. -/
def parseIoc (row : Value) : Py (Option Dict) := do
  let iocType ← ((← row.get "type").orElse (← row.get "indicator_type")).orText
  let value ← ((← row.get "indicator").orElse (← row.get "content")).orText
  if strip value = [] then return none
  let description ← ((← row.get "description").orElse (← row.get "title")).orText
  let observed := strip (strOr ((← row.get "created").orElse (← row.get "created_date")))
  return some [("ioc_type", .str (strip iocType)), ("ioc_value", .str (strip value)),
    ("description", .str (strip description)), ("observed_at", if observed = [] then .none else .str observed)]

/-- `fetch_pulse_iocs`. -/
def fetchPulseIocs (pulseId apiKey : Text) (reply : Option Dict) : Py (List Dict) :=
  if apiKey = [] ∨ pulseId = [] then .ok []
  else
    match reply with
    | none => .ok []
    | some data => do
      let rows ← (((data.get "results").orElse (data.get "indicators")).orElse (.list [])).iter
      return (← rows.mapM parseIoc).reduceOption

/-- `_otx_indicator_path`. -/
def otxIndicatorPath (iocType value : Text) : Option Text :=
  if lower iocType = "ip".toList then some ("IPv4/".toList ++ value)
  else if lower iocType = "domain".toList then some ("domain/".toList ++ lower value)
  else if lower iocType = "hash".toList then some ("file/".toList ++ lower value)
  else none

def emptyLookup : Dict :=
  [("pulse_count", .num "0" true), ("pulses", .list []), ("country", .none), ("asn", .none), ("adversary", .none),
    ("malware_families", .list []), ("related_cves", .list [])]

def lookupIocInOtx (iocValue iocType apiKey : Text) (reply : Option Dict) : Py Dict :=
  if apiKey = [] ∨ iocValue = [] then .ok emptyLookup
  else
    match otxIndicatorPath iocType iocValue, reply with
    | some _, some data => Parsers.indicatorGeneral data
    | _, _ => .ok emptyLookup

/-- `cached.get(key, [])`. -/
def cachedList (cached : Dict) (key : String) : Value := (cached.lookup key.toList).getD (.list [])

def loadOtxPulsesForCve (s : Store) (cveId apiKey : Text) (now : ℤ) (reply : Option Dict) : Py (Store × Value) :=
  let key := upper cveId
  let fresh := readOtxCvePulses s key (some (now - cacheSeconds))
  if apiKey = [] then .ok (s, dicts (fresh.getD []))
  else
    match getFeedCache s (cveCacheKey key) now, fresh with
    | some cached, _ => .ok (s, cachedList cached "pulses")
    | none, some rows => .ok (s, dicts rows)
    | none, none => do
      match ← fetchCvePulses key apiKey reply with
      | none => .ok (s, dicts ((readOtxCvePulses s key none).getD []))
      | some pulses => .ok (storeOtxCvePulses s key pulses now, dicts pulses)

def loadPulseIocs (s : Store) (pulseId apiKey : Text) (now : ℤ) (reply : Option Dict) : Py (Store × Value) :=
  let fresh := readOtxPulseIocs s pulseId (now - cacheSeconds)
  if pulseId = [] then .ok (s, .list [])
  else if apiKey = [] then .ok (s, dicts (fresh.getD []))
  else
    match getFeedCache s (pulseCacheKey pulseId) now, fresh with
    | some cached, _ => .ok (s, cachedList cached "iocs")
    | none, some rows => .ok (s, dicts rows)
    | none, none => do
      let iocs ← fetchPulseIocs pulseId apiKey reply
      return (storeOtxPulseIocs s pulseId iocs now, dicts iocs)

def iocCacheKey (iocType iocValue : Text) : Text := "otx:ioc:".toList ++ iocType ++ ':' :: lower iocValue

/-- `lookup_otx_for_ioc`, without the related CVEs that it then reads from the tables. -/
def lookupOtxForIoc (s : Store) (iocValue iocType apiKey : Text) (now : ℤ) (reply : Option Dict) : Py (Store × Dict) :=
  if apiKey = [] then (fun result ↦ (s, result)) <$> lookupIocInOtx iocValue iocType [] reply
  else
    match getFeedCache s (iocCacheKey iocType iocValue) now with
    | some cached => .ok (s, cached)
    | none => do
      let result ← lookupIocInOtx iocValue iocType apiKey reply
      return (setFeedCache s (iocCacheKey iocType iocValue) result now, result)

end

/-- A call, its time, and what the upstream request returns if the call makes it: none where it fails. -/
inductive Call
  | pulsesForCve (cveId apiKey : Text) (now : ℤ) (reply : Option Dict)
  | pulseIocs (pulseId apiKey : Text) (now : ℤ) (reply : Option Dict)
  | lookupIoc (iocValue iocType apiKey : Text) (now : ℤ) (reply : Option Dict)

section

variable [Interp] [Parsers]

/-- A call that raises is rolled back. -/
def outcome {α : Type} (s : Store) : Py (Store × α) → Store
  | .ok (s', _) => s'
  | .error _ => s

def step (s : Store) : Call → Store
  | .pulsesForCve cveId apiKey now reply => outcome s (loadOtxPulsesForCve s cveId apiKey now reply)
  | .pulseIocs pulseId apiKey now reply => outcome s (loadPulseIocs s pulseId apiKey now reply)
  | .lookupIoc iocValue iocType apiKey now reply => outcome s (lookupOtxForIoc s iocValue iocType apiKey now reply)

/-- The call gets to its upstream request. -/
def Requests (s : Store) : Call → Prop
  | .pulsesForCve cveId apiKey now _ => apiKey ≠ [] ∧ upper cveId ≠ [] ∧
      getFeedCache s (cveCacheKey (upper cveId)) now = none ∧
      readOtxCvePulses s (upper cveId) (some (now - cacheSeconds)) = none
  | .pulseIocs pulseId apiKey now _ => apiKey ≠ [] ∧ pulseId ≠ [] ∧
      getFeedCache s (pulseCacheKey pulseId) now = none ∧ readOtxPulseIocs s pulseId (now - cacheSeconds) = none
  | .lookupIoc iocValue iocType apiKey now _ => apiKey ≠ [] ∧ iocValue ≠ [] ∧ otxIndicatorPath iocType iocValue ≠ none ∧
      getFeedCache s (iocCacheKey iocType iocValue) now = none

def Call.reply : Call → Option Dict
  | .pulsesForCve _ _ _ reply | .pulseIocs _ _ _ reply | .lookupIoc _ _ _ _ reply => reply

def Failed (s : Store) (call : Call) : Prop := Requests s call ∧ call.reply = none

/-- Only the loader that tells a failure from an empty answer meets one. -/
def OnlyCvePulsesFail (s : Store) : Call → Prop
  | .pulsesForCve .. => True
  | call => ¬Failed s call

end

end Briefr.Feeds.Otx

namespace Briefr.Feeds.Otx

open Briefr.Python Briefr.Library.Runs

section Outage

variable [Interp] [Parsers] {s : Store}

omit [Interp] [Parsers] in
theorem getFeedCache_setFeedCache (s : Store) (key : Text) (result : Dict) (now : ℤ) :
    getFeedCache (setFeedCache s key result now) key now = some result := by
  have hfresh : now > now - cacheSeconds := by
    unfold cacheSeconds
    omega
  simp only [getFeedCache, setFeedCache, Function.update_self, if_pos hfresh]

omit [Interp] [Parsers] in
theorem setFeedCache_ne {s s' : Store} {key : Text} {now : ℤ} (hs : getFeedCache s key now = none) (result : Dict) :
    setFeedCache s' key result now ≠ s := by
  intro he
  have hfresh := getFeedCache_setFeedCache s' key result now
  rw [he, hs] at hfresh
  cases hfresh

/-- A failed refresh of a CVE's pulses leaves everything as it is. -/
theorem failed_pulsesForCve {cveId apiKey : Text} {now : ℤ} {reply : Option Dict}
    (h : Failed s (.pulsesForCve cveId apiKey now reply)) : step s (.pulsesForCve cveId apiKey now reply) = s := by
  obtain ⟨⟨hapi, hkey, hcache, hrows⟩, hreply⟩ := h
  obtain rfl : reply = none := hreply
  have hfetch : fetchCvePulses (upper cveId) apiKey none = .ok none := if_neg (not_or.mpr ⟨hapi, hkey⟩)
  have hload : loadOtxPulsesForCve s cveId apiKey now none =
      .ok (s, dicts ((readOtxCvePulses s (upper cveId) none).getD [])) := by
    simp only [loadOtxPulsesForCve]
    rw [if_neg hapi, hcache, hrows]
    simp only [hfetch, ok_bind]
  simp only [step, hload, outcome]

/-- A failed refresh of a pulse's indicators is stored as an empty answer. -/
theorem step_pulseIocs_of_failed {pulseId apiKey : Text} {now : ℤ} {reply : Option Dict}
    (h : Failed s (.pulseIocs pulseId apiKey now reply)) :
    step s (.pulseIocs pulseId apiKey now reply) = storeOtxPulseIocs s pulseId [] now := by
  obtain ⟨⟨hapi, hpulse, hcache, hrows⟩, hreply⟩ := h
  obtain rfl : reply = none := hreply
  have hfetch : fetchPulseIocs pulseId apiKey none = .ok [] := if_neg (not_or.mpr ⟨hapi, hpulse⟩)
  have hload : loadPulseIocs s pulseId apiKey now none = .ok (storeOtxPulseIocs s pulseId [] now, dicts []) := by
    simp only [loadPulseIocs]
    rw [if_neg hpulse, if_neg hapi, hcache, hrows]
    simp only [hfetch, ok_bind, pure_eq_ok]
  simp only [step, hload, outcome]

/-- So is a failed lookup of an indicator. -/
theorem step_lookupIoc_of_failed {iocValue iocType apiKey : Text} {now : ℤ} {reply : Option Dict}
    (h : Failed s (.lookupIoc iocValue iocType apiKey now reply)) :
    step s (.lookupIoc iocValue iocType apiKey now reply) =
      setFeedCache s (iocCacheKey iocType iocValue) emptyLookup now := by
  obtain ⟨⟨hapi, hvalue, hpath, hcache⟩, hreply⟩ := h
  obtain rfl : reply = none := hreply
  have hlookup : lookupIocInOtx iocValue iocType apiKey none = .ok emptyLookup := by
    rw [lookupIocInOtx, if_neg (not_or.mpr ⟨hapi, hvalue⟩)]
    cases otxIndicatorPath iocType iocValue <;> simp
  have hload : lookupOtxForIoc s iocValue iocType apiKey now none =
      .ok (setFeedCache s (iocCacheKey iocType iocValue) emptyLookup now, emptyLookup) := by
    simp only [lookupOtxForIoc]
    rw [if_neg hapi, hcache]
    simp only [hlookup, ok_bind, pure_eq_ok]
  simp only [step, hload, outcome]

/-- A failed request leaves the store unchanged only in the loader of a CVE's pulses. -/
theorem unchanged_iff {call : Call} : (Failed s call → step s call = s) ↔ OnlyCvePulsesFail s call := by
  cases call with
  | pulsesForCve => exact ⟨fun _ ↦ trivial, fun _ ↦ failed_pulsesForCve⟩
  | pulseIocs pulseId apiKey now reply =>
    constructor
    · intro h hf
      refine setFeedCache_ne hf.1.2.2.1 _ ((step_pulseIocs_of_failed hf).symm.trans (h hf))
    · exact fun h hf ↦ absurd hf h
  | lookupIoc iocValue iocType apiKey now reply =>
    constructor
    · intro h hf
      exact setFeedCache_ne hf.1.2.2.2 _ ((step_lookupIoc_of_failed hf).symm.trans (h hf))
    · exact fun h hf ↦ absurd hf h

/-- In a run of calls each failed request leaves the tables and the cache unchanged exactly where all that fail are
those of the loader of a CVE's pulses. -/
theorem outage_erases_nothing_iff (s : Store) (calls : List Call) :
    (∀ before call, before ++ [call] <+: calls → Failed (run step s before) call →
      run step s (before ++ [call]) = run step s before) ↔ Along step OnlyCvePulsesFail s calls := by
  rw [along_iff_each]
  refine forall₃_congr fun before call _ ↦ ?_
  rw [run_append]
  exact unchanged_iff

end Outage

section Erased

local instance otxInterp : Interp := ascii fun _ ↦ none

/-- Nothing is read from an answer here. -/
local instance otxParsers : Parsers := ⟨fun _ ↦ .ok [], fun _ ↦ .ok [], fun _ _ ↦ none⟩

/-- An indicator that was fetched a day ago. -/
def storedIoc : IocRow := ⟨"p1", "IP", "198.51.100.7", [], .str [], 0, .none, [], []⟩

def storedDay : Store := ⟨[], [], [storedIoc], fun _ ↦ none⟩

theorem outage_erases_iocs :
    ¬∀ (s : Store) (calls : List Call), ∀ before call, before ++ [call] <+: calls → Failed (run step s before) call →
      run step s (before ++ [call]) = run step s before := by
  intro h
  have hf : Failed storedDay (.pulseIocs "p1" "key" 86400 none) := ⟨⟨by decide, by decide, rfl, rfl⟩, rfl⟩
  have he := h storedDay [.pulseIocs "p1" "key" 86400 none] [] _ (List.prefix_refl _) hf
  have hempty : (run step storedDay [.pulseIocs "p1" "key" 86400 none]).pulseIocs.length = 0 := by decide +kernel
  rw [List.nil_append] at he
  rw [he] at hempty
  cases hempty

end Erased

end Briefr.Feeds.Otx
