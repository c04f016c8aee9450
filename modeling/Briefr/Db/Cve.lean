import Mathlib.Algebra.GroupWithZero.Nat
import Briefr.Feeds.CveRecordV5
import Briefr.Library.JsonAscii
import Briefr.Scheduler.EpssSync

namespace Briefr.Db.Cve

open Briefr.Python Briefr.Feeds.CveRecordV5 Briefr.Feeds.Epss Briefr.Scheduler.EpssSync

/-- `json.dumps`, as far as the columns rely on it. -/
class Dumps [Interp] where
  dumps : Value → Text
  dumps_nil : dumps (.list []) = "[]".toList
  dumps_blank : ∀ v, dumps v = [] ∨ dumps v = "[]".toList → v = .list []
  loads_strs : ∀ l : List Text, loads (dumps (.list (l.map .str))) = some (.list (l.map .str))
  loads_none : loads (dumps .none) = some .none

export Dumps (dumps)

/-- The float arithmetic of the change history: `abs(x - y) > 1e-9`, `f"{x:.6f}"` without trailing
zeros, and the comparison of EPSS scores. No score is NaN. -/
class Tracking (Score : Type) extends Display Score where
  farApart : Score → Score → Bool
  fixed6 : Score → Text
  farApart_self : ∀ x, farApart x x = false
  same_iff : ∀ x y, same x y = true ↔ x = y

export Tracking (farApart fixed6)

/-- A record for `upsert_cves` or an enrichment, as `get` with its default sees it. -/
structure Incoming (Score : Type) where
  cveId : Text
  description : Option Text
  cvssScore : Option Score
  severity : Option Text
  published : Option Text
  modified : Option Text
  affectedProducts : Option (List Text)
  cpeMatches : Option Value
  mitreTechnique : Option Text
  summary : Option Text
  isKev : Bool
  epssScore : Option Score
  hasPoc : Bool
  patchAvailable : Bool
  sourceUrls : Option (List Text)
  cweIds : Option (List Text)
  ssvcDecisions : Bool

/-- A row of `cves`. The writers store 0 or 1 in the flags. -/
structure Row (Score : Type) where
  description : Option Text
  cvssScore : Option Score
  severity : Option Text
  published : Option Text
  modified : Option Text
  affectedProducts : Option Text
  affectedProductsSource : Option Text
  cpeMatches : Option Text
  mitreTechnique : Option Text
  summary : Option Text
  isKev : Bool
  epss : Epss Score
  hasPoc : Bool
  patchAvailable : Bool
  hasAiContext : Bool
  sourceUrls : Option Text
  cweIds : Option Text
  updatedAt : Text

/-- What other modules find in a record or in the stored reference URLs. -/
class Analysis (Score : Type) where
  hasAiContext : Incoming Score → Bool
  hasPublicPoc : Option Text → Bool
  mitreFromUrls : Option Text → Option Text

inductive Field
  | cvssScore
  | epssScore
  | isKev
  | hasPoc
  | patchAvailable
  deriving DecidableEq

/-- A row of `cve_change_history`. -/
structure Change where
  cveId : Text
  fieldName : Field
  oldValue : Text
  newValue : Text

/-- The columns an additive update sets. -/
structure Changes (Score : Type) where
  cvssScore : Option Score
  severity : Option Text
  description : Option Text
  published : Option Text
  modified : Option Text
  cweIds : Option (List Text)
  affectedProducts : Option (List Text)

/-- One statement on one row of `cves`. -/
inductive Write (Score : Type)
  | upsert (now : Text) (cve : Incoming Score)
  | additive (now : Text) (changes : Changes Score)
  | llmProducts (now : Text) (products : List Text)
  | epss (epss : Epss Score)
  | kev
  | poc
  | display (mitre : Option Text) (pocFlag : Bool)

/-- The table, the change history and the statements so far, both oldest first. -/
structure Store (Score : Type) where
  rows : Text → Option (Row Score)
  history : List Change
  log : List (Text × Write Score)

def Store.empty {Score : Type} : Store Score := ⟨fun _ ↦ none, [], []⟩

def llm : Text := "llm".toList

theorem llm_ne_nil : llm ≠ [] := by decide

/-- `column IS NULL OR column IN ('', '[]')`. -/
def blank (column : Option Text) : Bool :=
  column.all fun s ↦ s == [] || s == "[]".toList

section
variable {Score : Type} [Interp] [Dumps] [Analysis Score]

def dumpStrs : Option (List Text) → Text
  | none => dumps .none
  | some l => dumps (.list (l.map .str))

/-- The row that the record describes, as `INSERT` stores it. -/
def insertRow (now : Text) (cve : Incoming Score) : Row Score where
  description := cve.description
  cvssScore := cve.cvssScore
  severity := cve.severity
  published := cve.published
  modified := cve.modified
  affectedProducts := some (dumpStrs cve.affectedProducts)
  affectedProductsSource := some []
  cpeMatches := some (dumps (cve.cpeMatches.getD (.list [])))
  mitreTechnique := cve.mitreTechnique
  summary := cve.summary
  isKev := cve.isKev
  epss := ⟨cve.epssScore, none⟩
  hasPoc := cve.hasPoc
  patchAvailable := cve.patchAvailable
  hasAiContext := Analysis.hasAiContext cve
  sourceUrls := some (dumpStrs cve.sourceUrls)
  cweIds := some (dumpStrs cve.cweIds)
  updatedAt := now

/-- LLM products stay when the record brings none. -/
def keepsLlm (old : Row Score) (excluded : Row Score) : Bool :=
  old.affectedProductsSource == some llm && blank excluded.affectedProducts

/-- `ON CONFLICT(cve_id) DO UPDATE SET`. -/
def conflictRow (old excluded : Row Score) : Row Score where
  description := excluded.description
  cvssScore := excluded.cvssScore
  severity := excluded.severity
  published := excluded.published
  modified := excluded.modified
  affectedProducts := if keepsLlm old excluded then old.affectedProducts else excluded.affectedProducts
  affectedProductsSource := some (if keepsLlm old excluded then llm else [])
  cpeMatches := if blank excluded.cpeMatches then old.cpeMatches else excluded.cpeMatches
  mitreTechnique := excluded.mitreTechnique.or old.mitreTechnique
  summary := excluded.summary.or old.summary
  isKev := old.isKev
  epss := old.epss
  hasPoc := excluded.hasPoc || old.hasPoc
  patchAvailable := excluded.patchAvailable
  hasAiContext := excluded.hasAiContext
  sourceUrls := excluded.sourceUrls
  cweIds := excluded.cweIds
  updatedAt := excluded.updatedAt

def upsertRow (now : Text) (old : Option (Row Score)) (cve : Incoming Score) : Row Score :=
  match old with
  | none => insertRow now cve
  | some old => conflictRow old (insertRow now cve)

/-- `_build_additive_update` run on a row. -/
def additiveRow (now : Text) (ch : Changes Score) (r : Row Score) : Row Score :=
  { r with
    cvssScore := ch.cvssScore.or r.cvssScore
    severity := ch.severity.or r.severity
    description := ch.description.or r.description
    published := ch.published.or r.published
    modified := ch.modified.or r.modified
    cweIds := (ch.cweIds.map fun l ↦ dumpStrs (some l)).or r.cweIds
    affectedProducts := (ch.affectedProducts.map fun l ↦ dumpStrs (some l)).or r.affectedProducts
    updatedAt := now }

/-- `UPDATE ... WHERE affected_products` is still empty. -/
def llmRow (now : Text) (products : List Text) (r : Row Score) : Row Score :=
  if blank r.affectedProducts then
    { r with affectedProducts := some (dumpStrs (some products)), affectedProductsSource := some llm, updatedAt := now }
  else r

/-- What a statement leaves in the row. An `UPDATE` of a missing row does nothing. -/
def Write.apply (old : Option (Row Score)) : Write Score → Option (Row Score)
  | upsert now cve => some (upsertRow now old cve)
  | additive now changes => old.map (additiveRow now changes)
  | llmProducts now products => old.map (llmRow now products)
  | epss e => old.map fun r ↦ { r with epss := e }
  | kev => old.map fun r ↦ { r with isKev := true }
  | poc => old.map fun r ↦ { r with hasPoc := true }
  | display mitre pocFlag => old.map fun r ↦
      { r with mitreTechnique := mitre.or r.mitreTechnique, hasPoc := pocFlag || r.hasPoc }

def Store.write (db : Store Score) (cveId : Text) (w : Write Score) : Store Score :=
  { db with rows := Function.update db.rows cveId (w.apply (db.rows cveId)), log := db.log ++ [(cveId, w)] }

def Store.record (db : Store Score) (changes : List Change) : Store Score := { db with history := db.history ++ changes }

theorem blank_dumpStrs {l : Option (List Text)} : blank (some (dumpStrs l)) = true ↔ l = some [] := by
  have hv : ∀ v, blank (some (dumps v)) = true → v = .list [] := by
    intro v hv
    apply Dumps.dumps_blank
    simpa [blank] using hv
  constructor
  · intro h
    cases l with
    | none => cases hv _ h
    | some l => simpa using hv _ h
  · intro h
    have hd : dumpStrs l = "[]".toList := h ▸ Dumps.dumps_nil
    rw [hd]
    rfl

/-- LLM products stay exactly when the record brings an empty list. -/
theorem keepsLlm_insertRow {now : Text} {r : Row Score} {c : Incoming Score} :
    keepsLlm r (insertRow now c) = true ↔ r.affectedProductsSource = some llm ∧ c.affectedProducts = some [] := by
  rw [keepsLlm, Bool.and_eq_true, beq_iff_eq, ← blank_dumpStrs]
  rfl

theorem upsertRow_source_eq_llm {now : Text} {old : Option (Row Score)} {c : Incoming Score} :
    (upsertRow now old c).affectedProductsSource = some llm ↔
      ∃ r, old = some r ∧ r.affectedProductsSource = some llm ∧ c.affectedProducts = some [] := by
  cases old with
  | none => simp [upsertRow, insertRow, llm_ne_nil.symm]
  | some r =>
    have hk : keepsLlm r (insertRow now c) = true ↔ _ := keepsLlm_insertRow
    simp only [Option.some_inj, exists_eq_left', ← hk, upsertRow, conflictRow]
    by_cases h : keepsLlm r (insertRow now c) = true
    · simp [h]
    · simp [h, llm_ne_nil.symm]

theorem upsertRow_products_kept {now : Text} {r : Row Score} {c : Incoming Score}
    (h : (upsertRow now (some r) c).affectedProductsSource = some llm) :
    (upsertRow now (some r) c).affectedProducts = r.affectedProducts := by
  obtain ⟨_, hr, hs⟩ := upsertRow_source_eq_llm.mp h
  obtain rfl := Option.some_inj.mp hr
  simp [upsertRow, conflictRow, keepsLlm_insertRow.mpr hs]

theorem upsertRow_products_replaced {now : Text} {old : Option (Row Score)} {c : Incoming Score}
    (h : (upsertRow now old c).affectedProductsSource ≠ some llm) :
    (upsertRow now old c).affectedProducts = some (dumpStrs c.affectedProducts) := by
  cases old with
  | none => rfl
  | some r =>
    have hk : ¬keepsLlm r (insertRow now c) = true := by
      intro hk
      exact h (upsertRow_source_eq_llm.mpr ⟨r, rfl, keepsLlm_insertRow.mp hk⟩)
    simp only [upsertRow, conflictRow, hk, Bool.false_eq_true, if_false]
    rfl

/-- What `_load_cve_change_snapshots` keeps of a row. -/
structure Snapshot (Score : Type) where
  cvssScore : Option Score
  epssScore : Option Score
  isKev : Bool
  hasPoc : Bool
  patchAvailable : Bool

def snapshot (r : Row Score) : Snapshot Score where
  cvssScore := r.cvssScore
  epssScore := r.epss.score
  isKev := r.isKev
  hasPoc := r.hasPoc
  patchAvailable := r.patchAvailable

def loadCveChangeSnapshots (db : Store Score) (cveIds : List Text) (key : Text) : Option (Snapshot Score) :=
  if key ∈ (cveIds.filter fun c ↦ !c.isEmpty).map upper then (db.rows key).map snapshot else none

section
variable [Tracking Score]

/-- `_change_value_str` of a score. -/
def changeValueStr : Option Score → Text
  | none => []
  | some x => fixed6 x

def valuesDiffer : Option Score → Option Score → Bool
  | none, none => false
  | some x, some y => farApart x y
  | _, _ => true

def switchedOn (cveId : Text) (field : Field) : Change := ⟨cveId, field, "0".toList, "1".toList⟩

/-- `_append_upsert_change_rows`. -/
def upsertChanges (cveId : Text) (cve : Incoming Score) : Option (Snapshot Score) → List Change
  | some prior =>
    (if valuesDiffer prior.cvssScore cve.cvssScore then
      [⟨cveId, .cvssScore, changeValueStr prior.cvssScore, changeValueStr cve.cvssScore⟩] else []) ++
    (if !prior.hasPoc && (prior.hasPoc || cve.hasPoc) then [switchedOn cveId .hasPoc] else []) ++
    (if !prior.patchAvailable && cve.patchAvailable then [switchedOn cveId .patchAvailable] else [])
  | none =>
    (if cve.isKev then [switchedOn cveId .isKev] else []) ++
    (if cve.hasPoc then [switchedOn cveId .hasPoc] else []) ++
    (if cve.patchAvailable then [switchedOn cveId .patchAvailable] else []) ++
    (if cve.cvssScore.isSome then [⟨cveId, .cvssScore, [], changeValueStr cve.cvssScore⟩] else [])

def validCves (cves : List (Incoming Score)) : List (Incoming Score) := cves.filter fun c ↦ !(strip c.cveId).isEmpty

def putCves (now : Text) (db : Store Score) (cves : List (Incoming Score)) : Store Score :=
  cves.foldl (fun db cve ↦ db.write (upper cve.cveId) (.upsert now cve)) db

/-- The history is worked out from the rows before the batch. -/
def upsertCves (now : Text) (db : Store Score) (cves : List (Incoming Score)) : Store Score :=
  let valid := validCves cves
  let snapshots := loadCveChangeSnapshots db (valid.map fun c ↦ upper c.cveId)
  let history := valid.flatMap fun c ↦ upsertChanges (upper c.cveId) c (snapshots (upper c.cveId))
  (putCves now db valid).record history

end

/-- `SEVERITY_RANK.get(severity, 0)`. -/
def severityRank (severity : Text) : ℕ :=
  if severity = "CRITICAL".toList then 5
  else if severity = "HIGH".toList then 4
  else if severity = "MEDIUM".toList then 3
  else if severity = "LOW".toList then 2
  else if severity = "NONE".toList then 1
  else 0

def unknown : Text := "UNKNOWN".toList

/-- `(severity or "UNKNOWN").upper()`. -/
def severityOf : Option Text → Text
  | none => upper unknown
  | some s => upper (if s = [] then unknown else s)

def mergedSeverity (existing incoming : Option Text) : Option Text :=
  if severityOf incoming = unknown then none
  else if severityOf existing = [] ∨ severityOf existing = unknown then some (severityOf incoming)
  else if severityRank (severityOf existing) < severityRank (severityOf incoming) then some (severityOf incoming)
  else none

/-- The elements of a JSON column that count as true, as strings. -/
def storedItems (column : Option Text) : Py (List Text) :=
  match column with
  | none => .ok []
  | some [] => .ok []
  | some s =>
    match loads s with
    | none => .ok []
    | some v => do return ((← v.iter).filter Value.truthy).map str

/-- A sorted union, or nothing when the union adds nothing. -/
def mergedItems (existing incoming : List Text) : Option (List Text) :=
  if sortedSet (existing ++ incoming) = sortedSet existing then none else some (sortedSet (existing ++ incoming))

/-- A text that fills a column that is still blank. -/
def filled (existing incoming : Option Text) : Option Text :=
  if strip (existing.getD []) = [] ∧ strip (incoming.getD []) ≠ [] then some (strip (incoming.getD [])) else none

def nonEmpty (l : List Text) : List Text := l.filter fun s ↦ !s.isEmpty

def mergeAdditiveCveFields (existing : Row Score) (incoming : Incoming Score) : Py (Changes Score) := do
  let cwes ← storedItems existing.cweIds
  let products ← storedItems existing.affectedProducts
  return {
    cvssScore := if existing.cvssScore.isNone then incoming.cvssScore else none
    severity := mergedSeverity existing.severity incoming.severity
    description := filled existing.description incoming.description
    published := filled existing.published incoming.published
    modified := filled existing.modified incoming.modified
    cweIds := mergedItems (cwes.map upper) ((nonEmpty (incoming.cweIds.getD [])).map upper)
    affectedProducts := mergedItems products (nonEmpty (incoming.affectedProducts.getD [])) }

def Changes.isEmpty (ch : Changes Score) : Bool :=
  ch.cvssScore.isNone && ch.severity.isNone && ch.description.isNone && ch.published.isNone && ch.modified.isNone &&
  ch.cweIds.isNone && ch.affectedProducts.isNone

section
variable [Tracking Score]

/-- `apply_additive_cve_enrichments` between two records. -/
structure AdditiveState (Score : Type) where
  db : Store Score
  pendingInserts : List (Incoming Score)
  updated : ℕ
  processed : ℕ

def flushInserts (now : Text) (a : AdditiveState Score) : AdditiveState Score :=
  if a.pendingInserts.isEmpty then a
  else
    { a with
      db := upsertCves now a.db a.pendingInserts
      pendingInserts := []
      updated := a.updated + a.pendingInserts.length }

/-- A record is done; the batch is flushed every `commitEvery` records. -/
def processedOne (now : Text) (commitEvery : Option ℕ) (a : AdditiveState Score) : AdditiveState Score :=
  let a := { a with processed := a.processed + 1 }
  if commitEvery.any (fun n ↦ n != 0 && a.processed % n == 0) then flushInserts now a else a

def additiveStep (now : Text) (commitEvery : Option ℕ) (a : AdditiveState Score) (incoming : Incoming Score) :
    Py (AdditiveState Score) :=
  let cveId := upper incoming.cveId
  if cveId = [] then .ok a
  else
    match a.db.rows cveId with
    | none => .ok (processedOne now commitEvery { a with pendingInserts := a.pendingInserts ++ [incoming] })
    | some existing => do
      let changes ← mergeAdditiveCveFields existing incoming
      return processedOne now commitEvery
        { a with
          db := if changes.isEmpty then a.db else a.db.write cveId (.additive now changes)
          updated := if changes.isEmpty && !incoming.ssvcDecisions then a.updated else a.updated + 1 }

/-- The loop over the records, which an exception ends. -/
def additiveLoop (now : Text) (commitEvery : Option ℕ) :
    AdditiveState Score → List (Incoming Score) → AdditiveState Score
  | a, [] => flushInserts now a
  | a, incoming :: rest =>
    match additiveStep now commitEvery a incoming with
    | .ok a => additiveLoop now commitEvery a rest
    | .error _ => a

def applyAdditiveCveEnrichments (now : Text) (commitEvery : Option ℕ) (db : Store Score)
    (enrichments : List (Incoming Score)) : Store Score :=
  (additiveLoop now commitEvery ⟨db, [], 0, 0⟩ enrichments).db

def setLlmAffectedProducts (now : Text) (db : Store Score) (cveId : Text) (products : List Text) : Store Score :=
  if products.isEmpty then db else db.write (upper cveId) (.llmProducts now products)

/-- The keys of the normalized scores; a later value replaces an earlier one. -/
def normalizeScores (scores : List (Text × Feed Score)) : List (Text × Feed Score) :=
  scores.foldl (fun acc s ↦
    if upper s.1 ∈ acc.map Prod.fst then acc.map fun a ↦ if a.1 = upper s.1 then (a.1, s.2) else a
    else acc ++ [(upper s.1, s.2)]) []

/-- The history row and the statement for one score. -/
def epssUpdate (db : Store Score) (s : Text × Feed Score) : List Change × List (Text × Write Score) :=
  match db.rows s.1 with
  | none => ([], [])
  | some r =>
    if keeps r.epss s.2 then ([], [])
    else
      (if epssScoresDiffer r.epss.score (some s.2.score) then
        [⟨s.1, .epssScore, changeValueStr r.epss.score, changeValueStr (some s.2.score)⟩] else [],
      [(s.1, .epss ⟨some s.2.score, s.2.percentile⟩)])

def Store.writeAll (db : Store Score) (writes : List (Text × Write Score)) : Store Score :=
  writes.foldl (fun db w ↦ db.write w.1 w.2) db

def updateEpssScores (db : Store Score) (scores : List (Text × Feed Score)) : Store Score :=
  let normalized := normalizeScores scores
  (db.record (normalized.flatMap fun s ↦ (epssUpdate db s).1)).writeAll (normalized.flatMap fun s ↦ (epssUpdate db s).2)

/-- One chunk of `mark_cves_as_kev`. -/
def markKevChunk (db : Store Score) (chunk : List Text) : Store Score :=
  let new := chunk.dedup.filter fun c ↦ (db.rows c).any fun r ↦ !r.isKev
  (db.record (new.map fun c ↦ switchedOn c .isKev)).writeAll (chunk.map fun c ↦ (c, .kev))

def markCvesAsKev (db : Store Score) (cveIds : List Text) : Store Score :=
  (((nonEmpty cveIds).map upper).toChunks 500).foldl markKevChunk db

/-- `backfill_has_poc` and `mark_has_poc_additive`: rows without the flag get it, with history. -/
def switchPocOn (db : Store Score) (cveIds : List Text) : Store Score :=
  (db.record (cveIds.map fun c ↦ switchedOn c .hasPoc)).writeAll (cveIds.map fun c ↦ (c, .poc))

def lacksPoc (db : Store Score) (cveId : Text) : Bool := (db.rows cveId).any fun r ↦ !r.hasPoc

def markHasPocAdditive (db : Store Score) (cveIds : List Text) : Store Score :=
  switchPocOn db ((sortedSet ((nonEmpty cveIds).map upper)).filter (lacksPoc db))

/-- `scope` holds the ids that the id clause selects. -/
def backfillHasPoc (db : Store Score) (scope : List Text) : Store Score :=
  switchPocOn db (scope.dedup.filter fun c ↦ lacksPoc db c &&
    (db.rows c).any fun r ↦ Analysis.hasPublicPoc Score r.sourceUrls)

/-- `row["mitre_technique"] or extract_mitre_from_urls(urls)`. -/
def displayMitre (r : Row Score) : Option Text :=
  if r.mitreTechnique.any fun m ↦ !m.isEmpty then r.mitreTechnique else Analysis.mitreFromUrls Score r.sourceUrls

/-- The statement of `backfill_display_fields` for one row. -/
def displayUpdate (db : Store Score) (cveId : Text) : List (Text × Write Score) :=
  match db.rows cveId with
  | none => []
  | some r =>
    if r.mitreTechnique.isNone || !r.hasPoc then
      let pocFlag := r.hasPoc || Analysis.hasPublicPoc Score r.sourceUrls
      if !(displayMitre r).any (fun m ↦ !m.isEmpty) && !pocFlag then [] else [(cveId, .display (displayMitre r) pocFlag)]
    else []

def backfillDisplayFields (db : Store Score) (scope : List Text) : Store Score :=
  db.writeAll (scope.dedup.flatMap (displayUpdate db))

inductive Event (Score : Type)
  | upsert (now : Text) (cves : List (Incoming Score))
  | additive (now : Text) (commitEvery : Option ℕ) (enrichments : List (Incoming Score))
  | llm (now : Text) (cveId : Text) (products : List Text)
  | epss (scores : List (Text × Feed Score))
  | kev (cveIds : List Text)
  | poc (cveIds : List Text)
  | backfillPoc (scope : List Text)
  | backfillDisplay (scope : List Text)

def step (db : Store Score) : Event Score → Store Score
  | .upsert now cves => upsertCves now db cves
  | .additive now commitEvery enrichments => applyAdditiveCveEnrichments now commitEvery db enrichments
  | .llm now cveId products => setLlmAffectedProducts now db cveId products
  | .epss scores => updateEpssScores db scores
  | .kev cveIds => markCvesAsKev db cveIds
  | .poc cveIds => markHasPocAdditive db cveIds
  | .backfillPoc scope => backfillHasPoc db scope
  | .backfillDisplay scope => backfillDisplayFields db scope

end

section
variable [Tracking Score]

def recordsOf (cveId : Text) (cves : List (Incoming Score)) : List (Incoming Score) :=
  (validCves cves).filter fun c ↦ decide (upper c.cveId = cveId)

omit [Tracking Score] in
theorem putCves_rows (now : Text) (db : Store Score) (cves : List (Incoming Score)) (cveId : Text) :
    (putCves now db cves).rows cveId =
      (cves.filter fun c ↦ decide (upper c.cveId = cveId)).foldl (fun old c ↦ some (upsertRow now old c))
        (db.rows cveId) := by
  induction cves generalizing db with
  | nil => rfl
  | cons c cves ih =>
    rw [putCves, List.foldl_cons, ← putCves, ih]
    by_cases hc : upper c.cveId = cveId
    · rw [List.filter_cons_of_pos (by simpa using hc), List.foldl_cons]
      simp [Store.write, ← hc, Write.apply]
    · rw [List.filter_cons_of_neg (by simpa using hc)]
      simp [Store.write, Ne.symm hc]

theorem upsertCves_rows (now : Text) (db : Store Score) (cves : List (Incoming Score)) (cveId : Text) :
    (upsertCves now db cves).rows cveId =
      (recordsOf cveId cves).foldl (fun old c ↦ some (upsertRow now old c)) (db.rows cveId) :=
  putCves_rows now db (validCves cves) cveId

omit [Interp] [Dumps] [Analysis Score] in
theorem epssUpdate_cases (db : Store Score) (s : Text × Feed Score) :
    (epssUpdate db s = ([], []) ∧ ∀ r, db.rows s.1 = some r → keeps r.epss s.2 = true) ∨
    ∃ r, db.rows s.1 = some r ∧ keeps r.epss s.2 = false ∧
      epssUpdate db s = (if epssScoresDiffer r.epss.score (some s.2.score) then
        [⟨s.1, .epssScore, changeValueStr r.epss.score, changeValueStr (some s.2.score)⟩] else [],
        [(s.1, .epss ⟨some s.2.score, s.2.percentile⟩)]) := by
  rw [epssUpdate]
  cases h : db.rows s.1 with
  | none => exact .inl ⟨rfl, fun r hr ↦ by cases hr⟩
  | some r =>
    by_cases hk : keeps r.epss s.2 = true
    · exact .inl ⟨by simp [hk], fun r' hr ↦ Option.some_inj.mp hr ▸ hk⟩
    · exact .inr ⟨r, rfl, by simpa using hk, by simp [hk]⟩

omit [Interp] [Dumps] [Tracking Score] in
theorem mem_displayUpdate {db : Store Score} {cveId : Text} {w : Text × Write Score} (h : w ∈ displayUpdate db cveId) :
    ∃ mitre r, db.rows cveId = some r ∧
      w = (cveId, .display mitre (r.hasPoc || Analysis.hasPublicPoc Score r.sourceUrls)) := by
  rw [displayUpdate] at h
  split at h
  · cases h
  · rename_i r hr
    split at h
    · dsimp only at h
      split at h
      · cases h
      · exact ⟨_, r, hr, List.mem_singleton.mp h⟩
    · cases h

theorem upsertCves_induction {P : Store Score → Prop} {now : Text} {db : Store Score} {cves : List (Incoming Score)}
    (hdb : P db) (hw : ∀ db cve, cve ∈ cves → P db → P (db.write (upper cve.cveId) (.upsert now cve)))
    (hr : ∀ db changes, P db → P (Store.record db changes)) : P (upsertCves now db cves) := by
  apply hr
  have hsub : ∀ c ∈ validCves cves, c ∈ cves := fun c hc ↦ (List.mem_filter.mp hc).1
  revert hsub
  generalize validCves cves = valid
  induction valid generalizing db with
  | nil => exact fun _ ↦ hdb
  | cons c valid ih =>
    intro hsub
    exact ih (hw db c (hsub c (.head _)) hdb) fun c hc ↦ hsub c (.tail _ hc)

/-- The step skips a record without an id, sets one aside for an insert, or updates a row. -/
theorem additiveStep_cases {now : Text} {commitEvery : Option ℕ} {a b : AdditiveState Score} {incoming : Incoming Score}
    (h : additiveStep now commitEvery a incoming = .ok b) :
    b = a ∨
    a.db.rows (upper incoming.cveId) = none ∧
      b = processedOne now commitEvery { a with pendingInserts := a.pendingInserts ++ [incoming] } ∨
    ∃ existing changes updated, a.db.rows (upper incoming.cveId) = some existing ∧
      mergeAdditiveCveFields existing incoming = .ok changes ∧
      b = processedOne now commitEvery { a with
        db := if changes.isEmpty then a.db else a.db.write (upper incoming.cveId) (.additive now changes)
        updated } := by
  rw [additiveStep] at h
  split at h
  · exact .inl (Except.ok.inj h).symm
  · split at h
    · exact .inr (.inl ⟨by assumption, (Except.ok.inj h).symm⟩)
    · obtain ⟨changes, hm, hb⟩ := bind_eq_ok.mp h
      exact .inr (.inr ⟨_, changes, _, by assumption, hm, (Except.ok.inj hb).symm⟩)

section
variable {P : Store Score → Prop} {now : Text} {commitEvery : Option ℕ} {all : List (Incoming Score)}
  (hup : ∀ db batch, (∀ c ∈ batch, c ∈ all) → P db → P (upsertCves now db batch))
include hup

theorem flushInserts_induction {a : AdditiveState Score} (ha : P a.db) (hp : ∀ c ∈ a.pendingInserts, c ∈ all) :
    P (flushInserts now a).db ∧ ∀ c ∈ (flushInserts now a).pendingInserts, c ∈ all := by
  rw [flushInserts]
  split
  · exact ⟨ha, hp⟩
  · exact ⟨hup _ _ hp ha, by simp⟩

theorem processedOne_induction {a : AdditiveState Score} (ha : P a.db) (hp : ∀ c ∈ a.pendingInserts, c ∈ all) :
    P (processedOne now commitEvery a).db ∧ ∀ c ∈ (processedOne now commitEvery a).pendingInserts, c ∈ all := by
  rw [processedOne]
  dsimp only
  split
  · exact flushInserts_induction hup (a := { a with processed := a.processed + 1 }) ha hp
  · exact ⟨ha, hp⟩

theorem additiveLoop_induction {enrichments : List (Incoming Score)} {a : AdditiveState Score} (hdb : P a.db)
    (hp : ∀ c ∈ a.pendingInserts, c ∈ all) (hsub : ∀ c ∈ enrichments, c ∈ all)
    (hadd : ∀ db cve existing changes, cve ∈ all → P db → db.rows (upper cve.cveId) = some existing →
      mergeAdditiveCveFields existing cve = .ok changes → P (db.write (upper cve.cveId) (.additive now changes))) :
    P (additiveLoop now commitEvery a enrichments).db := by
  induction enrichments generalizing a with
  | nil => exact (flushInserts_induction hup hdb hp).1
  | cons incoming rest ih =>
    have hin : incoming ∈ all := hsub incoming (.head _)
    have hrest : ∀ c ∈ rest, c ∈ all := fun c hc ↦ hsub c (.tail _ hc)
    rw [additiveLoop]
    cases hs : additiveStep now commitEvery a incoming with
    | error e => exact hdb
    | ok b =>
      rcases additiveStep_cases hs with rfl | ⟨-, rfl⟩ | ⟨existing, changes, updated, he, hm, rfl⟩
      · exact ih hdb hp hrest
      · have hp' : ∀ c ∈ a.pendingInserts ++ [incoming], c ∈ all := by
          intro c hc
          rcases List.mem_append.mp hc with hc | hc
          · exact hp c hc
          · exact List.mem_singleton.mp hc ▸ hin
        obtain ⟨h, hp⟩ := processedOne_induction hup
          (a := { a with pendingInserts := a.pendingInserts ++ [incoming] }) hdb hp'
        exact ih h hp hrest
      · have hdb' : P (if changes.isEmpty then a.db else a.db.write (upper incoming.cveId) (.additive now changes)) := by
          split
          · exact hdb
          · exact hadd a.db incoming existing changes hin hdb he hm
        obtain ⟨h, hp⟩ := processedOne_induction hup (a := ⟨_, a.pendingInserts, updated, a.processed⟩) hdb' hp
        exact ih h hp hrest

theorem applyAdditive_induction {enrichments : List (Incoming Score)} {db : Store Score} (hdb : P db)
    (hsub : ∀ c ∈ enrichments, c ∈ all)
    (hadd : ∀ db cve existing changes, cve ∈ all → P db → db.rows (upper cve.cveId) = some existing →
      mergeAdditiveCveFields existing cve = .ok changes → P (db.write (upper cve.cveId) (.additive now changes))) :
    P (applyAdditiveCveEnrichments now commitEvery db enrichments) :=
  additiveLoop_induction hup (a := ⟨db, [], 0, 0⟩) hdb (by simp) hsub hadd

end

end

end

section
/-- `json.loads` of what the columns of a run hold. -/
def readJson (s : Text) : Option Value :=
  if s = "null".toList then some .none
  else (Library.JsonStrings.read s).map fun l ↦ .list (l.map .str)

/-- The strings of a list, if it is a list of strings. -/
def strings : List Value → Option (List Text)
  | [] => some []
  | .str s :: l => (strings l).map (s :: ·)
  | _ => none

def printJson : Value → Text
  | .none => "null".toList
  | .list l => ((strings l).map Library.JsonStrings.print).getD "[0]".toList
  | _ => "0".toList

theorem strings_map (l : List Text) : strings (l.map .str) = some l := by
  induction l with
  | nil => rfl
  | cons s l ih => rw [List.map_cons, strings, ih, Option.map_some]

theorem strings_eq_nil {l : List Value} (h : strings l = some []) : l = [] := by
  cases l with
  | nil => rfl
  | cons v l => cases v <;> simp [strings] at h

theorem print_cons (s : Text) (l : List Text) :
    ∃ rest, Library.JsonStrings.print (s :: l) = '[' :: '"' :: rest := ⟨_, rfl⟩

theorem printJson_blank {v : Value} (h : printJson v = [] ∨ printJson v = "[]".toList) : v = .list [] := by
  cases v with
  | list l =>
    rw [printJson] at h
    cases hl : strings l with
    | none =>
      rw [hl] at h
      exact absurd h (by decide)
    | some m =>
      rw [hl, Option.map_some, Option.getD_some] at h
      cases m with
      | nil => rw [strings_eq_nil hl]
      | cons s m =>
        obtain ⟨rest, hr⟩ := print_cons s m
        rw [hr] at h
        simp at h
  | none => exact absurd h (by decide)
  | _ => exact absurd h (by simp [printJson])

theorem readJson_print (l : List Text) : readJson (Library.JsonStrings.print l) = some (.list (l.map .str)) := by
  have hn : Library.JsonStrings.print l ≠ "null".toList := by
    cases l with
    | nil => decide
    | cons s l =>
      obtain ⟨rest, hr⟩ := print_cons s l
      rw [hr]
      simp
  rw [readJson, if_neg hn, Library.JsonStrings.read_print, Option.map_some]

/-- ASCII text with lists of strings as JSON, for runs on concrete inputs. -/
@[reducible] def asciiJson : Interp := ascii readJson

@[reducible] def asciiDumps : @Dumps asciiJson :=
  letI := asciiJson
  { dumps := printJson
    dumps_nil := rfl
    dumps_blank := fun _ h ↦ printJson_blank h
    loads_strs := by
      intro l
      change readJson (printJson _) = _
      rw [printJson, strings_map]
      exact readJson_print l
    loads_none := rfl }

/-- `f"{x:.6f}".rstrip("0").rstrip(".")` of a number of millionths. -/
def millionths (x : ℕ) : Text :=
  ((Nat.toDigits 10 (x / 10 ^ 6) ++ '.' :: (Nat.toDigits 10 (10 ^ 6 + x % 10 ^ 6)).drop 1).rdropWhile
    (· == '0')).rdropWhile (· == '.')

/-- Scores that are whole numbers of millionths, shown in tenths of a percent. -/
@[reducible] def micro : Tracking ℕ where
  nearZero x := x == 0
  percent x := (x + 499 + x / 1000 % 2) / 1000
  zero := 0
  same x y := x == y
  farApart x y := x != y
  fixed6 := millionths
  farApart_self x := by simp
  same_iff x y := beq_iff_eq

example : [50000, 7500000, 1].map millionths = ["0.05".toList, "7.5".toList, "0.000001".toList] := by decide

@[reducible] def plainAnalysis : Analysis ℕ where
  hasAiContext _ := false
  hasPublicPoc _ := false
  mitreFromUrls _ := none

/-- A record with a CVSS score, CWE ids and products, and defaults elsewhere. -/
def nvdRecord (cveId : String) (cvssScore : Option ℕ) (cweIds affectedProducts : List String) : Incoming ℕ where
  cveId := cveId.toList
  description := some []
  cvssScore := cvssScore
  severity := some unknown
  published := some []
  modified := some []
  affectedProducts := some (affectedProducts.map String.toList)
  cpeMatches := none
  mitreTechnique := none
  summary := none
  isKev := false
  epssScore := none
  hasPoc := false
  patchAvailable := false
  sourceUrls := some []
  cweIds := some (cweIds.map String.toList)
  ssvcDecisions := false

end

end Briefr.Db.Cve
