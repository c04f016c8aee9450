import Briefr.Python.Value
import Briefr.Library.Batches
import Briefr.Library.StableSort
import Briefr.Library.UniqueIndex
import Mathlib.Data.Prod.Lex
import Mathlib.Data.List.Lex

namespace Briefr.Embeddings

open Briefr.Python Briefr.Library Briefr.Library.StableSort

structure Blob where
  dims : ℕ
  bytes : List UInt8
  deriving DecidableEq

/-- `hashlib.sha256(…).hexdigest()` and the model, which gives one vector for each text. -/
class Embedder where
  sha256 : Text → Text
  embed : Text → Text → Blob
  sha256_hex : ∀ t, sha256 t ≠ [] ∧ ∀ c ∈ sha256 t, c ∈ "0123456789abcdef".toList

export Embedder (sha256 embed sha256_hex)

structure Cve where
  cveId : Text
  description : Option Text
  summary : Option Text
  affectedProducts : Option Text
  cweIds : Option Text
  published : Option Text
  deriving DecidableEq

/-- A row of `embeddings`. -/
structure Embedding where
  entityType : Text
  entityId : Text
  model : Text
  blob : Blob
  contentHash : Text
  updatedAt : Option Text
  deriving DecidableEq

def Embedding.key (e : Embedding) : Text × Text × Text := (e.entityType, e.entityId, e.model)

structure Store [Interp] where
  cves : List Cve
  embeddings : List Embedding
  ids : (cves.map Cve.cveId).Nodup
  /-- `upsert_cves` writes ids in upper case. -/
  upperIds : ∀ c ∈ cves, upper c.cveId = c.cveId
  keys : (embeddings.map Embedding.key).Nodup

def embedTextMaxChars : ℕ := 2000

def isPlaceholderContentHash (contentHash : Text) : Bool := "migrated:".toList.isPrefixOf contentHash

/-- `content_hash LIKE 'migrated:%'`, which SQLite matches in any case. -/
def likeMigrated (contentHash : Text) : Bool := "migrated:".toList.isPrefixOf (contentHash.map Char.toLower)

section

variable [Interp]

def joinJsonList (raw : Option Text) : Text :=
  match raw with
  | none => []
  | some raw =>
    let text := strip raw
    if text = [] ∨ text = "[]".toList ∨ text = "null".toList ∨ text = "None".toList then []
    else if "[".toList.isPrefixOf text then
      match loads text with
      | some (.list parsed) => [' '].intercalate ((parsed.map fun x ↦ strip (str x)).filter (· ≠ []))
      | _ => text
    else text

/-- The parts of the text of a CVE that are not blank. -/
def embedParts (c : Cve) : List Text :=
  [strip (c.description.getD []), strip (c.summary.getD []), joinJsonList c.affectedProducts, joinJsonList c.cweIds].filter (· ≠ [])

def buildCveEmbedText (c : Cve) : Text := (['\n'].intercalate (embedParts c)).take embedTextMaxChars

/-- A row of either query: the CVE and the `existing_hash`. -/
abbrev FetchedRow := Cve × Option Text

structure Pending where
  cveId : Text
  description : Text
  embedText : Text
  contentHash : Text
  existingHash : Option Text

def Store.embeddingOf (st : Store) (model : Text) (c : Cve) : Option Embedding :=
  st.embeddings.find? fun e ↦ e.key = ("cve".toList, c.cveId, model)

/-- `description IS NOT NULL AND description != ''`. -/
def Cve.described (c : Cve) : Bool := c.description.any (· ≠ [])

def needsEmbedding (st : Store) (model : Text) (c : Cve) : Bool :=
  c.described && (st.embeddingOf model c).all fun e ↦ likeMigrated e.contentHash

/-- `ORDER BY c.published DESC`; NULL is the smallest value. -/
def publishedKey (c : Cve) : (Bool ×ₗ Text)ᵒᵈ := OrderDual.toDual (toLex (c.published.isSome, c.published.getD []))

/-- All rows of the first query, without its limit. -/
def newest (st : Store) (model : Text) : List Cve := sortBy publishedKey (st.cves.filter (needsEmbedding st model))

def cvesNeedingEmbeddings (st : Store) (model : Text) (limit : ℕ) : List FetchedRow :=
  ((newest st model).take limit).map fun c ↦ (c, (st.embeddingOf model c).map Embedding.contentHash)

/-- What the second query makes of a row of `embeddings`. -/
def resyncRow (cves : List Cve) (model : Text) (e : Embedding) : Option (Embedding × Cve) :=
  if e.entityType = "cve".toList ∧ e.model = model ∧ likeMigrated e.contentHash = false then
    ((cves.find? fun c ↦ c.cveId = e.entityId).filter Cve.described).map fun c ↦ (e, c)
  else none

def resyncable (st : Store) (model : Text) : List (Embedding × Cve) := st.embeddings.filterMap (resyncRow st.cves model)

/-- `ORDER BY e.updated_at ASC`. -/
def updatedKey (p : Embedding × Cve) : Bool ×ₗ Text := toLex (p.1.updatedAt.isSome, p.1.updatedAt.getD [])

/-- All rows of the second query, without its limit. -/
def oldest (st : Store) (model : Text) : List (Embedding × Cve) := sortBy updatedKey (resyncable st model)

def cvesForHashResync (st : Store) (model : Text) (limit : ℕ) : List FetchedRow :=
  ((oldest st model).take limit).map fun p ↦ (p.2, some p.1.contentHash)

variable [Embedder]

def contentHashForEmbedText (text model : Text) : Text := sha256 (strip text ++ '\n' :: model)

def rowToPending (model : Text) (row : FetchedRow) : Option Pending :=
  let text := buildCveEmbedText row.1
  if strip text = [] then none
  else
    let newHash := contentHashForEmbedText text model
    if row.2.any fun existing ↦ existing ≠ [] ∧ isPlaceholderContentHash existing = false ∧ existing = newHash then none
    else some ⟨row.1.cveId, row.1.description.getD [], text, newHash, row.2⟩

/-- Either loop of `get_cves_needing_embeddings`; `seen` are the ids of `out`. -/
def collect (model : Text) (capped : ℕ) : List FetchedRow → List Pending → List Pending
  | [], out => out
  | row :: rows, out =>
    match rowToPending model row with
    | none => collect model capped rows out
    | some item =>
      if item.cveId ∈ out.map Pending.cveId then collect model capped rows out
      else if capped ≤ (out ++ [item]).length then out ++ [item]
      else collect model capped rows (out ++ [item])

/-- How far the second query looks. -/
def scanLimit (remaining : ℕ) : ℕ := min (max (remaining * 8) remaining) 2000

def getCvesNeedingEmbeddings (st : Store) (model : Text) (limit : ℕ) : List Pending :=
  let capped := max 1 limit
  let out := collect model capped (cvesNeedingEmbeddings st model capped) []
  let remaining := capped - out.length
  if remaining = 0 then out else collect model capped (cvesForHashResync st model (scanLimit remaining)) out

def upsertEmbeddingRow (st : Store) (e : Embedding) : Store where
  cves := st.cves
  embeddings := UniqueIndex.upsert Embedding.key st.embeddings e
  ids := st.ids
  upperIds := st.upperIds
  keys := UniqueIndex.nodup_upsert st.keys

def upsertCveEmbeddingRow (st : Store) (cveId model : Text) (blob : Blob) (contentHash now : Text) : Store :=
  upsertEmbeddingRow st ⟨"cve", upper cveId, model, blob, contentHash, some now⟩

def embedBatchSize : ℕ := 64

/-- A batch of the loop; `now` is `utcnow_str()` at the write of each CVE. -/
def embedBatch (model : Text) (writePgvector : Bool) (now : Text → Text) (st : Store) (batch : List Pending) : Store :=
  let vectors := batch.map fun item ↦ embed model item.embedText
  (batch.zip vectors).foldl (fun st p ↦
    if writePgvector then upsertCveEmbeddingRow st p.1.cveId model p.2 p.1.contentHash (now p.1.cveId) else st) st

/-- `run_embeddings_backfill` without a filter: how many CVEs it embeds, and the database after it. -/
def runEmbeddingsBackfill (model : Text) (cap : ℕ) (writePgvector : Bool) (now : Text → Text) (st : Store) : ℕ × Store :=
  let pending := (getCvesNeedingEmbeddings st model (cap * 4)).take cap
  (pending.length, (batches embedBatchSize pending).foldl (embedBatch model writePgvector now) st)

end

end Briefr.Embeddings
