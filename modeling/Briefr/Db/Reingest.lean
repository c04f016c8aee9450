import Briefr.Db.Cve

namespace Briefr.Db.Reingest

open Briefr.Python Briefr.Library.Runs Briefr.Db.Cve

/-- The columns that both NVD and the enrichments supply. -/
inductive Column
  | cvssScore
  | cweIds
  | affectedProducts

section
variable {Score : Type} [Interp] [Dumps] [Analysis Score] [Tracking Score]

/-- The column holds a list that is not empty. -/
def listed (column : Option Text) : Bool :=
  match column.bind loads with
  | some (.list (_ :: _)) => true
  | _ => false

def Column.stored (r : Row Score) : Column → Bool
  | cvssScore => r.cvssScore.isSome
  | cweIds => listed r.cweIds
  | affectedProducts => listed r.affectedProducts

/-- The record has a value for the column. -/
def Column.supplied (c : Incoming Score) : Column → Bool
  | cvssScore => c.cvssScore.isSome
  | cweIds => !(c.cweIds.getD []).isEmpty
  | affectedProducts => !(c.affectedProducts.getD []).isEmpty

/-- The records for one CVE that an event brings. -/
def records (cveId : Text) : Event Score → List (Incoming Score)
  | .upsert _ cves => recordsOf cveId cves
  | .additive _ _ enrichments => enrichments.filter fun c ↦ decide (upper c.cveId = cveId)
  | _ => []

def Supplies (col : Column) (cveId : Text) (e : Event Score) : Prop := ∃ c ∈ records cveId e, col.supplied c = true

/-- An NVD upsert of the CVE without a value for the column. -/
def SuppliesNone (col : Column) (cveId : Text) (cves : List (Incoming Score)) : Prop :=
  recordsOf cveId cves ≠ [] ∧ ∀ c ∈ recordsOf cveId cves, col.supplied c = false

/-- An NVD upsert without a value for a column, after some event supplied one. -/
structure Bare (events : List (Event Score)) (cveId : Text) (before : List (Event Score)) (now : Text)
    (cves : List (Incoming Score)) (col : Column) : Prop where
  at_upsert : ∃ after, events = before ++ .upsert now cves :: after
  none : SuppliesNone col cveId cves
  earlier : ∃ e ∈ before, Supplies col cveId e

/-- No NVD upsert loses what some event supplied. -/
def Kept (db : Store Score) (events : List (Event Score)) (cveId : Text) : Prop :=
  ∀ before now cves col, Bare events cveId before now cves col →
    ∃ r, (run step db (before ++ [.upsert now cves])).rows cveId = some r ∧ col.stored r = true

theorem listed_dumpStrs {l : Option (List Text)} (h : (l.getD []).isEmpty = true) : listed (some (dumpStrs l)) = false := by
  cases l with
  | none => rw [dumpStrs, listed, Option.bind_some, Dumps.loads_none]
  | some l =>
    obtain rfl : l = [] := by simpa using h
    rw [dumpStrs, listed, Option.bind_some, Dumps.loads_strs]
    rfl

omit [Tracking Score] in
@[simp] theorem upsertRow_cvssScore (now : Text) (old : Option (Row Score)) (c : Incoming Score) :
    (upsertRow now old c).cvssScore = c.cvssScore := by
  cases old <;> rfl

omit [Tracking Score] in
@[simp] theorem upsertRow_cweIds (now : Text) (old : Option (Row Score)) (c : Incoming Score) :
    (upsertRow now old c).cweIds = some (dumpStrs c.cweIds) := by
  cases old <;> rfl

/-- The row that a batch leaves is what its last record makes of it. -/
theorem upsert_rows_last (now : Text) (db : Store Score) {cves : List (Incoming Score)} {cveId : Text}
    (h : recordsOf cveId cves ≠ []) :
    ∃ init c, recordsOf cveId cves = init ++ [c] ∧
      (upsertCves now db cves).rows cveId =
        some (upsertRow now (init.foldl (fun old c ↦ some (upsertRow now old c)) (db.rows cveId)) c) := by
  obtain ⟨init, c, hi⟩ := (recordsOf cveId cves).eq_nil_or_concat'.resolve_left h
  refine ⟨init, c, hi, ?_⟩
  rw [upsertCves_rows, hi, List.foldl_append]
  rfl

/-- A row with a list of products from the LLM. -/
def LlmListed (old : Option (Row Score)) : Prop :=
  ∃ r, old = some r ∧ r.affectedProductsSource = some llm ∧ listed r.affectedProducts = true

omit [Tracking Score] in
/-- A record without products leaves a list exactly where it leaves the LLM's. -/
theorem listed_upsertRow {now : Text} {old : Option (Row Score)} {c : Incoming Score}
    (hc : (c.affectedProducts.getD []).isEmpty = true) :
    listed (upsertRow now old c).affectedProducts = true ↔ c.affectedProducts = some [] ∧ LlmListed old := by
  constructor
  · intro h
    by_cases hs : (upsertRow now old c).affectedProductsSource = some llm
    · obtain ⟨r, rfl, hr, he⟩ := upsertRow_source_eq_llm.mp hs
      rw [upsertRow_products_kept hs] at h
      exact ⟨he, r, rfl, hr, h⟩
    · rw [upsertRow_products_replaced hs, listed_dumpStrs hc] at h
      cases h
  · intro ⟨he, r, hr, hs, hl⟩
    subst hr
    rwa [upsertRow_products_kept (upsertRow_source_eq_llm.mpr ⟨r, rfl, hs, he⟩)]

omit [Tracking Score] in
theorem listed_foldl {now : Text} {old : Option (Row Score)} {l : List (Incoming Score)} {c : Incoming Score}
    (h : ∀ c' ∈ l ++ [c], (c'.affectedProducts.getD []).isEmpty = true) :
    listed (upsertRow now (l.foldl (fun old c ↦ some (upsertRow now old c)) old) c).affectedProducts = true ↔
      (∀ c' ∈ l ++ [c], c'.affectedProducts = some []) ∧ LlmListed old := by
  induction l generalizing old with
  | nil =>
    rw [List.foldl_nil, listed_upsertRow (h c (by simp))]
    simp
  | cons b l ih =>
    have hb : LlmListed (some (upsertRow now old b)) ↔ b.affectedProducts = some [] ∧ LlmListed old := by
      rw [← listed_upsertRow (h b (by simp))]
      constructor
      · intro ⟨r, hr, _, hl⟩
        exact Option.some_inj.mp hr ▸ hl
      · intro hl
        obtain ⟨he, r, hr, hs, -⟩ := (listed_upsertRow (h b (by simp))).mp hl
        exact ⟨_, rfl, upsertRow_source_eq_llm.mpr ⟨r, hr, hs, he⟩, hl⟩
    have hl : ∀ c' ∈ l ++ [c], (c'.affectedProducts.getD []).isEmpty = true := fun c' hc' ↦ h c' (.tail _ hc')
    rw [List.foldl_cons, ih hl, hb, List.cons_append, List.forall_mem_cons]
    tauto

/-- An NVD upsert without a value leaves one only in the products of an LLM-labelled row. -/
theorem stored_after_none {db : Store Score} {now : Text} {cves : List (Incoming Score)} {cveId : Text} {col : Column}
    (h : SuppliesNone col cveId cves) :
    (∃ r, (upsertCves now db cves).rows cveId = some r ∧ col.stored r = true) ↔
      col = .affectedProducts ∧ LlmListed (db.rows cveId) ∧
        ∀ c ∈ recordsOf cveId cves, c.affectedProducts = some [] := by
  obtain ⟨hne, hn⟩ := h
  obtain ⟨init, c, hi, hr⟩ := upsert_rows_last now db hne
  have hc := hn c (by simp [hi])
  rw [hr]
  simp only [Option.some_inj, exists_eq_left']
  cases col with
  | cvssScore =>
    have hc : c.cvssScore.isSome = false := hc
    simp [Column.stored, hc]
  | cweIds =>
    have hc : (c.cweIds.getD []).isEmpty = true := by simpa [Column.supplied] using hc
    simp [Column.stored, listed_dumpStrs hc]
  | affectedProducts =>
    have hall : ∀ c' ∈ init ++ [c], (c'.affectedProducts.getD []).isEmpty = true := by
      intro c' hc'
      simpa [Column.supplied] using hn c' (hi ▸ hc')
    simp only [Column.stored, listed_foldl hall, hi, true_and]
    tauto

/-- Enrichment survives NVD exactly when no NVD upsert comes without a value that was supplied before,
but for empty product lists on rows that the LLM labelled. -/
theorem kept_iff (db : Store Score) (events : List (Event Score)) (cveId : Text) :
    Kept db events cveId ↔
      ∀ before now cves col, Bare events cveId before now cves col →
        col = .affectedProducts ∧ LlmListed ((run step db before).rows cveId) ∧
          ∀ c ∈ recordsOf cveId cves, c.affectedProducts = some [] := by
  have hstep : ∀ before now cves, run step db (before ++ [.upsert now cves]) =
      upsertCves now (run step db before) cves := by
    intro before now cves
    rw [run_append]
    rfl
  apply forall_congr'
  intro before
  apply forall_congr'
  intro now
  apply forall_congr'
  intro cves
  apply forall_congr'
  intro col
  apply forall_congr'
  intro hb
  rw [hstep, stored_after_none hb.none]

end

section
local instance : Interp := asciiJson

local instance : Dumps := asciiDumps

local instance : Analysis ℕ := plainAnalysis

local instance : Tracking ℕ := micro

/-- NVD delivers a CVE without a score, vulnrichment adds one, NVD delivers it again. -/
def reingest : List (Event ℕ) :=
  [.upsert [] [nvdRecord "CVE-2026-1" none [] []],
    .additive [] none [nvdRecord "CVE-2026-1" (some 7500000) ["CWE-79"] ["acme:web"]],
    .upsert [] [nvdRecord "CVE-2026-1" none [] []]]

theorem score_lost : ¬Kept Store.empty reingest "CVE-2026-1".toList := by
  intro h
  have hb : Bare reingest "CVE-2026-1".toList (reingest.take 2) [] [nvdRecord "CVE-2026-1" none [] []] .cvssScore := by
    refine ⟨⟨[], rfl⟩, ⟨by decide, ?_⟩, ⟨_, .tail _ (.head _), _, .head _, rfl⟩⟩
    intro c hc
    obtain rfl := List.mem_singleton.mp hc
    rfl
  obtain ⟨r, hr, hs⟩ := h _ _ _ _ hb
  obtain rfl : insertRow [] (nvdRecord "CVE-2026-1" none [] []) = r := Option.some_inj.mp hr
  cases hs

end

end Briefr.Db.Reingest
