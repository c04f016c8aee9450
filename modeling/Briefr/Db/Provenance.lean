import Briefr.Db.Cve

namespace Briefr.Db.Provenance

open Briefr.Python Briefr.Library.Runs Briefr.Db.Cve Briefr.Feeds.CveRecordV5

section
variable {Score : Type} [Interp] [Dumps] [Analysis Score]

def asString : Value → Option Text
  | .str s => some s
  | _ => none

def productList (column : Option Text) : List Text :=
  match column.bind loads with
  | some (.list l) => l.filterMap asString
  | _ => []

/-- The products in the row that the LLM extraction wrote, after one more statement. -/
def llmWritten (old : Option (Row Score)) (written : List Text) : Write Score → List Text
  | .upsert now cve => if old.any fun r ↦ keepsLlm r (insertRow now cve) then written else []
  | .llmProducts _ products => if old.any fun r ↦ blank r.affectedProducts then products else written
  | _ => written

def provStep (s : Option (Row Score) × List Text) (w : Write Score) : Option (Row Score) × List Text :=
  (w.apply s.1, llmWritten s.1 s.2 w)

/-- The row of a CVE and the products in it that the LLM wrote, from the statements so far. -/
def provenance (log : List (Text × Write Score)) (cveId : Text) : Option (Row Score) × List Text :=
  ((log.filter fun e ↦ decide (e.1 = cveId)).map Prod.snd).foldl provStep (none, [])

def Labelled (old : Option (Row Score)) : Prop := ∃ r, old = some r ∧ r.affectedProductsSource = some llm

/-- The label says that the LLM wrote every product of the row. -/
def LabelFits (db : Store Score) (cveId : Text) : Prop :=
  Labelled (db.rows cveId) ↔
    productList ((db.rows cveId).bind Row.affectedProducts) ≠ [] ∧
      ∀ p ∈ productList ((db.rows cveId).bind Row.affectedProducts), p ∈ (provenance db.log cveId).2

/-- What the statements keep for one CVE. -/
structure Fits (old : Option (Row Score)) (written : List Text) : Prop where
  llm : Labelled old → productList (old.bind Row.affectedProducts) ≠ [] ∧
    ∀ p ∈ productList (old.bind Row.affectedProducts), p ∈ written
  other : ¬Labelled old → written = []

/-- An additive statement does not write products to an LLM row, and the LLM writes some. -/
def Clean (old : Option (Row Score)) : Write Score → Prop
  | .additive _ changes => Labelled old → changes.affectedProducts = none
  | .llmProducts _ products => products ≠ []
  | _ => True

theorem productList_dumpStrs (l : List Text) : productList (some (dumpStrs (some l))) = l := by
  rw [productList, Option.bind_some, dumpStrs, Dumps.loads_strs]
  induction l with
  | nil => rfl
  | cons p l ih => simpa [asString] using ih

omit [Dumps] [Analysis Score] in
/-- A statement that leaves the products and their label alone. -/
theorem Fits.map {old : Option (Row Score)} {written : List Text} {f : Row Score → Row Score} (h : Fits old written)
    (hs : ∀ r, old = some r → (f r).affectedProductsSource = r.affectedProductsSource)
    (hp : ∀ r, old = some r → (f r).affectedProducts = r.affectedProducts) : Fits (old.map f) written := by
  cases old with
  | none => exact h
  | some r =>
    have hl : Labelled (some (f r)) ↔ Labelled (some r) := by
      simp only [Labelled, Option.some_inj, exists_eq_left', hs r rfl]
    constructor
    · intro hf
      have h := h.llm (hl.mp hf)
      simpa only [Option.map_some, Option.bind_some, hp r rfl] using h
    · exact fun hn ↦ h.other fun hr ↦ hn (hl.mpr hr)

theorem Fits.upsert {old : Option (Row Score)} {written : List Text} (h : Fits old written) (now : Text)
    (cve : Incoming Score) :
    Fits (some (upsertRow now old cve)) (llmWritten old written (.upsert now cve)) := by
  have hl : Labelled (some (upsertRow now old cve)) ↔ old.any (fun r ↦ keepsLlm r (insertRow now cve)) = true := by
    simp only [Labelled, Option.some_inj, exists_eq_left', upsertRow_source_eq_llm, Option.any_eq_true,
      keepsLlm_insertRow]
  constructor
  · intro hs
    rw [llmWritten, if_pos (hl.mp hs)]
    obtain ⟨r, hr, hk⟩ := (Option.any_eq_true _ _).mp (hl.mp hs)
    subst hr
    obtain ⟨_, hu, hs⟩ := hs
    obtain rfl := Option.some_inj.mp hu
    rw [Option.bind_some, upsertRow_products_kept hs]
    exact h.llm ⟨r, rfl, (keepsLlm_insertRow.mp hk).1⟩
  · intro hn
    rw [llmWritten, if_neg fun h ↦ hn (hl.mpr h)]

theorem Fits.llmProducts {old : Option (Row Score)} {written products : List Text} (h : Fits old written) (now : Text)
    (hp : products ≠ []) :
    Fits (old.map (llmRow now products)) (llmWritten old written (.llmProducts now products)) := by
  by_cases hb : old.any (fun r ↦ blank r.affectedProducts) = true
  · rw [llmWritten, if_pos hb]
    obtain ⟨r, rfl, hr⟩ := (Option.any_eq_true _ _).mp hb
    have hl : productList ((Option.map (llmRow now products) (some r)).bind Row.affectedProducts) = products := by
      simp only [Option.map_some, Option.bind_some, llmRow, hr, if_true, productList_dumpStrs]
    constructor
    · intro _
      rw [hl]
      exact ⟨hp, fun _ hq ↦ hq⟩
    · intro hn
      exact absurd ⟨_, rfl, by simp [llmRow, hr]⟩ hn
  · rw [llmWritten, if_neg hb]
    have hr : ∀ r, old = some r → llmRow now products r = r := by
      intro r hr
      subst hr
      exact if_neg hb
    exact h.map (fun r hr' ↦ by rw [hr r hr']) (fun r hr' ↦ by rw [hr r hr'])

omit [Analysis Score] in
theorem Fits.additive {old : Option (Row Score)} {written : List Text} {changes : Changes Score} (h : Fits old written)
    (now : Text) (hc : Labelled old → changes.affectedProducts = none) :
    Fits (old.map (additiveRow now changes)) written := by
  by_cases hl : Labelled old
  · exact h.map (fun _ _ ↦ rfl) (fun r _ ↦ by simp [additiveRow, hc hl])
  · have hn : ¬Labelled (old.map (additiveRow now changes)) := by
      intro ⟨r, hr, hs⟩
      obtain ⟨r', rfl, rfl⟩ := Option.map_eq_some_iff.mp hr
      exact hl ⟨r', rfl, hs⟩
    exact ⟨fun h ↦ absurd h hn, fun _ ↦ h.other hl⟩

theorem Fits.apply {old : Option (Row Score)} {written : List Text} {w : Write Score} (h : Fits old written)
    (hw : Clean old w) : Fits (w.apply old) (llmWritten old written w) := by
  cases w with
  | upsert now cve => exact h.upsert now cve
  | additive now changes => exact h.additive now hw
  | llmProducts now products => exact h.llmProducts now hw
  | epss e => exact h.map (fun _ _ ↦ rfl) fun _ _ ↦ rfl
  | kev => exact h.map (fun _ _ ↦ rfl) fun _ _ ↦ rfl
  | poc => exact h.map (fun _ _ ↦ rfl) fun _ _ ↦ rfl
  | display mitre pocFlag => exact h.map (fun _ _ ↦ rfl) fun _ _ ↦ rfl

/-- The log explains the rows, and the labels fit. -/
def Sound (db : Store Score) : Prop :=
  ∀ cveId, (provenance db.log cveId).1 = db.rows cveId ∧ Fits (db.rows cveId) (provenance db.log cveId).2

theorem provenance_write (db : Store Score) (cveId : Text) (w : Write Score) (key : Text) :
    provenance (db.write cveId w).log key =
      if cveId = key then provStep (provenance db.log key) w else provenance db.log key := by
  simp only [provenance, Store.write, List.filter_append, List.map_append, List.foldl_append]
  by_cases h : cveId = key
  · simp [h]
  · simp [h]

theorem Sound.write {db : Store Score} (h : Sound db) {cveId : Text} {w : Write Score}
    (hw : Clean (db.rows cveId) w) : Sound (db.write cveId w) := by
  intro key
  obtain ⟨hr, hf⟩ := h key
  rw [provenance_write]
  by_cases hk : cveId = key
  · subst hk
    rw [if_pos rfl, provStep, hr]
    have hrow : (db.write cveId w).rows cveId = w.apply (db.rows cveId) := by simp [Store.write]
    rw [hrow]
    exact ⟨rfl, hf.apply hw⟩
  · have hrow : (db.write cveId w).rows key = db.rows key := by simp [Store.write, Ne.symm hk]
    rw [if_neg hk, hrow]
    exact ⟨hr, hf⟩

theorem Sound.labelFits {db : Store Score} (h : Sound db) (cveId : Text) : LabelFits db cveId := by
  obtain ⟨-, hf⟩ := h cveId
  constructor
  · exact hf.llm
  · intro ⟨hne, hall⟩
    by_contra hn
    obtain ⟨p, hp⟩ := List.exists_mem_of_ne_nil _ hne
    have hp := hall p hp
    rw [hf.other hn] at hp
    cases hp

theorem Sound.writeAll {db : Store Score} (h : Sound db) {writes : List (Text × Write Score)}
    (hw : ∀ w ∈ writes, ∀ old : Option (Row Score), Clean old w.2) : Sound (db.writeAll writes) := by
  induction writes generalizing db with
  | nil => exact h
  | cons w writes ih =>
    exact ih (h.write (hw w (.head _) _)) fun w hw' ↦ hw w (.tail _ hw')

theorem Sound.record_writeAll {db : Store Score} (h : Sound db) {changes : List Change}
    {writes : List (Text × Write Score)} (hw : ∀ w ∈ writes, ∀ old : Option (Row Score), Clean old w.2) :
    Sound ((Store.record db changes).writeAll writes) :=
  Sound.writeAll (show Sound (Store.record db changes) from h) hw

theorem labelled_additive {db : Store Score} {now : Text} {changes : Changes Score} {key cveId : Text}
    (h : Labelled ((db.write key (.additive now changes)).rows cveId)) : Labelled (db.rows cveId) := by
  by_cases hk : cveId = key
  · subst hk
    obtain ⟨r, hr, hs⟩ := h
    simp only [Store.write, Function.update_self, Write.apply] at hr
    obtain ⟨r', hr', rfl⟩ := Option.map_eq_some_iff.mp hr
    exact ⟨r', hr', hs⟩
  · simpa [Store.write, hk] using h

/-- An upsert never sets the label, and clears it when a record brings products. -/
theorem labelled_foldl {now : Text} {old : Option (Row Score)} {l : List (Incoming Score)}
    (h : Labelled (l.foldl (fun old c ↦ some (upsertRow now old c)) old)) :
    Labelled old ∧ ∀ c ∈ l, c.affectedProducts = some [] := by
  induction l generalizing old with
  | nil => exact ⟨h, by simp⟩
  | cons c l ih =>
    obtain ⟨⟨_, hu, hs⟩, hl⟩ := ih h
    obtain rfl := Option.some_inj.mp hu
    obtain ⟨r, hr, hs, hc⟩ := upsertRow_source_eq_llm.mp hs
    exact ⟨⟨r, hr, hs⟩, List.forall_mem_cons.mpr ⟨hc, hl⟩⟩

omit [Dumps] [Analysis Score] in
theorem merged_products_none {existing : Row Score} {incoming : Incoming Score} {changes : Changes Score}
    (h : mergeAdditiveCveFields existing incoming = .ok changes)
    (hn : nonEmpty (incoming.affectedProducts.getD []) = []) : changes.affectedProducts = none := by
  obtain ⟨cwes, -, h⟩ := bind_eq_ok.mp h
  obtain ⟨products, -, h⟩ := bind_eq_ok.mp h
  obtain rfl := Except.ok.inj h
  simp only [hn, mergedItems, List.append_nil, if_true]

variable [Tracking Score]

/-- The event brings products for the CVE from NVD, a CNA or CISA ADP. -/
def SuppliesProducts (cveId : Text) : Event Score → Prop
  | .upsert _ cves => ∃ c ∈ recordsOf cveId cves, nonEmpty (c.affectedProducts.getD []) ≠ []
  | .additive _ _ enrichments => ∃ c ∈ enrichments, upper c.cveId = cveId ∧ nonEmpty (c.affectedProducts.getD []) ≠ []
  | _ => False

/-- No enrichment brings products for a row that the LLM labelled. -/
def Separate (db : Store Score) : Event Score → Prop
  | .additive _ _ enrichments => ∀ c ∈ enrichments, nonEmpty (c.affectedProducts.getD []) ≠ [] →
      ¬Labelled (db.rows (upper c.cveId))
  | _ => True

theorem Sound.upsertCves {db : Store Score} (h : Sound db) (now : Text) (cves : List (Incoming Score)) :
    Sound (upsertCves now db cves) :=
  upsertCves_induction h (fun _ _ _ h ↦ h.write trivial) fun _ _ h ↦ h

theorem labelled_upsertCves {db : Store Score} {now : Text} {cves : List (Incoming Score)} {cveId : Text}
    (h : Labelled ((upsertCves now db cves).rows cveId)) :
    Labelled (db.rows cveId) ∧ ∀ c ∈ recordsOf cveId cves, c.affectedProducts = some [] := by
  rw [upsertCves_rows] at h
  exact labelled_foldl h

theorem Sound.additive {db : Store Score} (h : Sound db) {now : Text} {commitEvery : Option ℕ}
    {enrichments : List (Incoming Score)} (hs : Separate db (.additive now commitEvery enrichments)) :
    Sound (applyAdditiveCveEnrichments now commitEvery db enrichments) ∧
      ∀ cveId, Labelled ((applyAdditiveCveEnrichments now commitEvery db enrichments).rows cveId) →
        Labelled (db.rows cveId) := by
  -- a row labelled during the call was labelled before it, so the condition on the call applies to it
  let P : Store Score → Prop := fun db' ↦ Sound db' ∧ ∀ cveId, Labelled (db'.rows cveId) → Labelled (db.rows cveId)
  have hup : ∀ db' batch, (∀ c ∈ batch, c ∈ enrichments) → P db' → P (Cve.upsertCves now db' batch) := by
    intro db' batch _ ⟨hd, hl⟩
    exact ⟨hd.upsertCves now batch, fun cveId hc ↦ hl cveId (labelled_upsertCves hc).1⟩
  have hadd : ∀ db' cve existing changes, cve ∈ enrichments → P db' → db'.rows (upper cve.cveId) = some existing →
      mergeAdditiveCveFields existing cve = .ok changes →
      P (db'.write (upper cve.cveId) (.additive now changes)) := by
    intro db' cve existing changes hc ⟨hd, hl⟩ _ hm
    refine ⟨hd.write fun hlab ↦ merged_products_none hm ?_, fun cveId hlab ↦ hl cveId (labelled_additive hlab)⟩
    by_contra hn
    exact hs cve hc hn (hl _ hlab)
  exact applyAdditive_induction (P := P) hup ⟨h, fun _ hl ↦ hl⟩ (fun _ hc ↦ hc) hadd

omit [Tracking Score] in
theorem Sound.switchPocOn {db : Store Score} (h : Sound db) (cveIds : List Text) : Sound (switchPocOn db cveIds) := by
  apply Sound.record_writeAll h
  intro w hw old
  obtain ⟨cveId, -, rfl⟩ := List.mem_map.mp hw
  trivial

omit [Tracking Score] in
theorem Sound.markCvesAsKev {db : Store Score} (h : Sound db) (cveIds : List Text) : Sound (markCvesAsKev db cveIds) := by
  rw [Cve.markCvesAsKev]
  induction ((nonEmpty cveIds).map upper).toChunks 500 generalizing db with
  | nil => exact h
  | cons chunk chunks ih =>
    apply ih
    apply Sound.record_writeAll h
    intro w hw old
    obtain ⟨cveId, -, rfl⟩ := List.mem_map.mp hw
    trivial

theorem Sound.step {db : Store Score} (h : Sound db) {e : Event Score} (hs : Separate db e) : Sound (step db e) := by
  cases e with
  | upsert now cves => exact h.upsertCves now cves
  | additive now commitEvery enrichments => exact (h.additive hs).1
  | llm now cveId products =>
    change Sound (setLlmAffectedProducts now db cveId products)
    rw [setLlmAffectedProducts]
    split
    · exact h
    · rename_i hp
      exact h.write (by simpa using hp : products ≠ [])
  | epss scores =>
    apply Sound.record_writeAll h
    intro w hw old
    obtain ⟨s, -, hw⟩ := List.mem_flatMap.mp hw
    rcases epssUpdate_cases db s with ⟨he, -⟩ | ⟨r, -, -, he⟩
    · rw [he] at hw
      cases hw
    · rw [he] at hw
      rw [List.mem_singleton.mp hw]
      trivial
  | kev cveIds => exact h.markCvesAsKev cveIds
  | poc cveIds => exact h.switchPocOn _
  | backfillPoc scope => exact h.switchPocOn _
  | backfillDisplay scope =>
    apply h.writeAll
    intro w hw old
    obtain ⟨cveId, -, hw⟩ := List.mem_flatMap.mp hw
    obtain ⟨mitre, r, -, rfl⟩ := mem_displayUpdate hw
    trivial

omit [Tracking Score] in
theorem sound_empty : Sound (Store.empty : Store Score) := by
  intro cveId
  have hn : ¬Labelled (none : Option (Row Score)) := fun ⟨_, hr, _⟩ ↦ by cases hr
  exact ⟨rfl, fun hl ↦ absurd hl hn, fun _ ↦ rfl⟩

theorem not_labelled_of_supplies {db : Store Score} (h : Sound db) {e : Event Score} (hs : Separate db e) {cveId : Text}
    (hp : SuppliesProducts cveId e) : ¬Labelled ((step db e).rows cveId) := by
  intro hl
  cases e with
  | upsert now cves =>
    obtain ⟨c, hc, hne⟩ := hp
    rw [(labelled_upsertCves hl).2 c hc] at hne
    exact hne rfl
  | additive now commitEvery enrichments =>
    obtain ⟨c, hc, rfl, hne⟩ := hp
    exact hs c hc hne ((h.additive hs).2 _ hl)
  | _ => exact hp

/-- While no enrichment brings products for a row that the LLM labelled, the label says that the LLM
wrote every product of the row, and products from another source take it away. -/
theorem label_fits {events : List (Event Score)} (h : Along step Separate Store.empty events) (cveId : Text) :
    LabelFits (run step Store.empty events) cveId ∧
      ∀ before e, events = before ++ [e] → SuppliesProducts cveId e →
        ¬Labelled ((run step Store.empty events).rows cveId) := by
  have hsound : ∀ events, Along step Separate (Store.empty : Store Score) events →
      Sound (run step Store.empty events) := by
    intro events h
    exact run_induction (fun _ _ hs he ↦ hs.step he) sound_empty h
  refine ⟨(hsound events h).labelFits cveId, ?_⟩
  intro before e he hp
  subst he
  obtain ⟨hb, ⟨hs, -⟩⟩ := along_append.mp h
  rw [run_append]
  exact not_labelled_of_supplies (hsound before hb) hs hp

end

section
local instance : Interp := asciiJson

local instance : Dumps := asciiDumps

local instance : Analysis ℕ := plainAnalysis

local instance : Tracking ℕ := micro

/-- NVD delivers a CVE without products, the LLM extracts one, NVD delivers the CVE again. -/
def llmRun : List (Event ℕ) :=
  [.upsert [] [nvdRecord "CVE-2026-1" none [] []],
    .llm [] "CVE-2026-1".toList ["acme:web".toList],
    .upsert [] [nvdRecord "CVE-2026-1" none [] []]]

theorem label_fits_llm_run :
    Along step Separate Store.empty llmRun ∧ LabelFits (run step Store.empty llmRun) "CVE-2026-1".toList :=
  have h : Along step Separate Store.empty llmRun := ⟨trivial, trivial, trivial, trivial⟩
  ⟨h, (label_fits h _).1⟩

/-- The same CVE after the LLM, when a CNA record brings another product. -/
def mixedRun : List (Event ℕ) :=
  [.upsert [] [nvdRecord "CVE-2026-1" none [] []],
    .llm [] "CVE-2026-1".toList ["acme:web".toList],
    .additive [] none [nvdRecord "CVE-2026-1" none [] ["acme:db"]]]

theorem mixed_row_labelled_llm : ¬LabelFits (run step Store.empty mixedRun) "CVE-2026-1".toList := by
  intro h
  have hl : Labelled ((run step Store.empty mixedRun).rows "CVE-2026-1".toList) := ⟨_, rfl, rfl⟩
  have hp := (h.mp hl).2 "acme:db".toList (by decide)
  exact absurd hp (by decide)

end

end Briefr.Db.Provenance
