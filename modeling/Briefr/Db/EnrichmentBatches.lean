import Briefr.Db.AdditiveMerge
import Briefr.Library.Runs

namespace Briefr.Db.Cve

open Briefr.Python Briefr.Library.Runs

section
variable {Score : Type} [Interp] [Dumps] [Analysis Score]

/-- A row without `updated_at`. -/
def content (r : Row Score) : Row Score := { r with updatedAt := [] }

abbrev Rows (Score : Type) := Text → Option (Row Score)

def contents (rows : Rows Score) : Rows Score := fun cveId ↦ (rows cveId).map content

omit [Interp] [Dumps] [Analysis Score] in
theorem contents_update (rows : Rows Score) (cveId : Text) (row : Option (Row Score)) :
    contents (Function.update rows cveId row) = Function.update (contents rows) cveId (row.map content) := by
  funext key
  by_cases hk : key = cveId
  · rw [hk, contents, Function.update_self, Function.update_self]
  · rw [contents, Function.update_of_ne hk, Function.update_of_ne hk, contents]

/-- What `upsert_cves` leaves in the row of one of its records. -/
def putRecord (now : Text) (old : Option (Row Score)) (incoming : Incoming Score) : Option (Row Score) :=
  if strip incoming.cveId = [] then old else some (upsertRow now old incoming)

/-- The record merged on its own: a new row if the CVE has none, and otherwise what `merge_additive_cve_fields` adds. -/
def mergeRecord (now : Text) (rows : Rows Score) (incoming : Incoming Score) : Py (Rows Score) :=
  let cveId := upper incoming.cveId
  if cveId = [] then .ok rows
  else
    match rows cveId with
    | none => .ok (Function.update rows cveId (putRecord now none incoming))
    | some existing => do
      let changes ← mergeAdditiveCveFields existing incoming
      return if changes.isEmpty then rows else Function.update rows cveId (some (additiveRow now changes existing))

/-- The records merged one at a time, in the order of the list. -/
def mergeInOrder (now : Text) (rows : Rows Score) (enrichments : List (Incoming Score)) : Py (Rows Score) :=
  enrichments.foldlM (mergeRecord now) rows

omit [Analysis Score] in
theorem content_additiveRow (now : Text) (changes : Changes Score) (r : Row Score) :
    content (additiveRow now changes r) = content (additiveRow now changes (content r)) := rfl

omit [Dumps] [Analysis Score] in
theorem merge_content (r : Row Score) (incoming : Incoming Score) :
    mergeAdditiveCveFields (content r) incoming = mergeAdditiveCveFields r incoming := rfl

theorem content_upsertRow (now : Text) (r : Row Score) (incoming : Incoming Score) :
    content (upsertRow now (some r) incoming) = content (upsertRow now (some (content r)) incoming) := rfl

omit [Analysis Score] in
/-- An update without changes leaves the content. -/
theorem content_of_isEmpty {now : Text} {changes : Changes Score} (h : changes.isEmpty = true) (r : Row Score) :
    content (additiveRow now changes r) = content r := by
  simp only [Changes.isEmpty, Bool.and_eq_true, Option.isNone_iff_eq_none] at h
  obtain ⟨⟨⟨⟨⟨⟨h1, h2⟩, h3⟩, h4⟩, h5⟩, h6⟩, h7⟩ := h
  simp only [content, additiveRow, h1, h2, h3, h4, h5, h6, h7, Option.none_or, Option.map_none]

theorem putRecord_content {now : Text} {old old' : Option (Row Score)} (h : old.map content = old'.map content)
    (incoming : Incoming Score) :
    (putRecord now old incoming).map content = (putRecord now old' incoming).map content := by
  rw [putRecord, putRecord]
  split
  · exact h
  · cases old with
    | none =>
      cases old' with
      | none => rfl
      | some r' => cases h
    | some r =>
      cases old' with
      | none => cases h
      | some r' =>
        have hr : content r = content r' := Option.some.inj h
        rw [Option.map_some, Option.map_some, content_upsertRow, hr, ← content_upsertRow]

section
variable [Tracking Score]

/-- The loop of `apply_additive_cve_enrichments`, up to the last flush. -/
def additiveRun (now : Text) (commitEvery : Option ℕ) (db : Store Score) (enrichments : List (Incoming Score)) :
    Py (AdditiveState Score) :=
  enrichments.foldlM (additiveStep now commitEvery) ⟨db, [], 0, 0⟩

/-- The rows once the buffered records are written. -/
def flushedRows (now : Text) (a : AdditiveState Score) : Rows Score := (flushInserts now a).db.rows

theorem additiveLoop_of_run {now : Text} {commitEvery : Option ℕ} {a b : AdditiveState Score}
    {enrichments : List (Incoming Score)} (h : enrichments.foldlM (additiveStep now commitEvery) a = .ok b) :
    additiveLoop now commitEvery a enrichments = flushInserts now b := by
  induction enrichments generalizing a with
  | nil =>
    obtain rfl := Except.ok.inj h
    rfl
  | cons incoming rest ih =>
    rw [List.foldlM_cons] at h
    obtain ⟨a', ha, h⟩ := bind_eq_ok.mp h
    rw [additiveLoop, ha]
    exact ih h

/-- The rows that `apply_additive_cve_enrichments` leaves when nothing raises. -/
theorem apply_rows_of_run {now : Text} {commitEvery : Option ℕ} {db : Store Score} {a : AdditiveState Score}
    {enrichments : List (Incoming Score)} (h : additiveRun now commitEvery db enrichments = .ok a) :
    (applyAdditiveCveEnrichments now commitEvery db enrichments).rows = flushedRows now a := by
  rw [applyAdditiveCveEnrichments, additiveLoop_of_run h, flushedRows]

theorem flushedRows_eq (now : Text) (a : AdditiveState Score) (cveId : Text) : flushedRows now a cveId =
    (a.pendingInserts.filter fun c ↦ decide (upper c.cveId = cveId)).foldl (putRecord now) (a.db.rows cveId) := by
  have hput : ∀ (l : List (Incoming Score)) (old : Option (Row Score)),
      (recordsOf cveId l).foldl (fun old c ↦ some (upsertRow now old c)) old =
        (l.filter fun c ↦ decide (upper c.cveId = cveId)).foldl (putRecord now) old := by
    intro l
    induction l with
    | nil => exact fun _ ↦ rfl
    | cons c l ih =>
      intro old
      by_cases hc : upper c.cveId = cveId
      · by_cases hs : strip c.cveId = []
        · simpa [recordsOf, validCves, hc, hs, putRecord] using ih old
        · simpa [recordsOf, validCves, hc, hs, putRecord] using ih (some (upsertRow now old c))
      · by_cases hs : strip c.cveId = []
        · simpa [recordsOf, validCves, hc, hs] using ih old
        · simpa [recordsOf, validCves, hc, hs] using ih old
  rw [flushedRows, flushInserts]
  split
  · rename_i he
    rw [List.isEmpty_iff.mp he]
    rfl
  · rw [← hput]
    exact upsertCves_rows now a.db a.pendingInserts cveId

theorem flushedRows_flush (now : Text) (a : AdditiveState Score) : flushedRows now (flushInserts now a) = flushedRows now a := by
  rw [flushedRows, flushInserts, if_pos]
  · rfl
  · rw [flushInserts]
    split
    · assumption
    · rfl

theorem flushedRows_congr {now : Text} {a b : AdditiveState Score} (hdb : a.db = b.db)
    (hp : a.pendingInserts = b.pendingInserts) : flushedRows now a = flushedRows now b := by
  funext cveId
  rw [flushedRows_eq, flushedRows_eq, hdb, hp]

/-- Where the chunks end is not seen in the rows. -/
theorem flushedRows_processedOne (now : Text) (commitEvery : Option ℕ) (a : AdditiveState Score) :
    flushedRows now (processedOne now commitEvery a) = flushedRows now a := by
  rw [processedOne]
  dsimp only
  split
  · rw [flushedRows_flush]
    exact flushedRows_congr rfl rfl
  · exact flushedRows_congr rfl rfl

theorem flushedRows_pending (now : Text) (a : AdditiveState Score) (incoming : Incoming Score) :
    flushedRows now { a with pendingInserts := a.pendingInserts ++ [incoming] } =
      Function.update (flushedRows now a) (upper incoming.cveId)
        (putRecord now (flushedRows now a (upper incoming.cveId)) incoming) := by
  funext cveId
  rw [flushedRows_eq, List.filter_append, List.foldl_append]
  by_cases hc : upper incoming.cveId = cveId
  · rw [List.filter_cons_of_pos (by simpa using hc), ← hc, Function.update_self, flushedRows_eq]
    rfl
  · rw [List.filter_cons_of_neg (by simpa using hc), Function.update_of_ne (Ne.symm hc), flushedRows_eq]
    rfl

/-- The rows after the last flush are those of the records merged one at a time, whatever `updated_at` says. -/
def Agrees (now : Text) (commitEvery : Option ℕ) (db : Store Score) (enrichments : List (Incoming Score)) : Prop :=
  (fun a ↦ contents (flushedRows now a)) <$> additiveRun now commitEvery db enrichments =
    contents <$> mergeInOrder now db.rows enrichments

omit [Tracking Score] in
/-- The upsert of the record leaves in a row what the merge would. -/
def StoresMerge (now : Text) (existing : Row Score) (incoming : Incoming Score) : Prop :=
  ∃ changes, mergeAdditiveCveFields existing incoming = .ok changes ∧
    (putRecord now (some existing) incoming).map content = some (content (additiveRow now changes existing))

/-- The record comes while one of its CVE waits for the flush: the table has no row yet where the merge has one. -/
def Waits (a : AdditiveState Score) (rows : Rows Score) (incoming : Incoming Score) (existing : Row Score) : Prop :=
  upper incoming.cveId ≠ [] ∧ a.db.rows (upper incoming.cveId) = none ∧ rows (upper incoming.cveId) = some existing

/-- A buffered record is of a CVE without a row. -/
def Buffered (a : AdditiveState Score) : Prop := ∀ c ∈ a.pendingInserts, a.db.rows (upper c.cveId) = none

theorem buffered_processedOne {now : Text} {commitEvery : Option ℕ} {a : AdditiveState Score} (h : Buffered a) :
    Buffered (processedOne now commitEvery a) := by
  rw [processedOne]
  dsimp only
  split
  · rw [flushInserts]
    split
    · exact h
    · exact List.forall_mem_nil _
  · exact h

theorem buffered_step {now : Text} {commitEvery : Option ℕ} {a b : AdditiveState Score} {incoming : Incoming Score}
    (hs : additiveStep now commitEvery a incoming = .ok b) (h : Buffered a) : Buffered b := by
  rcases additiveStep_cases hs with rfl | ⟨hn, rfl⟩ | ⟨existing, changes, updated, he, -, rfl⟩
  · exact h
  · apply buffered_processedOne
    intro c hc
    rcases List.mem_append.mp hc with hc | hc
    · exact h c hc
    · rw [List.mem_singleton.mp hc]
      exact hn
  · apply buffered_processedOne
    intro c hc
    have hne : upper c.cveId ≠ upper incoming.cveId := by
      intro heq
      have hn := h c hc
      rw [heq, he] at hn
      cases hn
    dsimp only
    split
    · exact h c hc
    · exact (Function.update_of_ne hne _ _).trans (h c hc)

omit [Dumps] [Analysis Score] [Tracking Score] in
/-- Nothing is buffered for a CVE that has a row. -/
theorem pending_of_row {a : AdditiveState Score} (h : Buffered a) {cveId : Text} {r : Row Score}
    (hr : a.db.rows cveId = some r) : (a.pendingInserts.filter fun c ↦ decide (upper c.cveId = cveId)) = [] := by
  rw [List.filter_eq_nil_iff]
  intro c hc he
  have hn := h c hc
  rw [of_decide_eq_true he, hr] at hn
  cases hn

theorem flushedRows_of_row {now : Text} {a : AdditiveState Score} (h : Buffered a) {cveId : Text} {r : Row Score}
    (hr : a.db.rows cveId = some r) : flushedRows now a cveId = some r := by
  rw [flushedRows_eq, pending_of_row h hr, List.foldl_nil, hr]

theorem flushedRows_write {now : Text} {a : AdditiveState Score} (h : Buffered a) {cveId : Text} {r : Row Score}
    (hr : a.db.rows cveId = some r) (w : Write Score) (updated : ℕ) :
    flushedRows now { a with db := a.db.write cveId w, updated } =
      Function.update (flushedRows now a) cveId (w.apply (some r)) := by
  funext key
  by_cases hk : key = cveId
  · rw [hk, flushedRows_eq, Function.update_self, pending_of_row h hr, List.foldl_nil]
    exact (Function.update_self _ _ _).trans (by rw [hr])
  · rw [flushedRows_eq, Function.update_of_ne hk, flushedRows_eq]
    have hrow : (a.db.write cveId w).rows key = a.db.rows key := Function.update_of_ne hk _ _
    exact congrArg (fun old ↦ (a.pendingInserts.filter _).foldl (putRecord now) old) hrow

section
variable {now : Text} {commitEvery : Option ℕ} {a : AdditiveState Score} {rows : Rows Score}
  {incoming : Incoming Score}

/-- Of a CVE that has a row the record is merged at once. -/
theorem step_agrees_of_row (hb : Buffered a) (hc : contents (flushedRows now a) = contents rows) {r : Row Score}
    (hid : upper incoming.cveId ≠ []) (hr : a.db.rows (upper incoming.cveId) = some r) :
    (fun b ↦ contents (flushedRows now b)) <$> additiveStep now commitEvery a incoming =
      contents <$> mergeRecord now rows incoming := by
  have hf : flushedRows now a (upper incoming.cveId) = some r := flushedRows_of_row hb hr
  obtain ⟨r', hr', hcont⟩ : ∃ r', rows (upper incoming.cveId) = some r' ∧ content r' = content r := by
    have hk := congrFun hc (upper incoming.cveId)
    rw [contents, contents, hf, Option.map_some] at hk
    exact Option.map_eq_some_iff.mp hk.symm
  have hm : mergeAdditiveCveFields r' incoming = mergeAdditiveCveFields r incoming := by
    rw [← merge_content r', hcont, merge_content]
  rw [additiveStep, mergeRecord]
  simp only [if_neg hid, hr, hr', hm]
  cases mergeAdditiveCveFields r incoming with
  | error e => rfl
  | ok changes =>
    change Except.ok (contents (flushedRows now (processedOne now commitEvery _))) = Except.ok (contents _)
    rw [flushedRows_processedOne]
    split
    · rw [← hc]
      exact congrArg (fun rows ↦ Except.ok (contents rows)) (flushedRows_congr rfl rfl)
    · rw [flushedRows_write hb hr, contents_update, contents_update, hc]
      have hrow : content (additiveRow now changes r) = content (additiveRow now changes r') := by
        rw [content_additiveRow, ← hcont, ← content_additiveRow]
      exact congrArg (fun o ↦ Except.ok (Function.update (contents rows) _ (some o))) hrow

theorem step_agrees_of_new (hc : contents (flushedRows now a) = contents rows) (hid : upper incoming.cveId ≠ [])
    (hr : a.db.rows (upper incoming.cveId) = none) (hr' : rows (upper incoming.cveId) = none) :
    (fun b ↦ contents (flushedRows now b)) <$> additiveStep now commitEvery a incoming =
      contents <$> mergeRecord now rows incoming := by
  have hf : flushedRows now a (upper incoming.cveId) = none := by
    have hk := congrFun hc (upper incoming.cveId)
    rw [contents, contents, hr', Option.map_none] at hk
    exact Option.map_eq_none_iff.mp hk
  rw [additiveStep, mergeRecord]
  simp only [if_neg hid, hr, hr']
  change Except.ok (contents (flushedRows now (processedOne now commitEvery _))) = Except.ok (contents _)
  rw [flushedRows_processedOne, flushedRows_pending, hf, contents_update, contents_update, hc]

theorem step_agrees_of_waits (hc : contents (flushedRows now a) = contents rows) {existing : Row Score}
    (hw : Waits a rows incoming existing) :
    (fun b ↦ contents (flushedRows now b)) <$> additiveStep now commitEvery a incoming =
      contents <$> mergeRecord now rows incoming ↔ StoresMerge now existing incoming := by
  obtain ⟨hid, hr, hr'⟩ := hw
  have hk : (flushedRows now a (upper incoming.cveId)).map content = (some existing).map content := by
    have hk := congrFun hc (upper incoming.cveId)
    rwa [contents, contents, hr'] at hk
  have hstep : (fun b ↦ contents (flushedRows now b)) <$> additiveStep now commitEvery a incoming =
      .ok (Function.update (contents rows) (upper incoming.cveId)
        ((putRecord now (some existing) incoming).map content)) := by
    rw [additiveStep]
    simp only [if_neg hid, hr]
    change Except.ok (contents (flushedRows now (processedOne now commitEvery _))) = _
    rw [flushedRows_processedOne, flushedRows_pending, contents_update, hc, putRecord_content hk]
  have hmerge : contents <$> mergeRecord now rows incoming =
      (fun changes ↦ Function.update (contents rows) (upper incoming.cveId)
        (some (content (additiveRow now changes existing)))) <$> mergeAdditiveCveFields existing incoming := by
    rw [mergeRecord]
    simp only [if_neg hid, hr']
    cases mergeAdditiveCveFields existing incoming with
    | error e => rfl
    | ok changes =>
      change Except.ok (contents _) = Except.ok (Function.update _ _ _)
      split
      · rename_i he
        have hrow : contents rows (upper incoming.cveId) = some (content existing) := by rw [contents, hr', Option.map_some]
        rw [content_of_isEmpty he, ← hrow, Function.update_eq_self]
      · rw [contents_update, Option.map_some]
  rw [hstep, hmerge, eq_comm, map_eq_ok, StoresMerge]
  refine exists_congr fun changes ↦ and_congr_right fun _ ↦ ?_
  rw [(Function.update_injective _ _).eq_iff, eq_comm]

/-- Batching does no harm in the next step exactly when a record that finds another one of its CVE waiting is stored by
the upsert as by the merge. -/
theorem step_agrees_iff (commitEvery : Option ℕ) (incoming : Incoming Score) (hb : Buffered a)
    (hc : contents (flushedRows now a) = contents rows) :
    (fun b ↦ contents (flushedRows now b)) <$> additiveStep now commitEvery a incoming =
      contents <$> mergeRecord now rows incoming ↔
    ∀ existing, Waits a rows incoming existing → StoresMerge now existing incoming := by
  by_cases hid : upper incoming.cveId = []
  · have hskip : (fun b ↦ contents (flushedRows now b)) <$> additiveStep now commitEvery a incoming =
        contents <$> mergeRecord now rows incoming := by
      rw [additiveStep, mergeRecord]
      simp only [if_pos hid]
      exact congrArg Except.ok hc
    exact ⟨fun _ _ hw ↦ absurd hid hw.1, fun _ ↦ hskip⟩
  cases hr : a.db.rows (upper incoming.cveId) with
  | some r =>
    have hw : ∀ existing, ¬Waits a rows incoming existing := by
      intro existing hw
      have hn := hr.symm.trans hw.2.1
      cases hn
    exact ⟨fun _ _ hw' ↦ absurd hw' (hw _), fun _ ↦ step_agrees_of_row hb hc hid hr⟩
  | none =>
    cases hr' : rows (upper incoming.cveId) with
    | none =>
      have hw : ∀ existing, ¬Waits a rows incoming existing := by
        intro existing hw
        have hn := hr'.symm.trans hw.2.2
        cases hn
      exact ⟨fun _ _ hw' ↦ absurd hw' (hw _), fun _ ↦ step_agrees_of_new hc hid hr hr'⟩
    | some existing =>
      rw [step_agrees_of_waits hc ⟨hid, hr, hr'⟩]
      constructor
      · intro hs existing' hw
        obtain rfl := Option.some.inj (hr'.symm.trans hw.2.2)
        exact hs
      · exact fun h ↦ h existing ⟨hid, hr, hr'⟩

end

/-- The loop and the merge one at a time, side by side. -/
structure Both (Score : Type) where
  batched : Py (AdditiveState Score)
  merged : Py (Rows Score)

def Both.step (now : Text) (commitEvery : Option ℕ) (w : Both Score) (incoming : Incoming Score) : Both Score where
  batched := w.batched >>= fun a ↦ additiveStep now commitEvery a incoming
  merged := w.merged >>= fun rows ↦ mergeRecord now rows incoming

def Both.Same (now : Text) (w : Both Score) : Prop :=
  (fun a ↦ contents (flushedRows now a)) <$> w.batched = contents <$> w.merged

/-- The condition on a record, in the state in which it comes. -/
def Both.Cond (now : Text) (w : Both Score) (incoming : Incoming Score) : Prop :=
  ∀ a rows existing, w.batched = .ok a → w.merged = .ok rows → Waits a rows incoming existing →
    StoresMerge now existing incoming

theorem Both.buffered_step {now : Text} {commitEvery : Option ℕ} {w : Both Score} {incoming : Incoming Score}
    (h : ∀ a, w.batched = .ok a → Buffered a) :
    ∀ a, (w.step now commitEvery incoming).batched = .ok a → Buffered a := by
  intro b hb
  obtain ⟨a, ha, hstep⟩ := bind_eq_ok.mp hb
  exact Cve.buffered_step hstep (h a ha)

/-- Before the first record nothing is buffered. -/
theorem Both.same_start (now : Text) (db : Store Score) : Both.Same now ⟨.ok ⟨db, [], 0, 0⟩, .ok db.rows⟩ :=
  congrArg Except.ok (congrArg contents (funext fun cveId ↦ flushedRows_eq now _ cveId))

theorem Both.same_step_iff {now : Text} {commitEvery : Option ℕ} {w : Both Score} (hs : w.Same now)
    (hb : ∀ a, w.batched = .ok a → Buffered a) (incoming : Incoming Score) :
    (w.step now commitEvery incoming).Same now ↔ w.Cond now incoming := by
  obtain ⟨batched, merged⟩ := w
  cases batched with
  | error e =>
    cases merged with
    | error e' =>
      constructor
      · intro _ a _ _ ha
        cases ha
      · exact fun _ ↦ hs
    | ok rows => cases hs
  | ok a =>
    cases merged with
    | error e => cases hs
    | ok rows =>
      have hiff := step_agrees_iff commitEvery incoming (hb a rfl) (Except.ok.inj hs)
      constructor
      · intro hstep a' rows' existing ha hr
        obtain rfl := Except.ok.inj ha
        obtain rfl := Except.ok.inj hr
        exact hiff.mp hstep existing
      · intro hcond
        exact hiff.mpr fun existing ↦ hcond a rows existing rfl rfl

theorem run_both (now : Text) (commitEvery : Option ℕ) (batched : Py (AdditiveState Score)) (merged : Py (Rows Score))
    (enrichments : List (Incoming Score)) :
    run (Both.step now commitEvery) ⟨batched, merged⟩ enrichments =
      ⟨batched >>= fun a ↦ enrichments.foldlM (additiveStep now commitEvery) a,
        merged >>= fun rows ↦ enrichments.foldlM (mergeRecord now) rows⟩ := by
  induction enrichments generalizing batched merged with
  | nil => cases batched <;> cases merged <;> rfl
  | cons incoming rest ih =>
    rw [run_cons, Both.step, ih]
    cases batched <;> cases merged <;> rfl

/-- For a list of records and all its beginnings, batching leaves the rows that merging one at a time does exactly when
no record that comes while one of its CVE is still buffered is stored otherwise by the overwriting upsert. -/
theorem batching_agrees_iff (now : Text) (commitEvery : Option ℕ) (db : Store Score)
    (enrichments : List (Incoming Score)) :
    (∀ before, before <+: enrichments → Agrees now commitEvery db before) ↔
      ∀ before incoming, before ++ [incoming] <+: enrichments → ∀ a rows existing,
        additiveRun now commitEvery db before = .ok a → mergeInOrder now db.rows before = .ok rows →
          Waits a rows incoming existing → StoresMerge now existing incoming := by
  let w : Both Score := ⟨.ok ⟨db, [], 0, 0⟩, .ok db.rows⟩
  have hrun : ∀ l, run (Both.step now commitEvery) w l = ⟨additiveRun now commitEvery db l, mergeInOrder now db.rows l⟩ :=
    run_both now commitEvery _ _
  let inv (w : Both Score) : Prop := w.Same now ∧ ∀ a, w.batched = .ok a → Buffered a
  have hstart : inv w := by
    refine ⟨Both.same_start now db, fun a ha ↦ ?_⟩
    obtain rfl := Except.ok.inj ha
    exact List.forall_mem_nil _
  have hiff : (∀ before, before <+: enrichments → (run (Both.step now commitEvery) w before).Same now) ↔
      Along (Both.step now commitEvery) (Both.Cond now) w enrichments := by
    refine forall_prefix_iff (fun _ h ↦ ?_) (fun w e h hc ↦ ?_) (fun w e h hn hg ↦ ?_) hstart
    · exact h.1
    · exact ⟨(w.same_step_iff h.1 h.2 e).mpr hc, w.buffered_step h.2⟩
    · exact hn ((w.same_step_iff h.1 h.2 e).mp hg)
  rw [along_iff_each] at hiff
  simp only [hrun] at hiff
  exact hiff

/-- A chunk of one record leaves nothing waiting. -/
theorem processedOne_one (now : Text) (a : AdditiveState Score) : (processedOne now (some 1) a).pendingInserts = [] := by
  have hflush : (some 1).any (fun n ↦ n != 0 && (a.processed + 1) % n == 0) = true := by
    rw [Option.any_some, Nat.mod_one]
    rfl
  rw [processedOne]
  simp only [hflush, if_true, flushInserts]
  split
  · rename_i he
    exact List.isEmpty_iff.mp he
  · rfl

theorem pending_step_one {now : Text} {a b : AdditiveState Score} {incoming : Incoming Score}
    (hs : additiveStep now (some 1) a incoming = .ok b) (h : a.pendingInserts = []) : b.pendingInserts = [] := by
  rcases additiveStep_cases hs with rfl | ⟨-, rfl⟩ | ⟨_, _, _, -, -, rfl⟩
  · exact h
  · exact processedOne_one now _
  · exact processedOne_one now _

/-- Nothing waits in a buffer that holds one record, so the two never part. -/
theorem Both.same_step_one {now : Text} {w : Both Score} (hs : w.Same now)
    (hp : ∀ a, w.batched = .ok a → a.pendingInserts = []) (incoming : Incoming Score) :
    (w.step now (some 1) incoming).Same now ∧
      ∀ a, (w.step now (some 1) incoming).batched = .ok a → a.pendingInserts = [] := by
  have hb : ∀ a, w.batched = .ok a → Buffered a := by
    intro a ha c hc
    rw [hp a ha] at hc
    cases hc
  refine ⟨(w.same_step_iff hs hb incoming).mpr ?_, fun b hstep ↦ ?_⟩
  · intro a rows existing ha hr hw
    have hflush : flushedRows now a (upper incoming.cveId) = a.db.rows (upper incoming.cveId) := by
      rw [flushedRows_eq, hp a ha]
      rfl
    rw [Both.Same, ha, hr] at hs
    have hc : contents (flushedRows now a) = contents rows := Except.ok.inj hs
    have hk := congrFun hc (upper incoming.cveId)
    rw [contents, contents, hflush, hw.2.1, hw.2.2] at hk
    cases hk
  · obtain ⟨a, ha, hstep⟩ := bind_eq_ok.mp hstep
    exact pending_step_one hstep (hp a ha)

/-- With the chunks of one record that the scheduler asks for, the condition always holds. -/
theorem batching_one_agrees (now : Text) (db : Store Score) (enrichments : List (Incoming Score)) :
    Agrees now (some 1) db enrichments := by
  let inv (w : Both Score) : Prop := w.Same now ∧ ∀ a, w.batched = .ok a → a.pendingInserts = []
  have hstart : inv ⟨.ok ⟨db, [], 0, 0⟩, .ok db.rows⟩ := by
    refine ⟨Both.same_start now db, fun a ha ↦ ?_⟩
    obtain rfl := Except.ok.inj ha
    rfl
  have hinv : inv (run (Both.step now (some 1)) ⟨.ok ⟨db, [], 0, 0⟩, .ok db.rows⟩ enrichments) :=
    run_invariant enrichments (fun w incoming h ↦ w.same_step_one h.1 h.2 incoming) hstart
  rw [run_both] at hinv
  exact hinv.1

end

end

section
local instance batchInterp : Interp := asciiJson

local instance batchDumps : Dumps := asciiDumps

local instance batchAnalysis : Analysis ℕ := plainAnalysis

local instance batchTracking : Tracking ℕ := micro

/-- Two records of a new CVE, the second one without a score. -/
def twoRecords : List (Incoming ℕ) :=
  [nvdRecord "CVE-2026-0001" (some 9800000) ["CWE-79"] ["acme:router"], nvdRecord "CVE-2026-0001" none [] []]

/-- In one chunk the second record overwrites the first, whose score, CWE id and product are lost. -/
theorem second_record_overwrites :
    ((applyAdditiveCveEnrichments [] (some 2) Store.empty twoRecords).rows "CVE-2026-0001").map
      (fun r ↦ (r.cvssScore, r.cweIds, r.affectedProducts)) = some (none, some "[]".toList, some "[]".toList) ∧
    (∃ rows, mergeInOrder [] (fun _ ↦ none) twoRecords = .ok rows ∧ (rows "CVE-2026-0001").map (fun r ↦ r.cvssScore) =
      some (some 9800000)) ∧
    ¬∀ (now : Text) (commitEvery : Option ℕ) (db : Store ℕ) (enrichments : List (Incoming ℕ)),
      Agrees now commitEvery db enrichments := by
  refine ⟨by decide, ⟨_, rfl, by decide⟩, fun h ↦ ?_⟩
  have hk := congrFun (Except.ok.inj (h [] (some 2) Store.empty twoRecords)) "CVE-2026-0001".toList
  have hs := congrArg (Option.map fun r ↦ r.cvssScore) hk
  exact absurd hs (by decide)

end

end Briefr.Db.Cve
