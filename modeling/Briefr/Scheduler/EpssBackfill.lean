import Briefr.Feeds.Epss

namespace Briefr.Scheduler.EpssBackfill

open Briefr.Python Briefr.Feeds.Epss

/-- The text the database driver binds for a date, if it accepts the value. -/
class Driver where
  bindText : Value → Option Text
  bindText_str : ∀ s, bindText (.str s) = some s

export Driver (bindText)

/-- The API and the database during one run of the job, by batch. -/
structure Env where
  reply : List Text → Reply
  dbFails : List Text → Bool

/-- The tables the job touches. History rows are keyed by CVE and date. -/
structure Db (Score : Type) where
  cveIds : List Text
  marker : Bool
  history : List ((Text × Text) × Score)

theorem batch_ne_nil {cveIds batch : List Text} (h : batch ∈ batches backfillBatchSize cveIds) : batch ≠ [] := by
  simp only [batches, backfillBatchSize, List.mem_map, List.mem_range] at h
  obtain ⟨i, hi, rfl⟩ := h
  have hlt : i * 100 < cveIds.length := by omega
  intro he
  have hlen := congrArg List.length he
  simp only [List.length_take, List.length_drop, List.length_nil] at hlen
  omega

/-- The batches of the CVEs in the database. -/
def Db.batches {Score : Type} (db : Db Score) : List (List Text) := Feeds.Epss.batches backfillBatchSize db.cveIds

theorem Db.batch_ne_nil {Score : Type} (db : Db Score) : ∀ b ∈ db.batches, b ≠ [] :=
  fun _ h ↦ EpssBackfill.batch_ne_nil h

section
variable {Score : Type} [Interp] [Floats Score] [Driver]

/-- `INSERT OR IGNORE`. -/
def insertRow (history : List ((Text × Text) × Score)) (row : HistoryRow Score) : Option (List ((Text × Text) × Score)) :=
  match bindText row.date with
  | none => none
  | some date =>
    if (upper row.cveId, date) ∈ history.map Prod.fst then some history
    else some (history ++ [((upper row.cveId, date), row.score)])

def insertEpssHistoryRows (history : List ((Text × Text) × Score)) (rows : List (HistoryRow Score)) :
    Option (List ((Text × Text) × Score)) :=
  rows.foldlM insertRow history

/-- One batch: `none` when an exception ends the loop. A failed insert is not committed. -/
def runBatch (env : Env) (db : Db Score) (batch : List Text) : Option (Db Score) :=
  match fetchEpssTimeSeriesBatch env.reply batch with
  | .error _ => none
  | .ok [] => some db
  | .ok rows =>
    if env.dbFails batch then none
    else (insertEpssHistoryRows db.history rows).map fun history ↦ { db with history }

/-- The batch loop: the database it leaves, the batches it requested, and whether it got to its end. -/
def runBatches (env : Env) (db : Db Score) : List (List Text) → Db Score × List (List Text) × Bool
  | [] => (db, [], true)
  | batch :: rest =>
    match runBatch env db batch with
    | none => (db, [batch], false)
    | some db' =>
      let run := runBatches env db' rest
      (run.1, batch :: run.2.1, run.2.2)

/-- One run of the job and the batches it requests. -/
def runEpssBackfill (env : Env) (db : Db Score) : Db Score × List (List Text) :=
  if db.marker then (db, [])
  else if db.cveIds = [] then ({ db with marker := true }, [])
  else
    let run := runBatches env db (batches backfillBatchSize db.cveIds)
    (if run.2.2 then { run.1 with marker := true } else run.1, run.2.1)

/-- The object carries all three fields of a history row. -/
def ItemComplete (item : Value) (row : HistoryRow Score) : Prop :=
  ∃ fields cve epss date score, item = .dict fields ∧ fields.lookup ("cve" : String).toList = some (.str cve) ∧
    fields.lookup ("epss" : String).toList = some epss ∧ fields.lookup ("date" : String).toList = some (.str date) ∧
    upper cve ≠ [] ∧ epss.isNone = false ∧ date ≠ [] ∧ float epss = .value score ∧ row = ⟨upper cve, score, .str date⟩

/-- The time series was fetched: an object whose `data` is a list of complete objects. -/
def Fetched (reply : Reply) (rows : List (HistoryRow Score)) : Prop :=
  ∃ fields items, reply = .body (.dict fields) ∧ fields.lookup ("data" : String).toList = some (.list items) ∧
    List.Forall₂ ItemComplete items rows

/-- The history has an entry for the row's CVE and date. -/
def Db.Has (db : Db Score) (row : HistoryRow Score) : Prop :=
  ∃ date, bindText row.date = some date ∧ (upper row.cveId, date) ∈ db.history.map Prod.fst

/-- The batch raises an exception that the fetcher does not turn into an empty list. -/
def Raises (env : Env) (batch : List Text) : Prop :=
  match (replyRows (env.reply batch) : Py (List (HistoryRow Score))) with
  | .error _ => True
  | .ok rows => rows ≠ [] ∧ (env.dbFails batch = true ∨ ∃ row ∈ rows, bindText row.date = none)

omit [Driver] in
theorem itemRow_of_complete {item : Value} {row : HistoryRow Score} (h : ItemComplete item row) :
    itemRow item = .ok (some row) := by
  obtain ⟨fields, cve, epss, date, score, rfl, hc, he, hd, hu, hn, hdn, hf, rfl⟩ := h
  have ht : (Value.str date).truthy = true := by
    cases date with
    | nil => exact (hdn rfl).elim
    | cons c s => rfl
  simp only [itemRow, Value.get, hc, he, hd, Option.getD_some, ok_bind, Value.orText_str]
  rw [if_neg (by simp [hu, hn, ht]), tryFloat, hf]
  rfl

omit [Driver] in
theorem mapM_of_complete {items : List Value} {rows : List (HistoryRow Score)} (h : List.Forall₂ ItemComplete items rows) :
    items.mapM itemRow = .ok (rows.map some) := by
  induction h with
  | nil => rfl
  | cons hi _ ih => rw [List.mapM_cons, itemRow_of_complete hi, ih]; rfl

omit [Driver] in
theorem bodyRows_of_fetched {fields : List (Text × Value)} {items : List Value} {rows : List (HistoryRow Score)}
    (hl : fields.lookup ("data" : String).toList = some (.list items)) (h : List.Forall₂ ItemComplete items rows) :
    bodyRows fields = .ok rows := by
  rw [bodyRows, dataItems, hl, Option.getD_some, Value.iter_list, ok_bind, mapM_of_complete h, ok_bind, pure_eq_ok]
  rw [List.reduceOption, List.filterMap_map]
  simp

omit [Floats Score] in
/-- What a row finds in the history afterwards, and that nothing is lost. -/
theorem insertRow_keys {history history' : List ((Text × Text) × Score)} {row : HistoryRow Score}
    (h : insertRow history row = some history') :
    (∃ date, bindText row.date = some date ∧ (upper row.cveId, date) ∈ history'.map Prod.fst) ∧
      history.map Prod.fst ⊆ history'.map Prod.fst := by
  unfold insertRow at h
  split at h
  · cases h
  · rename_i date hd
    split at h
    · rename_i hm
      cases h
      exact ⟨⟨date, hd, hm⟩, List.Subset.refl _⟩
    · cases h
      refine ⟨⟨date, hd, ?_⟩, ?_⟩
      · simp
      · rw [List.map_append]
        exact List.subset_append_left _ _

omit [Floats Score] in
theorem insertRow_eq_none {history : List ((Text × Text) × Score)} {row : HistoryRow Score} :
    insertRow history row = none ↔ bindText row.date = none := by
  unfold insertRow
  split
  · rename_i hd
    simp [hd]
  · rename_i date hd
    split <;> simp [hd]

omit [Floats Score] in
theorem insertRows_keys {history history' : List ((Text × Text) × Score)} {rows : List (HistoryRow Score)}
    (h : insertEpssHistoryRows history rows = some history') :
    (∀ row ∈ rows, ∃ date, bindText row.date = some date ∧ (upper row.cveId, date) ∈ history'.map Prod.fst) ∧
      history.map Prod.fst ⊆ history'.map Prod.fst := by
  induction rows generalizing history with
  | nil =>
    cases h
    exact ⟨fun _ h ↦ absurd h List.not_mem_nil, List.Subset.refl _⟩
  | cons row rows ih =>
    simp only [insertEpssHistoryRows, List.foldlM_cons, Option.bind_eq_bind, Option.bind_eq_some_iff] at h
    obtain ⟨mid, hm, hr⟩ := h
    obtain ⟨⟨date, hd, hk⟩, hsub⟩ := insertRow_keys hm
    obtain ⟨hall, hsub'⟩ := ih hr
    exact ⟨List.forall_mem_cons.mpr ⟨⟨date, hd, hsub' hk⟩, hall⟩, List.Subset.trans hsub hsub'⟩

omit [Floats Score] in
theorem insertRows_eq_none {history : List ((Text × Text) × Score)} {rows : List (HistoryRow Score)} :
    insertEpssHistoryRows history rows = none ↔ ∃ row ∈ rows, bindText row.date = none := by
  induction rows generalizing history with
  | nil => simp [insertEpssHistoryRows]
  | cons row rows ih =>
    simp only [insertEpssHistoryRows, List.foldlM_cons, List.exists_mem_cons_iff]
    cases hr : insertRow history row with
    | none => simp [insertRow_eq_none.mp hr]
    | some mid =>
      have hb : ¬bindText row.date = none := by
        intro hn
        rw [insertRow_eq_none.mpr hn] at hr
        cases hr
      simp only [hb, false_or]
      exact ih

theorem runBatch_eq_none {env : Env} (db : Db Score) {batch : List Text} (hb : batch ≠ []) :
    runBatch env db batch = none ↔ Raises env batch := by
  rw [runBatch, Raises, fetchEpssTimeSeriesBatch, if_neg hb]
  cases (replyRows (env.reply batch) : Py (List (HistoryRow Score))) with
  | error e => simp
  | ok rows =>
    cases rows with
    | nil => simp
    | cons row rows =>
      dsimp only
      cases env.dbFails batch with
      | true => simp
      | false => simp [insertRows_eq_none]

/-- A batch that goes through changes nothing but the history, which keeps what it had and gains
the rows that were fetched. -/
theorem runBatch_eq_some {env : Env} {db db' : Db Score} {batch : List Text} (hb : batch ≠ [])
    (h : runBatch env db batch = some db') :
    db'.cveIds = db.cveIds ∧ db'.marker = db.marker ∧ db.history.map Prod.fst ⊆ db'.history.map Prod.fst ∧
      ∀ rows, Fetched (env.reply batch) rows → ∀ row ∈ rows, db'.Has row := by
  have hrows : ∀ rows : List (HistoryRow Score), Fetched (env.reply batch) rows → replyRows (env.reply batch) = .ok rows := by
    intro rows ⟨fields, items, hr, hl, hi⟩
    rw [hr]
    exact bodyRows_of_fetched hl hi
  rw [runBatch, fetchEpssTimeSeriesBatch, if_neg hb] at h
  cases hp : (replyRows (env.reply batch) : Py (List (HistoryRow Score))) with
  | error e =>
    rw [hp] at h
    cases h
  | ok rows =>
    rw [hp] at h
    cases rows with
    | nil =>
      cases h
      refine ⟨rfl, rfl, List.Subset.refl _, fun rows hf row hm ↦ ?_⟩
      obtain rfl := Except.ok.inj (hp.symm.trans (hrows rows hf))
      cases hm
    | cons r rs =>
      dsimp only at h
      split at h
      · cases h
      · obtain ⟨history, hi, rfl⟩ := Option.map_eq_some_iff.mp h
        obtain ⟨hall, hsub⟩ := insertRows_keys hi
        refine ⟨rfl, rfl, hsub, fun rows hf ↦ ?_⟩
        obtain rfl := Except.ok.inj (hp.symm.trans (hrows rows hf))
        exact hall

omit [Floats Score] in
theorem Db.Has.mono {db db' : Db Score} {row : HistoryRow Score} (h : db.Has row)
    (hs : db.history.map Prod.fst ⊆ db'.history.map Prod.fst) : db'.Has row := by
  obtain ⟨date, hd, hm⟩ := h
  exact ⟨date, hd, hs hm⟩

theorem runBatches_frame (env : Env) (db : Db Score) {bs : List (List Text)} (hb : ∀ b ∈ bs, b ≠ []) :
    (runBatches env db bs).1.cveIds = db.cveIds ∧ (runBatches env db bs).1.marker = db.marker ∧
      db.history.map Prod.fst ⊆ (runBatches env db bs).1.history.map Prod.fst := by
  induction bs generalizing db with
  | nil => exact ⟨rfl, rfl, List.Subset.refl _⟩
  | cons b bs ih =>
    rw [runBatches]
    cases hr : runBatch env db b with
    | none => exact ⟨rfl, rfl, List.Subset.refl _⟩
    | some db' =>
      obtain ⟨hc, hm, hs, -⟩ := runBatch_eq_some (hb b (.head _)) hr
      obtain ⟨hc', hm', hs'⟩ := ih db' fun b h ↦ hb b (.tail _ h)
      exact ⟨hc'.trans hc, hm'.trans hm, List.Subset.trans hs hs'⟩

theorem runBatches_completed {env : Env} {db : Db Score} {bs : List (List Text)} (hb : ∀ b ∈ bs, b ≠ []) :
    (runBatches env db bs).2.2 = true ↔ ∀ b ∈ bs, ¬Raises env b := by
  induction bs generalizing db with
  | nil => simp [runBatches]
  | cons b bs ih =>
    rw [runBatches, List.forall_mem_cons, ← runBatch_eq_none db (hb b (.head _))]
    cases hr : runBatch env db b with
    | none => simp
    | some db' =>
      simp only [reduceCtorEq, not_false_eq_true, true_and]
      exact ih fun b h ↦ hb b (.tail _ h)

/-- A loop that gets to its end has requested every batch, and what was fetched is in the history. -/
theorem runBatches_all {env : Env} {db : Db Score} {bs : List (List Text)} (hb : ∀ b ∈ bs, b ≠ [])
    (h : (runBatches env db bs).2.2 = true) :
    (runBatches env db bs).2.1 = bs ∧
      ∀ b ∈ bs, ∀ rows, Fetched (env.reply b) rows → ∀ row ∈ rows, (runBatches env db bs).1.Has row := by
  induction bs generalizing db with
  | nil => exact ⟨rfl, fun _ h ↦ absurd h List.not_mem_nil⟩
  | cons b bs ih =>
    have hb' : ∀ b ∈ bs, b ≠ [] := fun b h ↦ hb b (.tail _ h)
    rw [runBatches] at h ⊢
    cases hr : runBatch env db b with
    | none =>
      rw [hr] at h
      cases h
    | some db' =>
      rw [hr] at h
      obtain ⟨hreq, hall⟩ := ih hb' h
      obtain ⟨-, -, -, hnew⟩ := runBatch_eq_some (hb b (.head _)) hr
      obtain ⟨-, -, hs⟩ := runBatches_frame env db' hb'
      refine ⟨congrArg (b :: ·) hreq, List.forall_mem_cons.mpr ⟨?_, hall⟩⟩
      exact fun rows hf row hm ↦ (hnew rows hf row hm).mono hs

/-- A run without the marker is its batch loop, and the marker says whether that got to its end. -/
theorem run_eq {env : Env} {db : Db Score} (hm : db.marker = false) :
    runEpssBackfill env db =
      ({ (runBatches env db db.batches).1 with marker := (runBatches env db db.batches).2.2 },
        (runBatches env db db.batches).2.1) := by
  rw [runEpssBackfill, hm, if_neg Bool.false_ne_true]
  by_cases hc : db.cveIds = []
  · have hn : db.batches = [] := by rw [Db.batches, hc]; rfl
    rw [if_pos hc, hn]
    rfl
  · rw [if_neg hc]
    obtain ⟨-, hf, -⟩ := runBatches_frame env db db.batch_ne_nil
    change (if (runBatches env db db.batches).2.2 then _ else (runBatches env db db.batches).1, _) = _
    cases hd : (runBatches env db db.batches).2.2 with
    | true => rfl
    | false =>
      rw [if_neg Bool.false_ne_true, ← hf.trans hm]
      rfl

/-- The marker is written only after every batch was fetched and inserted, and a batch that was
not is requested again by the next run. -/
def MarkerSound (env : Env) (db : Db Score) : Prop :=
  db.marker = false →
    ((runEpssBackfill env db).1.marker = true → ∀ b ∈ db.batches,
      ∃ rows, Fetched (env.reply b) rows ∧ ∀ row ∈ rows, (runEpssBackfill env db).1.Has row) ∧
    ∀ b ∈ db.batches, (¬∃ rows : List (HistoryRow Score), Fetched (env.reply b) rows) →
      ∀ env', (∀ b ∈ db.batches, ¬Raises env' b) → b ∈ (runEpssBackfill env' (runEpssBackfill env db).1).2

theorem run_marker {env : Env} {db : Db Score} (hm : db.marker = false) :
    (runEpssBackfill env db).1.marker = true ↔ ∀ b ∈ db.batches, ¬Raises env b := by
  rw [run_eq hm]
  exact runBatches_completed db.batch_ne_nil

theorem run_batches {env : Env} {db : Db Score} (hm : db.marker = false) :
    (runEpssBackfill env db).1.batches = db.batches := by
  rw [run_eq hm, Db.batches, (runBatches_frame env db db.batch_ne_nil).1]
  rfl

theorem run_requests {env : Env} {db : Db Score} (hm : db.marker = false) (h : ∀ b ∈ db.batches, ¬Raises env b) :
    (runEpssBackfill env db).2 = db.batches := by
  rw [run_eq hm]
  exact (runBatches_all db.batch_ne_nil ((runBatches_completed db.batch_ne_nil).mpr h)).1

theorem run_inserted {env : Env} {db : Db Score} (hm : db.marker = false) (h : ∀ b ∈ db.batches, ¬Raises env b)
    {b : List Text} (hb : b ∈ db.batches) {rows : List (HistoryRow Score)} (hf : Fetched (env.reply b) rows) :
    ∀ row ∈ rows, (runEpssBackfill env db).1.Has row := by
  rw [run_eq hm]
  exact (runBatches_all db.batch_ne_nil ((runBatches_completed db.batch_ne_nil).mpr h)).2 b hb rows hf

/-- The fetcher hides every failure that does not raise, so the marker can be trusted exactly when
all replies are complete or the run is aborted by one that raises. -/
theorem marker_sound_iff (env : Env) (db : Db Score) :
    MarkerSound env db ↔ db.marker = true ∨
      (∀ b ∈ db.batches, ∃ rows : List (HistoryRow Score), Fetched (env.reply b) rows) ∨ ∃ b ∈ db.batches, Raises env b := by
  constructor
  · intro h
    by_cases hm : db.marker = true
    · exact .inl hm
    by_cases hr : ∃ b ∈ db.batches, Raises env b
    · exact .inr (.inr hr)
    have hm : db.marker = false := Bool.eq_false_iff.mpr hm
    have hdone := (run_marker hm).mpr fun b hb hR ↦ hr ⟨b, hb, hR⟩
    refine .inr (.inl fun b hb ↦ ?_)
    obtain ⟨rows, hf, -⟩ := (h hm).1 hdone b hb
    exact ⟨rows, hf⟩
  · intro h hm
    have h := h.resolve_left (by rw [hm]; exact Bool.false_ne_true)
    refine ⟨fun hdone b hb ↦ ?_, fun b hb hn env' hok ↦ ?_⟩
    · have hno := (run_marker hm).mp hdone
      obtain ⟨rows, hf⟩ := h.resolve_right (fun ⟨b, hb, hR⟩ ↦ hno b hb hR) b hb
      exact ⟨rows, hf, run_inserted hm hno hb hf⟩
    · have hR := h.resolve_left fun hall ↦ hn (hall b hb)
      have hm' : (runEpssBackfill env db).1.marker = false := by
        obtain ⟨b, hb, hR⟩ := hR
        exact Bool.eq_false_iff.mpr fun hd ↦ (run_marker hm).mp hd b hb hR
      rw [run_requests hm' (by rwa [run_batches hm]), run_batches hm]
      exact hb

end

section

def cve1 : Text := "CVE-2024-0001"

local instance : Interp := ascii fun _ ↦ none

local instance : Floats ℕ where
  float _ := .valueError
  float_str := FloatCall.valueError_ne

local instance : Driver where
  bindText
    | .str s => some s
    | _ => none
  bindText_str _ := rfl

/-- The only request is answered with an error status. -/
def failingEnv : Env := ⟨fun _ ↦ .statusError 503, fun _ ↦ false⟩

def oneCve : Db ℕ := ⟨[cve1], false, []⟩

/-- The batch failed, but the marker is written and the next run requests nothing. -/
theorem marker_after_failed_batch :
    (runEpssBackfill failingEnv oneCve).1.marker = true ∧ (runEpssBackfill failingEnv oneCve).1.history = [] ∧
      (∀ env, (runEpssBackfill env (runEpssBackfill failingEnv oneCve).1).2 = []) ∧
      ¬MarkerSound failingEnv oneCve := by
  refine ⟨rfl, rfl, fun _ ↦ rfl, fun h ↦ ?_⟩
  obtain ⟨rows, ⟨fields, items, hr, -⟩, -⟩ := (h rfl).1 rfl [cve1] (.head _)
  cases hr

end

end Briefr.Scheduler.EpssBackfill
