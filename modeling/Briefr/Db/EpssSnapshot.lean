import Briefr.Library.Dict
import Briefr.Library.Batches
import Briefr.Python.Text

namespace Briefr.Db.EpssSnapshot

open Briefr.Library Briefr.Library.StableSort Briefr.Library.PagedReads Briefr.Python

section
variable {κ σ : Type} [LinearOrder κ] [OrderBot κ]

/-- The two tables, and the history as it was committed last. The ids are in the order of the database, the empty one
first. -/
structure Tables (κ σ : Type) where
  cves : List (κ × Option σ)
  nodup : (cves.map Prod.fst).Nodup
  history : Dict (κ × Text) σ
  committed : Dict (κ × Text) σ

def chunk : ℕ := 500

/-- `page_size or _SQLITE_IN_CHUNK` -/
def limitOf : Option ℕ → ℕ
  | some (n + 1) => n + 1
  | _ => chunk

/-- The day that is given, or today. -/
def dayOf (recordedDate : Option Text) (today : Text) : Text :=
  match recordedDate with
  | some (c :: day) => c :: day
  | _ => today

def selectPageCursor (db : Tables κ σ) (after : κ) (limit : ℕ) : List κ :=
  (sortBy id ((db.cves.filter fun c ↦ c.2.isSome && decide (after < c.1)).map Prod.fst)).take limit

/-- The rows that have a score, behind an id. -/
def scored (cves : List (κ × Option σ)) (after : κ) : List (κ × σ) :=
  (cves.filterMap fun c ↦ c.2.map fun score ↦ (c.1, score)).filter fun r ↦ decide (after < r.1)

/-- `INSERT OR REPLACE`, or `ON CONFLICT DO UPDATE` -/
def record (day : Text) (history : Dict (κ × Text) σ) (rows : List (κ × σ)) : Dict (κ × Text) σ :=
  rows.foldl (fun history r ↦ history.set (r.1, day) r.2) history

def snapshotPage (db : Tables κ σ) (day : Text) (after : κ) (limit : ℕ) : Tables κ σ × ℕ :=
  let rows := (sortBy Prod.fst (scored db.cves after)).take limit
  ({ db with history := record day db.history rows }, rows.length)

def maybeBulkCommit (db : Tables κ σ) (opsDone : ℕ) (commitEvery : Option ℕ) : Tables κ σ :=
  match commitEvery with
  | some (n + 1) => if 0 < opsDone ∧ opsDone % (n + 1) = 0 then { db with committed := db.history } else db
  | _ => db

structure State (κ σ : Type) where
  db : Tables κ σ
  total : ℕ
  after : κ
  pages : ℕ

/-- The loop, for a number of turns at most. -/
def snapshotLoop (day : Text) (limit : ℕ) (commitEvery : Option ℕ) : ℕ → State κ σ → Option (Tables κ σ × ℕ)
  | 0, _ => none
  | turns + 1, s =>
    let pageRows := selectPageCursor s.db s.after limit
    match pageRows.getLast? with
    | none => some (s.db, s.total)
    | some last =>
      let (db, rowcount) := snapshotPage s.db day s.after limit
      let s := { db := maybeBulkCommit db (s.pages + 1) commitEvery, total := s.total + rowcount, after := last,
                 pages := s.pages + 1 : State κ σ }
      if pageRows.length < limit then some (s.db, s.total) else snapshotLoop day limit commitEvery turns s

def snapshotEpssScores (turns : ℕ) (db : Tables κ σ) (recordedDate : Option Text) (today : Text)
    (commitEvery pageSize : Option ℕ) : Option (Tables κ σ × ℕ) :=
  snapshotLoop (dayOf recordedDate today) (limitOf pageSize) commitEvery turns ⟨db, 0, ⊥, 0⟩

/-- The history is what one copy of all scores would leave. -/
structure Snapshot (cves : List (κ × Option σ)) (day : Text) (old new : Dict (κ × Text) σ) : Prop where
  copied : new = record day old (sortBy Prod.fst (scored cves ⊥))
  current : ∀ id score, (id, some score) ∈ cves → id ≠ ⊥ →
    new.items.filter (fun row ↦ row.1 = (id, day)) = [((id, day), score)]
  others : new.items.filter (fun row ↦ row.1.2 ≠ day) = old.items.filter fun row ↦ row.1.2 ≠ day

section
variable {cves : List (κ × Option σ)} {after id : κ} {score : σ} {day : Text} {history : Dict (κ × Text) σ}
  {rows rows' : List (κ × σ)}

omit [OrderBot κ] in
theorem mem_scored : (id, score) ∈ scored cves after ↔ (id, some score) ∈ cves ∧ after < id := by
  rw [scored, List.mem_filter, List.mem_filterMap, decide_eq_true_iff]
  refine and_congr_left fun _ ↦ ⟨?_, fun h ↦ ⟨_, h, rfl⟩⟩
  rintro ⟨⟨id', found⟩, hmem, heq⟩
  obtain ⟨score', rfl, heq⟩ := Option.map_eq_some_iff.mp heq
  cases heq
  exact hmem

omit [OrderBot κ] in
/-- The ids behind an id that have a score. -/
theorem map_scored (cves : List (κ × Option σ)) (after : κ) : (scored cves after).map Prod.fst =
    (cves.filter fun c ↦ c.2.isSome && decide (after < c.1)).map Prod.fst := by
  induction cves with
  | nil => rfl
  | cons c cves ih =>
    obtain ⟨id, found⟩ := c
    cases found with
    | none => exact ih
    | some score =>
      by_cases hafter : after < id
      · simpa [scored, hafter] using ih
      · simpa [scored, hafter] using ih

omit [OrderBot κ] in
theorem nodup_scored (h : (cves.map Prod.fst).Nodup) (after : κ) : ((scored cves after).map Prod.fst).Nodup := by
  rw [map_scored]
  exact h.sublist (List.filter_sublist.map Prod.fst)

omit [OrderBot κ] in
/-- Both queries read the same page. -/
theorem selectPageCursor_eq (tables : Tables κ σ) (after : κ) (limit : ℕ) : selectPageCursor tables after limit =
    ((sortBy Prod.fst (scored tables.cves after)).take limit).map Prod.fst := by
  rw [selectPageCursor, ← map_scored, ← map_sortBy Prod.fst id, List.map_take]
  rfl

omit [OrderBot κ] in
/-- Behind the last row of a page are the rows that it leaves. -/
theorem scored_behind (h : (cves.map Prod.fst).Nodup) {limit : ℕ} {last : κ × σ}
    (hlast : ((sortBy Prod.fst (scored cves after)).take limit).getLast? = some last) :
    sortBy Prod.fst (scored cves last.1) = (sortBy Prod.fst (scored cves after)).drop limit := by
  rw [← filter_behind_last (pairwise_lt_sortBy (nodup_scored h after)) hlast, filter_sortBy]
  congr 1
  have hmem := List.mem_of_mem_take (List.mem_of_getLast? hlast)
  have hafter : after < last.1 := (mem_scored.mp ((perm_sortBy Prod.fst _).mem_iff.mp hmem)).2
  rw [scored, scored, List.filter_filter]
  refine List.filter_congr fun r _ ↦ ?_
  by_cases hr : last.1 < r.1
  · simp [hr, hafter.trans hr]
  · simp [hr]

omit [OrderBot κ] in
theorem get?_record (hrows : (rows.map Prod.fst).Nodup) (key : κ × Text) :
    (record day history rows).get? key =
      if key.2 = day then (rows.lookup key.1).or (history.get? key) else history.get? key := by
  induction rows generalizing history with
  | nil => simp [record]
  | cons r rows ih =>
    obtain ⟨hr, hrows⟩ := List.nodup_cons.mp hrows
    change (record day (history.set (r.1, day) r.2) rows).get? key = _
    rw [ih hrows, Dict.get?_set]
    by_cases hday : key.2 = day
    · rw [if_pos hday, if_pos hday]
      by_cases hkey : key.1 = r.1
      · have hnone : rows.lookup key.1 = none := by
          rw [hkey, List.lookup_eq_none_iff]
          rintro p hp
          rw [bne_iff_ne]
          rintro heq
          exact hr (heq ▸ List.mem_map_of_mem hp)
        have hsame : key = (r.1, day) := Prod.ext hkey hday
        rw [hnone, Option.none_or, if_pos hsame, hkey, List.lookup_cons_self]
        rfl
      · have hother : key ≠ (r.1, day) := fun h ↦ hkey (congrArg Prod.fst h)
        rw [if_neg hother, Dict.lookup_cons_of_ne hkey]
    · have hother : key ≠ (r.1, day) := fun h ↦ hday (congrArg Prod.snd h)
      rw [if_neg hday, if_neg hday, if_neg hother]

omit [OrderBot κ] in
/-- Rows that are there already change nothing. -/
theorem record_self (h : ∀ r ∈ rows, history.get? (r.1, day) = some r.2) : record day history rows = history := by
  induction rows with
  | nil => rfl
  | cons r rows ih =>
    obtain ⟨hr, hrows⟩ := List.forall_mem_cons.mp h
    change record day (history.set (r.1, day) r.2) rows = history
    rw [Dict.set_get? hr]
    exact ih hrows

omit [OrderBot κ] in
theorem record_others : (record day history rows).items.filter (fun row ↦ row.1.2 ≠ day) =
    history.items.filter fun row ↦ row.1.2 ≠ day := by
  induction rows generalizing history with
  | nil => rfl
  | cons r rows ih =>
    change (record day (history.set (r.1, day) r.2) rows).items.filter _ = _
    rw [ih]
    change (Dict.setItem (r.1, day) r.2 history.items).filter _ = _
    induction history.items with
    | nil => simp [Dict.setItem]
    | cons e items ih' =>
      rw [Dict.setItem]
      split_ifs with he
      · simp [he]
      · rw [List.filter_cons, List.filter_cons, ih']

omit [LinearOrder κ] [OrderBot κ] in
theorem filter_key {β ν : Type} [DecidableEq β] {items : List (β × ν)} (h : (items.map Prod.fst).Nodup) {k : β} {v : ν}
    (hmem : (k, v) ∈ items) : items.filter (fun e ↦ e.1 = k) = [(k, v)] := by
  induction items with
  | nil => cases hmem
  | cons e items ih =>
    obtain ⟨he, hitems⟩ := List.nodup_cons.mp h
    rcases List.mem_cons.mp hmem with rfl | hmem
    · rw [List.filter_cons_of_pos (by simp), List.filter_eq_nil_iff.mpr]
      intro e' he'
      rw [decide_eq_true_iff]
      rintro rfl
      exact he (List.mem_map.mpr ⟨e', he', rfl⟩)
    · have hne : e.1 ≠ k := by
        rintro rfl
        exact he (List.mem_map.mpr ⟨_, hmem, rfl⟩)
      rw [List.filter_cons_of_neg (by simpa using hne), ih hitems hmem]

end

section
variable {day : Text} {limit : ℕ} {commitEvery : Option ℕ}

omit [LinearOrder κ] [OrderBot κ] in
theorem maybeBulkCommit_cves (tables : Tables κ σ) (opsDone : ℕ) (commitEvery : Option ℕ) :
    (maybeBulkCommit tables opsDone commitEvery).cves = tables.cves ∧
      (maybeBulkCommit tables opsDone commitEvery).history = tables.history := by
  rw [maybeBulkCommit.eq_def]
  split
  · split_ifs <;> exact ⟨rfl, rfl⟩
  · exact ⟨rfl, rfl⟩

omit [OrderBot κ] in
/-- The loop records what lies behind its place, page by page. -/
theorem snapshotLoop_eq (hlimit : 0 < limit) (turns : ℕ) (s : State κ σ)
    (hturns : (scored s.db.cves s.after).length < turns) :
    ∃ new, snapshotLoop day limit commitEvery turns s =
        some (new, s.total + (scored s.db.cves s.after).length) ∧ new.cves = s.db.cves ∧
      new.history = record day s.db.history (sortBy Prod.fst (scored s.db.cves s.after)) := by
  induction turns generalizing s with
  | zero => exact absurd hturns (Nat.not_lt_zero _)
  | succ turns ih =>
    have hlength := length_sortBy Prod.fst (scored s.db.cves s.after)
    have hnodup := s.db.nodup
    rw [snapshotLoop, selectPageCursor_eq, List.getLast?_map]
    cases hlast : ((sortBy Prod.fst (scored s.db.cves s.after)).take limit).getLast? with
    | none =>
      have hnil : sortBy Prod.fst (scored s.db.cves s.after) = [] := by
        have htake := List.getLast?_eq_none_iff.mp hlast
        rw [List.take_eq_nil_iff] at htake
        exact htake.resolve_left hlimit.ne'
      rw [hnil] at hlength
      refine ⟨s.db, ?_, rfl, ?_⟩
      · rw [← hlength]
        rfl
      · rw [hnil]
        rfl
    | some last =>
      have hbehind := scored_behind hnodup hlast
      have hmaybe := maybeBulkCommit_cves (snapshotPage s.db day s.after limit).1 (s.pages + 1) commitEvery
      rw [Option.map_some, List.length_map]
      dsimp only
      split_ifs with hfull
      · -- the page that is not full is the last one
        have hall : (sortBy Prod.fst (scored s.db.cves s.after)).take limit =
            sortBy Prod.fst (scored s.db.cves s.after) := by
          rw [List.length_take] at hfull
          exact List.take_of_length_le (by omega)
        refine ⟨_, ?_, hmaybe.1, ?_⟩
        · rw [snapshotPage, hall, hlength]
        · rw [hmaybe.2, snapshotPage, hall]
      · rw [List.length_take] at hfull
        have hscored : (scored s.db.cves last.1).length = (scored s.db.cves s.after).length - limit := by
          rw [← length_sortBy Prod.fst, hbehind, List.length_drop, hlength]
        obtain ⟨new, hloop, hcves, hhistory⟩ := ih
          ⟨maybeBulkCommit (snapshotPage s.db day s.after limit).1 (s.pages + 1) commitEvery,
            s.total + (snapshotPage s.db day s.after limit).2, last.1, s.pages + 1⟩
          (by rw [hmaybe.1]; change (scored s.db.cves last.1).length < turns; omega)
        dsimp only at hloop hcves hhistory
        rw [hmaybe.1] at hloop hcves hhistory
        refine ⟨new, ?_, hcves, ?_⟩
        · have hcount : (snapshotPage s.db day s.after limit).2 = limit := by
            change ((sortBy Prod.fst (scored s.db.cves s.after)).take limit).length = limit
            rw [List.length_take]
            omega
          have htotal : s.total + (snapshotPage s.db day s.after limit).2 + (scored s.db.cves last.1).length =
              s.total + (scored s.db.cves s.after).length := by omega
          rw [hloop]
          exact congrArg (fun n ↦ some (new, n)) htotal
        · rw [hhistory, hmaybe.2]
          change record day (record day s.db.history ((sortBy Prod.fst (scored s.db.cves s.after)).take limit))
            (sortBy Prod.fst (scored s.db.cves last.1)) = _
          rw [hbehind, record, record, ← List.foldl_append, List.take_append_drop]
          rfl

omit [OrderBot κ] in
/-- A loop that has ended does not need its other turns. -/
theorem snapshotLoop_mono {turns turns' : ℕ} (h : turns ≤ turns') {s : State κ σ} {result : Tables κ σ × ℕ}
    (hs : snapshotLoop day limit commitEvery turns s = some result) :
    snapshotLoop day limit commitEvery turns' s = some result := by
  induction turns generalizing s turns' with
  | zero => cases hs
  | succ turns ih =>
    obtain ⟨turns', rfl⟩ := Nat.exists_eq_add_of_le' (Nat.one_le_of_lt h)
    rw [snapshotLoop] at hs ⊢
    split at hs
    next => exact hs
    next =>
      dsimp only at hs ⊢
      split_ifs at hs ⊢
      · exact hs
      · exact ih (Nat.le_of_succ_le_succ h) hs

theorem limitOf_pos (pageSize : Option ℕ) : 0 < limitOf pageSize := by
  rw [limitOf.eq_def]
  split
  · exact Nat.succ_pos _
  · decide

theorem snapshot_record {cves : List (κ × Option σ)} (h : (cves.map Prod.fst).Nodup) (day : Text)
    (old : Dict (κ × Text) σ) : Snapshot cves day old (record day old (sortBy Prod.fst (scored cves ⊥))) := by
  refine ⟨rfl, fun id score hmem hid ↦ ?_, record_others⟩
  have hrows : ((sortBy Prod.fst (scored cves ⊥)).map Prod.fst).Nodup :=
    ((perm_sortBy Prod.fst _).map Prod.fst).nodup_iff.mpr (nodup_scored h ⊥)
  have hrow : (id, score) ∈ sortBy Prod.fst (scored cves ⊥) :=
    (perm_sortBy Prod.fst _).mem_iff.mpr (mem_scored.mpr ⟨hmem, bot_lt_iff_ne_bot.mpr hid⟩)
  refine filter_key (record day old (sortBy Prod.fst (scored cves ⊥))).nodup (Dict.mem_items_iff.mpr ?_)
  have hlookup : (sortBy Prod.fst (scored cves ⊥)).lookup id = some score :=
    (Dict.mem_items_iff (d := ⟨_, hrows⟩)).mp hrow
  rw [get?_record hrows, if_pos rfl, hlookup, Option.some_or]

/-- However the pages fall, a snapshot ends, is what one copy of all scores would leave, and is the same when it is
taken again for its day. -/
theorem snapshot_is_copy (tables : Tables κ σ) (recordedDate : Option Text) (today : Text)
    (commitEvery pageSize : Option ℕ) :
    ∃ new, (∃ least, ∀ turns, least ≤ turns →
        snapshotEpssScores turns tables recordedDate today commitEvery pageSize =
          some (new, (scored tables.cves ⊥).length)) ∧
      new.cves = tables.cves ∧
      Snapshot tables.cves (dayOf recordedDate today) tables.history new.history ∧
      ∀ recordedDate' today' commitEvery' pageSize', dayOf recordedDate' today' = dayOf recordedDate today →
        ∃ again, (∃ least, ∀ turns, least ≤ turns →
            snapshotEpssScores turns new recordedDate' today' commitEvery' pageSize' =
              some (again, (scored tables.cves ⊥).length)) ∧
          again.cves = new.cves ∧ again.history = new.history := by
  have hrun : ∀ (tables : Tables κ σ) (recordedDate : Option Text) (today : Text) (commitEvery pageSize : Option ℕ),
      ∃ new, (∃ least, ∀ turns, least ≤ turns →
          snapshotEpssScores turns tables recordedDate today commitEvery pageSize =
            some (new, (scored tables.cves ⊥).length)) ∧ new.cves = tables.cves ∧
        new.history = record (dayOf recordedDate today) tables.history (sortBy Prod.fst (scored tables.cves ⊥)) := by
    intro tables recordedDate today commitEvery pageSize
    obtain ⟨new, hloop, hcves, hhistory⟩ := @snapshotLoop_eq κ σ _
      (dayOf recordedDate today) _ commitEvery (limitOf_pos pageSize) _ ⟨tables, 0, ⊥, 0⟩ (Nat.lt_succ_self _)
    refine ⟨new, ⟨(scored tables.cves ⊥).length.succ, fun turns hturns ↦ ?_⟩, hcves, hhistory⟩
    rw [Nat.zero_add] at hloop
    exact snapshotLoop_mono hturns hloop
  obtain ⟨new, hnew, hcves, hhistory⟩ := hrun tables recordedDate today commitEvery pageSize
  have hsnapshot := snapshot_record tables.nodup (dayOf recordedDate today) tables.history
  rw [← hhistory] at hsnapshot
  refine ⟨new, hnew, hcves, hsnapshot, fun recordedDate' today' commitEvery' pageSize' hday ↦ ?_⟩
  obtain ⟨again, hagain, hcves', hhistory'⟩ := hrun new recordedDate' today' commitEvery' pageSize'
  rw [hcves] at hagain hhistory'
  refine ⟨again, hagain, hcves', ?_⟩
  rw [hhistory', hday]
  refine record_self fun r hr ↦ ?_
  obtain ⟨hmem, hlt⟩ := mem_scored.mp ((perm_sortBy Prod.fst _).mem_iff.mp hr)
  have hrow := hsnapshot.current r.1 r.2 hmem hlt.ne'
  refine Dict.mem_items_iff.mp (List.mem_of_mem_filter (p := fun row ↦ row.1 = (r.1, dayOf recordedDate today)) ?_)
  rw [hrow]
  exact List.mem_cons_self

end

end

end Briefr.Db.EpssSnapshot
