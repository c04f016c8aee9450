import Briefr.Backfill.Worker
import Briefr.Library.Runs

namespace Briefr.Backfill

open Briefr.Python Briefr.Library.Runs

/-- A run whose executions do not overlap. -/
structure Solo where
  tables : Tables
  worker : Option Worker

def Solo.of (r : Tables × Option Worker) : Solo := ⟨r.1, r.2⟩

inductive Event
  | start (monotonic : ℤ)
  | step (now : ℤ) (s : Step)

def soloStep (stale : ℤ) (w : Solo) : Event → Solo
  | .start monotonic =>
    match w.worker with
    | none => { w with worker := begin monotonic w.tables }
    | some _ => w
  | .step now s =>
    match w.worker with
    | none => w
    | some wk => .of (advance stale now w.tables wk s)

theorem mem_upsertCheckpoint {t : Tables} {cp c : Checkpoint} :
    c ∈ (upsertCheckpoint t cp).checkpoints ↔ c = cp ∨ (c ∈ t.checkpoints ∧ c.productKey ≠ cp.productKey) := by
  rw [upsertCheckpoint]
  split
  · next h =>
    simp only [List.mem_map]
    constructor
    · intro ⟨old, hold, he⟩
      rw [setRow] at he
      split at he
      · exact .inl he.symm
      · next hk =>
        rw [← he]
        exact .inr ⟨hold, hk⟩
    · intro hc
      rcases hc with rfl | ⟨hc, hk⟩
      · obtain ⟨old, hold, hk⟩ := List.mem_map.mp h
        exact ⟨old, hold, if_pos hk⟩
      · exact ⟨c, hc, if_neg hk⟩
  · next h =>
    simp only [List.mem_append, List.mem_singleton]
    constructor
    · intro hc
      rcases hc with hc | hc
      · exact .inr ⟨hc, fun hk ↦ h (hk ▸ List.mem_map_of_mem hc)⟩
      · exact .inl hc
    · intro hc
      rcases hc with hc | ⟨hc, -⟩
      · exact .inr hc
      · exact .inl hc

theorem run_upsertCheckpoint (t : Tables) (cp : Checkpoint) : (upsertCheckpoint t cp).run = t.run := by
  rw [upsertCheckpoint]
  split <;> rfl

theorem upserted_upsertCheckpoint (t : Tables) (cp : Checkpoint) : (upsertCheckpoint t cp).upserted = t.upserted := by
  rw [upsertCheckpoint]
  split <;> rfl

theorem epssTried_upsertCheckpoint (t : Tables) (cp : Checkpoint) : (upsertCheckpoint t cp).epssTried = t.epssTried := by
  rw [upsertCheckpoint]
  split <;> rfl

theorem kevTried_upsertCheckpoint (t : Tables) (cp : Checkpoint) : (upsertCheckpoint t cp).kevTried = t.kevTried := by
  rw [upsertCheckpoint]
  split <;> rfl

theorem pages_upsertCheckpoint (t : Tables) (cp : Checkpoint) : (upsertCheckpoint t cp).pages = t.pages := by
  rw [upsertCheckpoint]
  split <;> rfl

/-- A worker that goes on without a page of its own. -/
structure GoesOn (w wk : Worker) : Prop where
  cvesUpserted : wk.cvesUpserted = w.cvesUpserted
  newIds : wk.newIds = w.newIds
  fetching : ∀ cp, wk.phase = .fetching cp → w.phase = .fetching cp
  completing : wk.phase = .completing → w.phase = .completing ∨ w.newIds = []
  closing : w.phase = .closing → wk.phase = .closing

/-- A step that leaves the checkpoints and what was upserted and tried alone. -/
structure Quiet (s : Step) (t : Tables) (w : Worker) (r : Tables × Option Worker) : Prop where
  checkpoints : r.1.checkpoints = t.checkpoints
  pages : r.1.pages = t.pages
  upserted : r.1.upserted = t.upserted
  epssTried : r.1.epssTried = t.epssTried
  kevTried : r.1.kevTried = t.kevTried
  cves : r.1.run.cvesUpserted = t.run.cvesUpserted ∨ r.1.run.cvesUpserted = w.cvesUpserted
  completed : r.1.run.status = .completed → t.run.status = .completed ∨
    (s = .complete ∧ w.phase = .completing ∧ ∀ wk, r.2 = some wk → wk.phase = .closing)
  worker : ∀ wk, r.2 = some wk → GoesOn w wk

theorem Quiet.same (s : Step) (t : Tables) (w : Worker) : Quiet s t w (t, some w) :=
  ⟨rfl, rfl, rfl, rfl, rfl, .inl rfl, .inl, fun wk he ↦ by
    obtain rfl := Option.some.inj he
    exact ⟨rfl, rfl, fun _ ↦ id, .inl, id⟩⟩

theorem Quiet.gone (s : Step) (t : Tables) (w : Worker) : Quiet s t w (t, none) :=
  ⟨rfl, rfl, rfl, rfl, rfl, .inl rfl, .inl, by simp⟩

theorem Quiet.moved (s : Step) (t : Tables) (w : Worker) {phase : Phase} (hf : ∀ cp, phase ≠ .fetching cp)
    (hc : phase = .completing → w.newIds = []) (hw : w.phase ≠ .closing) :
    Quiet s t w (t, some { w with phase := phase }) :=
  ⟨rfl, rfl, rfl, rfl, rfl, .inl rfl, .inl, fun wk he ↦ by
    obtain rfl := Option.some.inj he
    exact ⟨rfl, rfl, fun cp h ↦ absurd h (hf cp), fun h ↦ .inr (hc h), fun h ↦ absurd h hw⟩⟩

/-- The run is written, and the worker goes on to a phase that needs no more than that. -/
theorem Quiet.run (s : Step) (now : ℤ) (t : Tables) (w : Worker) {f : Run → Run} {phase : Phase}
    (hcves : (f t.run).cvesUpserted = t.run.cvesUpserted ∨ (f t.run).cvesUpserted = w.cvesUpserted)
    (hcompleted : (f t.run).status = .completed → t.run.status = .completed ∨
      (s = .complete ∧ w.phase = .completing ∧ phase = .closing))
    (hf : ∀ cp, phase ≠ .fetching cp) (hc : phase ≠ .completing) (hw : w.phase ≠ .closing) :
    Quiet s t w (updateRun now t f, some { w with phase := phase, beat := now }) := by
  refine ⟨rfl, rfl, rfl, rfl, rfl, hcves, ?_, ?_⟩
  · intro h
    rcases hcompleted h with h | ⟨hs, hp, he⟩
    · exact .inl h
    · refine .inr ⟨hs, hp, fun wk hwk ↦ ?_⟩
      rw [← Option.some.inj hwk]
      exact he
  · intro wk hwk
    rw [← Option.some.inj hwk]
    exact ⟨rfl, rfl, fun cp h ↦ absurd h (hf cp), fun h ↦ absurd h hc, fun h ↦ absurd h hw⟩

theorem Quiet.handle (s : Step) (now : ℤ) (t : Tables) {w : Worker} (hw : w.phase ≠ .closing) :
    Quiet s t w (handle now t w) := by
  rw [Backfill.handle]
  refine .run s now t w (.inl rfl) ?_ ?_ ?_ hw <;> simp

theorem loopStep_cases (now monotonic : ℤ) (t : Tables) {w : Worker} (hw : w.phase ≠ .closing) :
    Quiet (.loop monotonic) t w (loopStep now monotonic t w) ∨
      ∃ cp, nextPendingCheckpoint t = some cp ∧
        loopStep now monotonic t w =
          (updateRun now (upsertCheckpoint t { cp with status := .running }) id,
            some { w with phase := .fetching cp, beat := now }) := by
  rw [loopStep]
  split
  · refine .inl (.run _ now t w (.inl rfl) ?_ ?_ ?_ hw) <;> simp
  · split
    · refine .inl (.run _ now t w (.inr rfl) ?_ ?_ ?_ hw) <;> simp
    · split
      · next cp hcp => exact .inr ⟨cp, hcp, rfl⟩
      · split
        · next hn => refine .inl (.moved _ t w ?_ (fun _ ↦ hn) hw); simp
        · refine .inl (.run _ now t w (.inl rfl) .inl ?_ ?_ hw) <;> simp

/-- What a step of a worker can do. -/
theorem advance_cases (stale now : ℤ) (t : Tables) (w : Worker) (s : Step) :
    Quiet s t w (advance stale now t w s) ∨
      (∃ cp, nextPendingCheckpoint t = some cp ∧ w.phase = .looping ∧
        advance stale now t w s =
          (updateRun now (upsertCheckpoint t { cp with status := .running }) id,
            some { w with phase := .fetching cp, beat := now })) ∨
      (∃ p fault cp, s = .page p fault ∧ w.phase = .fetching cp ∧
        advance stale now t w s = pageStep now t w cp p fault) ∨
      s = .enrich ∧ w.phase = .enriching ∧ advance stale now t w s = enrichStep t w := by
  cases s with
  | claim =>
    cases hw : w.phase with
    | claiming =>
      simp only [advance, hw, claimRunRunning]
      split
      · refine .inl (.run _ now t w (.inl rfl) ?_ ?_ ?_ ?_) <;> simp [hw]
      · exact .inl (.gone _ t w)
    | _ =>
      simp only [advance, hw]
      exact .inl (.same _ t w)
  | loop monotonic =>
    cases hw : w.phase with
    | looping =>
      simp only [advance, hw, true_and]
      exact (loopStep_cases now monotonic t (by simp [hw])).imp_right .inl
    | _ =>
      simp only [advance, hw]
      exact .inl (.same _ t w)
  | page p fault =>
    cases hw : w.phase with
    | fetching cp =>
      simp only [advance, hw]
      exact .inr (.inr (.inl ⟨p, fault, cp, rfl, rfl, rfl⟩))
    | _ =>
      simp only [advance, hw]
      exact .inl (.same _ t w)
  | resumed =>
    cases hw : w.phase with
    | deferring =>
      simp only [advance, hw]
      refine .inl (.run _ now t w (.inl rfl) .inl ?_ ?_ ?_) <;> simp [hw]
    | _ =>
      simp only [advance, hw]
      exact .inl (.same _ t w)
  | enrich =>
    cases hw : w.phase with
    | enriching =>
      simp only [advance, hw]
      exact .inr (.inr (.inr (by simp)))
    | _ =>
      simp only [advance, hw]
      exact .inl (.same _ t w)
  | complete =>
    cases hw : w.phase with
    | completing =>
      simp only [advance, hw, completeStep]
      refine .inl (.run _ now t w (.inr rfl) (fun _ ↦ .inr ⟨rfl, hw, rfl⟩) ?_ ?_ ?_) <;> simp [hw]
    | _ =>
      simp only [advance, hw]
      exact .inl (.same _ t w)
  | raise handled =>
    have hmoved : w.phase ≠ .closing → Quiet (.raise handled) t w (t, some { w with phase := .closing }) :=
      fun hw ↦ .moved _ t w (by simp) (by simp) hw
    cases handled <;> cases hw : w.phase <;> simp only [advance, hw] <;>
      first
        | exact .inl (.handle _ now t (by simp [hw]))
        | exact .inl (.gone _ t w)
        | exact .inl (.same _ t w)
        | exact .inl (hmoved (by simp [hw]))
  | close =>
    cases hw : w.phase with
    | closing =>
      simp only [advance, hw]
      exact .inl (.gone _ t w)
    | _ =>
      simp only [advance, hw]
      exact .inl (.same _ t w)
  | crash =>
    simp only [advance]
    exact .inl (.gone _ t w)

/-- The branch that a page takes. -/
inductive Kind
  | held
  | notFound
  | upserted

def kind (cp : Checkpoint) (p : Page) : Kind :=
  if p.err = some .rateLimited ∨ p.err = some .http5xx ∨ p.err = some .error then .held
  else if p.err = some .notFound ∨ (p.total = 0 ∧ cp.startIndex = 0) then .notFound
  else .upserted

/-- What the branch of a held page writes. -/
theorem pageBranch_held {w : Worker} {cp : Checkpoint} {p : Page} (h : kind cp p = .held) :
    ∃ status runStatus phase, status.isOpen = true ∧ (∀ cp, phase ≠ .fetching cp) ∧ runStatus ≠ .completed ∧
      pageBranch w cp p = {
        checkpoint := { cp with status := status }, run := fun run ↦ { run with status := runStatus }
        next := { w with phase := phase } } := by
  rw [kind] at h
  rw [pageBranch]
  split at h
  · next he =>
    by_cases hr : p.err = some .rateLimited
    · exact ⟨.deferred, .deferred, .deferring, rfl, by simp, by decide, by rw [if_pos hr]⟩
    · exact ⟨.onHold, .onHold, .closing, rfl, by simp, by decide, by rw [if_neg hr, if_pos (he.resolve_left hr)]⟩
  · split at h <;> cases h

theorem pageBranch_notFound {w : Worker} {cp : Checkpoint} {p : Page} (h : kind cp p = .notFound) :
    pageBranch w cp p = {
      checkpoint := ⟨cp.productKey, .notFound, 0, 0, 0⟩, run := fun run ↦ { run with pagesDone := w.pagesDone + 1 }
      next := { w with phase := .looping, pagesDone := w.pagesDone + 1 } } := by
  rw [kind] at h
  split at h
  · cases h
  · next he =>
    split at h
    · next hn => rw [pageBranch, if_neg fun hr ↦ he (.inl hr), if_neg fun hr ↦ he (.inr hr), if_pos hn]
    · cases h

theorem pageBranch_upserted {w : Worker} {cp : Checkpoint} {p : Page} (h : kind cp p = .upserted) :
    ∃ status start, (if p.total ≤ (cp.startIndex + resultsPerPage : ℕ) ∨ p.cves = [] then status = .done
        else status = .pending ∧ start = cp.startIndex + resultsPerPage) ∧
      pageBranch w cp p = {
        checkpoint := ⟨cp.productKey, status, start, p.total, cp.cvesUpserted + p.ids.length⟩
        run := fun run ↦
          { run with cvesUpserted := w.cvesUpserted + p.ids.length, pagesDone := w.pagesDone + 1 }
        pages := [(cp.productKey, cp.startIndex)], ids := p.ids
        next := { w with
          phase := .looping, cvesUpserted := w.cvesUpserted + p.ids.length, pagesDone := w.pagesDone + 1
          newIds := w.newIds ++ p.ids } } := by
  rw [kind] at h
  split at h
  · cases h
  · next he =>
    split at h
    · cases h
    · next hn =>
      by_cases hd : p.total ≤ (cp.startIndex + resultsPerPage : ℕ) ∨ p.cves = []
      · refine ⟨.done, 0, by rw [if_pos hd], ?_⟩
        rw [pageBranch, if_neg fun hr ↦ he (.inl hr), if_neg fun hr ↦ he (.inr hr), if_neg hn]
        simp only [hd, if_true]
      · refine ⟨.pending, cp.startIndex + resultsPerPage, by rw [if_neg hd]; exact ⟨rfl, rfl⟩, ?_⟩
        rw [pageBranch, if_neg fun hr ↦ he (.inl hr), if_neg fun hr ↦ he (.inr hr), if_neg hn]
        simp only [hd, if_false]

/-- Nothing was done for the run yet. -/
structure Fresh (t : Tables) : Prop where
  status : t.run.status = .pending
  cves : t.run.cvesUpserted = 0
  pages : t.pages = []
  epssTried : t.epssTried = []
  checkpoints : ∀ cp ∈ t.checkpoints, cp.status = .pending ∧ cp.startIndex = 0 ∧ cp.cvesUpserted = 0

theorem Fresh.upsert {t : Tables} (h : Fresh t) (key : Text) : Fresh (upsertCheckpoint t ⟨key, .pending, 0, 0, 0⟩) := by
  have hrun := run_upsertCheckpoint t ⟨key, .pending, 0, 0, 0⟩
  refine ⟨hrun ▸ h.status, hrun ▸ h.cves, (pages_upsertCheckpoint _ _).trans h.pages,
    (epssTried_upsertCheckpoint _ _).trans h.epssTried, ?_⟩
  intro cp hcp
  rcases mem_upsertCheckpoint.mp hcp with rfl | ⟨hcp, -⟩
  · exact ⟨rfl, rfl, rfl⟩
  · exact h.checkpoints cp hcp

theorem fresh_createRun (maxCves maxRuntime now : ℤ) (productKeys : List Text) :
    Fresh (createRun maxCves maxRuntime now productKeys) := by
  have hfold : ∀ (keys : List Text) (t : Tables), Fresh t →
      Fresh (keys.foldl (fun t key ↦ upsertCheckpoint t ⟨key, .pending, 0, 0, 0⟩) t) := by
    intro keys
    induction keys with
    | nil => exact fun _ h ↦ h
    | cons key keys ih => exact fun t h ↦ ih _ (h.upsert key)
  exact hfold productKeys _ ⟨rfl, rfl, rfl, rfl, by simp⟩

/-- The ids of a page go to the local ones, and no page completes a run. -/
theorem pageBranch_next (w : Worker) (cp : Checkpoint) (p : Page) (run : Run) :
    (pageBranch w cp p).next.newIds = w.newIds ++ (pageBranch w cp p).ids ∧
      (pageBranch w cp p).next.phase ≠ .completing ∧
      (((pageBranch w cp p).run run).status = .completed → run.status = .completed) := by
  cases hk : kind cp p with
  | held =>
    simp only [kind] at hk
    rw [pageBranch]
    split
    · simp
    · split
      · simp
      · next hr hh =>
        rw [if_neg (by rw [not_or]; exact ⟨hr, hh⟩)] at hk
        split at hk <;> cases hk
  | notFound =>
    rw [pageBranch_notFound hk]
    simp
  | upserted =>
    obtain ⟨status, start, -, hb⟩ := pageBranch_upserted (w := w) hk
    rw [hb]
    simp

end Briefr.Backfill
