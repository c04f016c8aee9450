import Briefr.Library.Runs
import Briefr.Python.Value
import Mathlib.Logic.Function.Basic
import Mathlib.Data.List.Nodup

namespace Briefr.Scheduler.Restart

open Briefr.Python Briefr.Library Briefr.Library.Runs

/-- What the newest entry of a stored history says of its start: a time in microseconds, no time, or an entry without
`get`, which raises. -/
inductive Newest
  | startedAt (time : ℤ)
  | unusable
  | broken
  deriving DecidableEq

/-- `json.loads` of a history, and `datetime.fromisoformat`. -/
class Histories where
  newest : Text → Newest

export Histories (newest)

/-- A job of the scheduler. A cron job has no interval, and a paused one no next run. -/
structure Job where
  interval : Option ℤ
  nextRunTime : Option ℤ
  deriving DecidableEq

def restoreNextRunJobs : List Text := ["nvd_incremental_sync", "kev_metadata_sync", "epss_score_sync"]

def overdueStartupDelay : ℤ := 120000000

def computeRestoredNextRun (lastStartedAt interval now : ℤ) (defaultNextRun : Option ℤ) : Option ℤ :=
  let due := lastStartedAt + interval
  let due := if due ≤ now then now + overdueStartupDelay else due
  if defaultNextRun.any (· ≤ due) then none else some due

/-- The value of `scheduler.paused` that a pause writes. -/
def pausedMark : Text := "1"

/-- `_reapply_paused_jobs` before its query, after it, and at its end. -/
inductive Reapply
  | begun
  | fetched (rows : Text → Option Text)
  | done

/-- `_restore_ingest_next_runs` before it goes on with a job, after the query for one, and at its end. -/
inductive Restore
  | loop (rest : List Text)
  | fetched (jobId : Text) (raw : Option Text) (rest : List Text)
  | done

/-- The jobs that the task has yet to go through. -/
def Restore.pending : Restore → List Text
  | .loop rest => rest
  | .fetched jobId _ rest => jobId :: rest
  | .done => []

/-- The rows of `sync_state` for the jobs, `scheduler.paused` and `scheduler.last_run`, the jobs in memory, and the two
tasks of a startup. -/
structure State where
  paused : Text → Option Text
  lastRun : Text → Option Text
  jobs : Text → Option Job
  reapply : Reapply
  restore : Restore

/-- A process starts with its jobs, its two tasks go on, a job fires and is due again, and a row is written. -/
inductive Event
  | start (jobs : Text → Option Job)
  | reapplyFetch
  | reapplyPause
  | restoreFetch
  | restoreApply (now : ℤ)
  | fire (jobId : Text) (next : ℤ)
  | writePaused (jobId value : Text)
  | writeLastRun (jobId value : Text)

def Job.pause (job : Job) : Job := { job with nextRunTime := none }

def State.modify (s : State) (jobId : Text) (f : Job → Job) : State :=
  { s with jobs := Function.update s.jobs jobId ((s.jobs jobId).map f) }

def State.intervalOf (s : State) (jobId : Text) : Option ℤ := (s.jobs jobId).bind Job.interval

theorem nodup_restoreNextRunJobs : restoreNextRunJobs.Nodup := by decide

/-- What comes before an element is what is not in the list from there on. -/
theorem mem_takeWhile_ne_iff {α : Type} [DecidableEq α] {l rest : List α} {x y : α} (hl : l.Nodup)
    (h : x :: rest <:+ l) : y ∈ l.takeWhile (· ≠ x) ↔ y ∈ l ∧ y ∉ x :: rest := by
  obtain ⟨front, rfl⟩ := h
  obtain ⟨-, -, hdisjoint⟩ := List.nodup_append.mp hl
  have hkept : ∀ i ∈ front, decide (i ≠ x) = true := fun i hi ↦ decide_eq_true (hdisjoint i hi x List.mem_cons_self)
  rw [List.takeWhile_append_of_pos hkept, List.takeWhile_cons_of_neg (by simp), List.append_nil, List.mem_append]
  constructor
  · exact fun hi ↦ ⟨.inl hi, fun hmem ↦ hdisjoint y hi y hmem rfl⟩
  · exact fun hi ↦ hi.1.resolve_right hi.2

theorem of_not_mem_dropWhile {α : Type} {p : α → Bool} {l : List α} {x : α} (h : x ∈ l) (hleft : x ∉ l.dropWhile p) :
    p x = true := by
  rw [← List.takeWhile_append_dropWhile (p := p) (l := l)] at h
  exact List.mem_takeWhile_imp ((List.mem_append.mp h).resolve_right hleft)

/-- The interval jobs of the list are asked for one after the other, and the others are skipped. -/
def restoreFetch (s : State) : State :=
  match s.restore with
  | .loop rest =>
    match rest.dropWhile fun jobId ↦ s.intervalOf jobId = none with
    | [] => { s with restore := .done }
    | jobId :: rest => { s with restore := .fetched jobId (s.lastRun jobId) rest }
  | .fetched _ _ _ | .done => s

/-- The time is moved as the answer to the query and the job's own next run say. -/
def restoreJob (now started : ℤ) (job : Job) : Job :=
  match job.interval with
  | none => job
  | some interval =>
    match computeRestoredNextRun started interval now job.nextRunTime with
    | none => job
    | some restored => { job with nextRunTime := some restored }

section
variable [Histories]

/-- What a row says, if it is there and not empty. -/
def readNewest (raw : Option Text) : Option Newest := (raw.filter (· ≠ [])).map newest

def restoreApply (s : State) (now : ℤ) : State :=
  match s.restore with
  | .fetched jobId raw rest =>
    match readNewest raw with
    | some .broken => { s with restore := .done }
    | none | some .unusable => { s with restore := .loop rest }
    | some (.startedAt started) => { s.modify jobId (restoreJob now started) with restore := .loop rest }
  | .loop _ | .done => s

def step (s : State) : Event → State
  | .start jobs => { s with jobs := jobs, reapply := .begun, restore := .loop restoreNextRunJobs }
  | .reapplyFetch =>
    match s.reapply with
    | .begun => { s with reapply := .fetched s.paused }
    | .fetched _ | .done => s
  | .reapplyPause =>
    match s.reapply with
    | .fetched rows =>
      { s with
        jobs := fun jobId ↦ if rows jobId = some pausedMark then (s.jobs jobId).map Job.pause else s.jobs jobId
        reapply := .done }
    | .begun | .done => s
  | .restoreFetch => restoreFetch s
  | .restoreApply now => restoreApply s now
  | .fire jobId next =>
    s.modify jobId fun job ↦ if job.nextRunTime = none then job else { job with nextRunTime := some next }
  | .writePaused jobId value => { s with paused := Function.update s.paused jobId (some value) }
  | .writeLastRun jobId value => { s with lastRun := Function.update s.lastRun jobId (some value) }

/-- The events that do not write about a job, nor fire it, nor end the process. -/
def Quiet (jobId : Text) : Event → Prop
  | .start _ => False
  | .fire other _ | .writePaused other _ => other ≠ jobId
  | .writeLastRun other _ => other ∉ restoreNextRunJobs
  | .reapplyFetch | .reapplyPause | .restoreFetch | .restoreApply _ => True

/-- The task gets to the job, of which it knows the interval and when it ran last. -/
structure Restorable (s : State) (jobId : Text) (started interval : ℤ) : Prop where
  mem : jobId ∈ restoreNextRunJobs
  interval : s.intervalOf jobId = some interval
  newest : readNewest (s.lastRun jobId) = some (.startedAt started)
  reached : ∀ other ∈ restoreNextRunJobs.takeWhile (· ≠ jobId), s.intervalOf other ≠ none →
    readNewest (s.lastRun other) ≠ some .broken

end

def State.nextOf (s : State) (jobId : Text) : Option ℤ := (s.jobs jobId).bind Job.nextRunTime

section
variable {s u : State} {jobId other : Text} {f : Job → Job}

theorem jobs_modify (s : State) (jobId : Text) (f : Job → Job) :
    (s.modify jobId f).jobs = Function.update s.jobs jobId ((s.jobs jobId).map f) := rfl

theorem nextOf_modify_other (h : other ≠ jobId) : (s.modify other f).nextOf jobId = s.nextOf jobId := by
  rw [State.nextOf, jobs_modify, Function.update_of_ne (Ne.symm h), State.nextOf]

theorem nextOf_modify_self : (s.modify jobId f).nextOf jobId = ((s.jobs jobId).map f).bind Job.nextRunTime := by
  rw [State.nextOf, jobs_modify, Function.update_self]

theorem intervalOf_modify (hf : ∀ job, (f job).interval = job.interval) (other : Text) :
    (s.modify jobId f).intervalOf other = s.intervalOf other := by
  rw [State.intervalOf, jobs_modify, State.intervalOf]
  by_cases h : other = jobId
  · subst h
    rw [Function.update_self]
    cases s.jobs other with
    | none => rfl
    | some job => exact hf job
  · rw [Function.update_of_ne h]

theorem interval_restoreJob (now started : ℤ) (job : Job) : (restoreJob now started job).interval = job.interval := by
  rw [restoreJob]
  split
  · rfl
  · split <;> rfl

/-- The next run of an interval job after the task has gone through it. -/
theorem nextRunTime_restoreJob {now started interval : ℤ} {job : Job} (h : job.interval = some interval) :
    (restoreJob now started job).nextRunTime =
      (computeRestoredNextRun started interval now job.nextRunTime).or job.nextRunTime := by
  rw [restoreJob, h]
  dsimp only
  cases hrestored : computeRestoredNextRun started interval now job.nextRunTime with
  | none => rfl
  | some restored => rfl

/-- The task never moves a run to a later time. -/
theorem computeRestoredNextRun_or (started interval now next : ℤ) :
    (computeRestoredNextRun started interval now (some next)).or (some next) =
      some (min next (if started + interval ≤ now then now + overdueStartupDelay else started + interval)) := by
  rw [computeRestoredNextRun, Option.any_some]
  generalize (if started + interval ≤ now then now + overdueStartupDelay else started + interval) = due
  by_cases h : next ≤ due
  · rw [if_pos (decide_eq_true h), min_eq_left h]
    rfl
  · rw [if_neg (by simpa using h), min_eq_right (by omega)]
    rfl

theorem computeRestoredNextRun_paused (started interval now : ℤ) :
    computeRestoredNextRun started interval now none ≠ none := by
  rw [computeRestoredNextRun]
  exact Option.some_ne_none _

end

section
variable [Histories] {s u : State} {jobId : Text} {e : Event}

/-- What stays as it is while a startup goes on: the intervals, the rows that its tasks ask for, and what they were
answered. A task that goes on has met no entry that raises. -/
structure Startup (s : State) (jobId : Text) (u : State) : Prop where
  intervals : ∀ other, u.intervalOf other = s.intervalOf other
  paused : u.paused jobId = s.paused jobId
  lastRun : ∀ other ∈ restoreNextRunJobs, u.lastRun other = s.lastRun other
  rows : ∀ rows, u.reapply = .fetched rows → rows jobId = s.paused jobId
  pending : u.restore.pending <:+ restoreNextRunJobs
  asked : ∀ other raw rest, u.restore = .fetched other raw rest → raw = s.lastRun other ∧ s.intervalOf other ≠ none
  passed : u.restore ≠ .done → ∀ other ∈ restoreNextRunJobs, other ∉ u.restore.pending → s.intervalOf other ≠ none →
    readNewest (s.lastRun other) ≠ some .broken

theorem startup_start (s : State) (jobs : Text → Option Job) (jobId : Text) :
    Startup (step s (.start jobs)) jobId (step s (.start jobs)) where
  intervals _ := rfl
  paused := rfl
  lastRun _ _ := rfl
  rows _ h := nomatch h
  pending := List.suffix_refl _
  asked _ _ _ h := nomatch h
  passed _ _ hmem hnot := absurd hmem hnot

theorem Startup.modify (h : Startup s jobId u) (other : Text) {f : Job → Job}
    (hf : ∀ job, (f job).interval = job.interval) : Startup s jobId (u.modify other f) where
  intervals i := (intervalOf_modify hf i).trans (h.intervals i)
  paused := h.paused
  lastRun := h.lastRun
  rows := h.rows
  pending := h.pending
  asked := h.asked
  passed := h.passed

theorem Startup.loop (h : Startup s jobId u) {other : Text} {raw : Option Text} {rest : List Text}
    (hrestore : u.restore = .fetched other raw rest) (hbroken : readNewest raw ≠ some .broken) :
    Startup s jobId { u with restore := .loop rest } where
  intervals := h.intervals
  paused := h.paused
  lastRun := h.lastRun
  rows := h.rows
  pending := by
    have hold := h.pending
    rw [hrestore] at hold
    exact (List.suffix_cons _ _).trans hold
  asked _ _ _ h := nomatch h
  passed _ i hi hrest hinterval := by
    have hnot : u.restore ≠ .done := hrestore ▸ nofun
    by_cases hother : i = other
    · rw [hother, ← (h.asked other raw rest hrestore).1]
      exact hbroken
    · refine h.passed hnot i hi ?_ hinterval
      rw [hrestore]
      exact fun hmem ↦ hrest ((List.mem_cons.mp hmem).resolve_left hother)

theorem Startup.done (h : Startup s jobId u) : Startup s jobId { u with restore := .done } where
  intervals := h.intervals
  paused := h.paused
  lastRun := h.lastRun
  rows := h.rows
  pending := List.nil_suffix
  asked _ _ _ h := nomatch h
  passed h := absurd rfl h

theorem startup_restoreFetch (h : Startup s jobId u) : Startup s jobId (restoreFetch u) := by
  rw [restoreFetch]
  split
  next rest hrest =>
    split
    next => exact h.done
    next other rest' hnext =>
      have hsuffix : other :: rest' <:+ rest := hnext ▸ List.dropWhile_suffix _
      have hmem : other ∈ rest.dropWhile fun i ↦ u.intervalOf i = none := hnext ▸ List.mem_cons_self
      have hold := h.pending
      rw [hrest] at hold
      refine ⟨h.intervals, h.paused, h.lastRun, h.rows, hsuffix.trans hold, ?_, ?_⟩
      · rintro i raw rest'' ⟨⟩
        refine ⟨h.lastRun other ((hsuffix.trans hold).mem List.mem_cons_self), ?_⟩
        rw [← h.intervals]
        have hhead := List.head?_dropWhile_not (fun i ↦ decide (u.intervalOf i = none)) rest
        rw [hnext] at hhead
        simpa using hhead
      · intro _ i hi hskipped hinterval
        refine h.passed (hrest ▸ nofun) i hi (fun hmem ↦ hskipped ?_) hinterval
        rw [hrest, Restore.pending] at hmem
        by_contra hdropped
        have hnone := of_not_mem_dropWhile hmem (p := fun i ↦ decide (u.intervalOf i = none)) fun hleft ↦ by
          rw [hnext] at hleft
          exact hdropped hleft
        rw [decide_eq_true_eq, h.intervals] at hnone
        exact hinterval hnone
  next => exact h
  next => exact h

theorem startup_restoreApply (h : Startup s jobId u) (now : ℤ) : Startup s jobId (restoreApply u now) := by
  rw [restoreApply]
  split
  next other raw rest hother =>
    split
    next => exact h.done
    next hnone => exact h.loop hother (by rw [hnone]; exact nofun)
    next hunusable => exact h.loop hother (by rw [hunusable]; exact nofun)
    next started hstarted =>
      exact (h.loop hother (by rw [hstarted]; exact nofun)).modify other (interval_restoreJob now started)
  next => exact h
  next => exact h

theorem startup_step (h : Startup s jobId u) (he : Quiet jobId e) : Startup s jobId (step u e) := by
  cases e with
  | start jobs => exact he.elim
  | reapplyFetch =>
    rw [step]
    split
    next =>
      refine ⟨h.intervals, h.paused, h.lastRun, ?_, h.pending, h.asked, h.passed⟩
      rintro rows ⟨⟩
      exact h.paused
    next => exact h
    next => exact h
  | reapplyPause =>
    rw [step]
    split
    next rows hrows =>
      refine ⟨fun other ↦ ?_, h.paused, h.lastRun, nofun, h.pending, h.asked, h.passed⟩
      rw [← h.intervals, State.intervalOf, State.intervalOf]
      dsimp only
      split
      · cases u.jobs other with
        | none => rfl
        | some job => rfl
      · rfl
    next => exact h
    next => exact h
  | restoreFetch => exact startup_restoreFetch h
  | restoreApply now => exact startup_restoreApply h now
  | fire other next =>
    refine h.modify other fun job ↦ ?_
    split <;> rfl
  | writePaused other value =>
    refine ⟨h.intervals, ?_, h.lastRun, h.rows, h.pending, h.asked, h.passed⟩
    rw [← h.paused, step]
    exact Function.update_of_ne (Ne.symm he) _ _
  | writeLastRun other value =>
    refine ⟨h.intervals, h.paused, fun i hi ↦ ?_, h.rows, h.pending, h.asked, h.passed⟩
    rw [← h.lastRun i hi, step]
    exact Function.update_of_ne (ne_of_mem_of_not_mem hi he) _ _

/-- The next run of a job that stood at `v` when the task set out: it is moved once the task has gone through the job,
if the task gets to it at all. -/
structure Valued (s : State) (jobId : Text) (v : Option ℤ) (times : ℤ → Prop) (u : State) : Prop where
  waiting : jobId ∈ u.restore.pending → u.nextOf jobId = v
  skipped : (¬∃ started interval, Restorable s jobId started interval) → u.nextOf jobId = v
  moved : jobId ∉ u.restore.pending → ∀ started interval, Restorable s jobId started interval →
    ∃ now, times now ∧ u.nextOf jobId = (computeRestoredNextRun started interval now v).or v

variable {v : Option ℤ} {times : ℤ → Prop}

theorem Valued.congr (h : Valued s jobId v times u) {u' : State} (hnext : u'.nextOf jobId = u.nextOf jobId)
    (hpending : jobId ∈ u'.restore.pending → jobId ∈ u.restore.pending)
    (hleft : jobId ∈ u.restore.pending → jobId ∉ u'.restore.pending →
      ¬∃ started interval, Restorable s jobId started interval) : Valued s jobId v times u' := by
  refine ⟨fun hmem ↦ ?_, fun hskipped ↦ ?_, fun hnot started interval hrestorable ↦ ?_⟩
  · rw [hnext]
    exact h.waiting (hpending hmem)
  · rw [hnext]
    exact h.skipped hskipped
  · rw [hnext]
    refine h.moved (fun hmem ↦ ?_) started interval hrestorable
    exact hleft hmem hnot ⟨started, interval, hrestorable⟩

theorem valued_restoreFetch (hs : Startup s jobId u) (h : Valued s jobId v times u) :
    Valued s jobId v times (restoreFetch u) := by
  have hgone : ∀ {rest}, u.restore = .loop rest → jobId ∈ rest →
      jobId ∉ rest.dropWhile (fun i ↦ decide (u.intervalOf i = none)) →
        ¬∃ started interval, Restorable s jobId started interval := by
    rintro rest hrest hmem hleft ⟨started, interval, hrestorable⟩
    have hnone := of_not_mem_dropWhile hmem hleft
    rw [decide_eq_true_eq, hs.intervals, hrestorable.interval] at hnone
    cases hnone
  rw [restoreFetch]
  split
  next rest hrest =>
    split
    next hnext =>
      refine h.congr rfl (fun hmem ↦ nomatch hmem) fun hmem _ ↦ ?_
      rw [hrest] at hmem
      exact hgone hrest hmem (by rw [hnext]; exact List.not_mem_nil)
    next other rest' hnext =>
      refine h.congr rfl (fun hmem ↦ ?_) fun hmem hleft ↦ ?_
      · rw [hrest, Restore.pending]
        have hsuffix : other :: rest' <:+ rest := hnext ▸ List.dropWhile_suffix _
        exact hsuffix.mem hmem
      · rw [hrest] at hmem
        exact hgone hrest hmem (by rw [hnext]; exact hleft)
  next => exact h
  next => exact h

/-- A job that the task has a start for is one that it gets to. -/
theorem restorable_of_started (hs : Startup s jobId u) {raw : Option Text} {rest : List Text} {started : ℤ}
    (hrestore : u.restore = .fetched jobId raw rest) (hstarted : readNewest raw = some (.startedAt started)) :
    ∃ interval, Restorable s jobId started interval := by
  obtain ⟨hraw, hinterval⟩ := hs.asked jobId raw rest hrestore
  obtain ⟨interval, hsome⟩ := Option.ne_none_iff_exists'.mp hinterval
  have hpending := hs.pending
  rw [hrestore, Restore.pending] at hpending
  refine ⟨interval, hpending.mem List.mem_cons_self, hsome, hraw ▸ hstarted, fun other hother ↦ ?_⟩
  obtain ⟨hmem, hleft⟩ := (mem_takeWhile_ne_iff nodup_restoreNextRunJobs hpending).mp hother
  exact hs.passed (hrestore ▸ nofun) other hmem (by rw [hrestore]; exact hleft)

/-- The task gets to no job from an entry on that raises. -/
theorem not_restorable_of_broken (hs : Startup s jobId u) {other : Text} {raw : Option Text} {rest : List Text}
    (hrestore : u.restore = .fetched other raw rest) (hbroken : readNewest raw = some .broken)
    (hmem : jobId ∈ other :: rest) : ¬∃ started interval, Restorable s jobId started interval := by
  rintro ⟨started, interval, hrestorable⟩
  obtain ⟨hraw, hinterval⟩ := hs.asked other raw rest hrestore
  have hpending := hs.pending
  rw [hrestore, Restore.pending] at hpending
  rcases List.mem_cons.mp hmem with rfl | hmem
  · have hnewest := hrestorable.newest
    rw [← hraw, hbroken] at hnewest
    cases hnewest
  · obtain ⟨front, back, rfl⟩ := List.append_of_mem hmem
    have hnodup := List.nodup_cons.mp (nodup_restoreNextRunJobs.sublist hpending.sublist)
    have hsuffix : jobId :: back <:+ restoreNextRunJobs :=
      ((List.suffix_append front _).trans (List.suffix_cons _ _)).trans hpending
    have hbefore : other ∈ restoreNextRunJobs.takeWhile (· ≠ jobId) :=
      (mem_takeWhile_ne_iff nodup_restoreNextRunJobs hsuffix).mpr
        ⟨hpending.mem List.mem_cons_self, fun hback ↦ hnodup.1 (List.mem_append_right front hback)⟩
    exact hrestorable.reached other hbefore hinterval (hraw ▸ hbroken)

theorem nextOf_restoreJob (hs : Startup s jobId u) (hv : u.nextOf jobId = v) {interval : ℤ}
    (hinterval : s.intervalOf jobId = some interval) (now started : ℤ) :
    (u.modify jobId (restoreJob now started)).nextOf jobId = (computeRestoredNextRun started interval now v).or v := by
  have hjob := hs.intervals jobId
  rw [hinterval, State.intervalOf] at hjob
  rw [State.nextOf] at hv
  rw [nextOf_modify_self]
  cases hjobs : u.jobs jobId with
  | none =>
    rw [hjobs] at hjob
    cases hjob
  | some job =>
    rw [hjobs] at hjob hv
    rw [Option.map_some, Option.bind_some, nextRunTime_restoreJob hjob, ← hv]
    rfl

theorem valued_restoreApply (hs : Startup s jobId u) (h : Valued s jobId v times u) {now : ℤ} (hnow : times now) :
    Valued s jobId v times (restoreApply u now) := by
  rw [restoreApply]
  split
  next other raw rest hother =>
    obtain ⟨hraw, -⟩ := hs.asked other raw rest hother
    -- the task goes on after an entry that is of no use, and the job it was at is not restorable
    have hloop : (∀ started, readNewest raw ≠ some (.startedAt started)) →
        Valued s jobId v times { u with restore := .loop rest } := by
      intro hunusable
      refine h.congr rfl (fun hmem ↦ ?_) fun hmem hleft ↦ ?_
      · rw [hother]
        exact List.mem_cons_of_mem _ hmem
      · rintro ⟨started, interval, hrestorable⟩
        rw [hother] at hmem
        obtain rfl := (List.mem_cons.mp hmem).resolve_right hleft
        exact hunusable started (by rw [hraw]; exact hrestorable.newest)
    split
    next hbroken =>
      refine h.congr rfl (fun hmem ↦ nomatch hmem) fun hmem _ ↦ ?_
      rw [hother] at hmem
      exact not_restorable_of_broken hs hother hbroken hmem
    next hnone => exact hloop fun started ↦ by rw [hnone]; exact nofun
    next hunusable => exact hloop fun started ↦ by rw [hunusable]; exact nofun
    next started hstarted =>
      by_cases hsame : other = jobId
      · subst hsame
        obtain ⟨interval, hrestorable⟩ := restorable_of_started hs hother hstarted
        have hv := h.waiting (by rw [hother]; exact List.mem_cons_self)
        have hnext := nextOf_restoreJob hs hv hrestorable.interval now started
        have hpending := hs.pending
        rw [hother] at hpending
        refine ⟨fun hmem ↦ ?_, fun hnot ↦ absurd ⟨started, interval, hrestorable⟩ hnot,
          fun _ started' interval' h' ↦ ?_⟩
        · have hnodup := nodup_restoreNextRunJobs.sublist hpending.sublist
          exact absurd hmem (List.nodup_cons.mp hnodup).1
        · obtain rfl := Newest.startedAt.inj (Option.some.inj (hrestorable.newest.symm.trans h'.newest))
          obtain rfl := Option.some.inj (hrestorable.interval.symm.trans h'.interval)
          exact ⟨now, hnow, hnext⟩
      · refine h.congr (nextOf_modify_other hsame) (fun hmem ↦ ?_) fun hmem hleft ↦ ?_
        · rw [hother]
          exact List.mem_cons_of_mem _ hmem
        · rw [hother] at hmem
          exact absurd ((List.mem_cons.mp hmem).resolve_right hleft).symm hsame
  next => exact h
  next => exact h

theorem nextOf_fire {other : Text} {next : ℤ} (h : other ≠ jobId) :
    (step u (.fire other next)).nextOf jobId = u.nextOf jobId := nextOf_modify_other h

theorem nextOf_reapplyPause (u : State) (jobId : Text)
    (h : ∀ rows, u.reapply = .fetched rows → rows jobId ≠ some pausedMark) :
    (step u .reapplyPause).nextOf jobId = u.nextOf jobId := by
  rw [step]
  split
  next rows hrows =>
    rw [State.nextOf]
    dsimp only
    rw [if_neg (h rows hrows), State.nextOf]
  next => rfl
  next => rfl

theorem restore_reapplyPause (u : State) : (step u .reapplyPause).restore = u.restore := by
  rw [step]
  split <;> rfl

theorem valued_step (hs : Startup s jobId u) (h : Valued s jobId v times u) (he : Quiet jobId e)
    (htimes : ∀ now, e = .restoreApply now → times now)
    (hpause : ∀ rows, e = .reapplyPause → u.reapply = .fetched rows → rows jobId ≠ some pausedMark) :
    Valued s jobId v times (step u e) := by
  cases e with
  | start jobs => exact he.elim
  | reapplyFetch =>
    rw [step]
    split
    next => exact h.congr rfl id fun hmem hnot ↦ absurd hmem hnot
    next => exact h
    next => exact h
  | reapplyPause =>
    have hrestore := restore_reapplyPause u
    refine h.congr (nextOf_reapplyPause u jobId fun rows ↦ hpause rows rfl) ?_ ?_
    · rw [hrestore]
      exact id
    · rw [hrestore]
      exact fun hmem hnot ↦ absurd hmem hnot
  | restoreFetch => exact valued_restoreFetch hs h
  | restoreApply now => exact valued_restoreApply hs h (htimes now rfl)
  | fire other next => exact h.congr (nextOf_fire he) id fun hmem hnot ↦ absurd hmem hnot
  | writePaused other value => exact h.congr rfl id fun hmem hnot ↦ absurd hmem hnot
  | writeLastRun other value => exact h.congr rfl id fun hmem hnot ↦ absurd hmem hnot

theorem reapply_done (hdone : u.reapply = .done) (he : Quiet jobId e) : (step u e).reapply = .done := by
  cases e with
  | start jobs => exact he.elim
  | reapplyFetch | reapplyPause => rw [step, hdone]; exact hdone
  | restoreFetch =>
    rw [step, restoreFetch]
    split
    next => split <;> exact hdone
    next => exact hdone
    next => exact hdone
  | restoreApply now =>
    rw [step, restoreApply]
    split
    next => split <;> exact hdone
    next => exact hdone
    next => exact hdone
  | fire other next | writePaused other value | writeLastRun other value => exact hdone

theorem reapply_done_run {events : List Event} (hdone : u.reapply = .done) (hquiet : ∀ e ∈ events, Quiet jobId e) :
    (run step u events).reapply = .done := by
  induction events generalizing u with
  | nil => exact hdone
  | cons e events ih => exact ih (reapply_done hdone (hquiet e (.head _))) fun e he ↦ hquiet e (.tail _ he)

/-- A startup that does not pause the job: it is not marked, or the pauses are over, or they are not done at the end. -/
theorem valued_run {events : List Event} (hs : Startup s jobId u) (h : Valued s jobId v times u)
    (hquiet : ∀ e ∈ events, Quiet jobId e) (htimes : ∀ now, .restoreApply now ∈ events → times now)
    (hpause : s.paused jobId ≠ some pausedMark ∨ u.reapply = .done ∨ (run step u events).reapply ≠ .done) :
    Startup s jobId (run step u events) ∧ Valued s jobId v times (run step u events) := by
  induction events generalizing u with
  | nil => exact ⟨hs, h⟩
  | cons e events ih =>
    have he := hquiet e (.head _)
    refine ih (startup_step hs he) ?_ (fun e he ↦ hquiet e (.tail _ he)) (fun now hnow ↦ htimes now (.tail _ hnow)) ?_
    · refine valued_step hs h he (fun now hnow ↦ htimes now (hnow ▸ .head _)) ?_
      rintro rows rfl hrows
      rcases hpause with hpause | hpause | hpause
      · rwa [hs.rows rows hrows]
      · rw [hrows] at hpause
        cases hpause
      · have hdone : (step u .reapplyPause).reapply = .done := by rw [step, hrows]
        exact absurd (reapply_done_run hdone fun e he ↦ hquiet e (.tail _ he)) hpause
    · exact hpause.imp_right (Or.imp_left fun hdone ↦ reapply_done hdone he)

/-- A job that the one task has left behind and that the other does not pause any more. -/
theorem left_step (hleft : jobId ∉ u.restore.pending) (hdone : u.reapply = .done) (he : Quiet jobId e) :
    jobId ∉ (step u e).restore.pending ∧ (step u e).nextOf jobId = u.nextOf jobId := by
  cases e with
  | start jobs => exact he.elim
  | reapplyFetch | reapplyPause => rw [step, hdone]; exact ⟨hleft, rfl⟩
  | restoreFetch =>
    rw [step, restoreFetch]
    split
    next rest hrest =>
      rw [hrest] at hleft
      split
      next => exact ⟨List.not_mem_nil, rfl⟩
      next other rest' hnext =>
        have hsuffix : other :: rest' <:+ rest := hnext ▸ List.dropWhile_suffix _
        exact ⟨fun hmem ↦ hleft (hsuffix.mem hmem), rfl⟩
    next => exact ⟨hleft, rfl⟩
    next => exact ⟨hleft, rfl⟩
  | restoreApply now =>
    rw [step, restoreApply]
    split
    next other raw rest hother =>
      rw [hother] at hleft
      have hrest : jobId ∉ rest := fun hmem ↦ hleft (List.mem_cons_of_mem _ hmem)
      split
      next => exact ⟨List.not_mem_nil, rfl⟩
      next => exact ⟨hrest, rfl⟩
      next => exact ⟨hrest, rfl⟩
      next => exact ⟨hrest, nextOf_modify_other fun hsame ↦ hleft (hsame ▸ List.mem_cons_self)⟩
    next => exact ⟨hleft, rfl⟩
    next => exact ⟨hleft, rfl⟩
  | fire other next => exact ⟨hleft, nextOf_fire he⟩
  | writePaused other value | writeLastRun other value => exact ⟨hleft, rfl⟩

theorem left_run {events : List Event} (hleft : jobId ∉ u.restore.pending) (hdone : u.reapply = .done)
    (hquiet : ∀ e ∈ events, Quiet jobId e) : (run step u events).nextOf jobId = u.nextOf jobId := by
  induction events generalizing u with
  | nil => rfl
  | cons e events ih =>
    have he := hquiet e (.head _)
    obtain ⟨hleft', hsame⟩ := left_step hleft hdone he
    exact (ih hleft' (reapply_done hdone he) fun e he ↦ hquiet e (.tail _ he)).trans hsame

variable {jobs : Text → Option Job} {next : ℤ}

theorem valued_start (hnext : (step s (.start jobs)).nextOf jobId = v) :
    Valued (step s (.start jobs)) jobId v times (step s (.start jobs)) := by
  refine ⟨fun _ ↦ hnext, fun _ ↦ hnext, fun hnot started interval hrestorable ↦ ?_⟩
  exact absurd hrestorable.mem hnot

theorem Valued.next_ne_none (h : Valued s jobId (some next) times u) (hend : u.restore = .done) :
    u.nextOf jobId ≠ none := by
  by_cases hrestorable : ∃ started interval, Restorable s jobId started interval
  · obtain ⟨started, interval, hrestorable⟩ := hrestorable
    obtain ⟨now, -, hvalue⟩ := h.moved (by rw [hend]; exact List.not_mem_nil) started interval hrestorable
    rw [hvalue, computeRestoredNextRun_or]
    exact Option.some_ne_none _
  · rw [h.skipped hrestorable]
    exact Option.some_ne_none _

theorem nextOf_paused {rows : Text → Option Text} (hrows : u.reapply = .fetched rows)
    (h : rows jobId = some pausedMark) : (step u .reapplyPause).nextOf jobId = none := by
  rw [step, hrows, State.nextOf]
  dsimp only
  rw [if_pos h]
  cases u.jobs jobId <;> rfl

/-- A startup that is through leaves a job that is not marked as paused at its own next run, or earlier: one that the
task gets to at its last start plus its interval, if that is sooner, and two minutes after now if that is past. -/
theorem restart_never_postpones {events : List Event} (hnext : (step s (.start jobs)).nextOf jobId = some next)
    (hpaused : s.paused jobId ≠ some pausedMark) (hquiet : ∀ e ∈ events, Quiet jobId e)
    (hend : (run step (step s (.start jobs)) events).restore = .done) :
    (∀ started interval, Restorable (step s (.start jobs)) jobId started interval →
      ∃ now, .restoreApply now ∈ events ∧ (run step (step s (.start jobs)) events).nextOf jobId =
        some (min next (if started + interval ≤ now then now + overdueStartupDelay else started + interval))) ∧
    ((¬∃ started interval, Restorable (step s (.start jobs)) jobId started interval) →
      (run step (step s (.start jobs)) events).nextOf jobId = some next) := by
  have hvalued : Valued (step s (.start jobs)) jobId (some next) (fun now ↦ .restoreApply now ∈ events)
      (run step (step s (.start jobs)) events) :=
    (valued_run (startup_start s jobs jobId) (valued_start hnext) hquiet (fun _ ↦ id) (.inl hpaused)).2
  refine ⟨fun started interval hrestorable ↦ ?_, hvalued.skipped⟩
  have hover : jobId ∉ (run step (step s (.start jobs)) events).restore.pending := by
    rw [hend]
    exact List.not_mem_nil
  obtain ⟨now, hnow, hvalue⟩ := hvalued.moved hover started interval hrestorable
  exact ⟨now, hnow, hvalue.trans (computeRestoredNextRun_or started interval now next)⟩

/-- A startup that is through leaves a job paused exactly where it is marked as paused, unless the pauses came before
the other task was through with the job and that gets to it: then the job runs again. -/
theorem paused_after_restart_iff {before after : List Event} {rows : Text → Option Text}
    (hnext : (step s (.start jobs)).nextOf jobId = some next)
    (hquiet : ∀ e ∈ before ++ .reapplyPause :: after, Quiet jobId e)
    (hrows : (run step (step s (.start jobs)) before).reapply = .fetched rows)
    (hend : (run step (step s (.start jobs)) (before ++ .reapplyPause :: after)).restore = .done) :
    (run step (step s (.start jobs)) (before ++ .reapplyPause :: after)).nextOf jobId = none ↔
      s.paused jobId = some pausedMark ∧ (jobId ∈ (run step (step s (.start jobs)) before).restore.pending →
        ¬∃ started interval, Restorable (step s (.start jobs)) jobId started interval) := by
  rw [run_append, run_cons] at hend ⊢
  have hbefore : ∀ e ∈ before, Quiet jobId e := fun e he ↦ hquiet e (List.mem_append_left _ he)
  have hafter : ∀ e ∈ after, Quiet jobId e := fun e he ↦ hquiet e (List.mem_append_right _ (.tail _ he))
  have hnotdone : (run step (step s (.start jobs)) before).reapply ≠ .done := by rw [hrows]; exact nofun
  have hstart : Valued (step s (.start jobs)) jobId (some next) (fun _ ↦ True) (step s (.start jobs)) :=
    valued_start hnext
  obtain ⟨hu, hv⟩ := valued_run (startup_start s jobs jobId) hstart hbefore (fun _ _ ↦ trivial) (.inr (.inr hnotdone))
  revert hrows hend hu hv
  generalize run step (step s (.start jobs)) before = u
  intro hrows hend hu hv
  have hs := startup_step hu (e := .reapplyPause) trivial
  have hdone : (step u .reapplyPause).reapply = .done := by rw [step, hrows]
  have hrestore := restore_reapplyPause u
  have hmarked : rows jobId = s.paused jobId := hu.rows rows hrows
  by_cases hpaused : s.paused jobId = some pausedMark
  · have hnone := nextOf_paused hrows (hmarked.trans hpaused)
    have hvalued : (jobId ∈ u.restore.pending ∨
          ¬∃ started interval, Restorable (step s (.start jobs)) jobId started interval) →
        Valued (step s (.start jobs)) jobId none (fun _ ↦ True) (run step (step u .reapplyPause) after) := by
      intro hor
      refine (valued_run hs ⟨fun _ ↦ hnone, fun _ ↦ hnone, fun hnot started interval hrestorable ↦ ?_⟩ hafter
        (fun _ _ ↦ trivial) (.inr (.inl hdone))).2
      rw [hrestore] at hnot
      exact absurd ⟨started, interval, hrestorable⟩ (hor.resolve_left hnot)
    constructor
    · refine fun hfinal ↦ ⟨hpaused, fun hwaiting hexists ↦ ?_⟩
      obtain ⟨started, interval, hrestorable⟩ := hexists
      obtain ⟨now, -, hvalue⟩ := (hvalued (.inl hwaiting)).moved (by rw [hend]; exact List.not_mem_nil) started interval
        hrestorable
      rw [hfinal, Option.or_none] at hvalue
      exact computeRestoredNextRun_paused started interval now hvalue.symm
    · rintro ⟨-, hwaiting⟩
      by_cases hexists : ∃ started interval, Restorable (step s (.start jobs)) jobId started interval
      · have hleft : jobId ∉ (step u .reapplyPause).restore.pending := by
          rw [hrestore]
          exact fun hmem ↦ hwaiting hmem hexists
        rw [left_run hleft hdone hafter, hnone]
      · exact (hvalued (.inr hexists)).skipped hexists
  · refine iff_of_false (fun hfinal ↦ ?_) fun h ↦ hpaused h.1
    have hstays : Valued (step s (.start jobs)) jobId (some next) (fun _ ↦ True) (step u .reapplyPause) := by
      refine valued_step hu hv trivial (fun _ _ ↦ trivial) fun rows' _ hrows' ↦ ?_
      rwa [hu.rows rows' hrows']
    have hvalued := (valued_run hs hstays hafter (fun _ _ ↦ trivial) (.inl hpaused)).2
    exact hvalued.next_ne_none hend hfinal

end

section

def midnightRun : Text := "[\x7b\"started_at\": \"2026-07-22T00:00:00Z\"\x7d]"

def midnight : ℤ := 1784678400000000

def minutes (n : ℤ) : ℤ := n * 60000000

local instance midnightHistory : Histories where
  newest raw := if raw = midnightRun then .startedAt midnight else .unusable

def kevJob : Text := "kev_metadata_sync"

/-- Five minutes past midnight a process starts, whose job of every 15 minutes ran at midnight. -/
def kevJobs (jobId : Text) : Option Job :=
  if jobId = kevJob then some ⟨some (minutes 15), some (midnight + minutes 20)⟩ else none

def stopped (mark : Text) : State where
  paused jobId := if jobId = kevJob then some mark else none
  lastRun jobId := if jobId = kevJob then some midnightRun else none
  jobs _ := none
  reapply := .done
  restore := .done

def startupEvents : List Event :=
  [.reapplyFetch] ++ .reapplyPause :: [.restoreFetch, .restoreApply (midnight + minutes 5), .restoreFetch]

theorem quiet_startupEvents : ∀ e ∈ startupEvents, Quiet kevJob e := by
  simp only [startupEvents, List.cons_append, List.nil_append, List.forall_mem_cons]
  exact ⟨trivial, trivial, trivial, trivial, trivial, nofun⟩

/-- The process that starts. -/
def kevStart (mark : Text) : State := step (stopped mark) (.start kevJobs)

theorem kev_at_its_time :
    (∀ started interval, Restorable (kevStart "0") kevJob started interval →
      ∃ now, .restoreApply now ∈ startupEvents ∧ (run step (kevStart "0") startupEvents).nextOf kevJob =
        some (min (midnight + minutes 20)
          (if started + interval ≤ now then now + overdueStartupDelay else started + interval))) ∧
    ((¬∃ started interval, Restorable (kevStart "0") kevJob started interval) →
      (run step (kevStart "0") startupEvents).nextOf kevJob = some (midnight + minutes 20)) :=
  restart_never_postpones rfl (by decide) quiet_startupEvents rfl

/-- The paused job is due again ten minutes later. -/
theorem paused_kev_runs_again :
    (run step (kevStart "1") startupEvents).nextOf kevJob = some (midnight + minutes 15) ∧
    ((run step (kevStart "1") startupEvents).nextOf kevJob = none ↔ (stopped "1").paused kevJob = some pausedMark ∧
      (kevJob ∈ (run step (kevStart "1") [.reapplyFetch]).restore.pending →
        ¬∃ started interval, Restorable (kevStart "1") kevJob started interval)) :=
  ⟨by decide, paused_after_restart_iff rfl quiet_startupEvents rfl rfl⟩

end

end Briefr.Scheduler.Restart
