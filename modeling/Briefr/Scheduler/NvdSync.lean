import Briefr.Library.FirstGreatest
import Briefr.Library.Runs
import Briefr.Python.Value
import Mathlib.Data.Int.Order.Basic

namespace Briefr.Scheduler.NvdSync

open Briefr.Python Briefr.Library.StableSort Briefr.Library.Oldest Briefr.Library.Runs

/-- A version of a CVE at NVD. Instants are in microseconds. -/
structure Event where
  cveId : Text
  modified : ℤ
  published : ℤ
  rejected : Bool
  deriving DecidableEq

/-- The settings of the job, within the bounds of the config schema. -/
structure Config where
  maxCves : ℕ
  daysBack : ℕ
  overlapMinutes : ℕ
  maxCves_pos : 0 < maxCves

/-- The stored watermark and the `cves` table. The last two fields keep what the successful cycles
handed to the database. -/
structure State where
  watermark : Option ℤ
  rows : List (Text × ℤ)
  upserted : List Event
  purged : List Event

/-- One cycle: when it runs, and whether it gets to its commit. -/
structure Cycle where
  now : ℤ
  succeeds : Bool

def second : ℤ := 1000000

def minute : ℤ := 60 * second

def day : ℤ := 86400 * second

/-- `_format_nvd_datetime` writes whole seconds. -/
def formatNvdDatetime (t : ℤ) : ℤ := t / second * second

def resultsPerPage : ℕ := 2000

/-- The loop of `_fetch_cves_paginated` after the first page; an empty page ends it. -/
def morePages (page : ℕ → List Event) (totalResults : ℕ) : ℕ → ℕ → List Event
  | 0, _ => []
  | fuel + 1, startIndex =>
    if startIndex < totalResults then
      if page startIndex = [] then []
      else page startIndex ++ morePages page totalResults fuel (startIndex + resultsPerPage)
    else []

def fetchCvesPaginated (answer : List Event) : List Event :=
  let page := fun startIndex ↦ (answer.drop startIndex).take resultsPerPage
  page 0 ++ morePages page answer.length answer.length resultsPerPage

/-- The `lastModStartDate`/`lastModEndDate` query. -/
def queryModified (log : List Event) (start stop : ℤ) : List Event :=
  log.filter fun e ↦ decide (start ≤ e.modified ∧ e.modified ≤ stop)

/-- The `pubStartDate`/`pubEndDate` query, which also sees nothing from the future. -/
def queryPublished (log : List Event) (now start stop : ℤ) : List Event :=
  log.filter fun e ↦ decide (start ≤ e.published ∧ e.published ≤ stop ∧ e.modified ≤ now)

def overlapStart (cfg : Config) (watermark : ℤ) : ℤ := watermark - cfg.overlapMinutes * minute

/-- The watermark is too old for one query. -/
def Clamps (cfg : Config) (now watermark : ℤ) : Prop := 120 * day < now - overlapStart cfg watermark

instance (cfg : Config) (now watermark : ℤ) : Decidable (Clamps cfg now watermark) :=
  inferInstanceAs (Decidable (_ < _))

def modStart (cfg : Config) (now watermark : ℤ) : ℤ :=
  if Clamps cfg now watermark then now - 120 * day else overlapStart cfg watermark

/-- The answer to the queries of one cycle. -/
def fetchNvdCveUpdates (cfg : Config) (log : List Event) (now : ℤ) : Option ℤ → List Event
  | some watermark =>
    fetchCvesPaginated
      (queryModified log (formatNvdDatetime (modStart cfg now watermark)) (formatNvdDatetime now))
  | none =>
    fetchCvesPaginated
      (queryPublished log now (formatNvdDatetime (now - cfg.daysBack * day)) (formatNvdDatetime now))

def maxModified (rows : List (Text × ℤ)) : Option ℤ := (rows.map Prod.snd).max?

/-- The stored watermark, or the one seeded from a table that is not nearly empty. -/
def resolveNvdWatermark (s : State) : Option ℤ :=
  s.watermark.or (if s.rows.length < 10 then none else maxModified s.rows)

def upsertRow (rows : List (Text × ℤ)) (e : Event) : List (Text × ℤ) :=
  (e.cveId, e.modified) :: rows.filter fun row ↦ row.1 ≠ e.cveId

def deleteRows (rows : List (Text × ℤ)) (ids : List Text) : List (Text × ℤ) :=
  rows.filter fun row ↦ row.1 ∉ ids

/-- The rows of an answer in the order in which they are written. -/
def sortedCves (answer : List Event) : List Event := sortBy Event.modified (answer.filter fun e ↦ !e.rejected)

def isCapped (cfg : Config) (answer : List Event) : Bool := decide (cfg.maxCves < (sortedCves answer).length)

/-- What is upserted: everything, or the oldest rows up to the cap. -/
def keptCves (cfg : Config) (answer : List Event) : List Event :=
  if isCapped cfg answer then (sortedCves answer).take cfg.maxCves else sortedCves answer

def newWatermark (cfg : Config) (now : ℤ) (answer : List Event) : ℤ :=
  if isCapped cfg answer then
    match (keptCves cfg answer).getLast? with
    | some e => e.modified
    | none => formatNvdDatetime now
  else formatNvdDatetime now

def answerOf (cfg : Config) (log : List Event) (s : State) (now : ℤ) : List Event :=
  fetchNvdCveUpdates cfg log now (resolveNvdWatermark s)

/-- A cycle. Only the seeded watermark survives one that fails. -/
def runNvdIncrementalSync (cfg : Config) (log : List Event) (s : State) (c : Cycle) : State :=
  if c.succeeds then
    let answer := answerOf cfg log s c.now
    let rejected := answer.filter fun e ↦ e.rejected
    { watermark := some (newWatermark cfg c.now answer)
      rows := (keptCves cfg answer).foldl upsertRow (deleteRows s.rows (rejected.map Event.cveId))
      upserted := s.upserted ++ keptCves cfg answer
      purged := s.purged ++ rejected }
  else { s with watermark := resolveNvdWatermark s }

theorem formatNvdDatetime_le (t : ℤ) : formatNvdDatetime t ≤ t := by
  unfold formatNvdDatetime second
  omega

theorem overlapStart_le (cfg : Config) (w : ℤ) : overlapStart cfg w ≤ w := by
  have h : (0 : ℤ) ≤ cfg.overlapMinutes * minute := by
    apply Int.mul_nonneg
    · exact Int.natCast_nonneg _
    · decide
  unfold overlapStart
  omega

theorem morePages_eq (answer : List Event) (fuel startIndex : ℕ)
    (h : answer.length ≤ startIndex + fuel * resultsPerPage) :
    morePages (fun i ↦ (answer.drop i).take resultsPerPage) answer.length fuel startIndex = answer.drop startIndex := by
  induction fuel generalizing startIndex with
  | zero =>
    rw [Nat.zero_mul, Nat.add_zero] at h
    rw [morePages, List.drop_eq_nil_of_le h]
  | succ fuel ih =>
    rw [morePages]
    split
    · rename_i hlt
      have hne : (answer.drop startIndex).take resultsPerPage ≠ [] := by
        intro he
        have hlen := congrArg List.length he
        simp only [List.length_take, List.length_drop, List.length_nil, resultsPerPage] at hlen
        omega
      rw [if_neg hne, ih (startIndex + resultsPerPage) (by rw [Nat.succ_mul] at h; omega), ← List.drop_drop,
        List.take_append_drop]
    · rename_i hge
      rw [List.drop_eq_nil_of_le (Nat.le_of_not_lt hge)]

theorem fetchCvesPaginated_eq (answer : List Event) : fetchCvesPaginated answer = answer := by
  have hp : 1 ≤ resultsPerPage := by decide
  have hl : answer.length ≤ resultsPerPage + answer.length * resultsPerPage :=
    (Nat.le_mul_of_pos_right _ hp).trans (Nat.le_add_left _ _)
  rw [fetchCvesPaginated]
  dsimp only
  rw [morePages_eq answer _ _ hl, List.drop_zero, List.take_append_drop]

/-- With a watermark, the answer is what was modified between the start of the window and now. -/
theorem mem_answerOf {cfg : Config} {log : List Event} {s : State} {now w : ℤ} (hw : resolveNvdWatermark s = some w)
    {e : Event} : e ∈ answerOf cfg log s now ↔
      e ∈ log ∧ formatNvdDatetime (modStart cfg now w) ≤ e.modified ∧ e.modified ≤ formatNvdDatetime now := by
  rw [answerOf, hw, fetchNvdCveUpdates, fetchCvesPaginated_eq, queryModified, List.mem_filter, decide_eq_true_eq]

theorem mem_sortedCves {answer : List Event} {e : Event} :
    e ∈ sortedCves answer ↔ e ∈ answer ∧ e.rejected = false := by
  rw [sortedCves, (perm_sortBy _ _).mem_iff, List.mem_filter, Bool.not_eq_true']

theorem kept_of_capped {cfg : Config} {answer : List Event} (h : isCapped cfg answer = true) :
    keptCves cfg answer = (sortedCves answer).take cfg.maxCves := if_pos h

theorem kept_of_not_capped {cfg : Config} {answer : List Event} (h : isCapped cfg answer = false) :
    keptCves cfg answer = sortedCves answer := by
  rw [keptCves, h, if_neg Bool.false_ne_true]

/-- A capped cycle stores the modification time of the last row it keeps. -/
theorem newWatermark_of_capped {cfg : Config} {answer : List Event} (now : ℤ) (h : isCapped cfg answer = true) :
    ∃ e, (keptCves cfg answer).getLast? = some e ∧ newWatermark cfg now answer = e.modified := by
  have hne : keptCves cfg answer ≠ [] := by
    intro he
    have hlen := congrArg List.length he
    have hc := of_decide_eq_true h
    have hp := cfg.maxCves_pos
    rw [kept_of_capped h, List.length_take, List.length_nil] at hlen
    omega
  refine ⟨_, List.getLast?_eq_getLast_of_ne_nil hne, ?_⟩
  rw [newWatermark, if_pos h, List.getLast?_eq_getLast_of_ne_nil hne]

theorem newWatermark_of_not_capped {cfg : Config} {now : ℤ} {answer : List Event} (h : isCapped cfg answer = false) :
    newWatermark cfg now answer = formatNvdDatetime now := by
  rw [newWatermark, h, if_neg Bool.false_ne_true]

end Briefr.Scheduler.NvdSync

namespace Briefr.Scheduler.NvdProgress

open Briefr.Python Briefr.Library.StableSort Briefr.Library.Oldest Briefr.Library.Runs Briefr.Scheduler.NvdSync

variable (cfg : Config) (log : List Event)

/-- The rows in the window of a cycle that are not rejected. -/
def window (s : State) (now : ℤ) : List Event := (answerOf cfg log s now).filter fun e ↦ !e.rejected

/-- A successful cycle does not move the watermark back, and if it is capped, it upserts a version
that no earlier cycle did or moves the watermark forward. -/
def Progress (s : State) (c : Cycle) : Prop :=
  c.succeeds = true → ∀ w, resolveNvdWatermark s = some w →
    ∃ w', (runNvdIncrementalSync cfg log s c).watermark = some w' ∧ w ≤ w' ∧
      (cfg.maxCves < (window cfg log s c.now).length →
        w < w' ∨ ∃ e ∈ (runNvdIncrementalSync cfg log s c).upserted, e ∉ s.upserted)

/-- The clock is not behind the watermark, and the part of the window that was read before leaves
room under the cap: fewer rows than the cap lie before the watermark, and also fewer up to the
watermark unless one of the oldest rows is still to be upserted. -/
def Roomy (s : State) (c : Cycle) : Prop :=
  c.succeeds = true → ∀ w, resolveNvdWatermark s = some w →
    if cfg.maxCves < (window cfg log s c.now).length then
      (window cfg log s c.now).countP (fun e ↦ e.modified < w) < cfg.maxCves ∧
        ((window cfg log s c.now).countP (fun e ↦ e.modified ≤ w) < cfg.maxCves ∨
          ∃ e ∈ (sortBy Event.modified (window cfg log s c.now)).take cfg.maxCves, e ∉ s.upserted)
    else w ≤ formatNvdDatetime c.now

variable {cfg log}

theorem isCapped_iff {s : State} {now : ℤ} :
    isCapped cfg (answerOf cfg log s now) = true ↔ cfg.maxCves < (window cfg log s now).length := by
  rw [isCapped, decide_eq_true_eq, sortedCves, (perm_sortBy _ _).length_eq]
  rfl

theorem exists_new_upserted {s : State} {c : Cycle} (hc : c.succeeds = true) :
    (∃ e ∈ (runNvdIncrementalSync cfg log s c).upserted, e ∉ s.upserted) ↔
      ∃ e ∈ keptCves cfg (answerOf cfg log s c.now), e ∉ s.upserted := by
  rw [runNvdIncrementalSync, if_pos hc]
  constructor
  · intro ⟨e, he, hn⟩
    exact ⟨e, (List.mem_append.mp he).resolve_left hn, hn⟩
  · intro ⟨e, he, hn⟩
    exact ⟨e, List.mem_append_right _ he, hn⟩

theorem step_watermark {s : State} {c : Cycle} (hc : c.succeeds = true) :
    (runNvdIncrementalSync cfg log s c).watermark = some (newWatermark cfg c.now (answerOf cfg log s c.now)) := by
  rw [runNvdIncrementalSync, if_pos hc]

/-- The watermark of a capped cycle against a bound: it depends on how many rows lie before it. -/
theorem newWatermark_capped_iff {s : State} {now : ℤ} (hcap : isCapped cfg (answerOf cfg log s now) = true)
    {p : ℤ → Prop} [DecidablePred p] (hp : ∀ a b, a ≤ b → p b → p a) :
    ¬p (newWatermark cfg now (answerOf cfg log s now)) ↔
      (window cfg log s now).countP (fun e ↦ p e.modified) < cfg.maxCves := by
  obtain ⟨e, he, hn⟩ := newWatermark_of_capped now hcap
  rw [kept_of_capped hcap] at he
  rw [hn]
  exact last_not_lower_iff hp he (isCapped_iff.mp hcap).le

theorem progress_iff_roomy (s : State) (c : Cycle) : Progress cfg log s c ↔ Roomy cfg log s c := by
  refine forall_congr' fun hc ↦ forall₂_congr fun w hw ↦ ?_
  simp only [step_watermark hc, Option.some.injEq, exists_eq_left', exists_new_upserted hc]
  cases hcap : isCapped cfg (answerOf cfg log s c.now) with
  | false =>
    have hlen : ¬cfg.maxCves < (window cfg log s c.now).length := by
      rw [← isCapped_iff, hcap]
      exact Bool.false_ne_true
    simp only [hlen, if_false, false_implies, and_true, newWatermark_of_not_capped hcap]
  | true =>
    have hlen := isCapped_iff.mp hcap
    have hlt := newWatermark_capped_iff hcap (p := fun t ↦ t < w) fun _ _ h h' ↦ h.trans_lt h'
    have hle := newWatermark_capped_iff hcap (p := fun t ↦ t ≤ w) fun _ _ h h' ↦ h.trans h'
    rw [not_lt] at hlt
    rw [not_le] at hle
    simp only [hlen, if_true, true_implies, hlt, hle, kept_of_capped hcap]
    rfl

/-- All cycles of a run make progress exactly when all of them are roomy. -/
theorem run_progress_iff (s : State) (cycles : List Cycle) :
    Along (runNvdIncrementalSync cfg log) (Progress cfg log) s cycles ↔
      Along (runNvdIncrementalSync cfg log) (Roomy cfg log) s cycles := along_congr progress_iff_roomy

def oneRow : Config := ⟨1, 14, 15, Nat.one_pos⟩

/-- Two CVEs modified within one overlap window. -/
def bulkChange : List Event :=
  [⟨"CVE-2024-0001".toList, 10 * minute, 0, false⟩, ⟨"CVE-2024-0002".toList, 11 * minute, 0, false⟩]

/-- With a cap of one, the second cycle upserts the first row again and stays where it is, and a
cycle that starts at the second row goes back to the first. -/
theorem capped_cycle_stalls :
    ¬Along (runNvdIncrementalSync oneRow bulkChange) (Progress oneRow bulkChange) ⟨some 0, [], [], []⟩
        [⟨30 * minute, true⟩, ⟨31 * minute, true⟩] ∧
      ¬Along (runNvdIncrementalSync oneRow bulkChange) (Progress oneRow bulkChange) ⟨some (11 * minute), [], [], []⟩
        [⟨30 * minute, true⟩] := by
  refine ⟨fun h ↦ ?_, fun h ↦ ?_⟩
  · obtain ⟨w', hw', -, hp⟩ := h.2.1 rfl (10 * minute) (by decide)
    obtain rfl : 10 * minute = w' := by
      apply Option.some.inj
      rw [← hw']
      decide
    rcases hp (by decide) with hlt | hnew
    · exact absurd hlt (lt_irrefl _)
    · revert hnew
      decide
  · obtain ⟨w', hw', hle, -⟩ := h.1 rfl (11 * minute) (by decide)
    obtain rfl : 10 * minute = w' := by
      apply Option.some.inj
      rw [← hw']
      decide
    revert hle
    decide

end Briefr.Scheduler.NvdProgress
