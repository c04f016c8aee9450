import Mathlib.Algebra.GroupWithZero.Nat
import Briefr.Backfill.Progress
import Mathlib.Algebra.BigOperators.Group.List.Basic

namespace Briefr.Backfill

open Briefr.Python Briefr.Library.Runs

/-- The upserts that the checkpoints count. -/
def total (t : Tables) : ℕ := (t.checkpoints.map Checkpoint.cvesUpserted).sum

theorem sum_setRow {cp old : Checkpoint} {l : List Checkpoint} (hd : (l.map Checkpoint.productKey).Nodup) (h : old ∈ l)
    (hk : old.productKey = cp.productKey) :
    ((l.map (setRow cp)).map Checkpoint.cvesUpserted).sum + old.cvesUpserted =
      (l.map Checkpoint.cvesUpserted).sum + cp.cvesUpserted := by
  induction l with
  | nil => cases h
  | cons c l ih =>
    obtain ⟨hn, hd⟩ := List.nodup_cons.mp hd
    simp only [List.map_cons, List.sum_cons]
    rcases List.mem_cons.mp h with rfl | h
    · have hne : ∀ c ∈ l, c.productKey ≠ cp.productKey := by
        intro c hc he
        exact hn (hk.trans he.symm ▸ List.mem_map_of_mem hc)
      have hl : l.map (setRow cp) = l := by
        calc
          _ = l.map id := List.map_congr_left fun c hc ↦ if_neg (hne c hc)
          _ = l := List.map_id l
      rw [hl, setRow, if_pos hk]
      omega
    · have hc : c.productKey ≠ cp.productKey := fun he ↦ hn (he ▸ hk ▸ List.mem_map_of_mem h)
      have ih := ih hd h
      rw [setRow, if_neg hc]
      omega

theorem total_upsertCheckpoint {t : Tables} {cp old : Checkpoint} (h : old ∈ t.checkpoints)
    (hk : old.productKey = cp.productKey) :
    total (upsertCheckpoint t cp) + old.cvesUpserted = total t + cp.cvesUpserted := by
  rw [upsertCheckpoint, dif_pos (hk ▸ List.mem_map_of_mem h)]
  exact sum_setRow t.keys h hk

/-- Every page of the product that starts below the reported total is in. -/
def PagesIn (pages : List (Text × ℕ)) (cp : Checkpoint) : Prop :=
  ∀ k : ℕ, ((k * resultsPerPage : ℕ) : ℤ) < cp.totalResults → (cp.productKey, k * resultsPerPage) ∈ pages

/-- The pages of the product that are in are those before the start index. -/
def UpToStart (pages : List (Text × ℕ)) (cp : Checkpoint) : Prop :=
  ∃ n, cp.startIndex = n * resultsPerPage ∧ ∀ s, (cp.productKey, s) ∈ pages ↔ ∃ k < n, s = k * resultsPerPage

/-- A checkpoint is done only with all its pages, and the run counts what its checkpoints count. -/
structure Counted (t : Tables) : Prop where
  done : ∀ cp ∈ t.checkpoints, cp.status = .done → PagesIn t.pages cp
  sum : t.run.cvesUpserted = total t

structure Ordered (t : Tables) : Prop where
  done : ∀ cp ∈ t.checkpoints, cp.status = .done → PagesIn t.pages cp
  opened : ∀ cp ∈ t.checkpoints, cp.status.isOpen = true → UpToStart t.pages cp

theorem PagesIn.mono {pages pages' : List (Text × ℕ)} {cp : Checkpoint} (h : PagesIn pages cp) (hsub : pages ⊆ pages') :
    PagesIn pages' cp := fun k hk ↦ hsub (h k hk)

/-- Pages of another product do not matter. -/
theorem UpToStart.append {pages extra : List (Text × ℕ)} {cp : Checkpoint} (h : UpToStart pages cp)
    (hextra : ∀ e ∈ extra, e.1 ≠ cp.productKey) : UpToStart (pages ++ extra) cp := by
  obtain ⟨n, hn, hp⟩ := h
  refine ⟨n, hn, fun s ↦ ?_⟩
  rw [List.mem_append, or_iff_left fun he ↦ hextra _ he rfl]
  exact hp s

theorem Ordered.congr {t t' : Tables} (h : Ordered t) (hc : t'.checkpoints = t.checkpoints) (hp : t'.pages = t.pages) :
    Ordered t' := by
  refine ⟨fun cp hcp hs ↦ ?_, fun cp hcp hs ↦ ?_⟩
  · rw [hp]
    exact h.done cp (hc ▸ hcp) hs
  · rw [hp]
    exact h.opened cp (hc ▸ hcp) hs

/-- A checkpoint is replaced, and pages of its product may come in. -/
theorem Ordered.upsert {t : Tables} (h : Ordered t) {cp : Checkpoint} {pages : List (Text × ℕ)} (hsub : t.pages ⊆ pages)
    (hother : ∀ c, c.productKey ≠ cp.productKey → UpToStart t.pages c → UpToStart pages c)
    (hdone : cp.status = .done → PagesIn pages cp) (hopen : cp.status.isOpen = true → UpToStart pages cp) :
    Ordered (upsertCheckpoint { t with pages := pages } cp) := by
  constructor
  · intro c hc hs
    rw [pages_upsertCheckpoint]
    rcases mem_upsertCheckpoint.mp hc with rfl | ⟨hc, hk⟩
    · exact hdone hs
    · exact (h.done c hc hs).mono hsub
  · intro c hc hs
    rw [pages_upsertCheckpoint]
    rcases mem_upsertCheckpoint.mp hc with rfl | ⟨hc, hk⟩
    · exact hopen hs
    · exact hother c hk (h.opened c hc hs)

/-- The checkpoint that a worker fetches for is an open one, as it was stored before it was marked as running. -/
def Fetching (t : Tables) (cp : Checkpoint) : Prop :=
  cp.status.isOpen = true ∧ { cp with status := .running } ∈ t.checkpoints

structure Inv (w : Solo) : Prop where
  ordered : Ordered w.tables
  sum : w.tables.run.cvesUpserted = total w.tables
  count : ∀ wk, w.worker = some wk → wk.cvesUpserted = w.tables.run.cvesUpserted
  fetching : ∀ wk cp, w.worker = some wk → wk.phase = .fetching cp → Fetching w.tables cp

theorem Inv.counted {w : Solo} (h : Inv w) : Counted w.tables := ⟨h.ordered.done, h.sum⟩

theorem Fetching.upToStart {t : Tables} {cp : Checkpoint} (hf : Fetching t cp) (h : Ordered t) : UpToStart t.pages cp := by
  obtain ⟨n, hn, hp⟩ := h.opened _ hf.2 rfl
  exact ⟨n, hn, hp⟩

/-- The page at the start index goes in. -/
theorem UpToStart.next {pages : List (Text × ℕ)} {cp cp' : Checkpoint} (h : UpToStart pages cp)
    (hkey : cp'.productKey = cp.productKey) (hstart : cp'.startIndex = cp.startIndex + resultsPerPage) :
    UpToStart (pages ++ [(cp.productKey, cp.startIndex)]) cp' := by
  obtain ⟨n, hn, hp⟩ := h
  refine ⟨n + 1, by rw [hstart, hn, Nat.succ_mul], fun s ↦ ?_⟩
  rw [hkey, List.mem_append, hp s, List.mem_singleton, Prod.mk.injEq, and_iff_right rfl, hn]
  constructor
  · intro hs
    rcases hs with ⟨k, hk, rfl⟩ | rfl
    · exact ⟨k, by omega, rfl⟩
    · exact ⟨n, by omega, rfl⟩
  · intro ⟨k, hk, hs⟩
    by_cases hkn : k = n
    · exact .inr (hs.trans (by rw [hkn]))
    · exact .inl ⟨k, by omega, hs⟩

theorem UpToStart.pagesIn {pages : List (Text × ℕ)} {cp cp' : Checkpoint} (h : UpToStart pages cp)
    (hkey : cp'.productKey = cp.productKey) (htotal : cp'.totalResults ≤ (cp.startIndex : ℤ)) : PagesIn pages cp' := by
  obtain ⟨n, hn, hp⟩ := h
  intro k hk
  rw [hkey, hp]
  refine ⟨k, ?_, rfl⟩
  have hlt : k * resultsPerPage < n * resultsPerPage := by omega
  exact Nat.lt_of_mul_lt_mul_right hlt

theorem UpToStart.not_pagesIn {pages : List (Text × ℕ)} {cp cp' : Checkpoint} (h : UpToStart pages cp)
    (hkey : cp'.productKey = cp.productKey) (htotal : (cp.startIndex : ℤ) < cp'.totalResults) : ¬PagesIn pages cp' := by
  obtain ⟨n, hn, hp⟩ := h
  intro hin
  have hm := hin n (by rw [← hn]; exact htotal)
  rw [hkey, hp] at hm
  obtain ⟨k, hk, he⟩ := hm
  have : n = k := Nat.eq_of_mul_eq_mul_right (by decide) he
  omega

/-- No page that leaves pages out below the total comes back without a record, nothing is not found after something was
upserted, and no statement raises between the two rows that count the same ids. -/
def WholePage (w : Worker) : Step → Prop
  | .page p fault => ∀ cp, w.phase = .fetching cp → fault ≠ .beforeCheckpoint →
    match kind cp p with
    | .held => True
    | .notFound => cp.cvesUpserted = 0
    | .upserted => (p.cves = [] → p.total ≤ (cp.startIndex + resultsPerPage : ℕ)) ∧ (fault = .afterCheckpoint → p.ids = [])
  | _ => True

def WholePages (w : Solo) : Event → Prop
  | .start _ => True
  | .step _ s => ∀ wk, w.worker = some wk → WholePage wk s

theorem Inv.quiet {s : Step} {t : Tables} {w : Worker} {r : Tables × Option Worker} (h : Inv ⟨t, some w⟩)
    (hq : Quiet s t w r) : Inv (.of r) := by
  have hcount : w.cvesUpserted = t.run.cvesUpserted := h.count w rfl
  have hcves : r.1.run.cvesUpserted = t.run.cvesUpserted := by
    rcases hq.cves with he | he
    · exact he
    · exact he.trans hcount
  constructor
  · exact h.ordered.congr hq.checkpoints hq.pages
  · change r.1.run.cvesUpserted = total r.1
    rw [hcves, total, hq.checkpoints]
    exact h.sum
  · intro wk hwk
    exact (hq.worker wk hwk).cvesUpserted.trans (hcount.trans hcves.symm)
  · intro wk cp hwk hcp
    have hf := h.fetching w cp rfl ((hq.worker wk hwk).fetching cp hcp)
    exact ⟨hf.1, hq.checkpoints ▸ hf.2⟩

theorem mem_of_nextPendingCheckpoint {t : Tables} {cp : Checkpoint} (h : nextPendingCheckpoint t = some cp) :
    cp ∈ t.checkpoints ∧ cp.status.isOpen = true :=
  ⟨List.mem_of_find?_eq_some h, by simpa using List.find?_some h⟩

theorem Inv.mark {now : ℤ} {t : Tables} {w : Worker} {cp : Checkpoint} (h : Inv ⟨t, some w⟩)
    (hcp : nextPendingCheckpoint t = some cp) :
    Inv (.of (updateRun now (upsertCheckpoint t { cp with status := .running }) id,
      some { w with phase := .fetching cp, beat := now })) := by
  obtain ⟨hmem, hopen⟩ := mem_of_nextPendingCheckpoint hcp
  have hup : UpToStart t.pages { cp with status := .running } := h.ordered.opened cp hmem hopen
  have hord : Ordered (upsertCheckpoint t { cp with status := .running }) :=
    h.ordered.upsert (List.Subset.refl _) (fun _ _ hc ↦ hc) (fun hs ↦ by cases hs) fun _ ↦ hup
  have htotal : total (upsertCheckpoint t { cp with status := .running }) + cp.cvesUpserted =
      total t + cp.cvesUpserted := total_upsertCheckpoint hmem rfl
  have hsum : t.run.cvesUpserted = total t := h.sum
  constructor
  · exact hord.congr rfl rfl
  · change (upsertCheckpoint t { cp with status := .running }).run.cvesUpserted =
      total (upsertCheckpoint t { cp with status := .running })
    rw [run_upsertCheckpoint]
    omega
  · intro wk hwk
    obtain rfl := Option.some.inj hwk
    change w.cvesUpserted = (upsertCheckpoint t { cp with status := .running }).run.cvesUpserted
    rw [run_upsertCheckpoint]
    exact h.count w rfl
  · intro wk cp' hwk hcp'
    obtain rfl := Option.some.inj hwk
    obtain rfl := Phase.fetching.inj hcp'
    exact ⟨hopen, mem_upsertCheckpoint.mpr (.inl rfl)⟩

theorem Branch.run_write (branch : Branch) (t : Tables) : (branch.write t).run = t.run := run_upsertCheckpoint _ _

theorem Branch.total_write {branch : Branch} {t : Tables} {cp : Checkpoint} (hf : Fetching t cp)
    (hk : branch.checkpoint.productKey = cp.productKey) :
    total (branch.write t) + cp.cvesUpserted = total t + branch.checkpoint.cvesUpserted := by
  have hmem : { cp with status := .running } ∈
      { t with upserted := t.upserted ++ branch.ids, pages := t.pages ++ branch.pages }.checkpoints := hf.2
  have htotal := total_upsertCheckpoint hmem hk.symm
  exact htotal

theorem productKey_pageBranch (w : Worker) (cp : Checkpoint) (p : Page) :
    (pageBranch w cp p).checkpoint.productKey = cp.productKey := by
  rw [pageBranch]
  split
  · rfl
  · split
    · rfl
    · split <;> rfl

/-- The page was the last one, or the next one is still to come. -/
theorem Ordered.write {t : Tables} {w : Worker} {cp : Checkpoint} {p : Page} (h : Ordered t) (hf : Fetching t cp)
    (hc : kind cp p = .upserted → p.cves = [] → p.total ≤ (cp.startIndex + resultsPerPage : ℕ)) :
    Ordered ((pageBranch w cp p).write t) := by
  have hup := hf.upToStart h
  cases hk : kind cp p with
  | held =>
    obtain ⟨status, runStatus, phase, hs, -, -, hb⟩ := pageBranch_held (w := w) hk
    rw [hb, Branch.write, List.append_nil, List.append_nil]
    refine Ordered.upsert (t := t) h (List.Subset.refl _) (fun _ _ hc ↦ hc) (fun hd ↦ ?_) fun _ ↦ hup
    rw [show status = .done from hd] at hs
    cases hs
  | notFound =>
    rw [pageBranch_notFound hk, Branch.write, List.append_nil, List.append_nil]
    exact Ordered.upsert (t := t) h (List.Subset.refl _) (fun _ _ hc ↦ hc) (fun hd ↦ by cases hd) fun ho ↦ by cases ho
  | upserted =>
    obtain ⟨status, start, hs, hb⟩ := pageBranch_upserted (w := w) hk
    have hother : ∀ c, c.productKey ≠ cp.productKey → UpToStart t.pages c →
        UpToStart (t.pages ++ [(cp.productKey, cp.startIndex)]) c := by
      intro c hne hc
      refine hc.append fun e he ↦ ?_
      rw [List.mem_singleton.mp he]
      exact hne.symm
    have hnext : UpToStart (t.pages ++ [(cp.productKey, cp.startIndex)])
        { cp with startIndex := cp.startIndex + resultsPerPage } := hup.next rfl rfl
    rw [hb, Branch.write]
    refine Ordered.upsert (t := { t with upserted := t.upserted ++ p.ids })
      (h.congr rfl rfl) (List.subset_append_left _ _) hother (fun hd ↦ ?_) fun ho ↦ ?_
    · refine hnext.pagesIn rfl ?_
      split at hs
      · next hlast => exact hlast.elim id (hc hk)
      · rw [show status = .done from hd] at hs
        cases hs.1
    · split at hs
      · rw [show status = .done from hs] at ho
        cases ho
      · rw [hs.2]
        exact hnext

theorem Inv.write {now : ℤ} {t : Tables} {w : Worker} {f : Run → Run} (hord : Ordered t)
    (hsum : (f t.run).cvesUpserted = total t) (hcount : w.cvesUpserted = (f t.run).cvesUpserted)
    (hphase : ∀ cp, w.phase ≠ .fetching cp) : Inv (.of (updateRun now t f, some w)) := by
  refine ⟨hord.congr rfl rfl, hsum, ?_, ?_⟩
  · intro wk hwk
    rw [← Option.some.inj hwk]
    exact hcount
  · intro wk cp hwk hcp
    rw [← Option.some.inj hwk] at hcp
    exact absurd hcp (hphase cp)

theorem Inv.handle {now : ℤ} {t : Tables} {w : Worker} (hord : Ordered t) (hsum : t.run.cvesUpserted = total t)
    (hcount : w.cvesUpserted = t.run.cvesUpserted) : Inv (.of (handle now t w)) := by
  rw [Backfill.handle]
  refine .write hord ?_ ?_ ?_
  · exact hsum
  · exact hcount
  · simp

theorem Inv.page {now : ℤ} {t : Tables} {w : Worker} {cp : Checkpoint} {p : Page} {fault : Fault}
    (h : Inv ⟨t, some w⟩) (hw : w.phase = .fetching cp) (hc : WholePage w (.page p fault)) :
    Inv (.of (pageStep now t w cp p fault)) := by
  have hf : Fetching t cp := h.fetching w cp rfl hw
  have hcount : w.cvesUpserted = t.run.cvesUpserted := h.count w rfl
  have hsum : t.run.cvesUpserted = total t := h.sum
  have hc := hc cp hw
  have hwrite : fault ≠ .beforeCheckpoint → Ordered ((pageBranch w cp p).write t) := by
    intro hfault
    refine h.ordered.write hf fun hk ↦ ?_
    have hc := hc hfault
    rw [hk] at hc
    exact hc.1
  have htotal := Branch.total_write hf (productKey_pageBranch w cp p)
  cases fault with
  | beforeCheckpoint =>
    rw [pageStep]
    exact .handle (h.ordered.congr rfl rfl) hsum hcount
  | afterCheckpoint =>
    have hc := hc (by decide)
    have hrun : ((pageBranch w cp p).write t).run.cvesUpserted = t.run.cvesUpserted := by rw [Branch.run_write]
    have hsame : (pageBranch w cp p).checkpoint.cvesUpserted = cp.cvesUpserted := by
      cases hk : kind cp p with
      | held =>
        obtain ⟨status, runStatus, phase, -, -, -, hb⟩ := pageBranch_held (w := w) hk
        rw [hb]
      | notFound =>
        rw [hk] at hc
        rw [pageBranch_notFound hk]
        exact hc.symm
      | upserted =>
        rw [hk] at hc
        obtain ⟨status, start, -, hb⟩ := pageBranch_upserted (w := w) hk
        rw [hb]
        simp only [hc.2 rfl, List.length_nil, Nat.add_zero]
    rw [pageStep]
    exact .handle (hwrite (by decide)) (by omega) (hcount.trans hrun.symm)
  | none =>
    have hord := hwrite (by decide)
    have hc := hc (by decide)
    have hrun : ((pageBranch w cp p).write t).run.cvesUpserted = t.run.cvesUpserted := by rw [Branch.run_write]
    rw [pageStep]
    cases hk : kind cp p with
    | held =>
      obtain ⟨status, runStatus, phase, -, hphase, -, hb⟩ := pageBranch_held (w := w) hk
      rw [hb] at htotal hord hrun ⊢
      refine .write hord ?_ ?_ hphase
      · exact hrun.trans (by simp only at htotal; omega)
      · exact hcount.trans hrun.symm
    | notFound =>
      rw [hk] at hc
      rw [pageBranch_notFound hk] at htotal hord hrun ⊢
      refine .write hord ?_ ?_ (by simp)
      · exact hrun.trans (by simp only at htotal hc; omega)
      · exact hcount.trans hrun.symm
    | upserted =>
      obtain ⟨status, start, -, hb⟩ := pageBranch_upserted (w := w) hk
      rw [hb] at htotal hord hrun ⊢
      refine .write hord ?_ ?_ (by simp)
      · change w.cvesUpserted + p.ids.length = _
        simp only at htotal
        omega
      · rfl

theorem Inv.start {monotonic : ℤ} {t : Tables} (h : Inv ⟨t, none⟩) : Inv ⟨t, begin monotonic t⟩ := by
  refine ⟨h.ordered, h.sum, ?_, ?_⟩
  · intro wk hwk
    rw [begin] at hwk
    split at hwk
    · cases hwk
    · obtain rfl := Option.some.inj hwk
      rfl
  · intro wk cp hwk hcp
    rw [begin] at hwk
    split at hwk
    · cases hwk
    · obtain rfl := Option.some.inj hwk
      cases hcp

theorem Inv.step {stale : ℤ} {w : Solo} {e : Event} (h : Inv w) (he : WholePages w e) : Inv (soloStep stale w e) := by
  obtain ⟨t, worker⟩ := w
  cases worker with
  | none =>
    cases e with
    | start monotonic => exact h.start
    | step now s => exact h
  | some w =>
    cases e with
    | start monotonic => exact h
    | step now s =>
      rcases advance_cases stale now t w s with hq | ⟨cp, hcp, -, ha⟩ | ⟨p, fault, cp, rfl, hw, ha⟩ | ⟨-, -, ha⟩
      · exact h.quiet hq
      · simp only [soloStep, ha]
        exact h.mark hcp
      · simp only [soloStep, ha]
        exact h.page hw (he w rfl)
      · simp only [soloStep, ha]
        refine ⟨h.ordered.congr rfl rfl, h.sum, ?_, ?_⟩
        · intro wk hwk
          obtain rfl := Option.some.inj hwk
          exact h.count w rfl
        · intro wk cp hwk hcp
          obtain rfl := Option.some.inj hwk
          cases hcp

/-- What the counts say once the checkpoint of a page is written: without a fault the run counts what the branch says,
with one it keeps its count. -/
theorem counted_pageStep {now : ℤ} {t : Tables} {w : Worker} {cp : Checkpoint} {p : Page} {fault : Fault}
    (hfault : fault ≠ .beforeCheckpoint) (hc : Counted (pageStep now t w cp p fault).1) :
    (if fault = .none then ((pageBranch w cp p).run t.run).cvesUpserted else t.run.cvesUpserted) =
        total ((pageBranch w cp p).write t) ∧
      ((pageBranch w cp p).checkpoint.status = .done →
        PagesIn (t.pages ++ (pageBranch w cp p).pages) (pageBranch w cp p).checkpoint) := by
  have hmem : (pageBranch w cp p).checkpoint ∈ ((pageBranch w cp p).write t).checkpoints :=
    mem_upsertCheckpoint.mpr (.inl rfl)
  have hpages : ((pageBranch w cp p).write t).pages = t.pages ++ (pageBranch w cp p).pages := pages_upsertCheckpoint _ _
  have hrun : ((pageBranch w cp p).write t).run = t.run := Branch.run_write _ _
  cases fault with
  | beforeCheckpoint => exact absurd rfl hfault
  | afterCheckpoint =>
    refine ⟨?_, fun hd ↦ hpages ▸ hc.done _ hmem hd⟩
    rw [if_neg (by decide), ← hrun]
    exact hc.sum
  | none =>
    refine ⟨?_, fun hd ↦ hpages ▸ hc.done _ hmem hd⟩
    rw [if_pos rfl, ← hrun]
    exact hc.sum

theorem Inv.not_counted_page {now : ℤ} {t : Tables} {w : Worker} {cp : Checkpoint} {p : Page} {fault : Fault}
    (h : Inv ⟨t, some w⟩) (hw : w.phase = .fetching cp) (he : ¬WholePage w (.page p fault)) :
    ¬Counted (pageStep now t w cp p fault).1 := by
  simp only [WholePage, not_forall] at he
  obtain ⟨cp', hw', hfault, he⟩ := he
  obtain rfl := Phase.fetching.inj (hw.symm.trans hw')
  have hf : Fetching t cp := h.fetching w cp rfl hw
  have hcount : w.cvesUpserted = t.run.cvesUpserted := h.count w rfl
  have hsum : t.run.cvesUpserted = total t := h.sum
  have htotal := Branch.total_write hf (productKey_pageBranch w cp p)
  intro hc
  obtain ⟨htot, hdone⟩ := counted_pageStep hfault hc
  cases hk : kind cp p with
  | held => simp [hk] at he
  | notFound =>
    rw [hk] at he
    rw [pageBranch_notFound hk] at htotal htot
    simp only [ite_self] at htotal htot he
    omega
  | upserted =>
    rw [hk] at he
    obtain ⟨status, start, hs, hb⟩ := pageBranch_upserted (w := w) hk
    rw [hb] at htotal htot hdone
    simp only at htotal htot hdone he
    by_cases hpage : p.cves = [] ∧ ((cp.startIndex + resultsPerPage : ℕ) : ℤ) < p.total
    · rw [if_pos (.inr hpage.1)] at hs
      have hnext : UpToStart (t.pages ++ [(cp.productKey, cp.startIndex)])
          { cp with startIndex := cp.startIndex + resultsPerPage } := (hf.upToStart h.ordered).next rfl rfl
      have hnot : ¬PagesIn (t.pages ++ [(cp.productKey, cp.startIndex)])
          ⟨cp.productKey, status, start, p.total, cp.cvesUpserted + p.ids.length⟩ := hnext.not_pagesIn rfl hpage.2
      exact hnot (hdone hs)
    · have hids : fault = .afterCheckpoint ∧ p.ids ≠ [] := by
        by_contra hno
        refine he ⟨fun hp ↦ Int.not_lt.mp fun hlt ↦ hpage ⟨hp, hlt⟩, fun hf ↦ ?_⟩
        by_contra hids
        exact hno ⟨hf, hids⟩
      have hlen : p.ids.length ≠ 0 := fun hl ↦ hids.2 (List.eq_nil_of_length_eq_zero hl)
      rw [hids.1, if_neg (by decide)] at htot
      omega

theorem Inv.not_counted {stale : ℤ} {w : Solo} {e : Event} (h : Inv w) (he : ¬WholePages w e) :
    ¬Counted (soloStep stale w e).tables := by
  obtain ⟨t, worker⟩ := w
  cases e with
  | start monotonic => exact absurd trivial he
  | step now s =>
    simp only [WholePages, not_forall] at he
    obtain ⟨w, rfl, he⟩ := he
    cases s with
    | page p fault =>
      cases hw : w.phase with
      | fetching cp =>
        have hno : ¬Counted (pageStep now t w cp p fault).1 := h.not_counted_page hw he
        simpa only [soloStep, advance, hw, Solo.of] using hno
      | _ => exact absurd (fun cp hcp ↦ by simp [hw] at hcp) he
    | _ => exact absurd trivial he

theorem Fresh.inv {t : Tables} (h : Fresh t) : Inv ⟨t, none⟩ := by
  refine ⟨⟨?_, ?_⟩, ?_, by simp, by simp⟩
  · intro cp hcp hd
    rw [(h.checkpoints cp hcp).1] at hd
    cases hd
  · intro cp hcp _
    exact ⟨0, by simp [(h.checkpoints cp hcp).2.1], by simp [h.pages]⟩
  · have hsum : total t = 0 := List.sum_eq_zero fun n hn ↦ by
      obtain ⟨cp, hcp, rfl⟩ := List.mem_map.mp hn
      exact (h.checkpoints cp hcp).2.2
    exact h.cves.trans hsum.symm

/-- At every commit of a run whose executions do not overlap, a product is done only with all its pages and the run
counts what its checkpoints count, exactly when every page of it meets `WholePages`. -/
theorem backfill_counted_iff (stale maxCves maxRuntime now : ℤ) (productKeys : List Text) (events : List Event) :
    (∀ before, before <+: events →
      Counted (run (soloStep stale) ⟨createRun maxCves maxRuntime now productKeys, none⟩ before).tables) ↔
    Along (soloStep stale) WholePages ⟨createRun maxCves maxRuntime now productKeys, none⟩ events := by
  have hgood : ∀ w, Inv w → Counted w.tables := fun _ h ↦ h.counted
  have hstep : ∀ w e, Inv w → WholePages w e → Inv (soloStep stale w e) := fun _ _ h he ↦ h.step he
  have hbreak : ∀ w e, Inv w → ¬WholePages w e → ¬Counted (soloStep stale w e).tables := fun _ _ h he ↦ h.not_counted he
  exact forall_prefix_iff hgood hstep hbreak (fresh_createRun maxCves maxRuntime now productKeys).inv

/-- The first of two pages holds rejected records only. -/
def rejectedPage : List Event :=
  [.start 0, .step 1 .claim, .step 2 (.loop 2), .step 3 (.page ⟨[], 2001, none⟩ .none)]

theorem backfill_pages_missing :
    ¬∀ (stale maxCves maxRuntime now : ℤ) (productKeys : List Text) (events : List Event),
      Counted (run (soloStep stale) ⟨createRun maxCves maxRuntime now productKeys, none⟩ events).tables := by
  intro h
  have hc := h 900 5000 3600 0 ["::nginx".toList] rejectedPage
  have hmem : ⟨"::nginx".toList, .done, 0, 2001, 0⟩ ∈
      (run (soloStep 900) ⟨createRun 5000 3600 0 ["::nginx".toList], none⟩ rejectedPage).tables.checkpoints := by
    decide
  have hin := hc.done _ hmem rfl 1 (by decide)
  revert hin
  decide

end Briefr.Backfill
