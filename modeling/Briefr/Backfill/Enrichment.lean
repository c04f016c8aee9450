import Briefr.Backfill.Progress

namespace Briefr.Backfill

open Briefr.Python Briefr.Library.Runs

/-- EPSS and KEV were tried for all that a completed run has upserted. -/
def Enriched (t : Tables) : Prop := t.run.status = .completed → ∀ id ∈ t.upserted, id ∈ t.epssTried ∧ id ∈ t.kevTried

/-- The execution that completes the run has upserted again what the earlier ones had, unless EPSS was tried for it
already. -/
def Reupserted (w : Solo) : Event → Prop
  | .step _ .complete => ∀ wk, w.worker = some wk → wk.phase = .completing →
    ∀ id ∈ w.tables.upserted, id ∈ wk.newIds ∨ id ∈ w.tables.epssTried
  | _ => True

structure TriedInv (w : Solo) : Prop where
  enriched : Enriched w.tables
  kev : w.tables.epssTried ⊆ w.tables.kevTried
  newIds : ∀ wk, w.worker = some wk → wk.newIds ⊆ w.tables.upserted
  tried : ∀ wk, w.worker = some wk → wk.phase = .completing → wk.newIds ⊆ w.tables.epssTried
  closing : ∀ wk, w.worker = some wk → w.tables.run.status = .completed → wk.phase = .closing

theorem Fresh.triedInv {t : Tables} (h : Fresh t) : TriedInv ⟨t, none⟩ := by
  refine ⟨?_, by simp [h.epssTried], by simp, by simp, by simp⟩
  intro hs
  rw [h.status] at hs
  cases hs

theorem TriedInv.start {monotonic : ℤ} {t : Tables} (h : TriedInv ⟨t, none⟩) : TriedInv ⟨t, begin monotonic t⟩ := by
  have hbegin : ∀ wk, begin monotonic t = some wk →
      wk.newIds = [] ∧ wk.phase = .claiming ∧ t.run.status.isTerminal = false := by
    intro wk hwk
    rw [begin] at hwk
    split at hwk
    · cases hwk
    · next ht =>
      obtain rfl := Option.some.inj hwk
      exact ⟨rfl, rfl, by simpa using ht⟩
  refine ⟨h.enriched, h.kev, ?_, ?_, ?_⟩
  · intro wk hwk
    rw [(hbegin wk hwk).1]
    exact List.nil_subset _
  · intro wk hwk hp
    rw [(hbegin wk hwk).2.1] at hp
    cases hp
  · intro wk hwk hs
    have ht := (hbegin wk hwk).2.2
    rw [show t.run.status = .completed from hs] at ht
    cases ht

theorem TriedInv.quiet {s : Step} {t : Tables} {w : Worker} {r : Tables × Option Worker} (h : TriedInv ⟨t, some w⟩)
    (hq : Quiet s t w r)
    (hc : s = .complete → w.phase = .completing → ∀ id ∈ t.upserted, id ∈ w.newIds ∨ id ∈ t.epssTried) :
    TriedInv (.of r) := by
  refine ⟨?_, ?_, ?_, ?_, ?_⟩
  · intro hs id hid
    change id ∈ r.1.epssTried ∧ id ∈ r.1.kevTried
    have hid : id ∈ t.upserted := hq.upserted ▸ hid
    rw [hq.epssTried, hq.kevTried]
    rcases hq.completed hs with hs | ⟨rfl, hp, -⟩
    · exact h.enriched hs id hid
    · have htried : id ∈ t.epssTried := (hc rfl hp id hid).elim (fun hn ↦ h.tried w rfl hp hn) fun he ↦ he
      exact ⟨htried, h.kev htried⟩
  · change r.1.epssTried ⊆ r.1.kevTried
    rw [hq.epssTried, hq.kevTried]
    exact h.kev
  · intro wk hwk
    change wk.newIds ⊆ r.1.upserted
    rw [(hq.worker wk hwk).newIds, hq.upserted]
    exact h.newIds w rfl
  · intro wk hwk hp
    change wk.newIds ⊆ r.1.epssTried
    rw [(hq.worker wk hwk).newIds, hq.epssTried]
    rcases (hq.worker wk hwk).completing hp with hp | hn
    · exact h.tried w rfl hp
    · rw [hn]
      exact List.nil_subset _
  · intro wk hwk hs
    rcases hq.completed hs with hs | ⟨-, -, hclosing⟩
    · exact (hq.worker wk hwk).closing (h.closing w rfl hs)
    · exact hclosing wk hwk

/-- A step after which the run is not completed. -/
theorem TriedInv.working {r : Tables × Option Worker} (hs : r.1.run.status ≠ .completed)
    (hkev : r.1.epssTried ⊆ r.1.kevTried) (hnew : ∀ wk, r.2 = some wk → wk.newIds ⊆ r.1.upserted)
    (htried : ∀ wk, r.2 = some wk → wk.phase = .completing → wk.newIds ⊆ r.1.epssTried) : TriedInv (.of r) :=
  ⟨fun h ↦ absurd h hs, hkev, hnew, htried, fun _ _ h ↦ absurd h hs⟩

/-- A worker that is not closing has a run that is not completed. -/
theorem TriedInv.not_completed {t : Tables} {w : Worker} (h : TriedInv ⟨t, some w⟩) (hw : w.phase ≠ .closing) :
    t.run.status ≠ .completed := fun hs ↦ hw (h.closing w rfl hs)

theorem TriedInv.handle {now : ℤ} {t : Tables} {w : Worker} (hkev : t.epssTried ⊆ t.kevTried)
    (hnew : w.newIds ⊆ t.upserted) : TriedInv (.of (handle now t w)) := by
  rw [Backfill.handle]
  refine .working (fun h ↦ by cases h) hkev ?_ ?_
  · intro wk hwk
    obtain rfl := Option.some.inj hwk
    exact hnew
  · intro wk hwk hp
    obtain rfl := Option.some.inj hwk
    cases hp

theorem TriedInv.page {now : ℤ} {t : Tables} {w : Worker} {cp : Checkpoint} {p : Page} {fault : Fault}
    (h : TriedInv ⟨t, some w⟩) (hw : w.phase = .fetching cp) : TriedInv (.of (pageStep now t w cp p fault)) := by
  have hs : t.run.status ≠ .completed := h.not_completed (by simp [hw])
  have hnew : w.newIds ⊆ t.upserted := h.newIds w rfl
  have hkev : t.epssTried ⊆ t.kevTried := h.kev
  have hkev' : ((pageBranch w cp p).write t).epssTried ⊆ ((pageBranch w cp p).write t).kevTried := by
    rw [Branch.write, epssTried_upsertCheckpoint, kevTried_upsertCheckpoint]
    exact hkev
  have hupserted : ((pageBranch w cp p).write t).upserted = t.upserted ++ (pageBranch w cp p).ids :=
    upserted_upsertCheckpoint _ _
  obtain ⟨hids, hphase, hrun⟩ := pageBranch_next w cp p t.run
  cases fault with
  | beforeCheckpoint =>
    rw [pageStep]
    exact .handle hkev (List.Subset.trans hnew (List.subset_append_left _ _))
  | afterCheckpoint =>
    rw [pageStep]
    refine .handle hkev' ?_
    rw [hupserted]
    exact List.Subset.trans hnew (List.subset_append_left _ _)
  | none =>
    rw [pageStep]
    refine .working ?_ hkev' ?_ ?_
    · have hwrite : ((pageBranch w cp p).write t).run = t.run := run_upsertCheckpoint _ _
      intro hc
      change ((pageBranch w cp p).run ((pageBranch w cp p).write t).run).status = .completed at hc
      rw [hwrite] at hc
      exact hs (hrun hc)
    · intro wk hwk
      obtain rfl := Option.some.inj hwk
      change (pageBranch w cp p).next.newIds ⊆ ((pageBranch w cp p).write t).upserted
      rw [hids, hupserted]
      exact List.append_subset.mpr
        ⟨List.Subset.trans hnew (List.subset_append_left _ _), List.subset_append_right _ _⟩
    · intro wk hwk hp
      obtain rfl := Option.some.inj hwk
      exact absurd hp hphase

theorem TriedInv.mark {now : ℤ} {t : Tables} {w : Worker} {cp : Checkpoint} (h : TriedInv ⟨t, some w⟩)
    (hw : w.phase = .looping) :
    TriedInv (.of (updateRun now (upsertCheckpoint t { cp with status := .running }) id,
      some { w with phase := .fetching cp, beat := now })) := by
  refine .working ?_ ?_ ?_ ?_
  · change (upsertCheckpoint t { cp with status := .running }).run.status ≠ .completed
    rw [run_upsertCheckpoint]
    exact h.not_completed (by simp [hw])
  · change (upsertCheckpoint t { cp with status := .running }).epssTried ⊆
      (upsertCheckpoint t { cp with status := .running }).kevTried
    rw [epssTried_upsertCheckpoint, kevTried_upsertCheckpoint]
    exact h.kev
  · intro wk hwk
    obtain rfl := Option.some.inj hwk
    change w.newIds ⊆ (upsertCheckpoint t { cp with status := .running }).upserted
    rw [upserted_upsertCheckpoint]
    exact h.newIds w rfl
  · intro wk hwk hp
    obtain rfl := Option.some.inj hwk
    cases hp

theorem TriedInv.enrich {t : Tables} {w : Worker} (h : TriedInv ⟨t, some w⟩) (hw : w.phase = .enriching) :
    TriedInv (.of (enrichStep t w)) := by
  have hnew : w.newIds ⊆ t.upserted := h.newIds w rfl
  refine .working (h.not_completed (by simp [hw])) ?_ ?_ ?_
  · exact List.append_subset.mpr
      ⟨List.Subset.trans h.kev (List.subset_append_left _ _), List.Subset.trans hnew (List.subset_append_right _ _)⟩
  · intro wk hwk
    obtain rfl := Option.some.inj hwk
    exact hnew
  · intro wk hwk _
    obtain rfl := Option.some.inj hwk
    exact List.subset_append_right _ _

theorem TriedInv.step {stale : ℤ} {w : Solo} {e : Event} (h : TriedInv w) (he : Reupserted w e) :
    TriedInv (soloStep stale w e) := by
  obtain ⟨t, worker⟩ := w
  cases worker with
  | none =>
    cases e with
    | start monotonic => exact h.start
    | step now s => exact h
  | some w =>
    cases e with
    | start monotonic => exact h
    | step now s =>
      simp only [soloStep]
      rcases advance_cases stale now t w s with hq | ⟨cp, -, hw, ha⟩ | ⟨p, fault, cp, -, hw, ha⟩ | ⟨-, hw, ha⟩
      · refine h.quiet hq ?_
        rintro rfl hp
        exact he w rfl hp
      · rw [ha]
        exact h.mark hw
      · rw [ha]
        exact h.page hw
      · rw [ha]
        exact h.enrich hw

theorem TriedInv.not_enriched {stale : ℤ} {w : Solo} {e : Event} (h : TriedInv w) (he : ¬Reupserted w e) :
    ¬Enriched (soloStep stale w e).tables := by
  obtain ⟨t, worker⟩ := w
  cases e with
  | start monotonic => exact absurd trivial he
  | step now s =>
    cases s with
    | complete =>
      simp only [Reupserted, not_forall, not_or] at he
      obtain ⟨w, rfl, hw, id, hid, hnew, htried⟩ := he
      simp only [soloStep, advance, hw]
      intro hc
      exact htried (hc rfl id hid).1
    | _ => exact absurd trivial he

/-- Whenever a run whose executions do not overlap is completed, EPSS and KEV were tried for all that any of its
executions has upserted, exactly when the completing ones meet `Reupserted`. -/
theorem backfill_enriched_iff (stale maxCves maxRuntime now : ℤ) (productKeys : List Text) (events : List Event) :
    (∀ before, before <+: events →
      Enriched (run (soloStep stale) ⟨createRun maxCves maxRuntime now productKeys, none⟩ before).tables) ↔
    Along (soloStep stale) Reupserted ⟨createRun maxCves maxRuntime now productKeys, none⟩ events := by
  have hgood : ∀ w, TriedInv w → Enriched w.tables := fun _ h ↦ h.enriched
  have hstep : ∀ w e, TriedInv w → Reupserted w e → TriedInv (soloStep stale w e) := fun _ _ h he ↦ h.step he
  have hbreak : ∀ w e, TriedInv w → ¬Reupserted w e → ¬Enriched (soloStep stale w e).tables :=
    fun _ _ h he ↦ h.not_enriched he
  exact forall_prefix_iff hgood hstep hbreak (fresh_createRun maxCves maxRuntime now productKeys).triedInv

/-- The first of two products is upserted, the second is rate limited; the resumed run finds nothing more. -/
def deferredRun : List Event :=
  [.start 0, .step 1 .claim, .step 2 (.loop 2), .step 3 (.page ⟨["CVE-2024-0001".toList], 1, none⟩ .none),
    .step 4 (.loop 4), .step 5 (.page ⟨[], 0, some .rateLimited⟩ .none), .step 6 .resumed, .step 7 .close,
    .start 180, .step 181 .claim, .step 182 (.loop 182), .step 183 (.page ⟨[], 0, some .notFound⟩ .none),
    .step 184 (.loop 184), .step 185 .complete]

theorem backfill_enrichment_missing :
    ¬∀ (stale maxCves maxRuntime now : ℤ) (productKeys : List Text) (events : List Event),
      Enriched (run (soloStep stale) ⟨createRun maxCves maxRuntime now productKeys, none⟩ events).tables := by
  intro h
  have htried := h 900 5000 3600 0 ["::nginx".toList, "::zz".toList] deferredRun (by decide +kernel)
    "CVE-2024-0001".toList (by decide +kernel)
  revert htried
  decide +kernel

end Briefr.Backfill
