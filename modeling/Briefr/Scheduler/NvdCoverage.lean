import Briefr.Scheduler.NvdSync

namespace Briefr.Scheduler.NvdCoverage

open Briefr.Python Briefr.Library.StableSort Briefr.Library.Oldest Briefr.Library.Runs Briefr.Scheduler.NvdSync

/-- Some successful cycle upserted or purged the event. -/
def Covered (s : State) (e : Event) : Prop := e ∈ s.upserted ∨ e ∈ s.purged

variable (cfg : Config) (log : List Event)

def after (s : State) (cycles : List Cycle) : State := run (runNvdIncrementalSync cfg log) s cycles

/-- A successful cycle found its watermark too old and started its window after the event. -/
def SkippedByClamp (s : State) (cycles : List Cycle) (e : Event) : Prop :=
  ∃ before c rest w, cycles = before ++ c :: rest ∧ c.succeeds = true ∧
    resolveNvdWatermark (after cfg log s before) = some w ∧ Clamps cfg c.now w ∧ w ≤ e.modified ∧
    e.modified < formatNvdDatetime (c.now - 120 * day)

/-- No cycle has succeeded since one that was capped, or since the start. -/
def Pending (s : State) (cycles : List Cycle) : Prop :=
  ∃ before rest, cycles = before ++ rest ∧ (∀ c ∈ rest, c.succeeds = false) ∧
    (before = [] ∨ ∃ front c, before = front ++ [c] ∧ c.succeeds = true ∧
      isCapped cfg (answerOf cfg log (after cfg log s front) c.now) = true)

variable {cfg log}

theorem after_append (s : State) (cycles : List Cycle) (c : Cycle) :
    after cfg log s (cycles ++ [c]) = runNvdIncrementalSync cfg log (after cfg log s cycles) c := run_append _ _ _

theorem resolve_eq {s : State} {w : ℤ} (h : s.watermark = some w) : resolveNvdWatermark s = some w := by
  rw [resolveNvdWatermark, h]
  rfl

theorem run_failed {s : State} {c : Cycle} {w : ℤ} (hc : c.succeeds = false) (hw : s.watermark = some w) :
    runNvdIncrementalSync cfg log s c = s := by
  rw [runNvdIncrementalSync, hc, if_neg Bool.false_ne_true, resolve_eq hw, ← hw]

def Started (s : State) : Prop := ∃ w, s.watermark = some w

theorem Started.step {s : State} (h : Started s) (c : Cycle) : Started (runNvdIncrementalSync cfg log s c) := by
  obtain ⟨w, hw⟩ := h
  cases hc : c.succeeds with
  | false => exact ⟨w, by rw [run_failed hc hw, hw]⟩
  | true => exact ⟨_, by rw [runNvdIncrementalSync, if_pos hc]⟩

theorem Started.after (cfg : Config) (log : List Event) {s : State} (h : Started s) (cycles : List Cycle) :
    Started (after cfg log s cycles) := run_invariant cycles (fun _ c h ↦ h.step c) h

theorem Covered.mono {s : State} {e : Event} (h : Covered s e) (c : Cycle) :
    Covered (runNvdIncrementalSync cfg log s c) e := by
  unfold runNvdIncrementalSync
  split
  · exact h.imp (List.mem_append_left _) (List.mem_append_left _)
  · exact h

theorem SkippedByClamp.append {s : State} {cycles : List Cycle} {e : Event}
    (h : SkippedByClamp cfg log s cycles e) (c : Cycle) : SkippedByClamp cfg log s (cycles ++ [c]) e := by
  obtain ⟨before, c', rest, w, rfl, h⟩ := h
  exact ⟨before, c', rest ++ [c], w, by simp, h⟩

theorem Pending.append {s : State} {cycles : List Cycle} (h : Pending cfg log s cycles) {c : Cycle}
    (hc : c.succeeds = false) : Pending cfg log s (cycles ++ [c]) := by
  obtain ⟨before, rest, rfl, hrest, hb⟩ := h
  refine ⟨before, rest ++ [c], by simp, fun c' h' ↦ ?_, hb⟩
  rcases List.mem_append.mp h' with h' | h'
  · exact hrest c' h'
  · obtain rfl := List.mem_singleton.mp h'
    exact hc

/-- The watermark a successful cycle stores is not after its window. -/
theorem newWatermark_le {s : State} {now w : ℤ} (hw : s.watermark = some w) :
    newWatermark cfg now (answerOf cfg log s now) ≤ formatNvdDatetime now := by
  cases hc : isCapped cfg (answerOf cfg log s now) with
  | false => rw [newWatermark_of_not_capped hc]
  | true =>
    obtain ⟨e, he, hn⟩ := newWatermark_of_capped now hc
    have hm : e ∈ keptCves cfg (answerOf cfg log s now) := List.mem_of_getLast? he
    rw [kept_of_capped hc] at hm
    have ha := (mem_sortedCves.mp (List.mem_of_mem_take hm)).1
    rw [hn]
    exact ((mem_answerOf (resolve_eq hw)).mp ha).2.2

/-- What a successful cycle does with an event of its window. -/
theorem covered_of_window {s : State} {c : Cycle} {e : Event} (hc : c.succeeds = true)
    (he : e ∈ answerOf cfg log s c.now) (hle : e.modified ≤ newWatermark cfg c.now (answerOf cfg log s c.now)) :
    Covered (runNvdIncrementalSync cfg log s c) e ∨ (isCapped cfg (answerOf cfg log s c.now) = true ∧
      e.modified = newWatermark cfg c.now (answerOf cfg log s c.now)) := by
  rw [runNvdIncrementalSync, if_pos hc]
  cases hr : e.rejected with
  | true => exact .inl (.inr (List.mem_append_right _ (List.mem_filter.mpr ⟨he, hr⟩)))
  | false =>
    have hs := mem_sortedCves.mpr ⟨he, hr⟩
    cases hcap : isCapped cfg (answerOf cfg log s c.now) with
    | false =>
      refine .inl (.inl (List.mem_append_right _ ?_))
      rwa [kept_of_not_capped hcap]
    | true =>
      obtain ⟨last, hl, hn⟩ := newWatermark_of_capped c.now hcap
      rw [hn] at hle ⊢
      rcases hle.lt_or_eq with hlt | heq
      · refine .inl (.inl (List.mem_append_right _ ?_))
        have hlast := List.mem_of_getLast? hl
        rw [kept_of_capped hcap] at hlast ⊢
        exact mem_take_of_lt (List.mem_filter.mpr ⟨he, by simp [hr]⟩) hlast hlt
      · exact .inr ⟨rfl, heq⟩

/-- Every event between the first watermark and the stored one is covered, except below a clamped
window, and at the stored watermark itself as long as the cycle that stored it was capped. -/
theorem no_gap (s : State) (cycles : List Cycle) {w₀ w : ℤ} (h₀ : s.watermark = some w₀)
    (hw : (after cfg log s cycles).watermark = some w) {e : Event} (he : e ∈ log) (hlo : w₀ ≤ e.modified)
    (hhi : e.modified ≤ w) :
    Covered (after cfg log s cycles) e ∨ SkippedByClamp cfg log s cycles e ∨
      (Pending cfg log s cycles ∧ e.modified = w) := by
  -- on the number of cycles, from the last one back
  induction cycles using List.reverseRecOn generalizing w with
  | nil =>
    have hww : w₀ = w := Option.some.inj (h₀.symm.trans hw)
    exact .inr (.inr ⟨⟨[], [], rfl, by simp, .inl rfl⟩, by omega⟩)
  | append_singleton cycles c ih =>
    obtain ⟨v, hv⟩ := Started.after cfg log ⟨w₀, h₀⟩ cycles
    rw [after_append] at hw ⊢
    cases hc : c.succeeds with
    | false =>
      rw [run_failed hc hv] at hw ⊢
      rcases ih hw hhi with h | h | ⟨h, hm⟩
      · exact .inl h
      · exact .inr (.inl (h.append c))
      · exact .inr (.inr ⟨h.append hc, hm⟩)
    | true =>
      have hww : newWatermark cfg c.now (answerOf cfg log (after cfg log s cycles) c.now) = w := by
        rw [runNvdIncrementalSync, if_pos hc] at hw
        exact Option.some.inj hw
      subst hww
      -- an event before the old watermark was dealt with by the shorter run
      have hold (hlt : e.modified < v) : Covered (runNvdIncrementalSync cfg log (after cfg log s cycles) c) e ∨
          SkippedByClamp cfg log s (cycles ++ [c]) e := by
        rcases ih hv hlt.le with h | h | ⟨-, hm⟩
        · exact .inl (h.mono c)
        · exact .inr (h.append c)
        · omega
      by_cases hstart : formatNvdDatetime (modStart cfg c.now v) ≤ e.modified
      · have hin : e ∈ answerOf cfg log (after cfg log s cycles) c.now :=
          (mem_answerOf (resolve_eq hv)).mpr ⟨he, hstart, hhi.trans (newWatermark_le hv)⟩
        rcases covered_of_window hc hin hhi with h | ⟨hcap, hm⟩
        · exact .inl h
        · exact .inr (.inr ⟨⟨cycles ++ [c], [], by simp, by simp, .inr ⟨cycles, c, rfl, hc, hcap⟩⟩, hm⟩)
      · have hout : e.modified < formatNvdDatetime (modStart cfg c.now v) := not_le.mp hstart
        by_cases hcl : Clamps cfg c.now v
        · rw [modStart, if_pos hcl] at hout
          by_cases hve : v ≤ e.modified
          · exact .inr (.inl ⟨cycles, c, [], v, rfl, hc, resolve_eq hv, hcl, hve, hout⟩)
          · exact (hold (not_le.mp hve)).imp_right .inl
        · rw [modStart, if_neg hcl] at hout
          have hlt : e.modified < v := hout.trans_le ((formatNvdDatetime_le _).trans (overlapStart_le cfg v))
          exact (hold hlt).imp_right .inl

def hour : ℤ := 60 * minute

def oneAtATime : Config := ⟨1, 14, 15, Nat.one_pos⟩

def modifiedAt (cveId : String) (t : ℤ) : Event := ⟨cveId.toList, t, 0, false⟩

def startedAt (w : ℤ) : State := ⟨some w, [], [], []⟩

theorem no_gap_first_hour :
    Covered (after oneAtATime [modifiedAt "CVE-2024-0001" hour] (startedAt 0) [⟨2 * hour, true⟩])
        (modifiedAt "CVE-2024-0001" hour) ∨
      SkippedByClamp oneAtATime [modifiedAt "CVE-2024-0001" hour] (startedAt 0) [⟨2 * hour, true⟩]
        (modifiedAt "CVE-2024-0001" hour) ∨
      (Pending oneAtATime [modifiedAt "CVE-2024-0001" hour] (startedAt 0) [⟨2 * hour, true⟩] ∧
        (modifiedAt "CVE-2024-0001" hour).modified = 2 * hour) :=
  no_gap (startedAt 0) [⟨2 * hour, true⟩] rfl (by decide) (.head _) (by decide) (by decide)

variable (cfg log) in
/-- Every event between the first watermark and the stored one was upserted or purged. -/
def NoGap (s : State) (cycles : List Cycle) : Prop :=
  ∀ w₀ w, s.watermark = some w₀ → (after cfg log s cycles).watermark = some w →
    ∀ e ∈ log, w₀ ≤ e.modified → e.modified ≤ w → Covered (after cfg log s cycles) e

/-- After 200 days the window starts 120 days back; two CVEs modified at once do not fit under a cap
of one; and a failed cycle reads nothing. -/
theorem gap_at_clamp_and_cap :
    ¬NoGap oneAtATime [modifiedAt "CVE-2024-0001" day] (startedAt 0) [⟨200 * day, true⟩] ∧
    ¬NoGap oneAtATime [modifiedAt "CVE-2024-0001" hour, modifiedAt "CVE-2024-0002" hour] (startedAt 0)
      [⟨2 * hour, true⟩] ∧
    ¬NoGap oneAtATime [modifiedAt "CVE-2024-0001" hour] (startedAt hour) [⟨2 * hour, false⟩] := by
  refine ⟨fun h ↦ ?_, fun h ↦ ?_, fun h ↦ ?_⟩
  · have hc := h 0 (200 * day) rfl (by decide) (modifiedAt "CVE-2024-0001" day) (.head _) (by decide) (by decide)
    revert hc
    unfold Covered
    decide
  · have hc := h 0 hour rfl (by decide) (modifiedAt "CVE-2024-0002" hour) (.tail _ (.head _)) (by decide) (by decide)
    revert hc
    unfold Covered
    decide
  · have hc := h hour hour rfl (by decide) (modifiedAt "CVE-2024-0001" hour) (.head _) (by decide) (by decide)
    revert hc
    unfold Covered
    decide

end Briefr.Scheduler.NvdCoverage
