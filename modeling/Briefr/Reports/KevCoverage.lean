import Mathlib.Data.Int.ConditionallyCompleteOrder
import Briefr.Reports.DailyBrief
import Briefr.Python.Text
import Briefr.Python.Datetime
import Mathlib.Tactic.Linarith

namespace Briefr.Reports.DailyBrief

open Briefr.Python Briefr.Library.StableSort Briefr.Library.Runs

section Pages

theorem flatten_pagesFrom (rows : List Candidate) (offset : ℕ) : (pagesFrom rows offset).flatten = rows.drop offset := by
  fun_induction pagesFrom rows offset with
  | case1 offset page h =>
    have hlength : (rows.drop offset).length ≤ listQueryLimit := by
      rw [List.length_take] at h
      omega
    simp [page, List.take_of_length_le hlength]
  | case2 offset page h ih =>
    have hfull : page.length = listQueryLimit := by
      have hle : page.length ≤ listQueryLimit := List.length_take_le _ _
      omega
    rw [List.flatten_cons, ih, hfull, ← List.drop_drop, List.take_append_drop]

end Pages

section Briefs

variable [Interp] [Zone] {db : Db} {row : KevRow}

/-- The row is counted in `kev_new` and is a candidate of the stack section, where the admin has assets. -/
def Brief.Tells (b : Brief) (row : KevRow) : Prop :=
  row ∈ b.counted ∧ (b.pages = [] ∨ ∃ page ∈ b.pages, ∃ c ∈ page, c.cveId = row.cveId)

theorem tells_iff (windowStart windowEnd : ℤ) : (collectDailyBrief db windowStart windowEnd).Tells row ↔
    row ∈ db.kev ∧ kevDatePredicate (dateLocal windowStart) (dateLocal windowEnd) row = true := by
  rw [← List.mem_filter]
  refine and_iff_left_of_imp fun hrow ↦ ?_
  cases ho : db.onStack with
  | none => exact .inl (by simp only [collectDailyBrief, collectStack, ho])
  | some onStack =>
    refine .inr ?_
    have hpages : (collectDailyBrief db windowStart windowEnd).pages = pagesFrom (candidates db (dateLocal windowStart)
        (dateLocal windowEnd) (boundUtc windowStart) (boundUtc windowEnd)) 0 := by
      simp only [collectDailyBrief, collectStack, ho]
    have hmem : kevCandidate db row ∈ (collectDailyBrief db windowStart windowEnd).pages.flatten := by
      rw [hpages, flatten_pagesFrom, List.drop_zero, candidates, (perm_sortBy _ _).mem_iff]
      exact List.mem_append_left _ (List.mem_map_of_mem hrow)
    obtain ⟨page, hp, hc⟩ := List.mem_flatten.mp hmem
    exact ⟨page, hp, _, hc, rfl⟩

/-- The dates that the KEV query of a window takes: those after the date of its start up to that of its end, or the one
date of a window within a day. -/
def Covers (windowStart windowEnd : ℤ) (date : Text) : Prop :=
  if dateLocal windowStart = dateLocal windowEnd then date = dateLocal windowEnd
  else dateLocal windowStart < date ∧ date ≤ dateLocal windowEnd

omit [Interp] in
theorem kevDatePredicate_iff {windowStart windowEnd : ℤ} {date : Text} (h : row.dateAdded = some date) :
    kevDatePredicate (dateLocal windowStart) (dateLocal windowEnd) row = true ↔ Covers windowStart windowEnd date := by
  simp only [kevDatePredicate, h, Covers]
  by_cases he : dateLocal windowStart = dateLocal windowEnd
  · rw [if_pos he, if_pos he, he, Bool.and_eq_true, decide_eq_true_eq, decide_eq_true_eq, and_comm,
      le_antisymm_iff (a := date)]
  · simp [he]

end Briefs

section Runs

variable [Interp] [Zone] {db : Db} {row : KevRow} {date : Text} {c e₁ e₂ : Call}

def Call.Successful (c : Call) : Prop := c.eodEnabled = true ∧ c.delivery ∈ [.ok, .partly]

def Event.Between : Event → Prop
  | .ran slot _ => slot = .standup
  | _ => True

def Event.Keeps (row : KevRow) : Event → Prop
  | .stored r => r.cveId = row.cveId → r = row
  | _ => True

omit [Interp] [Zone] in
theorem mem_upsertKev : row ∈ (upsertKev db row).kev := by
  unfold upsertKev
  split
  · rename_i h
    obtain ⟨r, hr, he⟩ := List.mem_map.mp h
    exact List.mem_map.mpr ⟨r, hr, if_pos he⟩
  · exact List.mem_append_right _ (.head _)

omit [Interp] [Zone] in
theorem mem_upsertKev_of_mem {r : KevRow} (h : row ∈ db.kev) (hk : r.cveId = row.cveId → r = row) :
    row ∈ (upsertKev db r).kev := by
  unfold upsertKev
  split
  · refine List.mem_map.mpr ⟨row, h, ?_⟩
    split
    · rename_i he
      exact hk he.symm
    · rfl
  · exact List.mem_append_left _ h

theorem watermark_step {e : Event} (h : e.Between) : (step db e).watermark = db.watermark := by
  cases e with
  | stored r =>
    simp only [step, act, upsertKev]
    split <;> rfl
  | wrote cves onStack => rfl
  | ran slot c =>
    cases h
    simp only [step, act, runDailyBriefSlot, reduceCtorEq, false_and, ↓reduceIte]
    repeat' split
    all_goals rfl

theorem watermark_run {events : List Event} (h : ∀ e ∈ events, e.Between) :
    (run step db events).watermark = db.watermark := by
  induction events generalizing db with
  | nil => rfl
  | cons e events ih =>
    obtain ⟨he, h⟩ := List.forall_mem_cons.mp h
    rw [run_cons, ih h, watermark_step he]

theorem kev_step {e : Event} (hk : e.Keeps row) (h : row ∈ db.kev) : row ∈ (step db e).kev := by
  cases e with
  | stored r => exact mem_upsertKev_of_mem h hk
  | wrote cves onStack => exact h
  | ran slot c =>
    have hkev : (step db (.ran slot c)).kev = db.kev := by
      simp only [step, act, runDailyBriefSlot]
      repeat' split
      all_goals rfl
    rw [hkev]
    exact h

/-- A delivered EOD run: its brief is of the 24 hours before it, and it leaves its time behind. -/
theorem run_eod (h : c.Successful) : runDailyBriefSlot db .eod c =
    ({ db with watermark := some (stamp c.now) }, some (collectDailyBrief db (c.now - hours 24) c.now)) := by
  have henabled : enabled .eod c = true := h.1
  have hdelivered := h.2
  simp only [runDailyBriefSlot, henabled, ↓reduceIte, reduceCtorEq, false_and, true_and, hdelivered, windowForSlot]

/-- The start of a standup's window after an EOD run at that time. -/
def standupStart (eod : ℤ) (c : Call) : ℤ := windowForSlot (some (stamp eod)) .standup c

def Sends (eod : ℤ) (c : Call) : Prop := c.standupEnabled = true ∧ minutes 15 ≤ c.now - standupStart eod c

theorem brief_standup {eod : ℤ} (hw : db.watermark = some (stamp eod)) {b : Brief} :
    (runDailyBriefSlot db .standup c).2 = some b ↔ Sends eod c ∧ collectDailyBrief db (standupStart eod c) c.now = b := by
  rw [runDailyBriefSlot, hw, Sends, ← not_lt, standupStart, enabled]
  cases c.standupEnabled with
  | false => simp
  | true => by_cases hshort : c.now - windowForSlot (some (stamp eod)) .standup c < minutes 15 <;> simp [hshort]

/-- The briefs after the row was stored tell of it exactly where a window has its date. -/
theorem briefs_tell_iff {eod : ℤ} {after : List Event} (ha : ∀ e ∈ after, e.Between ∧ e.Keeps row)
    (h₂ : e₂.Successful) (hw : db.watermark = some (stamp eod)) (hk : row ∈ db.kev) (hd : row.dateAdded = some date) :
    (∃ b ∈ briefs db (after ++ [.ran .eod e₂]), b.Tells row) ↔ Covers (e₂.now - hours 24) e₂.now date ∨
      ∃ c, .ran .standup c ∈ after ∧ Sends eod c ∧ Covers (standupStart eod c) c.now date := by
  induction after generalizing db with
  | nil =>
    have hbriefs : briefs db [.ran .eod e₂] = [collectDailyBrief db (e₂.now - hours 24) e₂.now] := by
      rw [briefs, act, run_eod h₂]
      rfl
    simp only [List.nil_append, hbriefs, List.mem_singleton, exists_eq_left, tells_iff, kevDatePredicate_iff hd, hk,
      true_and, List.not_mem_nil, false_and, exists_false, or_false]
  | cons e after ih =>
    obtain ⟨⟨hb, hkeeps⟩, ha⟩ := List.forall_mem_cons.mp ha
    have ih := ih ha ((watermark_step hb).trans hw) (kev_step hkeeps hk)
    have hsplit : (∃ b ∈ briefs db (e :: after ++ [.ran .eod e₂]), b.Tells row) ↔
        (∃ b, (act db e).2 = some b ∧ b.Tells row) ∨ ∃ b ∈ briefs (step db e) (after ++ [.ran .eod e₂]), b.Tells row := by
      rw [List.cons_append, briefs]
      simp only [List.mem_append, Option.mem_toList, or_and_right, exists_or]
    have hnone : (act db e).2 = none → ((∃ b, (act db e).2 = some b ∧ b.Tells row) ↔ False) := fun h ↦ by simp [h]
    rw [hsplit, ih]
    cases e with
    | stored r => simp [hnone rfl]
    | wrote cves onStack => simp [hnone rfl]
    | ran slot c =>
      cases hb
      have hbrief : (∃ b, (act db (.ran .standup c)).2 = some b ∧ b.Tells row) ↔
          Sends eod c ∧ Covers (standupStart eod c) c.now date := by
        simp only [act, brief_standup hw, and_assoc, exists_and_left, exists_eq_left', tells_iff, hk, true_and,
          kevDatePredicate_iff hd]
      rw [hbrief]
      constructor
      · rintro (hnow | heod | ⟨c', hc', hlater⟩)
        · exact .inr ⟨c, .head _, hnow⟩
        · exact .inl heod
        · exact .inr ⟨c', .tail _ hc', hlater⟩
      · rintro (heod | ⟨c', hc', hlater⟩)
        · exact .inr (.inl heod)
        · rcases List.mem_cons.mp hc' with he | hc'
          · cases he
            exact .inl hlater
          · exact .inr (.inr ⟨c', hc', hlater⟩)

/-- Between two EOD runs a row is told of, by the later one or by a standup after it, exactly where the dates of one of
these windows take the date on which it was stored. -/
theorem kev_told_iff (db : Db) (before after : List Event) (storedAt : ℤ) (h₁ : e₁.Successful) (h₂ : e₂.Successful)
    (hb : ∀ e ∈ before, e.Between) (ha : ∀ e ∈ after, e.Between ∧ e.Keeps row)
    (hd : row.dateAdded = some (dateLocal storedAt)) :
    (∃ b ∈ briefs (run step db (.ran .eod e₁ :: before ++ [.stored row])) (after ++ [.ran .eod e₂]), b.Tells row) ↔
      Covers (e₂.now - hours 24) e₂.now (dateLocal storedAt) ∨
        ∃ c, .ran .standup c ∈ after ∧ Sends e₁.now c ∧ Covers (standupStart e₁.now c) c.now (dateLocal storedAt) := by
  have hfirst : (step db (.ran .eod e₁)).watermark = some (stamp e₁.now) := by rw [step, act, run_eod h₁]
  refine briefs_tell_iff ha h₂ ?_ ?_ hd
  · have hstored : (Event.stored row).Between := trivial
    rw [List.cons_append, run_cons, run_append, run_cons, run_nil, watermark_step hstored, watermark_run hb, hfirst]
  · rw [List.cons_append, run_cons, run_append]
    exact mem_upsertKev

omit [Interp] in
/-- Where dates never go back, a row is missed that is stored on the date of 24 hours before the later run and before no
standup of that date. -/
theorem kev_told_iff_date (hmono : Monotone dateLocal) (hstamp : ∀ t, dateLocal (stamp t) = dateLocal t)
    {after : List Event} {storedAt : ℤ} (hgap : e₂.now ≤ e₁.now + hours 24) (hdates : dateLocal e₁.now ≠ dateLocal e₂.now)
    (hstored : e₁.now ≤ storedAt) (hend : storedAt ≤ e₂.now)
    (hstandup : ∀ c, .ran .standup c ∈ after → c.eodEnabled = true ∧ storedAt ≤ c.now ∧ c.now ≤ e₂.now) :
    (Covers (e₂.now - hours 24) e₂.now (dateLocal storedAt) ∨
        ∃ c, .ran .standup c ∈ after ∧ Sends e₁.now c ∧ Covers (standupStart e₁.now c) c.now (dateLocal storedAt)) ↔
      dateLocal storedAt ≠ dateLocal (e₂.now - hours 24) ∨
        ∃ c, .ran .standup c ∈ after ∧ Sends e₁.now c ∧ dateLocal c.now = dateLocal storedAt := by
  have hbefore : dateLocal (e₂.now - hours 24) ≤ dateLocal e₁.now := hmono (by linarith)
  have hrow : dateLocal e₁.now ≤ dateLocal storedAt := hmono hstored
  have hlate : dateLocal storedAt ≤ dateLocal e₂.now := hmono hend
  have hlast : dateLocal e₁.now < dateLocal e₂.now := lt_of_le_of_ne (hmono (hstored.trans hend)) hdates
  have heod : Covers (e₂.now - hours 24) e₂.now (dateLocal storedAt) ↔
      dateLocal storedAt ≠ dateLocal (e₂.now - hours 24) := by
    rw [Covers, if_neg (hbefore.trans_lt hlast).ne]
    constructor
    · intro ⟨h, _⟩
      exact h.ne'
    · intro h
      exact ⟨lt_of_le_of_ne (hbefore.trans hrow) h.symm, hlate⟩
  have hstart : ∀ c, .ran .standup c ∈ after → dateLocal (standupStart e₁.now c) ≤ dateLocal storedAt ∧
      dateLocal (e₂.now - hours 24) ≤ dateLocal (standupStart e₁.now c) := by
    intro c hc
    obtain ⟨henabled, _, hc⟩ := hstandup c hc
    have hs : standupStart e₁.now c = max (stamp e₁.now) (c.now - hours 24) := by
      simp only [standupStart, windowForSlot, henabled, ↓reduceIte]
    have hmax := hmono.map_max (a := stamp e₁.now) (b := c.now - hours 24)
    rw [hs, hmax, hstamp]
    exact ⟨max_le hrow ((hmono (by linarith)).trans (hbefore.trans hrow)), hbefore.trans (le_max_left _ _)⟩
  rw [heod]
  constructor
  · rintro (h | ⟨c, hc, hs, hcovers⟩)
    · exact .inl h
    · rw [Covers] at hcovers
      split at hcovers
      · exact .inr ⟨c, hc, hs, hcovers.symm⟩
      · exact .inl ((hstart c hc).2.trans_lt hcovers.1).ne'
  · rintro (h | ⟨c, hc, hs, hdate⟩)
    · exact .inl h
    · refine .inr ⟨c, hc, hs, ?_⟩
      rw [Covers]
      split
      · exact hdate.symm
      · rename_i hne
        exact ⟨lt_of_le_of_ne (hstart c hc).1 fun he ↦ hne (he.trans hdate.symm), hdate.ge⟩

end Runs

section

local instance briefInterp : Interp := ascii fun _ ↦ none

/-- The midnight that 10 September 2026 begins with, in UTC. -/
def september10 : ℤ := 1788998400 * second

/-- The dates of UTC around it. -/
def utcDate (t : ℤ) : Text :=
  if t < september10 then "2026-09-09"
  else if t < september10 + hours 24 then "2026-09-10"
  else if t < september10 + hours 48 then "2026-09-11"
  else "2026-09-12"

/-- UTC, at full hours. -/
local instance septemberUtc : Zone := ⟨utcDate, fun t ↦ utcDate t ++ ' ' :: twoDigits (t / hours 1 % 24).toNat ++ ":00:00".toList⟩

def quietDb : Db := ⟨[], [], none, none⟩

/-- A call at some hour of that day, with both slots enabled. -/
def callAt (hour : ℤ) : Call := ⟨september10 + hours hour, true, true, .ok⟩

def kevRow (dateAdded : Text) : KevRow := ⟨"CVE-2026-1111", none, some dateAdded⟩

theorem callAt_successful (hour : ℤ) : (callAt hour).Successful := ⟨rfl, .head _⟩

theorem kev_told_next_day :
    ∃ b ∈ briefs (run step quietDb (.ran .eod (callAt 18) :: [] ++ [.stored (kevRow "2026-09-11")]))
      ([] ++ [.ran .eod (callAt 42)]), b.Tells (kevRow "2026-09-11") := by
  refine (kev_told_iff quietDb [] [] (september10 + hours 30) (callAt_successful 18) (callAt_successful 42) nofun nofun
    (by decide)).mpr (.inl ?_)
  unfold Covers
  decide

/-- A row stored two hours after the EOD run, on the evening of its date, is in neither the standup of the next morning
nor the next EOD brief. -/
theorem kev_missed_in_the_evening :
    (callAt 18).Successful ∧ (callAt 42).Successful ∧ (callAt 42).now - (callAt 18).now ≤ hours 24 ∧
      dateLocal (callAt 18).now ≠ dateLocal (callAt 42).now ∧
      (callAt 18).now < september10 + hours 20 ∧ september10 + hours 20 < (callAt 31).now ∧
      (kevRow "2026-09-10").dateAdded = some (dateLocal (september10 + hours 20)) ∧
      ¬∃ b ∈ briefs (run step quietDb [.ran .eod (callAt 18), .stored (kevRow "2026-09-10")])
        [.ran .standup (callAt 31), .ran .eod (callAt 42)], b.Tells (kevRow "2026-09-10") := by
  refine ⟨callAt_successful 18, callAt_successful 42, by decide, by decide, by decide, by decide, by decide, ?_⟩
  have hafter : ∀ e ∈ [Event.ran .standup (callAt 31)], e.Between ∧ e.Keeps (kevRow "2026-09-10") := by
    intro e he
    obtain rfl := List.mem_singleton.mp he
    exact ⟨rfl, trivial⟩
  have hwatermark : (run step quietDb [.ran .eod (callAt 18), .stored (kevRow "2026-09-10")]).watermark =
      some (stamp (callAt 18).now) := rfl
  have hstored : kevRow "2026-09-10" ∈ (run step quietDb [.ran .eod (callAt 18), .stored (kevRow "2026-09-10")]).kev :=
    @mem_upsertKev (step quietDb (.ran .eod (callAt 18))) _
  intro htold
  rcases (briefs_tell_iff hafter (callAt_successful 42) hwatermark hstored rfl).mp htold with h | ⟨c, hc, _, h⟩
  · revert h
    unfold Covers
    decide
  · obtain rfl : c = callAt 31 := by simpa using hc
    revert h
    unfold Covers
    decide

end

end Briefr.Reports.DailyBrief
