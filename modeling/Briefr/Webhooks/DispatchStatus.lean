import Briefr.Webhooks.Dispatch

namespace Briefr.Webhooks

open Briefr.Python

/-- How the branch of `deliver_to_destination` for a kind of destination ends; an unknown kind raises as well. -/
inductive Attempt
  | returns
  | raises (text : Text)
  | cancelled
  deriving DecidableEq

/-- Every exception becomes the first 300 characters of its text. -/
def deliverToDestination : Attempt → Delivery
  | .returns => .ok
  | .raises text => .failed (text.take 300)
  | .cancelled => .cancelled

def Steps.attempting (s : Steps) (attempt : Attempt) : Steps := { s with delivery := deliverToDestination attempt }

/-- The destination counts as one that was sent to before. -/
def Steps.deduped (r : Request) (s : Steps) : Prop :=
  r.dedupes = true ∧ claimWebhookDestinationSent r.backend s.held s.claim.runs = .ok false

/-- What a report says about the destinations that the loop went through. -/
structure Truthful (r : Request) (ids : List Text) (steps : Text → Steps) (rep : Report) : Prop where
  ok : rep.status = .ok → ∀ id ∈ ids, ¬(steps id).deduped r → (steps id).delivery = .ok
  errors : ∀ id ∈ ids, ¬(steps id).deduped r → (∃ error, (steps id).delivery = .failed error) → id ∈ rep.errors.keys
  skipped : rep.status = .skipped → ∀ id ∈ ids, ¬(steps id).deduped r → ∀ error, (steps id).delivery ≠ .failed error

variable {r : Request} {id : Text} {s : Steps} {p : Progress}

/-- The ways in which an iteration goes on to the next destination. -/
inductive Passed (r : Request) (id : Text) (s : Steps) (p q : Progress) : Prop
  | skipped (deduped : s.deduped r) (sent : q.sent = p.sent) (errors : q.errors = p.errors)
  | delivered (fresh : ¬s.deduped r) (ok : s.delivery = .ok) (sent : q.sent = p.sent ++ [id]) (errors : q.errors = p.errors)
  | failed (fresh : ¬s.deduped r) (error : Text) (failed : s.delivery = .failed error) (sent : q.sent = p.sent)
      (errors : q.errors = if error = [] then p.errors else p.errors.set id error)

theorem clearPart_keeps (r : Request) (id : Text) (s : Steps) (p : Progress) :
    (clearPart r id s p).1.sent = p.sent ∧ (clearPart r id s p).1.errors = p.errors ∧
      ((clearPart r id s p).2 = .goesOn ∨ (clearPart r id s p).2 = .raises) := by
  unfold clearPart Session.leave
  split_ifs <;> simp

theorem recordPart_cases (s : Steps) (error : Option Text) : recordPart s error = .goesOn ∨ recordPart s error = .raises :=
  or_iff_not_imp_left.mpr recordPart_raises

theorem deliverPart_passes (id : Text) (fresh : ¬s.deduped r) (h : (deliverPart r id s p).2 ≠ .raises) :
    Passed r id s p (deliverPart r id s p).1 := by
  unfold deliverPart at h ⊢
  cases hd : s.delivery with
  | cancelled => simp [hd] at h
  | ok =>
    simp only [hd] at h ⊢
    rcases recordPart_cases s none with hrecord | hrecord
    · simp only [hrecord]
      exact .delivered fresh hd rfl rfl
    · simp [hrecord] at h
  | failed error =>
    simp only [hd] at h ⊢
    rcases recordPart_cases s (some error) with hrecord | hrecord
    · obtain ⟨hsent, herrors, hflow⟩ := clearPart_keeps r id s p
      simp only [hrecord] at h ⊢
      generalize clearPart r id s p = cleared at h hsent herrors hflow ⊢
      obtain ⟨q, flow⟩ := cleared
      rcases hflow with rfl | rfl
      · simp only [noteError_eq]
        refine .failed fresh error hd hsent ?_
        rw [← herrors]
      · simp at h
    · simp [hrecord] at h

theorem leave_cases (s : Session) (flow : Flow) : s.leave flow = flow ∨ s.leave flow = .raises := by
  unfold Session.leave
  split <;> simp

/-- The claim raises, skips the destination or lets the delivery begin. -/
theorem claimPart_passes (r : Request) (id : Text) (s : Steps) (p : Progress) :
    (claimPart r id s p).2 = .raises ∨
      (claimPart r id s p).1.sent = p.sent ∧ (claimPart r id s p).1.errors = p.errors ∧
        ((claimPart r id s p).2 = .continues ∧ s.deduped r ∨ (claimPart r id s p).2 = .goesOn ∧ ¬s.deduped r) := by
  unfold claimPart
  by_cases hd : r.dedupes = true
  · by_cases ho : s.claim.opens = true
    · simp only [hd, ho, if_true]
      cases hc : claimWebhookDestinationSent r.backend s.held s.claim.runs with
      | error => exact .inl rfl
      | ok claimed =>
        cases claimed with
        | false =>
          rcases leave_cases s.claim .continues with h | h
          · exact .inr ⟨rfl, rfl, .inl ⟨h, hd, hc⟩⟩
          · exact .inl h
        | true =>
          have fresh : ¬s.deduped r := by
            rintro ⟨-, hs⟩
            rw [hc] at hs
            cases hs
          by_cases hm : s.claim.commits = true
          · simp only [hm, if_true]
            rcases leave_cases s.claim .goesOn with h | h
            · exact .inr ⟨trivial, trivial, .inr ⟨h, fresh⟩⟩
            · exact .inl h
          · simp only [hm]
            exact .inl rfl
    · simp only [hd, ho]
      exact .inl rfl
  · rw [if_neg hd]
    exact .inr ⟨rfl, rfl, .inr ⟨rfl, fun hs ↦ hd hs.1⟩⟩

/-- An iteration that does not raise. -/
theorem dispatchOne_passes (id : Text) (h : (dispatchOne r id s p).2 ≠ .raises) :
    Passed r id s p (dispatchOne r id s p).1 := by
  have hclaim := claimPart_passes r id s p
  unfold dispatchOne at h ⊢
  generalize claimPart r id s p = claimed at h hclaim ⊢
  obtain ⟨q, flow⟩ := claimed
  rcases hclaim with rfl | ⟨hsent, herrors, ⟨rfl, hdeduped⟩ | ⟨rfl, hfresh⟩⟩
  · exact absurd rfl h
  · exact .skipped hdeduped hsent herrors
  · simp only at h hsent herrors ⊢
    cases deliverPart_passes id hfresh h with
    | skipped deduped => exact absurd deduped hfresh
    | delivered fresh ok sent errors => exact .delivered fresh ok (hsent ▸ sent) (herrors ▸ errors)
    | failed fresh error failed sent errors => exact .failed fresh error failed (hsent ▸ sent) (herrors ▸ errors)

/-- What a loop that does not raise has gone through. -/
structure Went (r : Request) (ids : List Text) (steps : Text → Steps) (p q : Progress) : Prop where
  sent : ∀ id, id ∈ q.sent ↔ id ∈ p.sent ∨ id ∈ ids ∧ ¬(steps id).deduped r ∧ (steps id).delivery = .ok
  errors : ∀ id, id ∈ q.errors.keys ↔ id ∈ p.errors.keys ∨ id ∈ ids ∧ ¬(steps id).deduped r ∧
    ∃ error, error ≠ [] ∧ (steps id).delivery = .failed error
  ended : ∀ id ∈ ids, ¬(steps id).deduped r → (steps id).delivery ≠ .cancelled

theorem Passed.went {steps : Text → Steps} {q : Progress} (h : Passed r id (steps id) p q) : Went r [id] steps p q := by
  cases h with
  | skipped deduped sent errors =>
    refine ⟨fun i ↦ ?_, fun i ↦ ?_, fun i hi hfresh ↦ ?_⟩
    · rw [sent, List.mem_singleton]
      refine (or_iff_left ?_).symm
      rintro ⟨rfl, hfresh, -⟩
      exact hfresh deduped
    · rw [errors, List.mem_singleton]
      refine (or_iff_left ?_).symm
      rintro ⟨rfl, hfresh, -⟩
      exact hfresh deduped
    · obtain rfl := List.mem_singleton.mp hi
      exact absurd deduped hfresh
  | delivered fresh ok sent errors =>
    refine ⟨fun i ↦ ?_, fun i ↦ ?_, fun i hi _ ↦ ?_⟩
    · rw [sent, List.mem_append, List.mem_singleton]
      refine or_congr_right ⟨?_, fun h ↦ h.1⟩
      rintro rfl
      exact ⟨rfl, fresh, ok⟩
    · rw [errors, List.mem_singleton]
      refine (or_iff_left ?_).symm
      rintro ⟨rfl, -, error, -, hfailed⟩
      rw [ok] at hfailed
      cases hfailed
    · obtain rfl := List.mem_singleton.mp hi
      rw [ok]
      exact fun h ↦ by cases h
  | failed fresh error failed sent errors =>
    refine ⟨fun i ↦ ?_, fun i ↦ ?_, fun i hi _ ↦ ?_⟩
    · rw [sent, List.mem_singleton]
      refine (or_iff_left ?_).symm
      rintro ⟨rfl, -, ok⟩
      rw [ok] at failed
      cases failed
    · rw [errors, List.mem_singleton]
      by_cases he : error = []
      · rw [if_pos he]
        refine (or_iff_left ?_).symm
        rintro ⟨rfl, -, error', hne, hfailed⟩
        rw [failed] at hfailed
        cases hfailed
        exact hne he
      · rw [if_neg he, Library.Dict.mem_keys_set, or_comm]
        refine or_congr_right ⟨?_, fun h ↦ h.1⟩
        rintro rfl
        exact ⟨rfl, fresh, error, he, failed⟩
    · obtain rfl := List.mem_singleton.mp hi
      rw [failed]
      exact fun h ↦ by cases h

theorem Went.append {ids : List Text} {steps : Text → Steps} {p₁ p₂ p₃ : Progress} (h₁ : Went r [id] steps p₁ p₂)
    (h₂ : Went r ids steps p₂ p₃) : Went r (id :: ids) steps p₁ p₃ := by
  refine ⟨fun i ↦ ?_, fun i ↦ ?_, ?_⟩
  · rw [h₂.sent, h₁.sent, or_assoc, ← or_and_right, List.mem_singleton, List.mem_cons]
  · rw [h₂.errors, h₁.errors, or_assoc, ← or_and_right, List.mem_singleton, List.mem_cons]
  · exact List.forall_mem_cons.mpr ⟨h₁.ended id (.head _), h₂.ended⟩

theorem dispatchLoop_went (steps : Text → Steps) (ids : List Text) {p q : Progress}
    (h : dispatchLoop r steps ids p = (q, false)) : Went r ids steps p q := by
  induction ids generalizing p with
  | nil =>
    obtain rfl := (Prod.mk.inj h).1
    exact ⟨fun i ↦ by simp, fun i ↦ by simp, fun i hi ↦ absurd hi List.not_mem_nil⟩
  | cons id rest ih =>
    rw [dispatchLoop_cons] at h
    split at h
    next => cases (Prod.mk.inj h).2
    next hraises => exact (dispatchOne_passes id hraises).went.append (ih h)

theorem keys_eq_nil {errors : Library.Dict Text Text} : errors.items = [] ↔ errors.keys = [] :=
  List.map_eq_nil_iff.symm

theorem overallStatus_ok : overallStatus p = .ok ↔ p.sent ≠ [] ∧ p.errors.keys = [] := by
  rw [← keys_eq_nil, overallStatus]
  split_ifs with h <;> simp [h]

theorem overallStatus_skipped (h : overallStatus p = .skipped) : p.errors.keys = [] := by
  rw [overallStatus] at h
  rw [← keys_eq_nil]
  split_ifs at h with h₁ h₂
  exact h₂.2.2

/-- A report is truthful exactly when no delivery failed without a text. -/
theorem report_truthful_iff {ids : List Text} {steps : Text → Steps} (h : Went r ids steps .init p) :
    Truthful r ids steps (report p) ↔
      ∀ id ∈ ids, ¬(steps id).deduped r → (steps id).delivery ≠ .failed [] := by
  have hkeys : ∀ id, id ∈ p.errors.keys ↔
      id ∈ ids ∧ ¬(steps id).deduped r ∧ ∃ error, error ≠ [] ∧ (steps id).delivery = .failed error :=
    fun id ↦ (h.errors id).trans (or_iff_right List.not_mem_nil)
  constructor
  · intro htruthful id hid hfresh hfailed
    obtain ⟨-, -, error, hne, hfailed'⟩ := (hkeys id).mp (htruthful.errors id hid hfresh ⟨[], hfailed⟩)
    rw [hfailed] at hfailed'
    exact hne (Delivery.failed.inj hfailed').symm
  · intro hall
    have hnone : p.errors.keys = [] → ∀ id ∈ ids, ¬(steps id).deduped r → ∀ error, (steps id).delivery ≠ .failed error := by
      intro hnil id hid hfresh error hfailed
      have hne : error ≠ [] := fun he ↦ hall id hid hfresh (he ▸ hfailed)
      have hmem := (hkeys id).mpr ⟨hid, hfresh, error, hne, hfailed⟩
      rw [hnil] at hmem
      cases hmem
    refine ⟨fun hstatus id hid hfresh ↦ ?_, fun id hid hfresh herror ↦ ?_, fun hstatus ↦ ?_⟩
    · cases hd : (steps id).delivery with
      | ok => rfl
      | failed error => exact absurd hd (hnone (overallStatus_ok.mp hstatus).2 id hid hfresh error)
      | cancelled => exact absurd hd (h.ended id hid hfresh)
    · obtain ⟨error, hfailed⟩ := herror
      exact (hkeys id).mpr ⟨hid, hfresh, error, fun he ↦ hall id hid hfresh (he ▸ hfailed), hfailed⟩
    · exact hnone (overallStatus_skipped hstatus)

theorem truthful_nil (steps : Text → Steps) (rep : Report) : Truthful r [] steps rep :=
  ⟨fun _ _ h ↦ absurd h List.not_mem_nil, fun _ h ↦ absurd h List.not_mem_nil, fun _ _ h ↦ absurd h List.not_mem_nil⟩

theorem dispatchEvent_report {active : Active} {steps : Text → Steps} {rep : Report}
    (h : (dispatchEvent r active steps).2 = some rep) :
    targets r active = [] ∨ ∃ p, dispatchLoop r steps (targets r active) .init = (p, false) ∧ rep = report p := by
  refine or_iff_not_imp_left.mpr fun hne ↦ ?_
  have htype : r.normalized ∈ allEventTypes := by
    by_contra htype
    exact hne (if_neg htype)
  have hon : active.list.any WebhookDestination.enabled ≠ false := by
    intro hoff
    rw [targets, if_pos htype] at hne
    refine hne (List.map_eq_nil_iff.mpr (List.filter_eq_nil_iff.mpr fun dest hdest ↦ ?_))
    have hdisabled : dest.enabled = false := by simpa using List.any_eq_false.mp hoff dest hdest
    simp [WebhookDestination.subscribesTo, hdisabled]
  rw [dispatchEvent, if_neg (not_not_intro htype), if_neg hon, if_neg hne] at h
  cases hloop : dispatchLoop r steps (targets r active) .init with
  | mk p raised =>
    rw [hloop] at h
    cases raised with
    | true => cases h
    | false => exact ⟨p, rfl, (Option.some.inj h).symm⟩

/-- The report of a dispatch is truthful exactly when no exception without a text ended a delivery. -/
theorem dispatch_truthful_iff (r : Request) (active : Active) (steps : Text → Steps) (attempt : Text → Attempt)
    (rep : Report) (h : (dispatchEvent r active fun id ↦ (steps id).attempting (attempt id)).2 = some rep) :
    Truthful r (targets r active) (fun id ↦ (steps id).attempting (attempt id)) rep ↔
      ∀ id ∈ targets r active, ¬(steps id).deduped r → attempt id ≠ .raises [] := by
  have hempty : ∀ id, ((steps id).attempting (attempt id)).delivery = .failed [] ↔ attempt id = .raises [] := by
    intro id
    rw [Steps.attempting]
    cases attempt id with
    | returns => simp [deliverToDestination]
    | raises text => simp [deliverToDestination]
    | cancelled => simp [deliverToDestination]
  rcases dispatchEvent_report h with hnil | ⟨p, hloop, rfl⟩
  · rw [hnil]
    exact iff_of_true (truthful_nil _ rep) fun id hid ↦ absurd hid List.not_mem_nil
  · rw [report_truthful_iff (dispatchLoop_went _ _ hloop)]
    simp only [ne_eq, hempty]
    rfl

section Samples

def genericId : Text := "generic"

def twoActive : Active :=
  ⟨[⟨discordId, discordId, true, allEventTypes⟩, ⟨genericId, genericId, true, allEventTypes⟩], by decide⟩

def plain : Steps := ⟨works, false, .ok, works, .emitted, works⟩

def firstOnly : Text → Attempt := fun id ↦ if id = discordId then .returns else .raises []

def backupAlert : Request := ⟨.sqlite, eventBackupFailure, [], false⟩

theorem dispatch_truthful_firstOnly : ∃ rep,
    (dispatchEvent backupAlert twoActive fun id ↦ plain.attempting (firstOnly id)).2 = some rep ∧
      (Truthful backupAlert (targets backupAlert twoActive) (fun id ↦ plain.attempting (firstOnly id)) rep ↔
        ∀ id ∈ targets backupAlert twoActive, ¬plain.deduped backupAlert → firstOnly id ≠ .raises []) :=
  ⟨_, rfl, dispatch_truthful_iff backupAlert twoActive (fun _ ↦ plain) firstOnly _ rfl⟩

/-- One destination is delivered to, the other raises an exception without a text, and the status is `ok`. -/
theorem firstOnly_ok : ∃ rep, (dispatchEvent backupAlert twoActive fun id ↦ plain.attempting (firstOnly id)).2 = some rep ∧
    rep.status = .ok ∧ genericId ∈ targets backupAlert twoActive ∧ ¬plain.deduped backupAlert ∧
      (plain.attempting (firstOnly genericId)).delivery = .failed [] ∧ genericId ∉ rep.errors.keys := by
  refine ⟨_, rfl, ?_, ?_, ?_, ?_, ?_⟩
  · decide +kernel
  · decide +kernel
  · exact fun h ↦ absurd h.1 (by decide)
  · decide +kernel
  · decide +kernel

end Samples

end Briefr.Webhooks
