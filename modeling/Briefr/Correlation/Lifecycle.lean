import Briefr.Correlation.OldestPulse

namespace Briefr.Correlation

open Briefr.Python

inductive Lifecycle
  | emerging
  | active
  | declining
  | stale
  deriving DecidableEq, Inhabited

structure MemberRow where
  isKev : Bool
  hasPoc : Bool
  published : Option Text
  modified : Option Text
  kevDateAdded : Option Text
  epssActivityAt : Option Text

def microsecondsPerDay : ℕ := 86400000000

/-- `now - timedelta(days=days)`. -/
def cutoff (now days : ℕ) : ℤ := now - days * microsecondsPerDay

/-- The later of the last activity and a date. -/
def laterActivity (last date : Option ℕ) : Option ℕ :=
  match date with
  | none => last
  | some t => if last.all (· < t) then some t else last

def since (cutoff : ℤ) (date : Option ℕ) : Bool := date.any fun t ↦ cutoff ≤ t

/-- A loop that may return early. -/
def untilDone {α β σ : Type} (body : σ → α → Py (β ⊕ σ)) : σ → List α → Py (β ⊕ σ)
  | s, [] => .ok (.inr s)
  | s, a :: l => do
    match ← body s a with
    | .inl done => return .inl done
    | .inr s => untilDone body s l

section
variable [Interp] [Iso]

def observe (now : ℕ) (last : Option ℕ) (observed : Option Text) : Py (Lifecycle ⊕ Option ℕ) := do
  let date ← parseDt observed
  return if since (cutoff now 7) date then .inl .emerging else .inr (laterActivity last date)

/-- An activity of a member counts for fourteen days. -/
def activity (now : ℕ) (last date : Option ℕ) : Lifecycle ⊕ Option ℕ :=
  if since (cutoff now 14) date then .inl .active else .inr (laterActivity last date)

/-- `_parse_dt(modified) or _parse_dt(published)`. -/
def pocDate (m : MemberRow) : Py (Option ℕ) := do
  match ← parseDt m.modified with
  | some t => return some t
  | none => parseDt m.published

/-- What the loop asks of a member, one thing after another. -/
def memberChecks (now : ℕ) (m : MemberRow) : List (Option ℕ → Py (Lifecycle ⊕ Option ℕ)) :=
  [fun last ↦ observe now last m.published,
    fun last ↦ observe now last m.modified,
    fun last ↦ do if m.isKev then return activity now last (← parseDt m.kevDateAdded) else return .inr last,
    fun last ↦ do if m.hasPoc then return activity now last (← pocDate m) else return .inr last,
    fun last ↦ do return activity now last (← parseDt m.epssActivityAt)]

def memberActivity (now : ℕ) (last : Option ℕ) (m : MemberRow) : Py (Lifecycle ⊕ Option ℕ) :=
  untilDone (fun last check ↦ check last) last (memberChecks now m)

def computeCampaignLifecycle (pulseCreatedDate : Option Text) (members : List MemberRow)
    (memberObservationAt : List (Option Text)) (now : ℕ) : Py Lifecycle := do
  let pulse ← parseDt pulseCreatedDate
  let boosters := members.any fun m ↦ m.isKev || m.hasPoc
  let old := pulse.any fun t ↦ t / microsecondsPerDay + 365 < now / microsecondsPerDay
  if old && !boosters then return .stale
  match ← untilDone (observe now) pulse memberObservationAt with
  | .inl done => return done
  | .inr last =>
    match ← untilDone (memberActivity now) last members with
    | .inl done => return done
    | .inr last => return if since (cutoff now 30) last then .active else .declining

omit [Interp] [Iso] in
theorem exists_untilDone {α β σ : Type} {body : σ → α → Py (β ⊕ σ)} {l : List α}
    (h : ∀ a ∈ l, ∀ s, ∃ r, body s a = .ok r) (s : σ) : ∃ r, untilDone body s l = .ok r := by
  induction l generalizing s with
  | nil => exact ⟨_, rfl⟩
  | cons a l ih =>
    obtain ⟨r, hr⟩ := h a (.head _) s
    rw [untilDone, hr, ok_bind]
    cases r with
    | inl done => exact ⟨_, rfl⟩
    | inr s => exact ih (fun a ha ↦ h a (.tail _ ha)) s

structure MemberRow.DatesReadable (m : MemberRow) : Prop where
  published : Readable m.published
  modified : Readable m.modified
  kevDateAdded : Readable m.kevDateAdded
  epssActivityAt : Readable m.epssActivityAt

theorem exists_observe (now : ℕ) (last : Option ℕ) {date : Option Text} (h : Readable date) :
    ∃ r, observe now last date = .ok r := by
  obtain ⟨d, hd⟩ := h
  exact ⟨_, by rw [observe, hd]; rfl⟩

theorem exists_memberActivity (now : ℕ) (last : Option ℕ) {m : MemberRow} (h : m.DatesReadable) :
    ∃ r, memberActivity now last m = .ok r := by
  obtain ⟨p, hp⟩ := h.published
  obtain ⟨d, hd⟩ := h.modified
  obtain ⟨k, hk⟩ := h.kevDateAdded
  obtain ⟨e, he⟩ := h.epssActivityAt
  have hpoc : ∃ x, pocDate m = .ok x := by
    rw [pocDate, hd, ok_bind]
    cases d with
    | none => exact ⟨p, hp⟩
    | some t => exact ⟨some t, rfl⟩
  obtain ⟨x, hx⟩ := hpoc
  apply exists_untilDone
  intro check hcheck last
  simp only [memberChecks, List.mem_cons, List.not_mem_nil, or_false] at hcheck
  rcases hcheck with rfl | rfl | rfl | rfl | rfl
  · exact exists_observe now last h.published
  · exact exists_observe now last h.modified
  · cases m.isKev with
    | true => simp [hk]
    | false => exact ⟨_, rfl⟩
  · cases m.hasPoc with
    | true => simp [hx]
    | false => exact ⟨_, rfl⟩
  · exact ⟨_, by rw [he]; rfl⟩

/-- Only a date that cannot be read keeps the lifecycle from being computed. -/
theorem exists_computeCampaignLifecycle {pulseCreatedDate : Option Text} {members : List MemberRow}
    {memberObservationAt : List (Option Text)} (hp : Readable pulseCreatedDate) (hm : ∀ m ∈ members, m.DatesReadable)
    (ho : ∀ date ∈ memberObservationAt, Readable date) (now : ℕ) :
    ∃ l, computeCampaignLifecycle pulseCreatedDate members memberObservationAt now = .ok l := by
  obtain ⟨p, hp⟩ := hp
  rw [computeCampaignLifecycle, hp, ok_bind]
  dsimp only
  split
  · exact ⟨_, rfl⟩
  · obtain ⟨r, hr⟩ := exists_untilDone (fun date hdate last ↦ exists_observe now last (ho date hdate)) p
    rw [hr, ok_bind]
    cases r with
    | inl done => exact ⟨_, rfl⟩
    | inr last =>
      obtain ⟨r, hr⟩ := exists_untilDone (fun m hmem last ↦ exists_memberActivity now last (hm m hmem)) last
      dsimp only
      rw [hr, ok_bind]
      cases r with
      | inl done => exact ⟨_, rfl⟩
      | inr last => exact ⟨_, rfl⟩

end

end Briefr.Correlation
