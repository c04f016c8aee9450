import Briefr.Auth.Setup
import Briefr.Python.Text

namespace Briefr.Auth.Setup

open Briefr.Python Briefr.Library Briefr.Library.Runs

/-- The phases of a request that found no user. -/
def Request.Fresh : Request → Prop
  | .idle | .counted .. | .missing .. | .created (.inserted _) | .signedIn (.inserted _) _
  | .ready (.inserted _) _ _ => True
  | _ => False

def Request.session : Request → Option Session
  | .signedIn _ session | .ready _ session _ => some session
  | _ => none

structure Inv (start w : World) : Prop where
  /-- A database with users turns every request away. -/
  closed : start.users ≠ [] → w.users = start.users ∧ w.successes = 0 ∧ ∀ r, w.requests r = .idle
  fresh : start.users = [] → w.users = [] → w.successes = 0 ∧ ∀ r, (w.requests r).Fresh
  taken : start.users = [] → w.users ≠ [] → w.successes = 1 ∧ w.users.length = 1
  active : ∀ r s, (w.requests r).session = some s → s.revokedAt = none
  accounts : ∀ a ∈ w.accounts, w.Keeps a

theorem World.Start.inv {w : World} (h : w.Start) : Inv w w where
  closed := fun _ ↦ ⟨rfl, h.successes, h.requests⟩
  fresh := by
    refine fun _ _ ↦ ⟨h.successes, fun r ↦ ?_⟩
    rw [h.requests r]
    trivial
  taken := fun h₀ h₁ ↦ absurd h₀ h₁
  active := by
    intro r s hs
    rw [h.requests r] at hs
    cases hs
  accounts := h.accounts

variable {start w w' : World} {r : ℕ}

theorem Inv.firesOnce (h : Inv start w) : FiresOnce start w := by
  by_cases hs : start.users = []
  · by_cases hu : w.users = []
    · exact ⟨(h.fresh hs hu).1.trans_le (Nat.zero_le 1), by simp [hu], h.accounts⟩
    · obtain ⟨hone, hlength⟩ := h.taken hs hu
      exact ⟨hone.le, by omega, h.accounts⟩
  · obtain ⟨hu, hzero, _⟩ := h.closed hs
    exact ⟨hzero.trans_le (Nat.zero_le 1), hu ▸ le_max_right _ _, h.accounts⟩

/-- A request that goes on writes nothing that is committed. -/
theorem Inv.of_request (h : Inv start w) {p : Request} (hp : w.requests r = .idle → start.users = [] ∨ p = .idle)
    (hfresh : w.users = [] → (w.requests r).Fresh → p.Fresh)
    (hactive : ∀ s, p.session = some s → (w.requests r).session = some s ∨ s.revokedAt = none)
    (hrequests : w'.requests = Function.update w.requests r p) (husers : w'.users = w.users)
    (hsessions : w'.sessions = w.sessions) (hsuccesses : w'.successes = w.successes)
    (haccounts : w'.accounts = w.accounts) : Inv start w' where
  closed := by
    intro hs
    obtain ⟨hu, hzero, hidle⟩ := h.closed hs
    refine ⟨husers.trans hu, hsuccesses.trans hzero, fun r' ↦ ?_⟩
    rw [hrequests, Function.update_apply]
    split
    · exact (hp (hidle r)).resolve_left hs
    · exact hidle r'
  fresh := by
    intro hs hu
    rw [husers] at hu
    obtain ⟨hzero, hf⟩ := h.fresh hs hu
    refine ⟨hsuccesses.trans hzero, fun r' ↦ ?_⟩
    rw [hrequests, Function.update_apply]
    split
    · exact hfresh hu (hf r)
    · exact hf r'
  taken := by
    rw [husers, hsuccesses]
    exact h.taken
  active := by
    intro r' s hs
    rw [hrequests, Function.update_apply] at hs
    split at hs
    · rcases hactive s hs with hold | hnone
      · exact h.active r s hold
      · exact hnone
    · exact h.active r' s hs
  accounts := by
    simp only [World.Keeps, husers, hsessions, haccounts]
    exact h.accounts

theorem Inv.setRequest (h : Inv start w) {p : Request} (hp : w.requests r = .idle → start.users = [] ∨ p = .idle)
    (hfresh : w.users = [] → (w.requests r).Fresh → p.Fresh)
    (hactive : ∀ s, p.session = some s → (w.requests r).session = some s ∨ s.revokedAt = none) :
    Inv start (w.setRequest r p) :=
  h.of_request hp hfresh hactive rfl rfl rfl rfl rfl

theorem Inv.close (h : Inv start w) (r : ℕ) : Inv start (close w r) :=
  h.of_request (r := r) (p := .idle) (fun _ ↦ .inr rfl) (fun _ _ ↦ trivial) nofun rfl rfl rfl rfl rfl

theorem Inv.setup (h : Inv start w) (username passwordHash : Text) : Inv start (setup w r username passwordHash) := by
  unfold Setup.setup
  split
  · rename_i hidle
    split
    · exact h
    · rename_i hnone
      refine h.setRequest (fun _ ↦ .inl ?_) (fun _ _ ↦ trivial) nofun
      by_contra hs
      have hu := (h.closed hs).1
      rw [countUsers, hu, gt_iff_lt, List.length_pos_iff] at hnone
      exact hnone hs
  · exact h

theorem Inv.lookUp [Interp] (h : Inv start w) : Inv start (lookUp w r) := by
  unfold Setup.lookUp
  split
  · rename_i username passwordHash hp
    have hne : w.requests r ≠ .idle := by simp [hp]
    split
    · rename_i user hfound
      refine h.setRequest (fun hi ↦ absurd hi hne) ?_ nofun
      intro hu
      rw [getUserByUsername, hu] at hfound
      cases hfound
    · exact h.setRequest (fun hi ↦ absurd hi hne) (fun _ _ ↦ trivial) nofun
  · exact h

theorem Inv.insertUser [Interp] (h : Inv start w) : Inv start (insertUser w r) := by
  unfold Setup.insertUser
  split
  · rename_i username passwordHash hp
    have hne : w.requests r ≠ .idle := by simp [hp]
    dsimp only
    split
    · exact h
    split
    · exact h.close r
    · exact h.of_request (p := .created (.inserted _)) (fun hi ↦ absurd hi hne) (fun _ _ ↦ trivial) nofun rfl rfl rfl rfl rfl
  · exact h

theorem Inv.updatePassword (h : Inv start w) : Inv start (updatePassword w r) := by
  unfold Setup.updatePassword
  split
  · rename_i user passwordHash hp
    have hne : w.requests r ≠ .idle := by simp [hp]
    split
    · refine h.of_request (p := .updated _) (fun hi ↦ absurd hi hne) ?_ nofun rfl rfl rfl rfl rfl
      intro _ hf
      rw [hp] at hf
      exact hf.elim
    · exact h
  · exact h

theorem Inv.revokeAll (h : Inv start w) (now : ℤ) : Inv start (revokeAllSessionsForUser w r now) := by
  unfold revokeAllSessionsForUser
  split
  · rename_i user hp
    have hne : w.requests r ≠ .idle := by simp [hp]
    refine h.setRequest (fun hi ↦ absurd hi hne) ?_ nofun
    intro _ hf
    rw [hp] at hf
    exact hf.elim
  · exact h

theorem Inv.createSession (h : Inv start w) (now expiresAt : ℤ) (userAgent ip : Text) :
    Inv start (createSession w r now expiresAt userAgent ip) := by
  unfold Setup.createSession
  split
  · rename_i account hp
    have hne : w.requests r ≠ .idle := by simp [hp]
    refine h.of_request (fun hi ↦ absurd hi hne) ?_ ?_ rfl rfl rfl rfl rfl
    · intro _ hf
      rw [hp] at hf
      cases account with
      | inserted => trivial
      | overwritten => exact hf.elim
    · intro s hs
      cases hs
      exact .inr rfl
  · exact h

theorem Inv.updateLastLogin (h : Inv start w) (now : ℤ) : Inv start (updateLastLogin w r now) := by
  unfold Setup.updateLastLogin
  split
  · rename_i account session hp
    have hne : w.requests r ≠ .idle := by simp [hp]
    refine h.setRequest (fun hi ↦ absurd hi hne) ?_ ?_
    · intro _ hf
      rw [hp] at hf
      cases account with
      | inserted => trivial
      | overwritten => exact hf.elim
    · intro s hs
      rw [hp]
      exact .inl hs
  · exact h

theorem Inv.commit (h : Inv start w) (hc : StillEmpty w (.commit r)) : Inv start (commit w r) := by
  unfold Setup.commit
  split
  · rename_i user session now hp
    have hu : w.users = [] := hc _ _ _ hp
    have hs : start.users = [] := by
      by_contra hs
      have := (h.closed hs).2.2 r
      rw [hp] at this
      cases this
    have hzero := (h.fresh hs hu).1
    exact {
      closed := fun hs' ↦ absurd hs hs'
      fresh := by
        intro _ hn
        simp [hu] at hn
      taken := by
        intro _ _
        simp [hzero, hu]
      active := (h.close r).active
      accounts := by
        refine List.forall_mem_cons.mpr ⟨⟨⟨_, List.mem_append_right _ (List.mem_singleton_self _), rfl, rfl⟩, session,
          List.mem_append_right _ (List.mem_singleton_self _), rfl, ?_⟩, ?_⟩
        · exact h.active r session (by rw [hp]; rfl)
        · intro a ha
          obtain ⟨⟨u, hmem, _⟩, _⟩ := h.accounts a ha
          rw [hu] at hmem
          cases hmem }
  · rename_i user ids at_ session now hp
    have hu : w.users = [] := hc _ _ _ hp
    by_cases hs : start.users = []
    · have := (h.fresh hs hu).2 r
      rw [hp] at this
      exact this.elim
    · have := (h.closed hs).2.2 r
      rw [hp] at this
      cases this
  · exact h

theorem Inv.step [Interp] (h : Inv start w) {e : Event} (hc : StillEmpty w e) : Inv start (Setup.step w e) := by
  cases e with
  | setup => exact h.setup ..
  | getUserByUsername => exact h.lookUp
  | insertUser => exact h.insertUser
  | updatePassword => exact h.updatePassword
  | revokeAll => exact h.revokeAll _
  | createSession => exact h.createSession ..
  | updateLastLogin => exact h.updateLastLogin _
  | commit => exact h.commit hc
  | close => exact h.close _

/-- A request that commits where there is a user is the second one to succeed. -/
theorem Inv.breaks [Interp] (h : Inv start w) {e : Event} (hc : ¬StillEmpty w e) : ¬FiresOnce start (Setup.step w e) := by
  cases e with
  | commit r =>
    simp only [StillEmpty, not_forall] at hc
    obtain ⟨account, session, now, hp, hu⟩ := hc
    have hs : start.users = [] := by
      by_contra hs
      have := (h.closed hs).2.2 r
      rw [hp] at this
      cases this
    have hone := (h.taken hs hu).1
    have hcommit : (Setup.commit w r).successes = w.successes + 1 := by
      unfold Setup.commit
      rw [hp]
      cases account <;> rfl
    intro hf
    have hle : (Setup.commit w r).successes ≤ 1 := hf.successes
    omega
  | _ => exact absurd trivial hc

/-- First-run setup fires once exactly in the runs in which each request that commits finds the table empty. -/
theorem setup_fires_once_iff [Interp] {start : World} (h : start.Start) (events : List Event) :
    (∀ before, before <+: events → FiresOnce start (run step start before)) ↔ Along step StillEmpty start events :=
  forall_prefix_iff (fun _ hi ↦ hi.firesOnce) (fun _ _ hi hc ↦ hi.step hc) (fun _ _ hi hc ↦ hi.breaks hc) h.inv

section

local instance setupInterp : Interp := ascii fun _ ↦ none

def freshInstall : World where
  users := []
  sessions := []
  nextUser := 1
  nextSession := 1
  userHolder := fun _ ↦ none
  nameHolder := fun _ ↦ none
  requests := fun _ ↦ .idle
  successes := 0
  accounts := []

theorem freshInstall_start : freshInstall.Start :=
  ⟨fun _ ↦ rfl, fun _ ↦ rfl, fun _ ↦ rfl, rfl, fun _ ha ↦ absurd ha List.not_mem_nil⟩

/-- The second request counts the users before the first one commits, and finds its account by the username. -/
def twoSetups : List Event :=
  [.setup 0 "admin".toList "first".toList, .setup 1 "admin".toList "second".toList,
    .getUserByUsername 0, .insertUser 0, .createSession 0 1 101 [] [], .updateLastLogin 0 1, .commit 0,
    .getUserByUsername 1, .updatePassword 1, .revokeAll 1 2, .createSession 1 2 102 [] [], .updateLastLogin 1 2, .commit 1]

theorem setup_fires_once_iff_twoSetups :
    freshInstall.Start ∧
      ((∀ before, before <+: twoSetups → FiresOnce freshInstall (run step freshInstall before)) ↔
        Along step StillEmpty freshInstall twoSetups) :=
  ⟨freshInstall_start, setup_fires_once_iff freshInstall_start twoSetups⟩

theorem setup_fires_twice :
    ¬∀ start : World, start.Start → ∀ events before, before <+: events → FiresOnce start (run step start before) := by
  intro h
  have hf := h freshInstall freshInstall_start twoSetups twoSetups (List.prefix_refl _)
  have htwice : (run step freshInstall twoSetups).successes = 2 := by decide +kernel
  have hle := hf.successes
  omega

end

end Briefr.Auth.Setup
