import Briefr.Auth.Sessions
import Mathlib.Data.List.Infix

namespace Briefr.Auth

open Briefr.Python Briefr.Library Briefr.Library.Runs

section Rows

variable {ids : List ℕ} {f : Session → Session} {l : List Session}

/-- What both updates do to a row. -/
structure Revokes (f : Session → Session) : Prop where
  id : ∀ s, (f s).id = s.id
  token : ∀ s, (f s).refreshTokenHash = s.refreshTokenHash
  user : ∀ s, (f s).userId = s.userId
  revoked : ∀ s, (f s).revokedAt ≠ none

theorem revokes_revoke (now : ℤ) : Revokes (Session.revoke now) := ⟨fun _ ↦ rfl, fun _ ↦ rfl, fun _ ↦ rfl, fun _ ↦ nofun⟩

theorem revokes_retire (now : ℤ) : Revokes (Session.retire now) := ⟨fun _ ↦ rfl, fun _ ↦ rfl, fun _ ↦ rfl, fun _ ↦ nofun⟩

theorem Revokes.map_id (h : Revokes f) : (updateRows ids f l).map Session.id = l.map Session.id := by
  rw [updateRows, List.map_map]
  refine List.map_congr_left fun s _ ↦ ?_
  rw [Function.comp_apply]
  split
  · exact h.id s
  · rfl

theorem Revokes.map_token (h : Revokes f) :
    (updateRows ids f l).map Session.refreshTokenHash = l.map Session.refreshTokenHash := by
  rw [updateRows, List.map_map]
  refine List.map_congr_left fun s _ ↦ ?_
  rw [Function.comp_apply]
  split
  · exact h.token s
  · rfl

/-- A row after the update is one that was revoked, or one that was there. -/
theorem Revokes.source (h : Revokes f) {s : Session} (hs : s ∈ updateRows ids f l) :
    ∃ o ∈ l, s.id = o.id ∧ s.refreshTokenHash = o.refreshTokenHash ∧ s.userId = o.userId ∧
      (s.revokedAt ≠ none ∨ (s = o ∧ o.id ∉ ids)) := by
  obtain ⟨o, ho, rfl⟩ := List.mem_map.mp hs
  refine ⟨o, ho, ?_⟩
  by_cases hi : o.id ∈ ids
  · rw [if_pos hi]
    exact ⟨h.id o, h.token o, h.user o, .inl (h.revoked o)⟩
  · rw [if_neg hi]
    exact ⟨rfl, rfl, rfl, .inr ⟨rfl, hi⟩⟩

variable (ids) in
theorem Revokes.image (h : Revokes f) {o : Session} (ho : o ∈ l) :
    ∃ s ∈ updateRows ids f l, s.id = o.id ∧ s.refreshTokenHash = o.refreshTokenHash ∧ s.userId = o.userId ∧
      (o.revokedAt ≠ none ∨ o.id ∈ ids → s.revokedAt ≠ none) ∧ (o.id ∉ ids → s = o) := by
  refine ⟨if o.id ∈ ids then f o else o, List.mem_map.mpr ⟨o, ho, rfl⟩, ?_⟩
  by_cases hi : o.id ∈ ids
  · rw [if_pos hi]
    exact ⟨h.id o, h.token o, h.user o, fun _ ↦ h.revoked o, fun hn ↦ absurd hi hn⟩
  · rw [if_neg hi]
    exact ⟨rfl, rfl, rfl, fun hr ↦ hr.resolve_right hi, fun _ ↦ rfl⟩

end Rows

structure Unborn (sessions : List Session) (next : ℕ) (new : Session) : Prop where
  id : new.id ∉ sessions.map Session.id
  token : new.refreshTokenHash ∉ sessions.map Session.refreshTokenHash
  below : new.id < next ∧ new.refreshTokenHash < next

/-- The committed rows against the history. -/
structure Ledger (sessions : List Session) (next : ℕ) (rotations : List (ℕ × ℕ)) (reuses : List (ℕ × List ℕ)) : Prop where
  ids : (sessions.map Session.id).Nodup
  tokens : (sessions.map Session.refreshTokenHash).Nodup
  below : ∀ s ∈ sessions, s.id < next ∧ s.refreshTokenHash < next
  redeemed : ∀ q ∈ rotations, ∃ s ∈ sessions, s.refreshTokenHash = q.1 ∧ s.revokedAt ≠ none
  born : ∀ q ∈ rotations, q.2 ∈ sessions.map Session.refreshTokenHash
  single : (rotations.map Prod.fst).Nodup
  issued : ∀ p ∈ reuses, p.2 ⊆ sessions.map Session.refreshTokenHash
  dead : ∀ p ∈ reuses, ∀ s ∈ sessions, s.userId = p.1 → s.refreshTokenHash ∈ p.2 → s.revokedAt ≠ none
  killed : ∀ p ∈ reuses, ∀ q ∈ rotations, q.1 ∈ p.2 → ∀ s ∈ sessions, s.refreshTokenHash = q.2 → s.userId = p.1 →
    s.revokedAt ≠ none

section Ledger

variable {sessions : List Session} {next : ℕ} {rotations : List (ℕ × ℕ)} {reuses : List (ℕ × List ℕ)}

theorem Ledger.mono (h : Ledger sessions next rotations reuses) {next' : ℕ} (hn : next ≤ next') :
    Ledger sessions next' rotations reuses :=
  { h with below := fun s hs ↦ ⟨(h.below s hs).1.trans_le hn, (h.below s hs).2.trans_le hn⟩ }

theorem Ledger.update (h : Ledger sessions next rotations reuses) {f : Session → Session} (hf : Revokes f)
    (ids : List ℕ) : Ledger (updateRows ids f sessions) next rotations reuses where
  ids := by rw [hf.map_id]; exact h.ids
  tokens := by rw [hf.map_token]; exact h.tokens
  below := by
    intro s hs
    obtain ⟨o, ho, hid, htoken, _⟩ := hf.source hs
    rw [hid, htoken]
    exact h.below o ho
  redeemed := by
    intro q hq
    obtain ⟨o, ho, htoken, hr⟩ := h.redeemed q hq
    obtain ⟨s, hs, _, htoken', _, hr', _⟩ := hf.image ids ho
    exact ⟨s, hs, htoken'.trans htoken, hr' (.inl hr)⟩
  born := by rw [hf.map_token]; exact h.born
  single := h.single
  issued := by rw [hf.map_token]; exact h.issued
  dead := by
    intro p hp s hs hu ht
    obtain ⟨o, ho, _, htoken, huser, hr | ⟨rfl, _⟩⟩ := hf.source hs
    · exact hr
    · exact h.dead p hp _ ho hu ht
  killed := by
    intro p hp q hq hin s hs ht hu
    obtain ⟨o, ho, _, htoken, huser, hr | ⟨rfl, _⟩⟩ := hf.source hs
    · exact hr
    · exact h.killed p hp q hq hin _ ho ht hu

theorem Ledger.insert (h : Ledger sessions next rotations reuses) {new : Session}
    (hnew : Unborn sessions next new) : Ledger (sessions ++ [new]) next rotations reuses where
  ids := by
    rw [List.map_append]
    exact h.ids.append (List.nodup_singleton _) (List.disjoint_singleton.mpr hnew.id)
  tokens := by
    rw [List.map_append]
    exact h.tokens.append (List.nodup_singleton _) (List.disjoint_singleton.mpr hnew.token)
  below := by
    intro s hs
    rcases List.mem_append.mp hs with hs | hs
    · exact h.below s hs
    · exact List.mem_singleton.mp hs ▸ hnew.below
  redeemed := by
    intro q hq
    obtain ⟨s, hs, h⟩ := h.redeemed q hq
    exact ⟨s, List.mem_append_left _ hs, h⟩
  born := by
    intro q hq
    rw [List.map_append]
    exact List.mem_append_left _ (h.born q hq)
  single := h.single
  issued := by
    intro p hp
    rw [List.map_append]
    exact List.subset_append_of_subset_left _ (h.issued p hp)
  dead := by
    intro p hp s hs hu ht
    rcases List.mem_append.mp hs with hs | hs
    · exact h.dead p hp s hs hu ht
    · exact absurd (h.issued p hp (List.mem_singleton.mp hs ▸ ht)) hnew.token
  killed := by
    intro p hp q hq hin s hs ht hu
    rcases List.mem_append.mp hs with hs | hs
    · exact h.killed p hp q hq hin s hs ht hu
    · obtain rfl := List.mem_singleton.mp hs
      exact absurd (ht ▸ h.born q hq) hnew.token

/-- A token is redeemed for a session that is there, and its own session is revoked. -/
theorem Ledger.rotate (h : Ledger sessions next rotations reuses) {old new : Session} (hnew : new ∈ sessions)
    (hold : ∃ s ∈ sessions, s.refreshTokenHash = old.refreshTokenHash ∧ s.revokedAt ≠ none)
    (hfirst : old.refreshTokenHash ∉ rotations.map Prod.fst)
    (halive : ∀ p ∈ reuses, new.userId = p.1 → old.refreshTokenHash ∉ p.2) :
    Ledger sessions next ((old.refreshTokenHash, new.refreshTokenHash) :: rotations) reuses :=
  { h with
    redeemed := List.forall_mem_cons.mpr ⟨hold, h.redeemed⟩
    born := List.forall_mem_cons.mpr ⟨List.mem_map_of_mem hnew, h.born⟩
    single := List.nodup_cons.mpr ⟨hfirst, h.single⟩
    killed := by
      intro p hp q hq hin s hs ht hu
      rcases List.mem_cons.mp hq with rfl | hq
      · obtain rfl := List.inj_on_of_nodup_map h.tokens hs hnew ht
        exact absurd hin (halive p hp hu)
      · exact h.killed p hp q hq hin s hs ht hu }

theorem Ledger.reuse (h : Ledger sessions next rotations reuses) {userId : ℕ} {issued : List ℕ}
    (hissued : issued ⊆ sessions.map Session.refreshTokenHash)
    (hall : ∀ s ∈ sessions, s.userId = userId → s.revokedAt ≠ none) :
    Ledger sessions next rotations ((userId, issued) :: reuses) :=
  { h with
    issued := List.forall_mem_cons.mpr ⟨hissued, h.issued⟩
    dead := List.forall_mem_cons.mpr ⟨fun s hs hu _ ↦ hall s hs hu, h.dead⟩
    killed := List.forall_mem_cons.mpr ⟨fun _ _ _ s hs _ hu ↦ hall s hs hu, h.killed⟩ }

end Ledger

def Request.born : Request → Option Session
  | .rotated _ new _ | .created new => some new
  | _ => none

def Session.Same (s old : Session) : Prop :=
  s.id = old.id ∧ s.refreshTokenHash = old.refreshTokenHash ∧ s.userId = old.userId

/-- What a request may rely on until it commits. -/
def Relies (w : World) (request : ℕ) : Request → Prop
  | .valid old => ∃ s ∈ w.sessions, s.Same old
  | .rotated old new _ => w.holder old.id = some request ∧
      (∃ s ∈ w.sessions, s.Same old ∧ s.revokedAt = none) ∧ new.userId = old.userId ∧ Unborn w.sessions w.next new
  | .created new => Unborn w.sessions w.next new
  | .revokedAll _ ids _ | .revoked ids _ => ∀ id ∈ ids, w.holder id = some request
  | _ => True

structure Inv (w : World) : Prop where
  ledger : Ledger w.sessions w.next w.rotations w.reuses
  relies : ∀ r, Relies w r (w.requests r)
  apart : ∀ r r' s s', r ≠ r' → (w.requests r).born = some s → (w.requests r').born = some s' →
    s.id ≠ s'.id ∧ s.refreshTokenHash ≠ s'.refreshTokenHash

theorem World.Start.inv {w : World} (h : w.Start) : Inv w where
  ledger := by
    refine ⟨h.ids, h.tokens, h.below, ?_, ?_, ?_, ?_, ?_, ?_⟩ <;> simp [h.rotations, h.reuses]
  relies := by
    intro r
    rw [h.requests r]
    trivial
  apart := by
    intro r r' s s' _ hs _
    rw [h.requests r] at hs
    cases hs

/-- What a step of the request `r` leaves to the others. -/
structure Frame (w w' : World) (r : ℕ) : Prop where
  requests : ∀ r', r' ≠ r → w'.requests r' = w.requests r'
  holder : ∀ r' id, r' ≠ r → w.holder id = some r' → w'.holder id = some r'
  rows : ∀ s ∈ w.sessions, ∃ s' ∈ w'.sessions, s'.Same s ∧
    ∀ r', r' ≠ r → w.holder s.id = some r' → s.revokedAt = none → s'.revokedAt = none
  unborn : ∀ r' new, r' ≠ r → (w.requests r').born = some new → Unborn w.sessions w.next new →
    Unborn w'.sessions w'.next new

section Step

variable {w w' : World} {r : ℕ}

theorem Session.Same.trans {a b c : Session} (h : a.Same b) (h' : b.Same c) : a.Same c :=
  ⟨h.1.trans h'.1, h.2.1.trans h'.2.1, h.2.2.trans h'.2.2⟩

theorem Frame.relies (hf : Frame w w' r) {r' : ℕ} (hne : r' ≠ r) (h : Relies w r' (w.requests r')) :
    Relies w' r' (w.requests r') := by
  cases hp : w.requests r' with
  | idle | reused | matching | found => trivial
  | valid old =>
    rw [hp] at h
    obtain ⟨s, hs, hsame⟩ := h
    obtain ⟨s', hs', hsame', _⟩ := hf.rows s hs
    exact ⟨s', hs', hsame'.trans hsame⟩
  | rotated old new now =>
    rw [hp] at h
    obtain ⟨hheld, ⟨s, hs, hsame, hactive⟩, huser, hnew⟩ := h
    obtain ⟨s', hs', hsame', hkeep⟩ := hf.rows s hs
    refine ⟨hf.holder r' _ hne hheld, ⟨s', hs', hsame'.trans hsame, ?_⟩, huser, ?_⟩
    · exact hkeep r' hne (hsame.1 ▸ hheld) hactive
    · exact hf.unborn r' new hne (by rw [hp]; rfl) hnew
  | created new =>
    rw [hp] at h
    exact hf.unborn r' new hne (by rw [hp]; rfl) h
  | revokedAll userId ids now =>
    rw [hp] at h
    exact fun id hid ↦ hf.holder r' id hne (h id hid)
  | revoked ids now =>
    rw [hp] at h
    exact fun id hid ↦ hf.holder r' id hne (h id hid)

theorem Inv.frame (h : Inv w) (hf : Frame w w' r) (hledger : Ledger w'.sessions w'.next w'.rotations w'.reuses)
    (hself : Relies w' r (w'.requests r))
    (hapart : ∀ r' s s', r' ≠ r → (w'.requests r).born = some s → (w.requests r').born = some s' →
      s.id ≠ s'.id ∧ s.refreshTokenHash ≠ s'.refreshTokenHash) : Inv w' where
  ledger := hledger
  relies := by
    intro r'
    by_cases hr : r' = r
    · exact hr ▸ hself
    · rw [hf.requests r' hr]
      exact hf.relies hr (h.relies r')
  apart := by
    intro r₁ r₂ s s' hne hs hs'
    by_cases h₁ : r₁ = r
    · subst h₁
      rw [hf.requests r₂ hne.symm] at hs'
      exact hapart r₂ s s' hne.symm hs hs'
    · rw [hf.requests r₁ h₁] at hs
      by_cases h₂ : r₂ = r
      · subst h₂
        obtain ⟨hid, htoken⟩ := hapart r₁ s' s h₁ hs' hs
        exact ⟨hid.symm, htoken.symm⟩
      · rw [hf.requests r₂ h₂] at hs'
        exact h.apart r₁ r₂ s s' hne hs hs'

theorem Frame.of_sessions (hsessions : w'.sessions = w.sessions) (hnext : w.next ≤ w'.next)
    (hrequests : ∀ r', r' ≠ r → w'.requests r' = w.requests r')
    (hholder : ∀ r' id, r' ≠ r → w.holder id = some r' → w'.holder id = some r') : Frame w w' r where
  requests := hrequests
  holder := hholder
  rows := fun s hs ↦ ⟨s, hsessions ▸ hs, ⟨rfl, rfl, rfl⟩, fun _ _ _ h ↦ h⟩
  unborn := fun _ _ _ _ h ↦
    ⟨hsessions ▸ h.id, hsessions ▸ h.token, h.below.1.trans_le hnext, h.below.2.trans_le hnext⟩

theorem setRequest_of_ne (p : Request) {r' : ℕ} (hr : r' ≠ r) : (w.setRequest r p).requests r' = w.requests r' :=
  Function.update_of_ne hr _ _

@[simp] theorem setRequest_self (p : Request) : (w.setRequest r p).requests r = p := Function.update_self _ _ _

theorem mem_free {ids : List ℕ} : w.free ids ↔ ∀ id ∈ ids, w.holder id = none := by
  simp [World.free]

theorem hold_of_free {ids : List ℕ} (hfree : ∀ id ∈ ids, w.holder id = none) {r' id : ℕ} (h : w.holder id = some r') :
    (w.hold r ids).holder id = some r' := by
  have hid : id ∉ ids := fun hid ↦ by simp [hfree id hid] at h
  simpa only [World.hold, if_neg hid] using h

theorem hold_self {ids : List ℕ} {id : ℕ} (h : id ∈ ids) : (w.hold r ids).holder id = some r := if_pos h

theorem release_of_ne {r' id : ℕ} (hr : r' ≠ r) (h : w.holder id = some r') : (w.release r).holder id = some r' := by
  have hne : w.holder id ≠ some r := by
    rw [h]
    exact fun he ↦ hr (Option.some.inj he)
  simpa only [World.release, if_neg hne] using h

/-- A request that writes nothing goes on to its next phase. -/
theorem Inv.setRequest (h : Inv w) {p : Request} (hp : Relies (w.setRequest r p) r p) (hb : p.born = none) :
    Inv (w.setRequest r p) := by
  refine h.frame (.of_sessions rfl le_rfl (fun r' hr ↦ setRequest_of_ne p hr) fun _ _ _ hh ↦ hh) h.ledger ?_ ?_
  · simpa only [setRequest_self] using hp
  · intro r' s s' _ hs
    simp [hb] at hs

theorem Inv.unborn_next (h : Inv w) {new : Session} (hid : new.id = w.next) (htoken : new.refreshTokenHash = w.next) :
    Unborn w.sessions (w.next + 1) new where
  id := by
    intro hm
    obtain ⟨s, hs, he⟩ := List.mem_map.mp hm
    have := (h.ledger.below s hs).1
    omega
  token := by
    intro hm
    obtain ⟨s, hs, he⟩ := List.mem_map.mp hm
    have := (h.ledger.below s hs).2
    omega
  below := by omega

theorem Inv.born (h : Inv w) {r' : ℕ} {s : Session} (hs : (w.requests r').born = some s) :
    Unborn w.sessions w.next s := by
  have hr := h.relies r'
  cases hp : w.requests r' <;> rw [hp] at hs hr <;> cases hs
  · exact hr.2.2.2
  · exact hr

/-- A session made of the next number is apart from all that are not committed. -/
theorem Inv.apart_next (h : Inv w) {new : Session} (hid : new.id = w.next) (htoken : new.refreshTokenHash = w.next)
    {r' : ℕ} {s : Session} (hs : (w.requests r').born = some s) :
    new.id ≠ s.id ∧ new.refreshTokenHash ≠ s.refreshTokenHash := by
  obtain ⟨_, _, hlt, hlt'⟩ := h.born hs
  omega

theorem Inv.login (h : Inv w) (userId : ℕ) (now expiresAt : ℤ) (userAgent ip : Text) (rememberMe : Bool) :
    Inv (login w r userId now expiresAt userAgent ip rememberMe) := by
  unfold Auth.login
  split
  · refine h.frame (r := r) (.of_sessions rfl (Nat.le_succ _) (fun r' hr ↦ setRequest_of_ne _ hr) fun _ _ _ hh ↦ hh)
      (h.ledger.mono (Nat.le_succ _)) ?_ ?_
    · rw [setRequest_self]
      exact h.unborn_next rfl rfl
    · intro r' s s' _ hs hs'
      rw [setRequest_self] at hs
      cases hs
      exact h.apart_next rfl rfl hs'
  · exact h

theorem Inv.refresh (h : Inv w) (token : ℕ) (now : ℤ) : Inv (refresh w r token now) := by
  unfold Auth.refresh
  split
  · rename_i session _ hfind
    split
    · exact h
    split
    · exact h.setRequest trivial rfl
    · exact h.setRequest ⟨session, List.mem_of_find?_eq_some hfind, rfl, rfl, rfl⟩ rfl
  · exact h

theorem Inv.rotateSession (h : Inv w) {now expiresAt : ℤ} (hc : Current w (.rotate r now expiresAt)) :
    Inv (rotateSession w r now expiresAt) := by
  unfold Auth.rotateSession
  split
  · rename_i old hold
    split
    · rename_i hfree
      have hfree := mem_free.mp hfree
      have hr := h.relies r
      rw [hold] at hr
      obtain ⟨s, hs, hsame⟩ := hr
      refine h.frame (r := r) (.of_sessions rfl (Nat.le_succ _) (fun r' hr ↦ setRequest_of_ne _ hr) ?_)
        (h.ledger.mono (Nat.le_succ _)) ?_ ?_
      · exact fun r' id _ hh ↦ hold_of_free hfree hh
      · simp only [World.hold, setRequest_self]
        exact ⟨if_pos (List.mem_singleton_self _), ⟨s, hs, hsame, hc old hold s hs hsame.1⟩, rfl,
          h.unborn_next rfl rfl⟩
      · intro r' s s' _ hs hs'
        simp only [World.hold, setRequest_self] at hs
        cases hs
        exact h.apart_next rfl rfl hs'
    · exact h
  · exact h

theorem Inv.hold (h : Inv w) {ids : List ℕ} (hfree : ∀ id ∈ ids, w.holder id = none) {p : Request}
    (hp : Relies ((w.setRequest r p).hold r ids) r p) (hb : p.born = none) :
    Inv ((w.setRequest r p).hold r ids) := by
  refine h.frame (r := r) (.of_sessions rfl le_rfl (fun r' hr ↦ setRequest_of_ne p hr) ?_) h.ledger ?_ ?_
  · exact fun r' id _ hh ↦ hold_of_free hfree hh
  · simpa only [World.hold, setRequest_self] using hp
  · intro r' s s' _ hs
    simp [World.hold, hb] at hs

theorem Inv.revokeAllSessionsForUser (h : Inv w) (now : ℤ) : Inv (revokeAllSessionsForUser w r now) := by
  unfold Auth.revokeAllSessionsForUser
  split
  · split
    · rename_i hfree
      refine h.hold (fun id hid ↦ mem_free.mp hfree id (List.mem_of_mem_filter hid)) ?_ rfl
      exact fun id hid ↦ hold_self hid
    · exact h
  · exact h

theorem Inv.revokeSession (h : Inv w) (now : ℤ) : Inv (revokeSession w r now) := by
  unfold Auth.revokeSession
  split
  · split
    · rename_i hfree
      refine h.hold (fun id hid ↦ mem_free.mp hfree id (List.mem_of_mem_filter hid)) ?_ rfl
      exact fun id hid ↦ hold_self hid
    · exact h
  · exact h

theorem Inv.matchSessionsOfUser (h : Inv w) : Inv (matchSessionsOfUser w r) := by
  unfold Auth.matchSessionsOfUser
  split
  · exact h.setRequest trivial rfl
  · exact h

theorem Inv.logout (h : Inv w) (token : ℕ) : Inv (logout w r token) := by
  unfold Auth.logout
  split
  · split
    · exact h.setRequest trivial rfl
    · exact h
  · exact h

theorem Inv.revokeSessionEndpoint (h : Inv w) (id userId : ℕ) : Inv (revokeSessionEndpoint w r id userId) := by
  unfold Auth.revokeSessionEndpoint
  split
  · split
    · exact h.setRequest trivial rfl
    · exact h
  · exact h

theorem Inv.close (h : Inv w) : Inv (close w r) := by
  refine h.frame (r := r) (.of_sessions rfl le_rfl (fun r' hr ↦ setRequest_of_ne _ hr) ?_) h.ledger ?_ ?_
  · exact fun r' id hr hh ↦ release_of_ne hr hh
  · simp only [Auth.close, World.release, setRequest_self, Relies]
  · intro r' s s' _ hs
    simp [Auth.close, World.release, Request.born] at hs

theorem Unborn.update {sessions : List Session} {next : ℕ} {new : Session} (h : Unborn sessions next new)
    {f : Session → Session} (hf : Revokes f) (ids : List ℕ) : Unborn (updateRows ids f sessions) next new where
  id := by
    rw [hf.map_id]
    exact h.id
  token := by
    rw [hf.map_token]
    exact h.token
  below := h.below

theorem Unborn.insert {sessions : List Session} {next : ℕ} {new s : Session} (h : Unborn sessions next new)
    (hne : s.id ≠ new.id ∧ s.refreshTokenHash ≠ new.refreshTokenHash) : Unborn (sessions ++ [s]) next new where
  id := by
    rw [List.map_append, List.mem_append, not_or]
    exact ⟨h.id, fun hm ↦ hne.1 (List.mem_singleton.mp hm).symm⟩
  token := by
    rw [List.map_append, List.mem_append, not_or]
    exact ⟨h.token, fun hm ↦ hne.2 (List.mem_singleton.mp hm).symm⟩
  below := h.below

/-- The commit of an update of rows that the request holds, and of the session that it inserted, if any. -/
theorem Inv.frame_commit (h : Inv w) {f : Session → Session} (hf : Revokes f) {ids : List ℕ}
    (hheld : ∀ id ∈ ids, w.holder id = some r) (new : Option Session) (hnew : (w.requests r).born = new)
    {rotations : List (ℕ × ℕ)} {reuses : List (ℕ × List ℕ)} :
    Frame w { (w.setRequest r .idle).release r with
      sessions := updateRows ids f w.sessions ++ new.toList, rotations := rotations, reuses := reuses } r where
  requests := fun r' hr ↦ setRequest_of_ne _ hr
  holder := fun r' id hr hh ↦ release_of_ne hr hh
  rows := by
    intro s hs
    obtain ⟨s', hs', hid, htoken, huser, _, hkeep⟩ := hf.image ids hs
    refine ⟨s', List.mem_append_left _ hs', ⟨hid, htoken, huser⟩, ?_⟩
    intro r' hr hh hactive
    have hout : s.id ∉ ids := by
      intro hid
      rw [hheld s.id hid] at hh
      exact hr (Option.some.inj hh).symm
    rw [hkeep hout, hactive]
  unborn := by
    intro r' s hr hs hu
    cases new with
    | none =>
      rw [Option.toList_none, List.append_nil]
      exact hu.update hf ids
    | some new => exact (hu.update hf ids).insert (h.apart r r' new s hr.symm hnew hs)

theorem Inv.commit_of_ledger (h : Inv w) {f : Session → Session} (hf : Revokes f) {ids : List ℕ}
    (hheld : ∀ id ∈ ids, w.holder id = some r) (new : Option Session) (hnew : (w.requests r).born = new)
    {sessions : List Session} (hsessions : sessions = updateRows ids f w.sessions ++ new.toList)
    {rotations : List (ℕ × ℕ)} {reuses : List (ℕ × List ℕ)} (hledger : Ledger sessions w.next rotations reuses) :
    Inv { (w.setRequest r .idle).release r with sessions := sessions, rotations := rotations, reuses := reuses } := by
  subst hsessions
  refine h.frame (h.frame_commit hf hheld new hnew) hledger ?_ ?_
  · simp only [World.release, setRequest_self, Relies]
  · intro r' s s' _ hs
    simp [World.release, Request.born] at hs

theorem updateRows_nil {f : Session → Session} {l : List Session} : updateRows [] f l = l := by
  simp [updateRows]

/-- The token of a row that is still active was not redeemed. -/
theorem Ledger.fresh {sessions : List Session} {next : ℕ} {rotations : List (ℕ × ℕ)} {reuses : List (ℕ × List ℕ)}
    (h : Ledger sessions next rotations reuses) {s : Session} (hs : s ∈ sessions) (hactive : s.revokedAt = none) :
    s.refreshTokenHash ∉ rotations.map Prod.fst := by
  intro hm
  obtain ⟨q, hq, he⟩ := List.mem_map.mp hm
  obtain ⟨o, ho, htoken, hr⟩ := h.redeemed q hq
  obtain rfl := List.inj_on_of_nodup_map h.tokens ho hs (htoken.trans he)
  exact hr hactive

theorem Inv.commit_rotated (h : Inv w) {old new : Session} {now : ℤ} (hp : w.requests r = .rotated old new now) :
    Ledger (updateRows [old.id] (Session.retire now) w.sessions ++ [new]) w.next
      ((old.refreshTokenHash, new.refreshTokenHash) :: w.rotations) w.reuses := by
  have hr := h.relies r
  rw [hp] at hr
  obtain ⟨_, ⟨s, hs, ⟨hid, htoken, huser⟩, hactive⟩, hnewUser, hnew⟩ := hr
  have hf := revokes_retire now
  have hinsert := (h.ledger.update hf [old.id]).insert (hnew.update hf [old.id])
  refine hinsert.rotate (List.mem_append_right _ (List.mem_singleton_self _)) ?_ ?_ ?_
  · obtain ⟨s', hs', _, htoken', _, hr', _⟩ := hf.image [old.id] hs
    exact ⟨s', List.mem_append_left _ hs', htoken'.trans htoken, hr' (.inr (List.mem_singleton.mpr hid))⟩
  · exact htoken ▸ h.ledger.fresh hs hactive
  · intro p hpr hu hin
    exact h.ledger.dead p hpr s hs (huser.trans (hnewUser.symm.trans hu)) (htoken ▸ hin) hactive

theorem Inv.commit_revokedAll (h : Inv w) {userId : ℕ} {ids : List ℕ} {now : ℤ}
    (hall : ∀ s ∈ w.sessions, s.userId = userId → s.revokedAt = none → s.id ∈ ids) :
    Ledger (updateRows ids (Session.revoke now) w.sessions) w.next w.rotations
      ((userId, w.sessions.map Session.refreshTokenHash) :: w.reuses) := by
  have hf := revokes_revoke now
  refine (h.ledger.update hf ids).reuse ?_ ?_
  · rw [hf.map_token]
    exact List.Subset.refl _
  · intro s hs hu
    obtain ⟨o, ho, _, _, huser, hr | ⟨rfl, hout⟩⟩ := hf.source hs
    · exact hr
    · exact fun hactive ↦ hout (hall _ ho hu hactive)

theorem Inv.commit (h : Inv w) (hc : Current w (.commit r)) : Inv (commit w r) := by
  have hr := h.relies r
  simp only [Auth.commit]
  cases hp : w.requests r with
  | idle | valid | reused | matching | found => exact h
  | rotated old new now =>
    rw [hp] at hr
    refine h.commit_of_ledger (revokes_retire now) ?_ (some new) (by rw [hp]; rfl) rfl (h.commit_rotated hp)
    exact fun id hid ↦ List.mem_singleton.mp hid ▸ hr.1
  | revokedAll userId ids now =>
    rw [hp] at hr
    exact h.commit_of_ledger (revokes_revoke now) hr none (by rw [hp]; rfl) (List.append_nil _).symm
      (h.commit_revokedAll (hc userId ids now hp))
  | revoked ids now =>
    rw [hp] at hr
    exact h.commit_of_ledger (revokes_revoke now) hr none (by rw [hp]; rfl) (List.append_nil _).symm
      (h.ledger.update (revokes_revoke now) ids)
  | created new =>
    rw [hp] at hr
    refine h.commit_of_ledger (revokes_revoke 0) (fun _ h ↦ absurd h List.not_mem_nil) (some new) (by rw [hp]; rfl) ?_ (h.ledger.insert hr)
    rw [updateRows_nil]
    rfl

theorem Inv.step (h : Inv w) {e : Event} (hc : Current w e) : Inv (step w e) := by
  cases e with
  | login => exact h.login ..
  | refresh => exact h.refresh ..
  | rotate => exact h.rotateSession hc
  | matchAll => exact h.matchSessionsOfUser
  | revokeAll => exact h.revokeAllSessionsForUser _
  | logout => exact h.logout _
  | revokeSession => exact h.revokeSessionEndpoint ..
  | revoke => exact h.revokeSession _
  | commit => exact h.commit hc
  | close => exact h.close

end Step

theorem refresh_tokens_single_use {w : World} (h : w.Start) {events : List Event} (hc : Along step Current w events) :
    ∀ before, before <+: events → (run step w before).SingleUse ∧ (run step w before).Killed := by
  intro before hb
  have hi : Inv (run step w before) := run_prefix_induction (fun _ _ hi hc ↦ hi.step hc) h.inv hc hb
  exact ⟨hi.ledger.single, hi.ledger.killed⟩

def oneSession : World where
  sessions := [⟨0, 7, 0, 0, 100, none, [], [], false⟩]
  next := 1
  holder := fun _ ↦ none
  requests := fun _ ↦ .idle
  rotations := []
  reuses := []

/-- The token is rotated, then used again, which revokes the session that came from it. -/
def replay : List Event :=
  [.refresh 0 0 1, .rotate 0 1 101, .commit 0, .refresh 1 0 2, .matchAll 1, .revokeAll 1 2, .commit 1]

theorem oneSession_start : oneSession.Start :=
  ⟨fun _ ↦ rfl, fun _ ↦ rfl, by decide, by decide, by decide, rfl, rfl⟩

theorem refresh_tokens_single_use_replay :
    oneSession.Start ∧ Along step Current oneSession replay ∧
      ∀ before, before <+: replay → (run step oneSession before).SingleUse ∧ (run step oneSession before).Killed := by
  have hc : Along step Current oneSession replay := by
    refine ⟨trivial, ?_, ?_, trivial, trivial, trivial, ?_, trivial⟩
    · intro old hold
      obtain rfl := Request.valid.inj hold
      decide
    · intro userId ids now hp
      cases hp
    · intro userId ids now hp
      obtain ⟨rfl, rfl, rfl⟩ := Request.revokedAll.inj hp
      decide
  exact ⟨oneSession_start, hc, refresh_tokens_single_use oneSession_start hc⟩

/-- Two requests read the session before either of them rotates it. -/
def twoAtOnce : List Event :=
  [.refresh 0 0 1, .refresh 1 0 1, .rotate 0 1 101, .commit 0, .rotate 1 1 101, .commit 1]

/-- One of them rotates it after a reuse was detected and all sessions were revoked. -/
def afterReuse : List Event :=
  [.refresh 0 0 1, .rotate 0 1 101, .commit 0, .refresh 1 1 2, .refresh 2 0 2, .matchAll 2, .revokeAll 2 2, .commit 2,
    .rotate 1 2 102, .commit 1]

theorem refresh_tokens_not_single_use :
    (¬∀ w : World, w.Start → ∀ events before, before <+: events → (run step w before).SingleUse) ∧
      ¬∀ w : World, w.Start → ∀ events before, before <+: events → (run step w before).Killed := by
  refine ⟨fun h ↦ ?_, fun h ↦ ?_⟩
  · have hs := h oneSession oneSession_start twoAtOnce twoAtOnce (List.prefix_refl _)
    have hr : (run step oneSession twoAtOnce).rotations = [(0, 2), (0, 1)] := by decide
    rw [World.SingleUse, hr] at hs
    exact absurd hs (by decide)
  · have hk := h oneSession oneSession_start afterReuse afterReuse (List.prefix_refl _)
    have hlate : ⟨2, 7, 2, 2, 102, none, [], [], false⟩ ∈ (run step oneSession afterReuse).sessions := by decide
    have hreuse : (run step oneSession afterReuse).reuses = [(7, [0, 1])] := by decide
    have hr : (run step oneSession afterReuse).rotations = [(1, 2), (0, 1)] := by decide
    rw [World.Killed, hreuse, hr] at hk
    exact hk (7, [0, 1]) (by simp) (1, 2) (by simp) (by simp) _ hlate rfl rfl rfl

end Briefr.Auth
