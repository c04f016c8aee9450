import Briefr.Library.Runs
import Briefr.Python.Value
import Mathlib.Data.List.Nodup
import Mathlib.Logic.Function.Basic

namespace Briefr.Auth

open Briefr.Python Briefr.Library Briefr.Library.Runs

/-- A row of `sessions`; times are in seconds. -/
structure Session where
  id : ℕ
  userId : ℕ
  refreshTokenHash : ℕ
  lastUsedAt : ℤ
  expiresAt : ℤ
  revokedAt : Option ℤ
  userAgent : Text
  ip : Text
  rememberMe : Bool
  deriving DecidableEq

def Session.revoke (now : ℤ) (s : Session) : Session := { s with revokedAt := some now }

/-- `UPDATE sessions SET revoked_at = ?, last_used_at = ?`. -/
def Session.retire (now : ℤ) (s : Session) : Session := { s with revokedAt := some now, lastUsedAt := now }

/-- Where a request stands between two statements, each `UPDATE` and `INSERT` still uncommitted. -/
inductive Request
  | idle
  | valid (session : Session)
  | reused (userId : ℕ)
  | matching (userId : ℕ) (ids : List ℕ)
  | revokedAll (userId : ℕ) (ids : List ℕ) (now : ℤ)
  | found (id : ℕ)
  | revoked (ids : List ℕ) (now : ℤ)
  | rotated (old new : Session) (now : ℤ)
  | created (new : Session)

/-- The committed rows, the rows that open transactions hold and the requests; `next` is the sequence of the ids and
the source of tokens that were never seen before. Beside them the history: the tokens redeemed by a `/refresh` that
succeeded with the token each one got, and the users whose sessions were all revoked on a reuse with the tokens that
had been issued by then. -/
structure World where
  sessions : List Session
  next : ℕ
  holder : ℕ → Option ℕ
  requests : ℕ → Request
  rotations : List (ℕ × ℕ)
  reuses : List (ℕ × List ℕ)

inductive Event
  | login (request userId : ℕ) (now expiresAt : ℤ) (userAgent ip : Text) (rememberMe : Bool)
  | refresh (request token : ℕ) (now : ℤ)
  | rotate (request : ℕ) (now expiresAt : ℤ)
  | matchAll (request : ℕ)
  | revokeAll (request : ℕ) (now : ℤ)
  | logout (request token : ℕ)
  | revokeSession (request id userId : ℕ)
  | revoke (request : ℕ) (now : ℤ)
  | commit (request : ℕ)
  | close (request : ℕ)

def World.setRequest (w : World) (request : ℕ) (phase : Request) : World :=
  { w with requests := Function.update w.requests request phase }

/-- The rows are locked by the transaction that updates them. -/
def World.hold (w : World) (request : ℕ) (ids : List ℕ) : World :=
  { w with holder := fun id ↦ if id ∈ ids then some request else w.holder id }

def World.release (w : World) (request : ℕ) : World :=
  { w with holder := fun id ↦ if w.holder id = some request then none else w.holder id }

def World.free (w : World) (ids : List ℕ) : Bool := ids.all fun id ↦ w.holder id = none

def getSessionByToken (w : World) (token : ℕ) : Option Session := w.sessions.find? fun s ↦ s.refreshTokenHash = token

def createSession (w : World) (userId : ℕ) (now expiresAt : ℤ) (userAgent ip : Text) (rememberMe : Bool) : Session :=
  ⟨w.next, userId, w.next, now, expiresAt, none, userAgent, ip, rememberMe⟩

/-- The credentials are right, and the session is inserted. -/
def login (w : World) (request userId : ℕ) (now expiresAt : ℤ) (userAgent ip : Text) (rememberMe : Bool) : World :=
  match w.requests request with
  | .idle =>
    { w.setRequest request (.created (createSession w userId now expiresAt userAgent ip rememberMe)) with
      next := w.next + 1 }
  | _ => w

/-- `/refresh` up to its decision on the session that it read. -/
def refresh (w : World) (request token : ℕ) (now : ℤ) : World :=
  match w.requests request, getSessionByToken w token with
  | .idle, some session =>
    if session.expiresAt < now then w
    else if session.revokedAt ≠ none then w.setRequest request (.reused session.userId)
    else w.setRequest request (.valid session)
  | _, _ => w

/-- The user is active. The `UPDATE` names the row by its id alone; it waits where another transaction has
updated the row. -/
def rotateSession (w : World) (request : ℕ) (now expiresAt : ℤ) : World :=
  match w.requests request with
  | .valid old =>
    if w.free [old.id] then
      { (w.setRequest request (.rotated old
          (createSession w old.userId now expiresAt old.userAgent old.ip old.rememberMe) now)).hold request [old.id] with
        next := w.next + 1 }
    else w
  | _ => w

/-- The rows that the `UPDATE` of `revoke_all_sessions_for_user` sees when it starts. -/
def matchSessionsOfUser (w : World) (request : ℕ) : World :=
  match w.requests request with
  | .reused userId =>
    w.setRequest request (.matching userId
      ((w.sessions.filter fun s ↦ s.userId = userId ∧ s.revokedAt = none).map Session.id))
  | _ => w

/-- It goes through once it has waited for their locks, and updates those that are active then. -/
def revokeAllSessionsForUser (w : World) (request : ℕ) (now : ℤ) : World :=
  match w.requests request with
  | .matching userId ids =>
    if w.free ids then
      let active := ids.filter fun id ↦ w.sessions.any fun s ↦ s.id = id ∧ s.revokedAt = none
      (w.setRequest request (.revokedAll userId active now)).hold request active
    else w
  | _ => w

def logout (w : World) (request token : ℕ) : World :=
  match w.requests request, getSessionByToken w token with
  | .idle, some session => if session.revokedAt = none then w.setRequest request (.found session.id) else w
  | _, _ => w

/-- `DELETE /sessions/{session_id}` for one's own session. -/
def revokeSessionEndpoint (w : World) (request id userId : ℕ) : World :=
  match w.requests request with
  | .idle =>
    if w.sessions.any fun s ↦ s.id = id ∧ s.revokedAt = none ∧ s.userId = userId then w.setRequest request (.found id)
    else w
  | _ => w

def revokeSession (w : World) (request : ℕ) (now : ℤ) : World :=
  match w.requests request with
  | .found id =>
    if w.free [id] then
      let active := [id].filter fun id ↦ w.sessions.any fun s ↦ s.id = id ∧ s.revokedAt = none
      (w.setRequest request (.revoked active now)).hold request active
    else w
  | _ => w

def updateRows (ids : List ℕ) (f : Session → Session) (sessions : List Session) : List Session :=
  sessions.map fun s ↦ if s.id ∈ ids then f s else s

/-- What the statements of a request wrote is there for the others. -/
def commit (w : World) (request : ℕ) : World :=
  let w' := (w.setRequest request .idle).release request
  match w.requests request with
  | .rotated old new now =>
    { w' with
      sessions := updateRows [old.id] (Session.retire now) w.sessions ++ [new]
      rotations := (old.refreshTokenHash, new.refreshTokenHash) :: w.rotations }
  | .revokedAll userId ids now =>
    { w' with
      sessions := updateRows ids (Session.revoke now) w.sessions
      reuses := (userId, w.sessions.map Session.refreshTokenHash) :: w.reuses }
  | .revoked ids now => { w' with sessions := updateRows ids (Session.revoke now) w.sessions }
  | .created new => { w' with sessions := w.sessions ++ [new] }
  | _ => w

/-- A connection that is closed rolls back what is not committed. -/
def close (w : World) (request : ℕ) : World := (w.setRequest request .idle).release request

def step (w : World) : Event → World
  | .login request userId now expiresAt userAgent ip rememberMe =>
    login w request userId now expiresAt userAgent ip rememberMe
  | .refresh request token now => refresh w request token now
  | .rotate request now expiresAt => rotateSession w request now expiresAt
  | .matchAll request => matchSessionsOfUser w request
  | .revokeAll request now => revokeAllSessionsForUser w request now
  | .logout request token => logout w request token
  | .revokeSession request id userId => revokeSessionEndpoint w request id userId
  | .revoke request now => revokeSession w request now
  | .commit request => commit w request
  | .close request => close w request

/-- No request is under way; each row has its own id and its own token. -/
structure World.Start (w : World) : Prop where
  requests : ∀ r, w.requests r = .idle
  holder : ∀ id, w.holder id = none
  ids : (w.sessions.map Session.id).Nodup
  tokens : (w.sessions.map Session.refreshTokenHash).Nodup
  below : ∀ s ∈ w.sessions, s.id < w.next ∧ s.refreshTokenHash < w.next
  rotations : w.rotations = []
  reuses : w.reuses = []

/-- Each token is redeemed by at most one `/refresh`. -/
def World.SingleUse (w : World) : Prop := (w.rotations.map Prod.fst).Nodup

/-- Once all sessions of a user were revoked on a reuse, none that comes from a token issued before is active. -/
def World.Killed (w : World) : Prop :=
  ∀ p ∈ w.reuses, ∀ q ∈ w.rotations, q.1 ∈ p.2 → ∀ s ∈ w.sessions, s.refreshTokenHash = q.2 → s.userId = p.1 →
    s.revokedAt ≠ none

/-- A rotation updates a row that is still active, and when a request that detected a reuse commits, each active
session of the user is one that it revoked. -/
def Current (w : World) : Event → Prop
  | .rotate request _ _ => ∀ old, w.requests request = .valid old →
      ∀ s ∈ w.sessions, s.id = old.id → s.revokedAt = none
  | .commit request => ∀ userId ids now, w.requests request = .revokedAll userId ids now →
      ∀ s ∈ w.sessions, s.userId = userId → s.revokedAt = none → s.id ∈ ids
  | _ => True

end Briefr.Auth
