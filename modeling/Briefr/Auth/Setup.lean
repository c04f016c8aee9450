import Briefr.Auth.Sessions

namespace Briefr.Auth.Setup

open Briefr.Python Briefr.Library Briefr.Library.Runs

/-- A row of `users`. -/
structure User where
  id : ℕ
  username : Text
  passwordHash : Text
  role : Text
  isActive : Bool
  lastLoginAt : Option ℤ
  deriving DecidableEq

/-- What `create_user` wrote: a new row, or the password of a row whose sessions it also revoked. -/
inductive Account
  | inserted (user : User)
  | overwritten (user : User) (ids : List ℕ) (now : ℤ)

/-- Where a request stands between two statements. -/
inductive Request
  | idle
  | counted (username passwordHash : Text)
  | missing (username passwordHash : Text)
  | existing (user : User) (passwordHash : Text)
  | updated (user : User)
  | created (account : Account)
  | signedIn (account : Account) (session : Session)
  | ready (account : Account) (session : Session) (lastLoginAt : ℤ)

/-- The committed rows with the sequences of their ids, the rows and the usernames that open transactions hold, and
the requests. Beside them the history: how many requests succeeded, and the users that requests inserted with the
session of each. -/
structure World where
  users : List User
  sessions : List Session
  nextUser : ℕ
  nextSession : ℕ
  userHolder : ℕ → Option ℕ
  nameHolder : Text → Option ℕ
  requests : ℕ → Request
  successes : ℕ
  accounts : List (User × Session)

inductive Event
  | setup (request : ℕ) (username passwordHash : Text)
  | getUserByUsername (request : ℕ)
  | insertUser (request : ℕ)
  | updatePassword (request : ℕ)
  | revokeAll (request : ℕ) (now : ℤ)
  | createSession (request : ℕ) (now expiresAt : ℤ) (userAgent ip : Text)
  | updateLastLogin (request : ℕ) (now : ℤ)
  | commit (request : ℕ)
  | close (request : ℕ)

def World.setRequest (w : World) (request : ℕ) (phase : Request) : World :=
  { w with requests := Function.update w.requests request phase }

/-- A connection that is closed rolls back what is not committed. -/
def close (w : World) (request : ℕ) : World :=
  { w.setRequest request .idle with
    userHolder := fun id ↦ if w.userHolder id = some request then none else w.userHolder id
    nameHolder := fun name ↦ if w.nameHolder name = some request then none else w.nameHolder name }

def countUsers (w : World) : ℕ := w.users.length

section

variable [Interp]

def normalizeUsername (raw : Text) : Text := lower (strip raw)

def getUserByUsername (w : World) (username : Text) : Option User :=
  w.users.find? fun u ↦ u.username = normalizeUsername username

end

/-- The guard of `/setup`, which answers 409 where there is a user. -/
def setup (w : World) (request : ℕ) (username passwordHash : Text) : World :=
  match w.requests request with
  | .idle => if countUsers w > 0 then w else w.setRequest request (.counted username passwordHash)
  | _ => w

/-- `create_user` looks the username up. -/
def lookUp [Interp] (w : World) (request : ℕ) : World :=
  match w.requests request with
  | .counted username passwordHash =>
    match getUserByUsername w username with
    | some user => w.setRequest request (.existing user passwordHash)
    | none => w.setRequest request (.missing username passwordHash)
  | _ => w

/-- The `INSERT` waits for a transaction that has inserted the same username, and fails where it is there. -/
def insertUser [Interp] (w : World) (request : ℕ) : World :=
  match w.requests request with
  | .missing username passwordHash =>
    let name := normalizeUsername username
    if w.nameHolder name ≠ none then w
    else if w.users.any fun u ↦ u.username = name then close w request
    else
      { w.setRequest request (.created (.inserted ⟨w.nextUser, name, passwordHash, "admin".toList, true, none⟩)) with
        nextUser := w.nextUser + 1
        nameHolder := Function.update w.nameHolder name (some request) }
  | _ => w

/-- `UPDATE users SET password_hash = ?`, which waits for another update of the row. -/
def updatePassword (w : World) (request : ℕ) : World :=
  match w.requests request with
  | .existing user passwordHash =>
    if w.userHolder user.id = none then
      { w.setRequest request (.updated { user with passwordHash := passwordHash }) with
        userHolder := Function.update w.userHolder user.id (some request) }
    else w
  | _ => w

/-- Only a transaction that holds the user's row updates its sessions here, so the statement never waits. -/
def revokeAllSessionsForUser (w : World) (request : ℕ) (now : ℤ) : World :=
  match w.requests request with
  | .updated user =>
    w.setRequest request (.created (.overwritten user
      ((w.sessions.filter fun s ↦ s.userId = user.id ∧ s.revokedAt = none).map Session.id) now))
  | _ => w

def Account.user : Account → User
  | .inserted user | .overwritten user _ _ => user

/-- The session's token was never seen before. -/
def createSession (w : World) (request : ℕ) (now expiresAt : ℤ) (userAgent ip : Text) : World :=
  match w.requests request with
  | .created account =>
    { w.setRequest request (.signedIn account
        ⟨w.nextSession, account.user.id, w.nextSession, now, expiresAt, none, userAgent.take 255, ip, false⟩) with
      nextSession := w.nextSession + 1 }
  | _ => w

def updateLastLogin (w : World) (request : ℕ) (now : ℤ) : World :=
  match w.requests request with
  | .signedIn account session => w.setRequest request (.ready account session now)
  | _ => w

def commit (w : World) (request : ℕ) : World :=
  match w.requests request with
  | .ready (.inserted user) session now =>
    { close w request with
      users := w.users ++ [{ user with lastLoginAt := some now }]
      sessions := w.sessions ++ [session]
      successes := w.successes + 1
      accounts := (user, session) :: w.accounts }
  | .ready (.overwritten user ids at_) session now =>
    { close w request with
      users := w.users.map fun u ↦
        if u.id = user.id then { u with passwordHash := user.passwordHash, lastLoginAt := some now } else u
      sessions := updateRows ids (Session.revoke at_) w.sessions ++ [session]
      successes := w.successes + 1 }
  | _ => w

def step [Interp] (w : World) : Event → World
  | .setup request username passwordHash => setup w request username passwordHash
  | .getUserByUsername request => lookUp w request
  | .insertUser request => insertUser w request
  | .updatePassword request => updatePassword w request
  | .revokeAll request now => revokeAllSessionsForUser w request now
  | .createSession request now expiresAt userAgent ip => createSession w request now expiresAt userAgent ip
  | .updateLastLogin request now => updateLastLogin w request now
  | .commit request => commit w request
  | .close request => close w request

/-- An account that a request created has the password and the session that it got there. -/
def World.Keeps (w : World) (account : User × Session) : Prop :=
  (∃ u ∈ w.users, u.id = account.1.id ∧ u.passwordHash = account.1.passwordHash) ∧
    ∃ s ∈ w.sessions, s.id = account.2.id ∧ s.revokedAt = none

structure World.Start (w : World) : Prop where
  requests : ∀ r, w.requests r = .idle
  userHolder : ∀ id, w.userHolder id = none
  nameHolder : ∀ name, w.nameHolder name = none
  successes : w.successes = 0
  accounts : ∀ a ∈ w.accounts, w.Keeps a

/-- At most one request has succeeded, no user was added beyond the first one, and no account that a request created
was changed. -/
structure FiresOnce (start w : World) : Prop where
  successes : w.successes ≤ 1
  users : w.users.length ≤ max 1 start.users.length
  accounts : ∀ a ∈ w.accounts, w.Keeps a

/-- A request that commits does so while there is no user, as its guard found. -/
def StillEmpty (w : World) : Event → Prop
  | .commit request => ∀ account session now, w.requests request = .ready account session now → w.users = []
  | _ => True

end Briefr.Auth.Setup
