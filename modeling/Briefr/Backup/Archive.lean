import Briefr.Backup.Retention
import Briefr.Python.Loop

namespace Briefr.Backup

open Briefr.Python

/-- The exceptions of a restore. A `RecursionError` is a `RuntimeError`. -/
inductive Raised
  | osError
  | tarError
  | runtimeError
  | decryptError
  | identityError
  | eofError
  | zlibError
  | unicodeDecodeError
  | jsonDecodeError
  | attributeError
  | typeError
  | databaseError
  | other
  deriving DecidableEq

abbrev Attempt := Except Raised

abbrev Blob := List UInt8

/-- The regular files that an archive unpacks to, by their paths. -/
abbrev Tree := Text → Option Blob

/-- What `PRAGMA integrity_check` answers on a file, or the message of what sqlite3 raises. -/
inductive Pragma
  | row (message : Option Text)
  | raised (message : Text)

/-- pyrage, tarfile with gzip, the decoders, and sqlite3. `leaves` says of a member's name that it
resolves to a path outside the destination. -/
class Tools where
  Identity : Type
  identityFromStr : Text → Attempt Identity
  decrypt : Identity → Blob → Attempt Blob
  members : Blob → Attempt (List Text)
  leaves : Text → Bool
  extractAll : Blob → Attempt Tree
  decode : Blob → Attempt Text
  jsonLoads : Text → Attempt Value
  integrityCheck : Blob → Pragma

/-- An entry of the backup directory: a file, whose bytes may be unreadable, or something else. -/
inductive Entry
  | file (bytes : Attempt Blob)
  | notFile
  deriving DecidableEq

def Entry.read : Entry → Attempt Blob
  | file bytes => bytes
  | notFile => .error .osError

def Entry.isFile : Entry → Bool
  | file _ => true
  | notFile => false

structure Archive where
  name : Text
  statOk : Bool
  entry : Entry
  deriving DecidableEq

/-- The configuration of a SQLite installation: `DATABASE_URL` is unset. The key file is missing or
read as lines. -/
structure RestoreConfig where
  enabled : Bool
  ageKey : Option (Option (Attempt (List Text)))
  envPath : Bool

inductive Backend
  | sqlite
  | postgresql
  deriving DecidableEq

def manifestName : Text := "manifest.json"

def dbArchiveName : Text := "briefr.db"

def envArchiveName : Text := ".env"

def pgDumpArchiveName : Text := "briefr.pgdump"

/-- `PGDUMP_MAGIC`. -/
def pgDumpMagic : Blob := [80, 71, 68, 77, 80]

section
variable [Interp] [Tools]

def loadAgeIdentity : Option (Attempt (List Text)) → Attempt Tools.Identity
  | none => .error .osError
  | some lines => do
    match (← lines).map strip |>.find? fun line ↦ line ≠ [] ∧ line.head? ≠ some '#' with
    | some line => Tools.identityFromStr line
    | none => .error .runtimeError

/-- `_safe_extract_tar`. -/
def safeExtractTar (tar : Blob) : Attempt Tree := do
  if (← Tools.members tar).any Tools.leaves then .error .runtimeError
  else Tools.extractAll tar

def isEncrypted (name : Text) : Bool := encryptedArchiveSuffix.isSuffixOf name

def extractArchive (cfg : RestoreConfig) (a : Archive) : Attempt Tree :=
  if isEncrypted a.name then
    match cfg.ageKey with
    | none => .error .runtimeError
    | some key => do
      let identity ← loadAgeIdentity key
      safeExtractTar (← Tools.decrypt identity (← a.entry.read))
  else do
    safeExtractTar (← a.entry.read)

def backendNamed : Value → Attempt (Option Backend)
  | .str s =>
    if s = ("sqlite" : String) then .ok (some .sqlite)
    else if s = ("postgresql" : String) then .ok (some .postgresql)
    else .ok none
  | .list _ | .dict _ => .error .typeError
  | _ => .ok none

/-- The `backend` entry of a manifest; only an object has `get`. -/
def manifestBackend (manifest : Blob) : Attempt (Option Backend) := do
  match ← Tools.jsonLoads (← Tools.decode manifest) with
  | .dict fields => backendNamed (Dict.get fields ("backend" : String))
  | _ => .error .attributeError

def backendByDump (tree : Tree) : Backend := if (tree pgDumpArchiveName).isSome then .postgresql else .sqlite

def archiveBackend (tree : Tree) : Attempt Backend :=
  match tree manifestName with
  | none => .ok (backendByDump tree)
  | some manifest =>
    match manifestBackend manifest with
    | .ok (some backend) => .ok backend
    | .ok none | .error .jsonDecodeError => .ok (backendByDump tree)
    | .error e => .error e

def verifyPgDump : Option Blob → Bool
  | none => false
  | some dump => pgDumpMagic.isPrefixOf dump

/-- `check_db_integrity` of a file that exists. -/
def checkDbIntegrity (db : Blob) : Attempt Bool :=
  match Tools.integrityCheck db with
  | .row message => .ok (decide (lower (strip (message.getD [])) = ("ok" : String)))
  | .raised message =>
    let msg := lower message
    if isIn ("malformed" : String) msg || isIn ("not a database" : String) msg || isIn ("corrupt" : String) msg then
      .ok false
    else .error .databaseError

def verifyArchiveContents (tree : Tree) : Attempt Bool := do
  match ← archiveBackend tree with
  | .postgresql => .ok (verifyPgDump (tree pgDumpArchiveName))
  | .sqlite =>
    match tree dbArchiveName with
    | none => .ok false
    | some db => checkDbIntegrity db

end

end Briefr.Backup
