import Briefr.Backup.Archive

namespace Briefr.Backup

open Briefr.Python

/-- The files that a restore may change. -/
@[ext] structure LiveFiles where
  db : Option Blob
  wal : Option Blob
  shm : Option Blob
  env : Option Blob
  deriving DecidableEq

/-- Where a copy stops: what it raises, and what it leaves at the destination. -/
structure BrokenCopy where
  raises : Raised
  leaves : Option Blob

/-- Which steps of a restore raise. -/
structure Faults where
  tempDir : Option Raised
  liveCheck : Option Raised
  mkdir : Option Raised
  move : Option Raised
  unlinkWal : Option Raised
  unlinkShm : Option Raised
  copyDb : Option BrokenCopy
  postCheck : Option Raised
  copyEnv : Option BrokenCopy
  cleanup : Option Raised
  appendLog : Option Raised

def Faults.none : Faults :=
  ⟨Option.none, Option.none, Option.none, Option.none, Option.none, Option.none, Option.none, Option.none, Option.none,
    Option.none, Option.none⟩

def attempt : Option Raised → Attempt Unit
  | some e => .error e
  | none => .ok ()

/-- A step on the live files, which keeps what it has done when it raises. -/
abbrev Outcome := Attempt Unit × LiveFiles

def Outcome.andThen (x : Outcome) (k : LiveFiles → Outcome) : Outcome :=
  match x with
  | (.ok (), f) => k f
  | (.error e, f) => (.error e, f)

section
variable [Interp] [Tools]

/-- Without `force` a healthy live database is not overwritten. -/
def refuseHealthy (faults : Faults) (force : Bool) (live : LiveFiles) : Attempt Unit :=
  match live.db, force with
  | some db, false => do
    attempt faults.liveCheck
    if ← checkDbIntegrity db then .error .runtimeError else .ok ()
  | _, _ => .ok ()

/-- What `restore_backup` does before it touches the live file. -/
def prepare (cfg : RestoreConfig) (faults : Faults) (force : Bool) (a : Archive) (live : LiveFiles) : Attempt Tree :=
  if !a.entry.isFile then .error .osError
  else do
    attempt faults.tempDir
    let tree ← extractArchive cfg a
    if !(← verifyArchiveContents tree) then .error .runtimeError
    else
      match ← archiveBackend tree with
      | .postgresql => .error .runtimeError
      | .sqlite =>
        refuseHealthy faults force live
        attempt faults.mkdir
        return tree

def removeSidecars (faults : Faults) (f : LiveFiles) : Outcome :=
  match f.wal, faults.unlinkWal with
  | some _, some e => (.error e, f)
  | _, _ =>
    match f.shm, faults.unlinkShm with
    | some _, some e => (.error e, { f with wal := none })
    | _, _ => (.ok (), { f with wal := none, shm := none })

/-- `shutil.move`, which leaves the file where it was when it raises, and the sidecars. -/
def moveAside (faults : Faults) (f : LiveFiles) : Outcome :=
  match f.db, faults.move with
  | none, _ => (.ok (), f)
  | some _, some e => (.error e, f)
  | some _, none => removeSidecars faults { f with db := none }

def install (faults : Faults) (tree : Tree) (f : LiveFiles) : Outcome :=
  match tree dbArchiveName, faults.copyDb with
  | none, _ => (.error .osError, f)
  | some _, some broken => (.error broken.raises, { f with db := broken.leaves })
  | some db, none =>
    match attempt faults.postCheck, checkDbIntegrity db with
    | .error e, _ | .ok _, .error e => (.error e, { f with db := some db })
    | .ok _, .ok false => (.error .runtimeError, { f with db := some db })
    | .ok _, .ok true => (.ok (), { f with db := some db })

def copyEnv (cfg : RestoreConfig) (faults : Faults) (tree : Tree) (f : LiveFiles) : Outcome :=
  match tree envArchiveName, cfg.envPath, faults.copyEnv with
  | some _, true, some broken => (.error broken.raises, { f with env := broken.leaves })
  | some env, true, none => (.ok (), { f with env := some env })
  | _, _, _ => (.ok (), f)

/-- The temporary directory is removed and the log line written; the audit row raises nothing. -/
def finish (faults : Faults) (f : LiveFiles) : Outcome :=
  (do attempt faults.cleanup; attempt faults.appendLog, f)

/-- `restore_backup` of a SQLite installation. -/
def restoreBackup (cfg : RestoreConfig) (faults : Faults) (force : Bool) (a : Archive) (live : LiveFiles) : Outcome :=
  match prepare cfg faults force a live with
  | .error e => (.error e, live)
  | .ok tree =>
    (((moveAside faults live).andThen (install faults tree)).andThen (copyEnv cfg faults tree)).andThen (finish faults)

end

/-- The first step that raises once the archive is accepted. -/
inductive Stop
  | move
  | sidecars
  | copy (leaves : Option Blob)
  | check
  | env (leaves : Option Blob)
  | last
  | nowhere

def copiesEnv (cfg : RestoreConfig) (tree : Tree) : Bool := (tree envArchiveName).isSome && cfg.envPath

def stopOf (cfg : RestoreConfig) (faults : Faults) (tree : Tree) (live : LiveFiles) : Stop :=
  if live.db.isSome ∧ faults.move.isSome then .move
  else if live.db.isSome ∧ (live.wal.isSome ∧ faults.unlinkWal.isSome ∨ live.shm.isSome ∧ faults.unlinkShm.isSome) then
    .sidecars
  else
    match faults.copyDb with
    | some broken => .copy broken.leaves
    | none =>
      if faults.postCheck.isSome then .check
      else
        match copiesEnv cfg tree, faults.copyEnv with
        | true, some broken => .env broken.leaves
        | _, _ => if faults.cleanup.isSome ∨ faults.appendLog.isSome then .last else .nowhere

/-- There is no sidecar beside a live database. -/
def Bare (live : LiveFiles) : Prop := live.db.isSome → live.wal = none ∧ live.shm = none

/-- The step at which the restore stops leaves every file as it was: it is the move itself, or what
has been written by then is what stood there. -/
def Harmless (cfg : RestoreConfig) (tree : Tree) (live : LiveFiles) : Stop → Prop
  | .move | .nowhere => True
  | .sidecars => False
  | .copy leaves => leaves = live.db ∧ Bare live
  | .check => tree dbArchiveName = live.db ∧ Bare live
  | .env leaves => tree dbArchiveName = live.db ∧ Bare live ∧ leaves = live.env
  | .last => tree dbArchiveName = live.db ∧ Bare live ∧ (copiesEnv cfg tree → tree envArchiveName = live.env)

/-- The live files once the old database is out of the way. -/
def moved (live : LiveFiles) : LiveFiles :=
  match live.db with
  | none => live
  | some _ => { live with db := none, wal := none, shm := none }

theorem replaced_eq_iff (live : LiveFiles) (db env : Option Blob) :
    { moved live with db, env } = live ↔ db = live.db ∧ Bare live ∧ env = live.env := by
  unfold moved Bare
  rw [LiveFiles.ext_iff]
  cases hdb : live.db with
  | none => simp
  | some old =>
    simp only [Option.isSome_some, true_imp_iff]
    constructor
    · intro ⟨hd, hw, hs, he⟩
      exact ⟨hd, ⟨hw.symm, hs.symm⟩, he⟩
    · intro ⟨hd, ⟨hw, hs⟩, he⟩
      exact ⟨hd, hw.symm, hs.symm, he⟩

theorem moved_env (live : LiveFiles) : (moved live).env = live.env := by
  unfold moved
  cases live.db <;> rfl

theorem copied_eq_iff (live : LiveFiles) (db : Option Blob) :
    { moved live with db } = live ↔ db = live.db ∧ Bare live := by
  refine (replaced_eq_iff live db (moved live).env).trans ?_
  rw [moved_env, eq_self_iff_true, and_true]

section
variable [Interp] [Tools]

/-- An accepted archive holds a database that passes the check. -/
theorem prepare_db {cfg : RestoreConfig} {faults : Faults} {force : Bool} {a : Archive} {live : LiveFiles} {tree : Tree}
    (h : prepare cfg faults force a live = .ok tree) :
    ∃ db, tree dbArchiveName = some db ∧ checkDbIntegrity db = .ok true := by
  unfold prepare at h
  split at h
  · cases h
  · simp only [bind_eq_ok] at h
    obtain ⟨-, -, tree', -, ok, hv, h⟩ := h
    split at h
    · cases h
    · rename_i hok
      obtain rfl : ok = true := by simpa using hok
      simp only [bind_eq_ok] at h
      obtain ⟨backend, hb, h⟩ := h
      cases backend with
      | postgresql => cases h
      | sqlite =>
        simp only [bind_eq_ok, pure_eq_ok, Except.ok.injEq] at h
        obtain ⟨-, -, -, -, rfl⟩ := h
        simp only [verifyArchiveContents, hb, ok_bind] at hv
        split at hv
        · cases hv
        · exact ⟨_, ‹_›, hv⟩

omit [Interp] [Tools] in
/-- What a step leaves when it raises: the move and the sidecars. -/
theorem moveAside_cases (faults : Faults) (live : LiveFiles) :
    (live.db.isSome ∧ faults.move.isSome ∧ ∃ e, moveAside faults live = (.error e, live)) ∨
    (live.db.isSome ∧ faults.move = none ∧
      (live.wal.isSome ∧ faults.unlinkWal.isSome ∨ live.shm.isSome ∧ faults.unlinkShm.isSome) ∧
      ∃ e f, moveAside faults live = (.error e, f) ∧ f.db = none) ∨
    (¬(live.db.isSome ∧ faults.move.isSome) ∧
      ¬(live.db.isSome ∧
        (live.wal.isSome ∧ faults.unlinkWal.isSome ∨ live.shm.isSome ∧ faults.unlinkShm.isSome)) ∧
      moveAside faults live = (.ok (), moved live)) := by
  obtain ⟨db, wal, shm, env⟩ := live
  cases db with
  | none => exact .inr (.inr ⟨by simp, by simp, rfl⟩)
  | some db =>
    cases hm : faults.move with
    | some e => exact .inl ⟨rfl, rfl, e, by simp [moveAside, hm]⟩
    | none =>
      right
      cases wal <;> cases shm <;> cases hw : faults.unlinkWal <;> cases hs : faults.unlinkShm <;>
        simp [moveAside, removeSidecars, moved, hm, hw, hs]

omit [Interp] [Tools] in
theorem finish_keeps_iff (faults : Faults) (f live : LiveFiles) :
    (∀ e, (finish faults f).1 = .error e → (finish faults f).2 = live) ↔
      (faults.cleanup.isSome ∨ faults.appendLog.isSome → f = live) := by
  unfold finish
  cases faults.cleanup with
  | some e => simp [attempt]
  | none => cases faults.appendLog <;> simp [attempt]

/-- Once the archive is accepted, the restore keeps the live files when it raises exactly where the
step that raises is harmless. -/
theorem replace_keeps_iff (cfg : RestoreConfig) (faults : Faults) {tree : Tree} (live : LiveFiles) {db : Blob}
    (hdb : tree dbArchiveName = some db) (hcheck : checkDbIntegrity db = .ok true) :
    let r := (((moveAside faults live).andThen (install faults tree)).andThen (copyEnv cfg faults tree)).andThen
      (finish faults)
    (∀ e, r.1 = .error e → r.2 = live) ↔ Harmless cfg tree live (stopOf cfg faults tree live) := by
  rcases moveAside_cases faults live with ⟨hl, hm, e, hmove⟩ | ⟨hl, hm, hside, e, f, hmove, hf⟩ | ⟨hm, hside, hmove⟩
  · simp [hmove, Outcome.andThen, stopOf, hl, hm, Harmless]
  · have hne : f ≠ live := by
      rintro rfl
      simp [hf] at hl
    simp [hmove, Outcome.andThen, stopOf, hl, hm, hside, Harmless, hne]
  · simp only [hmove, Outcome.andThen, stopOf, hm, hside, if_false, install, hdb]
    cases hcopy : faults.copyDb with
    | some broken => simp [Harmless, copied_eq_iff]
    | none =>
      cases hpost : faults.postCheck with
      | some e => simp [attempt, Harmless, hdb, copied_eq_iff]
      | none =>
        simp only [attempt, hcheck, copyEnv, copiesEnv, Option.isSome_none, Bool.false_eq_true, if_false]
        cases henv : tree envArchiveName with
        | none =>
          simp only [Option.isSome_none, Bool.false_and]
          rw [finish_keeps_iff, copied_eq_iff]
          split <;> simp_all [Harmless, copiesEnv]
        | some env =>
          cases hpath : cfg.envPath with
          | false =>
            simp only [Option.isSome_some, Bool.and_false]
            rw [finish_keeps_iff, copied_eq_iff]
            split <;> simp_all [Harmless, copiesEnv]
          | true =>
            cases hc : faults.copyEnv with
            | some broken =>
              simp only [Option.isSome_some, Bool.and_true, Harmless, Except.error.injEq, forall_eq', hdb]
              exact replaced_eq_iff live (some db) broken.leaves
            | none =>
              simp only [Option.isSome_some, Bool.and_true]
              rw [finish_keeps_iff]
              have heq := replaced_eq_iff live (some db) (some env)
              split <;> simp_all [Harmless, copiesEnv]

end

section Sample

/-- The bytes of a gzipped tar file whose only member is a `briefr.db` of no bytes, which SQLite
accepts as an empty database. -/
def emptyDbArchive : Blob :=
  [31, 139, 8, 0, 0, 0, 0, 0, 2, 255, 237, 205, 59, 14, 64, 64, 0, 69, 209, 89, 138, 21, 200, 136, 223, 122, 8, 18, 237,
    96, 255, 38, 74, 209, 146, 72, 206, 105, 238, 235, 222, 152, 214, 121, 73, 229, 52, 134, 247, 196, 172, 107, 154,
    171, 217, 189, 15, 187, 111, 171, 58, 20, 49, 124, 224, 216, 246, 33, 229, 203, 0, 0, 0, 0, 0, 0, 0, 0, 0, 0, 255,
    113, 2, 203, 99, 183, 189, 0, 40, 0, 0]

local instance restoreInterp : Interp := ascii fun _ ↦ none

/-- The libraries on that archive and on what its gzip stream becomes when it is cut short. -/
@[reducible] def sampleTools : Tools where
  Identity := Unit
  identityFromStr _ := .error .identityError
  decrypt _ _ := .error .decryptError
  members tar :=
    if tar = emptyDbArchive then .ok [dbArchiveName]
    else if tar.isPrefixOf emptyDbArchive then .error .eofError
    else .error .tarError
  leaves _ := false
  extractAll _ := .ok fun name ↦ if name = dbArchiveName then some [] else none
  decode _ := .error .unicodeDecodeError
  jsonLoads _ := .error .jsonDecodeError
  integrityCheck db := if db = [] then .row (some "ok") else .raised "file is not a database"

local instance restoreTools : Tools := sampleTools

def plainConfig : RestoreConfig := ⟨true, none, false⟩

def plainArchive (name : Text) (bytes : Blob) : Archive := ⟨name, true, .file (.ok bytes)⟩

def corruptLive : LiveFiles := ⟨some [103, 97, 114, 98, 97, 103, 101], some [1], none, none⟩

end Sample

end Briefr.Backup
