import Briefr.Backup.Restore

namespace Briefr.Backup

open Briefr.Python Briefr.Library.StableSort

/-- The exception types that `find_latest_valid_backup` passes over. -/
def Raised.caught : Raised → Bool
  | osError | tarError | runtimeError | decryptError | identityError => true
  | _ => false

/-- `list_backups`, which calls `stat` on every archive. -/
def listBackups (dir : List Archive) : Attempt (List Archive) :=
  (newestFirst Archive.name dir).mapM fun a ↦ if a.statOk then .ok a else .error .osError

inductive Recovery
  | skipped
  | noDb
  | healthy
  | restored (archive : Archive)

section
variable [Interp] [Tools]

def checkArchive (cfg : RestoreConfig) (a : Archive) : Attempt Bool := do
  verifyArchiveContents (← extractArchive cfg a)

def firstValid (cfg : RestoreConfig) : List Archive → Attempt (Option Archive)
  | [] => .ok none
  | a :: rest =>
    match checkArchive cfg a with
    | .ok true => .ok (some a)
    | .ok false => firstValid cfg rest
    | .error e => if e.caught then firstValid cfg rest else .error e

def findLatestValidBackup (cfg : RestoreConfig) (dir : List Archive) : Attempt (Option Archive) := do
  firstValid cfg (← listBackups dir)

def ensureDbOrRestore (cfg : RestoreConfig) (dir : List Archive) (live : LiveFiles) : Attempt Recovery × LiveFiles :=
  if !cfg.enabled then (.ok .skipped, live)
  else
    match live.db with
    | none => (.ok .noDb, live)
    | some db =>
      match checkDbIntegrity db with
      | .error e => (.error e, live)
      | .ok true => (.ok .healthy, live)
      | .ok false =>
        match findLatestValidBackup cfg dir with
        | .error e => (.error e, live)
        | .ok none => (.error .runtimeError, live)
        | .ok (some a) =>
          match restoreBackup cfg Faults.none true a live with
          | (.ok (), f) => (.ok (.restored a), f)
          | (.error e, f) => (.error e, f)

def isValid (cfg : RestoreConfig) (a : Archive) : Bool :=
  match checkArchive cfg a with
  | .ok true => true
  | _ => false

def IsSqlite (cfg : RestoreConfig) (a : Archive) : Prop :=
  ∃ tree, extractArchive cfg a = .ok tree ∧ archiveBackend tree = .ok .sqlite

/-- The damage that the search does not pass over: an exception of another type while unpacking
(`EOFError` or `zlib.error` of a gzip stream, an undecodable key file), a manifest that cannot be
decoded, is no object or names its backend by a list or an object, and an error of sqlite3 that
does not speak of corruption. -/
inductive Escapes (cfg : RestoreConfig) (a : Archive) : Prop
  | unpacking (e : Raised) (h : extractArchive cfg a = .error e) (he : e.caught = false)
  | manifest (tree : Tree) (m : Blob) (e : Raised) (ht : extractArchive cfg a = .ok tree)
      (hm : tree manifestName = some m) (h : manifestBackend m = .error e) (hj : e ≠ .jsonDecodeError)
      (he : e.caught = false)
  | database (tree : Tree) (db : Blob) (ht : extractArchive cfg a = .ok tree)
      (hb : archiveBackend tree = .ok .sqlite) (hd : tree dbArchiveName = some db)
      (h : checkDbIntegrity db = .error .databaseError)

theorem isValid_iff {cfg : RestoreConfig} {a : Archive} : isValid cfg a = true ↔ checkArchive cfg a = .ok true := by
  unfold isValid
  split
  · simp_all
  · rename_i h
    simpa using h

theorem checkDbIntegrity_error {db : Blob} {e : Raised} (h : checkDbIntegrity db = .error e) : e = .databaseError := by
  unfold checkDbIntegrity at h
  split at h
  · cases h
  · dsimp only at h
    split at h
    · cases h
    · cases h
      rfl

omit [Interp] in
theorem archiveBackend_error {tree : Tree} {e : Raised} :
    archiveBackend tree = .error e ↔
      ∃ m, tree manifestName = some m ∧ manifestBackend m = .error e ∧ e ≠ .jsonDecodeError := by
  unfold archiveBackend
  cases hm : tree manifestName with
  | none => simp
  | some m =>
    cases hb : manifestBackend m with
    | ok b => cases b <;> simp [hb]
    | error e' =>
      simp only [Option.some.injEq, exists_eq_left', hb]
      cases e' <;> simp <;> rintro rfl <;> simp

theorem escapes_iff {cfg : RestoreConfig} {a : Archive} :
    (∃ e, checkArchive cfg a = .error e ∧ e.caught = false) ↔ Escapes cfg a := by
  unfold checkArchive
  constructor
  · intro ⟨e, h, he⟩
    cases ht : extractArchive cfg a with
    | error e' =>
      rw [ht] at h
      cases h
      exact .unpacking e ht he
    | ok tree =>
      rw [ht, ok_bind, verifyArchiveContents] at h
      cases hb : archiveBackend tree with
      | error e' =>
        rw [hb] at h
        cases h
        obtain ⟨m, hm, hme, hj⟩ := archiveBackend_error.mp hb
        exact .manifest tree m e ht hm hme hj he
      | ok backend =>
        rw [hb, ok_bind] at h
        cases backend with
        | postgresql => cases h
        | sqlite =>
          dsimp only at h
          split at h
          · cases h
          · rename_i db hd
            obtain rfl := checkDbIntegrity_error h
            exact .database tree db ht hb hd h
  · intro h
    cases h with
    | unpacking e h he => exact ⟨e, by rw [h]; rfl, he⟩
    | manifest tree m e ht hm h hj he =>
      refine ⟨e, ?_, he⟩
      rw [ht, ok_bind, verifyArchiveContents, archiveBackend_error.mpr ⟨m, hm, h, hj⟩]
      rfl
    | database tree db ht hb hd h =>
      refine ⟨.databaseError, ?_, rfl⟩
      rw [ht, ok_bind, verifyArchiveContents, hb, ok_bind]
      dsimp only
      rw [hd]
      exact h

/-- The search answers exactly where no archive before the first valid one escapes. -/
theorem firstValid_eq_ok {cfg : RestoreConfig} {rows : List Archive} {r : Option Archive} :
    firstValid cfg rows = .ok r ↔
      r = rows.find? (isValid cfg) ∧ ∀ a ∈ rows.takeWhile (fun a ↦ !isValid cfg a), ¬Escapes cfg a := by
  induction rows with
  | nil => simp [firstValid, eq_comm]
  | cons a rest ih =>
    cases hc : checkArchive cfg a with
    | error e =>
      have hv : isValid cfg a = false := by simp [isValid, hc]
      have he : Escapes cfg a ↔ e.caught = false := by
        rw [← escapes_iff]
        simp [hc]
      simp only [firstValid, hc, List.find?_cons, List.takeWhile_cons, hv, Bool.not_false, if_true,
        List.forall_mem_cons, he]
      cases e.caught <;> simp [ih]
    | ok ok =>
      have hn : ¬Escapes cfg a := by
        rw [← escapes_iff]
        simp [hc]
      cases ok with
      | true =>
        have hv : isValid cfg a = true := isValid_iff.mpr hc
        simp [firstValid, hc, hv, eq_comm]
      | false =>
        have hv : isValid cfg a = false := by simp [isValid, hc]
        simp [firstValid, hc, hv, ih, hn]

omit [Interp] [Tools] in
theorem listBackups_eq_ok {dir rows : List Archive} :
    listBackups dir = .ok rows ↔
      rows = newestFirst Archive.name dir ∧ ∀ a ∈ newestFirst Archive.name dir, a.statOk = true := by
  unfold listBackups
  generalize newestFirst Archive.name dir = l
  induction l generalizing rows with
  | nil =>
    rw [List.mapM_nil, pure_eq_ok, Except.ok.injEq, eq_comm]
    simp
  | cons a l ih =>
    rw [List.mapM_cons, bind_eq_ok]
    cases hs : a.statOk with
    | false => simp [hs]
    | true =>
      simp only [if_true, Except.ok.injEq, exists_eq_left', bind_eq_ok, ih, pure_eq_ok, List.forall_mem_cons, hs,
        true_and]
      constructor
      · intro ⟨rest, ⟨hrest, hall⟩, hrows⟩
        exact ⟨by rw [← hrows, hrest], hall⟩
      · intro ⟨hrows, hall⟩
        exact ⟨l, ⟨rfl, hall⟩, hrows.symm⟩

theorem find_eq_ok {cfg : RestoreConfig} {dir : List Archive} {r : Option Archive} :
    findLatestValidBackup cfg dir = .ok r ↔
      (∀ a ∈ newestFirst Archive.name dir, a.statOk = true) ∧
        r = (newestFirst Archive.name dir).find? (isValid cfg) ∧
        ∀ a ∈ (newestFirst Archive.name dir).takeWhile (fun a ↦ !isValid cfg a), ¬Escapes cfg a := by
  simp only [findLatestValidBackup, bind_eq_ok, listBackups_eq_ok, firstValid_eq_ok]
  constructor
  · rintro ⟨rows, ⟨rfl, hstat⟩, hr⟩
    exact ⟨hstat, hr⟩
  · intro ⟨hstat, hr⟩
    exact ⟨_, ⟨rfl, hstat⟩, hr⟩

/-- The newest valid archive by name, or none where there is none. -/
def Newest (cfg : RestoreConfig) (dir : List Archive) : Option Archive → Prop
  | none => ∀ b ∈ dir, isArchive b.name → isValid cfg b = false
  | some a => a ∈ dir ∧ isArchive a.name ∧ isValid cfg a ∧
      ∀ b ∈ dir, isArchive b.name → isValid cfg b → b.name ≤ a.name

omit [Interp] [Tools] in
theorem mem_newestFirst {dir : List Archive} {a : Archive} :
    a ∈ newestFirst Archive.name dir ↔ a ∈ dir ∧ isArchive a.name = true :=
  (perm_sortBy _ _).mem_iff.trans List.mem_filter

theorem newest_find (cfg : RestoreConfig) (dir : List Archive) :
    Newest cfg dir ((newestFirst Archive.name dir).find? (isValid cfg)) := by
  cases hf : (newestFirst Archive.name dir).find? (isValid cfg) with
  | none =>
    intro b hb hn
    simpa using List.find?_eq_none.mp hf b (mem_newestFirst.mpr ⟨hb, hn⟩)
  | some a =>
    obtain ⟨hv, older, newer, hl, hnone⟩ := List.find?_eq_some_iff_append.mp hf
    obtain ⟨had, han⟩ := mem_newestFirst.mp (List.mem_of_find?_eq_some hf)
    refine ⟨had, han, hv, fun b hb hn hvb ↦ ?_⟩
    have hmem : b ∈ older ++ a :: newer := hl ▸ mem_newestFirst.mpr ⟨hb, hn⟩
    have hsorted : (newestFirst Archive.name dir).Pairwise fun x y ↦ OrderDual.toDual x.name ≤ OrderDual.toDual y.name :=
      pairwise_sortBy _ _
    rw [hl, List.pairwise_append, List.pairwise_cons] at hsorted
    rcases List.mem_append.mp hmem with hm | hm
    · exact absurd hvb (by simpa using hnone b hm)
    · rcases List.mem_cons.mp hm with rfl | hm
      · exact le_rfl
      · exact hsorted.2.1.1 b hm

theorem isFile_of_extract {cfg : RestoreConfig} {a : Archive} {tree : Tree} (h : extractArchive cfg a = .ok tree) :
    a.entry.isFile = true := by
  cases hent : a.entry with
  | file bytes => rfl
  | notFile =>
    simp only [extractArchive, hent, Entry.read] at h
    split at h
    · split at h
      · cases h
      · simp [bind_eq_ok] at h
    · cases h

/-- With nothing going wrong, a valid SQLite archive is restored. -/
theorem restore_of_valid {cfg : RestoreConfig} {a : Archive} {tree : Tree} (ht : extractArchive cfg a = .ok tree)
    (hb : archiveBackend tree = .ok .sqlite) (hv : isValid cfg a = true) (live : LiveFiles) :
    ∃ f, restoreBackup cfg Faults.none true a live = (.ok (), f) ∧ f.db = tree dbArchiveName := by
  have hverify : verifyArchiveContents tree = .ok true := by
    simpa [checkArchive, ht] using isValid_iff.mp hv
  have hprepare : prepare cfg Faults.none true a live = .ok tree := by
    have hrefuse : refuseHealthy Faults.none true live = .ok () := by
      unfold refuseHealthy
      split <;> first | rfl | simp_all
    have htemp : attempt Faults.none.tempDir = .ok () := rfl
    have hmkdir : attempt Faults.none.mkdir = .ok () := rfl
    simp only [prepare, isFile_of_extract ht, Bool.not_true, Bool.false_eq_true, if_false, ht, hverify, hb, hrefuse,
      htemp, hmkdir, ok_bind, pure_eq_ok]
  obtain ⟨db, hdb, hcheck⟩ := prepare_db hprepare
  have hmove : moveAside Faults.none live = (.ok (), moved live) := by
    rcases moveAside_cases Faults.none live with ⟨-, h, -⟩ | ⟨-, -, h, -⟩ | ⟨-, -, h⟩
    · simp [Faults.none] at h
    · simp [Faults.none] at h
    · exact h
  have hinstall : install Faults.none tree (moved live) = (.ok (), { moved live with db := some db }) := by
    simp only [install, hdb, Faults.none, attempt, hcheck]
  have henv : ∀ f : LiveFiles, ∃ f', copyEnv cfg Faults.none tree f = (.ok (), f') ∧ f'.db = f.db := by
    intro f
    unfold copyEnv
    split
    · simp_all [Faults.none]
    · exact ⟨_, rfl, rfl⟩
    · exact ⟨_, rfl, rfl⟩
  obtain ⟨f, hf, hfdb⟩ := henv { moved live with db := some db }
  refine ⟨f, ?_, by rw [hfdb, hdb]⟩
  simp only [restoreBackup, hprepare, hmove, Outcome.andThen, hinstall, hf]
  rfl

/-- On a corrupt live database the search finds the newest valid archive, and a SQLite archive is
restored where one is valid, exactly where every archive can be listed, none that is newer than
every valid one escapes, and the newest valid one is of SQLite where any is. -/
theorem recovery_iff (cfg : RestoreConfig) (dir : List Archive) (live : LiveFiles) (db : Blob)
    (henabled : cfg.enabled = true) (hdb : live.db = some db) (hcorrupt : checkDbIntegrity db = .ok false) :
    ((∃ r, findLatestValidBackup cfg dir = .ok r ∧ Newest cfg dir r) ∧
      ((∃ a ∈ dir, isArchive a.name ∧ isValid cfg a ∧ IsSqlite cfg a) →
        ∃ a tree f, ensureDbOrRestore cfg dir live = (.ok (.restored a), f) ∧ extractArchive cfg a = .ok tree ∧
          archiveBackend tree = .ok .sqlite ∧ f.db = tree dbArchiveName)) ↔
    (∀ a ∈ newestFirst Archive.name dir, a.statOk = true) ∧
      (∀ a ∈ (newestFirst Archive.name dir).takeWhile (fun a ↦ !isValid cfg a), ¬Escapes cfg a) ∧
      ((∃ a ∈ dir, isArchive a.name ∧ isValid cfg a ∧ IsSqlite cfg a) →
        ∀ a, (newestFirst Archive.name dir).find? (isValid cfg) = some a → IsSqlite cfg a) := by
  have hensure : ensureDbOrRestore cfg dir live =
      match findLatestValidBackup cfg dir with
      | .error e => (.error e, live)
      | .ok none => (.error .runtimeError, live)
      | .ok (some a) =>
        match restoreBackup cfg Faults.none true a live with
        | (.ok (), f) => (.ok (.restored a), f)
        | (.error e, f) => (.error e, f) := by
    simp only [ensureDbOrRestore, henabled, Bool.not_true, Bool.false_eq_true, if_false, hdb, hcorrupt]
  constructor
  · intro ⟨⟨r, hr, _⟩, hrestore⟩
    obtain ⟨hstat, rfl, hescape⟩ := find_eq_ok.mp hr
    refine ⟨hstat, hescape, fun hex a ha ↦ ?_⟩
    obtain ⟨a', tree, f, he, ht, hb, -⟩ := hrestore hex
    rw [hensure, hr, ha] at he
    dsimp only at he
    split at he
    · simp only [Prod.mk.injEq, Except.ok.injEq, Recovery.restored.injEq] at he
      obtain ⟨rfl, -⟩ := he
      exact ⟨tree, ht, hb⟩
    · simp at he
  · intro ⟨hstat, hescape, hsqlite⟩
    have hr := find_eq_ok.mpr ⟨hstat, rfl, hescape⟩
    refine ⟨⟨_, hr, newest_find cfg dir⟩, fun hex ↦ ?_⟩
    obtain ⟨b, hb, hn, hvb, hsb⟩ := hex
    cases hf : (newestFirst Archive.name dir).find? (isValid cfg) with
    | none => exact absurd hvb (List.find?_eq_none.mp hf b (mem_newestFirst.mpr ⟨hb, hn⟩))
    | some a =>
      obtain ⟨tree, ht, hbackend⟩ := hsqlite ⟨b, hb, hn, hvb, hsb⟩ a hf
      obtain ⟨f, hres, hfdb⟩ := restore_of_valid ht hbackend (List.find?_some hf) live
      refine ⟨a, tree, f, ?_, ht, hbackend, hfdb⟩
      rw [hensure, hr, hf]
      dsimp only
      rw [hres]

end

section Sample

local instance recoveryInterp : Interp := ascii fun _ ↦ none

local instance recoveryTools : Tools := sampleTools

def olderGood : Archive := plainArchive "briefr-20260101T000000Z.tar.gz" emptyDbArchive

/-- No gzip file at all. -/
def newerGarbage : Archive := plainArchive "briefr-20260102T000000Z.tar.gz" [103, 97, 114, 98]

/-- The archive's first sixty bytes, as after a copy that was cut short. -/
def newerTruncated : Archive := plainArchive "briefr-20260102T000000Z.tar.gz" (emptyDbArchive.take 60)

theorem recovery_past_garbage :
    (∃ r, findLatestValidBackup plainConfig [olderGood, newerGarbage] = .ok r ∧
        Newest plainConfig [olderGood, newerGarbage] r) ∧
      ((∃ a ∈ [olderGood, newerGarbage], isArchive a.name ∧ isValid plainConfig a ∧ IsSqlite plainConfig a) →
        ∃ a tree f, ensureDbOrRestore plainConfig [olderGood, newerGarbage] corruptLive = (.ok (.restored a), f) ∧
          extractArchive plainConfig a = .ok tree ∧ archiveBackend tree = .ok .sqlite ∧
          f.db = tree dbArchiveName) := by
  have hsorted : newestFirst Archive.name [olderGood, newerGarbage] = [newerGarbage, olderGood] := by decide +kernel
  have hgarbage : isValid plainConfig newerGarbage = false := by decide +kernel
  have hgood : isValid plainConfig olderGood = true := by decide +kernel
  refine (recovery_iff plainConfig [olderGood, newerGarbage] corruptLive [103, 97, 114, 98, 97, 103, 101] rfl rfl
    (by decide +kernel)).mpr ?_
  rw [hsorted]
  refine ⟨by decide, ?_, fun _ a ha ↦ ?_⟩
  · simp only [List.takeWhile_cons, hgarbage, hgood, Bool.not_false, Bool.not_true, if_true, Bool.false_eq_true,
      if_false, List.mem_singleton, forall_eq]
    rw [← escapes_iff]
    intro ⟨e, he, hc⟩
    have htar : checkArchive plainConfig newerGarbage = .error .tarError := by decide +kernel
    rw [htar] at he
    cases he
    cases hc
  · rw [List.find?_cons, hgarbage, List.find?_cons, hgood] at ha
    cases ha
    exact ⟨_, rfl, rfl⟩

/-- A newer archive whose gzip stream ends early stops the search before the valid one is tried. -/
theorem search_stops_at_truncated :
    findLatestValidBackup plainConfig [olderGood, newerTruncated] = .error .eofError ∧
      isValid plainConfig olderGood = true ∧
      (ensureDbOrRestore plainConfig [olderGood, newerTruncated] corruptLive).2 = corruptLive := by
  decide +kernel

end Sample

end Briefr.Backup
