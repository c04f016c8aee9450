import Briefr.Backup.Retention
import Briefr.Library.Runs

namespace Briefr.Backup

open Briefr.Python Briefr.Library.Runs Briefr.Library.Tasks

/-- The part of `BackupConfig` that a run reads. -/
structure Config where
  retentionCount : ℕ
  intervalHours : ℕ
  encrypts : Bool

def Config.interval (cfg : Config) : ℤ := cfg.intervalHours * 3600 * 1000000000

/-- The civil date of a day, counted from the epoch. -/
def civilFromDays (days : ℤ) : ℤ × ℤ × ℤ :=
  let z := days + 719468
  let era := z / 146097
  let doe := z % 146097
  let yoe := (doe - doe / 1460 + doe / 36524 - doe / 146096) / 365
  let doy := doe - (365 * yoe + yoe / 4 - yoe / 100)
  let mp := (5 * doy + 2) / 153
  let month := if mp < 10 then mp + 3 else mp - 9
  (yoe + era * 400 + (if month ≤ 2 then 1 else 0), month, doy - (153 * mp + 2) / 5 + 1)

/-- `_utc_stamp`: `strftime("%Y%m%dT%H%M%SZ")`. -/
def utcStamp (now : ℤ) : Text :=
  let seconds := now / 1000000000
  let (year, month, day) := civilFromDays (seconds / 86400)
  let rest := (seconds % 86400).toNat
  twoDigits (year.toNat / 100) ++ twoDigits (year.toNat % 100) ++ twoDigits month.toNat ++ twoDigits day.toNat ++
    'T' :: twoDigits (rest / 3600) ++ twoDigits (rest / 60 % 60) ++ twoDigits (rest % 60) ++ ['Z']

def archiveName (cfg : Config) (now : ℤ) : Text :=
  archivePrefix ++ (utcStamp now ++ (tarSuffix ++ if cfg.encrypts then encryptedArchiveSuffix else []))

/-- `_INTERVAL_BYPASS_REASONS`. -/
def intervalBypassReasons : List String :=
  ["manual", "manual-admin", "pre-update", "pre-restore", "test", "enc", "seed", "plain"]

def bypasses (reason : Text) : Bool := intervalBypassReasons.any fun r ↦ r.toList == reason

/-- Where a call of `run_backup` stands. The guard lists the archives and reads their times one by
one; `seen` counts the scheduled archives created before its listing. A call that waits for the
lock carries that count where its reason is subject to the guard. -/
inductive Phase
  | listed (seen : ℕ) (remaining : List Text) (newest : Option ℤ)
  | waiting (seen : Option ℕ)
  | writing (scheduled : Bool) (name : Text) (written : Bool)

/-- The directory, the lock file's holder, the calls under way, and the times at which archives
with a scheduled reason were created, the latest first. -/
structure World where
  clock : ℤ
  dir : List File
  lock : Option ℕ
  calls : ℕ → Option Phase
  created : List ℤ

def World.init (clock : ℤ) (dir : List File) : World := ⟨clock, dir, none, fun _ ↦ none, []⟩

def World.setCall (w : World) (call : ℕ) (phase : Option Phase) : World :=
  { w with calls := Function.update w.calls call phase }

/-- `_interval_guard_blocks`, once the newest time is known. -/
def guardBlocks (cfg : Config) (now : ℤ) : Option ℤ → Bool
  | none => false
  | some latest => decide (now - latest < cfg.interval)

inductive Event
  | tick (d : ℕ)
  | start (call : ℕ) (reason : Text)
  | stat (call : ℕ)
  | decide (call : ℕ)
  | lock (call : ℕ)
  | write (call : ℕ)
  | prune (call : ℕ) (stopsAfter : Option ℕ)
  | fail (call : ℕ)

def startCall (w : World) (call : ℕ) (reason : Text) : World :=
  match w.calls call with
  | none =>
    if bypasses reason then w.setCall call (some (.waiting none))
    else w.setCall call (some (.listed w.created.length ((iterArchives w.dir).map File.name) none))
  | some _ => w

/-- `newest = mtime if newest is None else max(newest, mtime)`; an archive that is gone is skipped. -/
def newer (newest : Option ℤ) : Option ℤ → Option ℤ
  | none => newest
  | some mtime => some ((newest.map (max · mtime)).getD mtime)

def statNext (w : World) (call : ℕ) : World :=
  match w.calls call with
  | some (.listed seen (name :: rest) newest) =>
    w.setCall call (some (.listed seen rest (newer newest (mtimeOf w.dir name))))
  | _ => w

def decideGuard (cfg : Config) (w : World) (call : ℕ) : World :=
  match w.calls call with
  | some (.listed seen [] newest) =>
    if guardBlocks cfg w.clock newest then w.setCall call none else w.setCall call (some (.waiting (some seen)))
  | _ => w

/-- The lock is taken and the archive gets its name. -/
def takeLock (cfg : Config) (w : World) (call : ℕ) : World :=
  match w.lock, w.calls call with
  | none, some (.waiting seen) =>
    { w.setCall call (some (.writing seen.isSome (archiveName cfg w.clock) false)) with lock := some call }
  | _, _ => w

/-- A write to the archive; the first one creates it. -/
def writeArchive (w : World) (call : ℕ) : World :=
  match w.calls call with
  | some (.writing scheduled name written) =>
    { w.setCall call (some (.writing scheduled name true)) with
      dir := writeFile w.dir name w.clock
      created := if scheduled && !written then w.clock :: w.created else w.created }
  | _ => w

/-- `prune_backups`, or what it does before it raises. -/
def pruneUntil (dir : List File) (retentionCount : ℕ) : Option ℕ → List File
  | none => pruneBackups dir retentionCount
  | some k => unlink dir ((pruned dir retentionCount).take k)

/-- The pruning and the end of the call: a success, or a failure after some files are gone. -/
def pruneAndEnd (cfg : Config) (w : World) (call : ℕ) (stopsAfter : Option ℕ) : World :=
  match w.calls call with
  | some (.writing _ _ true) =>
    { w.setCall call none with
      dir := pruneUntil w.dir cfg.retentionCount stopsAfter
      lock := none }
  | _ => w

/-- The call raises; what it wrote stays. -/
def failCall (w : World) (call : ℕ) : World :=
  match w.calls call with
  | some (.writing _ _ _) => { w.setCall call none with lock := none }
  | _ => w.setCall call none

def step (cfg : Config) (w : World) : Event → World
  | .tick d => { w with clock := w.clock + d }
  | .start call reason => startCall w call reason
  | .stat call => statNext w call
  | .decide call => decideGuard cfg w call
  | .lock call => takeLock cfg w call
  | .write call => writeArchive w call
  | .prune call stopsAfter => pruneAndEnd cfg w call stopsAfter
  | .fail call => failCall w call

/-- An archive the guard listed is still there when its time is read; between the listing and the
lock no other scheduled call creates an archive; and at the pruning fewer than `retentionCount`
archives have a greater name than the new one. -/
def Orderly (cfg : Config) (w : World) : Event → Prop
  | .stat call => ∀ seen name rest newest, w.calls call = some (.listed seen (name :: rest) newest) →
      name ∈ w.dir.map File.name
  | .lock call => ∀ seen, w.lock = none → w.calls call = some (.waiting (some seen)) → w.created.length = seen
  | .prune call _ => ∀ scheduled name, w.calls call = some (.writing scheduled name true) →
      (archives w.dir).countP (fun g ↦ name < g.name) < cfg.retentionCount
  | _ => True

/-- No scheduled archive was created after time `t`. -/
def Since (w : World) (t : ℤ) : Prop := ∀ x ∈ w.created, x ≤ t

/-- The files of that name are as young as the last scheduled archive. -/
def Young (w : World) (name : Text) : Prop := ∀ f ∈ w.dir, f.name = name → Since w f.mtime

def CallInv (cfg : Config) (w : World) (call : ℕ) : Phase → Prop
  | .listed seen remaining newest => seen ≤ w.created.length ∧ (w.created.length = seen → w.created ≠ [] →
      (∃ name ∈ remaining, Young w name) ∨ ∃ m, newest = some m ∧ Since w m)
  | .waiting none => True
  | .waiting (some seen) => seen ≤ w.created.length ∧ (w.created.length = seen → Since w (w.clock - cfg.interval))
  | .writing scheduled name written => w.lock = some call ∧ isArchive name = true ∧
      (written = true → ∃ f ∈ w.dir, f.name = name ∧ Since w f.mtime) ∧
      (scheduled = true → written = false → Since w (w.clock - cfg.interval))

structure Inv (cfg : Config) (w : World) : Prop where
  nodup : (w.dir.map File.name).Nodup
  past : Since w w.clock
  spaced : w.created.Pairwise fun later earlier ↦ earlier ≤ later - cfg.interval
  kept : w.created ≠ [] → ∃ f ∈ archives w.dir, Since w f.mtime
  calls : ∀ call phase, w.calls call = some phase → CallInv cfg w call phase

theorem Since.mono {w : World} {s t : ℤ} (h : Since w s) (hst : s ≤ t) : Since w t := fun x hx ↦ (h x hx).trans hst

theorem inv_init (cfg : Config) (clock : ℤ) {dir : List File} (h : (dir.map File.name).Nodup) :
    Inv cfg (World.init clock dir) := by
  refine ⟨h, ?_, List.Pairwise.nil, fun hn ↦ absurd rfl hn, ?_⟩
  · intro x hx
    cases hx
  · intro call phase hc
    cases hc

/-- A call that does not hold the lock keeps its invariant under the steps of the others. -/
theorem CallInv.other {cfg : Config} {w w' : World} {call : ℕ} {phase : Phase} (h : CallInv cfg w call phase)
    (hlock : w.lock ≠ some call) (hclock : w.clock ≤ w'.clock)
    (hcreated : w'.created = w.created ∨ w.created.length < w'.created.length)
    (hyoung : ∀ name, w'.created = w.created → Young w name → Young w' name) : CallInv cfg w' call phase := by
  cases phase with
  | writing scheduled name written => exact absurd h.1 hlock
  | waiting seen =>
    cases seen with
    | none => trivial
    | some seen =>
      rcases hcreated with hc | hc
      · refine ⟨hc ▸ h.1, fun hl ↦ ?_⟩
        have hs := (h.2 (hc ▸ hl)).mono (Int.sub_le_sub_right hclock cfg.interval)
        rwa [Since, hc]
      · exact ⟨h.1.trans hc.le, fun hl ↦ absurd (hl ▸ hc) (not_lt.mpr h.1)⟩
  | listed seen remaining newest =>
    rcases hcreated with hc | hc
    · refine ⟨hc ▸ h.1, fun hl hn ↦ ?_⟩
      rcases h.2 (hc ▸ hl) (hc ▸ hn) with ⟨name, hm, hy⟩ | ⟨m, hm, hs⟩
      · exact .inl ⟨name, hm, hyoung name hc hy⟩
      · exact .inr ⟨m, hm, by rwa [Since, hc]⟩
    · exact ⟨h.1.trans hc.le, fun hl ↦ absurd (hl ▸ hc) (not_lt.mpr h.1)⟩

theorem Inv.setCall {cfg : Config} {w : World} (h : Inv cfg w) (call : ℕ) {phase : Option Phase}
    (hp : ∀ p, phase = some p → CallInv cfg w call p) : Inv cfg (w.setCall call phase) where
  nodup := h.nodup
  past := h.past
  spaced := h.spaced
  kept := h.kept
  calls := forall_update (fun j p _ hj ↦ h.calls j p hj) hp

theorem Inv.tick {cfg : Config} {w : World} (h : Inv cfg w) (d : ℕ) : Inv cfg { w with clock := w.clock + d } where
  nodup := h.nodup
  past := h.past.mono (Int.le_add_of_nonneg_right (Int.natCast_nonneg d))
  spaced := h.spaced
  kept := h.kept
  calls call phase hc := by
    have hi := h.calls call phase hc
    have hlater : ∀ t : ℤ, w.clock - t ≤ w.clock + d - t := fun t ↦ by omega
    cases phase with
    | listed => exact hi
    | waiting seen =>
      cases seen with
      | none => trivial
      | some seen => exact ⟨hi.1, fun hl ↦ (hi.2 hl).mono (hlater _)⟩
    | writing => exact ⟨hi.1, hi.2.1, hi.2.2.1, fun hs hw ↦ (hi.2.2.2 hs hw).mono (hlater _)⟩

theorem Inv.start {cfg : Config} {w : World} (h : Inv cfg w) (call : ℕ) (reason : Text) :
    Inv cfg (startCall w call reason) := by
  unfold startCall
  split
  · split
    · exact h.setCall call (forall_some trivial)
    · refine h.setCall call (forall_some ?_)
      refine ⟨le_rfl, fun _ hn ↦ .inl ?_⟩
      obtain ⟨f, hf, hs⟩ := h.kept hn
      refine ⟨f.name, List.mem_map_of_mem (mem_iterArchives.mpr hf), fun g hg hgn ↦ ?_⟩
      rw [eq_of_name h.nodup hg (mem_archives.mp hf).1 hgn]
      exact hs
  · exact h

theorem Inv.stat {cfg : Config} {w : World} (h : Inv cfg w) (call : ℕ) (ho : Orderly cfg w (.stat call)) :
    Inv cfg (statNext w call) := by
  unfold statNext
  split
  · rename_i seen name rest newest hc
    obtain ⟨hle, hi⟩ := h.calls call _ hc
    refine h.setCall call (forall_some ?_)
    refine ⟨hle, fun hl hn ↦ ?_⟩
    have hkeep : ∀ m, newest = some m → Since w m →
        ∃ m', newer newest (mtimeOf w.dir name) = some m' ∧ Since w m' := by
      rintro m rfl hs
      cases mtimeOf w.dir name with
      | none => exact ⟨m, rfl, hs⟩
      | some mtime => exact ⟨max m mtime, rfl, hs.mono (le_max_left _ _)⟩
    rcases hi hl hn with ⟨young, hm, hy⟩ | ⟨m, hm, hs⟩
    · rcases List.mem_cons.mp hm with rfl | hm
      · obtain ⟨f, hf, rfl⟩ := List.mem_map.mp (ho seen young rest newest hc)
        have hs : Since w f.mtime := hy f hf rfl
        rw [mtimeOf_eq h.nodup hf]
        right
        cases newest with
        | none => exact ⟨f.mtime, rfl, hs⟩
        | some m => exact ⟨max m f.mtime, rfl, hs.mono (le_max_right _ _)⟩
      · exact .inl ⟨young, hm, hy⟩
    · exact .inr (hkeep m hm hs)
  · exact h

theorem Inv.decide {cfg : Config} {w : World} (h : Inv cfg w) (call : ℕ) : Inv cfg (decideGuard cfg w call) := by
  unfold decideGuard
  split
  · rename_i seen newest hc
    obtain ⟨hle, hi⟩ := h.calls call _ hc
    split
    · exact h.setCall call (by simp)
    · rename_i hpass
      refine h.setCall call (forall_some ?_)
      refine ⟨hle, fun hl ↦ ?_⟩
      by_cases hn : w.created = []
      · intro x hx
        rw [hn] at hx
        cases hx
      · rcases hi hl hn with ⟨_, hm, _⟩ | ⟨m, rfl, hs⟩
        · cases hm
        · refine hs.mono ?_
          simp only [guardBlocks, decide_eq_true_eq, not_lt] at hpass
          omega
  · exact h

theorem isArchive_archiveName (cfg : Config) (now : ℤ) : isArchive (archiveName cfg now) = true := by
  rw [isArchive, Bool.or_eq_true, archiveName]
  cases cfg.encrypts with
  | false =>
    left
    rw [if_neg Bool.false_ne_true, List.append_nil]
    exact matchesGlob_append _ _
  | true =>
    right
    rw [if_pos rfl]
    exact matchesGlob_append _ _

theorem Inv.lock {cfg : Config} {w : World} (h : Inv cfg w) (call : ℕ) (ho : Orderly cfg w (.lock call)) :
    Inv cfg (takeLock cfg w call) := by
  unfold takeLock
  split
  · rename_i seen hl hc
    refine ⟨h.nodup, h.past, h.spaced, h.kept, forall_update (fun j p _ hj ↦ ?_) (forall_some ?_)⟩
    · exact (h.calls j p hj).other (by simp [hl]) le_rfl (.inl rfl) fun _ _ hy ↦ hy
    · refine ⟨rfl, isArchive_archiveName cfg w.clock, by simp, fun hs _ ↦ ?_⟩
      cases seen with
      | none => cases hs
      | some seen =>
        obtain ⟨-, hi⟩ := h.calls call _ hc
        exact hi (ho seen hl hc)
  · exact h

theorem Inv.write {cfg : Config} {w : World} (h : Inv cfg w) (call : ℕ) : Inv cfg (writeArchive w call) := by
  unfold writeArchive
  split
  · rename_i scheduled name written hc
    obtain ⟨hl, ha, hw, hs⟩ := h.calls call _ hc
    have hmem : ∀ x ∈ (if scheduled && !written then w.clock :: w.created else w.created), x ≤ w.clock := by
      intro x hx
      split at hx
      · rcases List.mem_cons.mp hx with rfl | hx
        · exact le_rfl
        · exact h.past x hx
      · exact h.past x hx
    have hnew : (⟨name, w.clock⟩ : File) ∈ writeFile w.dir name w.clock := mem_writeFile.mpr (.inl rfl)
    refine ⟨nodup_writeFile h.nodup name w.clock, hmem, ?_, fun _ ↦ ⟨_, mem_archives.mpr ⟨hnew, ha⟩, hmem⟩,
      forall_update (fun j p hj hp ↦ ?_) (forall_some ?_)⟩
    · dsimp only
      split
      · rename_i hf
        simp only [Bool.and_eq_true, Bool.not_eq_true'] at hf
        exact List.pairwise_cons.mpr ⟨hs hf.1 hf.2, h.spaced⟩
      · exact h.spaced
    · refine (h.calls j p hp).other ?_ le_rfl ?_ ?_
      · rw [hl]
        exact fun he ↦ hj (Option.some.inj he).symm
      · dsimp only
        split
        · exact .inr (Nat.lt_succ_self _)
        · exact .inl rfl
      · intro n hcr hy f hf hfn
        rcases mem_writeFile.mp hf with rfl | ⟨hf, -⟩
        · exact hmem
        · have hy' := hy f hf hfn
          intro x hx
          exact hy' x (hcr ▸ hx)
    · exact ⟨hl, ha, fun _ ↦ ⟨_, hnew, rfl, hmem⟩, by simp⟩
  · exact h

/-- Whatever is unlinked, it is part of what a whole pruning unlinks. -/
theorem pruneUntil_eq (dir : List File) (retentionCount : ℕ) (stopsAfter : Option ℕ) :
    ∃ gone, gone ⊆ pruned dir retentionCount ∧ pruneUntil dir retentionCount stopsAfter = unlink dir gone := by
  cases stopsAfter with
  | none => exact ⟨_, List.Subset.refl _, rfl⟩
  | some k => exact ⟨_, List.take_subset _ _, rfl⟩

theorem Inv.prune {cfg : Config} {w : World} (h : Inv cfg w) (call : ℕ) (stopsAfter : Option ℕ)
    (ho : Orderly cfg w (.prune call stopsAfter)) : Inv cfg (pruneAndEnd cfg w call stopsAfter) := by
  unfold pruneAndEnd
  split
  · rename_i scheduled name hc
    obtain ⟨hl, ha, hw, -⟩ := h.calls call _ hc
    obtain ⟨f, hf, rfl, hs⟩ := hw rfl
    have hfa : f ∈ archives w.dir := mem_archives.mpr ⟨hf, ha⟩
    have hkept := (mem_pruneBackups_iff h.nodup hfa cfg.retentionCount).mpr (ho scheduled f.name hc)
    obtain ⟨gone, hgone, hdir⟩ := pruneUntil_eq w.dir cfg.retentionCount stopsAfter
    have hstay : f ∈ unlink w.dir gone := by
      refine mem_unlink.mpr ⟨hf, fun hn ↦ (mem_unlink.mp hkept).2 ?_⟩
      exact List.map_subset File.name hgone hn
    rw [hdir]
    refine ⟨nodup_unlink h.nodup gone, h.past, h.spaced, fun _ ↦ ⟨f, mem_archives.mpr ⟨hstay, ha⟩, hs⟩,
      forall_update_none fun j p hj hp ↦ ?_⟩
    refine (h.calls j p hp).other ?_ le_rfl (.inl rfl) fun n _ hy g hg hgn ↦ hy g (mem_unlink.mp hg).1 hgn
    rw [hl]
    exact fun he ↦ hj (Option.some.inj he).symm
  · exact h

theorem Inv.fail {cfg : Config} {w : World} (h : Inv cfg w) (call : ℕ) : Inv cfg (failCall w call) := by
  unfold failCall
  split
  · rename_i scheduled name written hc
    obtain ⟨hl, -⟩ := h.calls call _ hc
    refine ⟨h.nodup, h.past, h.spaced, h.kept, forall_update_none fun j p hj hp ↦ ?_⟩
    refine (h.calls j p hp).other ?_ le_rfl (.inl rfl) fun _ _ hy ↦ hy
    rw [hl]
    exact fun he ↦ hj (Option.some.inj he).symm
  · exact h.setCall call (by simp)

theorem Inv.step {cfg : Config} {w : World} {e : Event} (h : Inv cfg w) (ho : Orderly cfg w e) :
    Inv cfg (step cfg w e) := by
  cases e with
  | tick d => exact h.tick d
  | start call reason => exact h.start call reason
  | stat call => exact h.stat call ho
  | decide call => exact h.decide call
  | lock call => exact h.lock call ho
  | write call => exact h.write call
  | prune call stopsAfter => exact h.prune call stopsAfter ho
  | fail call => exact h.fail call

/-- A pruning that ends well leaves the new archive and at most `retentionCount` archives. -/
theorem prune_keeps {cfg : Config} {w : World} {call : ℕ} {scheduled : Bool} {name : Text} (h : Inv cfg w)
    (ho : Orderly cfg w (.prune call none)) (hc : w.calls call = some (.writing scheduled name true)) :
    name ∈ (pruneAndEnd cfg w call none).dir.map File.name ∧
      (archives (pruneAndEnd cfg w call none).dir).length ≤ cfg.retentionCount := by
  obtain ⟨-, ha, hw, -⟩ := h.calls call _ hc
  obtain ⟨f, hf, rfl, -⟩ := hw rfl
  have hkept := (mem_pruneBackups_iff h.nodup (mem_archives.mpr ⟨hf, ha⟩) cfg.retentionCount).mpr
    (ho scheduled f.name hc)
  simp only [pruneAndEnd, hc]
  exact ⟨List.mem_map_of_mem hkept, length_archives_pruneBackups h.nodup _⟩

/-- In an orderly run scheduled archives are created at least the interval apart, and each
successful call leaves its own archive and at most `retentionCount` archives. -/
theorem one_per_interval (cfg : Config) (clock : ℤ) (dir : List File) (events : List Event)
    (hdir : (dir.map File.name).Nodup) (h : Along (step cfg) (Orderly cfg) (World.init clock dir) events) :
    (run (step cfg) (World.init clock dir) events).created.Pairwise (fun later earlier ↦
      earlier ≤ later - cfg.interval) ∧
    ∀ before call scheduled name, before ++ [.prune call none] <+: events →
      (run (step cfg) (World.init clock dir) before).calls call = some (.writing scheduled name true) →
      let after := run (step cfg) (World.init clock dir) (before ++ [.prune call none])
      name ∈ after.dir.map File.name ∧ (archives after.dir).length ≤ cfg.retentionCount := by
  have hstep : ∀ w e, Inv cfg w → Orderly cfg w e → Inv cfg (step cfg w e) := fun w e hi ho ↦ hi.step ho
  refine ⟨(run_induction hstep (inv_init cfg clock hdir) h).spaced, ?_⟩
  intro before call scheduled name hb hc
  have hpre : before <+: events := (List.prefix_append _ _).trans hb
  have hi := run_prefix_induction hstep (inv_init cfg clock hdir) h hpre
  have ho := along_iff_each.mp h before (.prune call none) hb
  simp only [run_append, run_cons, run_nil]
  exact prune_keeps hi ho hc

example : utcStamp 1780000000000000000 = ("20260528T202640Z" : String).toList := by decide +kernel

def sixHourly : Config := ⟨1, 6, false⟩

def oldArchive : File := ⟨("briefr-20260101T000000Z.tar.gz" : String), 1767225600000000000⟩

def scheduledCall (call : ℕ) : List Event :=
  [.start call ("scheduled" : String), .stat call, .decide call, .lock call, .write call, .prune call none]

theorem one_per_interval_single :
    (run (step sixHourly) (World.init 1780000000000000000 [oldArchive]) (scheduledCall 0)).created.Pairwise
      (fun later earlier ↦ earlier ≤ later - sixHourly.interval) ∧
    ∀ before call scheduled name, before ++ [.prune call none] <+: scheduledCall 0 →
      (run (step sixHourly) (World.init 1780000000000000000 [oldArchive]) before).calls call =
        some (.writing scheduled name true) →
      let after := run (step sixHourly) (World.init 1780000000000000000 [oldArchive]) (before ++ [.prune call none])
      name ∈ after.dir.map File.name ∧ (archives after.dir).length ≤ sixHourly.retentionCount := by
  refine one_per_interval sixHourly 1780000000000000000 [oldArchive] (scheduledCall 0) (by simp)
    ⟨trivial, ?_, trivial, ?_, trivial, ?_, trivial⟩
  · rintro _ _ _ _ ⟨⟩
    exact .head _
  · rintro _ _ ⟨⟩
    rfl
  · rintro _ _ ⟨⟩
    decide +kernel

def futureArchive : File := ⟨("briefr-20990101T000000Z.tar.gz" : String), 1767225600000000000⟩

/-- Two calls that pass the guard before either takes the lock create two archives a minute apart.
Where an archive carries a stamp of the future, the new one is the one that is pruned. -/
theorem two_in_one_interval :
    ¬(run (step sixHourly) (World.init 1780000000000000000 [oldArchive])
      [.start 0 ("scheduled" : String), .stat 0, .decide 0, .start 1 ("scheduled" : String), .stat 1, .decide 1,
        .lock 0, .write 0, .prune 0 none, .tick 60000000000, .lock 1, .write 1]).created.Pairwise
      (fun later earlier ↦ earlier ≤ later - sixHourly.interval) ∧
    (run (step sixHourly) (World.init 1780000000000000000 [futureArchive]) (scheduledCall 0)).dir =
      [futureArchive] := by
  decide +kernel

end Briefr.Backup
