import Briefr.Library.FirstGreatest
import Briefr.Python.Datetime

namespace Briefr.Backup

open Briefr.Python Briefr.Library.StableSort

/-- An entry of the backup directory; times are in nanoseconds since the epoch. -/
structure File where
  name : Text
  mtime : ℤ
  deriving DecidableEq

def archivePrefix : Text := "briefr-"

def tarSuffix : Text := ".tar.gz"

def encryptedArchiveSuffix : Text := ".age"

/-- One of the two patterns of `ARCHIVE_GLOBS`. -/
def matchesGlob (suffix name : Text) : Bool :=
  archivePrefix.isPrefixOf name && suffix.isSuffixOf (name.drop archivePrefix.length)

def isArchive (name : Text) : Bool :=
  matchesGlob tarSuffix name || matchesGlob (tarSuffix ++ encryptedArchiveSuffix) name

def archives (dir : List File) : List File := dir.filter fun f ↦ isArchive f.name

/-- `_iter_archives`: newest first by name. -/
def newestFirst {α : Type} (name : α → Text) (dir : List α) : List α :=
  sortBy (fun f ↦ OrderDual.toDual (name f)) (dir.filter fun f ↦ isArchive (name f))

def iterArchives (dir : List File) : List File := newestFirst File.name dir

/-- The archives that `prune_backups` unlinks, in its order. -/
def pruned (dir : List File) (retentionCount : ℕ) : List File := (iterArchives dir).drop retentionCount

def unlink (dir : List File) (gone : List File) : List File :=
  dir.filter fun f ↦ f.name ∉ gone.map File.name

def pruneBackups (dir : List File) (retentionCount : ℕ) : List File := unlink dir (pruned dir retentionCount)

/-- A file is created, or an existing one of that name is overwritten. -/
def writeFile (dir : List File) (name : Text) (now : ℤ) : List File :=
  if name ∈ dir.map File.name then dir.map fun f ↦ if f.name = name then { f with mtime := now } else f
  else dir ++ [⟨name, now⟩]

/-- `st_mtime`, or the `OSError` of a file that is gone. -/
def mtimeOf (dir : List File) (name : Text) : Option ℤ := (dir.find? fun f ↦ f.name == name).map File.mtime

theorem matchesGlob_append (stamp suffix : Text) : matchesGlob suffix (archivePrefix ++ (stamp ++ suffix)) = true := by
  rw [matchesGlob, List.drop_left, Bool.and_eq_true, List.isPrefixOf_iff_prefix, List.isSuffixOf_iff_suffix]
  exact ⟨List.prefix_append _ _, List.suffix_append _ _⟩

theorem mem_archives {dir : List File} {f : File} : f ∈ archives dir ↔ f ∈ dir ∧ isArchive f.name = true :=
  List.mem_filter

theorem iterArchives_eq (dir : List File) :
    iterArchives dir = sortBy (fun f ↦ OrderDual.toDual f.name) (archives dir) := rfl

theorem mem_iterArchives {dir : List File} {f : File} : f ∈ iterArchives dir ↔ f ∈ archives dir :=
  (perm_sortBy _ _).mem_iff

theorem mem_unlink {dir gone : List File} {f : File} : f ∈ unlink dir gone ↔ f ∈ dir ∧ f.name ∉ gone.map File.name := by
  simp [unlink]

theorem nodup_unlink {dir : List File} (h : (dir.map File.name).Nodup) (gone : List File) :
    ((unlink dir gone).map File.name).Nodup := h.sublist (List.filter_sublist.map File.name)

theorem nodup_archives {dir : List File} (h : (dir.map File.name).Nodup) : ((archives dir).map File.name).Nodup :=
  h.sublist (List.filter_sublist.map File.name)

theorem nodup_iterArchives {dir : List File} (h : (dir.map File.name).Nodup) :
    ((iterArchives dir).map File.name).Nodup :=
  ((perm_sortBy _ _).map File.name).nodup_iff.mpr (nodup_archives h)

theorem eq_of_name {dir : List File} (h : (dir.map File.name).Nodup) {f g : File} (hf : f ∈ dir) (hg : g ∈ dir)
    (hn : f.name = g.name) : f = g := List.inj_on_of_nodup_map h hf hg hn

/-- What is unlinked is not among the newest `retentionCount` by name, and no other file has its name. -/
theorem name_mem_pruned_iff {dir : List File} (h : (dir.map File.name).Nodup) {f : File} (hf : f ∈ archives dir)
    (retentionCount : ℕ) :
    f.name ∈ (pruned dir retentionCount).map File.name ↔ f ∉ (iterArchives dir).take retentionCount := by
  have hnd := nodup_iterArchives h
  rw [← List.take_append_drop retentionCount (iterArchives dir), List.map_append, List.nodup_append] at hnd
  have hmem : f ∈ (iterArchives dir).take retentionCount ∨ f ∈ pruned dir retentionCount := by
    rw [pruned, ← List.mem_append, List.take_append_drop]
    exact mem_iterArchives.mpr hf
  constructor
  · intro hn ht
    exact hnd.2.2 f.name (List.mem_map_of_mem ht) f.name hn rfl
  · intro ht
    exact List.mem_map_of_mem (hmem.resolve_left ht)

/-- An archive survives exactly when fewer than `retentionCount` have a greater name. -/
theorem mem_pruneBackups_iff {dir : List File} (h : (dir.map File.name).Nodup) {f : File} (hf : f ∈ archives dir)
    (retentionCount : ℕ) :
    f ∈ pruneBackups dir retentionCount ↔
      (archives dir).countP (fun g ↦ f.name < g.name) < retentionCount := by
  have hkept : f ∈ pruneBackups dir retentionCount ↔ f ∈ (iterArchives dir).take retentionCount := by
    rw [pruneBackups, mem_unlink, name_mem_pruned_iff h hf, not_not]
    exact and_iff_right (mem_archives.mp hf).1
  rw [hkept, iterArchives_eq,
    Library.Oldest.mem_take_iff (fun g : File ↦ OrderDual.toDual g.name) (nodup_archives h) hf]
  refine iff_of_eq (congrArg (· < retentionCount) (List.countP_congr fun g _ ↦ ?_))
  simp only [OrderDual.toDual_lt_toDual, decide_eq_true_eq]

theorem length_archives_pruneBackups {dir : List File} (h : (dir.map File.name).Nodup) (retentionCount : ℕ) :
    (archives (pruneBackups dir retentionCount)).length ≤ retentionCount := by
  have hsub : archives (pruneBackups dir retentionCount) ⊆ (iterArchives dir).take retentionCount := by
    intro f hf
    obtain ⟨hm, ha⟩ := mem_archives.mp hf
    obtain ⟨hd, hn⟩ := mem_unlink.mp hm
    have hfa := mem_archives.mpr ⟨hd, ha⟩
    by_contra ht
    exact hn ((name_mem_pruned_iff h hfa retentionCount).mpr ht)
  have hnd : (archives (pruneBackups dir retentionCount)).Nodup :=
    (nodup_archives (nodup_unlink h _)).of_map
  exact (List.subperm_of_subset hnd hsub).length_le.trans (List.length_take_le _ _)

theorem names_writeFile (dir : List File) (name : Text) (now : ℤ) :
    (writeFile dir name now).map File.name =
      if name ∈ dir.map File.name then dir.map File.name else dir.map File.name ++ [name] := by
  unfold writeFile
  split
  · rw [List.map_map]
    refine List.map_congr_left fun f _ ↦ ?_
    simp only [Function.comp]
    split <;> rfl
  · simp

theorem nodup_writeFile {dir : List File} (h : (dir.map File.name).Nodup) (name : Text) (now : ℤ) :
    ((writeFile dir name now).map File.name).Nodup := by
  rw [names_writeFile]
  split
  · exact h
  · rename_i hn
    rw [List.nodup_append]
    exact ⟨h, by simp, fun a ha b hb ↦ by rintro rfl; exact hn ((List.mem_singleton.mp hb) ▸ ha)⟩

/-- A file of the directory after a write is the written one or one of another name, as it was. -/
theorem mem_writeFile {dir : List File} {name : Text} {now : ℤ} {f : File} :
    f ∈ writeFile dir name now ↔ f = ⟨name, now⟩ ∨ (f ∈ dir ∧ f.name ≠ name) := by
  unfold writeFile
  split
  · rename_i hn
    rw [List.mem_map]
    constructor
    · intro ⟨g, hg, he⟩
      split at he
      · rename_i hgn
        exact .inl (by rw [← he, ← hgn])
      · exact .inr ⟨he ▸ hg, he ▸ ‹_›⟩
    · rintro (rfl | ⟨hf, hne⟩)
      · obtain ⟨g, hg, hgn⟩ := List.mem_map.mp hn
        exact ⟨g, hg, by rw [if_pos hgn, ← hgn]⟩
      · exact ⟨f, hf, by rw [if_neg hne]⟩
  · rename_i hn
    rw [List.mem_append, List.mem_singleton]
    constructor
    · rintro (hf | hf)
      · exact .inr ⟨hf, fun he ↦ hn (he ▸ List.mem_map_of_mem hf)⟩
      · exact .inl hf
    · rintro (hf | ⟨hf, -⟩)
      · exact .inr hf
      · exact .inl hf

theorem mtimeOf_eq {dir : List File} (h : (dir.map File.name).Nodup) {f : File} (hf : f ∈ dir) :
    mtimeOf dir f.name = some f.mtime := by
  unfold mtimeOf
  cases hfind : dir.find? fun g ↦ g.name == f.name with
  | none => exact absurd (List.find?_eq_none.mp hfind f hf) (by simp)
  | some g =>
    have hg := List.mem_of_find?_eq_some hfind
    have hn : g.name = f.name := by simpa using List.find?_some hfind
    rw [eq_of_name h hg hf hn, Option.map_some]

end Briefr.Backup
