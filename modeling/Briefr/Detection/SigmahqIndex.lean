import Briefr.Library.SerialTable
import Briefr.Python.Value

namespace Briefr.Detection.SigmahqIndex

open Briefr.Python Briefr.Library

abbrev Bytes := List UInt8

/-- What `yaml.safe_load` does; of a mapping only the string keys are read here. -/
inductive Loaded
  | mapping (keys : List Text)
  | other
  | yamlError
  | raised

/-- A file of the extracted tree; reading it can fail with an `OSError`. -/
structure File where
  path : Text
  bytes : Option Bytes

/-- The files in the order in which they are visited. -/
structure Tree where
  files : List File
  distinct : (files.map File.path).Nodup

/-- PyYAML, the hash of a file's bytes, and `extract_archive_to`; `none` is an archive that cannot be extracted. -/
class Sigma where
  safeLoad : Text → Loaded
  sha256 : Bytes → Text
  extract : Bytes → Option Tree

export Sigma (safeLoad sha256)

def maxRuleBytes : ℕ := 256 * 1024

def batchSize : ℕ := 100

def ruleTreePrefixes : List Text :=
  ["rules/".toList, "rules-emerging-threats/".toList, "rules-threat-hunting/".toList, "rules-compliance/".toList]

def isRulePath (repoPath : Text) : Bool :=
  let p := (repoPath.map fun c ↦ if c = '\\' then '/' else c).dropWhile fun c ↦ c = '.' || c = '/'
  (".yml".toList.isSuffixOf p || ".yaml".toList.isSuffixOf p) && ruleTreePrefixes.any fun pre ↦ pre.isPrefixOf p

def iterRuleFiles (tree : Tree) : List File := tree.files.filter fun f ↦ isRulePath f.path

/-- `raw.decode("utf-8")`. -/
def decodeUtf8 (raw : Bytes) : Option Text := (String.fromUTF8? ⟨raw.toArray⟩).map String.toList

/-- The columns of a rule that decide what happens to it. -/
structure ParsedRule where
  repoPath : Text
  contentYaml : Text
  contentSha256 : Text
  commitSha : Text

/-- A row of `detection_rules`, whose `source` is always `sigmahq`. -/
structure DetectionRule extends ParsedRule where
  id : ℕ
  retiredAt : Option Text

abbrev Table := SerialTable DetectionRule Text DetectionRule.id fun row ↦ row.repoPath

def DetectionRule.active (row : DetectionRule) : Bool := row.retiredAt.isNone

inductive Parsed
  | raised
  | skipped
  | rule (r : ParsedRule)

structure ApplyStats where
  seen : ℕ := 0
  upserted : ℕ := 0
  skippedUnchanged : ℕ := 0
  parseErrors : ℕ := 0
  retired : ℕ := 0
  failed : Bool := false
  error : Text := []

/-- What the statements for one rule come to: they take effect, they leave no row of the path to be found, or one of
them raises. -/
inductive Outcome
  | done
  | lost
  | raised (message : Text)
  deriving DecidableEq

/-- The commit that is applied, and what the database does in the course of it. -/
structure Env where
  commitSha : Text
  outcome : Text → Outcome
  retirePass : Option Text
  now : Text

/-- What is committed, and what the open transaction sees. -/
structure Session where
  committed : Table
  working : Table

def Session.commit (db : Session) : Session := { db with committed := db.working }

def Session.rollback (db : Session) : Session := { db with working := db.committed }

structure Loop where
  db : Session
  stats : ApplyStats
  seenPaths : List Text
  batch : ℕ

/-- The loop is left: with `failed` set, or by an exception that escapes. -/
inductive Stop
  | failed (db : Session) (stats : ApplyStats)
  | escaped (db : Session)

def overwrite (rule : ParsedRule) (row : DetectionRule) : DetectionRule :=
  if row.repoPath = rule.repoPath then
    { row with
      contentYaml := rule.contentYaml, contentSha256 := rule.contentSha256, commitSha := rule.commitSha
      retiredAt := none }
  else row

theorem overwrite_id (rule : ParsedRule) (row : DetectionRule) : (overwrite rule row).id = row.id := by
  rw [overwrite]; split <;> rfl

theorem overwrite_repoPath (rule : ParsedRule) (row : DetectionRule) : (overwrite rule row).repoPath = row.repoPath := by
  rw [overwrite]; split <;> rfl

/-- `INSERT … ON CONFLICT (source, repo_path) DO UPDATE … WHERE` the row is retired or differs. -/
def upsertRule (t : Table) (rule : ParsedRule) : Table :=
  if h : rule.repoPath ∈ t.rows.map fun row ↦ row.repoPath then
    let same := (t.lookup rule.repoPath).any fun row ↦
      row.contentSha256 = rule.contentSha256 && row.commitSha = rule.commitSha && row.active
    if same then t.skip else (t.update (overwrite rule) (overwrite_id rule) (overwrite_repoPath rule)).skip
  else t.insert { rule with id := t.nextId, retiredAt := none } rfl h

def Loop.parseError (s : Loop) : Loop := { s with stats := { s.stats with parseErrors := s.stats.parseErrors + 1 } }

/-- The end of the loop body: the counts, and a commit for each full batch. -/
def Loop.upserted (s : Loop) (unchanged : Bool) : Loop :=
  let stats :=
    if unchanged then { s.stats with skippedUnchanged := s.stats.skippedUnchanged + 1 }
    else { s.stats with upserted := s.stats.upserted + 1 }
  if batchSize ≤ s.batch + 1 then { s with stats := stats, db := s.db.commit, batch := 0 }
  else { s with stats := stats, batch := s.batch + 1 }

section
variable [Sigma]

def parseSigmaFile (repoPath content commitSha : Text) (raw : Bytes) : Parsed :=
  if maxRuleBytes < raw.length then .skipped
  else
    match safeLoad content with
    | .raised => .raised
    | .yamlError | .other => .skipped
    | .mapping keys =>
      if "detection".toList ∉ keys ∧ "logsource".toList ∉ keys then .skipped
      else .rule ⟨repoPath, content, sha256 raw, commitSha⟩

def File.decoded (f : File) : Option (Bytes × Text) := f.bytes.bind fun raw ↦ (decodeUtf8 raw).map fun text ↦ (raw, text)

def applyRule (env : Env) (s : Loop) (rule : ParsedRule) : Except Stop Loop :=
  let s := { s with
    stats := { s.stats with seen := s.stats.seen + 1 }, seenPaths := s.seenPaths ++ [rule.repoPath] }
  match env.outcome rule.repoPath with
  | .raised message => .error (.failed s.db.rollback { s.stats with failed := true, error := message })
  | .lost =>
    let gone (row : DetectionRule) : Bool := row.repoPath = rule.repoPath
    .ok { s with db := ⟨s.db.committed.delete gone, s.db.working.delete gone⟩ }.parseError
  | .done =>
    let unchanged := (s.db.working.lookup rule.repoPath).any fun row ↦
      row.contentSha256 = rule.contentSha256 && row.active
    .ok ({ s with db := { s.db with working := upsertRule s.db.working rule } }.upserted unchanged)

def applyFile (env : Env) (s : Loop) (f : File) : Except Stop Loop :=
  match f.decoded with
  | none => .ok s.parseError
  | some (raw, text) =>
    match parseSigmaFile f.path text env.commitSha raw with
    | .raised => .error (.escaped s.db)
    | .skipped =>
      match safeLoad text with
      | .raised => .error (.escaped s.db)
      | .yamlError => .ok s.parseError
      | .mapping _ | .other => .ok s
    | .rule rule => applyRule env s rule

/-- The ids of the active rules that were not seen. -/
def unseenIds (t : Table) (seenPaths : List Text) : List ℕ :=
  ((t.rows.filter DetectionRule.active).filter fun row ↦ row.repoPath ∉ seenPaths).map DetectionRule.id

def retireIn (now : Text) (ids : List ℕ) (row : DetectionRule) : DetectionRule :=
  if row.id ∈ ids then { row with retiredAt := some now } else row

omit [Sigma] in
theorem retireIn_id (now : Text) (ids : List ℕ) (row : DetectionRule) : (retireIn now ids row).id = row.id := by
  rw [retireIn]; split <;> rfl

omit [Sigma] in
theorem retireIn_repoPath (now : Text) (ids : List ℕ) (row : DetectionRule) :
    (retireIn now ids row).repoPath = row.repoPath := by
  rw [retireIn]; split <;> rfl

/-- One `UPDATE … WHERE id = …` for each of the ids. -/
def retire (now : Text) (ids : List ℕ) (t : Table) : Table :=
  t.update (retireIn now ids) (retireIn_id now ids) (retireIn_repoPath now ids)

/-- What the loop leaves to the code after it. -/
def finishApply (env : Env) (failOnParseErrors : Bool) (s : Loop) : ApplyStats × Session :=
  let db := if s.batch = 0 then s.db else s.db.commit
  if failOnParseErrors && s.stats.parseErrors != 0 then
    ({ s.stats with
        failed := true, error := (toString s.stats.parseErrors).toList ++ " parse error(s)".toList }, db)
  else
    match env.retirePass with
    | some message => ({ s.stats with failed := true, error := message }, db.rollback)
    | none =>
      let ids := unseenIds db.working s.seenPaths
      ({ s.stats with retired := ids.length },
        { db with working := retire env.now ids db.working }.commit)

/-- `none` is an exception that escapes. -/
def applyRulesFromDir (env : Env) (t : Table) (tree : Tree) (failOnParseErrors : Bool) : Option ApplyStats × Session :=
  match (iterRuleFiles tree).foldlM (applyFile env) ⟨⟨t, t⟩, {}, [], 0⟩ with
  | .ok s =>
    let (stats, db) := finishApply env failOnParseErrors s
    (some stats, db)
  | .error (.failed db stats) => (some stats, db)
  | .error (.escaped db) => (none, db)

end

/-- The stored identity of the archive that was applied; a missing entry is empty. -/
structure Identity where
  sha256 : Text
  commitSha : Text
  syncedAt : Text

structure Store where
  rules : Table
  identity : Option Identity

def identityMatches (stored : Option Identity) (sha256 : Text) : Bool := stored.any fun i ↦ i.sha256 = sha256

def commitIdentityMatches (stored : Option Identity) (commitSha : Text) : Bool :=
  stored.any fun i ↦ i.commitSha = commitSha

inductive SyncStatus
  | applied
  | skippedCommit
  | skippedSha
  | failed
  deriving DecidableEq

structure SyncResult where
  status : SyncStatus
  commitSha : Text := []
  archiveSha256 : Text := []
  stats : ApplyStats := {}
  message : Text := []

/-- The arguments of a sync, the tip commit that it resolves and the archive that it downloads, if it does. -/
structure SyncInput where
  force : Bool
  tipCommit : Text
  extractRoot : Option Tree
  archiveBytes : Option Bytes
  downloaded : Option Bytes
  syncedAt : Text

def SyncInput.archive (input : SyncInput) : Option Bytes := input.archiveBytes <|> input.downloaded

/-- How a sync goes on after its checks. -/
inductive Route
  | stop (result : SyncResult)
  | refresh (digest : Text)
  | apply (digest : Text) (root : Tree)
  | escaped

section
variable [Sigma]

def SyncInput.tree (input : SyncInput) : Option Tree := input.extractRoot <|> input.archive.bind Sigma.extract

/-- `sync_sigmahq_index` up to the apply. -/
def route (stored : Option Identity) (input : SyncInput) : Route :=
  if input.tipCommit = [] then
    .stop { status := .failed, message := "Could not resolve SigmaHQ tip commit".toList }
  else if !input.force && input.extractRoot.isNone && input.archiveBytes.isNone &&
      commitIdentityMatches stored input.tipCommit then
    .stop {
      status := .skippedCommit, commitSha := input.tipCommit, archiveSha256 := (stored.map Identity.sha256).getD []
      message := "Tip commit unchanged — skip download/apply".toList }
  else
    match input.extractRoot with
    | some root =>
      let known := (stored.map Identity.sha256).getD []
      .apply (if known = [] then "fixture:".toList ++ input.tipCommit else known) root
    | none =>
      match input.archive with
      | none => .stop { status := .failed, commitSha := input.tipCommit, message := "Archive download failed".toList }
      | some archive =>
        if !input.force && identityMatches stored (sha256 archive) && commitIdentityMatches stored input.tipCommit then
          .refresh (sha256 archive)
        else
          match Sigma.extract archive with
          | none => .escaped
          | some root => .apply (sha256 archive) root

/-- `none` is an exception that escapes. -/
def syncSigmahqIndex (env : Env) (store : Store) (input : SyncInput) : Option SyncResult × Store :=
  match route store.identity input with
  | .stop result => (some result, store)
  | .escaped => (none, store)
  | .refresh digest =>
    (some {
        status := .skippedSha, commitSha := input.tipCommit, archiveSha256 := digest
        message := "Archive sha256 unchanged — skip parse/apply".toList },
      { store with identity := some ⟨digest, input.tipCommit, input.syncedAt⟩ })
  | .apply digest root =>
    match applyRulesFromDir { env with commitSha := input.tipCommit } store.rules root false with
    | (none, db) => (none, { store with rules := db.committed })
    | (some stats, db) =>
      if stats.failed then
        (some {
            status := .failed, commitSha := input.tipCommit, archiveSha256 := digest, stats := stats
            message := if stats.error = [] then "Apply failed".toList else stats.error },
          { store with rules := db.committed })
      else
        (some {
            status := .applied, commitSha := input.tipCommit, archiveSha256 := digest, stats := stats
            message := "Applied ".toList ++ (toString stats.upserted).toList ++ " upserts, ".toList ++
              (toString stats.retired).toList ++ " retired".toList },
          ⟨db.committed, some ⟨digest, input.tipCommit, input.syncedAt⟩⟩)

/-- What a file comes to: a rule, a parse error, nothing at all, or an exception. -/
inductive Verdict
  | rule (r : ParsedRule)
  | error
  | ignored
  | raised

def File.verdict (commitSha : Text) (f : File) : Verdict :=
  match f.decoded with
  | none => .error
  | some (raw, text) =>
    match parseSigmaFile f.path text commitSha raw, safeLoad text with
    | .rule rule, _ => .rule rule
    | .raised, _ | .skipped, .raised => .raised
    | .skipped, .yamlError => .error
    | .skipped, _ => .ignored

theorem applyFile_eq (env : Env) (s : Loop) (f : File) :
    applyFile env s f =
      match f.verdict env.commitSha with
      | .rule rule => applyRule env s rule
      | .error => .ok s.parseError
      | .ignored => .ok s
      | .raised => .error (.escaped s.db) := by
  rw [applyFile, File.verdict]
  cases f.decoded with
  | none => rfl
  | some content =>
    cases hp : parseSigmaFile f.path content.2 env.commitSha content.1 with
    | skipped => cases hl : safeLoad content.2 <;> simp only [hp, hl]
    | _ => simp only [hp]

/-- The file is a rule that can be read. -/
def File.Parses (commitSha : Text) (f : File) (r : ParsedRule) : Prop :=
  ∃ raw text, f.decoded = some (raw, text) ∧ parseSigmaFile f.path text commitSha raw = .rule r

theorem verdict_eq_rule {commitSha : Text} {f : File} {r : ParsedRule} :
    f.verdict commitSha = .rule r ↔ f.Parses commitSha r := by
  rw [File.verdict, File.Parses]
  cases f.decoded with
  | none => simp
  | some content =>
    simp only [Option.some.injEq]
    constructor
    · intro h
      refine ⟨content.1, content.2, rfl, ?_⟩
      split at h <;> simp_all
    · intro ⟨raw, text, hc, h⟩
      rw [hc] at *
      simp only [h]

end

/-- The content hash of the row of a path, and whether the row is active. -/
def look (t : Table) (path : Text) : Option (Text × Bool) :=
  (t.lookup path).map fun row ↦ (row.contentSha256, row.active)

theorem look_of_mem {t : Table} {row : DetectionRule} (h : row ∈ t.rows) :
    look t row.repoPath = some (row.contentSha256, row.active) := by
  rw [look, SerialTable.lookup_eq_some.mpr ⟨h, rfl⟩, Option.map_some]

theorem look_eq_some {t : Table} {path sha : Text} {active : Bool} :
    look t path = some (sha, active) ↔
      ∃ row ∈ t.rows, row.repoPath = path ∧ row.contentSha256 = sha ∧ row.active = active := by
  constructor
  · intro h
    obtain ⟨row, hrow, he⟩ := Option.map_eq_some_iff.mp h
    obtain ⟨hmem, hpath⟩ := SerialTable.lookup_eq_some.mp hrow
    exact ⟨row, hmem, hpath, congrArg Prod.fst he, congrArg Prod.snd he⟩
  · intro ⟨row, hmem, hpath, hsha, ha⟩
    rw [← hpath, look_of_mem hmem, hsha, ha]

theorem look_upsertRule (t : Table) (rule : ParsedRule) (path : Text) :
    look (upsertRule t rule) path = if path = rule.repoPath then some (rule.contentSha256, true) else look t path := by
  rw [upsertRule]
  split
  · next h =>
    obtain ⟨old, hold, hpath⟩ := List.mem_map.mp h
    have hlook : t.lookup rule.repoPath = some old := SerialTable.lookup_eq_some.mpr ⟨hold, hpath⟩
    simp only [hlook, Option.any_some]
    split
    · next hsame =>
      simp only [Bool.and_eq_true, decide_eq_true_eq] at hsame
      by_cases hp : path = rule.repoPath
      · rw [if_pos hp, hp, look, SerialTable.lookup_skip, hlook, Option.map_some, hsame.1.1, hsame.2]
      · rw [if_neg hp]
        rfl
    · rw [look, SerialTable.lookup_skip, SerialTable.lookup_update, Option.map_map]
      by_cases hp : path = rule.repoPath
      · rw [if_pos hp, hp, hlook, Option.map_some, Function.comp_apply, overwrite, if_pos hpath]
        rfl
      · rw [if_neg hp, look]
        cases hl : t.lookup path with
        | none => rfl
        | some row =>
          have hne : row.repoPath ≠ rule.repoPath := (SerialTable.lookup_eq_some.mp hl).2 ▸ hp
          rw [Option.map_some, Function.comp_apply, overwrite, if_neg hne, Option.map_some]
  · next h =>
    rw [look, SerialTable.lookup_insert]
    by_cases hp : path = rule.repoPath
    · rw [if_pos hp, if_pos hp]
      rfl
    · rw [if_neg hp, if_neg hp]
      rfl

theorem look_delete (t : Table) (gone path : Text) :
    look (t.delete fun row ↦ decide (row.repoPath = gone)) path = if path = gone then none else look t path := by
  rw [look, SerialTable.lookup_delete, look]
  cases hl : t.lookup path with
  | none => simp
  | some row =>
    have hpath : row.repoPath = path := (SerialTable.lookup_eq_some.mp hl).2
    by_cases hp : path = gone <;> simp [Option.filter, hpath, hp]

theorem mem_unseenIds {t : Table} {seenPaths : List Text} {row : DetectionRule} (h : row ∈ t.rows) :
    row.id ∈ unseenIds t seenPaths ↔ row.active = true ∧ row.repoPath ∉ seenPaths := by
  rw [unseenIds, List.mem_map]
  constructor
  · intro ⟨row', hrow', hid⟩
    obtain ⟨hrow', hs⟩ := List.mem_filter.mp hrow'
    obtain ⟨hrow', ha⟩ := List.mem_filter.mp hrow'
    obtain rfl := t.eq_of_id hrow' h hid
    exact ⟨ha, by simpa using hs⟩
  · intro ⟨ha, hs⟩
    exact ⟨row, List.mem_filter.mpr ⟨List.mem_filter.mpr ⟨h, ha⟩, by simpa using hs⟩, rfl⟩

theorem look_retire (now : Text) (t : Table) (seenPaths : List Text) (path : Text) :
    look (retire now (unseenIds t seenPaths) t) path =
      if path ∈ seenPaths then look t path else (look t path).map fun seen ↦ (seen.1, false) := by
  rw [look, retire, SerialTable.lookup_update, look]
  cases hl : t.lookup path with
  | none => simp
  | some row =>
    obtain ⟨hmem, hpath⟩ := SerialTable.lookup_eq_some.mp hl
    have hid : row.id ∈ unseenIds t seenPaths ↔ _ := mem_unseenIds hmem
    rw [hpath] at hid
    simp only [Option.map_some, retireIn, hid]
    by_cases hs : path ∈ seenPaths
    · rw [if_pos hs, if_neg fun h ↦ h.2 hs]
    · cases ha : row.active with
      | false => simp [hs, ha]
      | true => simp [hs, DetectionRule.active]

section
variable [Sigma]

theorem File.Parses.repoPath {commitSha : Text} {f : File} {r : ParsedRule} (h : f.Parses commitSha r) :
    r.repoPath = f.path := by
  obtain ⟨raw, text, -, hp⟩ := h
  rw [parseSigmaFile] at hp
  split at hp
  · cases hp
  · split at hp
    · cases hp
    · cases hp
    · cases hp
    · split at hp
      · cases hp
      · injection hp with hp
        rw [← hp]

theorem File.Parses.eq {commitSha : Text} {f : File} {r r' : ParsedRule} (h : f.Parses commitSha r)
    (h' : f.Parses commitSha r') : r = r' := by
  obtain ⟨raw, text, hd, hp⟩ := h
  obtain ⟨raw', text', hd', hp'⟩ := h'
  obtain ⟨rfl, rfl⟩ := Prod.mk.inj (Option.some.inj (hd.symm.trans hd'))
  exact Parsed.rule.inj (hp.symm.trans hp')

/-- Nothing that the file leads to raises. -/
def Passes (env : Env) (f : File) : Prop :=
  f.verdict env.commitSha ≠ .raised ∧ ∀ r, f.Parses env.commitSha r → ∀ message, env.outcome f.path ≠ .raised message

/-- The file counts as a parse error. -/
def IsParseError (env : Env) (f : File) : Prop :=
  f.verdict env.commitSha = .error ∨ ((∃ r, f.Parses env.commitSha r) ∧ env.outcome f.path = .lost)

/-- What the loop makes of its state with the rest of the files. -/
structure Visits (env : Env) (files : List File) (s s' : Loop) : Prop where
  seen : ∀ path, path ∈ s'.seenPaths ↔ path ∈ s.seenPaths ∨ ∃ f ∈ files, f.path = path ∧ ∃ r, f.Parses env.commitSha r
  rule : ∀ f ∈ files, ∀ r, f.Parses env.commitSha r →
    look s'.db.working f.path = if env.outcome f.path = .lost then none else some (r.contentSha256, true)
  other : ∀ path, (∀ f ∈ files, f.path = path → ∀ r, ¬f.Parses env.commitSha r) →
    look s'.db.working path = look s.db.working path
  errors : s'.stats.parseErrors = 0 ↔ s.stats.parseErrors = 0 ∧ ∀ f ∈ files, ¬IsParseError env f
  failed : s'.stats.failed = s.stats.failed

theorem File.verdict_cases (commitSha : Text) (f : File) :
    (∃ r, f.verdict commitSha = .rule r ∧ f.Parses commitSha r) ∨
      (∀ r, ¬f.Parses commitSha r) ∧
        (f.verdict commitSha = .error ∨ f.verdict commitSha = .ignored ∨ f.verdict commitSha = .raised) := by
  have hno : (∀ r, f.verdict commitSha ≠ .rule r) → ∀ r, ¬f.Parses commitSha r := fun h r hr ↦ h r (verdict_eq_rule.mpr hr)
  cases hv : f.verdict commitSha with
  | rule r => exact .inl ⟨r, rfl, verdict_eq_rule.mp hv⟩
  | error => exact .inr ⟨hno fun r ↦ by simp [hv], .inl rfl⟩
  | ignored => exact .inr ⟨hno fun r ↦ by simp [hv], .inr (.inl rfl)⟩
  | raised => exact .inr ⟨hno fun r ↦ by simp [hv], .inr (.inr rfl)⟩

theorem Visits.of_not_parses {env : Env} {f : File} {s s' : Loop} (h : ∀ r, ¬f.Parses env.commitSha r)
    (hseen : s'.seenPaths = s.seenPaths) (hdb : s'.db = s.db) (hfailed : s'.stats.failed = s.stats.failed)
    (herrors : s'.stats.parseErrors = 0 ↔ s.stats.parseErrors = 0 ∧ f.verdict env.commitSha ≠ .error) :
    Visits env [f] s s' where
  seen path := by simp [hseen, h]
  rule f' hf r hr := by
    rw [List.mem_singleton.mp hf] at hr
    exact absurd hr (h r)
  other path _ := by rw [hdb]
  errors := by simp [herrors, IsParseError, h]
  failed := hfailed

theorem seen_of_parses {env : Env} {f : File} {r : ParsedRule} (h : f.Parses env.commitSha r) (seen : List Text)
    (path : Text) :
    path ∈ seen ++ [r.repoPath] ↔ path ∈ seen ∨ ∃ f' ∈ [f], f'.path = path ∧ ∃ r, f'.Parses env.commitSha r := by
  simp only [List.mem_append, List.mem_singleton, exists_eq_left, h.repoPath]
  refine or_congr_right ?_
  constructor
  · intro hp
    exact ⟨hp.symm, r, h⟩
  · intro ⟨hp, _⟩
    exact hp.symm

theorem applyRule_visits {env : Env} {f : File} {r : ParsedRule} {s s' : Loop} (h : f.Parses env.commitSha r)
    (hs : applyRule env s r = .ok s') : Visits env [f] s s' := by
  have hpath := h.repoPath
  have hv : f.verdict env.commitSha = .rule r := verdict_eq_rule.mpr h
  have hother : ∀ path, (∀ f' ∈ [f], f'.path = path → ∀ r, ¬f'.Parses env.commitSha r) → path ≠ r.repoPath := by
    intro path hp he
    exact hp f (.head _) (hpath ▸ he.symm) r h
  rw [applyRule] at hs
  cases ho : env.outcome r.repoPath with
  | raised message => simp [ho] at hs
  | lost =>
    simp only [ho, Except.ok.injEq] at hs
    subst hs
    rw [hpath] at ho
    refine ⟨seen_of_parses h s.seenPaths, ?_, ?_, ?_, rfl⟩
    · intro f' hf r' _
      obtain rfl := List.mem_singleton.mp hf
      rw [if_pos ho]
      exact (look_delete _ _ _).trans (if_pos hpath.symm)
    · intro path hp
      exact (look_delete _ _ _).trans (if_neg (hother path hp))
    · have herr : IsParseError env f := .inr ⟨⟨r, h⟩, ho⟩
      simp [Loop.parseError, herr]
  | done =>
    simp only [ho, Except.ok.injEq] at hs
    have hdb : s'.db.working = upsertRule s.db.working r := by
      rw [← hs, Loop.upserted]
      split <;> rfl
    have hseen : s'.seenPaths = s.seenPaths ++ [r.repoPath] := by
      rw [← hs, Loop.upserted]
      split <;> rfl
    have hstats : s'.stats.parseErrors = s.stats.parseErrors ∧ s'.stats.failed = s.stats.failed := by
      rw [← hs]
      simp only [Loop.upserted]
      split <;> split <;> exact ⟨rfl, rfl⟩
    rw [hpath] at ho
    have herr : ¬IsParseError env f := by
      rw [IsParseError, hv, ho]
      simp
    refine ⟨?_, ?_, ?_, ?_, hstats.2⟩
    · intro path
      rw [hseen]
      exact seen_of_parses h s.seenPaths path
    · intro f' hf r' hr'
      obtain rfl := List.mem_singleton.mp hf
      rw [hdb, look_upsertRule, if_pos hpath.symm, ho, if_neg (by decide), h.eq hr']
    · intro path hp
      rw [hdb, look_upsertRule, if_neg (hother path hp)]
    · simp [hstats.1, herr]

theorem applyFile_visits {env : Env} {f : File} {s s' : Loop} (hs : applyFile env s f = .ok s') :
    Visits env [f] s s' := by
  rw [applyFile_eq] at hs
  rcases f.verdict_cases env.commitSha with ⟨r, hv, hp⟩ | ⟨hp, hv⟩
  · rw [hv] at hs
    exact applyRule_visits hp hs
  · rcases hv with hv | hv | hv
    · rw [hv] at hs
      obtain rfl := Except.ok.inj hs
      exact .of_not_parses hp rfl rfl rfl (by simp [Loop.parseError, hv])
    · rw [hv] at hs
      obtain rfl := Except.ok.inj hs
      exact .of_not_parses hp rfl rfl rfl (by simp [hv])
    · rw [hv] at hs
      cases hs

theorem applyFile_ok_iff {env : Env} {f : File} {s : Loop} : (∃ s', applyFile env s f = .ok s') ↔ Passes env f := by
  rw [applyFile_eq, Passes]
  rcases f.verdict_cases env.commitSha with ⟨r, hv, hp⟩ | ⟨hp, hv⟩
  · have hparses : (∀ r, f.Parses env.commitSha r → ∀ message, env.outcome f.path ≠ .raised message) ↔
        ∀ message, env.outcome f.path ≠ .raised message := ⟨fun h ↦ h r hp, fun h _ _ ↦ h⟩
    simp only [hv, applyRule, hp.repoPath, hparses]
    cases env.outcome f.path <;> simp
  · rcases hv with hv | hv | hv <;> simp [hv, hp]

theorem Visits.nil (env : Env) (s : Loop) : Visits env [] s s := ⟨by simp, by simp, by simp, by simp, rfl⟩

/-- The first file is visited before the others, which have other paths. -/
theorem Visits.cons {env : Env} {f : File} {files : List File} {s s' s'' : Loop} (hf : f.path ∉ files.map File.path)
    (h : Visits env [f] s s') (h' : Visits env files s' s'') : Visits env (f :: files) s s'' where
  seen path := by
    rw [h'.seen, h.seen]
    simp [or_assoc]
  rule g hg r hr := by
    rcases List.mem_cons.mp hg with rfl | hg
    · rw [h'.other g.path fun g' hg' he ↦ absurd (he ▸ List.mem_map_of_mem hg') hf]
      exact h.rule g (.head _) r hr
    · exact h'.rule g hg r hr
  other path hp := by
    rw [h'.other path fun g hg ↦ hp g (.tail _ hg), h.other path fun g hg ↦ hp g (List.mem_singleton.mp hg ▸ .head _)]
  errors := by
    rw [h'.errors, h.errors]
    simp [and_assoc]
  failed := h'.failed.trans h.failed

theorem foldlM_visits {env : Env} {files : List File} {s s' : Loop} (hd : (files.map File.path).Nodup)
    (hs : files.foldlM (applyFile env) s = .ok s') : Visits env files s s' := by
  induction files generalizing s with
  | nil =>
    obtain rfl := Except.ok.inj hs
    exact .nil env s
  | cons f files ih =>
    rw [List.foldlM_cons] at hs
    cases hf : applyFile env s f with
    | error e => simp [hf, bind, Except.bind] at hs
    | ok s₁ =>
      rw [hf] at hs
      obtain ⟨hn, hd⟩ := List.nodup_cons.mp hd
      exact (applyFile_visits hf).cons hn (ih hd hs)

theorem foldlM_ok_iff {env : Env} {files : List File} {s : Loop} :
    (∃ s', files.foldlM (applyFile env) s = .ok s') ↔ ∀ f ∈ files, Passes env f := by
  induction files generalizing s with
  | nil => simp [pure, Except.pure]
  | cons f files ih =>
    rw [List.foldlM_cons, List.forall_mem_cons, ← applyFile_ok_iff (s := s)]
    cases hf : applyFile env s f with
    | error e => simp [bind, Except.bind]
    | ok s₁ => simpa [bind, Except.bind] using ih

end

end Briefr.Detection.SigmahqIndex
