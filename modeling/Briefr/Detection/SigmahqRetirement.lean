import Briefr.Detection.SigmahqIndex

namespace Briefr.Detection.SigmahqIndex

open Briefr.Python Briefr.Library

section
variable [Sigma]

theorem failed_of_applyFile {env : Env} {f : File} {s : Loop} {db : Session} {stats : ApplyStats}
    (h : applyFile env s f = .error (.failed db stats)) : stats.failed = true := by
  rw [applyFile_eq] at h
  cases hv : f.verdict env.commitSha with
  | rule r =>
    rw [hv] at h
    simp only [applyRule] at h
    split at h
    · cases h
      rfl
    · cases h
    · cases h
  | error => simp [hv] at h
  | ignored => simp [hv] at h
  | raised => simp [hv] at h

theorem failed_of_foldlM {env : Env} {files : List File} {s : Loop} {db : Session} {stats : ApplyStats}
    (h : files.foldlM (applyFile env) s = .error (.failed db stats)) : stats.failed = true := by
  induction files generalizing s with
  | nil => cases h
  | cons f files ih =>
    rw [List.foldlM_cons] at h
    cases hf : applyFile env s f with
    | error e =>
      rw [hf] at h
      obtain rfl : e = .failed db stats := Except.error.inj h
      exact failed_of_applyFile hf
    | ok s₁ =>
      rw [hf] at h
      exact ih h

/-- The call returns without `failed`: no file and no statement raises, and no parse error is to fail it. -/
def Returns (env : Env) (tree : Tree) (failOnParseErrors : Bool) : Prop :=
  (∀ f ∈ iterRuleFiles tree, Passes env f) ∧
    (failOnParseErrors = true → ∀ f ∈ iterRuleFiles tree, ¬IsParseError env f) ∧ env.retirePass = none

omit [Sigma] in
theorem nodup_iterRuleFiles (tree : Tree) : ((iterRuleFiles tree).map File.path).Nodup :=
  tree.distinct.sublist (List.filter_sublist.map File.path)

omit [Sigma] in
theorem finishApply_failed_iff {env : Env} {failOnParseErrors : Bool} {s : Loop} (hs : s.stats.failed = false) :
    (finishApply env failOnParseErrors s).1.failed = false ↔
      (failOnParseErrors = true → s.stats.parseErrors = 0) ∧ env.retirePass = none := by
  rw [finishApply]
  cases failOnParseErrors <;> cases hr : env.retirePass <;> by_cases he : s.stats.parseErrors = 0 <;> simp [hs, he]

omit [Sigma] in
theorem finishApply_db {env : Env} {failOnParseErrors : Bool} {s : Loop}
    (h : (failOnParseErrors = true → s.stats.parseErrors = 0) ∧ env.retirePass = none) :
    (finishApply env failOnParseErrors s).2.committed =
      retire env.now (unseenIds s.db.working s.seenPaths) s.db.working := by
  have hflag : (failOnParseErrors && s.stats.parseErrors != 0) = false := by
    cases failOnParseErrors with
    | false => rfl
    | true => simp [h.1 rfl]
  rw [finishApply, hflag, h.2]
  by_cases hb : s.batch = 0 <;> simp [hb, Session.commit]

/-- What a successful apply leaves of the row of a path. -/
structure Applied (env : Env) (t : Table) (tree : Tree) (t' : Table) : Prop where
  rule : ∀ f ∈ iterRuleFiles tree, ∀ r, f.Parses env.commitSha r →
    look t' f.path = if env.outcome f.path = .lost then none else some (r.contentSha256, true)
  other : ∀ path, (∀ f ∈ iterRuleFiles tree, f.path = path → ∀ r, ¬f.Parses env.commitSha r) →
    look t' path = (look t path).map fun seen ↦ (seen.1, false)

theorem Visits.applied {env : Env} {t : Table} {tree : Tree} {s : Loop}
    (h : Visits env (iterRuleFiles tree) ⟨⟨t, t⟩, {}, [], 0⟩ s) :
    Applied env t tree (retire env.now (unseenIds s.db.working s.seenPaths) s.db.working) where
  rule f hf r hr := by
    rw [look_retire, if_pos ((h.seen f.path).mpr (.inr ⟨f, hf, rfl, r, hr⟩))]
    exact h.rule f hf r hr
  other path hp := by
    rw [look_retire, if_neg, h.other path hp]
    intro hs
    rcases (h.seen path).mp hs with hs | ⟨f, hf, hpath, r, hr⟩
    · cases hs
    · exact hp f hf hpath r hr

theorem apply_of_loop {env : Env} {t : Table} {tree : Tree} {failOnParseErrors : Bool} {s : Loop}
    (h : (iterRuleFiles tree).foldlM (applyFile env) ⟨⟨t, t⟩, {}, [], 0⟩ = .ok s) :
    applyRulesFromDir env t tree failOnParseErrors =
      (some (finishApply env failOnParseErrors s).1, (finishApply env failOnParseErrors s).2) := by
  rw [applyRulesFromDir, h]

theorem returns_of_apply {env : Env} {t : Table} {tree : Tree} {failOnParseErrors : Bool} {stats : ApplyStats}
    {db : Session} (h : applyRulesFromDir env t tree failOnParseErrors = (some stats, db)) (hf : stats.failed = false) :
    Returns env tree failOnParseErrors ∧ Applied env t tree db.committed := by
  cases hl : (iterRuleFiles tree).foldlM (applyFile env) ⟨⟨t, t⟩, {}, [], 0⟩ with
  | ok s =>
    have hv := foldlM_visits (nodup_iterRuleFiles tree) hl
    rw [apply_of_loop hl] at h
    obtain ⟨hstats, hdb⟩ := Prod.mk.inj h
    have hfinish : (finishApply env failOnParseErrors s).1.failed = false := by
      rw [Option.some.inj hstats, hf]
    rw [finishApply_failed_iff hv.failed] at hfinish
    refine ⟨⟨foldlM_ok_iff.mp ⟨s, hl⟩, fun hflag ↦ (hv.errors.mp (hfinish.1 hflag)).2, hfinish.2⟩, ?_⟩
    rw [← hdb, finishApply_db hfinish]
    exact hv.applied
  | error e =>
    rw [applyRulesFromDir, hl] at h
    cases e with
    | failed db' stats' =>
      obtain ⟨hstats, -⟩ := Prod.mk.inj h
      have ht := failed_of_foldlM hl
      rw [Option.some.inj hstats, hf] at ht
      cases ht
    | escaped db' => cases h

theorem apply_of_returns {env : Env} (t : Table) {tree : Tree} {failOnParseErrors : Bool}
    (h : Returns env tree failOnParseErrors) :
    ∃ stats db, applyRulesFromDir env t tree failOnParseErrors = (some stats, db) ∧ stats.failed = false := by
  obtain ⟨s, hl⟩ := foldlM_ok_iff.mpr h.1
  have hv := foldlM_visits (nodup_iterRuleFiles tree) hl
  refine ⟨_, _, apply_of_loop hl, (finishApply_failed_iff hv.failed).mpr ⟨fun hflag ↦ ?_, h.2.2⟩⟩
  exact hv.errors.mpr ⟨rfl, h.2.1 hflag⟩

/-- A successful apply retires no rule whose path is a rule file of the tree, and leaves exactly one active row for
each rule file that parses, with its content. -/
def Keeps (env : Env) (t : Table) (tree : Tree) (failOnParseErrors : Bool) : Prop :=
  ∀ stats db, applyRulesFromDir env t tree failOnParseErrors = (some stats, db) → stats.failed = false →
    (∀ f ∈ iterRuleFiles tree, ∀ row ∈ t.rows, row.repoPath = f.path → row.active = true →
      ∀ row' ∈ db.committed.rows, row'.repoPath = f.path → row'.active = true) ∧
    ∀ f ∈ iterRuleFiles tree, ∀ r, f.Parses env.commitSha r →
      ∃! row, row ∈ db.committed.rows ∧ row.repoPath = f.path ∧ row.active = true ∧
        row.contentSha256 = r.contentSha256

/-- No rule file that does not parse has an active row, and no row of one that parses is lost. -/
def SafeToApply (env : Env) (t : Table) (tree : Tree) : Prop :=
  ∀ f ∈ iterRuleFiles tree,
    ((∃ r, f.Parses env.commitSha r) → env.outcome f.path ≠ .lost) ∧
      ((∀ r, ¬f.Parses env.commitSha r) → ∀ row ∈ t.rows, row.repoPath = f.path → row.active = false)

omit [Sigma] in
theorem existsUnique_active_iff {t : Table} {path sha : Text} :
    (∃! row, row ∈ t.rows ∧ row.repoPath = path ∧ row.active = true ∧ row.contentSha256 = sha) ↔
      look t path = some (sha, true) := by
  rw [look_eq_some]
  constructor
  · intro ⟨row, ⟨hmem, hpath, ha, hsha⟩, _⟩
    exact ⟨row, hmem, hpath, hsha, ha⟩
  · intro ⟨row, hmem, hpath, hsha, ha⟩
    refine ⟨row, ⟨hmem, hpath, ha, hsha⟩, ?_⟩
    intro row' ⟨hmem', hpath', _⟩
    exact t.eq_of_key hmem' hmem (hpath'.trans hpath.symm)

theorem not_parses_of_path {env : Env} {tree : Tree} {f : File} (hf : f ∈ iterRuleFiles tree)
    (h : ∀ r, ¬f.Parses env.commitSha r) :
    ∀ g ∈ iterRuleFiles tree, g.path = f.path → ∀ r, ¬g.Parses env.commitSha r := by
  intro g hg hp r hr
  obtain rfl := List.inj_on_of_nodup_map (nodup_iterRuleFiles tree) hg hf hp
  exact h r hr

theorem Applied.keeps_iff {env : Env} {t t' : Table} {tree : Tree} (h : Applied env t tree t') :
    ((∀ f ∈ iterRuleFiles tree, ∀ row ∈ t.rows, row.repoPath = f.path → row.active = true →
        ∀ row' ∈ t'.rows, row'.repoPath = f.path → row'.active = true) ∧
      ∀ f ∈ iterRuleFiles tree, ∀ r, f.Parses env.commitSha r →
        ∃! row, row ∈ t'.rows ∧ row.repoPath = f.path ∧ row.active = true ∧ row.contentSha256 = r.contentSha256) ↔
      SafeToApply env t tree := by
  simp only [existsUnique_active_iff]
  constructor
  · intro ⟨hkept, hactive⟩ f hf
    refine ⟨fun ⟨r, hr⟩ hlost ↦ ?_, fun hno row hrow hpath ↦ ?_⟩
    · have hlook := h.rule f hf r hr
      rw [if_pos hlost, hactive f hf r hr] at hlook
      cases hlook
    · by_contra ha
      have ha : row.active = true := by simpa using ha
      have hlook := h.other f.path (not_parses_of_path hf hno)
      rw [← hpath, look_of_mem hrow, Option.map_some] at hlook
      obtain ⟨row', hmem', hpath', _, ha'⟩ := look_eq_some.mp hlook
      rw [hkept f hf row hrow hpath ha row' hmem' (hpath'.trans hpath)] at ha'
      cases ha'
  · intro hsafe
    refine ⟨fun f hf row hrow hpath ha row' hrow' hpath' ↦ ?_, fun f hf r hr ↦ ?_⟩
    · by_cases hp : ∃ r, f.Parses env.commitSha r
      · obtain ⟨r, hr⟩ := hp
        have hlook := h.rule f hf r hr
        rw [if_neg ((hsafe f hf).1 ⟨r, hr⟩), ← hpath', look_of_mem hrow'] at hlook
        exact congrArg Prod.snd (Option.some.inj hlook)
      · have hinactive := (hsafe f hf).2 (fun r hr ↦ hp ⟨r, hr⟩) row hrow hpath
        rw [ha] at hinactive
        cases hinactive
    · rw [h.rule f hf r hr, if_neg ((hsafe f hf).1 ⟨r, hr⟩)]

theorem keeps_iff (env : Env) (t : Table) (tree : Tree) (failOnParseErrors : Bool) :
    Keeps env t tree failOnParseErrors ↔ (Returns env tree failOnParseErrors → SafeToApply env t tree) := by
  constructor
  · intro h hr
    obtain ⟨stats, db, hs, hf⟩ := apply_of_returns t hr
    exact (returns_of_apply hs hf).2.keeps_iff.mp (h stats db hs hf)
  · intro h stats db hs hf
    obtain ⟨hr, ha⟩ := returns_of_apply hs hf
    exact ha.keeps_iff.mpr (h hr)

/-- The file is valid YAML and no detection rule: such a file is ignored. -/
def File.NotARule (f : File) : Prop :=
  ∃ raw text, f.decoded = some (raw, text) ∧ (safeLoad text = .other ∨
    ∃ keys, safeLoad text = .mapping keys ∧ "detection".toList ∉ keys ∧ "logsource".toList ∉ keys)

/-- The active rules are those of the tree. -/
def Mirrors (t : Table) (tree : Tree) : Prop :=
  (∀ f ∈ iterRuleFiles tree, ¬f.NotARule → ∃ row ∈ t.rows, row.repoPath = f.path ∧ row.active = true ∧
    f.bytes.map sha256 = some row.contentSha256) ∧
  ∀ row ∈ t.rows, row.active = true → ∃ f ∈ iterRuleFiles tree, f.path = row.repoPath ∧ ¬f.NotARule

/-- A sync records the identity of a commit only with the rules of its tree. -/
def RecordsExact (env : Env) (store : Store) (input : SyncInput) : Prop :=
  ∀ result store', syncSigmahqIndex env store input = (some result, store') →
    result.status = .applied ∨ result.status = .skippedSha →
    ∀ tree, input.tree = some tree → Mirrors store'.rules tree

/-- Each rule of the tree parses, and its row is not lost. -/
def Complete (env : Env) (tree : Tree) : Prop :=
  ∀ f ∈ iterRuleFiles tree, ¬f.NotARule → (∃ r, f.Parses env.commitSha r) ∧ env.outcome f.path ≠ .lost

theorem File.Parses.isRule {commitSha : Text} {f : File} {r : ParsedRule} (h : f.Parses commitSha r) : ¬f.NotARule := by
  intro ⟨raw', text', hd', hn⟩
  obtain ⟨raw, text, hd, hp⟩ := h
  obtain ⟨rfl, rfl⟩ := Prod.mk.inj (Option.some.inj (hd.symm.trans hd'))
  rw [parseSigmaFile] at hp
  split at hp
  · cases hp
  · rcases hn with hl | ⟨keys, hl, hk⟩
    · rw [hl] at hp
      cases hp
    · rw [hl] at hp
      simp only [hk, not_false_eq_true, and_self, if_true] at hp
      cases hp

theorem File.Parses.sha256 {commitSha : Text} {f : File} {r : ParsedRule} (h : f.Parses commitSha r) :
    f.bytes.map Sigma.sha256 = some r.contentSha256 := by
  obtain ⟨raw, text, hd, hp⟩ := h
  obtain ⟨raw', hb, hm⟩ := Option.bind_eq_some_iff.mp hd
  obtain ⟨text', -, he⟩ := Option.map_eq_some_iff.mp hm
  obtain ⟨rfl, rfl⟩ := Prod.mk.inj he
  rw [hb, Option.map_some]
  rw [parseSigmaFile] at hp
  split at hp
  · cases hp
  · split at hp
    · cases hp
    · cases hp
    · cases hp
    · split at hp
      · cases hp
      · injection hp with hp
        rw [← hp]

theorem Applied.active {env : Env} {t t' : Table} {tree : Tree} (h : Applied env t tree t') {row : DetectionRule}
    (hrow : row ∈ t'.rows) (ha : row.active = true) :
    ∃ f ∈ iterRuleFiles tree, f.path = row.repoPath ∧ ∃ r, f.Parses env.commitSha r := by
  by_contra hno
  have hlook := h.other row.repoPath fun f hf hp r hr ↦ hno ⟨f, hf, hp, r, hr⟩
  rw [look_of_mem hrow] at hlook
  obtain ⟨seen, -, he⟩ := Option.map_eq_some_iff.mp hlook.symm
  have hf : false = row.active := congrArg Prod.snd he
  rw [← hf] at ha
  cases ha

theorem Applied.mirrors_iff {env : Env} {t t' : Table} {tree : Tree} (h : Applied env t tree t') :
    Mirrors t' tree ↔ Complete env tree := by
  constructor
  · intro ⟨hrules, _⟩ f hf hn
    obtain ⟨row, hrow, hpath, ha, _⟩ := hrules f hf hn
    obtain ⟨g, hg, hgpath, r, hr⟩ := h.active hrow ha
    obtain rfl := List.inj_on_of_nodup_map (nodup_iterRuleFiles tree) hg hf (hgpath.trans hpath)
    refine ⟨⟨r, hr⟩, fun hlost ↦ ?_⟩
    have hlook := h.rule g hg r hr
    rw [if_pos hlost, ← hpath, look_of_mem hrow] at hlook
    cases hlook
  · intro hc
    refine ⟨fun f hf hn ↦ ?_, fun row hrow ha ↦ ?_⟩
    · obtain ⟨⟨r, hr⟩, hlost⟩ := hc f hf hn
      have hlook := h.rule f hf r hr
      rw [if_neg hlost] at hlook
      obtain ⟨row, hrow, hpath, hsha, ha⟩ := look_eq_some.mp hlook
      exact ⟨row, hrow, hpath, ha, hsha ▸ hr.sha256⟩
    · obtain ⟨f, hf, hpath, r, hr⟩ := h.active hrow ha
      exact ⟨f, hf, hpath, hr.isRule⟩

/-- What the route of a sync has to meet: what it applies is complete, and what it does not read again is there. -/
def SafeToRecord (env : Env) (store : Store) (input : SyncInput) : Prop :=
  match route store.identity input with
  | .apply _ tree =>
    Returns { env with commitSha := input.tipCommit } tree false → Complete { env with commitSha := input.tipCommit } tree
  | .refresh _ => ∀ tree, input.tree = some tree → Mirrors store.rules tree
  | .stop _ | .escaped => True

theorem tree_of_route {stored : Option Identity} {input : SyncInput} {digest : Text} {tree : Tree}
    (h : route stored input = .apply digest tree) : input.tree = some tree := by
  rw [route] at h
  split at h
  · cases h
  · split at h
    · cases h
    · split at h
      · next root hr =>
        injection h with _ h
        rw [SyncInput.tree, hr, h]
        rfl
      · next hr =>
        split at h
        · cases h
        · next archive ha =>
          split at h
          · cases h
          · split at h
            · cases h
            · next root hx =>
              injection h with _ h
              rw [SyncInput.tree, hr, ha, Option.bind_some, hx, h]
              rfl

theorem status_of_route_stop {stored : Option Identity} {input : SyncInput} {result : SyncResult}
    (h : route stored input = .stop result) : result.status = .failed ∨ result.status = .skippedCommit := by
  rw [route] at h
  split at h
  · cases h
    exact .inl rfl
  · split at h
    · cases h
      exact .inr rfl
    · split at h
      · cases h
      · split at h
        · cases h
          exact .inl rfl
        · split at h
          · cases h
          · split at h <;> cases h

theorem recordsExact_iff (env : Env) (store : Store) (input : SyncInput) :
    RecordsExact env store input ↔ SafeToRecord env store input := by
  rw [RecordsExact, SafeToRecord, syncSigmahqIndex]
  cases hroute : route store.identity input with
  | stop result =>
    simp only [iff_true]
    intro result' store' h hs
    obtain ⟨h, -⟩ := Prod.mk.inj h
    rw [← Option.some.inj h] at hs
    rcases status_of_route_stop hroute with hr | hr <;> simp [hr] at hs
  | escaped =>
    simp only [iff_true]
    intro result' store' h
    cases h
  | refresh digest =>
    constructor
    · intro h tree ht
      exact h _ _ rfl (.inr rfl) tree ht
    · intro h result store' hs _ tree ht
      obtain ⟨-, hs⟩ := Prod.mk.inj hs
      rw [← hs]
      exact h tree ht
  | apply digest tree =>
    have htree := tree_of_route hroute
    constructor
    · intro h hr
      obtain ⟨stats, db, hs, hf⟩ := apply_of_returns store.rules hr
      have hsync := h _ ⟨db.committed, _⟩ (by simp only [hs, hf]; rfl) (.inl rfl) tree htree
      exact (returns_of_apply hs hf).2.mirrors_iff.mp hsync
    · intro h result store' hs hstatus tree' ht'
      obtain rfl := Option.some.inj (htree.symm.trans ht')
      simp only at hs h
      split at hs
      · cases hs
      · next stats db ha =>
        split at hs
        · obtain ⟨hs, -⟩ := Prod.mk.inj hs
          rw [← Option.some.inj hs] at hstatus
          simp at hstatus
        · next hf =>
          obtain ⟨-, hs⟩ := Prod.mk.inj hs
          obtain ⟨hr, happ⟩ := returns_of_apply ha (by simpa using hf)
          rw [← hs]
          exact happ.mirrors_iff.mpr (h hr)

/-- When an apply keeps the rules that are still upstream, and when a sync records only what it has applied. -/
theorem sigmahq_apply_and_sync_iff :
    (∀ (env : Env) (t : Table) (tree : Tree) (failOnParseErrors : Bool),
      Keeps env t tree failOnParseErrors ↔ (Returns env tree failOnParseErrors → SafeToApply env t tree)) ∧
    ∀ (env : Env) (store : Store) (input : SyncInput), RecordsExact env store input ↔ SafeToRecord env store input :=
  ⟨keeps_iff, recordsExact_iff⟩

end

section

/-- Every text is a rule, and bytes are their own hash. -/
local instance anyRule : Sigma where
  safeLoad _ := .mapping ["detection".toList]
  sha256 raw := raw.map fun b ↦ Char.ofNat b.toNat
  extract _ := none

def quietEnv : Env := ⟨"abc".toList, fun _ ↦ .done, none, "2026-09-01".toList⟩

/-- A tree in which one rule file cannot be read, and the table that has its rule. -/
def unreadableTree : Tree := ⟨[⟨"rules/a.yml".toList, none⟩], List.nodup_singleton _⟩

def ruleA : ParsedRule := ⟨"rules/a.yml".toList, "a".toList, "a".toList, "old".toList⟩

theorem sigmahq_unreadable_retired :
    ¬∀ (env : Env) (t : Table) (tree : Tree) (failOnParseErrors : Bool), Keeps env t tree failOnParseErrors := by
  intro h
  have hreturns : Returns quietEnv unreadableTree false := by
    refine ⟨?_, by simp, rfl⟩
    intro f hf
    obtain rfl := List.mem_singleton.mp (List.mem_filter.mp hf).1
    exact ⟨by simp [File.verdict, File.decoded], fun r ⟨raw, text, hd, _⟩ ↦ by cases hd⟩
  have hsafe := (keeps_iff quietEnv (upsertRule .empty ruleA) unreadableTree false).mp (h _ _ _ _) hreturns
  have hmem : ⟨"rules/a.yml".toList, none⟩ ∈ iterRuleFiles unreadableTree :=
    List.mem_filter.mpr ⟨List.mem_singleton_self _, by decide⟩
  have hrow := (hsafe _ hmem).2 (fun r ⟨raw, text, hd, _⟩ ↦ by cases hd)
    { ruleA with id := 1, retiredAt := none } (.head _) rfl
  cases hrow

end

end Briefr.Detection.SigmahqIndex
