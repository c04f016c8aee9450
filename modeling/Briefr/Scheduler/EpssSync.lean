import Briefr.Feeds.Epss
import Briefr.Library.Runs

namespace Briefr.Scheduler.EpssSync

open Briefr.Python Briefr.Feeds.Epss Briefr.Library.Runs

/-- The float arithmetic of the update: `abs(x) < 1e-9`, `round(x * 100, 1)`, `0.0` and `==`. -/
class Display (Score : Type) where
  nearZero : Score → Bool
  percent : Score → Score
  zero : Score
  same : Score → Score → Bool

export Display (nearZero percent same)

/-- A CVE id in the database: upper case, as the feeds deliver it. -/
abbrev CveId [Interp] := {s : Text // upper s = s}

/-- The two EPSS columns of a CVE. -/
structure Epss (Score : Type) where
  score : Option Score
  percentile : Option Score

structure State (Score : Type) [Interp] where
  rows : List (CveId × Epss Score)
  identity : Option Text
  published : File

/-- What a sync meets: its own download, the download that `fetch_epss` makes, and the API. -/
structure Env where
  download : Download
  bulk : Download
  reply : List Text → Reply

section
variable {Score : Type} [Interp] [Floats Score] [FileFormat] [Display Score]

def normalizeEpssScore (value : Option Score) : Option Score := value.filter fun x ↦ !nearZero x

def epssDisplayPercent : Option Score → Score
  | none => Display.zero
  | some x => percent x

/-- Whether the scores display differently, at 0.1 percent. -/
def epssScoresDiffer (old new : Option Score) : Bool :=
  !same (epssDisplayPercent (normalizeEpssScore old)) (epssDisplayPercent (normalizeEpssScore new))

def samePercentile : Option Score → Option Score → Bool
  | none, none => true
  | some x, some y => same x y
  | _, _ => false

def keeps (old : Epss Score) (feed : Feed Score) : Bool :=
  !epssScoresDiffer old.score (some feed.score) && samePercentile old.percentile feed.percentile

def updateEpss (scores : Scores Score) (id : CveId) (old : Epss Score) : Epss Score :=
  match scores id.val with
  | none => old
  | some feed => if keeps old feed then old else ⟨some feed.score, feed.percentile⟩

def updateEpssScores (rows : List (CveId × Epss Score)) (scores : Scores Score) : List (CveId × Epss Score) :=
  rows.map fun row ↦ (row.1, updateEpss scores row.1 row.2)

def State.ids (s : State Score) : List Text := s.rows.map fun row ↦ row.1.val

def identityMatches (s : State Score) (digest : Text) : Bool := decide (s.identity = some digest)

/-- The scores to write and the digest to store; `none` when the sync is skipped. -/
def syncScores (env : Env) (s : State Score) : Py (Option (Scores Score × Option Text)) :=
  if s.rows = [] then .ok none
  else
    match env.download with
    | .failed => do return some (← fetchEpss env.bulk env.reply s.ids, none)
    | .got [] => do return some (← fetchEpss env.bulk env.reply s.ids, some (sha256 []))
    | .got raw =>
      if identityMatches s (sha256 raw) then .ok none
      else
        match parseEpssCsvGz raw fun c ↦ decide (c ∈ s.ids.map upper) with
        | .error _ => do return some (← fetchEpss env.bulk env.reply s.ids, some (sha256 raw))
        | .ok scores => do
          let missing := s.ids.filter fun c ↦ (scores (upper c)).isNone
          return some (scores.update (← fetchEpssApi env.reply missing), some (sha256 raw))

def runEpssSync (env : Env) (s : State Score) : State Score :=
  match syncScores env s with
  | .ok (some (scores, digest)) =>
    { s with rows := updateEpssScores s.rows scores, identity := digest.or s.identity }
  | _ => s

/-- A CVE that is new gets a row without scores; others keep theirs. -/
def ingestOne (rows : List (CveId × Epss Score)) (id : CveId) : List (CveId × Epss Score) :=
  if id ∈ rows.map Prod.fst then rows else rows ++ [(id, ⟨none, none⟩)]

def ingest (rows : List (CveId × Epss Score)) (ids : List CveId) : List (CveId × Epss Score) :=
  ids.foldl ingestOne rows

inductive Event
  | ingest (ids : List CveId)
  | publish (file : File)
  | sync (env : Env)

def step (s : State Score) : Event → State Score
  | .ingest ids => { s with rows := ingest s.rows ids }
  | .publish file => { s with published := file }
  | .sync env => runEpssSync env s

def State.row (s : State Score) (id : CveId) : Option (Epss Score) := s.rows.lookup id

def fileScore (file : File) (id : CveId) : Option (Feed Score) :=
  match parseEpssCsvGz file fun c ↦ decide (c = id.val) with
  | .ok scores => scores id.val
  | .error _ => none

/-- The sync downloaded the file and was neither skipped nor aborted. -/
structure AppliesFile (env : Env) (s : State Score) (file : File) : Prop where
  download : env.download = .got file
  ne_nil : file ≠ []
  writes : ∃ scores : Scores Score × Option Text, syncScores env s = .ok (some scores)

/-- The event is no sync, or one that is skipped or fails. -/
def Quiet (s : State Score) (e : Event) : Prop := ∀ env, e = .sync env → runEpssSync env s = s

/-- The last sync that wrote anything had downloaded a file, and the CVE was there. -/
def Settled (s : State Score) (events : List Event) (id : CveId) : Prop :=
  ∃ before env after file, events = before ++ .sync env :: after ∧ AppliesFile env (run step s before) file ∧
    id.val ∈ (run step s before).ids ∧ Along step Quiet (runEpssSync env (run step s before)) after

/-- The API answers only for the CVEs in the request. -/
def Honest (Score : Type) [Floats Score] (env : Env) : Prop :=
  ∀ ids (scores : Scores Score), fetchEpssApi env.reply ids = .ok scores → ∀ c, (scores c).isSome → c ∈ ids.map upper

omit [Display Score] in
theorem fileScore_eq {file : File} {needed : Text → Bool} {id : CveId} (hn : needed id.val = true) {scores : Scores Score}
    (h : parseEpssCsvGz file needed = .ok scores) : fileScore file id = scores id.val := by
  obtain ⟨scores', h', he⟩ := parse_congr hn h
  rw [fileScore, h']
  exact he

omit [Floats Score] [FileFormat] in
theorem lookup_update (rows : List (CveId × Epss Score)) (scores : Scores Score) (id : CveId) :
    (updateEpssScores rows scores).lookup id = (rows.lookup id).map (updateEpss scores id) := by
  induction rows with
  | nil => rfl
  | cons row rows ih =>
    rw [updateEpssScores, List.map_cons, List.lookup_cons, List.lookup_cons]
    cases hk : id == row.1 with
    | true => rw [eq_of_beq hk]; rfl
    | false => exact ih

omit [Floats Score] [FileFormat] [Display Score] in
theorem lookup_ingest {rows : List (CveId × Epss Score)} {id : CveId} {e : Epss Score} (h : rows.lookup id = some e)
    (ids : List CveId) : (ingest rows ids).lookup id = some e := by
  induction ids generalizing rows with
  | nil => exact h
  | cons k ids ih =>
    apply ih
    unfold ingestOne
    split
    · exact h
    · rw [List.lookup_append, h]
      rfl

omit [Floats Score] [FileFormat] [Display Score] in
theorem isSome_row {s : State Score} {id : CveId} (h : id.val ∈ s.ids) : ∃ e, s.row id = some e := by
  obtain ⟨row, hr, he⟩ := List.mem_map.mp h
  apply Option.ne_none_iff_exists'.mp
  intro hn
  have hne := List.lookup_eq_none_iff.mp hn row hr
  rw [Subtype.ext he] at hne
  simp at hne

omit [Floats Score] [FileFormat] in
/-- Updating a row with what it already shows changes nothing. -/
theorem updateEpss_shown {scores : Scores Score} {id : CveId} {e : Epss Score} {feed : Feed Score}
    (hs : scores id.val = some feed) (h : e = ⟨some feed.score, feed.percentile⟩ ∨ keeps e feed = true) :
    updateEpss scores id e = e := by
  rw [updateEpss, hs]
  rcases h with rfl | h
  · exact ite_self _
  · exact if_pos h

omit [Floats Score] [FileFormat] in
theorem updateEpss_shows {scores : Scores Score} {id : CveId} {feed : Feed Score} (hs : scores id.val = some feed)
    (old : Epss Score) : updateEpss scores id old = ⟨some feed.score, feed.percentile⟩ ∨
      keeps (updateEpss scores id old) feed = true := by
  rw [updateEpss, hs]
  dsimp only
  split
  · rename_i h
    exact .inr h
  · exact .inl rfl

omit [Display Score] in
/-- The file's score wins over the API, which is only asked for CVEs that the file does not have. -/
theorem syncScores_of_applies {env : Env} {s : State Score} {file : File} (h : AppliesFile env s file)
    (hapi : Honest Score env) {id : CveId} (hid : id.val ∈ s.ids) :
    ∃ scores : Scores Score, syncScores env s = .ok (some (scores, some (sha256 file))) ∧
      ∀ feed, fileScore file id = some feed → scores id.val = some feed := by
  obtain ⟨c, raw, rfl⟩ := List.exists_cons_of_ne_nil h.ne_nil
  obtain ⟨⟨written, digest⟩, hw⟩ := h.writes
  have hneed : decide (id.val ∈ s.ids.map upper) = true :=
    decide_eq_true (List.mem_map.mpr ⟨id.val, hid, id.property⟩)
  have hrows : s.rows ≠ [] := by
    intro hn
    simp [State.ids, hn] at hid
  have hw' := hw
  rw [syncScores, if_neg hrows, h.download] at hw
  dsimp only at hw
  split at hw
  · cases hw
  cases hp : (parseEpssCsvGz (c :: raw) fun c ↦ decide (c ∈ s.ids.map upper) : Py (Scores Score)) with
  | error e =>
    rw [hp] at hw
    obtain ⟨scores, -, hw⟩ := bind_eq_ok.mp hw
    cases hw
    refine ⟨_, hw', fun feed hf ↦ ?_⟩
    -- a file that cannot be read has no score for any CVE
    cases hr : csvRows (c :: raw) with
    | none =>
      rw [fileScore, parseEpssCsvGz, hr] at hf
      cases hf
    | some rows =>
      obtain ⟨scores, hok⟩ := parse_defined hr fun c ↦ decide (c ∈ s.ids.map upper)
      cases hp.symm.trans hok
  | ok scores =>
    rw [hp] at hw
    obtain ⟨api, ha, hw⟩ := bind_eq_ok.mp hw
    cases hw
    refine ⟨_, hw', fun feed hf ↦ ?_⟩
    have hsc : scores id.val = some feed := by
      rw [← fileScore_eq hneed hp, hf]
    -- the CVE is not missing, so an honest API says nothing about it
    have hnone : api id.val = none := by
      by_contra hn
      obtain ⟨k, hk, he⟩ := List.mem_map.mp (hapi _ api ha id.val (Option.isSome_iff_ne_none.mpr hn))
      have hmiss := (List.mem_filter.mp hk).2
      rw [he, hsc] at hmiss
      cases hmiss
    rw [Scores.update, hnone, hsc]
    rfl

/-- If the stored identity is that of the published file, every CVE with a score in it has that score. -/
def MarkerExact (s : State Score) : Prop :=
  s.identity = some (sha256 s.published) → ∀ id e (feed : Feed Score), s.row id = some e →
    fileScore s.published id = some feed → e.score = some feed.score

/-- A row and the stored identity. -/
def Carries (id : CveId) (row : Epss Score) (digest : Text) (s : State Score) : Prop :=
  s.row id = some row ∧ s.identity = some digest

theorem quiet_step {id : CveId} {row : Epss Score} {digest : Text} (s : State Score) (e : Event)
    (h : Carries id row digest s) (hq : Quiet s e) : Carries id row digest (step s e) := by
  cases e with
  | ingest ids => exact ⟨lookup_ingest h.1 ids, h.2⟩
  | publish file => exact h
  | sync env =>
    rw [step, hq env rfl]
    exact h

/-- Whenever the stored identity is that of the published file, every settled CVE with a score in
that file has exactly that score, or one that displays the same with the same percentile, and a
sync of the file would leave its row alone. -/
theorem settled_rows_show (s : State Score) (events : List Event) (id : CveId) (feed : Feed Score)
    (hapi : ∀ env, .sync env ∈ events → Honest Score env)
    (hcol : ∀ file, sha256 file = sha256 (run step s events).published → file = (run step s events).published)
    (hid : (run step s events).identity = some (sha256 (run step s events).published))
    (hs : Settled s events id) (hf : fileScore (run step s events).published id = some feed) :
    ∃ e, (run step s events).row id = some e ∧ (e = ⟨some feed.score, feed.percentile⟩ ∨ keeps e feed = true) ∧
      ∀ scores : Scores Score, scores id.val = some feed →
        (updateEpssScores (run step s events).rows scores).lookup id = some e := by
  obtain ⟨before, env, after, file, rfl, happ, hmem, hq⟩ := hs
  rw [run_append, run_cons] at hcol hid hf ⊢
  obtain ⟨scores, hw, hscores⟩ := syncScores_of_applies happ
    (hapi env (List.mem_append_right _ (.head _))) hmem
  obtain ⟨old, hold⟩ := isSome_row hmem
  have hsync : runEpssSync env (run step s before) =
      { run step s before with
        rows := updateEpssScores (run step s before).rows scores, identity := some (sha256 file) } := by
    rw [runEpssSync, hw]
    rfl
  have hstart : Carries id (updateEpss scores id old) (sha256 file) (runEpssSync env (run step s before)) := by
    rw [hsync]
    refine ⟨?_, rfl⟩
    change (updateEpssScores (run step s before).rows scores).lookup id = _
    rw [lookup_update, show (run step s before).rows.lookup id = some old from hold]
    rfl
  obtain ⟨hrow, hident⟩ := run_induction quiet_step hstart hq
  change (run step (step (run step s before) (.sync env)) after).row id = _ at hrow
  change (run step (step (run step s before) (.sync env)) after).identity = _ at hident
  have hfile := hcol file (Option.some.inj (hident.symm.trans hid))
  have hshow := updateEpss_shows (hscores feed (by rw [hfile]; exact hf)) old
  refine ⟨_, hrow, hshow, fun scores' hs' ↦ ?_⟩
  rw [lookup_update, show List.lookup id _ = _ from hrow, Option.map_some, updateEpss_shown hs' hshow]

end

section
local instance : Interp := ascii fun _ ↦ none

/-- Scores with five decimals, in units of the last one. -/
local instance : Floats ℕ where
  float
    | .str ('0' :: '.' :: ds) => .value (ds.foldl (fun n c ↦ 10 * n + (c.toNat - 48)) 0)
    | _ => .valueError
  float_str s h := by
    split at h <;> cases h

local instance : Display ℕ where
  nearZero x := x == 0
  percent x := (x + 50) / 100
  zero := 0
  same x y := x == y

def cve1 : CveId := ⟨"CVE-2024-0001", rfl⟩

def cve2 : CveId := ⟨"CVE-2024-0002", rfl⟩

def csvRow (id : CveId) (epss : Text) : CsvRow := ⟨some id.val, some epss, some "0.50000"⟩

/-- The files of two days, named by one byte; the first score changes by 0.004 percent. -/
local instance : FileFormat where
  sha256 file := if file = [1] then "4bf5122f" else if file = [2] then "dbc1b4c9" else "e3b0c442"
  csvRows file :=
    if file = [1] then some [csvRow cve1 "0.01100", csvRow cve2 "0.02000"]
    else if file = [2] then some [csvRow cve1 "0.01104", csvRow cve2 "0.02000"]
    else none

def emptyDb : State ℕ := ⟨[], none, []⟩

/-- The file is there, the API is not. -/
def bulkOnly (file : File) : Env := ⟨.got file, .got file, fun _ ↦ .circuitOpen⟩

/-- The file cannot be downloaded and the API has another score. -/
def apiOnly : Env :=
  ⟨.failed, .failed, fun _ ↦ .body (.dict [("data", .list [.dict [("cve", .str "CVE-2024-0001"),
    ("epss", .str "0.90000"), ("percentile", .str "0.50000")]])])⟩

theorem honest_bulkOnly (file : File) : Honest ℕ (bulkOnly file) := by
  have hz : ∀ l : List (List Text), l.foldlM (fun (scores : Scores ℕ) batch ↦ do
      return scores.update (← fetchBatchApi (bulkOnly file).reply batch)) (fun _ ↦ none) = .ok fun _ ↦ none := by
    intro l
    induction l with
    | nil => rfl
    | cons batch l ih => exact ih
  intro ids scores h c hc
  rw [fetchEpssApi, hz] at h
  cases h
  cases hc

theorem settled_row_shows_first_day :
    ∃ e, (run step emptyDb [.ingest [cve1], .publish [1], .sync (bulkOnly [1])]).row cve1 = some e ∧
      (e = ⟨some 1100, some 50000⟩ ∨ keeps e ⟨1100, some 50000⟩ = true) := by
  obtain ⟨e, hrow, hshow, -⟩ := settled_rows_show emptyDb [.ingest [cve1], .publish [1], .sync (bulkOnly [1])]
    cve1 ⟨1100, some 50000⟩
    (by
      intro env henv
      obtain rfl : env = bulkOnly [1] := by simpa using henv
      exact honest_bulkOnly [1])
    (by
      intro file h
      by_contra hn
      have hn : file ≠ [1] := hn
      change (if file = [1] then _ else _) = ("4bf5122f" : String).toList at h
      rw [if_neg hn] at h
      split at h <;> exact absurd h (by decide))
    rfl
    ⟨[.ingest [cve1], .publish [1]], bulkOnly [1], [], [1], rfl, ⟨rfl, by decide, _, rfl⟩, .head _, trivial⟩ rfl
  exact ⟨e, hrow, hshow⟩

/-- The identity says less: a change below 0.1 percent is not written, a CVE that arrives later has
no score, and a sync without the file leaves the identity of the last one. -/
theorem marker_not_exact :
    ¬MarkerExact (run step emptyDb
      [.ingest [cve1], .publish [1], .sync (bulkOnly [1]), .publish [2], .sync (bulkOnly [2])]) ∧
    ¬MarkerExact (run step emptyDb [.ingest [cve1], .publish [1], .sync (bulkOnly [1]), .ingest [cve2]]) ∧
    ¬MarkerExact (run step emptyDb [.ingest [cve1], .publish [1], .sync (bulkOnly [1]), .sync apiOnly]) := by
  refine ⟨fun h ↦ ?_, fun h ↦ ?_, fun h ↦ ?_⟩
  · have he := h rfl cve1 ⟨some 1100, some 50000⟩ ⟨1104, some 50000⟩ rfl rfl
    exact absurd he (by decide)
  · have he := h rfl cve2 ⟨none, none⟩ ⟨2000, some 50000⟩ rfl rfl
    exact absurd he (by decide)
  · have he := h rfl cve1 ⟨some 90000, some 50000⟩ ⟨1100, some 50000⟩ rfl rfl
    exact absurd he (by decide)

end

end Briefr.Scheduler.EpssSync
