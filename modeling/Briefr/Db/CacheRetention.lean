import Mathlib.Order.Monotone.Basic
import Mathlib.Tactic.Linarith
import Briefr.Library.Dict
import Briefr.Library.Runs
import Briefr.Python.Value
import Briefr.Routers.CveFilters

namespace Briefr.Db.CacheRetention

open Briefr.Python Briefr.Library Briefr.Library.Runs

def secondMicros : ℤ := 1000000

def hourMicros : ℤ := 3600 * secondMicros

/-- What `strftime("%Y-%m-%d %H:%M:%S")` writes of a moment in microseconds: the second it lies in. Two such texts
compare as their seconds do. -/
def stamp (moment : ℤ) : ℤ := moment / secondMicros

/-- A row of `feed_cache` without its key. -/
structure Row where
  result : Text
  cachedAt : ℤ
  deriving DecidableEq

abbrev FeedCache := Dict Text Row

def defaultFeedCacheRetentionHours : ℕ := 168

def feedCachePrefixRetention : List (Text × ℕ) :=
  [("ssvc:", 168), ("correlation:v2:", 7 * 24), ("correlation:v1:", 7 * 24), ("circl:", 168), ("circl_miss:", 48),
    ("sploitus:", 168), ("llm_products:", 168), ("llm_products_raw:", 168), ("otx:cve:", 48), ("otx:pulse:", 48),
    ("otx:ioc:", 48), ("malwarebazaar:", 48), ("urlhaus:", 48), ("greynoise:", 48), ("sigma:", 48),
    ("detection_ctx:", 168), ("detection_ctx_llm:", 168), ("elastic:", 48), ("incident_rss:", 48),
    ("incident_feed:snapshot", 7 * 24), ("wallboard:snapshot", 24), ("admin_db_integrity", 24)]

def likePrefix (start : Text) : Text := start ++ ['%']

/-- A `DELETE` of the sweep: its `LIKE`, if it has one, its `NOT LIKE`s and the window it keeps. -/
structure Purge where
  pattern : Option Text
  spared : List Text
  hours : ℕ

def Purge.window (p : Purge) : ℤ := p.hours * hourMicros

def longPrefixes : List Text :=
  (feedCachePrefixRetention.filter fun e ↦ decide (defaultFeedCacheRetentionHours < e.2)).map Prod.fst

/-- The statements of `purge_stale_feed_cache` in their order. -/
def feedCachePurges : List Purge :=
  feedCachePrefixRetention.map (fun e ↦ ⟨some (likePrefix e.1), [], e.2⟩) ++
    [⟨none, longPrefixes.map likePrefix, defaultFeedCacheRetentionHours⟩]

def cutoffAgo (now age : ℤ) : ℤ := stamp (now - age)

section

variable (like : Text → Text → Bool)

def Purge.concerns (p : Purge) (key : Text) : Bool := p.pattern.all (like · key) && !p.spared.any (like · key)

def getFeedCache (rows : FeedCache) (key : Text) (maxAge now : ℤ) : Option Text :=
  ((rows.get? key).filter fun row ↦ decide (cutoffAgo now maxAge < row.cachedAt)).map Row.result

def setFeedCache (rows : FeedCache) (key result : Text) (now : ℤ) : FeedCache := rows.set key ⟨result, stamp now⟩

def deleteFeedCachePrefix (rows : FeedCache) (start : Text) : FeedCache :=
  rows.keep fun key _ ↦ !like (likePrefix start) key

def Purge.deletes (p : Purge) (now : ℤ) (key : Text) (row : Row) : Bool :=
  p.concerns like key && decide (row.cachedAt < cutoffAgo now p.window)

def purge (rows : FeedCache) (p : Purge) (now : ℤ) : FeedCache := rows.keep fun key row ↦ !p.deletes like now key row

/-- The sweep and the number it returns, the sum of the statements' row counts. -/
def purgeStaleFeedCache (rows : FeedCache) (now : ℤ) : FeedCache × ℕ :=
  feedCachePurges.foldl (fun s p ↦ (purge like s.1 p now, s.2 + (s.1.size - (purge like s.1 p now).size))) (rows, 0)

/-- The shortest window among the families whose pattern the key matches, and the default one. -/
def retentionHours (key : Text) : ℕ :=
  ((feedCachePrefixRetention.filter fun e ↦ like (likePrefix e.1) key).map Prod.snd).foldl min
    defaultFeedCacheRetentionHours

structure World where
  clock : ℤ
  rows : FeedCache

/-- What happens to the cache. A statement of a sweep runs some time after the sweep took its `now`, and the
statements of a sweep may have others between them. -/
inductive Event (purges : List Purge)
  | tick (micros : ℕ)
  | set (key result : Text)
  | deletePrefix (start : Text)
  | clear
  | purge (p : Purge) (listed : p ∈ purges) (late : ℕ)

variable {purges : List Purge}

def step (w : World) : Event purges → World
  | .tick micros => { w with clock := w.clock + micros }
  | .set key result => { w with rows := setFeedCache w.rows key result w.clock }
  | .deletePrefix start => { w with rows := deleteFeedCachePrefix like w.rows start }
  | .clear => { w with rows := .empty }
  | .purge p _ late => { w with rows := purge like w.rows p (w.clock - late) }

def Event.writes : Event purges → Bool
  | .purge _ _ _ => false
  | _ => true

def World.read (w : World) (key : Text) (maxAge : ℤ) : Option Text := getFeedCache w.rows key maxAge w.clock

/-- A row that some statement deletes if it runs now. -/
def Stale (purges : List Purge) (clock : ℤ) (key : Text) (row : Row) : Prop :=
  ∃ p ∈ purges, p.deletes like clock key row = true

/-- A cache and the same cache never swept: rows are missing from the first only where they are stale. -/
structure Swept (purges : List Purge) (w plain : World) : Prop where
  clock : w.clock = plain.clock
  rows : ∀ key, w.rows.get? key = plain.rows.get? key ∨
    w.rows.get? key = none ∧ ∀ row, plain.rows.get? key = some row → Stale like purges plain.clock key row

theorem stamp_mono {a b : ℤ} (h : a ≤ b) : stamp a ≤ stamp b := Int.ediv_le_ediv (by decide) h

theorem cutoffAgo_mono {now later age : ℤ} (h : now ≤ later) : cutoffAgo now age ≤ cutoffAgo later age :=
  stamp_mono (by omega)

variable {like}

theorem deletes_iff {p : Purge} {now : ℤ} {key : Text} {row : Row} : p.deletes like now key row = true ↔
    p.concerns like key = true ∧ row.cachedAt < cutoffAgo now p.window := by
  rw [Purge.deletes, Bool.and_eq_true, decide_eq_true_iff]

theorem deletes_later {p : Purge} {now later : ℤ} {key : Text} {row : Row} (h : p.deletes like now key row = true)
    (hl : now ≤ later) : p.deletes like later key row = true := by
  rw [deletes_iff] at h ⊢
  exact ⟨h.1, h.2.trans_le (cutoffAgo_mono hl)⟩

theorem Stale.later {clock later : ℤ} {key : Text} {row : Row} (h : Stale like purges clock key row)
    (hl : clock ≤ later) : Stale like purges later key row := by
  obtain ⟨p, hp, hd⟩ := h
  exact ⟨p, hp, deletes_later hd hl⟩

theorem Swept.keep {w plain : World} (h : Swept like purges w plain) (e : Event purges) (he : e.writes = true) :
    Swept like purges (step like w e) (step like plain e) := by
  cases e with
  | tick micros =>
    refine ⟨congrArg (· + (micros : ℤ)) h.clock, fun key ↦ ?_⟩
    refine (h.rows key).imp_right fun hr ↦ ⟨hr.1, fun row hrow ↦ (hr.2 row hrow).later ?_⟩
    exact Int.le_add_of_nonneg_right (Int.natCast_nonneg micros)
  | set key result =>
    refine ⟨h.clock, fun other ↦ ?_⟩
    simp only [step, setFeedCache, Dict.get?_set, h.clock]
    split
    · exact .inl rfl
    · exact h.rows other
  | deletePrefix start =>
    refine ⟨h.clock, fun key ↦ ?_⟩
    simp only [step, deleteFeedCachePrefix, Dict.get?_keep]
    obtain hr | ⟨hn, hr⟩ := h.rows key
    · exact .inl (by rw [hr])
    · refine .inr ⟨by rw [hn]; rfl, fun row hrow ↦ hr row ?_⟩
      exact (Option.filter_eq_some_iff.mp hrow).1
  | clear => exact ⟨h.clock, fun key ↦ .inl rfl⟩
  | purge p listed late => exact absurd he (by simp [Event.writes])

theorem Swept.skip {w plain : World} (h : Swept like purges w plain) (e : Event purges) (he : e.writes = false) :
    Swept like purges (step like w e) plain := by
  cases e with
  | tick | set | deletePrefix | clear => exact absurd he (by simp [Event.writes])
  | purge p listed late =>
    refine ⟨h.clock, fun key ↦ ?_⟩
    simp only [step, purge, Dict.get?_keep]
    obtain hr | ⟨hn, hr⟩ := h.rows key
    · rw [hr]
      cases hrow : plain.rows.get? key with
      | none => exact .inl rfl
      | some row =>
        by_cases hgone : p.deletes like (w.clock - late) key row = true
        · refine .inr ⟨by simp [Option.filter, hgone], fun row' hrow' ↦ ?_⟩
          have hlate : w.clock - late ≤ plain.clock := by rw [h.clock]; omega
          rw [← Option.some.inj hrow']
          exact ⟨p, listed, deletes_later hgone hlate⟩
        · exact .inl (by simp [Option.filter, hgone])
    · exact .inr ⟨by rw [hn]; rfl, hr⟩

theorem Swept.run {w : World} (events : List (Event purges)) :
    Swept like purges (run (step like) w events) (run (step like) w (events.filter Event.writes)) :=
  run_filter events (fun _ _ e h he ↦ h.keep e he) (fun _ _ e h he ↦ h.skip e he) ⟨rfl, fun _ ↦ .inl rfl⟩

/-- A read that asks for no more than a second over the window does not get a stale row. -/
theorem Stale.not_read {clock maxAge : ℤ} {key : Text} {row : Row} (h : Stale like purges clock key row)
    (hage : ∀ p ∈ purges, p.concerns like key = true → maxAge ≤ p.window + secondMicros) :
    ¬cutoffAgo clock maxAge < row.cachedAt := by
  obtain ⟨p, hp, hd⟩ := h
  obtain ⟨hc, hrow⟩ := deletes_iff.mp hd
  have hcut : cutoffAgo clock p.window - 1 ≤ cutoffAgo clock maxAge := by
    have hs : stamp (clock - p.window - secondMicros) = stamp (clock - p.window) - 1 := by
      unfold stamp secondMicros
      omega
    rw [cutoffAgo, ← hs]
    exact stamp_mono (by linarith [hage p hp hc])
  omega

theorem Swept.read {w plain : World} (h : Swept like purges w plain) {key : Text} {maxAge : ℤ}
    (hage : ∀ p ∈ purges, p.concerns like key = true → maxAge ≤ p.window + secondMicros) :
    w.read key maxAge = plain.read key maxAge := by
  unfold World.read getFeedCache
  rw [h.clock]
  obtain hr | ⟨hn, hr⟩ := h.rows key
  · rw [hr]
  · rw [hn]
    cases hrow : plain.rows.get? key with
    | none => rfl
    | some row => simp [Option.filter, (hr row hrow).not_read hage]

/-- A row written, and a statement that deletes it a second after its window. -/
theorem le_of_unseen {key : Text} {maxAge : ℤ} (p : Purge) (listed : p ∈ purges) (hc : p.concerns like key = true)
    (h : ∀ (clock : ℤ) (events : List (Event purges)), (run (step like) ⟨clock, .empty⟩ events).read key maxAge =
      (run (step like) ⟨clock, .empty⟩ (events.filter Event.writes)).read key maxAge) :
    maxAge ≤ p.window + secondMicros := by
  have hw : (0 : ℤ) ≤ p.window + secondMicros := by
    unfold Purge.window hourMicros secondMicros
    omega
  obtain ⟨wait, hwait⟩ := Int.eq_ofNat_of_zero_le hw
  have hread := h 0 [.set key [], .tick wait, .purge p listed 0]
  have hplain : [Event.set key [], .tick wait, .purge p listed 0].filter Event.writes = [.set key [], .tick wait] := rfl
  rw [hplain] at hread
  by_contra hlt
  have hgone : stamp 0 < cutoffAgo wait p.window := by
    rw [← hwait]
    simp [cutoffAgo, stamp, secondMicros]
  have hfresh : cutoffAgo wait maxAge < stamp 0 := by
    rw [← hwait]
    unfold cutoffAgo stamp secondMicros at *
    omega
  simp [run, step, World.read, getFeedCache, setFeedCache, purge, Purge.deletes, Dict.get?_set, Dict.get?_keep,
    Option.filter, hc, hgone, hfresh] at hread

/-- Readers of a key see the same answers with and without the statements, in every run, exactly if they do not ask for
rows more than a second older than the windows of the statements that concern the key. -/
theorem purges_unseen_iff (key : Text) (maxAge : ℤ) :
    (∀ (clock : ℤ) (events : List (Event purges)), (run (step like) ⟨clock, .empty⟩ events).read key maxAge =
      (run (step like) ⟨clock, .empty⟩ (events.filter Event.writes)).read key maxAge) ↔
    ∀ p ∈ purges, p.concerns like key = true → maxAge ≤ p.window + secondMicros :=
  ⟨fun h p hp hc ↦ le_of_unseen p hp hc h, fun h _ events ↦ (Swept.run events).read h⟩

/-- The statements one after the other keep what each of them keeps, and count every row they delete once. -/
theorem foldl_purge (purges : List Purge) (rows : FeedCache) (now : ℤ) (deleted : ℕ) :
    let kept := rows.keep fun key row ↦ purges.all fun p ↦ !p.deletes like now key row
    purges.foldl (fun s p ↦ (purge like s.1 p now, s.2 + (s.1.size - (purge like s.1 p now).size))) (rows, deleted) =
      (kept, deleted + (rows.size - kept.size)) := by
  induction purges generalizing rows deleted with
  | nil => simp [Dict.keep]
  | cons p purges ih =>
    have hkeep : (purge like rows p now).keep (fun key row ↦ purges.all fun p ↦ !p.deletes like now key row) =
        rows.keep fun key row ↦ (p :: purges).all fun p ↦ !p.deletes like now key row := by
      rw [purge, Dict.keep_keep]
      simp only [List.all_cons]
    have hfirst : (purge like rows p now).size ≤ rows.size := Dict.size_keep_le _ _
    have hrest := Dict.size_keep_le (purge like rows p now) fun key row ↦ purges.all fun p ↦ !p.deletes like now key row
    rw [hkeep] at hrest
    simp only [List.foldl_cons, ih, hkeep, Prod.mk.injEq, true_and]
    omega

theorem longPrefixes_eq : longPrefixes = [] := by decide

variable (like) in
theorem retentionHours_least (key : Text) :
    let windows := defaultFeedCacheRetentionHours ::
      (feedCachePrefixRetention.filter fun e ↦ like (likePrefix e.1) key).map Prod.snd
    retentionHours like key ∈ windows ∧ ∀ hours ∈ windows, retentionHours like key ≤ hours :=
  List.min?_eq_some_iff.mp List.min?_cons'

theorem concerns_default (key : Text) :
    (⟨none, longPrefixes.map likePrefix, defaultFeedCacheRetentionHours⟩ : Purge).concerns like key = true := by
  rw [longPrefixes_eq]
  rfl

theorem concerns_start (e : Text × ℕ) (key : Text) :
    (⟨some (likePrefix e.1), [], e.2⟩ : Purge).concerns like key = like (likePrefix e.1) key := by
  simp [Purge.concerns]

theorem mem_feedCachePurges {p : Purge} : p ∈ feedCachePurges ↔
    (∃ e ∈ feedCachePrefixRetention, ⟨some (likePrefix e.1), [], e.2⟩ = p) ∨
      p = ⟨none, longPrefixes.map likePrefix, defaultFeedCacheRetentionHours⟩ := by
  rw [feedCachePurges, List.mem_append, List.mem_map, List.mem_singleton]

theorem retention_le_window {p : Purge} {key : Text} (hp : p ∈ feedCachePurges) (hc : p.concerns like key = true) :
    retentionHours like key * hourMicros ≤ p.window := by
  obtain ⟨-, hle⟩ := retentionHours_least like key
  refine Int.mul_le_mul_of_nonneg_right (Int.ofNat_le.mpr ?_) (by decide)
  obtain ⟨e, he, rfl⟩ | rfl := mem_feedCachePurges.mp hp
  · rw [concerns_start] at hc
    exact hle e.2 (List.mem_cons_of_mem _ (List.mem_map_of_mem (List.mem_filter.mpr ⟨he, hc⟩)))
  · exact hle _ List.mem_cons_self

variable (like) in
theorem exists_retentionHours (key : Text) :
    ∃ p ∈ feedCachePurges, p.concerns like key = true ∧ p.window = retentionHours like key * hourMicros := by
  obtain ⟨hmem, -⟩ := retentionHours_least like key
  obtain hd | hw := List.mem_cons.mp hmem
  · exact ⟨_, mem_feedCachePurges.mpr (.inr rfl), concerns_default key, by rw [Purge.window, hd]⟩
  · obtain ⟨e, he, hh⟩ := List.mem_map.mp hw
    obtain ⟨he, hlike⟩ := List.mem_filter.mp he
    exact ⟨_, mem_feedCachePurges.mpr (.inl ⟨e, he, rfl⟩), (concerns_start e key).trans hlike,
      by rw [Purge.window, hh]⟩

/-- The sweep keeps the rows that are not older than the shortest window of their key, whatever order its statements
stand in, and returns how many rows it deleted, each counted once. -/
theorem purgeStaleFeedCache_eq (rows : FeedCache) (now : ℤ) :
    let kept := rows.keep fun key row ↦ decide (cutoffAgo now (retentionHours like key * hourMicros) ≤ row.cachedAt)
    purgeStaleFeedCache like rows now = (kept, rows.size - kept.size) := by
  have hkept : ∀ (key : Text) (row : Row), (feedCachePurges.all fun p ↦ !p.deletes like now key row) =
      decide (cutoffAgo now (retentionHours like key * hourMicros) ≤ row.cachedAt) := by
    intro key row
    rw [Bool.eq_iff_iff, List.all_eq_true, decide_eq_true_iff]
    simp only [Bool.not_eq_true', ← Bool.not_eq_true, deletes_iff, not_and, not_lt]
    constructor
    · intro h
      obtain ⟨p, hp, hc, hw⟩ := exists_retentionHours like key
      rw [← hw]
      exact h p hp hc
    · intro h p hp hc
      have hle := retention_le_window hp hc
      exact (stamp_mono (by omega)).trans h
  simp only [purgeStaleFeedCache, foldl_purge, hkept, Nat.zero_add]

/-- Whether the sweep can be seen: a reader gets the same answers with it and without it, in every run of writes,
deletions and statements of sweeps, exactly if it asks for rows that are at most a second older than the shortest window
of its key. -/
theorem sweeps_unseen_iff (key : Text) (maxAge : ℤ) :
    (∀ (clock : ℤ) (events : List (Event feedCachePurges)), (run (step like) ⟨clock, .empty⟩ events).read key maxAge =
      (run (step like) ⟨clock, .empty⟩ (events.filter Event.writes)).read key maxAge) ↔
    maxAge ≤ retentionHours like key * hourMicros + secondMicros := by
  rw [purges_unseen_iff]
  constructor
  · intro h
    obtain ⟨p, hp, hc, hw⟩ := exists_retentionHours like key
    rw [← hw]
    exact h p hp hc
  · intro h p hp hc
    have hle := retention_le_window hp hc
    omega

end

/-- The morning brief asks for headlines of fourteen days, of which the sweep keeps seven. -/
example : ¬(14 * 24 * hourMicros ≤
    retentionHours Briefr.Routers.CveFilters.like "incident_feed:snapshot" * hourMicros + secondMicros) := by
  decide

open Briefr.Routers.CveFilters in
example : retentionHours like "circl:CVE-2024-3094" = 168 ∧ retentionHours like "circl_miss:CVE-2024-3094" = 48 ∧
    retentionHours like "incident_feed:snapshot" = 168 := by
  decide

end Briefr.Db.CacheRetention
