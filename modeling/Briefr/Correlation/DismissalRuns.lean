import Briefr.Correlation.Dismissals
import Briefr.Correlation.FamilyComponents
import Briefr.Library.Runs

namespace Briefr.Correlation.Dismissals

open Briefr.Python Briefr.Library Briefr.Library.Runs

section
variable {F : Type} [Interp] [FloatOps F]

/-- `VALID_SCOPES`. -/
def scopeOf (scope : Text) : Option Scope :=
  if scope = "campaign_id".toList then some .campaignId
  else if scope = "cve_pair".toList then some .cvePair
  else if scope = "pulse_id".toList then some .pulseId
  else if scope = "infrastructure".toList then some .infrastructure
  else none

/-- `str(value or "")`. -/
def strOr (o : Obj F) : Text := if o.truthy then o.shown else []

def scopeKeyFor (scope : Scope) (key : Obj F) : Text :=
  match scope with
  | .campaignId => strOr (key.get "campaign_id".toList)
  | .cvePair =>
    let peer := key.get "cve_id_b".toList
    upper (strOr (if peer.truthy then peer else key.get "peer_cve".toList))
  | .pulseId => strOr (key.get "pulse_id".toList)
  | .infrastructure => upper (strOr (key.get "cve_id_b".toList))

/-- The row that a request is about; `none` is the `ValueError` of `add_suppression`. -/
def suppressionFor (scope : Text) (key : Obj F) : Option Suppression :=
  (scopeOf scope).bind fun scope ↦
    if scopeKeyFor scope key = [] then none else some ⟨scope, scopeKeyFor scope key⟩

omit [Interp] [FloatOps F] in
def withoutSuppression (db : Tables F) (cve : Text) (s : Suppression) : Tables F :=
  { db with suppressions := db.suppressions.filter (· ≠ (cve, s)) }

def insertCorrelationSuppression (db : Tables F) (cve : Text) (s : Suppression) : Tables F :=
  { db with suppressions := (cve, s) :: (withoutSuppression db cve s).suppressions }

end

/-- `correlation:v2:{cve}:{sector}`, without the part that all keys share. -/
def cacheKey (cve sector : Text) : Text := cve ++ ':' :: sector

/-- A computation that is not stored yet: that of a reader, with the dismissals that were active when it
began, or that of the precompute job. -/
inductive Task
  | answering (cve sector : Text) (active : List Suppression) (shown : Shown)
  | precomputing (cve : Text) (shown : Shown)

def Task.cve : Task → Text
  | .answering cve _ _ _ | .precomputing cve _ => cve

def Task.shown : Task → Shown
  | .answering _ _ _ shown | .precomputing _ shown => shown

/-- A response, and the dismissals of its CVE that were active when its request came in. -/
structure Response where
  cve : Text
  active : List Suppression
  shown : Shown

structure World (F : Type) where
  db : Tables F
  cache : Text → Option Shown
  snapshots : Text → Option Shown
  tasks : ℕ → Option Task
  responses : List Response

/-- The CVE ids are those that `require_cve_id` returns. A change of the stored data, such as a rebuild, keeps the
dismissals; an eviction is an expiry or a deletion of any keys. -/
inductive Event (F : Type)
  | change (db : Tables F)
  | suppress (cve scope : Text) (key : Obj F)
  | unsuppress (cve scope : Text) (key : Obj F)
  | evict (gone : Text → Bool)
  | read (task : ℕ) (cve sector : Text) (usesSnapshots : Bool) (reading : Reading)
  | precompute (task : ℕ) (cve : Text) (reading : Reading)
  | finish (task : ℕ)
  | cancel (task : ℕ)

section
variable {F : Type}

def World.init (db : Tables F) : World F :=
  ⟨{ db with suppressions := [] }, fun _ ↦ none, fun _ ↦ none, fun _ ↦ none, []⟩

def World.setTask (w : World F) (task : ℕ) (t : Option Task) : World F :=
  { w with tasks := Function.update w.tasks task t }

def World.respond (w : World F) (cve : Text) (active : List Suppression) (shown : Shown) : World F :=
  { w with responses := ⟨cve, active, shown⟩ :: w.responses }

def evict (w : World F) (gone : Text → Bool) : World F :=
  { w with cache := fun key ↦ if gone key then none else w.cache key }

def finish (w : World F) (task : ℕ) : World F :=
  match w.tasks task with
  | some (.answering cve sector active shown) =>
    ({ w with cache := Function.update w.cache (cacheKey cve sector) (some shown) }.respond cve active shown).setTask
      task none
  | some (.precomputing cve shown) =>
    { w with snapshots := Function.update w.snapshots cve (some shown) }.setTask task none
  | none => w

section
variable [Interp] [FloatOps F]

/-- `suppress_correlation_finding`. -/
def suppress (w : World F) (cve scope : Text) (key : Obj F) : World F :=
  match suppressionFor (strip scope) key with
  | none => w
  | some s => evict { w with db := insertCorrelationSuppression w.db cve s } cve.isPrefixOf

/-- `unsuppress_correlation_finding`. -/
def unsuppress (w : World F) (cve scope : Text) (key : Obj F) : World F :=
  match suppressionFor scope key with
  | none => w
  | some s =>
    if (cve, s) ∈ w.db.suppressions then evict { w with db := withoutSuppression w.db cve s } cve.isPrefixOf
    else w

variable [Iso] [Sha256] [Attribution F] [EdgeRules F] [Stamps]

/-- `get_correlation_for_cve` up to its storing the answer. -/
def read (cfg : Config F) (w : World F) (task : ℕ) (cve sector : Text) (usesSnapshots : Bool) (reading : Reading) :
    World F :=
  let active := w.db.loadSuppressions cve
  match w.cache (cacheKey cve sector) with
  | some shown => w.respond cve active shown
  | none =>
    match if usesSnapshots then w.snapshots cve else none with
    | some shown =>
      match if sector = [] then .ok [] else findActorSectorCorrelation cfg w.db cve sector with
      | .ok _ => w.setTask task (some (.answering cve sector active shown))
      | .error _ => w
    | none =>
      match computeCorrelationForCve cfg reading w.db cve sector with
      | .ok a => w.setTask task (some (.answering cve sector active (shownOf w.db a)))
      | .error _ => w.respond cve active .empty

/-- One CVE of `run_correlation_precompute_slice`. -/
def precompute (cfg : Config F) (w : World F) (task : ℕ) (cve : Text) (reading : Reading) : World F :=
  match computeCorrelationForCve cfg reading w.db cve [] with
  | .ok a => w.setTask task (some (.precomputing cve (shownOf w.db a)))
  | .error _ => w

def step (cfg : Config F) (w : World F) : Event F → World F
  | .change db => { w with db := { db with suppressions := w.db.suppressions } }
  | .suppress cve scope key => suppress w cve scope key
  | .unsuppress cve scope key => unsuppress w cve scope key
  | .evict gone => evict w gone
  | .read task cve sector usesSnapshots reading =>
    if w.tasks task = none then read cfg w task cve sector usesSnapshots reading else w
  | .precompute task cve reading => if w.tasks task = none then precompute cfg w task cve reading else w
  | .finish task => finish w task
  | .cancel task => w.setTask task none

/-- Whatever is computed is computed on settled data, a dismissal comes where neither the snapshot nor a computation
under way for its CVE shows the dismissed, and no CVE id that is read has a colon. -/
def Careful (w : World F) : Event F → Prop
  | .suppress cve scope key => ∀ s, suppressionFor (strip scope) key = some s →
      (∀ shown, w.snapshots cve = some shown → shown.Hides s) ∧
        ∀ task t, w.tasks task = some t → t.cve = cve → t.shown.Hides s
  | .read _ cve sector usesSnapshots _ => ':' ∉ cve ∧
      (w.cache (cacheKey cve sector) = none → (if usesSnapshots then w.snapshots cve else none) = none → w.db.Settled cve)
  | .precompute _ cve _ => w.db.Settled cve
  | _ => True

end

def Event.Removes [Interp] [FloatOps F] (e : Event F) (cve : Text) (s : Suppression) : Prop :=
  ∃ scope key, e = .unsuppress cve scope key ∧ suppressionFor scope key = some s

theorem cacheKey_inj {cve cve' sector sector' : Text} (hcve : ':' ∉ cve) (hcve' : ':' ∉ cve')
    (h : cacheKey cve sector = cacheKey cve' sector') : cve = cve' := by
  have hcut : ∀ {c : Text} (t : Text), ':' ∉ c → (cacheKey c t).takeWhile (· ≠ ':') = c := by
    intro c t hc
    rw [cacheKey, List.takeWhile_append_of_pos (by
      intro x hx
      exact decide_eq_true (ne_of_mem_of_not_mem hx hc))]
    simp
  rw [← hcut sector hcve, h, hcut sector' hcve']

section
variable [Interp] [FloatOps F] {w : World F} {cve other scope : Text} {key : Obj F} {s : Suppression}

theorem suppressionFor_key (h : suppressionFor scope key = some s) :
    s.scopeKey ≠ [] := by
  obtain ⟨scope, -, h⟩ := Option.bind_eq_some_iff.mp h
  split at h
  · cases h
  · rename_i hk
    exact Option.some.inj h ▸ hk

theorem suppress_active (hs : suppressionFor (strip scope) key = some s) :
    (cve, s) ∈ (suppress w cve scope key).db.suppressions := by
  rw [Dismissals.suppress, hs]
  exact List.mem_cons_self

theorem unsuppress_keeps (hm : (cve, s) ∈ w.db.suppressions)
    (hne : ¬(Event.unsuppress other scope key).Removes cve s) : (cve, s) ∈ (unsuppress w other scope key).db.suppressions := by
  unfold Dismissals.unsuppress
  split
  · exact hm
  · rename_i x hx
    split
    · refine List.mem_filter.mpr ⟨hm, decide_eq_true ?_⟩
      intro he
      obtain ⟨rfl, rfl⟩ := Prod.mk.inj he
      exact hne ⟨scope, key, rfl, hx⟩
    · exact hm

theorem suppress_keeps (hm : (cve, s) ∈ w.db.suppressions) :
    (cve, s) ∈ (suppress w other scope key).db.suppressions := by
  unfold Dismissals.suppress
  split
  · exact hm
  · rename_i x _
    by_cases he : (cve, s) = (other, x)
    · exact he ▸ List.mem_cons_self
    · exact List.mem_cons_of_mem _ (List.mem_filter.mpr ⟨hm, decide_eq_true he⟩)

end

section
variable [Interp] [Sha256]

/-- The computation shows nothing dismissed for its CVE by now, nor what was dismissed when its request came in. -/
def Task.Sound (db : Tables F) (t : Task) : Prop :=
  (∀ s, (t.cve, s) ∈ db.suppressions → t.shown.Hides s) ∧ ∀ cve sector active shown,
    t = .answering cve sector active shown → ':' ∉ cve ∧ ∀ s ∈ active, shown.Hides s

structure Inv (w : World F) : Prop where
  keys : ∀ e ∈ w.db.suppressions, e.2.scopeKey ≠ []
  cached : ∀ cve sector shown, ':' ∉ cve → w.cache (cacheKey cve sector) = some shown →
    ∀ s, (cve, s) ∈ w.db.suppressions → shown.Hides s
  snapshots : ∀ cve shown, w.snapshots cve = some shown → ∀ s, (cve, s) ∈ w.db.suppressions → shown.Hides s
  tasks : ∀ task t, w.tasks task = some t → t.Sound w.db
  responses : ∀ r ∈ w.responses, ∀ s ∈ r.active, r.shown.Hides s

theorem inv_init (db : Tables F) : Inv (.init db) := by
  constructor <;> simp [World.init]

variable {w : World F} {task : ℕ} {cve sector : Text} {active : List Suppression} {shown : Shown}

theorem Inv.setTask (h : Inv w) {t : Option Task} (ht : ∀ x, t = some x → x.Sound w.db) : Inv (w.setTask task t) where
  keys := h.keys
  cached := h.cached
  snapshots := h.snapshots
  tasks := Tasks.forall_update (fun other x _ hx ↦ h.tasks other x hx) ht
  responses := h.responses

theorem Inv.respond (h : Inv w) (hs : ∀ s ∈ active, shown.Hides s) : Inv (w.respond cve active shown) where
  keys := h.keys
  cached := h.cached
  snapshots := h.snapshots
  tasks := h.tasks
  responses := List.forall_mem_cons.mpr ⟨hs, h.responses⟩

/-- Dismissals and cached responses may go, and the other data change. -/
theorem Inv.shrink (h : Inv w) (db : Tables F) (hdb : db.suppressions ⊆ w.db.suppressions) (gone : Text → Bool) :
    Inv (evict { w with db := db } gone) where
  keys := fun e he ↦ h.keys e (hdb he)
  cached := by
    intro cve sector shown hcve hc s hs
    simp only [evict] at hc
    split at hc
    · cases hc
    · exact h.cached cve sector shown hcve hc s (hdb hs)
  snapshots := fun cve shown hc s hs ↦ h.snapshots cve shown hc s (hdb hs)
  tasks := by
    intro task t ht
    obtain ⟨hnow, hthen⟩ := h.tasks task t ht
    exact ⟨fun s hs ↦ hnow s (hdb hs), hthen⟩
  responses := h.responses

/-- A new dismissal takes the cached responses of its CVE away. -/
theorem Inv.dismiss (h : Inv w) {s : Suppression} (hk : s.scopeKey ≠ [])
    (hsnap : ∀ shown, w.snapshots cve = some shown → shown.Hides s)
    (htask : ∀ task t, w.tasks task = some t → t.cve = cve → t.shown.Hides s) :
    Inv (evict { w with db := insertCorrelationSuppression w.db cve s } cve.isPrefixOf) := by
  have hmem : ∀ e ∈ (insertCorrelationSuppression w.db cve s).suppressions, e = (cve, s) ∨ e ∈ w.db.suppressions := by
    intro e he
    exact (List.mem_cons.mp he).imp_right fun he ↦ (List.mem_filter.mp he).1
  constructor
  · intro e he
    rcases hmem e he with rfl | he
    · exact hk
    · exact h.keys e he
  · intro other sector shown hcve hc x hx
    simp only [evict] at hc
    split at hc
    · cases hc
    · rename_i hkept
      rcases hmem _ hx with hx | hx
      · obtain rfl := (Prod.mk.inj hx).1
        exact absurd (List.isPrefixOf_iff_prefix.mpr (List.prefix_append other (':' :: sector))) hkept
      · exact h.cached other sector shown hcve hc x hx
  · intro other shown hc x hx
    rcases hmem _ hx with hx | hx
    · obtain ⟨rfl, rfl⟩ := Prod.mk.inj hx
      exact hsnap shown hc
    · exact h.snapshots other shown hc x hx
  · intro task t ht
    obtain ⟨hnow, hthen⟩ := h.tasks task t ht
    refine ⟨?_, hthen⟩
    intro x hx
    rcases hmem _ hx with hx | hx
    · obtain ⟨hcve, rfl⟩ := Prod.mk.inj hx
      exact htask task t ht hcve
    · exact hnow x hx
  · exact h.responses

theorem Inv.finish (h : Inv w) (task : ℕ) : Inv (finish w task) := by
  unfold Dismissals.finish
  split
  · rename_i cve sector active shown ht
    obtain ⟨hnow, hthen⟩ := h.tasks task _ ht
    obtain ⟨hcve, hactive⟩ := hthen cve sector active shown rfl
    have hstored : Inv { w with cache := Function.update w.cache (cacheKey cve sector) (some shown) } := by
      refine ⟨h.keys, ?_, h.snapshots, h.tasks, h.responses⟩
      intro other sector' shown' hother hc s hs
      by_cases hk : cacheKey other sector' = cacheKey cve sector
      · obtain rfl := cacheKey_inj hother hcve hk
        simp only [hk, Function.update_self, Option.some.injEq] at hc
        exact hc ▸ hnow s hs
      · simp only [ne_eq, hk, not_false_eq_true, Function.update_of_ne] at hc
        exact h.cached other sector' shown' hother hc s hs
    exact (hstored.respond hactive).setTask (by simp)
  · rename_i cve shown ht
    obtain ⟨hnow, -⟩ := h.tasks task _ ht
    have hstored : Inv { w with snapshots := Function.update w.snapshots cve (some shown) } := by
      refine ⟨h.keys, h.cached, ?_, h.tasks, h.responses⟩
      refine Tasks.forall_update (fun other x _ hx ↦ h.snapshots other x hx) ?_
      intro x hx
      exact Option.some.inj hx ▸ hnow
    exact hstored.setTask (by simp)
  · exact h

variable [FloatOps F]

theorem Inv.suppress (h : Inv w) {scope : Text} {key : Obj F}
    (hc : ∀ s, suppressionFor (strip scope) key = some s → (∀ shown, w.snapshots cve = some shown → shown.Hides s) ∧
      ∀ task t, w.tasks task = some t → t.cve = cve → t.shown.Hides s) : Inv (suppress w cve scope key) := by
  unfold Dismissals.suppress
  split
  · exact h
  · rename_i s hs
    obtain ⟨hsnap, htask⟩ := hc s hs
    exact h.dismiss (suppressionFor_key hs) hsnap htask

theorem Inv.unsuppress (h : Inv w) (scope : Text) (key : Obj F) : Inv (unsuppress w cve scope key) := by
  unfold Dismissals.unsuppress
  split
  · exact h
  · split
    · exact h.shrink _ (List.filter_subset_self _) _
    · exact h

variable [Iso] [Attribution F] [EdgeRules F] [Stamps] {cfg : Config F} {reading : Reading}

theorem Inv.compute (h : Inv w) (hs : w.db.Settled cve) {a : Analysis F}
    (ha : computeCorrelationForCve cfg reading w.db cve sector = .ok a) {s : Suppression}
    (hm : (cve, s) ∈ w.db.suppressions) : (shownOf w.db a).Hides s :=
  compute_hides hs ha (Tables.mem_loadSuppressions.mpr hm) (h.keys _ hm)

theorem Inv.read (h : Inv w) {usesSnapshots : Bool} (hcve : ':' ∉ cve)
    (hs : w.cache (cacheKey cve sector) = none → (if usesSnapshots then w.snapshots cve else none) = none →
      w.db.Settled cve) : Inv (read cfg w task cve sector usesSnapshots reading) := by
  have hanswer : ∀ shown : Shown, (∀ s, (cve, s) ∈ w.db.suppressions → shown.Hides s) →
      Inv (w.setTask task (some (.answering cve sector (w.db.loadSuppressions cve) shown))) := by
    intro shown hshown
    refine h.setTask (Tasks.forall_some ⟨hshown, ?_⟩)
    intro _ _ _ _ he
    obtain ⟨rfl, rfl, rfl, rfl⟩ := Task.answering.inj he
    exact ⟨hcve, fun s hs ↦ hshown s (Tables.mem_loadSuppressions.mp hs)⟩
  simp only [Dismissals.read]
  split
  · rename_i shown hc
    exact h.respond fun s hs ↦ h.cached cve sector shown hcve hc s (Tables.mem_loadSuppressions.mp hs)
  · rename_i hc
    split
    · rename_i shown hsnap
      split
      · refine hanswer shown ?_
        split at hsnap
        · exact h.snapshots cve shown hsnap
        · cases hsnap
      · exact h
    · rename_i hsnap
      split
      · rename_i a ha
        exact hanswer _ fun s hm ↦ h.compute (hs hc hsnap) ha hm
      · exact h.respond fun s _ ↦ hides_empty s

theorem Inv.precompute (h : Inv w) (hs : w.db.Settled cve) : Inv (precompute cfg w task cve reading) := by
  unfold Dismissals.precompute
  split
  · rename_i a ha
    refine h.setTask (Tasks.forall_some ⟨fun s hm ↦ h.compute hs ha hm, ?_⟩)
    intro _ _ _ _ he
    exact Task.noConfusion he
  · exact h

theorem Inv.step (h : Inv w) {e : Event F} (hc : Careful w e) : Inv (step cfg w e) := by
  cases e with
  | change db =>
    exact h.shrink { db with suppressions := w.db.suppressions } (fun _ he ↦ he) fun _ ↦ false
  | suppress cve scope key => exact h.suppress hc
  | unsuppress cve scope key => exact h.unsuppress scope key
  | evict gone => exact h.shrink w.db (fun _ he ↦ he) gone
  | read task cve sector usesSnapshots reading =>
    simp only [Dismissals.step]
    split
    · exact h.read hc.1 hc.2
    · exact h
  | precompute task cve reading =>
    simp only [Dismissals.step]
    split
    · exact h.precompute hc
    · exact h
  | finish task => exact h.finish task
  | cancel task => exact h.setTask (by simp)

theorem read_db {usesSnapshots : Bool} : (read cfg w task cve sector usesSnapshots reading).db = w.db := by
  simp only [Dismissals.read]
  split
  · rfl
  · split
    · split <;> rfl
    · split <;> rfl

theorem precompute_db : (precompute cfg w task cve reading).db = w.db := by
  unfold Dismissals.precompute
  split <;> rfl

omit [Interp] [Sha256] [FloatOps F] [Iso] [Attribution F] [EdgeRules F] [Stamps] in
theorem finish_db : (finish w task).db = w.db := by
  unfold Dismissals.finish
  split <;> rfl

/-- A dismissal stays until it is removed. -/
theorem step_keeps {e : Event F} {s : Suppression} (hm : (cve, s) ∈ w.db.suppressions) (hne : ¬e.Removes cve s) :
    (cve, s) ∈ (step cfg w e).db.suppressions := by
  cases e with
  | change db => exact hm
  | suppress other scope key => exact suppress_keeps hm
  | unsuppress other scope key => exact unsuppress_keeps hm hne
  | evict gone => exact hm
  | read task other sector usesSnapshots reading =>
    simp only [Dismissals.step]
    split
    · rwa [read_db]
    · exact hm
  | precompute task other reading =>
    simp only [Dismissals.step]
    split
    · rwa [precompute_db]
    · exact hm
  | finish task =>
    simp only [Dismissals.step]
    rwa [finish_db]
  | cancel task => exact hm

/-- Throughout a careful run every response hides what is dismissed for its CVE when its request comes in, and a
dismissal is one of these until it is removed. -/
theorem dismissals_last (cfg : Config F) (db : Tables F) (events before : List (Event F))
    (h : Along (step cfg) Careful (.init db) events) (hb : before <+: events) :
    (∀ r ∈ (run (step cfg) (.init db) before).responses, ∀ s ∈ r.active, r.shown.Hides s) ∧
      ∀ earlier cve scope key later s, before = earlier ++ .suppress cve scope key :: later →
        suppressionFor (strip scope) key = some s → (∀ e ∈ later, ¬e.Removes cve s) →
          s ∈ (run (step cfg) (.init db) before).db.loadSuppressions cve := by
  constructor
  · exact (run_prefix_induction (fun _ _ hi hc ↦ hi.step hc) (inv_init db) h hb).responses
  · intro earlier cve scope key later s he hs hkept
    rw [Tables.mem_loadSuppressions, he, run_append, run_cons]
    have hstep : ∀ (w : World F) (e : Event F), (cve, s) ∈ w.db.suppressions → ¬e.Removes cve s →
        (cve, s) ∈ (step cfg w e).db.suppressions := fun _ _ ↦ step_keeps
    exact run_induction hstep (suppress_active hs) (along_const_iff.mpr hkept)

end

end

section Samples

local instance dismissalInterp : Interp := ascii fun _ ↦ none

local instance dismissalIso : Iso := ⟨fun _ ↦ none⟩

local instance dismissalSha256 : Sha256 := ⟨fun _ ↦ []⟩

local instance dismissalStamps : Stamps := ⟨fun now ↦ natText now⟩

local instance dismissalFloats : FloatOps ℚ where
  ofInt n := n
  lit n k := n / 10 ^ k
  add := (· + ·)
  mul := (· * ·)
  div := (· / ·)
  lt x y := decide (x < y)
  isZero x := decide (x = 0)
  round x _ := x
  fixed _ := []
  strOther _ := []

local instance dismissalAttribution : Attribution ℚ where
  sanitizePulseText s _ := s
  attributionConflict _ _ _ := false
  attributionClaims _ _ _ _ := .none

local instance dismissalRules : EdgeRules ℚ where
  confidenceForIocEdge _ _ _ _ :=
    { confidence := "high".toList
      why := none
      factors := [.dict [("factor".toList, .str "ioc_type".toList), ("value".toList, .str "HASH".toList),
        ("reason".toList, .str "Hash-type indicator".toList)]] }

def dismissedCve : Text := "CVE-2024-0001".toList

/-- A CVE that shares one hash with another. -/
def peerTables : Tables ℚ where
  suppressions := []
  familyPulses := []
  campaigns := []
  members := []
  links := []
  sharedIocs _ := [⟨"CVE-2024-0002".toList, "HASH".toList, "d41d8cd98f00b204e9800998ecf8427e".toList,
    some "2024-01-01T00:00:00+00:00".toList, none, 2⟩]
  sharedWith _ _ := []
  confirmations _ _ := ⟨none, false, false⟩
  corroborations _ _ := []
  hubEdges _ := 0
  actorNames _ := []
  techniques _ := ∅
  groups := []
  aliases := []
  adversaries _ := []
  cves _ := none
  temporal := []
  stackTerms := []

/-- A campaign of two CVEs, built from one pulse. -/
def campaignTables : Tables ℚ :=
  { peerTables with
    familyPulses := [⟨"fam_".toList, "p1".toList, none⟩]
    campaigns := [⟨"camp_".toList, "p1".toList, "Campaign".toList, [], .none, .none, .none, "high".toList, 2,
      "active".toList, 1, [], [], "fam_".toList, false⟩]
    members := [("camp_".toList, dismissedCve), ("camp_".toList, "CVE-2024-0002".toList)]
    sharedIocs := fun _ ↦ [] }

def dismissalConfig : Config ℚ := ⟨50, 25, 1 / 4, true, "2.0".toList⟩

def dismissalReading : Reading := ⟨0, Otx.sortedOrder⟩

def peerRun : List (Event ℚ) :=
  [.suppress dismissedCve "infrastructure".toList (.dict [("cve_id_b".toList, .str "cve-2024-0002".toList)]),
    .read 0 dismissedCve [] false dismissalReading, .finish 0, .read 0 dismissedCve [] false dismissalReading]

def pulseRun : List (Event ℚ) :=
  [.suppress dismissedCve "pulse_id".toList (.dict [("pulse_id".toList, .str "p1".toList)]),
    .read 0 dismissedCve [] false dismissalReading, .finish 0]

theorem settled_of_no_campaigns {F : Type} {db : Tables F} (h : db.campaigns = []) (cve : Text) : db.Settled cve := by
  have hopen : ∀ c, ¬db.Open cve c := by
    intro c hc
    have hm := (Tables.mem_campaignsOf.mp hc.1).1
    rw [h] at hm
    exact List.not_mem_nil hm
  exact ⟨fun c hc ↦ absurd hc (hopen c), fun _ _ _ c hc ↦ absurd hc (hopen c), fun _ _ _ c hc ↦ absurd hc (hopen c)⟩

theorem along_peerRun : Along (step dismissalConfig) Careful (.init peerTables) peerRun := by
  have hread : ∀ w : World ℚ, w.db.campaigns.isEmpty = true →
      Careful w (.read 0 dismissedCve [] false dismissalReading) := by
    intro w h
    exact ⟨by decide, fun _ _ ↦ settled_of_no_campaigns (List.isEmpty_iff.mp h) _⟩
  refine ⟨?_, hread _ (by decide +kernel), trivial, hread _ (by decide +kernel), trivial⟩
  intro s _
  constructor <;> simp [World.init]

theorem dismissed_peer_hidden :
    ((∀ r ∈ (run (step dismissalConfig) (.init peerTables) peerRun).responses, ∀ s ∈ r.active, r.shown.Hides s) ∧
      ∀ earlier cve scope key later s, peerRun = earlier ++ .suppress cve scope key :: later →
        suppressionFor (strip scope) key = some s → (∀ e ∈ later, ¬e.Removes cve s) →
          s ∈ (run (step dismissalConfig) (.init peerTables) peerRun).db.loadSuppressions cve) ∧
      (run (step dismissalConfig) (.init peerTables) peerRun).responses.map (fun r ↦ r.active) =
        [[⟨.infrastructure, "CVE-2024-0002".toList⟩], [⟨.infrastructure, "CVE-2024-0002".toList⟩]] :=
  ⟨dismissals_last dismissalConfig peerTables peerRun peerRun along_peerRun List.prefix_rfl, by decide +kernel⟩

theorem dismissed_pulse_shown :
    ¬∀ r ∈ (run (step dismissalConfig) (.init campaignTables) pulseRun).responses, ∀ s ∈ r.active, r.shown.Hides s := by
  decide +kernel

end Samples

end Briefr.Correlation.Dismissals
