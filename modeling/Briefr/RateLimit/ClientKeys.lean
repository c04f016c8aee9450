import Briefr.RateLimit.SharedStore
import Mathlib.Data.List.Dedup

namespace Briefr.RateLimit.ClientKeys

open Briefr.Python Briefr.Library Briefr.Library.Runs Briefr.Library.TokenBucket Briefr.RateLimit.TokenBucket
  Briefr.RateLimit.SharedStore

/-- What `shared_store_enabled` says. -/
inductive Mode
  | memory
  | shared
  deriving DecidableEq

/-- A bucket of the process, and the rows of the shared store. -/
structure Tracked where
  bucket : State
  rows : Text → Option Stored

def Tracked.init (rows : Text → Option Stored) : Tracked := ⟨TokenBucket.init, rows⟩

/-- `acquire`, which hands the call on to the shared store where that is enabled. -/
def acquireIn (mode : Mode) (c : Limit ℚ) (s : Tracked) (e : Call) : Tracked × ℚ :=
  match mode with
  | .memory =>
    let (bucket, wait) := acquire c s.bucket e.key e.now
    (⟨bucket, s.rows⟩, wait)
  | .shared =>
    let (saved, wait) := taken c (s.rows e.key) e.now
    (⟨s.bucket.hit e.key, Function.update s.rows e.key (some saved)⟩, wait)

def stepIn (mode : Mode) (c : Limit ℚ) (s : Tracked) (e : Call) : Tracked := (acquireIn mode c s e).1

/-- Both dictionaries are within the hard cap, and in memory a key that is counted has a bucket. -/
structure Bounded (mode : Mode) (s : State) : Prop where
  buckets : s.buckets.size ≤ maxBuckets
  hits : s.hits.size ≤ maxBuckets
  counted : mode = .memory → s.hits.keys ⊆ s.buckets.keys

/-- The number of distinct clients of a sequence of calls. -/
def clients (calls : List Call) : ℕ := (calls.map Call.key).dedup.length

/-- What the calls in memory keep. -/
structure Capped (s : State) : Prop where
  size : s.buckets.size ≤ maxBuckets
  counted : s.hits.keys ⊆ s.buckets.keys

variable {c : Limit ℚ} {s : State}

theorem Capped.bounded (h : Capped s) (mode : Mode) : Bounded mode s :=
  ⟨h.size, (Dict.size_le_of_keys_subset h.counted).trans h.size, fun _ ↦ h.counted⟩

/-- The counts that a pruning leaves are of keys whose bucket it leaves. -/
theorem counted_keep (hits : Dict Text ℕ) (buckets : Dict Text (ℚ × ℚ)) :
    (hits.keep fun key _ ↦ (buckets.get? key).isSome).keys ⊆ buckets.keys := by
  intro k hk
  rw [Dict.mem_keys_iff, Dict.get?_keep] at hk
  obtain ⟨n, hn⟩ := Option.isSome_iff_exists.mp hk
  exact Dict.mem_keys_iff.mpr (Option.filter_eq_some_iff.mp hn).2

/-- The pruning brings back the cap, whatever it starts from. -/
theorem Capped.maybePrune (hc : s.hits.keys ⊆ s.buckets.keys) (now : ℚ) : Capped (maybePrune c s now) := by
  rw [TokenBucket.maybePrune]
  split
  · rename_i hsize
    have hmax : pruneThreshold ≤ maxBuckets := by decide
    exact ⟨hsize.le.trans hmax, hc⟩
  · split
    · rename_i hidle
      exact ⟨hidle, counted_keep _ _⟩
    · refine ⟨?_, counted_keep _ _⟩
      have hmax : pruneThreshold ≤ maxBuckets := by decide
      exact (List.length_take_le _ _).trans hmax

/-- A key without a bucket gets a full one, so it is never denied. -/
theorem mem_keys_of_denied {key : Text} {now : ℚ} (h : level c (s.buckets.get? key) now < 1) : key ∈ s.buckets.keys := by
  rw [Dict.mem_keys_iff]
  cases hk : s.buckets.get? key with
  | none =>
    rw [hk, level_none] at h
    exact absurd c.one_le_capacity (not_le.mpr h)
  | some entry => rfl

theorem counted_hit (h : s.hits.keys ⊆ s.buckets.keys) (key : Text) (entry : ℚ × ℚ) :
    (s.hit key).hits.keys ⊆ (s.buckets.set key entry).keys := by
  intro k hk
  rcases Dict.mem_keys_set.mp hk with rfl | hk
  · exact Dict.mem_keys_set.mpr (.inl rfl)
  · exact Dict.mem_keys_set.mpr (.inr (h hk))

theorem Capped.acquire (h : Capped s) (key : Text) (now : ℚ) : Capped (acquire c s key now).1 := by
  rcases le_or_gt 1 (level c (s.buckets.get? key) now) with hl | hl
  · rw [TokenBucket.acquire, acquireWith_of_le _ hl]
    exact .maybePrune (counted_hit h.counted key _) now
  · rw [TokenBucket.acquire, acquireWith_of_lt _ hl]
    refine ⟨?_, counted_hit h.counted key _⟩
    rw [Dict.size_eq, Dict.keys_set_of_mem (mem_keys_of_denied hl), ← Dict.size_eq]
    exact h.size

theorem capped_memory (c : Limit ℚ) (rows : Text → Option Stored) (calls : List Call) :
    Capped (run (stepIn .memory c) (.init rows) calls).bucket := by
  let inv (s : Tracked) : Prop := Capped s.bucket
  have hinit : inv (.init rows) := ⟨Nat.zero_le _, List.Subset.refl _⟩
  have hstep : ∀ s e, inv s → inv (stepIn .memory c s e) := fun s e h ↦ Capped.acquire h e.key e.now
  exact run_invariant calls hstep hinit

/-- In the shared mode each key that ever came is counted, and no bucket is ever stored. -/
theorem run_shared (c : Limit ℚ) (s : Tracked) (calls : List Call) :
    (run (stepIn .shared c) s calls).bucket.buckets = s.bucket.buckets ∧
      ∀ k, k ∈ (run (stepIn .shared c) s calls).bucket.hits.keys ↔
        k ∈ calls.map Call.key ∨ k ∈ s.bucket.hits.keys := by
  induction calls generalizing s with
  | nil => simp
  | cons e calls ih =>
    obtain ⟨hb, hh⟩ := ih (stepIn .shared c s e)
    refine ⟨hb, fun k ↦ ?_⟩
    have hk : k ∈ (stepIn .shared c s e).bucket.hits.keys ↔ k = e.key ∨ k ∈ s.bucket.hits.keys := Dict.mem_keys_set
    rw [run_cons, hh, hk, List.map_cons, List.mem_cons]
    tauto

theorem size_hits_shared (c : Limit ℚ) (rows : Text → Option Stored) (calls : List Call) :
    (run (stepIn .shared c) (.init rows) calls).bucket.hits.size = clients calls := by
  have hperm : (run (stepIn .shared c) (.init rows) calls).bucket.hits.keys.Perm (calls.map Call.key).dedup := by
    refine (List.perm_ext_iff_of_nodup (Dict.nodup _) (List.nodup_dedup _)).mpr fun k ↦ ?_
    rw [List.mem_dedup, ← Dict.keys, (run_shared c (.init rows) calls).2]
    exact or_iff_left List.not_mem_nil
  rw [Dict.size_eq, hperm.length_eq, clients]

/-- After any calls the client keys that the process tracks are bounded exactly in memory, and in the shared mode as
long as there are no more clients than the cap. -/
theorem keys_bounded_iff (ratePerMinute : ℤ) (mode : Mode) (rows : Text → Option Stored) (calls : List Call) :
    Bounded mode (run (stepIn mode (limit ratePerMinute)) (.init rows) calls).bucket ↔
      mode = .memory ∨ clients calls ≤ maxBuckets := by
  cases mode with
  | memory => exact iff_of_true ((capped_memory _ rows calls).bounded _) (.inl rfl)
  | shared =>
    rw [or_iff_right (by decide), ← size_hits_shared (limit ratePerMinute) rows calls]
    refine ⟨fun h ↦ h.hits, fun h ↦ ⟨?_, h, nofun⟩⟩
    rw [(run_shared _ (.init rows) calls).1]
    exact Nat.zero_le _

/-- A call of each of as many clients. -/
def flood (n : ℕ) : List Call := (List.range n).map fun i ↦ ⟨List.replicate i 'a', 0⟩

theorem clients_flood (n : ℕ) : clients (flood n) = n := by
  have hinj : Function.Injective fun i ↦ List.replicate i 'a' := by
    intro i j h
    simpa using congrArg List.length h
  have hnodup : ((flood n).map Call.key).Nodup := by
    rw [flood, List.map_map]
    exact List.nodup_range.map hinj
  rw [clients, hnodup.dedup, List.length_map, flood, List.length_map, List.length_range]

/-- One client more than the cap, and the counts of all of them are kept. -/
theorem flood_is_tracked :
    (run (stepIn .shared (limit 1)) (.init fun _ ↦ none) (flood 2049)).bucket.hits.size = 2049 ∧
      ¬∀ (ratePerMinute : ℤ) (mode : Mode) (rows : Text → Option Stored) (calls : List Call),
        Bounded mode (run (stepIn mode (limit ratePerMinute)) (.init rows) calls).bucket := by
  have hsize : (run (stepIn .shared (limit 1)) (.init fun _ ↦ none) (flood 2049)).bucket.hits.size = 2049 :=
    (size_hits_shared _ _ _).trans (clients_flood 2049)
  refine ⟨hsize, fun h ↦ ?_⟩
  have hb := (h 1 .shared (fun _ ↦ none) (flood 2049)).hits
  rw [hsize] at hb
  exact absurd hb (by decide)

end Briefr.RateLimit.ClientKeys
