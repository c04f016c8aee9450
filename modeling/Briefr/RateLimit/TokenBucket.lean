import Briefr.Library.Dict
import Briefr.Library.Runs
import Briefr.Library.StableSort
import Briefr.Library.TokenBucket
import Briefr.Python.Value
import Mathlib.Data.Rat.Lemmas
import Mathlib.Tactic.Positivity
import Mathlib.Tactic.NormNum

namespace Briefr.RateLimit.TokenBucket

open Briefr.Python Briefr.Library Briefr.Library.Runs Briefr.Library.TokenBucket

def pruneThreshold : ℕ := 1024

def maxBuckets : ℕ := 2 * pruneThreshold

/-- The rate is an `int`, one at least; times are exact seconds. -/
def rate (ratePerMinute : ℤ) : ℤ := max 1 ratePerMinute

def limit (ratePerMinute : ℤ) : Limit ℚ where
  capacity := rate ratePerMinute
  refill := rate ratePerMinute / 60
  one_le_capacity := by exact_mod_cast le_max_left 1 ratePerMinute
  refill_pos := by
    have h : (1 : ℚ) ≤ rate ratePerMinute := by exact_mod_cast le_max_left 1 ratePerMinute
    positivity

structure State where
  hitCount : ℕ
  buckets : Dict Text (ℚ × ℚ)
  hits : Dict Text ℕ

def init : State := ⟨0, Dict.empty, Dict.empty⟩

def fullAfter (c : Limit ℚ) : ℚ := c.capacity / c.refill

/-- The first half of `_maybe_prune`: buckets that are full again go. -/
def pruneIdle (c : Limit ℚ) (s : State) (now : ℚ) : State :=
  let buckets := s.buckets.keep fun _ state ↦ now - state.2 < fullAfter c
  { s with buckets, hits := s.hits.keep fun key _ ↦ (buckets.get? key).isSome }

def byRecency (buckets : Dict Text (ℚ × ℚ)) : List (Text × ℚ × ℚ) :=
  StableSort.sortBy (fun item ↦ OrderDual.toDual item.2.2) buckets.items

theorem nodup_byRecency (buckets : Dict Text (ℚ × ℚ)) (n : ℕ) : (((byRecency buckets).take n).map Prod.fst).Nodup := by
  have hp : ((byRecency buckets).map Prod.fst).Nodup :=
    ((StableSort.perm_sortBy _ buckets.items).map Prod.fst).nodup_iff.mpr buckets.nodup
  exact Dict.nodup_sub hp (List.take_sublist n _)

/-- The second half: past the hard cap only the buckets used last stay. -/
def evict (s : State) : State :=
  let buckets : Dict Text (ℚ × ℚ) := ⟨(byRecency s.buckets).take pruneThreshold, nodup_byRecency s.buckets pruneThreshold⟩
  { s with buckets, hits := s.hits.keep fun key _ ↦ (buckets.get? key).isSome }

def maybePrune (c : Limit ℚ) (s : State) (now : ℚ) : State :=
  if s.buckets.size < pruneThreshold then s
  else if (pruneIdle c s now).buckets.size ≤ maxBuckets then pruneIdle c s now
  else evict (pruneIdle c s now)

def State.hit (s : State) (key : Text) : State :=
  { s with hitCount := s.hitCount + 1, hits := s.hits.set key ((s.hits.get? key).getD 0 + 1) }

/-- `acquire` in memory, where `prune` is what it does to the buckets after a grant. -/
def acquireWith (prune : State → ℚ → State) (c : Limit ℚ) (s : State) (key : Text) (now : ℚ) : State × ℚ :=
  let s := s.hit key
  let (tokens, last) := (s.buckets.get? key).getD (c.capacity, now)
  let tokens := min c.capacity (tokens + (now - last) * c.refill)
  if 1 ≤ tokens then (prune { s with buckets := s.buckets.set key (tokens - 1, now) } now, 0)
  else ({ s with buckets := s.buckets.set key (tokens, now) }, (1 - tokens) / c.refill)

def acquire (c : Limit ℚ) (s : State) (key : Text) (now : ℚ) : State × ℚ := acquireWith (maybePrune c) c s key now

def acquireUnpruned (c : Limit ℚ) (s : State) (key : Text) (now : ℚ) : State × ℚ := acquireWith (fun s _ ↦ s) c s key now

structure Call where
  key : Text
  now : ℚ
deriving DecidableEq

def answers (acquire : State → Text → ℚ → State × ℚ) : State → List Call → List ℚ
  | _, [] => []
  | s, e :: calls => (acquire s e.key e.now).2 :: answers acquire (acquire s e.key e.now).1 calls

/-- The grants of a key from a time on, for a number of seconds. -/
def grantedIn (key : Text) (start length : ℚ) (calls : List Call) (answers : List ℚ) : ℕ :=
  (calls.zip answers).countP fun u ↦ u.1.key = key ∧ start ≤ u.1.now ∧ u.1.now ≤ start + length ∧ u.2 = 0

def step (c : Limit ℚ) (s : State) (e : Call) : State := (acquire c s e.key e.now).1

def Evicts (c : Limit ℚ) (s : State) (e : Call) : Prop :=
  (acquireUnpruned c s e.key e.now).2 = 0 ∧ pruneThreshold ≤ (acquireUnpruned c s e.key e.now).1.buckets.size ∧
    maxBuckets < (pruneIdle c (acquireUnpruned c s e.key e.now).1 e.now).buckets.size

instance (c : Limit ℚ) (s : State) (e : Call) : Decidable (Evicts c s e) :=
  inferInstanceAs (Decidable (_ ∧ _ ∧ _))

variable {c : Limit ℚ} {s u : State} {key : Text} {now clock : ℚ}

theorem acquireWith_of_le (prune : State → ℚ → State) (h : 1 ≤ level c (s.buckets.get? key) now) :
    acquireWith prune c s key now =
      (prune { s.hit key with buckets := s.buckets.set key (level c (s.buckets.get? key) now - 1, now) } now, 0) := if_pos h

theorem acquireWith_of_lt (prune : State → ℚ → State) (h : level c (s.buckets.get? key) now < 1) :
    acquireWith prune c s key now =
      ({ s.hit key with buckets := s.buckets.set key (level c (s.buckets.get? key) now, now) },
        (1 - level c (s.buckets.get? key) now) / c.refill) := if_neg (not_le.mpr h)

theorem acquireUnpruned_buckets (c : Limit ℚ) (s : State) (key : Text) (now : ℚ) :
    (acquireUnpruned c s key now).1.buckets = s.buckets.set key (draw c (s.buckets.get? key) now).1 := by
  rcases le_or_gt 1 (level c (s.buckets.get? key) now) with h | h
  · rw [acquireUnpruned, acquireWith_of_le _ h, draw_of_le h]
  · rw [acquireUnpruned, acquireWith_of_lt _ h, draw_of_lt h]

theorem answer_eq (prune : State → ℚ → State) (c : Limit ℚ) (s : State) (key : Text) (now : ℚ) :
    (acquireWith prune c s key now).2 = (draw c (s.buckets.get? key) now).2 := by
  rcases le_or_gt 1 (level c (s.buckets.get? key) now) with h | h
  · rw [acquireWith_of_le _ h, draw_of_le h]
  · rw [acquireWith_of_lt _ h, draw_of_lt h]

theorem acquireWith_fst (prune : State → ℚ → State) (c : Limit ℚ) (s : State) (key : Text) (now : ℚ) :
    (acquireWith prune c s key now).1 = (acquireUnpruned c s key now).1 ∨
      (acquireUnpruned c s key now).2 = 0 ∧
        (acquireWith prune c s key now).1 = prune (acquireUnpruned c s key now).1 now := by
  rcases le_or_gt 1 (level c (s.buckets.get? key) now) with h | h
  · rw [acquireUnpruned, acquireWith_of_le _ h, acquireWith_of_le _ h]
    exact .inr ⟨rfl, rfl⟩
  · rw [acquireUnpruned, acquireWith_of_lt _ h, acquireWith_of_lt _ h]
    exact .inl rfl

/-- Short of the eviction, a call changes nothing but the entry of its key and takes out entries that are full again. -/
theorem acquire_entry {e : Call} (he : ¬Evicts c s e) (k : Text) :
    (acquire c s e.key e.now).1.buckets.get? k = (acquireUnpruned c s e.key e.now).1.buckets.get? k ∨
      ∃ u, (acquireUnpruned c s e.key e.now).1.buckets.get? k = some u ∧ fullAfter c ≤ e.now - u.2 ∧
        (acquire c s e.key e.now).1.buckets.get? k = none := by
  rcases acquireWith_fst (maybePrune c) c s e.key e.now with h | ⟨hz, h⟩
  · rw [acquire, h]
    exact .inl rfl
  · rw [acquire, h, maybePrune]
    by_cases hsize : (acquireUnpruned c s e.key e.now).1.buckets.size < pruneThreshold
    · rw [if_pos hsize]
      exact .inl rfl
    · have hmax : (pruneIdle c (acquireUnpruned c s e.key e.now).1 e.now).buckets.size ≤ maxBuckets :=
        not_lt.mp fun hlt ↦ he ⟨hz, not_lt.mp hsize, hlt⟩
      rw [if_neg hsize, if_pos hmax]
      simp only [pruneIdle, Dict.get?_keep]
      cases hk : (acquireUnpruned c s e.key e.now).1.buckets.get? k with
      | none => exact .inl rfl
      | some u =>
        by_cases hidle : e.now - u.2 < fullAfter c
        · exact .inl (by simp [Option.filter, hidle])
        · exact .inr ⟨u, rfl, not_lt.mp hidle, by simp [Option.filter, hidle]⟩

/-- The pruned bucket and one that was never pruned, as they stand at a time. -/
structure Sim (c : Limit ℚ) (clock : ℚ) (s u : State) : Prop where
  agree : ∀ key, AgreeFrom c clock (s.buckets.get? key) (u.buckets.get? key)
  valid : ∀ key, ∀ e ∈ s.buckets.get? key, 0 ≤ e.1 ∧ e.2 ≤ clock

theorem Sim.init (c : Limit ℚ) (clock : ℚ) : Sim c clock init init where
  agree _ := AgreeFrom.refl clock none
  valid _ _ he := by cases he

theorem Sim.answer (h : Sim c clock s u) (hn : clock ≤ now) (prune prune' : State → ℚ → State) (key : Text) :
    (acquireWith prune c s key now).2 = (acquireWith prune' c u key now).2 := by
  rw [answer_eq, answer_eq, (h.agree key).draw hn]

theorem Sim.unpruned (h : Sim c clock s u) (hn : clock ≤ now) (key : Text) :
    Sim c now (acquireUnpruned c s key now).1 (acquireUnpruned c u key now).1 where
  agree k := by
    rw [acquireUnpruned_buckets, acquireUnpruned_buckets, Dict.get?_set, Dict.get?_set]
    split
    · rw [(h.agree key).draw hn]
      exact AgreeFrom.refl now _
    · exact (h.agree k).mono hn
  valid k e he := by
    rw [acquireUnpruned_buckets, Dict.get?_set] at he
    split at he
    · obtain rfl := Option.mem_some.mp he
      refine ⟨tokens_nonneg fun e he ↦ ?_, ?_⟩
      · exact ⟨(h.valid key e he).1, (h.valid key e he).2.trans hn⟩
      · rw [draw]
        split <;> exact le_refl now
    · exact ⟨(h.valid k e he).1, (h.valid k e he).2.trans hn⟩

theorem Sim.step (h : Sim c clock s u) {e : Call} (hn : clock ≤ e.now) (he : ¬Evicts c s e) :
    Sim c e.now (step c s e) (acquireUnpruned c u e.key e.now).1 := by
  have hu := h.unpruned hn e.key
  constructor
  · intro k
    rcases acquire_entry he k with hk | ⟨v, hv, hidle, hk⟩
    · rw [TokenBucket.step, hk]
      exact hu.agree k
    · rw [TokenBucket.step, hk]
      have hfull := agreeFrom_none_of_idle (hu.valid k v hv).1 hidle
      exact hfull.symm.trans (hv ▸ hu.agree k)
  · intro k v hv
    rw [TokenBucket.step] at hv
    rcases acquire_entry he k with hk | ⟨w, -, -, hk⟩
    · exact hu.valid k v (hk ▸ hv)
    · rw [hk] at hv
      cases hv

theorem Sim.mono (h : Sim c clock s u) (hn : clock ≤ now) : Sim c now s u where
  agree key := (h.agree key).mono hn
  valid key e he := ⟨(h.valid key e he).1, (h.valid key e he).2.trans hn⟩

def stepUnpruned (c : Limit ℚ) (s : State) (e : Call) : State := (acquireUnpruned c s e.key e.now).1

variable {calls : List Call}

theorem Sim.run (h : Sim c clock s u) (hs : calls.Pairwise fun a b ↦ a.now ≤ b.now) (hc : ∀ e ∈ calls, clock ≤ e.now)
    (he : Along (TokenBucket.step c) (fun s e ↦ ¬Evicts c s e) s calls) (hn : clock ≤ now) (hl : ∀ e ∈ calls, e.now ≤ now) :
    Sim c now (run (TokenBucket.step c) s calls) (run (stepUnpruned c) u calls) := by
  induction calls generalizing clock s u with
  | nil => exact h.mono hn
  | cons e calls ih =>
    obtain ⟨hse, hs⟩ := List.pairwise_cons.mp hs
    exact ih (h.step (hc e (.head _)) he.1) hs hse he.2 (hl e (.head _)) fun x hx ↦ hl x (.tail _ hx)

theorem Sim.answers (h : Sim c clock s u) (hs : calls.Pairwise fun a b ↦ a.now ≤ b.now) (hc : ∀ e ∈ calls, clock ≤ e.now)
    (he : Along (TokenBucket.step c) (fun s e ↦ ¬Evicts c s e) s calls) :
    answers (acquire c) s calls = answers (acquireUnpruned c) u calls := by
  induction calls generalizing clock s u with
  | nil => rfl
  | cons e calls ih =>
    obtain ⟨hse, hs⟩ := List.pairwise_cons.mp hs
    have ha := h.answer (hc e (.head _)) (maybePrune c) (fun s _ ↦ s) e.key
    exact congrArg₂ List.cons ha (ih (h.step (hc e (.head _)) he.1) hs hse he.2)

/-- Without pruning the calls of one key are the uses of one bucket. -/
theorem grantedIn_unpruned (c : Limit ℚ) (u : State) (calls : List Call) (key : Text) (start length : ℚ) :
    grantedIn key start length calls (answers (acquireUnpruned c) u calls) =
      drawnIn start (start + length) ((calls.filter fun e ↦ e.key = key).map Call.now)
        (waits c (u.buckets.get? key) ((calls.filter fun e ↦ e.key = key).map Call.now)) := by
  induction calls generalizing u with
  | nil => rfl
  | cons e calls ih =>
    have ih := ih (acquireUnpruned c u e.key e.now).1
    rw [acquireUnpruned_buckets, Dict.get?_set] at ih
    by_cases hk : e.key = key
    · rw [List.filter_cons_of_pos (by simpa using hk)]
      rw [if_pos hk.symm] at ih
      have ha := answer_eq (fun s _ ↦ s) c u e.key e.now
      simp only [grantedIn, drawnIn, answers, waits, List.map_cons, List.zip_cons_cons, List.countP_cons] at ih ⊢
      rw [ih, acquireUnpruned, ha]
      simp only [hk, true_and]
    · rw [List.filter_cons_of_neg (by simpa using hk)]
      rw [if_neg fun h ↦ hk h.symm] at ih
      rw [← ih]
      simp [grantedIn, answers, hk]

theorem run_unpruned_of_ne (c : Limit ℚ) (u : State) (h : ∀ e ∈ calls, e.key ≠ key) :
    (run (stepUnpruned c) u calls).buckets.get? key = u.buckets.get? key := by
  induction calls generalizing u with
  | nil => rfl
  | cons e calls ih =>
    rw [run_cons, ih _ fun x hx ↦ h x (.tail _ hx), stepUnpruned, acquireUnpruned_buckets, Dict.get?_set,
      if_neg (h e (.head _)).symm]

theorem exists_start (hs : calls.Pairwise fun a b ↦ a.now ≤ b.now) (hl : ∀ e ∈ calls, e.now ≤ now) :
    ∃ clock ≤ now, ∀ e ∈ calls, clock ≤ e.now := by
  cases calls with
  | nil => exact ⟨now, le_rfl, by simp⟩
  | cons e calls =>
    refine ⟨e.now, hl e (.head _), ?_⟩
    intro x hx
    rcases List.mem_cons.mp hx with rfl | hx
    · exact le_rfl
    · exact (List.pairwise_cons.mp hs).1 x hx

theorem exists_end (calls : List Call) : ∃ now, ∀ e ∈ calls, e.now ≤ now := by
  induction calls with
  | nil => exact ⟨0, by simp⟩
  | cons e calls ih =>
    obtain ⟨now, hn⟩ := ih
    refine ⟨max e.now now, ?_⟩
    intro x hx
    rcases List.mem_cons.mp hx with rfl | hx
    · exact le_max_left _ _
    · exact (hn x hx).trans (le_max_right _ _)

theorem sim_run_init (hs : calls.Pairwise fun a b ↦ a.now ≤ b.now) (hl : ∀ e ∈ calls, e.now ≤ now)
    (he : Along (step c) (fun s e ↦ ¬Evicts c s e) init calls) :
    Sim c now (run (step c) init calls) (run (stepUnpruned c) init calls) := by
  obtain ⟨clock, hn, hc⟩ := exists_start hs hl
  exact (Sim.init c clock).run hs hc he hn hl

theorem answers_unpruned (hs : calls.Pairwise fun a b ↦ a.now ≤ b.now)
    (he : Along (step c) (fun s e ↦ ¬Evicts c s e) init calls) :
    answers (acquire c) init calls = answers (acquireUnpruned c) init calls := by
  obtain ⟨now, hl⟩ := exists_end calls
  obtain ⟨clock, -, hc⟩ := exists_start hs hl
  exact (Sim.init c clock).answers hs hc he

/-- Asked again with no other call of the key in between, the bucket grants from the announced time on. -/
theorem retry_granted_iff {before between : List Call}
    (hs : (before ++ ⟨key, now⟩ :: between).Pairwise fun a b ↦ a.now ≤ b.now)
    (he : Along (step c) (fun s e ↦ ¬Evicts c s e) init (before ++ ⟨key, now⟩ :: between))
    (hk : ∀ e ∈ between, e.key ≠ key) {t : ℚ} (hl : ∀ e ∈ before ++ ⟨key, now⟩ :: between, e.now ≤ t)
    (hd : (acquire c (run (step c) init before) key now).2 ≠ 0) :
    (acquire c (run (step c) init (before ++ ⟨key, now⟩ :: between)) key t).2 = 0 ↔
      now + (acquire c (run (step c) init before) key now).2 ≤ t := by
  have hb : ∀ e ∈ before, e.now ≤ now := fun e hm ↦ (List.pairwise_append.mp hs).2.2 e hm _ (.head _)
  have hsim := sim_run_init (List.pairwise_append.mp hs).1 hb (along_append.mp he).1
  have hd' := hsim.answer le_rfl (maybePrune c) (fun s _ ↦ s) key
  have ha := (sim_run_init hs hl he).answer le_rfl (maybePrune c) (fun s _ ↦ s) key
  rw [acquire] at hd
  rw [acquire, acquire, ha, hd', answer_eq, answer_eq, run_append, run_cons, run_unpruned_of_ne c _ hk, stepUnpruned,
    acquireUnpruned_buckets, Dict.get?_set, if_pos rfl]
  rw [hd', answer_eq] at hd
  exact retry_iff hd t

/-- The contract of the bucket in memory while the hard cap evicts nothing: no window grants a key more than the
capacity and what the window refills, pruning shows in no answer, and the answer of a denied call is the exact time
to wait. -/
theorem acquire_contract (ratePerMinute : ℤ) (calls : List Call) (hs : calls.Pairwise fun a b ↦ a.now ≤ b.now)
    (he : Along (step (limit ratePerMinute)) (fun s e ↦ ¬Evicts (limit ratePerMinute) s e) init calls) :
    (∀ key start length, 0 ≤ length →
      (grantedIn key start length calls (answers (acquire (limit ratePerMinute)) init calls) : ℚ) ≤
        rate ratePerMinute + length * rate ratePerMinute / 60) ∧
    answers (acquire (limit ratePerMinute)) init calls = answers (acquireUnpruned (limit ratePerMinute)) init calls ∧
    ∀ before key now between, calls = before ++ ⟨key, now⟩ :: between → (∀ e ∈ between, e.key ≠ key) →
      ∀ t, (∀ e ∈ calls, e.now ≤ t) →
      let r := (acquire (limit ratePerMinute) (run (step (limit ratePerMinute)) init before) key now).2
      let again := (acquire (limit ratePerMinute) (run (step (limit ratePerMinute)) init calls) key t).2
      0 < r → (t = now + r → again = 0) ∧ (t < now + r → 0 < again) := by
  refine ⟨?_, answers_unpruned hs he, ?_⟩
  · intro key start length hl
    rw [answers_unpruned hs he, grantedIn_unpruned]
    have h := drawn_le (c := limit ratePerMinute) (Dict.get? init.buckets key)
      ((calls.filter fun e ↦ e.key = key).map Call.now) (le_add_of_nonneg_right hl : start ≤ start + length)
    rw [add_sub_cancel_left] at h
    exact h.trans_eq (by simp only [limit, mul_div_assoc])
  · intro before key now between hcalls hk t hl r again hr
    subst hcalls
    have hiff := retry_granted_iff hs he hk hl hr.ne'
    refine ⟨fun ht ↦ hiff.mpr ht.ge, fun ht ↦ ?_⟩
    have hne : again ≠ 0 := fun h0 ↦ absurd (hiff.mp h0) (not_le.mpr ht)
    have hge : 0 ≤ again := by
      rw [show again = _ from answer_eq _ _ _ _ _]
      exact wait_nonneg _ _
    exact lt_of_le_of_ne hge hne.symm

theorem acquire_contract_one_per_minute :
    (grantedIn ['k'] 0 30 [⟨['k'], 0⟩, ⟨['k'], 15⟩] (answers (acquire (limit 1)) init [⟨['k'], 0⟩, ⟨['k'], 15⟩]) : ℚ) ≤
        rate 1 + 30 * rate 1 / 60 ∧
      (acquire (limit 1) (run (step (limit 1)) init [⟨['k'], 0⟩, ⟨['k'], 15⟩]) ['k'] 60).2 = 0 := by
  have h := acquire_contract 1 [⟨['k'], 0⟩, ⟨['k'], 15⟩] (by decide +kernel) (by decide +kernel)
  refine ⟨h.1 ['k'] 0 30 (by decide +kernel), ?_⟩
  exact (h.2.2 [⟨['k'], 0⟩] ['k'] 15 [] rfl (by simp) 60 (by decide +kernel) (by decide +kernel)).1 (by decide +kernel)

end Briefr.RateLimit.TokenBucket
