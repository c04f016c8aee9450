import Briefr.RateLimit.TokenBucket

namespace Briefr.RateLimit.SharedStore

open Briefr.Library.Runs Briefr.Library.TokenBucket Briefr.RateLimit.TokenBucket

/-- The value of the key's row of `sync_state`. -/
structure Stored where
  tokens : ℚ
  last : ℚ
  hits : ℕ
deriving DecidableEq

def Stored.bucket (stored : Stored) : ℚ × ℚ := (stored.tokens, stored.last)

/-- What `shared_acquire` saves and returns, from what it loaded. -/
def taken (c : Limit ℚ) (loaded : Option Stored) (now : ℚ) : Stored × ℚ :=
  let tokens := (loaded.map Stored.tokens).getD c.capacity
  let last := (loaded.map Stored.last).getD now
  let hits := (loaded.map Stored.hits).getD 0 + 1
  let tokens := min c.capacity (tokens + (now - last) * c.refill)
  if 1 ≤ tokens then (⟨tokens - 1, now, hits⟩, 0) else (⟨tokens, now, hits⟩, (1 - tokens) / c.refill)

/-- A `shared_acquire` under way: the clock is read, then the state is loaded, then it is saved. -/
inductive Phase
  | loading (now : ℚ)
  | saving (now : ℚ) (loaded : Option Stored)

/-- One key of the store and the workers that use it. -/
structure World where
  stored : Option Stored
  calls : ℕ → Option Phase
  log : List (ℚ × ℚ)

def World.init : World := ⟨none, fun _ ↦ none, []⟩

inductive Event
  | start (worker : ℕ) (now : ℚ)
  | load (worker : ℕ)
  | save (worker : ℕ)

def startCall (w : World) (worker : ℕ) (now : ℚ) : World :=
  match w.calls worker with
  | none => { w with calls := Function.update w.calls worker (some (.loading now)) }
  | some _ => w

/-- `_load_state`, a transaction of its own. -/
def loadState (w : World) (worker : ℕ) : World :=
  match w.calls worker with
  | some (.loading now) => { w with calls := Function.update w.calls worker (some (.saving now w.stored)) }
  | _ => w

/-- `_save_state`, and the return. -/
def saveState (c : Limit ℚ) (w : World) (worker : ℕ) : World :=
  match w.calls worker with
  | some (.saving now loaded) =>
    { stored := some (taken c loaded now).1
      calls := Function.update w.calls worker none
      log := w.log ++ [(now, (taken c loaded now).2)] }
  | _ => w

def step (c : Limit ℚ) (w : World) : Event → World
  | .start worker now => startCall w worker now
  | .load worker => loadState w worker
  | .save worker => saveState c w worker

def Event.clock? : Event → Option ℚ
  | .start _ now => some now
  | _ => none

def World.grantedIn (w : World) (start length : ℚ) : ℕ :=
  w.log.countP fun u ↦ start ≤ u.1 ∧ u.1 ≤ start + length ∧ u.2 = 0

def Phase.loaded? : Phase → Option (Option Stored)
  | .loading _ => none
  | .saving _ loaded => some loaded

/-- What the worker is about to save was computed from the row as it stands. -/
def Fresh (w : World) : Event → Prop
  | .save worker => ∀ loaded ∈ (w.calls worker).bind Phase.loaded?, loaded = w.stored
  | _ => True

instance (w : World) : (e : Event) → Decidable (Fresh w e)
  | .start _ _ => inferInstanceAs (Decidable True)
  | .load _ => inferInstanceAs (Decidable True)
  | .save _ => inferInstanceAs (Decidable (∀ _ ∈ _, _))

theorem taken_eq (c : Limit ℚ) (loaded : Option Stored) (now : ℚ) :
    (taken c loaded now).1.bucket = (draw c (loaded.map Stored.bucket) now).1 ∧
      (taken c loaded now).2 = (draw c (loaded.map Stored.bucket) now).2 := by
  have hl : min c.capacity ((loaded.map Stored.tokens).getD c.capacity +
      (now - (loaded.map Stored.last).getD now) * c.refill) = level c (loaded.map Stored.bucket) now := by
    cases loaded <;> rfl
  rw [taken]
  simp only [hl]
  rcases le_or_gt 1 (level c (loaded.map Stored.bucket) now) with h | h
  · rw [if_pos h, draw_of_le h]
    exact ⟨rfl, rfl⟩
  · rw [if_neg (not_le.mpr h), draw_of_lt h]
    exact ⟨rfl, rfl⟩

/-- The row and the answers are those of one worker that served the calls in the order of their saves. -/
structure Serial (c : Limit ℚ) (w : World) : Prop where
  stored : w.stored.map Stored.bucket = afterAll c none (w.log.map Prod.fst)
  answers : w.log.map Prod.snd = waits c none (w.log.map Prod.fst)

theorem Serial.init (c : Limit ℚ) : Serial c World.init := ⟨rfl, rfl⟩

theorem Serial.save {c : Limit ℚ} {w : World} (h : Serial c w) {worker : ℕ} (hf : Fresh w (.save worker)) :
    Serial c (saveState c w worker) := by
  rw [saveState]
  split
  · rename_i now loaded hc
    obtain rfl : loaded = w.stored := hf loaded (by rw [hc]; rfl)
    have ht := taken_eq c w.stored now
    rw [h.stored] at ht
    constructor
    · simp only [List.map_append, List.map_cons, List.map_nil, afterAll_concat, Option.map_some, ht.1]
    · simp only [List.map_append, List.map_cons, List.map_nil, waits_concat, ht.2, h.answers]
  · exact h

theorem Serial.step {c : Limit ℚ} {w : World} {e : Event} (h : Serial c w) (hf : Fresh w e) : Serial c (step c w e) := by
  cases e with
  | start worker now =>
    simp only [SharedStore.step, startCall]
    split
    · exact ⟨h.stored, h.answers⟩
    · exact h
  | load worker =>
    simp only [SharedStore.step, loadState]
    split
    · exact ⟨h.stored, h.answers⟩
    · exact h
  | save worker => exact h.save hf

theorem Serial.grantedIn {c : Limit ℚ} {w : World} (h : Serial c w) (start length : ℚ) :
    w.grantedIn start length = drawnIn start (start + length) (w.log.map Prod.fst) (waits c none (w.log.map Prod.fst)) := by
  rw [← h.answers, drawnIn, ← List.zip_of_prod rfl rfl]
  rfl

/-- Where no save overwrites a save that its load missed, the shared row keeps the bound of a single worker. -/
theorem granted_of_fresh (ratePerMinute : ℤ) (events before : List Event)
    (h : Along (step (limit ratePerMinute)) Fresh World.init events) (hb : before <+: events) (start length : ℚ)
    (hl : 0 ≤ length) :
    ((run (step (limit ratePerMinute)) World.init before).grantedIn start length : ℚ) ≤
      rate ratePerMinute + length * rate ratePerMinute / 60 := by
  have hs : Serial (limit ratePerMinute) (run (step (limit ratePerMinute)) World.init before) :=
    run_prefix_induction (fun _ _ ↦ Serial.step) (Serial.init _) h hb
  have hd := drawn_le (c := limit ratePerMinute) none
    ((run (step (limit ratePerMinute)) World.init before).log.map Prod.fst)
    (le_add_of_nonneg_right hl : start ≤ start + length)
  rw [add_sub_cancel_left, ← hs.grantedIn] at hd
  exact hd.trans_eq (by simp only [limit, mul_div_assoc])

/-- Two workers, one after the other. -/
def oneAfterTheOther : List Event := [.start 0 0, .load 0, .save 0, .start 1 0, .load 1, .save 1]

theorem granted_one_after_the_other :
    ((run (step (limit 1)) World.init oneAfterTheOther).grantedIn 0 0 : ℚ) ≤ rate 1 + 0 * rate 1 / 60 :=
  granted_of_fresh 1 oneAfterTheOther oneAfterTheOther (by decide +kernel) List.prefix_rfl 0 0 le_rfl

/-- Two workers that both load before either saves. -/
def bothLoadFirst : List Event := [.start 0 0, .start 1 0, .load 0, .load 1, .save 0, .save 1]

theorem granted_twice_of_both_load_first :
    ¬∀ (ratePerMinute : ℤ) (events : List Event), (events.filterMap Event.clock?).Pairwise (· ≤ ·) →
      ∀ start length : ℚ, 0 ≤ length → ((run (step (limit ratePerMinute)) World.init events).grantedIn start length : ℚ) ≤
        rate ratePerMinute + length * rate ratePerMinute / 60 := by
  intro h
  have hb := h 1 bothLoadFirst (by decide +kernel) 0 0 le_rfl
  have hg : (run (step (limit 1)) World.init bothLoadFirst).grantedIn 0 0 = 2 := by decide +kernel
  rw [hg] at hb
  revert hb
  decide +kernel

end Briefr.RateLimit.SharedStore

namespace Briefr.RateLimit.Lockout

open Briefr.Library.Runs Briefr.Library.TokenBucket Briefr.RateLimit.TokenBucket Briefr.RateLimit.SharedStore

/-- What a client that is sent away is promised: a token within the time that refills one, and at the latest after the
time it was told. The row is the one that its own call saved. -/
def Promised (ratePerMinute : ℤ) (loaded : Option Stored) (now : ℚ) : Prop :=
  let (saved, wait) := taken (limit ratePerMinute) loaded now
  wait ≤ 60 / rate ratePerMinute ∧
    (wait ≠ 0 → ∀ again, now + wait ≤ again → (taken (limit ratePerMinute) (some saved) again).2 = 0)

/-- The clock is behind the stored reading by no more than the tokens left are worth. -/
def Covered (ratePerMinute : ℤ) (loaded : Option Stored) (now : ℚ) : Prop :=
  ∀ stored ∈ loaded, (stored.last - now) * (rate ratePerMinute / 60) ≤ stored.tokens

instance (ratePerMinute : ℤ) (loaded : Option Stored) (now : ℚ) : Decidable (Covered ratePerMinute loaded now) :=
  inferInstanceAs (Decidable (∀ _ ∈ _, _))

/-- A statement about each `shared_acquire` at the moment when it computes what it saves and returns. -/
def AtSave (P : Option Stored → ℚ → Prop) (w : World) : Event → Prop
  | .save worker => ∀ now loaded, w.calls worker = some (.saving now loaded) → P loaded now
  | _ => True

variable {ratePerMinute : ℤ} {loaded : Option Stored} {now : ℚ}

theorem sixty_div_rate (ratePerMinute : ℤ) : (60 : ℚ) / rate ratePerMinute = 1 / (limit ratePerMinute).refill := by
  rw [limit, one_div_div]

theorem covered_iff :
    Covered ratePerMinute loaded now ↔ 0 ≤ level (limit ratePerMinute) (loaded.map Stored.bucket) now := by
  rw [level_nonneg_iff, Covered]
  cases loaded with
  | none => simp
  | some stored =>
    simp only [Option.mem_some_iff, forall_eq', Option.map_some, Stored.bucket, limit]
    constructor
    · intro h
      linarith
    · intro h
      linarith

/-- The time that a denied client is told is always enough: what a clock that went back breaks is its bound. -/
theorem granted_after_wait (hd : (taken (limit ratePerMinute) loaded now).2 ≠ 0) {again : ℚ}
    (ha : now + (taken (limit ratePerMinute) loaded now).2 ≤ again) :
    (taken (limit ratePerMinute) (some (taken (limit ratePerMinute) loaded now).1) again).2 = 0 := by
  obtain ⟨hsaved, hwait⟩ := taken_eq (limit ratePerMinute) loaded now
  obtain ⟨-, hagain⟩ := taken_eq (limit ratePerMinute) (some (taken (limit ratePerMinute) loaded now).1) again
  rw [hwait] at hd ha
  rw [hagain, Option.map_some, hsaved]
  exact (retry_iff hd again).mpr ha

theorem promised_iff : Promised ratePerMinute loaded now ↔ Covered ratePerMinute loaded now := by
  have hwait := (taken_eq (limit ratePerMinute) loaded now).2
  rw [covered_iff, ← wait_le_iff, ← sixty_div_rate, ← hwait]
  exact and_iff_left fun hd _ ha ↦ granted_after_wait hd ha

/-- The last token is taken a day after the host has booted; then the host boots again. -/
def rebooted : List Event := [.start 0 86400, .load 0, .save 0, .start 0 0, .load 0, .save 0]

end Briefr.RateLimit.Lockout
