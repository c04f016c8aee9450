import Briefr.Library.Runs
import Mathlib.Data.List.Infix
import Mathlib.Logic.Function.Basic
import Mathlib.Order.Basic

namespace Briefr.Wallboard.TokenStore

open Briefr.Library Briefr.Library.Runs

/-- The calls a task can make. `status` stands for `rotation_status`, which reads the generation even
where it is cached; a verification names the issuance token by its place in the order of
issue and carries what PyJWT says of it. -/
inductive Call
  | read
  | status
  | issue
  | verify (token : ℕ) (decodes : Bool)
  | rotate
  | revoke
  | seed
  deriving DecidableEq

/-- Where a task stands between two awaits. `before` is the number of tokens issued when its call began. -/
inductive Phase
  | reading (call : Call) (proc before : ℕ)
  | fetched (call : Call) (proc before value : ℕ)
  | writing (proc before : ℕ) (rotates : Bool) (generation : ℕ)
  | committed (proc before generation : ℕ)
  | seeding (proc : ℕ)
  | seeded (proc : ℕ)

/-- The rows of `app_settings`, the cache of each worker process and the tasks. Beside them the
history: the generations of the tokens issued so far, how many of them a completed rotation or
revocation covers, the accepted verifications with the number covered at that time, and the
number of generations written by rotations and revocations. -/
structure World where
  stored : Option ℕ
  rotated : Bool
  cache : ℕ → Option ℕ
  tasks : ℕ → Option Phase
  tokens : List ℕ
  covered : ℕ
  accepted : List (ℕ × ℕ)
  bumps : ℕ

def World.init (stored : Option ℕ) (rotated : Bool) : World :=
  ⟨stored, rotated, fun _ ↦ none, fun _ ↦ none, [], 0, [], 0⟩

/-- `int(raw or "0")`. -/
def World.generation (w : World) : ℕ := w.stored.getD 0

def World.setTask (w : World) (task : ℕ) (phase : Option Phase) : World :=
  { w with tasks := Function.update w.tasks task phase }

def World.setCache (w : World) (proc : ℕ) (value : Option ℕ) : World :=
  { w with cache := Function.update w.cache proc value }

/-- `verify_issuance_token`: `int(payload.get("gen") or -1) == expected_generation`. -/
def verifyIssuanceToken (decodes : Bool) (generation expected : ℕ) : Bool :=
  decodes && (if generation = 0 then (-1 : ℤ) else generation) == (expected : ℤ)

/-- What a caller of `get_token_generation` does with the answer before its next await. -/
def finish (w : World) (call : Call) (answer : ℕ) : World :=
  match call with
  | .issue => { w with tokens := w.tokens ++ [answer] }
  | .verify token decodes =>
    match w.tokens[token]? with
    | some generation =>
      if verifyIssuanceToken decodes generation answer then { w with accepted := (token, w.covered) :: w.accepted }
      else w
    | none => w
  | .read | .status | .rotate | .revoke | .seed => w

inductive Event
  | begin (proc task : ℕ) (call : Call)
  | fetch (task : ℕ)
  | resume (task : ℕ)
  | commit (task : ℕ)
  | complete (task : ℕ)

/-- A reader takes the cached generation; all other calls open a connection first. -/
def beginCall (w : World) (proc task : ℕ) (call : Call) : World :=
  match w.tasks task, call, w.cache proc with
  | none, .status, _ | none, .rotate, _ | none, .revoke, _ | none, .seed, _ =>
    w.setTask task (some (.reading call proc w.tokens.length))
  | none, _, some answer => finish w call answer
  | none, _, none => w.setTask task (some (.reading call proc w.tokens.length))
  | some _, _, _ => w

/-- The database answers a `SELECT`. -/
def fetch (w : World) (task : ℕ) : World :=
  match w.tasks task with
  | some (.reading .seed proc _) =>
    if w.rotated then w.setTask task none else w.setTask task (some (.seeding proc))
  | some (.reading call proc before) => w.setTask task (some (.fetched call proc before w.generation))
  | _ => w

/-- The task goes on after `_load_generation`, which fills the cache of its process. -/
def resume (w : World) (task : ℕ) : World :=
  match w.tasks task with
  | some (.fetched call proc before value) =>
    let w := w.setCache proc (some value)
    match call with
    | .rotate => w.setTask task (some (.writing proc before true (value + 1)))
    | .revoke => w.setTask task (some (.writing proc before false (value + 1)))
    | call => finish (w.setTask task none) call value
  | _ => w

def commit (w : World) (task : ℕ) : World :=
  match w.tasks task with
  | some (.writing proc before rotates generation) =>
    { w.setTask task (some (.committed proc before generation)) with
      stored := some generation
      rotated := w.rotated || rotates
      bumps := w.bumps + 1 }
  | some (.seeding proc) => { w.setTask task (some (.seeded proc)) with stored := some 1, rotated := true }
  | _ => w

/-- `_invalidate_caches` in the task's own process, and the return. -/
def complete (w : World) (task : ℕ) : World :=
  match w.tasks task with
  | some (.committed proc before _) =>
    { (w.setTask task none).setCache proc none with covered := max w.covered before }
  | some (.seeded proc) => (w.setTask task none).setCache proc none
  | _ => w

def step (w : World) : Event → World
  | .begin proc task call => beginCall w proc task call
  | .fetch task => fetch w task
  | .resume task => resume w task
  | .commit task => commit w task
  | .complete task => complete w task

/-- A generation read from the database is still the stored one when the reader goes on; a rotation
or revocation commits a generation above the stored one, and the seed commits over 0 only; and when
a rotation or revocation completes, no other process still caches an older generation. -/
def Steady (w : World) : Event → Prop
  | .begin _ _ _ | .fetch _ => True
  | .resume task => ∀ call proc before value, w.tasks task = some (.fetched call proc before value) →
      value = w.generation
  | .commit task =>
      (∀ proc before rotates generation, w.tasks task = some (.writing proc before rotates generation) →
        w.generation < generation) ∧
      (∀ proc, w.tasks task = some (.seeding proc) → w.generation = 0)
  | .complete task => ∀ proc before generation, w.tasks task = some (.committed proc before generation) →
      ∀ other, other ≠ proc → ∀ c, w.cache other = some c → generation ≤ c

/-- What a task owes to the tokens issued before its call began. -/
def Owed (w : World) : Phase → Prop
  | .reading _ _ before => before ≤ w.tokens.length
  | .fetched _ _ before value => before ≤ w.tokens.length ∧ ∀ g ∈ w.tokens.take before, g ≤ value
  | .writing _ before _ generation => before ≤ w.tokens.length ∧ ∀ g ∈ w.tokens.take before, g < generation
  | .committed _ before generation =>
      before ≤ w.tokens.length ∧ (∀ g ∈ w.tokens.take before, g < generation) ∧ generation ≤ w.generation
  | .seeding _ | .seeded _ => True

structure Inv (w : World) : Prop where
  tokens_le : ∀ g ∈ w.tokens, g ≤ w.generation
  cache_le : ∀ p c, w.cache p = some c → c ≤ w.generation
  covered_le : w.covered ≤ w.tokens.length
  covered_lt : ∀ g ∈ w.tokens.take w.covered, g < w.generation ∧ ∀ p c, w.cache p = some c → g < c
  owed : ∀ t phase, w.tasks t = some phase → Owed w phase
  accepted_after : ∀ a ∈ w.accepted, a.2 ≤ a.1

theorem inv_init (stored : Option ℕ) (rotated : Bool) : Inv (World.init stored rotated) := by
  constructor <;> simp [World.init]

/-- An obligation stays met while tokens are only added and the generation does not fall. -/
theorem Owed.mono {w w' : World} {phase : Phase} (h : Owed w phase) (ht : w.tokens <+: w'.tokens)
    (hg : w.generation ≤ w'.generation) : Owed w' phase := by
  have hlen := ht.length_le
  have htake : ∀ n, n ≤ w.tokens.length → w'.tokens.take n = w.tokens.take n := by
    intro n hn
    obtain ⟨more, hmore⟩ := ht
    rw [← hmore, List.take_append_of_le_length hn]
  cases phase with
  | reading _ _ before => exact le_trans h hlen
  | fetched _ _ before value => exact ⟨h.1.trans hlen, by rw [htake before h.1]; exact h.2⟩
  | writing _ before _ generation => exact ⟨h.1.trans hlen, by rw [htake before h.1]; exact h.2⟩
  | committed _ before generation =>
    exact ⟨h.1.trans hlen, by rw [htake before h.1]; exact h.2.1, h.2.2.trans hg⟩
  | seeding | seeded => trivial

theorem Inv.setTask {w : World} (h : Inv w) (task : ℕ) {phase : Option Phase}
    (hp : ∀ p, phase = some p → Owed w p) : Inv (w.setTask task phase) where
  tokens_le := h.tokens_le
  cache_le := h.cache_le
  covered_le := h.covered_le
  covered_lt := h.covered_lt
  owed := Tasks.forall_update (fun t p _ ht ↦ h.owed t p ht) hp
  accepted_after := h.accepted_after

theorem Inv.refill {w : World} (h : Inv w) (proc : ℕ) : Inv (w.setCache proc (some w.generation)) where
  tokens_le := h.tokens_le
  cache_le p c hc := by
    by_cases hp : p = proc
    · simp only [World.setCache, hp, Function.update_self, Option.some.injEq] at hc
      exact hc.ge
    · simp only [World.setCache, Function.update_of_ne hp] at hc
      exact h.cache_le p c hc
  covered_le := h.covered_le
  covered_lt g hg := by
    refine ⟨(h.covered_lt g hg).1, fun p c hc ↦ ?_⟩
    by_cases hp : p = proc
    · simp only [World.setCache, hp, Function.update_self, Option.some.injEq] at hc
      exact hc ▸ (h.covered_lt g hg).1
    · simp only [World.setCache, Function.update_of_ne hp] at hc
      exact (h.covered_lt g hg).2 p c hc
  owed := h.owed
  accepted_after := h.accepted_after

/-- An answer that no covered token carries keeps the invariant, whatever its caller does with it. -/
theorem Inv.finish {w : World} (h : Inv w) (call : Call) {answer : ℕ} (ha : answer ≤ w.generation)
    (hc : ∀ g ∈ w.tokens.take w.covered, g < answer) : Inv (finish w call answer) := by
  cases call with
  | read | status | rotate | revoke | seed => exact h
  | issue =>
    have hp : w.tokens <+: w.tokens ++ [answer] := List.prefix_append _ _
    refine ⟨?_, h.cache_le, h.covered_le.trans hp.length_le, ?_, ?_, h.accepted_after⟩
    · intro g hg
      rcases List.mem_append.mp hg with hg | hg
      · exact h.tokens_le g hg
      · exact (List.mem_singleton.mp hg).trans_le ha
    · intro g hg
      simp only [TokenStore.finish, List.take_append_of_le_length h.covered_le] at hg
      exact h.covered_lt g hg
    · intro t phase ht
      exact (h.owed t phase ht).mono hp le_rfl
  | verify token decodes =>
    simp only [TokenStore.finish]
    split
    · rename_i generation ht
      split
      · rename_i hv
        refine ⟨h.tokens_le, h.cache_le, h.covered_le, h.covered_lt, h.owed, ?_⟩
        intro a ha'
        rcases List.mem_cons.mp ha' with rfl | ha'
        · by_contra hlt
          have hmem : generation ∈ w.tokens.take w.covered := by
            rw [List.mem_take_iff_getElem]
            obtain ⟨hl, hget⟩ := List.getElem?_eq_some_iff.mp ht
            exact ⟨token, by simp only at hlt; omega, hget⟩
          have hne := hc generation hmem
          simp only [verifyIssuanceToken, Bool.and_eq_true, beq_iff_eq] at hv
          split at hv <;> omega
        · exact h.accepted_after a ha'
      · exact h
    · exact h

theorem Inv.beginCall {w : World} (h : Inv w) (proc task : ℕ) (call : Call) : Inv (beginCall w proc task call) := by
  have hopen : Inv (w.setTask task (some (.reading call proc w.tokens.length))) :=
    h.setTask task (Tasks.forall_some le_rfl)
  unfold TokenStore.beginCall
  split
  · exact hopen
  · exact hopen
  · exact hopen
  · exact hopen
  · rename_i answer _ _ _ _ _ hcache
    exact h.finish _ (h.cache_le proc answer hcache) fun g hg ↦ (h.covered_lt g hg).2 proc answer hcache
  · exact hopen
  · exact h

theorem Inv.fetch {w : World} (h : Inv w) (task : ℕ) : Inv (fetch w task) := by
  unfold TokenStore.fetch
  split
  · split
    · exact h.setTask task (by simp)
    · exact h.setTask task (Tasks.forall_some trivial)
  · rename_i call proc before _ ht
    refine h.setTask task (Tasks.forall_some ?_)
    exact ⟨h.owed task _ ht, fun g hg ↦ h.tokens_le g (List.mem_of_mem_take hg)⟩
  · exact h

theorem Inv.resume {w : World} (h : Inv w) (task : ℕ) (hs : Steady w (.resume task)) : Inv (resume w task) := by
  unfold TokenStore.resume
  split
  · rename_i call proc before value ht
    obtain rfl := hs call proc before value ht
    have hr := h.refill proc
    obtain ⟨hb, hle⟩ := h.owed task _ ht
    have hwrite : ∀ rotates, Inv ((w.setCache proc (some w.generation)).setTask task
        (some (.writing proc before rotates (w.generation + 1)))) := by
      intro rotates
      refine hr.setTask task (Tasks.forall_some ?_)
      exact ⟨hb, fun g hg ↦ Nat.lt_succ_of_le (hle g hg)⟩
    dsimp only
    split
    · exact hwrite true
    · exact hwrite false
    · exact (hr.setTask task (by simp)).finish call le_rfl fun g hg ↦ (h.covered_lt g hg).1
  · exact h

theorem Inv.write {w : World} (h : Inv w) {generation : ℕ} (hlt : w.generation < generation) (rotated : Bool)
    (bumps : ℕ) : Inv { w with stored := some generation, rotated, bumps } where
  tokens_le g hg := (h.tokens_le g hg).trans hlt.le
  cache_le p c hc := (h.cache_le p c hc).trans hlt.le
  covered_le := h.covered_le
  covered_lt g hg := ⟨(h.covered_lt g hg).1.trans hlt, (h.covered_lt g hg).2⟩
  owed t phase ht := (h.owed t phase ht).mono (List.prefix_refl _) hlt.le
  accepted_after := h.accepted_after

theorem Inv.commit {w : World} (h : Inv w) (task : ℕ) (hs : Steady w (.commit task)) : Inv (commit w task) := by
  unfold TokenStore.commit
  split
  · rename_i proc before rotates generation ht
    obtain ⟨hb, hlt⟩ := h.owed task _ ht
    refine (h.write (hs.1 proc before rotates generation ht) (w.rotated || rotates) (w.bumps + 1)).setTask task
      (Tasks.forall_some ?_)
    exact ⟨hb, hlt, le_rfl⟩
  · rename_i proc ht
    have hzero := hs.2 proc ht
    refine (h.write (by omega) true w.bumps).setTask task (Tasks.forall_some ?_)
    trivial
  · exact h

theorem Inv.clearCache {w : World} (h : Inv w) (proc : ℕ) : Inv (w.setCache proc none) := by
  have hsub : ∀ p c, (w.setCache proc none).cache p = some c → w.cache p = some c := by
    intro p c hc
    by_cases hp : p = proc
    · simp [World.setCache, hp] at hc
    · simpa [World.setCache, Function.update_of_ne hp] using hc
  exact ⟨h.tokens_le, fun p c hc ↦ h.cache_le p c (hsub p c hc), h.covered_le,
    fun g hg ↦ ⟨(h.covered_lt g hg).1, fun p c hc ↦ (h.covered_lt g hg).2 p c (hsub p c hc)⟩, h.owed,
    h.accepted_after⟩

theorem Inv.complete {w : World} (h : Inv w) (task : ℕ) (hs : Steady w (.complete task)) :
    Inv (complete w task) := by
  unfold TokenStore.complete
  split
  · rename_i proc before generation ht
    obtain ⟨hb, hlt, hg⟩ := h.owed task _ ht
    have hi : Inv ((w.setTask task none).setCache proc none) := (h.setTask task (by simp)).clearCache proc
    refine ⟨hi.tokens_le, hi.cache_le, max_le hi.covered_le hb, ?_, hi.owed, ?_⟩
    · intro g hm
      have hm' : g ∈ w.tokens.take w.covered ∨ g ∈ w.tokens.take before := by
        rcases le_total w.covered before with hle | hle
        · rw [max_eq_right hle] at hm
          exact .inr hm
        · rw [max_eq_left hle] at hm
          exact .inl hm
      rcases hm' with hm' | hm'
      · exact hi.covered_lt g hm'
      · refine ⟨(hlt g hm').trans_le hg, fun p c hc ↦ ?_⟩
        by_cases hp : p = proc
        · simp [World.setCache, World.setTask, hp] at hc
        · simp only [World.setCache, World.setTask, Function.update_of_ne hp] at hc
          exact (hlt g hm').trans_le (hs proc before generation ht p hp c hc)
    · exact h.accepted_after
  · exact (h.setTask task (by simp)).clearCache _
  · exact h

theorem Inv.step {w : World} {e : Event} (h : Inv w) (hs : Steady w e) : Inv (step w e) := by
  cases e with
  | begin proc task call => exact h.beginCall proc task call
  | fetch task => exact h.fetch task
  | resume task => exact h.resume task hs
  | commit task => exact h.commit task hs
  | complete task => exact h.complete task hs

@[simp] theorem finish_stored (w : World) (call : Call) (answer : ℕ) : (finish w call answer).stored = w.stored := by
  cases call <;> simp only [finish]
  repeat' split
  all_goals rfl

@[simp] theorem finish_bumps (w : World) (call : Call) (answer : ℕ) : (finish w call answer).bumps = w.bumps := by
  cases call <;> simp only [finish]
  repeat' split
  all_goals rfl

/-- Only a commit writes the generation. -/
theorem step_stored (w : World) (e : Event) :
    ((step w e).stored = w.stored ∧ (step w e).bumps = w.bumps) ∨ ∃ task, e = .commit task := by
  cases e with
  | commit task => exact .inr ⟨task, rfl⟩
  | begin proc task call =>
    left
    simp only [step, beginCall]
    split <;> simp [World.setTask]
  | fetch task =>
    left
    simp only [step, fetch]
    split <;> (try split) <;> exact ⟨rfl, rfl⟩
  | resume task =>
    left
    simp only [step, resume]
    split
    · split <;> simp [World.setTask, World.setCache]
    · exact ⟨rfl, rfl⟩
  | complete task =>
    left
    simp only [step, complete]
    split <;> exact ⟨rfl, rfl⟩

/-- Each rotation or revocation that commits raises the stored generation by at least one. -/
theorem step_generation {w : World} {e : Event} (hs : Steady w e) :
    w.generation + (step w e).bumps ≤ (step w e).generation + w.bumps := by
  rcases step_stored w e with ⟨h, hb⟩ | ⟨task, rfl⟩
  · rw [World.generation, World.generation, h, hb]
  · simp only [step, commit]
    split
    · rename_i proc before rotates generation ht
      have := hs.1 proc before rotates generation ht
      simp only [World.generation, Option.getD_some] at this ⊢
      omega
    · rename_i proc ht
      have := hs.2 proc ht
      simp only [World.generation, Option.getD_some] at this ⊢
      simp only [this, World.setTask]
      omega
    · exact le_rfl

theorem run_generation {w : World} {events : List Event} (h : Along step Steady w events) :
    w.generation + (run step w events).bumps ≤ (run step w events).generation + w.bumps := by
  induction events generalizing w with
  | nil => exact le_rfl
  | cons e events ih =>
    have h1 := step_generation h.1
    have h2 := ih h.2
    simp only [run_cons]
    omega

/-- In a steady run no token issued before a rotation or revocation that has completed is accepted,
and between any two moments the stored generation rises by at least the number of rotations and
revocations committed between them. -/
theorem revocation_effective (stored : Option ℕ) (rotated : Bool) (events : List Event)
    (h : Along step Steady (World.init stored rotated) events) :
    (∀ a ∈ (run step (World.init stored rotated) events).accepted, a.2 ≤ a.1) ∧
      ∀ before between, before ++ between <+: events →
        let w := run step (World.init stored rotated) before
        let w' := run step w between
        w.generation + w'.bumps ≤ w'.generation + w.bumps := by
  refine ⟨(run_induction (fun _ _ hi hs ↦ hi.step hs) (inv_init stored rotated) h).accepted_after, ?_⟩
  intro before between ⟨after, hev⟩
  rw [← hev, List.append_assoc] at h
  exact run_generation (along_append.mp (along_append.mp h).2).1

/-- A token is issued at generation 3 and checked after a revocation. -/
def revokeThenVerify : List Event :=
  [.begin 0 0 .issue, .fetch 0, .resume 0, .begin 0 1 .revoke, .fetch 1, .resume 1, .commit 1, .complete 1,
    .begin 0 2 (.verify 0 true), .fetch 2, .resume 2]

theorem revokeThenVerify_effective :
    (∀ a ∈ (run step (World.init (some 3) true) revokeThenVerify).accepted, a.2 ≤ a.1) ∧
      ∀ before between, before ++ between <+: revokeThenVerify →
        let w := run step (World.init (some 3) true) before
        let w' := run step w between
        w.generation + w'.bumps ≤ w'.generation + w.bumps := by
  refine revocation_effective (some 3) true revokeThenVerify
    ⟨trivial, trivial, ?_, trivial, trivial, ?_, ⟨?_, ?_⟩, ?_, trivial, trivial, ?_, trivial⟩
  · rintro _ _ _ _ ⟨⟩
    rfl
  · rintro _ _ _ _ ⟨⟩
    rfl
  · rintro _ _ _ _ ⟨⟩
    decide
  · rintro _ ⟨⟩
  · rintro _ _ _ ⟨⟩ other ho c hc
    have hn : (run step (World.init (some 3) true) (revokeThenVerify.take 7)).cache other = none :=
      (Function.update_of_ne ho _ _).trans (Function.update_of_ne ho _ _)
    exact absurd (hn.symm.trans hc) (by simp)
  · rintro _ _ _ _ ⟨⟩
    rfl

/-- One process: a reader that read generation 1 before a revocation goes on after it and refills
the cache, and the token issued before is accepted. Two revocations that read the same generation
raise it by one. -/
theorem revocation_undone :
    (run step (World.init (some 1) true)
      [.begin 0 0 .issue, .begin 0 1 .read, .fetch 0, .fetch 1, .resume 0, .begin 0 2 .revoke, .fetch 2, .resume 2,
        .commit 2, .complete 2, .resume 1, .begin 0 3 (.verify 0 true)]).accepted = [(0, 1)] ∧
    let w := run step (World.init (some 1) true)
      [.begin 0 0 .revoke, .begin 0 1 .revoke, .fetch 0, .fetch 1, .resume 0, .resume 1, .commit 0, .commit 1]
    w.bumps = 2 ∧ w.generation = 2 := by
  decide

end Briefr.Wallboard.TokenStore
