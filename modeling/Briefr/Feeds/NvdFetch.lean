import Briefr.Outbound.Places

namespace Briefr.Feeds.NvdFetch

open Briefr.Python Briefr.Library.Runs Briefr.Outbound.Pacing Briefr.Outbound.ApiQueue
open Briefr.Outbound.Slots (Place place)

def nvd : Text := "nvd".toList

def isValidApiKey [Interp] : Option Text → Bool
  | none => false
  | some key =>
    let stripped := strip key
    !key.isEmpty && decide (32 ≤ stripped.length) && !isIn "placeholder" (lower stripped) &&
      !"your_".toList.isPrefixOf stripped

/-- What `client.get` brings. The response may not be JSON. -/
inductive Reply
  | response (status : ℕ) (headers : Headers) (json : Bool)
  | requestError

inductive Result
  | page
  | invalidJson
  | httpError (status : ℕ)
  | requestError
  | cancelled

inductive Point
  | waiting (id : RequestId)
  | requesting (id : RequestId)
  | ended (result : Result)

/-- A task in `_fetch_page`: its innermost call, and the slots that the calls around it hold, innermost first. -/
structure Fetch where
  apiKey : Option Text
  keyRejected : Bool
  frames : List RequestId
  point : Point

/-- The tasks and the queue, with the task that each id was made for. -/
structure World where
  slots : Outbound.Slots.State
  owner : RequestId → Option ℕ
  fetches : ℕ → Option Fetch

def World.init : World := ⟨Outbound.Slots.State.init, fun _ ↦ none, fun _ ↦ none⟩

inductive Event
  | call (t : ℕ) (apiKey : Option Text) (id : RequestId) (settings : Settings) (now : Time)
  | poll (t : ℕ) (now : Time)
  | reply (t : ℕ) (r : Reply) (id : RequestId) (settings : Settings) (now wall : Time)
  | cancel (t : ℕ)
  | other (e : Outbound.Slots.Event)

def Fetch.useKey [Interp] (f : Fetch) : Bool := isValidApiKey f.apiKey && !f.keyRejected

/-- Where a call of `await_api_slot` stands. -/
def pointAfter (slots : Outbound.Slots.State) (id : RequestId) : Point :=
  match place slots id with
  | .held _ => .requesting id
  | _ => .waiting id

def World.fresh (w : World) (id : RequestId) : Prop := id ∉ w.slots.live ∧ w.owner id = none

instance (w : World) (id : RequestId) : Decidable (w.fresh id) := inferInstanceAs (Decidable (_ ∧ _))

def World.running (w : World) (t : ℕ) : Bool :=
  match (w.fetches t).map Fetch.point with
  | none | some (.ended _) => false
  | _ => true

def pauseAll (slots : Outbound.Slots.State) (pauses : List (Time × WaitReason)) (now : Time) : Outbound.Slots.State :=
  pauses.foldl (fun s p ↦ Outbound.Slots.step s (.pause nvd p.1 p.2 now)) slots

def releaseAll (slots : Outbound.Slots.State) (ids : List RequestId) : Outbound.Slots.State :=
  ids.foldl (fun s id ↦ Outbound.Slots.step s (.release id)) slots

def World.put (w : World) (t : ℕ) (slots : Outbound.Slots.State) (f : Fetch) : World :=
  { w with slots, fetches := Function.update w.fetches t (some f) }

/-- The task calls `await_api_slot`. -/
def World.await (w : World) (t : ℕ) (f : Fetch) (slots : Outbound.Slots.State) (id : RequestId) (settings : Settings)
    (now : Time) : World :=
  let slots := Outbound.Slots.step slots (.enter id nvd settings now)
  { w.put t slots { f with point := pointAfter slots id } with owner := Function.update w.owner id (some t) }

/-- The innermost call ends: every `finally` releases its slot. -/
def World.finish (w : World) (t : ℕ) (f : Fetch) (slots : Outbound.Slots.State) (ids : List RequestId)
    (result : Result) : World :=
  w.put t (releaseAll slots (ids ++ f.frames)) { f with frames := [], point := .ended result }

section
variable [Interp] [Wire]

def onReply (w : World) (t : ℕ) (f : Fetch) (slot : RequestId) (r : Reply) (id : RequestId) (settings : Settings)
    (now wall : Time) : World :=
  match r with
  | .requestError => w.finish t f w.slots [slot] .requestError
  | .response status headers json =>
    let paused := pauseAll w.slots (headerPauses headers none wall) now
    if status = 429 then w.await t f (Outbound.Slots.step paused (.release slot)) id settings now
    -- the recursive call comes before the `finally` of this one
    else if status = 404 ∧ f.useKey then
      w.await t { f with keyRejected := true, frames := slot :: f.frames } w.slots id settings now
    else if status < 200 ∨ 300 ≤ status then w.finish t f w.slots [slot] (.httpError status)
    else w.finish t f paused [slot] (if json then .page else .invalidJson)

/-- Other tasks use ids of their own and release with them. -/
def World.allows (w : World) : Outbound.Slots.Event → Bool
  | .releaseLegacy _ => false
  | e => e.about.all fun id ↦ (w.owner id).isNone

def step (w : World) : Event → World
  | .call t apiKey id settings now =>
    if w.running t ∨ ¬w.fresh id then w
    else w.await t ⟨apiKey, false, [], .ended .cancelled⟩ w.slots id settings now
  | .poll t now =>
    match w.fetches t with
    | some f =>
      match f.point with
      | .waiting id =>
        let slots := Outbound.Slots.step w.slots (.poll id now)
        w.put t slots { f with point := pointAfter slots id }
      | _ => w
    | none => w
  | .reply t r id settings now wall =>
    match w.fetches t with
    | some f =>
      match f.point with
      | .requesting slot => if w.fresh id then onReply w t f slot r id settings now wall else w
      | _ => w
    | none => w
  | .cancel t =>
    match w.fetches t with
    | some f =>
      match f.point with
      | .waiting id => w.finish t f (Outbound.Slots.step w.slots (.cancel id)) [] .cancelled
      | .requesting slot => w.finish t f w.slots [slot] .cancelled
      | .ended _ => w
    | none => w
  | .other e => if w.allows e then { w with slots := Outbound.Slots.step w.slots e } else w

def Holds (w : World) (t : ℕ) : Prop := ∃ id, w.owner id = some t ∧ place w.slots id = .held nvd

/-- No task waits for a slot while it holds one, and none keeps one when it has ended. -/
def Clear (w : World) : Prop :=
  ∀ t f, w.fetches t = some f →
    (∀ id, f.point = .waiting id → ¬Holds w t) ∧ ∀ result, f.point = .ended result → ¬Holds w t

/-- A 404 answers a request that carries the API key. -/
def KeyAccepted (w : World) : Event → Prop
  | .reply t (.response status _ _) id _ _ _ => ∀ f slot, w.fetches t = some f → f.point = .requesting slot →
      w.fresh id → status = 404 → f.useKey = false
  | _ => True

/-- Where an id of a task is, by what the task is doing. -/
def expected (f : Option Fetch) (id : RequestId) : Place :=
  match f.map Fetch.point with
  | some (.waiting i) => if id = i then .waiting nvd else .absent
  | some (.requesting i) => if id = i then .held nvd else .absent
  | _ => .absent

structure Inv (w : World) : Prop where
  slots : Outbound.Slots.Inv w.slots
  places : ∀ t id, w.owner id = some t → place w.slots id = expected (w.fetches t) id
  owners : ∀ t f id, w.fetches t = some f → f.point = .waiting id ∨ f.point = .requesting id → w.owner id = some t
  frames : ∀ t f, w.fetches t = some f → f.frames = []

omit [Interp] [Wire] in
theorem Inv.clear {w : World} (h : Inv w) : Clear w := by
  intro t f hf
  constructor
  · intro i hi ⟨id, ho, hp⟩
    rw [h.places t id ho, expected, hf, Option.map_some, hi] at hp
    dsimp only at hp
    split at hp <;> cases hp
  · intro result hi ⟨id, ho, hp⟩
    rw [h.places t id ho, expected, hf, Option.map_some, hi] at hp
    cases hp

omit [Interp] [Wire] in
theorem inv_init : Inv World.init where
  slots := Outbound.Slots.inv_init
  places t id h := by cases h
  owners t f id h := by cases h
  frames t f h := by cases h

omit [Interp] [Wire] in
theorem pauseAll_inv {slots : Outbound.Slots.State} (h : Outbound.Slots.Inv slots) (pauses : List (Time × WaitReason))
    (now : Time) : Outbound.Slots.Inv (pauseAll slots pauses now) ∧ ∀ id, place (pauseAll slots pauses now) id = place slots id := by
  induction pauses generalizing slots with
  | nil => exact ⟨h, fun _ ↦ rfl⟩
  | cons p pauses ih =>
    exact ih (h.step (e := .pause nvd p.1 p.2 now) trivial)

omit [Interp] [Wire] in
/-- A task takes a step, and the others stay where they are. -/
theorem Inv.advance {w w' : World} (h : Inv w) {t : ℕ} {f : Fetch} (hs : Outbound.Slots.Inv w'.slots)
    (hf : w'.fetches = Function.update w.fetches t (some f)) (hframes : f.frames = [])
    (ho : ∀ id u, u ≠ t → (w'.owner id = some u ↔ w.owner id = some u))
    (hp : ∀ id u, u ≠ t → w.owner id = some u → place w'.slots id = place w.slots id)
    (ht : ∀ id, w'.owner id = some t → place w'.slots id = expected (some f) id)
    (hown : ∀ id, f.point = .waiting id ∨ f.point = .requesting id → w'.owner id = some t) : Inv w' := by
  refine ⟨hs, ?_, ?_, ?_⟩
  · intro u id hu
    by_cases hut : u = t
    · subst hut
      rw [hf, Function.update_self]
      exact ht id hu
    · have hu := (ho id u hut).mp hu
      rw [hf, Function.update_of_ne hut, hp id u hut hu]
      exact h.places u id hu
  · intro u g id hg hpoint
    by_cases hut : u = t
    · subst hut
      rw [hf, Function.update_self] at hg
      exact hown id (Option.some_inj.mp hg ▸ hpoint)
    · rw [hf, Function.update_of_ne hut] at hg
      exact (ho id u hut).mpr (h.owners u g id hg hpoint)
  · intro u g hg
    by_cases hut : u = t
    · subst hut
      rw [hf, Function.update_self] at hg
      exact Option.some_inj.mp hg ▸ hframes
    · rw [hf, Function.update_of_ne hut] at hg
      exact h.frames u g hg

omit [Interp] [Wire] in
theorem expected_pointAfter {slots : Outbound.Slots.State} {f : Fetch} {id : RequestId}
    (h : place slots id = .held nvd ∨ place slots id = .waiting nvd) :
    expected (some { f with point := pointAfter slots id }) id = place slots id := by
  rcases h with h | h
  · simp [expected, pointAfter, h]
  · simp [expected, pointAfter, h]

omit [Interp] [Wire] in
theorem expected_pointAfter_other {slots : Outbound.Slots.State} {f : Fetch} {id i : RequestId} (h : i ≠ id) :
    expected (some { f with point := pointAfter slots id }) i = .absent := by
  cases hp : place slots id <;> simp [expected, pointAfter, hp, h]

omit [Interp] [Wire] in
theorem pointAfter_id {slots : Outbound.Slots.State} {id i : RequestId}
    (h : pointAfter slots id = .waiting i ∨ pointAfter slots id = .requesting i) : i = id := by
  rw [pointAfter] at h
  split at h
  · rcases h with h | h
    · cases h
    · injection h with h
      exact h.symm
  · rcases h with h | h
    · injection h with h
      exact h.symm
    · cases h

omit [Interp] [Wire] in
/-- A task without a slot calls `await_api_slot`. -/
theorem Inv.await {w : World} (h : Inv w) {t : ℕ} {f : Fetch} {slots : Outbound.Slots.State} {id : RequestId}
    (settings : Settings) (now : Time) (hs : Outbound.Slots.Inv slots) (hlive : id ∉ slots.live)
    (hid : w.owner id = none) (hframes : f.frames = [])
    (hp : ∀ i u, u ≠ t → w.owner i = some u → place slots i = place w.slots i)
    (ht : ∀ i, w.owner i = some t → place slots i = .absent) : Inv (w.await t f slots id settings now) := by
  have hother : ∀ i, i ≠ id → place (Outbound.Slots.step slots (.enter id nvd settings now)) i = place slots i := by
    intro i hi
    exact Outbound.Slots.place_step_other fun he ↦ hi (Option.some_inj.mp he).symm
  have hne : ∀ i u, w.owner i = some u → i ≠ id := by
    intro i u hu he
    rw [he, hid] at hu
    cases hu
  refine h.advance (t := t) (f := { f with point := pointAfter _ id }) ?_ rfl hframes ?_ ?_ ?_ ?_
  · exact hs.step (e := .enter id nvd settings now) trivial
  · intro i u hu
    change Function.update w.owner id (some t) i = some u ↔ _
    by_cases hi : i = id
    · subst hi
      simp [hid, Ne.symm hu]
    · rw [Function.update_of_ne hi]
  · intro i u hu ho
    exact (hother i (hne i u ho)).trans (hp i u hu ho)
  · intro i ho
    by_cases hi : i = id
    · subst hi
      exact (expected_pointAfter (Outbound.Slots.place_enter hs hlive nvd settings now)).symm
    · change Function.update w.owner id (some t) i = some t at ho
      rw [Function.update_of_ne hi] at ho
      rw [expected_pointAfter_other hi]
      exact (hother i hi).trans (ht i ho)
  · intro i hi
    obtain rfl := pointAfter_id hi
    exact Function.update_self i (some t) w.owner

omit [Interp] [Wire] in
theorem Inv.finish {w : World} (h : Inv w) {t : ℕ} {f : Fetch} {slots : Outbound.Slots.State} {ids : List RequestId}
    (result : Result) (hs : Outbound.Slots.Inv (releaseAll slots (ids ++ f.frames)))
    (hp : ∀ i u, u ≠ t → w.owner i = some u → place (releaseAll slots (ids ++ f.frames)) i = place w.slots i)
    (ht : ∀ i, w.owner i = some t → place (releaseAll slots (ids ++ f.frames)) i = .absent) :
    Inv (w.finish t f slots ids result) := by
  refine h.advance (t := t) (f := { f with frames := [], point := .ended result }) hs rfl rfl (fun _ _ _ ↦ Iff.rfl) hp ?_ ?_
  · exact ht
  · intro i hi
    rcases hi with hi | hi <;> cases hi

omit [Interp] [Wire] in
theorem Inv.place_requesting {w : World} (h : Inv w) {t : ℕ} {f : Fetch} {slot : RequestId} (hf : w.fetches t = some f)
    (hp : f.point = .requesting slot) (i : RequestId) (ho : w.owner i = some t) :
    place w.slots i = if i = slot then .held nvd else .absent := by
  rw [h.places t i ho, expected, hf, Option.map_some, hp]

omit [Interp] [Wire] in
theorem Inv.released {w : World} (h : Inv w) {t : ℕ} {f : Fetch} {slot : RequestId} (hf : w.fetches t = some f)
    (hpoint : f.point = .requesting slot) {slots : Outbound.Slots.State} (hs : Outbound.Slots.Inv slots)
    (hplace : ∀ i, place slots i = place w.slots i) :
    Outbound.Slots.Inv (Outbound.Slots.step slots (.release slot)) ∧
    (∀ i u, u ≠ t → w.owner i = some u → place (Outbound.Slots.step slots (.release slot)) i = place w.slots i) ∧
    (∀ i, w.owner i = some t → place (Outbound.Slots.step slots (.release slot)) i = .absent) ∧
    ∀ i, w.fresh i → i ∉ (Outbound.Slots.step slots (.release slot)).live := by
  have hslot : w.owner slot = some t := h.owners t f slot hf (.inr hpoint)
  have hheld : place slots slot = .held nvd := by
    rw [hplace, h.place_requesting hf hpoint slot hslot, if_pos rfl]
  have hother : ∀ i, i ≠ slot → place (Outbound.Slots.step slots (.release slot)) i = place w.slots i := by
    intro i hi
    rw [← hplace]
    exact Outbound.Slots.place_step_other fun he ↦ hi (Option.some_inj.mp he).symm
  refine ⟨hs.step (e := .release slot) trivial, ?_, ?_, ?_⟩
  · intro i u hu ho
    apply hother
    intro he
    rw [he, hslot] at ho
    exact hu (Option.some_inj.mp ho).symm
  · intro i ho
    by_cases hi : i = slot
    · subst hi
      exact Outbound.Slots.place_release hs hheld
    · rw [hother i hi, h.place_requesting hf hpoint i ho, if_neg hi]
  · intro i ⟨hlive, ho⟩
    have hi : i ≠ slot := by
      intro he
      rw [he, hslot] at ho
      cases ho
    rw [← Outbound.Slots.place_absent_iff, hother i hi]
    exact Outbound.Slots.place_absent_iff.mpr hlive

omit [Interp] [Wire] in
theorem Inv.finish_slot {w : World} (h : Inv w) {t : ℕ} {f : Fetch} {slot : RequestId} (hf : w.fetches t = some f)
    (hpoint : f.point = .requesting slot) {slots : Outbound.Slots.State} (result : Result)
    (hs : Outbound.Slots.Inv slots) (hplace : ∀ i, place slots i = place w.slots i) :
    Inv (w.finish t f slots [slot] result) := by
  have hids : [slot] ++ f.frames = [slot] := by rw [h.frames t f hf, List.append_nil]
  obtain ⟨hs', hp, ht, -⟩ := h.released hf hpoint hs hplace
  apply h.finish
  · rw [hids]
    exact hs'
  · rw [hids]
    exact hp
  · rw [hids]
    exact ht

theorem Inv.reply {w : World} (h : Inv w) {t : ℕ} {f : Fetch} {slot : RequestId} (hf : w.fetches t = some f)
    (hpoint : f.point = .requesting slot) (r : Reply) {id : RequestId} (settings : Settings) (now wall : Time)
    (hid : w.fresh id) (hc : KeyAccepted w (.reply t r id settings now wall)) :
    Inv (onReply w t f slot r id settings now wall) := by
  cases r with
  | requestError => exact h.finish_slot hf hpoint _ h.slots fun _ ↦ rfl
  | response status headers json =>
    obtain ⟨hs, hplace⟩ := pauseAll_inv h.slots (headerPauses headers none wall) now
    rw [onReply]
    split
    · obtain ⟨hs', hp, ht, hlive⟩ := h.released hf hpoint hs hplace
      exact h.await settings now hs' (hlive id hid) hid.2 (h.frames t f hf) hp ht
    · split
      · rename_i hk
        rw [hc f slot hf hpoint hid hk.1] at hk
        exact absurd hk.2 Bool.false_ne_true
      · split
        · exact h.finish_slot hf hpoint _ h.slots fun _ ↦ rfl
        · exact h.finish_slot hf hpoint _ hs hplace

omit [Interp] [Wire] in
theorem Inv.place_waiting {w : World} (h : Inv w) {t : ℕ} {f : Fetch} {id : RequestId} (hf : w.fetches t = some f)
    (hp : f.point = .waiting id) (i : RequestId) (ho : w.owner i = some t) :
    place w.slots i = if i = id then .waiting nvd else .absent := by
  rw [h.places t i ho, expected, hf, Option.map_some, hp]

omit [Interp] [Wire] in
theorem Inv.poll {w : World} (h : Inv w) {t : ℕ} {f : Fetch} {id : RequestId} (hf : w.fetches t = some f)
    (hpoint : f.point = .waiting id) (now : Time) :
    Inv (w.put t (Outbound.Slots.step w.slots (.poll id now))
      { f with point := pointAfter (Outbound.Slots.step w.slots (.poll id now)) id }) := by
  have hid : w.owner id = some t := h.owners t f id hf (.inl hpoint)
  have hwait : place w.slots id = .waiting nvd := by rw [h.place_waiting hf hpoint id hid, if_pos rfl]
  have hother : ∀ i, i ≠ id → place (Outbound.Slots.step w.slots (.poll id now)) i = place w.slots i := by
    intro i hi
    exact Outbound.Slots.place_step_other fun he ↦ hi (Option.some_inj.mp he).symm
  refine h.advance (t := t) (f := { f with point := pointAfter _ id }) ?_ rfl (h.frames t f hf) (fun _ _ _ ↦ Iff.rfl) ?_ ?_ ?_
  · exact h.slots.step (e := .poll id now) trivial
  · intro i u hu ho
    apply hother
    intro he
    rw [he, hid] at ho
    exact hu (Option.some_inj.mp ho).symm
  · intro i ho
    by_cases hi : i = id
    · subst hi
      exact (expected_pointAfter (Outbound.Slots.place_poll h.slots hwait now)).symm
    · rw [expected_pointAfter_other hi]
      refine (hother i hi).trans ?_
      rw [h.place_waiting hf hpoint i ho, if_neg hi]
  · intro i hi
    obtain rfl := pointAfter_id hi
    exact hid

omit [Interp] [Wire] in
theorem Inv.cancel_waiting {w : World} (h : Inv w) {t : ℕ} {f : Fetch} {id : RequestId} (hf : w.fetches t = some f)
    (hpoint : f.point = .waiting id) :
    Inv (w.finish t f (Outbound.Slots.step w.slots (.cancel id)) [] .cancelled) := by
  have hid : w.owner id = some t := h.owners t f id hf (.inl hpoint)
  have hwait : place w.slots id = .waiting nvd := by rw [h.place_waiting hf hpoint id hid, if_pos rfl]
  have hother : ∀ i, i ≠ id → place (Outbound.Slots.step w.slots (.cancel id)) i = place w.slots i := by
    intro i hi
    exact Outbound.Slots.place_step_other fun he ↦ hi (Option.some_inj.mp he).symm
  have hids : releaseAll (Outbound.Slots.step w.slots (.cancel id)) ([] ++ f.frames) =
      Outbound.Slots.step w.slots (.cancel id) := by
    rw [h.frames t f hf]
    rfl
  apply h.finish
  · rw [hids]
    exact h.slots.step (e := .cancel id) trivial
  · intro i u hu ho
    rw [hids]
    apply hother
    intro he
    rw [he, hid] at ho
    exact hu (Option.some_inj.mp ho).symm
  · intro i ho
    rw [hids]
    by_cases hi : i = id
    · subst hi
      exact Outbound.Slots.place_cancel h.slots hwait
    · rw [hother i hi, h.place_waiting hf hpoint i ho, if_neg hi]

omit [Interp] [Wire] in
theorem allows_spec {w : World} {e : Outbound.Slots.Event} (h : w.allows e = true) :
    (∀ s, Outbound.Slots.OnTop s e) ∧ ∀ id, e.about = some id → w.owner id = none := by
  cases e with
  | releaseLegacy id => cases h
  | pause source seconds reason now => exact ⟨fun _ ↦ trivial, fun id he ↦ by cases he⟩
  | _ =>
    refine ⟨fun _ ↦ trivial, ?_⟩
    intro id he
    obtain rfl := Option.some_inj.mp he
    exact Option.isNone_iff_eq_none.mp h

omit [Interp] [Wire] in
theorem Inv.other {w : World} (h : Inv w) {e : Outbound.Slots.Event} (ha : w.allows e = true) :
    Inv { w with slots := Outbound.Slots.step w.slots e } := by
  obtain ⟨hc, habout⟩ := allows_spec ha
  refine ⟨h.slots.step (hc _), ?_, h.owners, h.frames⟩
  intro t id ho
  rw [← h.places t id ho]
  apply Outbound.Slots.place_step_other
  intro he
  have hnone := habout id he
  rw [show w.owner id = some t from ho] at hnone
  cases hnone

theorem Inv.step {w : World} (h : Inv w) {e : Event} (hc : KeyAccepted w e) : Inv (step w e) := by
  cases e with
  | call t apiKey id settings now =>
    rw [NvdFetch.step]
    split
    · exact h
    · rename_i hn
      obtain ⟨hrun, hid⟩ := not_or.mp hn
      have hid : w.fresh id := not_not.mp hid
      refine h.await settings now h.slots hid.1 hid.2 rfl (fun _ _ _ _ ↦ rfl) ?_
      intro i ho
      rw [h.places t i ho, expected]
      rw [World.running] at hrun
      split at hrun
      · simp [*]
      · simp [*]
      · exact absurd rfl hrun
  | poll t now =>
    rw [NvdFetch.step]
    split
    · rename_i f hf
      split
      · exact h.poll hf (by assumption) now
      · exact h
    · exact h
  | reply t r id settings now wall =>
    rw [NvdFetch.step]
    split
    · rename_i f hf
      split
      · split
        · exact h.reply hf (by assumption) r settings now wall (by assumption) hc
        · exact h
      · exact h
    · exact h
  | cancel t =>
    rw [NvdFetch.step]
    split
    · rename_i f hf
      split
      · exact h.cancel_waiting hf (by assumption)
      · exact h.finish_slot hf (by assumption) _ h.slots fun _ ↦ rfl
      · exact h
    · exact h
  | other e =>
    rw [NvdFetch.step]
    split
    · exact h.other (by assumption)
    · exact h

/-- After a 404 the task waits for a second slot with the first in its hands. -/
theorem not_clear_of_rejected {w : World} (h : Inv w) {e : Event} (hc : ¬KeyAccepted w e) : ¬Clear (step w e) := by
  cases e with
  | reply t r id settings now wall =>
    cases r with
    | requestError => exact absurd trivial hc
    | response status headers json =>
      simp only [KeyAccepted, not_forall] at hc
      obtain ⟨f, slot, hf, hpoint, hid, hst, hk⟩ := hc
      have hk : f.useKey = true := by simpa using hk
      have hslot : w.owner slot = some t := h.owners t f slot hf (.inr hpoint)
      have hheld : place w.slots slot = .held nvd := by rw [h.place_requesting hf hpoint slot hslot, if_pos rfl]
      have hne : slot ≠ id := by
        intro he
        rw [he, hid.2] at hslot
        cases hslot
      have hstep : step w (.reply t (.response status headers json) id settings now wall) =
          w.await t { f with keyRejected := true, frames := slot :: f.frames } w.slots id settings now := by
        simp only [step, hf, hpoint, if_pos hid, onReply, hst, hk]
        rfl
      have hwait : place (Outbound.Slots.step w.slots (.enter id nvd settings now)) id = .waiting nvd :=
        Outbound.Slots.place_enter_full h.slots hid.1 nvd settings now (Outbound.Slots.active_pos h.slots hheld)
      have hstill : place (Outbound.Slots.step w.slots (.enter id nvd settings now)) slot = .held nvd := by
        rw [← hheld]
        exact Outbound.Slots.place_step_other fun he ↦ hne (Option.some_inj.mp he).symm
      intro hclear
      rw [hstep] at hclear
      refine (hclear t _ (Function.update_self t _ w.fetches)).1 id ?_ ⟨slot, ?_, hstill⟩
      · simp only [pointAfter, hwait]
      · exact (Function.update_of_ne hne (some t) w.owner).trans hslot
  | _ => exact absurd trivial hc

/-- The NVD fetcher never waits for itself, and ends without a slot, exactly when no 404 answers a
request with the API key. -/
theorem clear_iff (events : List Event) :
    (∀ before, before <+: events → Clear (run step World.init before)) ↔ Along step KeyAccepted World.init events :=
  forall_prefix_iff (fun _ h ↦ h.clear) (fun _ _ h hc ↦ h.step hc) (fun _ _ h hc ↦ not_clear_of_rejected h hc) inv_init

end

section
local instance : Interp := ascii fun _ ↦ none

local instance : Wire := plainWire

def unknownKey : Option Text := some "0123456789abcdef0123456789abcdef0123".toList

def withKey : Settings := ⟨.free, fun _ ↦ none, fun _ ↦ true, fun _ ↦ none⟩

/-- NVD does not know the API key of the fetch. -/
def rejectedKey : List Event :=
  [.call 0 unknownKey "a".toList withKey 2, .reply 0 (.response 404 noHeaders false) "b".toList withKey 3 0]

theorem waits_for_itself : ¬∀ before, before <+: rejectedKey → Clear (run step World.init before) := by
  intro h
  have hi : Inv (step World.init (.call 0 unknownKey "a".toList withKey 2)) :=
    inv_init.step (e := .call 0 unknownKey "a".toList withKey 2) trivial
  have hheld : place (Outbound.Slots.step Outbound.Slots.State.init (.enter "a".toList nvd withKey 2)) "a".toList =
      .held nvd := by decide +kernel
  have hlive : "b".toList ∉ (Outbound.Slots.step Outbound.Slots.State.init (.enter "a".toList nvd withKey 2)).live := by
    decide +kernel
  have hkey : isValidApiKey unknownKey = true := by decide +kernel
  refine not_clear_of_rejected hi (e := .reply 0 (.response 404 noHeaders false) "b".toList withKey 3 0) ?_
    (h rejectedKey (List.prefix_refl _))
  intro hc
  have hpoint : pointAfter (Outbound.Slots.step Outbound.Slots.State.init (.enter "a".toList nvd withKey 2)) "a".toList =
      .requesting "a".toList := by
    rw [pointAfter, hheld]
  have huse : (isValidApiKey unknownKey && !false) = false := hc _ _ rfl hpoint ⟨hlive, rfl⟩ rfl
  rw [hkey] at huse
  cases huse

end

end Briefr.Feeds.NvdFetch
