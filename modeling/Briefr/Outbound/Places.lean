import Briefr.Outbound.Slots

namespace Briefr.Outbound.Slots

open Briefr.Python Briefr.Library Briefr.Outbound.Pacing Briefr.Outbound.ApiQueue

inductive Place
  | absent
  | waiting (source : Text)
  | held (source : Text)
  deriving DecidableEq

def place (s : State) (id : RequestId) : Place :=
  match s.waiting.find? fun w ↦ w.id == id with
  | some w => .waiting w.source
  | none =>
    match s.held.find? fun x ↦ x.id == id with
    | some x => .held x.source
    | none => .absent

def Event.about : Event → Option RequestId
  | .enter id _ _ _ | .poll id _ | .cancel id | .release id | .releaseLegacy id => some id
  | .pause _ _ _ _ => none

variable {s : State} {id i : RequestId}

theorem find_filter_ne {α : Type} {f : α → RequestId} (l : List α) (h : i ≠ id) :
    ((l.filter fun a ↦ f a != id).find? fun a ↦ f a == i) = l.find? fun a ↦ f a == i := by
  rw [List.find?_filter]
  congr 1
  funext a
  by_cases ha : f a = i
  · simp [ha, h]
  · simp [ha]

theorem find_filter_self {α : Type} {f : α → RequestId} (l : List α) :
    ((l.filter fun a ↦ f a != id).find? fun a ↦ f a == id) = none := by
  rw [List.find?_eq_none]
  intro a ha
  simpa using (List.mem_filter.mp ha).2

theorem find_append_ne {α : Type} {f : α → RequestId} (l : List α) {x : α} (h : i ≠ f x) :
    ((l ++ [x]).find? fun a ↦ f a == i) = l.find? fun a ↦ f a == i := by
  simp [List.find?_append, Ne.symm h]

theorem place_absent_iff : place s id = .absent ↔ id ∉ s.live := by
  rw [place, State.live, List.mem_append, not_or]
  cases hw : s.waiting.find? fun w ↦ w.id == id with
  | some w =>
    have hid : w.id = id := by simpa using List.find?_some hw
    simp only [reduceCtorEq, false_iff, not_and, not_not]
    intro hn
    exact absurd (hid ▸ List.mem_map_of_mem (List.mem_of_find?_eq_some hw)) hn
  | none =>
    have hn : id ∉ s.waiting.map Waiter.id := by
      intro hm
      obtain ⟨w, hm, he⟩ := List.mem_map.mp hm
      exact List.find?_eq_none.mp hw w hm (by simp [he])
    cases hx : s.held.find? fun x ↦ x.id == id with
    | some x =>
      have hid : x.id = id := by simpa using List.find?_some hx
      simp only [reduceCtorEq, false_iff, not_and, not_not]
      exact fun _ ↦ hid ▸ List.mem_map_of_mem (List.mem_of_find?_eq_some hx)
    | none =>
      have hn' : id ∉ s.held.map Holder.id := by
        intro hm
        obtain ⟨x, hm, he⟩ := List.mem_map.mp hm
        exact List.find?_eq_none.mp hx x hm (by simp [he])
      simp [hn, hn']

theorem place_waiting {source : Text} (h : place s id = .waiting source) :
    ∃ w, (s.waiting.find? fun w ↦ w.id == id) = some w ∧ w.id = id ∧ w.source = source := by
  rw [place] at h
  split at h
  · rename_i w hw
    exact ⟨w, hw, by simpa using List.find?_some hw, by injection h⟩
  · split at h <;> cases h

theorem place_held {source : Text} (h : place s id = .held source) :
    ∃ x, (s.held.find? fun x ↦ x.id == id) = some x ∧ x.id = id ∧ x.source = source := by
  rw [place] at h
  split at h
  · cases h
  · split at h
    · rename_i x hx
      exact ⟨x, hx, by simpa using List.find?_some hx, by injection h⟩
    · cases h

theorem find_id_none {α : Type} {f : α → RequestId} {l : List α} (h : i ∉ l.map f) : (l.find? fun a ↦ f a == i) = none := by
  rw [List.find?_eq_none]
  intro a ha he
  exact h (eq_of_beq he ▸ List.mem_map_of_mem ha)

theorem place_attempt_other {w : Waiter} {now : Time} (h : i ≠ w.id) : place (attempt s w now) i = place s i := by
  rw [attempt]
  split
  · simp only [place, State.dropWaiter, find_filter_ne s.waiting h]
    rw [find_append_ne s.held (x := ⟨w.id, w.source⟩) h]
  · rfl

theorem place_attempt {w : Waiter} {now : Time} (h : Inv s) (hw : w ∈ s.waiting) :
    place (attempt s w now) w.id =
      if grants s.queue w.pacing w.key now then .held w.source else .waiting w.source := by
  rw [attempt]
  split
  · have hnot : (s.held.find? fun x ↦ x.id == w.id) = none := find_id_none (h.waiter_not_held hw)
    simp only [place, State.dropWaiter, find_filter_self]
    simp [List.find?_append, hnot]
  · have hfind : (s.waiting.find? fun v ↦ v.id == w.id) = some w := by
      simp only [beq_eq_decide]
      exact (UniqueIndex.find?_eq_some h.nodup_waiting).mpr ⟨hw, rfl⟩
    simp [place, hfind]

theorem place_step_other {e : Event} (h : e.about ≠ some i) : place (step s e) i = place s i := by
  cases e with
  | enter id source settings now =>
    have hi : i ≠ id := fun he ↦ h (he ▸ rfl)
    rw [step]
    split
    · rfl
    · rw [enter, place_attempt_other (w := ⟨id, source, _⟩) hi, place, place,
        find_append_ne s.waiting (x := ⟨id, source, getSourcePacing settings source⟩) hi]
  | poll id now =>
    have hi : i ≠ id := fun he ↦ h (he ▸ rfl)
    rw [step]
    split
    · rename_i w hw
      have hid : w.id = id := by simpa using List.find?_some hw
      exact place_attempt_other (hid ▸ hi)
    · rfl
  | cancel id =>
    have hi : i ≠ id := fun he ↦ h (he ▸ rfl)
    rw [step]
    split
    · rename_i w hw
      have hid : w.id = id := by simpa using List.find?_some hw
      simp only [place, State.dropWaiter, find_filter_ne s.waiting (hid ▸ hi)]
    · rfl
  | release id =>
    have hi : i ≠ id := fun he ↦ h (he ▸ rfl)
    rw [step]
    split
    · rename_i x hx
      have hid : x.id = id := by simpa using List.find?_some hx
      simp only [place, State.dropHolder, find_filter_ne s.held (hid ▸ hi)]
    · rfl
  | releaseLegacy id =>
    have hi : i ≠ id := fun he ↦ h (he ▸ rfl)
    rw [step]
    split
    · rename_i x hx
      have hid : x.id = id := by simpa using List.find?_some hx
      simp only [place, State.dropHolder, find_filter_ne s.held (hid ▸ hi)]
    · rfl
  | pause source seconds reason now => rfl

theorem place_enter (h : Inv s) (hid : id ∉ s.live) (source : Text) (settings : Settings) (now : Time) :
    place (step s (.enter id source settings now)) id = .held source ∨
      place (step s (.enter id source settings now)) id = .waiting source := by
  rw [step, if_neg hid, enter, place_attempt (w := ⟨id, source, getSourcePacing settings source⟩)
    (h.register hid (getSourcePacing_maxConcurrent settings source)) (List.mem_append_right _ (.head _))]
  split
  · exact .inl rfl
  · exact .inr rfl

/-- It waits while all slots of its source are out. -/
theorem place_enter_full (h : Inv s) (hid : id ∉ s.live) (source : Text) (settings : Settings) (now : Time)
    (hfull : (profile (resolvePacingKey source)).maxConcurrent ≤ (s.queue.states (resolvePacingKey source)).active) :
    place (step s (.enter id source settings now)) id = .waiting source := by
  rw [step, if_neg hid, enter, place_attempt (w := ⟨id, source, getSourcePacing settings source⟩)
    (h.register hid (getSourcePacing_maxConcurrent settings source)) (List.mem_append_right _ (.head _)), if_neg]
  intro hg
  have hlt := of_decide_eq_true (Bool.and_eq_true_iff.mp hg).1
  rw [getSourcePacing_maxConcurrent] at hlt
  simp [Waiter.key, register] at hlt
  omega

theorem place_poll (h : Inv s) {source : Text} (hp : place s id = .waiting source) (now : Time) :
    place (step s (.poll id now)) id = .held source ∨ place (step s (.poll id now)) id = .waiting source := by
  obtain ⟨w, hw, rfl, rfl⟩ := place_waiting hp
  rw [step, hw]
  change place (attempt s w now) w.id = _ ∨ place (attempt s w now) w.id = _
  rw [place_attempt h (List.mem_of_find?_eq_some hw)]
  split
  · exact .inl rfl
  · exact .inr rfl

theorem place_cancel (h : Inv s) {source : Text} (hp : place s id = .waiting source) :
    place (step s (.cancel id)) id = .absent := by
  obtain ⟨w, hw, rfl, -⟩ := place_waiting hp
  have hnot : (s.held.find? fun x ↦ x.id == w.id) = none :=
    find_id_none (h.waiter_not_held (List.mem_of_find?_eq_some hw))
  rw [step, hw]
  simp only [place, State.dropWaiter, find_filter_self, hnot]

theorem place_release (h : Inv s) {source : Text} (hp : place s id = .held source) :
    place (step s (.release id)) id = .absent := by
  obtain ⟨x, hx, rfl, -⟩ := place_held hp
  have hnot : (s.waiting.find? fun w ↦ w.id == x.id) = none :=
    find_id_none (h.holder_not_waiting (List.mem_of_find?_eq_some hx))
  rw [step, hx]
  simp only [place, State.dropHolder, find_filter_self, hnot]

theorem active_pos (h : Inv s) {source : Text} (hp : place s id = .held source) :
    0 < (s.queue.states (resolvePacingKey source)).active := by
  obtain ⟨x, hx, -, rfl⟩ := place_held hp
  rw [h.active]
  exact List.length_pos_of_mem (List.mem_filter.mpr ⟨List.mem_of_find?_eq_some hx, by simp [Holder.key]⟩)

end Briefr.Outbound.Slots
