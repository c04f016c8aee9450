import Briefr.Python.Text

namespace Briefr.Python

theorem infix_append_cons_iff {α : Type} {k xs ys : List α} {sep : α} (hk : sep ∉ k) :
    k <:+: xs ++ sep :: ys ↔ k <:+: xs ∨ k <:+: ys := by
  rw [List.infix_append_iff]
  constructor
  · rintro (h | h | ⟨a, b, rfl, ha, hb⟩)
    · exact .inl h
    · rcases List.infix_cons_iff.mp h with hp | h
      · cases k with
        | nil => exact .inl (List.nil_infix)
        | cons c k =>
          obtain rfl : c = sep := (List.cons_prefix_cons.mp hp).1
          exact absurd (.head _) hk
      · exact .inr h
    · cases b with
      | nil => exact .inl (by simpa using ha.isInfix)
      | cons c b =>
        obtain rfl : c = sep := (List.cons_prefix_cons.mp hb).1
        exact absurd (List.mem_append_right _ (.head _)) hk
  · rintro (h | h)
    · exact .inl h
    · exact .inr (.inl (List.infix_cons_iff.mpr (.inr h)))

theorem prefix_append_cons_iff {α : Type} {k xs ys : List α} {sep : α} (hk : sep ∉ k) :
    k <+: xs ++ sep :: ys ↔ k <+: xs := by
  refine ⟨fun h ↦ ?_, fun h ↦ h.trans (List.prefix_append _ _)⟩
  rcases List.prefix_or_prefix_of_prefix h (List.prefix_append xs (sep :: ys)) with h' | ⟨t, rfl⟩
  · exact h'
  · rw [List.prefix_append_right_inj] at h
    cases t with
    | nil => exact ⟨[], by rw [List.append_nil, List.append_nil]⟩
    | cons c t =>
      obtain rfl := (List.cons_prefix_cons.mp h).1
      exact absurd (List.mem_append_right _ List.mem_cons_self) hk

/-- What holds no separator is in a join when it is in one of the pieces. -/
theorem infix_intercalate_iff {α : Type} {k : List α} {sep : α} (hk : sep ∉ k) (hn : k ≠ []) (pieces : List (List α)) :
    k <:+: List.intercalate [sep] pieces ↔ ∃ p ∈ pieces, k <:+: p := by
  induction pieces with
  | nil => simp [List.intercalate, hn]
  | cons p pieces ih =>
    cases pieces with
    | nil => simp [List.intercalate]
    | cons q pieces =>
      rw [List.intercalate_cons_cons, List.append_assoc, List.singleton_append, infix_append_cons_iff hk, ih]
      simp

theorem flatMap_intercalate {α : Type} (f : α → List α) {sep : α} (hs : f sep = [sep]) (pieces : List (List α)) :
    (List.intercalate [sep] pieces).flatMap f = List.intercalate [sep] (pieces.map fun p ↦ p.flatMap f) := by
  induction pieces with
  | nil => rfl
  | cons p pieces ih =>
    cases pieces with
    | nil => simp [List.intercalate]
    | cons q pieces =>
      rw [List.intercalate_cons_cons, List.flatMap_append, List.flatMap_append, List.flatMap_singleton, hs, ih,
        List.map_cons, List.map_cons, List.map_cons, List.intercalate_cons_cons]

theorem eq_of_sameLower_ascii {a b : Text} (h : List.Forall₂ SameLower a b) (hb : ∀ d ∈ b, d.toNat < 128) : a = b := by
  induction h with
  | nil => rfl
  | @cons c d a b hcd _ ih =>
    rw [ih fun d hd ↦ hb d (.tail _ hd)]
    rcases hcd with rfl | ⟨-, rfl⟩
    · rfl
    · exact absurd (hb finalSigma (.head _)) (by decide)

section
variable [Interp]

/-- ASCII text is where it is before the sigmas take their form. -/
theorem infix_lower_iff {k s : Text} (hk : ∀ c ∈ k, c.toNat < 128) : k <:+: lower s ↔ k <:+: s.flatMap lowerChar := by
  have hl := Interp.lower_spec s
  constructor
  · rintro ⟨a, b, h⟩
    rw [← h] at hl
    obtain ⟨ak, b', he, hak, -⟩ := forall₂_append_left hl.flip
    obtain ⟨a', k', rfl, -, hk'⟩ := forall₂_append_left hak
    obtain rfl : k' = k := eq_of_sameLower_ascii hk'.flip hk
    exact ⟨a', b', he.symm⟩
  · rintro ⟨a, b, h⟩
    rw [← h] at hl
    obtain ⟨ak, b', he, hak, -⟩ := forall₂_append_left hl
    obtain ⟨a', k', rfl, -, hk'⟩ := forall₂_append_left hak
    obtain rfl : k = k' := eq_of_forall₂_sameLower hk' fun c hc d hcd ↦ hcd.eq_of_ascii (hk c hc)
    exact ⟨a', b', he.symm⟩

theorem prefix_lower_iff {k s : Text} (hk : ∀ c ∈ k, c.toNat < 128) : k <+: lower s ↔ k <+: s.flatMap lowerChar := by
  have hl := Interp.lower_spec s
  constructor
  · rintro ⟨b, h⟩
    rw [← h] at hl
    obtain ⟨k', b', he, hk', -⟩ := forall₂_append_left hl.flip
    obtain rfl : k' = k := eq_of_sameLower_ascii hk'.flip hk
    exact ⟨b', he.symm⟩
  · rintro ⟨b, h⟩
    rw [← h] at hl
    obtain ⟨k', b', he, hk', -⟩ := forall₂_append_left hl
    obtain rfl : k = k' := eq_of_forall₂_sameLower hk' fun c hc d hcd ↦ hcd.eq_of_ascii (hk c hc)
    exact ⟨b', he.symm⟩

/-- A keyword in lower-cased joined text is in one of the texts. -/
theorem isIn_lower_join_iff {k : Text} (hk : ∀ c ∈ k, c.toNat < 128) (hs : ' ' ∉ k) (hn : k ≠ []) (pieces : List Text) :
    isIn k (lower (List.intercalate [' '] pieces)) = true ↔ ∃ p ∈ pieces, k <:+: p.flatMap lowerChar := by
  rw [isIn, decide_eq_true_iff, infix_lower_iff hk, flatMap_intercalate _ (Interp.lowerChar_ascii ' ' (by decide)),
    infix_intercalate_iff hs hn]
  simp

end

end Briefr.Python
