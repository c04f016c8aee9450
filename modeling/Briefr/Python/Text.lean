import Mathlib.Data.List.Forall2
import Briefr.Python.Value

namespace Briefr.Python

theorem forall₂_append_left {α β : Type} {R : α → β → Prop} {a b : List α} {l : List β}
    (h : List.Forall₂ R (a ++ b) l) :
    ∃ a' b', l = a' ++ b' ∧ List.Forall₂ R a a' ∧ List.Forall₂ R b b' := by
  induction a generalizing l with
  | nil => exact ⟨[], l, rfl, .nil, h⟩
  | cons x a ih =>
    obtain ⟨y, l', hxy, hl, rfl⟩ := List.forall₂_cons_left_iff.mp h
    obtain ⟨a', b', rfl, ha, hb⟩ := ih hl
    exact ⟨y :: a', b', rfl, .cons hxy ha, hb⟩

theorem SameLower.eq_of_ascii {c d : Char} (h : SameLower c d) (hc : c.toNat < 128) : c = d := by
  rcases h with h | ⟨h, -⟩
  · exact h
  · rw [h] at hc
    exact absurd hc (by decide)

theorem SameLower.colon {c d : Char} (h : SameLower c d) : c = ':' ↔ d = ':' := by
  rcases h with h | ⟨h, h'⟩
  · rw [h]
  · rw [h, h']
    decide

theorem SameLower.isKeyChar {c d : Char} (h : SameLower c d) : isKeyChar c = isKeyChar d := by
  rcases h with h | ⟨h, h'⟩
  · rw [h]
  · rw [h, h']
    decide

theorem eq_of_forall₂_sameLower {a b : Text} (h : List.Forall₂ SameLower a b)
    (ha : ∀ c ∈ a, ∀ d, SameLower c d → c = d) : a = b := by
  induction h with
  | nil => rfl
  | @cons c d a b hcd _ ih =>
    rw [ha c (.head _) d hcd, ih fun c hc ↦ ha c (.tail _ hc)]

theorem filter_key_of_sameLower {a b : Text} (h : List.Forall₂ SameLower a b) :
    a.filter isKeyChar = b.filter isKeyChar := by
  induction h with
  | nil => rfl
  | @cons c d a b hcd _ ih =>
    rcases hcd with rfl | ⟨rfl, rfl⟩
    · simp only [List.filter_cons, ih]
    · exact ih

def isUpperAscii (c : Char) : Prop := 65 ≤ c.toNat ∧ c.toNat ≤ 90

theorem toLower_of_not_upper {c : Char} (h : ¬isUpperAscii c) : c.toLower = c := by
  have h : ¬(c.val ≥ 'A'.val ∧ c.val ≤ 'Z'.val) := h
  exact dif_neg h

theorem toNat_toLower {c : Char} (h : isUpperAscii c) : c.toLower.toNat = c.toNat + 32 := by
  obtain ⟨h1, h2⟩ := h
  have hc : c.toLower.val = c.val + 32 := congrArg Char.val (dif_pos ⟨h1, h2⟩)
  change c.toLower.val.toNat = c.val.toNat + 32
  rw [hc]
  rw [UInt32.toNat_add]
  change 65 ≤ c.val.toNat at h1
  change c.val.toNat ≤ 90 at h2
  change (c.val.toNat + 32) % 2 ^ 32 = c.val.toNat + 32
  omega

theorem toLower_ascii {c : Char} (h : c.toNat < 128) : c.toLower.toNat < 128 := by
  by_cases hu : isUpperAscii c
  · have hn := toNat_toLower hu
    unfold isUpperAscii at hu
    omega
  · rwa [toLower_of_not_upper hu]

theorem colon_mem_of_sameLower {a b : Text} (h : List.Forall₂ SameLower a b) : ':' ∈ b ↔ ':' ∈ a := by
  induction h with
  | nil => rfl
  | @cons c d a b hcd _ ih =>
    have hc := hcd.colon
    simp only [List.mem_cons, ih, eq_comm, hc]

theorem isIn_colon {s : Text} : isIn ":" s = true ↔ ':' ∈ s := by
  simp only [isIn, decide_eq_true_eq]
  constructor
  · exact fun h ↦ h.subset (List.mem_singleton.mpr rfl)
  · intro h
    obtain ⟨a, b, rfl⟩ := List.append_of_mem h
    exact ⟨a, b, by simp⟩

theorem splitColon_append {a : Text} (ha : ':' ∉ a) (b : Text) : splitColon (a ++ ':' :: b) = (a, b) := by
  have hp : ∀ c ∈ a, (c != ':') = true := by
    intro c hc
    rw [bne_iff_ne]
    exact fun h ↦ ha (h ▸ hc)
  rw [splitColon, List.takeWhile_append_of_pos hp, List.dropWhile_append_of_pos hp]
  simp

theorem exists_split_colon {s : Text} (h : ':' ∈ s) : ∃ a b, ':' ∉ a ∧ s = a ++ ':' :: b := by
  obtain ⟨a, b, hs, ha⟩ := List.eq_append_cons_of_mem h
  exact ⟨a, b, ha, hs⟩

section
variable [Interp]

theorem strip_eq_nil {s : Text} : strip s = [] ↔ ∀ c ∈ s, isSpace c = true := by
  rw [strip, List.rdropWhile_eq_nil_iff]
  constructor
  · intro h c hc
    by_contra hn
    have hd : s.dropWhile isSpace ≠ [] := fun he ↦ hn (List.dropWhile_eq_nil_iff.mp he c hc)
    have hh := List.head_dropWhile_not isSpace hd
    exact absurd (h _ (List.head_mem hd)) (by simp [hh])
  · exact fun h c hc ↦ h c (List.dropWhile_sublist _ |>.mem hc)

theorem strip_eq_self {s : Text} (h : ∀ c ∈ s, isSpace c = false) : strip s = s := by
  have hd : s.dropWhile isSpace = s := by
    cases s with
    | nil => rfl
    | cons c s => rw [List.dropWhile_cons_of_neg (by simp [h c (.head _)])]
  rw [strip, hd, List.rdropWhile_eq_self_iff]
  intro hn
  simp [h _ (List.getLast_mem hn)]

theorem isSpace_head_strip {s t : Text} {c : Char} (h : strip s = c :: t) : isSpace c = false := by
  have hp : c :: t <+: s.dropWhile isSpace := h ▸ List.rdropWhile_prefix _ _
  obtain ⟨u, hu⟩ := hp
  have hh := List.head?_dropWhile_not isSpace s
  rw [← hu] at hh
  simpa using hh

theorem strip_strip (s : Text) : strip (strip s) = strip s := by
  cases hs : strip s with
  | nil => rfl
  | cons c t =>
    have hc : isSpace c = false := isSpace_head_strip hs
    rw [strip, List.dropWhile_cons_of_neg (by simp [hc]), ← hs]
    exact List.rdropWhile_idempotent _ _

theorem strip_sublist (s : Text) : (strip s).Sublist s :=
  (List.rdropWhile_prefix _ _).sublist.trans (List.dropWhile_sublist _)

theorem exists_of_strip {s : Text} (h : strip s ≠ []) : ∃ c ∈ strip s, isSpace c = false := by
  refine ⟨(strip s).getLast h, List.getLast_mem h, ?_⟩
  exact Bool.eq_false_iff.mpr (List.rdropWhile_last_not isSpace (s.dropWhile isSpace) h)

theorem lower_space {s : Text} (h : ∀ c ∈ s, isSpace c = true) : lower s = s := by
  have hs : s.flatMap lowerChar = s := by
    induction s with
    | nil => rfl
    | cons c s ih =>
      rw [List.flatMap_cons, Interp.lowerChar_space c (h c (.head _)), ih fun d hd ↦ h d (.tail _ hd)]
      rfl
  have hl := Interp.lower_spec s
  rw [hs] at hl
  refine (eq_of_forall₂_sameLower hl fun c hc d hcd ↦ ?_).symm
  rcases hcd with h' | ⟨h', -⟩
  · exact h'
  · exact ((Interp.isSpace_other c (h c hc)).2.1 h').elim

theorem strip_lower {s : Text} (h : strip (lower s) ≠ []) : strip s ≠ [] := by
  intro hs
  have hsp := strip_eq_nil.mp hs
  exact h (by rw [lower_space hsp, hs])

/-- ASCII text at the end of a string is lower-cased on its own. -/
theorem lower_suffix (s t : Text) (ht : ∀ c ∈ t, c.toNat < 128) : t.map Char.toLower <:+ lower (s ++ t) := by
  have hl := Interp.lower_spec (s ++ t)
  have hm : t.flatMap lowerChar = t.map Char.toLower := by
    induction t with
    | nil => rfl
    | cons c t ih =>
      rw [List.flatMap_cons, Interp.lowerChar_ascii c (ht c (.head _)), ih (fun d hd ↦ ht d (.tail _ hd))
        (Interp.lower_spec _)]
      rfl
  rw [List.flatMap_append, hm] at hl
  obtain ⟨a, b, he, -, hb⟩ := forall₂_append_left hl
  have hb' : t.map Char.toLower = b := by
    refine eq_of_forall₂_sameLower hb fun c hc d hcd ↦ hcd.eq_of_ascii ?_
    obtain ⟨c', hc', rfl⟩ := List.mem_map.mp hc
    exact toLower_ascii (ht c' hc')
  exact ⟨a, by rw [hb', he]⟩

theorem lower_lowerCase {s : Text} (h : ∀ c ∈ s, c.toNat < 128 ∧ ¬isUpperAscii c) : lower s = s := by
  have hs : s.flatMap lowerChar = s := by
    induction s with
    | nil => rfl
    | cons c s ih =>
      obtain ⟨hc, hu⟩ := h c (.head _)
      rw [List.flatMap_cons, Interp.lowerChar_ascii c hc, toLower_of_not_upper hu, ih fun d hd ↦ h d (.tail _ hd)]
      rfl
  have hl := Interp.lower_spec s
  rw [hs] at hl
  exact (eq_of_forall₂_sameLower hl fun c hc d hcd ↦ hcd.eq_of_ascii (h c hc).1).symm

/-- The letters and digits of a lower-cased string. -/
def keyOf (s : Text) : Text := (lower s).filter isKeyChar

theorem keyOf_eq (s : Text) : keyOf s = (s.flatMap lowerChar).filter isKeyChar :=
  (filter_key_of_sameLower (Interp.lower_spec s)).symm

theorem keyOf_append (s t : Text) : keyOf (s ++ t) = keyOf s ++ keyOf t := by
  simp only [keyOf_eq, List.flatMap_append, List.filter_append]

theorem keyOf_space {s : Text} (h : ∀ c ∈ s, isSpace c = true) : keyOf s = [] := by
  rw [keyOf, lower_space h, List.filter_eq_nil_iff]
  intro c hc
  simp [(Interp.isSpace_other c (h c hc)).1]

theorem takeWhile_strip_rtakeWhile (s : Text) :
    s.takeWhile isSpace ++ (strip s ++ (s.dropWhile isSpace).rtakeWhile isSpace) = s := by
  rw [strip, List.rdropWhile_append_rtakeWhile, List.takeWhile_append_dropWhile]

theorem keyOf_strip (s : Text) : keyOf (strip s) = keyOf s := by
  conv_rhs => rw [← takeWhile_strip_rtakeWhile s]
  rw [keyOf_append, keyOf_append, keyOf_space fun c hc ↦ List.mem_takeWhile_imp hc,
    keyOf_space fun c hc ↦ List.mem_rtakeWhile_imp hc]
  simp

/-- Text that case mapping produced has the letters and digits of what it came from. -/
theorem keyOf_of_sameLower {a b : Text} (h : List.Forall₂ SameLower (a.flatMap lowerChar) b) : keyOf b = keyOf a := by
  have hb : ∀ a b : Text, List.Forall₂ SameLower a b → (∀ c ∈ a, lowerChar c = [c]) → b.flatMap lowerChar = b := by
    intro a b hab ha
    induction hab with
    | nil => rfl
    | @cons c d a b hcd _ ih =>
      have hd : lowerChar d = [d] := by
        rcases hcd with rfl | ⟨-, rfl⟩
        · exact ha c (.head _)
        · exact Interp.lowerChar_finalSigma
      rw [List.flatMap_cons, hd, ih fun c hc ↦ ha c (.tail _ hc)]
      rfl
  have hl : ∀ c ∈ a.flatMap lowerChar, lowerChar c = [c] := by
    intro c hc
    obtain ⟨d, -, hd⟩ := List.mem_flatMap.mp hc
    exact Interp.lowerChar_idem d c hd
  rw [keyOf_eq b, keyOf_eq a, hb _ _ h hl, filter_key_of_sameLower h]

theorem colon_mem_flatMap {s : Text} : ':' ∈ s.flatMap lowerChar ↔ ':' ∈ s := by
  rw [List.mem_flatMap]
  constructor
  · intro ⟨c, hc, hm⟩
    exact Interp.lowerChar_colon c hm ▸ hc
  · exact fun hm ↦ ⟨':', hm, by rw [Interp.lowerChar_ascii _ (by decide)]; decide⟩

theorem colon_mem_lower {s : Text} : ':' ∈ lower s ↔ ':' ∈ s := by
  rw [colon_mem_of_sameLower (Interp.lower_spec s), colon_mem_flatMap]

theorem colon_mem_strip {s : Text} : ':' ∈ strip s ↔ ':' ∈ s := by
  have hn : ∀ t : Text, (∀ c ∈ t, isSpace c = true) → ':' ∉ t :=
    fun t ht hm ↦ (Interp.isSpace_other _ (ht _ hm)).2.2 rfl
  conv_rhs => rw [← takeWhile_strip_rtakeWhile s]
  simp only [List.mem_append, hn _ fun c hc ↦ List.mem_takeWhile_imp hc, hn _ fun c hc ↦ List.mem_rtakeWhile_imp hc,
    false_or, or_false]

/-- The keys of the two sides of the first colon. -/
def splitKeys (s : Text) : Text × Text := (keyOf (splitColon s).1, keyOf (splitColon s).2)

theorem splitKeys_strip {s : Text} (h : ':' ∈ s) : splitKeys (strip s) = splitKeys s := by
  obtain ⟨a, b, ha, hs⟩ := exists_split_colon (colon_mem_strip.mpr h)
  have hw : ∀ c ∈ s.takeWhile isSpace, isSpace c = true := fun c hc ↦ List.mem_takeWhile_imp hc
  have hw' : ∀ c ∈ (s.dropWhile isSpace).rtakeWhile isSpace, isSpace c = true :=
    fun c hc ↦ List.mem_rtakeWhile_imp hc
  have he : s = (s.takeWhile isSpace ++ a) ++ ':' :: (b ++ (s.dropWhile isSpace).rtakeWhile isSpace) := by
    conv_lhs => rw [← takeWhile_strip_rtakeWhile s, hs]
    simp
  have ha' : ':' ∉ s.takeWhile isSpace ++ a := by
    rw [List.mem_append]
    rintro (hm | hm)
    · exact (Interp.isSpace_other _ (hw _ hm)).2.2 rfl
    · exact ha hm
  have hr : splitColon s = (s.takeWhile isSpace ++ a, b ++ (s.dropWhile isSpace).rtakeWhile isSpace) := by
    conv_lhs => rw [he]
    exact splitColon_append ha' _
  rw [splitKeys, splitKeys, hr, hs, splitColon_append ha, keyOf_append, keyOf_append, keyOf_space hw,
    keyOf_space hw', List.nil_append, List.append_nil]

theorem splitKeys_lower {s : Text} (h : ':' ∈ s) : splitKeys (lower s) = splitKeys s := by
  obtain ⟨a, b, ha, rfl⟩ := exists_split_colon h
  have hl := Interp.lower_spec (a ++ ':' :: b)
  have hc : lowerChar ':' = [':'] := Interp.lowerChar_ascii ':' (by decide)
  rw [List.flatMap_append, List.flatMap_cons, hc] at hl
  obtain ⟨a', r, hr, haa, hrr⟩ := forall₂_append_left hl
  obtain ⟨c, b', hcc, hbb, rfl⟩ := List.forall₂_cons_left_iff.mp hrr
  obtain rfl := hcc.eq_of_ascii (by decide)
  have ha' : ':' ∉ a' := by rwa [colon_mem_of_sameLower haa, colon_mem_flatMap]
  rw [splitKeys, splitKeys, hr, splitColon_append ha, splitColon_append ha', keyOf_of_sameLower haa,
    keyOf_of_sameLower hbb]

end

theorem toUpper_toUpper (c : Char) : c.toUpper.toUpper = c.toUpper := by
  by_cases h : 'a'.val ≤ c.val ∧ c.val ≤ 'z'.val
  · have hall : ∀ n < 123, (Char.ofNat n).toUpper.toUpper = (Char.ofNat n).toUpper := by decide
    have hn : c.toNat < 123 := Nat.lt_succ_of_le h.2
    rw [← Char.ofNat_toNat c]
    exact hall _ hn
  · have hc : c.toUpper = c := dif_neg h
    rw [hc, hc]

/-- The interpreter on ASCII text, for runs on concrete inputs. `loads` only has to know the
JSON texts of the run. -/
@[reducible] def ascii (loads : Text → Option Value) : Interp where
  lower s := s.flatMap fun c ↦ [c.toLower]
  upper s := s.map Char.toUpper
  lowerChar c := [c.toLower]
  isSpace := isAsciiSpace
  isDecimal := Char.isDigit
  isDigit := Char.isDigit
  decimalValue c := c.toNat - 48
  strOther _ := []
  loads := loads
  upper_idem s := by
    rw [List.map_map]
    exact List.map_congr_left fun c _ ↦ toUpper_toUpper c
  upper_eq_nil s := List.map_eq_nil_iff.mp
  lower_spec s := List.forall₂_same.mpr fun c _ ↦ .inl rfl
  lowerChar_ascii c _ := rfl
  lowerChar_idem c d hd := by
    obtain rfl := List.mem_singleton.mp hd
    have hu : ¬isUpperAscii c.toLower := by
      by_cases hu : isUpperAscii c
      · have hn := toNat_toLower hu
        unfold isUpperAscii at hu ⊢
        omega
      · rwa [toLower_of_not_upper hu]
    rw [toLower_of_not_upper hu]
  lowerChar_finalSigma := by decide
  lowerChar_colon c hc := by
    have hc : ':' = c.toLower := List.mem_singleton.mp hc
    by_cases hu : isUpperAscii c
    · have hn := toNat_toLower hu
      rw [← hc, show (':' : Char).toNat = 58 from rfl] at hn
      unfold isUpperAscii at hu
      omega
    · rw [hc, toLower_of_not_upper hu]
  lowerChar_space c hc := by
    have hu : ¬isUpperAscii c := by
      simp only [isAsciiSpace, Bool.or_eq_true, Bool.and_eq_true, beq_iff_eq, decide_eq_true_eq] at hc
      unfold isUpperAscii
      omega
    rw [toLower_of_not_upper hu]
  isSpace_ascii _ _ := rfl
  isSpace_other c hc := by
    simp only [isAsciiSpace, Bool.or_eq_true, Bool.and_eq_true, beq_iff_eq, decide_eq_true_eq] at hc
    refine ⟨?_, ?_, ?_⟩
    · simp only [isKeyChar, Bool.or_eq_false_iff, Bool.and_eq_false_iff, decide_eq_false_iff_not]
      omega
    · rintro rfl
      exact absurd hc (by decide)
    · rintro rfl
      exact absurd hc (by decide)

end Briefr.Python
