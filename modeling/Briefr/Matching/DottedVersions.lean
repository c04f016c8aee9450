import Briefr.Matching.VersionOrder

namespace Briefr.Matching.Cpe

open Briefr.Python Briefr.Library.PaddedLex

/-- `a` is what `b` starts with, and shorter. -/
def ProperPrefix (a b : List ℕ) : Prop := ∃ n t, b = a ++ n :: t

theorem eq_or_prefix_or_differ (a b : List ℕ) : a = b ∨ ProperPrefix a b ∨ ProperPrefix b a ∨
    ∃ p m n s t, m ≠ n ∧ a = p ++ m :: s ∧ b = p ++ n :: t := by
  induction a generalizing b with
  | nil =>
    cases b with
    | nil => exact .inl rfl
    | cons n t => exact .inr (.inl ⟨n, t, rfl⟩)
  | cons m s ih =>
    cases b with
    | nil => exact .inr (.inr (.inl ⟨m, s, rfl⟩))
    | cons n t =>
      by_cases h : m = n
      · obtain rfl := h
        rcases ih t with rfl | ⟨k, u, rfl⟩ | ⟨k, u, rfl⟩ | ⟨p, k, l, u, v, hkl, rfl, rfl⟩
        · exact .inl rfl
        · exact .inr (.inl ⟨k, u, rfl⟩)
        · exact .inr (.inr (.inl ⟨k, u, rfl⟩))
        · exact .inr (.inr (.inr ⟨m :: p, k, l, u, v, hkl, rfl, rfl⟩))
      · exact .inr (.inr (.inr ⟨[], m, n, s, t, h, rfl, rfl⟩))

theorem ProperPrefix.ne {a b : List ℕ} (h : ProperPrefix a b) : a ≠ b := by
  obtain ⟨n, t, rfl⟩ := h
  exact fun he ↦ List.cons_ne_nil n t (List.self_eq_append_right.mp he)

/-- The parts of a version of numbers: a dot between two of them. -/
def dottedParts (l : List ℕ) : List Part := (l.map Part.int).intersperse (.str ".")

theorem dottedParts_cons (n : ℕ) {l : List ℕ} (h : l ≠ []) :
    dottedParts (n :: l) = .int n :: .str "." :: dottedParts l := by
  obtain ⟨m, l, rfl⟩ := List.exists_cons_of_ne_nil h
  rfl

theorem dottedParts_cons_eq (n : ℕ) (l : List ℕ) : ∃ t, dottedParts (n :: l) = .int n :: t := by
  cases l with
  | nil => exact ⟨[], rfl⟩
  | cons m l => exact ⟨_, dottedParts_cons n (List.cons_ne_nil m l)⟩

theorem dottedParts_append (p : List ℕ) {l : List ℕ} (h : l ≠ []) :
    dottedParts (p ++ l) = p.flatMap (fun n ↦ [.int n, .str "."]) ++ dottedParts l := by
  induction p with
  | nil => rfl
  | cons n p ih =>
    rw [List.cons_append, dottedParts_cons n (List.append_ne_nil_of_right_ne_nil p h), ih]
    rfl

theorem dottedParts_longer {l : List ℕ} (h : l ≠ []) (n : ℕ) (t : List ℕ) :
    dottedParts (l ++ n :: t) = dottedParts l ++ .str "." :: dottedParts (n :: t) := by
  obtain ⟨p, m, rfl⟩ := (List.eq_nil_or_concat' l).resolve_left h
  rw [List.append_assoc, dottedParts_append p (List.append_ne_nil_of_left_ne_nil (List.cons_ne_nil m []) _),
    dottedParts_append p (List.cons_ne_nil m []), List.append_assoc]
  rfl

theorem comparePart_int (m n : ℕ) : comparePart (.int m) (.int n) = compare m n := by
  unfold comparePart
  rw [Nat.compare_eq_ite_lt]
  split
  · rename_i h
    obtain rfl := Part.int.inj h
    simp
  · rename_i h
    have hmn : m ≠ n := fun he ↦ h (congrArg Part.int he)
    simp only
    split
    · rfl
    · rw [if_pos (by omega)]

/-- Where two versions differ in a number they are compared by it. -/
theorem compareParts_of_differ {p s t : List ℕ} {m n : ℕ} (h : m ≠ n) :
    compareParts (dottedParts (p ++ m :: s)) (dottedParts (p ++ n :: t)) =
      comparePadded compare 0 (p ++ m :: s) (p ++ n :: t) := by
  have hc : compare m n ≠ .eq := fun he ↦ h (Nat.compare_eq_eq.mp he)
  obtain ⟨s', hs⟩ := dottedParts_cons_eq m s
  obtain ⟨t', ht⟩ := dottedParts_cons_eq n t
  rw [compareParts_eq, dottedParts_append p (List.cons_ne_nil m s), dottedParts_append p (List.cons_ne_nil n t),
    comparePadded_append, comparePadded_append, hs, ht, comparePadded_cons, comparePadded_cons, comparePart_int]
  cases hmn : compare m n with
  | eq => exact absurd hmn hc
  | lt => rfl
  | gt => rfl

/-- The missing rest of the shorter version counts as 0, and the text of 0 is above the dot it is compared with. -/
theorem compareParts_longer {l r : List ℕ} (hl : l ≠ []) (h : ProperPrefix l r) :
    compareParts (dottedParts l) (dottedParts r) = .gt ∧ compareParts (dottedParts r) (dottedParts l) = .lt := by
  obtain ⟨n, t, rfl⟩ := h
  rw [compareParts_eq, compareParts_eq, dottedParts_longer hl]
  have hn : dottedParts l = dottedParts l ++ [] := (List.append_nil _).symm
  constructor
  · conv_lhs => rw [hn, List.append_assoc]
    rw [comparePadded_append, List.nil_append, comparePadded_nil_cons]
    rfl
  · conv_lhs => rw [hn, List.append_assoc]
    rw [comparePadded_append, List.nil_append, comparePadded_cons_nil]
    rfl

theorem comparePadded_longer {l r : List ℕ} (h : ProperPrefix l r) :
    (comparePadded compare 0 l r).isLE ∧ (comparePadded compare 0 r l).isGE := by
  obtain ⟨n, t, rfl⟩ := h
  have hn : (comparePadded compare 0 l (l ++ n :: t)).isLE := by
    have hp : comparePadded compare 0 (l ++ []) (l ++ n :: t) = comparePadded compare 0 [] (n :: t) :=
      comparePadded_append l [] (n :: t)
    rw [List.append_nil] at hp
    rw [hp]
    exact comparePadded_nil_isLE (fun y ↦ Nat.isLE_compare.mpr (Nat.zero_le y)) _
  exact ⟨hn, Std.OrientedCmp.isGE_of_isLE hn⟩

section
variable [Digits]

/-- A decimal number as it is written. -/
abbrev Number := { s : Text // s ≠ [] ∧ ∀ c ∈ s, isDecimal c = true }

def Number.value (n : Number) : ℕ := n.1.foldl (fun k c ↦ 10 * k + decimalValue c) 0

/-- Decimal numbers joined by dots. -/
structure DottedVersion where
  components : List Number
  ne_nil : components ≠ []

namespace DottedVersion

def text (v : DottedVersion) : Text := List.intercalate ['.'] (v.components.map Subtype.val)

def values (v : DottedVersion) : List ℕ := v.components.map Number.value

/-- Component by component, the shorter one padded with zeros. -/
def compare (v w : DottedVersion) : Ordering := comparePadded Ord.compare 0 v.values w.values

/-- No component is too long for `int`. -/
def Short (v : DottedVersion) : Prop := ∀ n ∈ v.components, n.1.length ≤ maxIntDigits

end DottedVersion

theorem isDecimal_dot : isDecimal '.' = false := Digits.isDecimal_ascii '.' (by decide)

theorem isDigit_dot : isDigit '.' = false := Digits.isDigit_ascii '.' (by decide)

theorem Number.exists_cons (n : Number) : ∃ c t, n.1 = c :: t ∧ isDecimal c = true := by
  obtain ⟨c, t, h⟩ := List.exists_cons_of_ne_nil n.2.1
  exact ⟨c, t, h, n.2.2 c (h ▸ List.mem_cons_self)⟩

theorem intercalate_chars {l : List Number} {c : Char} (h : c ∈ List.intercalate ['.'] (l.map Subtype.val)) :
    isDecimal c = true ∨ c = '.' := by
  induction l with
  | nil => cases h
  | cons n l ih =>
    cases l with
    | nil =>
      rw [List.map_singleton, List.intercalate_singleton] at h
      exact .inl (n.2.2 c h)
    | cons m l =>
      rw [List.map_cons, List.map_cons, List.intercalate_cons_cons, List.append_assoc, List.singleton_append,
        List.mem_append, List.mem_cons] at h
      rcases h with h | h | h
      · exact .inl (n.2.2 c h)
      · exact .inr h
      · exact ih h

theorem intercalate_cons (n : Number) (l : List Number) :
    ∃ c t, List.intercalate ['.'] ((n :: l).map Subtype.val) = c :: t ∧ isDecimal c = true := by
  obtain ⟨c, t, hn, hc⟩ := n.exists_cons
  cases l with
  | nil => exact ⟨c, t, by rw [List.map_singleton, List.intercalate_singleton, hn], hc⟩
  | cons k l => exact ⟨c, _, by rw [List.map_cons, List.map_cons, List.intercalate_cons_cons, hn]; rfl, hc⟩

theorem versionChunks_number (n : Number) : versionChunks n.1 = [n.1] := by
  refine List.splitBy_of_isChain n.2.1 (List.Pairwise.isChain ?_)
  rw [List.pairwise_iff_forall_sublist]
  intro a b h
  have ha := n.2.2 a (h.subset (List.mem_cons_self))
  have hb := n.2.2 b (h.subset (List.mem_cons_of_mem _ List.mem_cons_self))
  rw [ha, hb]
  rfl

theorem versionChunks_intercalate (l : List Number) :
    versionChunks (List.intercalate ['.'] (l.map Subtype.val)) = (l.map Subtype.val).intersperse ['.'] := by
  induction l with
  | nil => rfl
  | cons n l ih =>
    cases l with
    | nil =>
      rw [List.map_singleton, List.intercalate_singleton, List.intersperse_singleton]
      exact versionChunks_number n
    | cons m l =>
      obtain ⟨c, t, hm, hc⟩ := intercalate_cons m l
      have hn : ∀ x ∈ n.1.getLast?, ∀ y ∈ ('.' :: c :: t).head?, (isDecimal x == isDecimal y) = false := by
        intro x hx y hy
        obtain rfl : '.' = y := Option.some.inj hy
        rw [n.2.2 x (List.mem_of_getLast? hx), isDecimal_dot]
        rfl
      have hd : ∀ x ∈ ['.'].getLast?, ∀ y ∈ (c :: t).head?, (isDecimal x == isDecimal y) = false := by
        intro x hx y hy
        obtain rfl : '.' = x := Option.some.inj hx
        obtain rfl : c = y := Option.some.inj hy
        rw [hc, isDecimal_dot]
        rfl
      rw [hm] at ih
      rw [List.map_cons, List.map_cons, List.intercalate_cons_cons, List.append_assoc, ← List.map_cons, hm,
        List.singleton_append, versionChunks, List.splitBy_append hn, ← List.singleton_append, List.splitBy_append hd]
      exact congrArg₂ (fun a b ↦ a ++ (['.'] :: b)) (versionChunks_number n) ih

theorem versionPart_number {n : Number} (h : n.1.length ≤ maxIntDigits) : versionPart n.1 = .ok (.int n.value) := by
  have hd : n.1.all isDigit = true := List.all_eq_true.mpr fun c hc ↦ Digits.isDigit_of_isDecimal c (n.2.2 c hc)
  rw [versionPart, if_pos hd, int, List.all_eq_true.mpr n.2.2, decide_eq_true h]
  rfl

theorem versionPart_long {n : Number} (h : ¬n.1.length ≤ maxIntDigits) : versionPart n.1 = .error .valueError := by
  have hd : n.1.all isDigit = true := List.all_eq_true.mpr fun c hc ↦ Digits.isDigit_of_isDecimal c (n.2.2 c hc)
  rw [versionPart, if_pos hd, int, List.all_eq_true.mpr n.2.2, decide_eq_false h]
  rfl

theorem versionPart_dot : versionPart ['.'] = .ok (.str ".") := by
  rw [versionPart, List.all_cons, isDigit_dot]
  rfl

namespace DottedVersion

theorem strip_text (v : DottedVersion) : strip v.text = v.text := by
  apply strip_eq_self
  intro c hc
  rcases intercalate_chars hc with h | rfl
  · exact Digits.isSpace_of_isDecimal c h
  · exact Interp.isSpace_ascii '.' (by decide)

theorem lower_text (v : DottedVersion) : lower v.text = v.text := by
  have hc : ∀ c ∈ v.text, lowerChar c = [c] ∧ c ≠ sigma := by
    intro c hc
    rcases intercalate_chars hc with h | rfl
    · refine ⟨Digits.lowerChar_of_isDecimal c h, ?_⟩
      rintro rfl
      exact absurd Digits.isDecimal_sigma (by simp [h])
    · exact ⟨Interp.lowerChar_ascii '.' (by decide), by decide⟩
  have hs : v.text.flatMap lowerChar = v.text := by
    rw [List.flatMap_congr fun c h ↦ (hc c h).1]
    exact List.flatMap_singleton' _
  have hl := Interp.lower_spec v.text
  rw [hs] at hl
  exact (eq_of_forall₂_sameLower hl fun c h d hcd ↦ hcd.resolve_right fun hd ↦ (hc c h).2 hd.1).symm

theorem exists_text (v : DottedVersion) : ∃ c t, v.text = c :: t ∧ isDecimal c = true := by
  obtain ⟨n, l, h⟩ := List.exists_cons_of_ne_nil v.ne_nil
  rw [text, h]
  exact intercalate_cons n l

theorem isVersionBound_text (v : DottedVersion) : isVersionBound (.str v.text) = true := by
  obtain ⟨c, t, h, hc⟩ := v.exists_text
  have hstar : c ≠ '*' := by
    rintro rfl
    exact absurd (Digits.isDecimal_ascii '*' (by decide)) (by simp [hc])
  have hdash : c ≠ '-' := by
    rintro rfl
    exact absurd (Digits.isDecimal_ascii '-' (by decide)) (by simp [hc])
  have hs := v.strip_text
  rw [h] at hs ⊢
  simp [isVersionBound, Value.truthy, hs, hstar, hdash]

theorem versionTuple_text (v : DottedVersion) :
    versionTuple (.str v.text) = ((v.components.map Subtype.val).intersperse ['.']).mapM versionPart := by
  have hb := v.isVersionBound_text
  simp only [isVersionBound, str_str, strip_text, Bool.and_eq_true, Bool.not_eq_true', Bool.or_eq_false_iff,
    decide_eq_false_iff_not] at hb
  obtain ⟨ht, ⟨hnil, hstar⟩, hdash⟩ := hb
  rw [versionTuple, if_pos ht]
  simp only [str_str, strip_text, lower_text]
  rw [if_neg (not_or.mpr ⟨hstar, not_or.mpr ⟨hdash, hnil⟩⟩), text, versionChunks_intercalate]

theorem forall₂_dottedParts {l : List Number} (h : ∀ n ∈ l, n.1.length ≤ maxIntDigits) :
    List.Forall₂ (fun chunk p ↦ versionPart chunk = .ok p) ((l.map Subtype.val).intersperse ['.'])
      (dottedParts (l.map Number.value)) := by
  induction l with
  | nil => exact .nil
  | cons n l ih =>
    obtain ⟨hn, hl⟩ := List.forall_mem_cons.mp h
    cases l with
    | nil => exact .cons (versionPart_number hn) .nil
    | cons m l => exact .cons (versionPart_number hn) (.cons versionPart_dot (ih hl))

theorem versionTuple_short {v : DottedVersion} (h : v.Short) : versionTuple (.str v.text) = .ok (dottedParts v.values) := by
  rw [versionTuple_text, mapM_eq_ok]
  exact forall₂_dottedParts h

theorem mem_intersperse {n : Number} {l : List Number} (h : n ∈ l) : n.1 ∈ (l.map Subtype.val).intersperse ['.'] := by
  induction l with
  | nil => cases h
  | cons m l ih =>
    cases l with
    | nil =>
      obtain rfl := List.mem_singleton.mp h
      exact List.mem_cons_self
    | cons k l =>
      rcases List.mem_cons.mp h with rfl | h
      · exact List.mem_cons_self
      · exact List.mem_cons_of_mem _ (List.mem_cons_of_mem _ (ih h))

theorem short_of_versionTuple {v : DottedVersion} {parts : List Part} (h : versionTuple (.str v.text) = .ok parts) :
    v.Short := by
  intro n hn
  by_contra hl
  rw [versionTuple_text] at h
  obtain ⟨p, -, hp⟩ := mem_of_mapM h (mem_intersperse hn)
  rw [versionPart_long hl] at hp
  cases hp

theorem values_ne_nil (v : DottedVersion) : v.values ≠ [] := fun h ↦ v.ne_nil (List.map_eq_nil_iff.mp h)

/-- Both can be converted and neither goes on where the other ends. -/
structure Comparable (v w : DottedVersion) : Prop where
  left_short : v.Short
  right_short : w.Short
  not_shorter : ¬ProperPrefix v.values w.values
  not_longer : ¬ProperPrefix w.values v.values

theorem compareVersions_eq_iff (v w : DottedVersion) :
    compareVersions (.str v.text) (.str w.text) = .ok (v.compare w) ↔ Comparable v w := by
  constructor
  · intro h
    simp only [compareVersions, bind_eq_ok, pure_eq_ok, Except.ok.injEq] at h
    obtain ⟨as, ha, bs, hb, h⟩ := h
    have hv := short_of_versionTuple ha
    have hw := short_of_versionTuple hb
    obtain rfl := Except.ok.inj ((versionTuple_short hv).symm.trans ha)
    obtain rfl := Except.ok.inj ((versionTuple_short hw).symm.trans hb)
    refine ⟨hv, hw, fun hp ↦ ?_, fun hp ↦ ?_⟩
    · rw [(compareParts_longer v.values_ne_nil hp).1] at h
      exact absurd (comparePadded_longer hp).1 (by rw [← compare, ← h]; decide)
    · rw [(compareParts_longer w.values_ne_nil hp).2] at h
      exact absurd (comparePadded_longer hp).2 (by rw [← compare, ← h]; decide)
  · intro h
    rw [compareVersions, versionTuple_short h.left_short, versionTuple_short h.right_short]
    refine congrArg Except.ok ?_
    rcases eq_or_prefix_or_differ v.values w.values with he | hp | hp | ⟨p, m, n, s, t, hmn, hv, hw⟩
    · rw [compare, he, compareParts_eq, comparePadded_self, comparePadded_self]
    · exact absurd hp h.not_shorter
    · exact absurd hp h.not_longer
    · rw [compare, hv, hw]
      exact compareParts_of_differ hmn

end DottedVersion

/-- The bounds of a range, each of them absent or a version of numbers. -/
structure Range where
  startIncluding : Option DottedVersion
  startExcluding : Option DottedVersion
  endIncluding : Option DottedVersion
  endExcluding : Option DottedVersion

namespace Range

def boundValue : Option DottedVersion → Value
  | some w => .str w.text
  | none => .none

def bounds (r : Range) : Bounds where
  startIncluding := boundValue r.startIncluding
  startExcluding := boundValue r.startExcluding
  endIncluding := boundValue r.endIncluding
  endExcluding := boundValue r.endExcluding

def versions (r : Range) : List DottedVersion :=
  r.startIncluding.toList ++ r.startExcluding.toList ++ r.endIncluding.toList ++ r.endExcluding.toList

/-- The version lies numerically within the bounds. -/
def contains (r : Range) (v : DottedVersion) : Bool :=
  !(r.startIncluding.any (v.compare · == .lt) || r.startExcluding.any (v.compare · != .gt) ||
    r.endIncluding.any (v.compare · == .gt) || r.endExcluding.any (v.compare · != .lt))

end Range

theorem violates_none (v : Text) (bad : Ordering → Bool) : violates v .none bad = .ok false := rfl

theorem violates_text (v : Text) (w : DottedVersion) (bad : Ordering → Bool) :
    violates v (.str w.text) bad = bad <$> compareVersions (.str v) (.str w.text) := if_pos w.isVersionBound_text

theorem violates_boundValue {v : DottedVersion} {bound : Option DottedVersion} {bad : Ordering → Bool}
    (h : ∀ w ∈ bound, v.Comparable w) :
    violates v.text (Range.boundValue bound) bad = .ok (bound.any fun w ↦ bad (v.compare w)) := by
  cases bound with
  | none => rfl
  | some w =>
    rw [Range.boundValue, violates_text, (v.compareVersions_eq_iff w).mpr (h w rfl)]
    rfl

theorem versionInRange_of_violates {v : Text} (hv : strip v ≠ []) {b : Bounds} {x y z w : Bool}
    (hx : violates (strip v) b.startIncluding (· == .lt) = .ok x)
    (hy : violates (strip v) b.startExcluding (· != .gt) = .ok y)
    (hz : violates (strip v) b.endIncluding (· == .gt) = .ok z)
    (hw : violates (strip v) b.endExcluding (· != .lt) = .ok w) :
    versionInRange v b = .ok (!(x || y || z || w)) := by
  rw [versionInRange, if_neg hv]
  simp only [hx, hy, hz, hw, ok_bind, pure_eq_ok]
  cases x <;> cases y <;> cases z <;> cases w <;> rfl

theorem DottedVersion.text_ne_nil (v : DottedVersion) : v.text ≠ [] := by
  obtain ⟨c, t, h, -⟩ := v.exists_text
  rw [h]
  exact List.cons_ne_nil c t

theorem versionInRange_bounds {v : DottedVersion} {r : Range} (h : ∀ w ∈ r.versions, v.Comparable w) :
    versionInRange v.text r.bounds = .ok (r.contains v) := by
  simp only [Range.versions, List.mem_append, Option.mem_toList, or_imp, forall_and] at h
  obtain ⟨⟨⟨hsi, hse⟩, hei⟩, hee⟩ := h
  refine versionInRange_of_violates ?_ ?_ ?_ ?_ ?_
  · rw [v.strip_text]
    exact v.text_ne_nil
  · rw [v.strip_text]
    exact violates_boundValue hsi
  · rw [v.strip_text]
    exact violates_boundValue hse
  · rw [v.strip_text]
    exact violates_boundValue hei
  · rw [v.strip_text]
    exact violates_boundValue hee

/-- One exclusive bound alone shows how the version compares with it. -/
theorem versionInRange_startExcluding (v w : DottedVersion) :
    versionInRange v.text (Range.mk none (some w) none none).bounds =
      (· == .gt) <$> compareVersions (.str v.text) (.str w.text) := by
  rw [versionInRange, v.strip_text, if_neg v.text_ne_nil]
  simp only [Range.bounds, Range.boundValue, violates_none, violates_text]
  cases compareVersions (.str v.text) (.str w.text) with
  | error e => rfl
  | ok o => cases o <;> rfl

theorem versionInRange_endExcluding (v w : DottedVersion) :
    versionInRange v.text (Range.mk none none none (some w)).bounds =
      (· == .lt) <$> compareVersions (.str v.text) (.str w.text) := by
  rw [versionInRange, v.strip_text, if_neg v.text_ne_nil]
  simp only [Range.bounds, Range.boundValue, violates_none, violates_text]
  cases compareVersions (.str v.text) (.str w.text) with
  | error e => rfl
  | ok o => cases o <;> rfl

theorem compareVersions_of_ranges {v w : DottedVersion}
    (h : ∀ r : Range, (∀ u ∈ r.versions, u = w) → versionInRange v.text r.bounds = .ok (r.contains v)) :
    compareVersions (.str v.text) (.str w.text) = .ok (v.compare w) := by
  have hgt := h ⟨none, some w, none, none⟩ fun u hu ↦ List.mem_singleton.mp hu
  have hlt := h ⟨none, none, none, some w⟩ fun u hu ↦ List.mem_singleton.mp hu
  rw [versionInRange_startExcluding, map_eq_ok] at hgt
  rw [versionInRange_endExcluding, map_eq_ok] at hlt
  obtain ⟨o, ho, hgt⟩ := hgt
  obtain ⟨o', ho', hlt⟩ := hlt
  obtain rfl := Except.ok.inj (ho.symm.trans ho')
  rw [ho]
  simp only [Range.contains, Option.any_some, Option.any_none] at hgt hlt
  revert hgt hlt
  cases o <;> cases v.compare w <;> decide

/-- Two versions of numbers are compared as numbers exactly when neither is the start of the other, and a version is
placed in every range of some bounds exactly when it is so with each of them. -/
theorem compareVersions_numeric_iff :
    (∀ v w : DottedVersion, compareVersions (.str v.text) (.str w.text) = .ok (v.compare w) ↔ v.Comparable w) ∧
    ∀ (v : DottedVersion) (ws : List DottedVersion),
      (∀ r : Range, (∀ w ∈ r.versions, w ∈ ws) → versionInRange v.text r.bounds = .ok (r.contains v)) ↔
        ∀ w ∈ ws, v.Comparable w := by
  refine ⟨DottedVersion.compareVersions_eq_iff, fun v ws ↦ ⟨fun h w hw ↦ ?_, fun h r hr ↦ ?_⟩⟩
  · apply (v.compareVersions_eq_iff w).mp
    apply compareVersions_of_ranges
    exact fun r hr ↦ h r fun u hu ↦ hr u hu ▸ hw
  · exact versionInRange_bounds fun w hw ↦ h w (hr w hw)

end

section
local instance dottedDigits : Digits := latinDigits

def one : Number := ⟨"1", by decide, List.forall_iff_forall_mem.mp (by decide)⟩

def zero : Number := ⟨"0", by decide, List.forall_iff_forall_mem.mp (by decide)⟩

def oneZero : DottedVersion := ⟨[one, zero], by decide⟩

def oneZeroOne : DottedVersion := ⟨[one, zero, one], by decide⟩

/-- The text of the padding 0 is above the dot it meets: the longer version is the lower one. -/
theorem longer_version_is_lower : compareVersions (.str "1.0") (.str "1.0.1") = .ok .gt ∧
    compareVersions (.str "2") (.str "2.5") = .ok .gt ∧ compareVersions (.str "1") (.str "1.0") = .ok .gt ∧
    (¬∀ v w : DottedVersion, compareVersions (.str v.text) (.str w.text) = .ok (v.compare w)) ∧
    ¬∀ (v : DottedVersion) (r : Range), versionInRange v.text r.bounds = .ok (r.contains v) := by
  refine ⟨rfl, rfl, rfl, fun h ↦ ?_, fun h ↦ ?_⟩
  · exact absurd (h oneZero oneZeroOne) (by decide)
  · exact absurd (h oneZeroOne ⟨some oneZero, none, none, none⟩) (by decide)

end

end Briefr.Matching.Cpe
