import Mathlib.Data.List.Lex
import Mathlib.Data.List.SplitBy
import Mathlib.Data.Prod.Lex
import Briefr.Library.PaddedLex
import Briefr.Matching.Cpe
import Briefr.Python.Digits

namespace Briefr.Matching.Cpe

open Briefr.Python Briefr.Library.PaddedLex

theorem comparePart_self (a : Part) : comparePart a a = .eq := if_pos rfl

instance : Std.ReflCmp comparePart := ⟨comparePart_self _⟩

theorem compareParts_eq (as bs : List Part) : compareParts as bs = comparePadded comparePart (.int 0) as bs := by
  induction as generalizing bs with
  | nil =>
    rw [compareParts]
    induction bs with
    | nil => rfl
    | cons b bs ih => rw [compareMissing, comparePadded_nil_cons, ih]
  | cons a as ih =>
    cases bs with
    | nil => rw [compareParts, comparePadded_cons_nil, ih]
    | cons b bs => rw [compareParts, comparePadded_cons, ih]

/-- What `_version_tuple` can hold: a text of its own does not start with a digit of a number's text. -/
def Part.Valid : Part → Prop
  | .int _ => True
  | .str s => ∃ c t, s = c :: t ∧ c.isDigit = false

abbrev Rank := ℕ ×ₗ ℕ ×ₗ Text

/-- Numbers stand between the texts that start below the digits and those that start above them. -/
def Part.rank : Part → Rank
  | .int n => toLex (1, toLex (n, []))
  | .str s => toLex (if s.headD '0' < '0' then 0 else 2, toLex (0, s))

theorem rank_injective {a b : Part} (h : a.rank = b.rank) : a = b := by
  have h := toLex.injective.eq_iff.mp h
  cases a with
  | int m =>
    cases b with
    | int n => exact congrArg Part.int (Prod.ext_iff.mp (toLex.injective (Prod.ext_iff.mp h).2)).1
    | str t =>
      have h1 : 1 = if t.headD '0' < '0' then 0 else 2 := (Prod.ext_iff.mp h).1
      split at h1 <;> omega
  | str s =>
    cases b with
    | int n =>
      have h1 : (if s.headD '0' < '0' then 0 else 2) = 1 := (Prod.ext_iff.mp h).1
      split at h1 <;> omega
    | str t => exact congrArg Part.str (Prod.ext_iff.mp (toLex.injective (Prod.ext_iff.mp h).2)).2

theorem exists_shown_int (n : ℕ) : ∃ d u, (Part.int n).shown = d :: u ∧ '0' ≤ d ∧ d ≤ '9' := by
  obtain ⟨d, u, h⟩ := List.exists_cons_of_ne_nil (Nat.toDigits_ne_nil (n := n) (b := 10))
  have hd : d ∈ Nat.toDigits 10 n := h ▸ List.mem_cons_self
  exact ⟨d, u, h, isDigit_iff.mp (Nat.isDigit_of_mem_toDigits (by omega) (le_refl 10) hd)⟩

theorem lt_or_gt_of_not_digit {c : Char} (h : c.isDigit = false) : c < '0' ∨ '9' < c := by
  by_contra hn
  rw [not_or, not_lt, not_lt] at hn
  exact absurd (isDigit_iff.mpr hn) (by simp [h])

theorem cons_lt_cons_of_lt {c d : Char} (h : c < d) (t u : Text) : c :: t < d :: u := List.Lex.rel h

theorem not_cons_lt_cons_of_lt {c d : Char} (h : c < d) (t u : Text) : ¬d :: u < c :: t := by
  rw [List.cons_lt_cons_iff, not_or]
  exact ⟨h.asymm, fun hu ↦ h.ne hu.1.symm⟩

/-- One text is before another, or one number is below another. -/
def Part.Before : Part → Part → Prop
  | .int m, .int n => m < n
  | a, b => a.shown < b.shown

theorem rank_lt_iff {a b : Part} (ha : a.Valid) (hb : b.Valid) : a.rank < b.rank ↔ a.Before b := by
  cases a with
  | int m =>
    cases b with
    | int n => simp [Part.rank, Part.Before, Prod.Lex.toLex_lt_toLex]
    | str t =>
      obtain ⟨c, t, rfl, hc⟩ := hb
      obtain ⟨d, u, hd, h0, h9⟩ := exists_shown_int m
      have hs : (Part.int m).Before (.str (c :: t)) ↔ d :: u < c :: t := by rw [← hd]; rfl
      rw [hs]
      rcases lt_or_gt_of_not_digit hc with h | h
      · have hn := not_cons_lt_cons_of_lt (h.trans_le h0) t u
        simp [Part.rank, Prod.Lex.toLex_lt_toLex, h, hn]
      · have hn := cons_lt_cons_of_lt (h9.trans_lt h) u t
        have h' : ¬c < '0' := not_lt.mpr ((by decide : '0' ≤ '9').trans h.le)
        simp [Part.rank, Prod.Lex.toLex_lt_toLex, h', hn]
  | str s =>
    obtain ⟨c, s, rfl, hc⟩ := ha
    cases b with
    | int n =>
      obtain ⟨d, u, hd, h0, h9⟩ := exists_shown_int n
      have hs : (Part.str (c :: s)).Before (.int n) ↔ c :: s < d :: u := by rw [← hd]; rfl
      rw [hs]
      rcases lt_or_gt_of_not_digit hc with h | h
      · have hn := cons_lt_cons_of_lt (h.trans_le h0) s u
        simp [Part.rank, Prod.Lex.toLex_lt_toLex, h, hn]
      · have hn := not_cons_lt_cons_of_lt (h9.trans_lt h) u s
        have h' : ¬c < '0' := not_lt.mpr ((by decide : '0' ≤ '9').trans h.le)
        simp [Part.rank, Prod.Lex.toLex_lt_toLex, h', hn]
    | str t =>
      obtain ⟨e, t, rfl, he⟩ := hb
      have hs : (Part.str (c :: s)).Before (.str (e :: t)) ↔ c :: s < e :: t := .rfl
      rw [hs]
      by_cases h : c < '0' <;> by_cases h' : e < '0'
      · simp [Part.rank, Prod.Lex.toLex_lt_toLex, h, h']
      · have hn := cons_lt_cons_of_lt (h.trans_le (not_lt.mp h')) s t
        simp [Part.rank, Prod.Lex.toLex_lt_toLex, h, h', hn]
      · have hn := not_cons_lt_cons_of_lt (h'.trans_le (not_lt.mp h)) t s
        simp [Part.rank, Prod.Lex.toLex_lt_toLex, h, h', hn]
      · simp [Part.rank, Prod.Lex.toLex_lt_toLex, h, h']

theorem comparePart_eq_cmp {a b : Part} (ha : a.Valid) (hb : b.Valid) : comparePart a b = cmp a.rank b.rank := by
  by_cases he : a = b
  · rw [he, comparePart_self, cmp_self_eq_eq]
  · have hc : comparePart a b = if a.rank < b.rank then .lt else .gt := by
      have hr := (rank_lt_iff ha hb).symm
      unfold comparePart
      rw [if_neg he]
      cases a <;> cases b <;> exact if_congr hr rfl rfl
    by_cases h : a.rank < b.rank
    · rw [hc, if_pos h]
      exact ((cmp_eq_lt_iff _ _).mpr h).symm
    · rw [hc, if_neg h]
      have hn : b.rank ≠ a.rank := fun hr ↦ he (rank_injective hr).symm
      exact ((cmp_eq_gt_iff _ _).mpr (lt_of_le_of_ne (not_lt.mp h) hn)).symm

instance : Std.TransCmp (cmp : Rank → Rank → Ordering) := by
  have hc : (cmp : Rank → Rank → Ordering) = LinearOrder.toOrd.compare := by
    funext x y
    exact cmp_eq_compare x y
  rw [hc]
  infer_instance

/-- The versions as they are compared: one rank after the other, a missing one being that of the number 0. -/
theorem compareParts_eq_rank {as bs : List Part} (ha : ∀ a ∈ as, a.Valid) (hb : ∀ b ∈ bs, b.Valid) :
    compareParts as bs = comparePadded cmp (Part.int 0).rank (as.map Part.rank) (bs.map Part.rank) := by
  rw [compareParts_eq]
  exact comparePadded_map trivial (fun _ _ ↦ comparePart_eq_cmp) ha hb

abbrev compareRanks : List Rank → List Rank → Ordering := comparePadded cmp (Part.int 0).rank

section
variable [Digits]

theorem versionChunks_uniform {s chunk : Text} (h : chunk ∈ versionChunks s) :
    ∃ c t, chunk = c :: t ∧ ∀ d ∈ t, isDecimal c = isDecimal d := by
  obtain ⟨c, t, rfl⟩ := List.exists_cons_of_ne_nil (List.ne_nil_of_mem_splitBy h)
  have hc := List.isChain_of_mem_splitBy h
  simp only [beq_iff_eq] at hc
  have : Trans (fun a b : Char ↦ isDecimal a = isDecimal b) (fun a b ↦ isDecimal a = isDecimal b)
      (fun a b ↦ isDecimal a = isDecimal b) := ⟨Eq.trans⟩
  exact ⟨c, t, rfl, fun _ ↦ List.rel_of_pairwise_cons (List.isChain_iff_pairwise.mp hc)⟩

theorem versionPart_valid {s chunk : Text} {p : Part} (hc : chunk ∈ versionChunks s) (h : versionPart chunk = .ok p) :
    p.Valid := by
  rw [versionPart] at h
  split at h
  · obtain ⟨n, -, rfl⟩ := map_eq_ok.mp h
    trivial
  · rename_i hd
    obtain rfl := Except.ok.inj h
    obtain ⟨c, t, rfl, ht⟩ := versionChunks_uniform hc
    refine ⟨c, t, rfl, Bool.eq_false_iff.mpr fun hn ↦ hd ?_⟩
    have hdec : isDecimal c = true := by
      rw [Digits.isDecimal_ascii c (by have := isDigit_iff.mp hn; omega), hn]
    rw [List.all_cons, Bool.and_eq_true, List.all_eq_true]
    exact ⟨Digits.isDigit_of_isDecimal c hdec, fun d hd ↦ Digits.isDigit_of_isDecimal d ((ht d hd).symm.trans hdec)⟩

theorem versionTuple_valid {v : Value} {parts : List Part} (h : versionTuple v = .ok parts) : ∀ p ∈ parts, p.Valid := by
  rw [versionTuple] at h
  split at h
  · simp only at h
    split at h
    · obtain rfl := Except.ok.inj h
      exact List.forall_mem_nil _
    · intro p hp
      obtain ⟨chunk, hc, hp⟩ := mem_of_mem_mapM h hp
      exact versionPart_valid hc hp
  · obtain rfl := Except.ok.inj h
    exact List.forall_mem_nil _

/-- The ranks of a version's parts. -/
def versionRanks (v : Value) : Py (List Rank) := List.map Part.rank <$> versionTuple v

theorem compareVersions_eq_ok {a b : Value} {o : Ordering} :
    compareVersions a b = .ok o ↔ ∃ x y, versionRanks a = .ok x ∧ versionRanks b = .ok y ∧ compareRanks x y = o := by
  simp only [compareVersions, versionRanks, bind_eq_ok, map_eq_ok, pure_eq_ok, Except.ok.injEq]
  constructor
  · rintro ⟨as, ha, bs, hb, rfl⟩
    refine ⟨_, _, ⟨as, ha, rfl⟩, ⟨bs, hb, rfl⟩, ?_⟩
    exact (compareParts_eq_rank (versionTuple_valid ha) (versionTuple_valid hb)).symm
  · rintro ⟨_, _, ⟨as, ha, rfl⟩, ⟨bs, hb, rfl⟩, rfl⟩
    exact ⟨as, ha, bs, hb, compareParts_eq_rank (versionTuple_valid ha) (versionTuple_valid hb)⟩

/-- Every run of digits is a number that `int` takes. -/
def Convertible (s : Text) : Prop :=
  ∀ chunk ∈ versionChunks (lower (strip s)), chunk.all isDigit = true →
    chunk.all isDecimal = true ∧ chunk.length ≤ maxIntDigits

theorem versionRanks_of_convertible {s : Text} (h : Convertible s) : ∃ x, versionRanks (.str s) = .ok x := by
  have ht : ∃ parts, versionTuple (.str s) = .ok parts := by
    rw [versionTuple]
    split
    · simp only
      split
      · exact ⟨[], rfl⟩
      · apply mapM_defined
        intro chunk hc
        rw [versionPart]
        split
        · rename_i hd
          obtain ⟨hdec, hlen⟩ := h chunk hc hd
          rw [int, hdec, decide_eq_true hlen]
          exact ⟨_, rfl⟩
        · exact ⟨_, rfl⟩
    · exact ⟨[], rfl⟩
  obtain ⟨parts, hp⟩ := ht
  exact ⟨parts.map Part.rank, map_eq_ok.mpr ⟨parts, hp, rfl⟩⟩

theorem versionRanks_strip (s : Text) : versionRanks (.str (strip s)) = versionRanks (.str s) := by
  have hn : ∀ t : Text, strip t = [] → versionTuple (.str t) = .ok [] := by
    intro t ht
    rw [versionTuple]
    split
    · simp only [str_str, ht]
      rw [lower_space (List.forall_mem_nil _)]
      rfl
    · rfl
  rw [versionRanks, versionRanks]
  by_cases hs : strip s = []
  · rw [hn s hs, hs]
    rfl
  · have hs' : s ≠ [] := by
      rintro rfl
      exact hs (strip_eq_self (List.forall_mem_nil _))
    have ht : ∀ t : Text, t ≠ [] → (Value.str t).truthy = true := by
      intro t ht
      simpa [Value.truthy] using ht
    rw [versionTuple, versionTuple, if_pos (ht _ hs), if_pos (ht _ hs')]
    have hss : strip (str (.str (strip s))) = strip (str (.str s)) := strip_strip s
    rw [hss]

theorem violates_eq_false {v : Text} {bound : Value} {bad : Ordering → Bool} :
    violates v bound bad = .ok false ↔
      (isVersionBound bound = true → ∃ o, compareVersions (.str v) bound = .ok o ∧ bad o = false) := by
  rw [violates]
  split
  · rename_i h
    rw [map_eq_ok]
    exact ⟨fun ho _ ↦ ho, fun ho ↦ ho h⟩
  · rename_i h
    exact ⟨fun _ hb ↦ absurd hb h, fun _ ↦ rfl⟩

/-- A version that is not blank is in the range if no bound is violated. -/
theorem versionInRange_eq_true {v : Text} (hv : strip v ≠ []) {b : Bounds} : versionInRange v b = .ok true ↔
    violates (strip v) b.startIncluding (· == .lt) = .ok false ∧
    violates (strip v) b.startExcluding (· != .gt) = .ok false ∧
    violates (strip v) b.endIncluding (· == .gt) = .ok false ∧
    violates (strip v) b.endExcluding (· != .lt) = .ok false := by
  have hstep : ∀ (x : Py Bool) (rest : Py Bool),
      (x >>= fun y ↦ if y = true then .ok false else rest) = .ok true ↔ x = .ok false ∧ rest = .ok true := by
    intro x rest
    cases x with
    | error e => simp
    | ok y => cases y <;> simp
  rw [versionInRange, if_neg hv]
  simp only [pure_eq_ok, hstep, and_true]

/-- A bound that lets a version through lets every version through that is on the same side of it. -/
theorem violates_of_imp {v w : Text} {x y : List Rank} {bound : Value} {bad : Ordering → Bool}
    (hv : versionRanks (.str v) = .ok x) (hw : versionRanks (.str w) = .ok y)
    (h : ∀ z, bad (compareRanks x z) = false → bad (compareRanks y z) = false)
    (hb : violates v bound bad = .ok false) : violates w bound bad = .ok false := by
  rw [violates_eq_false] at hb ⊢
  intro hi
  obtain ⟨_, ho, hf⟩ := hb hi
  obtain ⟨x', z, hx', hz, rfl⟩ := compareVersions_eq_ok.mp ho
  obtain rfl := Except.ok.inj (hv.symm.trans hx')
  exact ⟨_, compareVersions_eq_ok.mpr ⟨y, z, hw, hz, rfl⟩, h z hf⟩

theorem versionInRange_of_between {a b c : Text} {x y z : List Rank} {range : Bounds}
    (ha : versionRanks (.str a) = .ok x) (hb : versionRanks (.str b) = .ok y) (hc : versionRanks (.str c) = .ok z)
    (hna : strip a ≠ []) (hnc : strip c ≠ []) (hra : versionInRange a range = .ok true)
    (hrc : versionInRange c range = .ok true) (hxy : (compareRanks x y).isLE) (hyz : (compareRanks y z).isLE) :
    versionInRange b range = .ok true := by
  by_cases hnb : strip b = []
  · rw [versionInRange, if_pos hnb]
  rw [← versionRanks_strip] at ha hb hc
  obtain ⟨hsi, hse, -, -⟩ := (versionInRange_eq_true hna).mp hra
  obtain ⟨-, -, hei, hee⟩ := (versionInRange_eq_true hnc).mp hrc
  have hyx := Std.OrientedCmp.isGE_of_isLE hxy
  refine (versionInRange_eq_true hnb).mpr ⟨violates_of_imp ha hb ?_ hsi, violates_of_imp ha hb ?_ hse,
    violates_of_imp hc hb ?_ hei, violates_of_imp hc hb ?_ hee⟩
  · intro w hw
    simp only [beq_eq_false_iff_ne, ne_eq, Ordering.ne_lt_iff_isGE] at hw ⊢
    exact Std.TransCmp.isGE_trans hyx hw
  · intro w hw
    simp only [bne_eq_false_iff_eq] at hw ⊢
    exact Std.TransCmp.gt_of_isGE_of_gt hyx hw
  · intro w hw
    simp only [beq_eq_false_iff_ne, ne_eq, Ordering.ne_gt_iff_isLE] at hw ⊢
    exact Std.TransCmp.isLE_trans hyz hw
  · intro w hw
    simp only [bne_eq_false_iff_eq] at hw ⊢
    exact Std.TransCmp.lt_of_isLE_of_lt hyz hw

/-- Versions that can be converted are in a total preorder, in which the versions of a range form an interval unless
one of its ends is blank. -/
theorem compareVersions_preorder {a b c : Text} (ha : Convertible a) (hb : Convertible b) (hc : Convertible c) :
    ∃ ab bc ac, compareVersions (.str a) (.str b) = .ok ab ∧ compareVersions (.str b) (.str c) = .ok bc ∧
      compareVersions (.str a) (.str c) = .ok ac ∧ compareVersions (.str a) (.str a) = .ok .eq ∧
      compareVersions (.str b) (.str a) = .ok ab.swap ∧ (ab.isLE → bc.isLE → ac.isLE) ∧
      ∀ range, strip a ≠ [] → strip c ≠ [] → versionInRange a range = .ok true → versionInRange c range = .ok true →
        ab.isLE → bc.isLE → versionInRange b range = .ok true := by
  obtain ⟨x, hx⟩ := versionRanks_of_convertible ha
  obtain ⟨y, hy⟩ := versionRanks_of_convertible hb
  obtain ⟨z, hz⟩ := versionRanks_of_convertible hc
  refine ⟨compareRanks x y, compareRanks y z, compareRanks x z, ?_, ?_, ?_, ?_, ?_, Std.TransCmp.isLE_trans, ?_⟩
  · exact compareVersions_eq_ok.mpr ⟨x, y, hx, hy, rfl⟩
  · exact compareVersions_eq_ok.mpr ⟨y, z, hy, hz, rfl⟩
  · exact compareVersions_eq_ok.mpr ⟨x, z, hx, hz, rfl⟩
  · exact compareVersions_eq_ok.mpr ⟨x, x, hx, hx, Std.ReflCmp.compare_self⟩
  · exact compareVersions_eq_ok.mpr ⟨y, x, hy, hx, Std.OrientedCmp.eq_swap⟩
  · intro range hna hnc hra hrc
    exact versionInRange_of_between hx hy hz hna hnc hra hrc

end

section
local instance versionDigits : Digits := latinDigits

theorem compareVersions_preorder_letters : ∃ ab bc ac, compareVersions (.str "1.0rc1") (.str "1.0") = .ok ab ∧
    compareVersions (.str "1.0") (.str "v1") = .ok bc ∧ compareVersions (.str "1.0rc1") (.str "v1") = .ok ac ∧
    compareVersions (.str "1.0rc1") (.str "1.0rc1") = .ok .eq ∧
    compareVersions (.str "1.0") (.str "1.0rc1") = .ok ab.swap ∧ (ab.isLE → bc.isLE → ac.isLE) ∧
    ∀ range, strip "1.0rc1" ≠ [] → strip "v1" ≠ [] → versionInRange "1.0rc1" range = .ok true →
      versionInRange "v1" range = .ok true → ab.isLE → bc.isLE → versionInRange "1.0" range = .ok true :=
  compareVersions_preorder (by unfold Convertible; decide) (by unfold Convertible; decide)
    (by unfold Convertible; decide)

/-- A superscript is a digit that `int` refuses. A blank version is below 1 and in every range, 9 is in the range from 5
on, and 1 is not. -/
theorem preorder_fails : compareVersions (.str "²") (.str "1") = .error .valueError ∧
    compareVersions (.str "") (.str "1") = .ok .lt ∧ compareVersions (.str "1") (.str "9") = .ok .lt ∧
    versionInRange "" ⟨.str "5", .none, .none, .none⟩ = .ok true ∧
    versionInRange "9" ⟨.str "5", .none, .none, .none⟩ = .ok true ∧
    versionInRange "1" ⟨.str "5", .none, .none, .none⟩ = .ok false := by
  refine ⟨rfl, rfl, rfl, rfl, rfl, rfl⟩

end

end Briefr.Matching.Cpe
