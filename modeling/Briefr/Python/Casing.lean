import Briefr.Python.Text

namespace Briefr.Python

/-- What lower-casing makes of one character: its own lower case, but a capital sigma may become the final form. -/
def LowerPiece (lowerChar : Char → Text) (c : Char) (piece : Text) : Prop :=
  piece = lowerChar c ∨ c ≠ sigma ∧ lowerChar c = [sigma] ∧ piece = [finalSigma]

def longS : Char := Char.ofNat 0x17F

/-- The case tables exactly: lower-casing depends on the context for a capital sigma only, upper-casing for none. The
ASCII letters that other characters lower to are `i` and `k`, no letter becomes a space, and a long s is in lower
case. -/
class Casing extends Interp where
  upperChar : Char → Text
  lower_pieces : ∀ s, ∃ pieces, List.Forall₂ (LowerPiece lowerChar) s pieces ∧ lower s = pieces.flatten
  lowerChar_ne_nil : ∀ c, lowerChar c ≠ []
  lowerChar_ascii_of_mem : ∀ c, ∀ d ∈ lowerChar c, d.toNat < 128 → c.toNat < 128 ∨ d = 'i' ∨ d = 'k'
  lowerChar_not_space : ∀ c, isSpace c = false → ∀ d ∈ lowerChar c, isSpace d = false
  finalSigma_not_space : isSpace finalSigma = false
  lowerChar_longS : lowerChar longS = [longS]
  longS_of_mem : ∀ c, longS ∈ lowerChar c → c = longS
  upper_eq : ∀ s, upper s = s.flatMap upperChar
  upperChar_ascii : ∀ c, c.toNat < 128 → upperChar c = [c.toUpper]
  upperChar_ne_nil : ∀ c, upperChar c ≠ []
  upperChar_not_space : ∀ c, isSpace c = false → ∀ d ∈ upperChar c, isSpace d = false

export Casing (upperChar)

theorem eq_of_toLower {c d : Char} (hd : ¬d.isAlpha) (h : d = c.toLower) : c = d := by
  by_cases hu : isUpperAscii c
  · exfalso
    have hn := toNat_toLower hu
    rw [← h] at hn
    unfold isUpperAscii at hu
    refine hd ?_
    have hlower : d.isLower = true := by
      have h1 : 97 ≤ d.toNat := by omega
      have h2 : d.toNat ≤ 122 := by omega
      exact Bool.and_eq_true_iff.mpr ⟨decide_eq_true h1, decide_eq_true h2⟩
    exact Bool.or_eq_true_iff.mpr (.inr hlower)
  · rw [h, toLower_of_not_upper hu]

section
variable [Interp] {s : Text}

theorem strip_eq_self_of_ends (hhead : ∀ c, s.head? = some c → isSpace c = false)
    (hlast : ∀ c, s.getLast? = some c → isSpace c = false) : strip s = s := by
  have hdrop : s.dropWhile isSpace = s := by
    cases s with
    | nil => rfl
    | cons c s => rw [List.dropWhile_cons_of_neg (by simp [hhead c rfl])]
  rw [strip, hdrop, List.rdropWhile_eq_self_iff]
  intro hne
  rw [hlast _ (List.getLast?_eq_some_getLast hne)]
  exact Bool.false_ne_true

end

section
variable [Casing] {s t : Text} {c d : Char}

/-- What lower-casing may make of a text inside some context. -/
def Lowered (s t : Text) : Prop := ∃ pieces, List.Forall₂ (LowerPiece lowerChar) s pieces ∧ t = pieces.flatten

theorem lowered_lower (s : Text) : Lowered s (lower s) := Casing.lower_pieces s

theorem lowered_nil : Lowered [] t ↔ t = [] := by
  constructor
  · rintro ⟨pieces, h, rfl⟩
    cases h
    rfl
  · rintro rfl
    exact ⟨[], .nil, rfl⟩

theorem lowered_cons : Lowered (c :: s) t ↔ ∃ piece t', LowerPiece lowerChar c piece ∧ Lowered s t' ∧ t = piece ++ t' := by
  constructor
  · rintro ⟨pieces, h, rfl⟩
    cases h with
    | cons hc hs => exact ⟨_, _, hc, ⟨_, hs, rfl⟩, List.flatten_cons⟩
  · rintro ⟨piece, t', hc, ⟨pieces, hs, rfl⟩, rfl⟩
    exact ⟨piece :: pieces, .cons hc hs, List.flatten_cons.symm⟩

theorem piece_of_fixed (hc : lowerChar c = [c]) {piece : Text} (h : LowerPiece lowerChar c piece) : piece = [c] := by
  rcases h with h | ⟨hsigma, h, -⟩
  · rw [h, hc]
  · rw [hc] at h
    exact absurd (List.cons.inj h).1 hsigma

theorem lowered_cons_fixed (hc : lowerChar c = [c]) : Lowered (c :: s) t ↔ ∃ t', Lowered s t' ∧ t = c :: t' := by
  rw [lowered_cons]
  constructor
  · rintro ⟨piece, t', hpiece, ht, rfl⟩
    rw [piece_of_fixed hc hpiece]
    exact ⟨t', ht, rfl⟩
  · rintro ⟨t', ht, rfl⟩
    exact ⟨[c], t', .inl hc.symm, ht, rfl⟩

/-- A text that is in lower case. -/
def Fixed (s : Text) : Prop := ∀ c ∈ s, lowerChar c = [c]

theorem lowered_append_fixed (ha : Fixed s) {rest : Text} :
    Lowered (s ++ rest) t ↔ ∃ t', Lowered rest t' ∧ t = s ++ t' := by
  induction s generalizing t with
  | nil => exact ⟨fun h ↦ ⟨t, h, rfl⟩, by rintro ⟨t', h, rfl⟩; exact h⟩
  | cons c s ih =>
    obtain ⟨hc, hs⟩ := List.forall_mem_cons.mp ha
    rw [List.cons_append, lowered_cons_fixed hc]
    constructor
    · rintro ⟨t', ht, rfl⟩
      obtain ⟨rest', hrest, rfl⟩ := (ih hs).mp ht
      exact ⟨rest', hrest, rfl⟩
    · rintro ⟨t', ht, rfl⟩
      exact ⟨s ++ t', (ih hs).mpr ⟨t', ht, rfl⟩, rfl⟩

theorem lower_of_fixed (h : Fixed s) : lower s = s := by
  have hl := lowered_lower (s ++ [])
  obtain ⟨t, ht, heq⟩ := (lowered_append_fixed h).mp hl
  rwa [lowered_nil.mp ht, List.append_nil] at heq

theorem fixed_of_lowered (h : Lowered s t) : Fixed t := by
  obtain ⟨pieces, h, rfl⟩ := h
  induction h with
  | nil => exact List.forall_mem_nil _
  | @cons c piece s pieces hpiece hs ih =>
    rw [List.flatten_cons]
    refine fun d hd ↦ (List.mem_append.mp hd).elim (fun hd ↦ ?_) (ih d)
    rcases hpiece with rfl | ⟨-, -, rfl⟩
    · exact Interp.lowerChar_idem c d hd
    · obtain rfl := List.mem_singleton.mp hd
      exact Interp.lowerChar_finalSigma

theorem fixed_lower (s : Text) : Fixed (lower s) := fixed_of_lowered (lowered_lower s)

theorem lowerChar_of_lowerCase (h : c.toNat < 128) (hc : c.toLower = c) : lowerChar c = [c] := by
  rw [Interp.lowerChar_ascii c h, hc]

theorem fixed_ascii {l : Text} (h : ∀ c ∈ l, c.toNat < 128 ∧ c.toLower = c) : Fixed l :=
  fun c hc ↦ lowerChar_of_lowerCase (h c hc).1 (h c hc).2

/-- An ASCII character that is no `i` or `k` comes from an ASCII character. -/
theorem mem_lowerChar_ascii (hd : d ∈ lowerChar c) (hascii : d.toNat < 128) (hi : d ≠ 'i') (hk : d ≠ 'k') :
    d = c.toLower ∧ c.toNat < 128 := by
  have hc : c.toNat < 128 := (Casing.lowerChar_ascii_of_mem c d hd hascii).resolve_right (by simp [hi, hk])
  rw [Interp.lowerChar_ascii c hc] at hd
  exact ⟨List.mem_singleton.mp hd, hc⟩

theorem mem_piece_ascii {piece : Text} (h : LowerPiece lowerChar c piece) (hd : d ∈ piece) (hascii : d.toNat < 128)
    (hi : d ≠ 'i') (hk : d ≠ 'k') : d = c.toLower ∧ c.toNat < 128 := by
  rcases h with rfl | ⟨-, -, rfl⟩
  · exact mem_lowerChar_ascii hd hascii hi hk
  · obtain rfl := List.mem_singleton.mp hd
    exact absurd hascii (by decide)

/-- An ASCII character that is no letter is in lower-cased text only where it was before. -/
theorem mem_of_mem_lowered (h : Lowered s t) (hd : d ∈ t) (hascii : d.toNat < 128) (halpha : ¬d.isAlpha) : d ∈ s := by
  obtain ⟨pieces, h, rfl⟩ := h
  have hi : d ≠ 'i' := by
    rintro rfl
    exact halpha rfl
  have hk : d ≠ 'k' := by
    rintro rfl
    exact halpha rfl
  induction h with
  | nil => cases hd
  | @cons c piece s pieces hpiece hs ih =>
    rw [List.flatten_cons, List.mem_append] at hd
    rcases hd with hd | hd
    · rw [eq_of_toLower halpha (mem_piece_ascii hpiece hd hascii hi hk).1]
      exact .head _
    · exact .tail _ (ih hd)

theorem mem_of_mem_lower (hd : d ∈ lower s) (hascii : d.toNat < 128) (halpha : ¬d.isAlpha) : d ∈ s :=
  mem_of_mem_lowered (lowered_lower s) hd hascii halpha

theorem lower_ne_nil (h : s ≠ []) : lower s ≠ [] := by
  obtain ⟨c, s, rfl⟩ := List.exists_cons_of_ne_nil h
  obtain ⟨piece, t, hpiece, -, heq⟩ := lowered_cons.mp (lowered_lower (c :: s))
  rw [heq]
  have hne : piece ≠ [] := by
    rcases hpiece with rfl | ⟨-, -, rfl⟩
    · exact Casing.lowerChar_ne_nil c
    · exact List.cons_ne_nil _ _
  exact List.append_ne_nil_of_left_ne_nil hne _

theorem lower_ascii (h : ∀ c ∈ s, c.toNat < 128) : lower s = s.map Char.toLower := by
  have hflat : s.flatMap lowerChar = s.map Char.toLower := by
    rw [List.map_eq_flatMap]
    exact List.flatMap_congr fun c hc ↦ Interp.lowerChar_ascii c (h c hc)
  have hl := Interp.lower_spec s
  rw [hflat] at hl
  refine (eq_of_forall₂_sameLower hl fun c hc d hcd ↦ hcd.eq_of_ascii ?_).symm
  obtain ⟨c', hc', rfl⟩ := List.mem_map.mp hc
  exact toLower_ascii (h c' hc')

/-- A count that takes no notice of case is the same after lower-casing. -/
theorem countP_lowered {p : Char → Bool} (hchar : ∀ c, (lowerChar c).countP p = [c].countP p)
    (hsigma : p sigma = p finalSigma) (h : Lowered s t) : t.countP p = s.countP p := by
  obtain ⟨pieces, h, rfl⟩ := h
  induction h with
  | nil => rfl
  | @cons c piece s pieces hpiece hs ih =>
    rw [List.flatten_cons, List.countP_append, ih, ← List.singleton_append, List.countP_append, ← hchar c]
    rcases hpiece with rfl | ⟨-, hlower, rfl⟩
    · rfl
    · rw [hlower, List.countP_singleton, List.countP_singleton, hsigma]

theorem countP_lower {p : Char → Bool} (hchar : ∀ c, (lowerChar c).countP p = [c].countP p)
    (hsigma : p sigma = p finalSigma) (s : Text) : (lower s).countP p = s.countP p :=
  countP_lowered hchar hsigma (lowered_lower s)

/-- A set of ASCII characters without `i` and `k` that takes no notice of case. -/
structure Caseless (p : Char → Bool) : Prop where
  ascii : ∀ c, p c = true → c.toNat < 128 ∧ c ≠ 'i' ∧ c ≠ 'k'
  toLower : ∀ n < 128, p (Char.ofNat n).toLower = p (Char.ofNat n)

theorem Caseless.countP_lower {p : Char → Bool} (h : Caseless p) (s : Text) : (lower s).countP p = s.countP p := by
  refine Python.countP_lower (fun c ↦ ?_) ?_ s
  · by_cases hc : c.toNat < 128
    · have hcase := h.toLower c.toNat hc
      rw [Char.ofNat_toNat] at hcase
      rw [Interp.lowerChar_ascii c hc, List.countP_singleton, List.countP_singleton, hcase]
    · have hnone : (lowerChar c).countP p = 0 := by
        refine List.countP_eq_zero.mpr fun d hd hp ↦ hc ?_
        obtain ⟨hascii, hi, hk⟩ := h.ascii d hp
        exact (mem_lowerChar_ascii hd hascii hi hk).2
      have hp : p c = false := Bool.eq_false_iff.mpr fun hp ↦ hc (h.ascii c hp).1
      rw [hnone, List.countP_singleton, hp]
      rfl
  · have hother : ∀ d : Char, 128 ≤ d.toNat → p d = false :=
      fun d hd ↦ Bool.eq_false_iff.mpr fun hp ↦ absurd (h.ascii d hp).1 (not_lt.mpr hd)
    rw [hother sigma (by decide), hother finalSigma (by decide)]

end

theorem isAsciiSpace_toUpper {c : Char} (hc : isAsciiSpace c = false) : isAsciiSpace c.toUpper = false := by
  by_cases h : 'a'.val ≤ c.val ∧ c.val ≤ 'z'.val
  · have hall : ∀ n < 123, isAsciiSpace (Char.ofNat n) = false → isAsciiSpace (Char.ofNat n).toUpper = false := by
      decide
    have hn : c.toNat < 123 := Nat.lt_succ_of_le h.2
    rw [← Char.ofNat_toNat c] at hc ⊢
    exact hall _ hn hc
  · have heq : c.toUpper = c := dif_neg h
    rwa [heq]

theorem ascii_of_toLower {c : Char} (h : c.toLower.toNat < 128) : c.toNat < 128 := by
  by_cases hu : isUpperAscii c
  · exact hu.2.trans_lt (by decide)
  · rwa [toLower_of_not_upper hu] at h

theorem isAsciiSpace_toLower {c : Char} (hc : isAsciiSpace c = false) : isAsciiSpace c.toLower = false := by
  by_cases hu : isUpperAscii c
  · have hn := toNat_toLower hu
    unfold isUpperAscii at hu
    simp only [isAsciiSpace, Bool.or_eq_false_iff, Bool.and_eq_false_iff, beq_eq_false_iff_ne, decide_eq_false_iff_not]
    omega
  · rwa [toLower_of_not_upper hu]

theorem isAsciiSpace_finalSigma : isAsciiSpace finalSigma = false := by decide

theorem toLower_longS : [longS.toLower] = [longS] := by decide

theorem eq_longS_of_toLower {c : Char} (h : longS = c.toLower) : c = longS := by
  by_cases hu : isUpperAscii c
  · have hn := toNat_toLower hu
    unfold isUpperAscii at hu
    rw [← h, show longS.toNat = 383 from rfl] at hn
    omega
  · rw [h, toLower_of_not_upper hu]

/-- The case tables of ASCII text, for runs on concrete inputs. -/
@[reducible] def asciiCasing (loads : Text → Option Value) : Casing :=
  { ascii loads with
    upperChar := fun c ↦ [c.toUpper]
    lower_pieces := fun s ↦ by
      refine ⟨s.map fun c ↦ [c.toLower], ?_, List.flatMap_def⟩
      rw [List.forall₂_map_right_iff]
      exact List.forall₂_same.mpr fun c _ ↦ .inl rfl
    lowerChar_ne_nil := fun c ↦ List.cons_ne_nil _ _
    lowerChar_ascii_of_mem := fun c d hd hascii ↦ .inl (ascii_of_toLower (List.mem_singleton.mp hd ▸ hascii))
    lowerChar_not_space := fun c hc d hd ↦ List.mem_singleton.mp hd ▸ isAsciiSpace_toLower hc
    finalSigma_not_space := isAsciiSpace_finalSigma
    lowerChar_longS := toLower_longS
    longS_of_mem := fun c hc ↦ eq_longS_of_toLower (List.mem_singleton.mp hc)
    upper_eq := fun s ↦ List.map_eq_flatMap
    upperChar_ascii := fun c _ ↦ rfl
    upperChar_ne_nil := fun c ↦ List.cons_ne_nil _ _
    upperChar_not_space := fun c hc d hd ↦ by
      obtain rfl := List.mem_singleton.mp hd
      exact isAsciiSpace_toUpper hc }

end Briefr.Python
