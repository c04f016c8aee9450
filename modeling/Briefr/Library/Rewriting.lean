import Mathlib.Data.List.Infix

namespace Briefr.Library.Rewriting

variable {α : Type}

/-- What a rule makes of the start of a text, behind a symbol: the replacement of the match and its length. -/
abbrev Rule (α : Type) := Option α → List α → Option (List α × ℕ)

/-- Every match replaced from the left and without overlaps, with the number of symbols of a match that are still left
out and the symbol before. -/
def rewriteFrom (rule : Rule α) : ℕ → Option α → List α → List α
  | _, _, [] => []
  | skip + 1, _, c :: rest => rewriteFrom rule skip (some c) rest
  | 0, before, c :: rest =>
    match rule before (c :: rest) with
    | some (replacement, length) => replacement ++ rewriteFrom rule (length - 1) (some c) rest
    | none => c :: rewriteFrom rule 0 (some c) rest

def rewrite (rule : Rule α) (text : List α) : List α := rewriteFrom rule 0 none text

/-- The text before the first match, the length of the match and its replacement, if there is one. -/
def firstFrom (rule : Rule α) : Option α → List α → Option (List α × List α × ℕ)
  | _, [] => none
  | before, c :: rest =>
    match rule before (c :: rest) with
    | some (replacement, length) => some ([], replacement, length)
    | none => (firstFrom rule (some c) rest).map fun found ↦ (c :: found.1, found.2)

def first (rule : Rule α) (text : List α) : Option (List α × List α × ℕ) := firstFrom rule none text

/-- Only the first match replaced. -/
def rewriteFirst (rule : Rule α) (text : List α) : List α :=
  match first rule text with
  | some (front, replacement, length) => front ++ replacement ++ text.drop (front.length + length)
  | none => text

/-- A relation between texts that holds of what is put together of related parts. -/
structure Congruence (R : List α → List α → Prop) : Prop where
  refl : ∀ a, R a a
  append : ∀ a a' b b', R a a' → R b b' → R (a ++ b) (a' ++ b')

/-- Every match of a rule has at least one symbol and is related to its replacement. -/
def Respects (rule : Rule α) (R : List α → List α → Prop) : Prop :=
  ∀ before text replacement length, rule before text = some (replacement, length) →
    0 < length ∧ R (text.take length) replacement

section
variable {R : List α → List α → Prop} {rule : Rule α}

theorem rewriteFrom_related (hR : Congruence R) (hrule : Respects rule R) (skip : ℕ) (before : Option α)
    (text : List α) : R (text.drop skip) (rewriteFrom rule skip before text) := by
  induction text generalizing skip before with
  | nil =>
    rw [List.drop_nil]
    cases skip <;> exact hR.refl []
  | cons c rest ih =>
    cases skip with
    | succ skip => exact ih skip (some c)
    | zero =>
      rw [rewriteFrom]
      cases hmatch : rule before (c :: rest) with
      | none => exact hR.append [c] [c] rest _ (hR.refl [c]) (ih 0 (some c))
      | some found =>
        obtain ⟨replacement, length⟩ := found
        obtain ⟨hpos, hrelated⟩ := hrule before (c :: rest) replacement length hmatch
        obtain ⟨length, rfl⟩ := Nat.exists_eq_add_of_le' hpos
        have happend := hR.append _ _ _ _ hrelated (ih length (some c))
        rwa [List.take_succ_cons, List.cons_append, List.take_append_drop] at happend

theorem rewrite_related (hR : Congruence R) (hrule : Respects rule R) (text : List α) : R text (rewrite rule text) :=
  rewriteFrom_related hR hrule 0 none text

theorem firstFrom_eq_some {before : Option α} {text front replacement : List α} {length : ℕ}
    (h : firstFrom rule before text = some (front, replacement, length)) :
    ∃ before' text', text = front ++ text' ∧ rule before' text' = some (replacement, length) := by
  induction text generalizing before front with
  | nil => cases h
  | cons c rest ih =>
    rw [firstFrom] at h
    cases hmatch : rule before (c :: rest) with
    | some found =>
      obtain ⟨replacement', length'⟩ := found
      rw [hmatch] at h
      cases h
      exact ⟨before, c :: rest, rfl, hmatch⟩
    | none =>
      rw [hmatch] at h
      obtain ⟨⟨front', replacement', length'⟩, hfirst, heq⟩ := Option.map_eq_some_iff.mp h
      cases heq
      obtain ⟨before', text', rfl, hrule⟩ := ih hfirst
      exact ⟨before', text', rfl, hrule⟩

/-- The text around the first match. -/
theorem rewriteFirst_of_first {text front replacement : List α} {length : ℕ}
    (h : first rule text = some (front, replacement, length)) :
    ∃ before found rest, text = front ++ (found ++ rest) ∧ rule before (found ++ rest) = some (replacement, length) ∧
      found = (found ++ rest).take length ∧ rewriteFirst rule text = front ++ (replacement ++ rest) := by
  obtain ⟨before, text', rfl, hrule⟩ := firstFrom_eq_some h
  refine ⟨before, text'.take length, text'.drop length, ?_, ?_, ?_, ?_⟩
  · rw [List.take_append_drop]
  · rwa [List.take_append_drop]
  · rw [List.take_append_drop]
  · rw [rewriteFirst, h]
    dsimp only
    rw [List.append_assoc, List.drop_append, List.drop_eq_nil_of_le (Nat.le_add_right _ _), List.nil_append,
      Nat.add_sub_cancel_left]

theorem rewriteFirst_related (hR : Congruence R) (hrule : Respects rule R) (text : List α) :
    R text (rewriteFirst rule text) := by
  cases hfirst : first rule text with
  | none =>
    rw [rewriteFirst, hfirst]
    exact hR.refl text
  | some found =>
    obtain ⟨front, replacement, length⟩ := found
    obtain ⟨before, found, rest, rfl, hmatch, htake, heq⟩ := rewriteFirst_of_first hfirst
    rw [heq]
    have hrelated := (hrule _ _ _ _ hmatch).2
    rw [← htake] at hrelated
    exact hR.append _ _ _ _ (hR.refl front) (hR.append _ _ _ _ hrelated (hR.refl rest))

end

/-- A rule with one replacement that does not look at the symbol before. -/
def fixed (marker : List α) (matched : List α → Option ℕ) : Rule α := fun _ text ↦ (matched text).map (marker, ·)

/-- A match is made of symbols of the text, of one at least. -/
def Proper (matched : List α → Option ℕ) : Prop := ∀ text n, matched text = some n → 0 < n ∧ n ≤ text.length

section
variable {marker : List α} {matched : List α → Option ℕ}

theorem Proper.nil (h : Proper matched) : matched [] = none := by
  cases hnil : matched [] with
  | none => rfl
  | some n =>
    obtain ⟨hpos, hle⟩ := h [] n hnil
    exact absurd (hpos.trans_le hle) (lt_irrefl 0)

/-- From the left: a symbol where nothing matches, or a match. -/
theorem Proper.induction (h : Proper matched) {motive : List α → Prop} (nil : motive [])
    (keep : ∀ c rest, matched (c :: rest) = none → motive rest → motive (c :: rest))
    (replace : ∀ text n, matched text = some n → motive (text.drop n) → motive text) (text : List α) : motive text := by
  have hbound : ∀ n, ∀ text : List α, text.length ≤ n → motive text := by
    intro n
    induction n with
    | zero =>
      intro text hlength
      obtain rfl := List.length_eq_zero_iff.mp (Nat.le_zero.mp hlength)
      exact nil
    | succ n ih =>
      intro text hlength
      cases hmatch : matched text with
      | some m =>
        obtain ⟨hpos, hle⟩ := h text m hmatch
        refine replace text m hmatch (ih _ ?_)
        rw [List.length_drop]
        omega
      | none =>
        cases text with
        | nil => exact nil
        | cons c rest => exact keep c rest hmatch (ih rest (Nat.le_of_succ_le_succ hlength))
  exact hbound text.length text le_rfl

theorem rewriteFrom_fixed (skip : ℕ) (before : Option α) (text : List α) :
    rewriteFrom (fixed marker matched) skip before text = rewrite (fixed marker matched) (text.drop skip) := by
  have hbefore : ∀ (text : List α) (skip : ℕ) (before before' : Option α),
      rewriteFrom (fixed marker matched) skip before text = rewriteFrom (fixed marker matched) skip before' text := by
    intro text
    cases text with
    | nil => intro skip _ _; cases skip <;> rfl
    | cons c rest => intro skip _ _; cases skip <;> rfl
  induction text generalizing skip before with
  | nil =>
    rw [List.drop_nil]
    cases skip <;> rfl
  | cons c rest ih =>
    cases skip with
    | zero => exact hbefore _ _ _ _
    | succ skip => exact ih skip (some c)

theorem rewrite_keep {c : α} {rest : List α} (h : matched (c :: rest) = none) :
    rewrite (fixed marker matched) (c :: rest) = c :: rewrite (fixed marker matched) rest := by
  have hrule : fixed marker matched none (c :: rest) = none := congrArg _ h
  rw [rewrite, rewriteFrom, hrule]
  exact congrArg _ (rewriteFrom_fixed 0 (some c) rest)

theorem rewrite_replace (hproper : Proper matched) {text : List α} {n : ℕ} (h : matched text = some n) :
    rewrite (fixed marker matched) text = marker ++ rewrite (fixed marker matched) (text.drop n) := by
  obtain ⟨hpos, hle⟩ := hproper text n h
  cases text with
  | nil => exact absurd (hpos.trans_le hle) (lt_irrefl 0)
  | cons c rest =>
    obtain ⟨n, rfl⟩ := Nat.exists_eq_add_of_le' hpos
    have hrule : fixed marker matched none (c :: rest) = some (marker, n + 1) := congrArg _ h
    rw [rewrite, rewriteFrom, hrule]
    exact congrArg _ (rewriteFrom_fixed n (some c) rest)

/-- A front in which no match begins is kept. -/
theorem rewrite_append_of_none {front rest : List α} (h : ∀ s, s <:+ front → s ≠ [] → matched (s ++ rest) = none) :
    rewrite (fixed marker matched) (front ++ rest) = front ++ rewrite (fixed marker matched) rest := by
  induction front with
  | nil => rfl
  | cons c front ih =>
    have hnone : matched (c :: (front ++ rest)) = none := h (c :: front) List.suffix_rfl (List.cons_ne_nil _ _)
    rw [List.cons_append, rewrite_keep hnone, ih fun s hs ↦ h s (hs.trans (List.suffix_cons c front)), List.cons_append]

/-- Where no match goes over a border, both sides are rewritten on their own. -/
theorem rewrite_append (hproper : Proper matched) {front rest : List α}
    (h : ∀ s, s <:+ front → s ≠ [] → matched (s ++ rest) = matched s) :
    rewrite (fixed marker matched) (front ++ rest) =
      rewrite (fixed marker matched) front ++ rewrite (fixed marker matched) rest := by
  induction front using hproper.induction with
  | nil => rfl
  | keep c front hnone ih =>
    have hboth : matched (c :: (front ++ rest)) = none :=
      (h (c :: front) List.suffix_rfl (List.cons_ne_nil _ _)).trans hnone
    rw [List.cons_append, rewrite_keep hboth, rewrite_keep hnone,
      ih fun s hs ↦ h s (hs.trans (List.suffix_cons c front)), List.cons_append]
  | replace front n hsome ih =>
    obtain ⟨hpos, hle⟩ := hproper front n hsome
    have hne : front ≠ [] := List.ne_nil_of_length_pos (hpos.trans_le hle)
    have hboth := (h front List.suffix_rfl hne).trans hsome
    rw [rewrite_replace hproper hboth, rewrite_replace hproper hsome, List.drop_append_of_le_length hle,
      ih fun s hs ↦ h s (hs.trans (List.drop_suffix n front)), List.append_assoc]

/-- What a rewritten text ends with is a rewritten end of the text, perhaps behind an end of a replacement. -/
theorem suffix_rewrite (hproper : Proper matched) {text s : List α} (h : s <:+ rewrite (fixed marker matched) text) :
    ∃ rest front, rest <:+ text ∧ front <:+ marker ∧ s = front ++ rewrite (fixed marker matched) rest := by
  induction text using hproper.induction with
  | nil => exact ⟨[], [], List.suffix_rfl, List.nil_suffix, List.suffix_nil.mp h⟩
  | keep c text hnone ih =>
    rw [rewrite_keep hnone] at h
    rcases List.suffix_cons_iff.mp h with rfl | h
    · exact ⟨c :: text, [], List.suffix_rfl, List.nil_suffix, (rewrite_keep hnone).symm⟩
    · obtain ⟨rest, front, hrest, hfront, heq⟩ := ih h
      exact ⟨rest, front, hrest.trans (List.suffix_cons c text), hfront, heq⟩
  | replace text n hsome ih =>
    rw [rewrite_replace hproper hsome] at h
    rcases List.suffix_or_suffix_of_suffix h (List.suffix_append _ _) with hin | ⟨front, rfl⟩
    · obtain ⟨rest, front, hrest, hfront, heq⟩ := ih hin
      exact ⟨rest, front, hrest.trans (List.drop_suffix n text), hfront, heq⟩
    · obtain ⟨before, hbefore⟩ := h
      rw [← List.append_assoc, List.append_left_inj] at hbefore
      exact ⟨text.drop n, front, List.drop_suffix n text, ⟨before, hbefore⟩, rfl⟩

/-- A symbol that no replacement begins with stands where it stood. -/
theorem rewrite_eq_cons (hproper : Proper matched) {x d : α} {text out : List α} (hmarker : marker.head? = some x)
    (hd : d ≠ x) (h : rewrite (fixed marker matched) text = d :: out) :
    ∃ rest, text = d :: rest ∧ matched text = none ∧ out = rewrite (fixed marker matched) rest := by
  cases hmatch : matched text with
  | some n =>
    rw [rewrite_replace hproper hmatch] at h
    have hhead := congrArg List.head? h
    rw [List.head?_append, hmarker, Option.some_or, List.head?_cons] at hhead
    exact absurd (Option.some.inj hhead).symm hd
  | none =>
    cases text with
    | nil => cases h
    | cons c rest =>
      rw [rewrite_keep hmatch] at h
      obtain ⟨rfl, rfl⟩ := List.cons.inj h
      exact ⟨rest, rfl, rfl, rfl⟩

theorem mem_rewrite (hproper : Proper matched) {text : List α} {c : α}
    (h : c ∈ rewrite (fixed marker matched) text) : c ∈ text ∨ c ∈ marker := by
  induction text using hproper.induction with
  | nil => exact .inl h
  | keep d text hnone ih =>
    rw [rewrite_keep hnone] at h
    rcases List.mem_cons.mp h with rfl | h
    · exact .inl (List.mem_cons_self ..)
    · exact (ih h).imp_left (List.mem_cons_of_mem d)
  | replace text n hsome ih =>
    rw [rewrite_replace hproper hsome] at h
    rcases List.mem_append.mp h with h | h
    · exact .inr h
    · exact (ih h).imp_left List.mem_of_mem_drop

/-- A rewritten text begins as the text does or as a replacement does. -/
theorem head?_rewrite (hproper : Proper matched) {x : α} (hmarker : marker.head? = some x) (text : List α) :
    matched text = none ∧ (rewrite (fixed marker matched) text).head? = text.head? ∨
      (∃ n, matched text = some n) ∧ (rewrite (fixed marker matched) text).head? = some x := by
  cases hmatch : matched text with
  | some n =>
    rw [rewrite_replace hproper hmatch, List.head?_append, hmarker, Option.some_or]
    exact .inr ⟨⟨n, rfl⟩, rfl⟩
  | none =>
    cases text with
    | nil => exact .inl ⟨rfl, rfl⟩
    | cons c rest =>
      rw [rewrite_keep hmatch]
      exact .inl ⟨rfl, rfl⟩

/-- Symbols of a class in which no match begins and no replacement. -/
theorem span_rewrite (hproper : Proper matched) {x : α} (hmarker : marker.head? = some x) {p : α → Bool}
    (hx : p x = false) (hp : ∀ c rest, p c = true → matched (c :: rest) = none) (text : List α) :
    (rewrite (fixed marker matched) text).takeWhile p = text.takeWhile p ∧
      (rewrite (fixed marker matched) text).dropWhile p = rewrite (fixed marker matched) (text.dropWhile p) := by
  induction text with
  | nil => exact ⟨rfl, rfl⟩
  | cons c text ih =>
    by_cases hc : p c = true
    · rw [rewrite_keep (hp c text hc), List.takeWhile_cons_of_pos hc, List.takeWhile_cons_of_pos hc,
        List.dropWhile_cons_of_pos hc, List.dropWhile_cons_of_pos hc, ih.1, ih.2]
      exact ⟨rfl, rfl⟩
    · rw [List.takeWhile_cons_of_neg hc, List.dropWhile_cons_of_neg hc]
      have hhead : ∃ d out, rewrite (fixed marker matched) (c :: text) = d :: out ∧ ¬p d = true := by
        rcases head?_rewrite hproper hmarker (c :: text) with ⟨-, h⟩ | ⟨-, h⟩
        · obtain ⟨out, hout⟩ := List.head?_eq_some_iff.mp h
          exact ⟨c, out, hout, hc⟩
        · obtain ⟨out, hout⟩ := List.head?_eq_some_iff.mp h
          exact ⟨x, out, hout, Bool.eq_false_iff.mp hx⟩
      obtain ⟨d, out, hout, hd⟩ := hhead
      rw [hout, List.takeWhile_cons_of_neg hd, List.dropWhile_cons_of_neg hd]
      exact ⟨rfl, rfl⟩

end

end Briefr.Library.Rewriting
