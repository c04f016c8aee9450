import Mathlib.Data.List.Infix

namespace Briefr.Library.Substitution

/-- One alternative of a pattern: the symbols that it takes, place by place. -/
abbrev Word (α : Type) := List (List α)

variable {α : Type}

theorem length_drop_lt {word : Word α} (hword : word ≠ []) (c : α) (text : List α) :
    ((c :: text).drop word.length).length < (c :: text).length := by
  have hpos := List.length_pos_of_ne_nil hword
  rw [List.length_drop, List.length_cons]
  omega

theorem countP_split (p : α → Bool) (text : List α) (n : ℕ) :
    text.countP p = (text.take n).countP p + (text.drop n).countP p := by
  rw [← List.countP_append, List.take_append_drop]

variable [DecidableEq α]

def begins : Word α → List α → Bool
  | [], _ => true
  | _ :: _, [] => false
  | symbols :: word, c :: text => decide (c ∈ symbols) && begins word text

/-- The length of the match at the start of the text, 0 for none. -/
def matchLength (pattern : List (Word α)) (text : List α) : ℕ :=
  ((pattern.find? fun word ↦ begins word text).map List.length).getD 0

/-- The first argument counts the symbols of a match that are still left out. -/
def replaceFrom (pattern : List (Word α)) (replacement : List α) : ℕ → List α → List α
  | _, [] => []
  | skip + 1, _ :: text => replaceFrom pattern replacement skip text
  | 0, c :: text =>
    match matchLength pattern (c :: text) with
    | 0 => c :: replaceFrom pattern replacement 0 text
    | skip + 1 => replacement ++ replaceFrom pattern replacement skip text

/-- The text with every match replaced, from the left and without overlaps. -/
def replaceAll (pattern : List (Word α)) (replacement text : List α) : List α := replaceFrom pattern replacement 0 text

def Occurs (word : Word α) (text : List α) : Prop := ∃ t, t <:+ text ∧ begins word t = true

/-- No text that starts as this one is begun by the word. -/
def clash : Word α → List α → Bool
  | symbols :: word, c :: text => !decide (c ∈ symbols) || clash word text
  | _, _ => false

/-- No text is begun by both. -/
def apart : Word α → Word α → Bool
  | symbols :: word, symbols' :: word' => symbols.all (fun c ↦ !decide (c ∈ symbols')) || apart word word'
  | _, _ => false

theorem begins_nil (text : List α) : begins [] text = true := by
  cases text <;> rfl

theorem begins_cons_iff {symbols : List α} {word : Word α} {text : List α} :
    begins (symbols :: word) text = true ↔ ∃ c rest, text = c :: rest ∧ c ∈ symbols ∧ begins word rest = true := by
  cases text with
  | nil => exact iff_of_false Bool.false_ne_true (by rintro ⟨c, rest, h, -⟩; cases h)
  | cons c text =>
    rw [begins, Bool.and_eq_true, decide_eq_true_eq]
    constructor
    · exact fun h ↦ ⟨c, text, rfl, h⟩
    · rintro ⟨c', rest, h, hc⟩
      obtain ⟨rfl, rfl⟩ := List.cons.inj h
      exact hc

theorem begins_append {word word' : Word α} {text : List α} :
    begins (word ++ word') text = true ↔ begins word text = true ∧ begins word' (text.drop word.length) = true := by
  induction word generalizing text with
  | nil => rw [List.nil_append, begins_nil, List.length_nil, List.drop_zero, and_iff_right rfl]
  | cons symbols word ih =>
    rw [List.cons_append, begins_cons_iff, begins_cons_iff]
    constructor
    · rintro ⟨c, rest, rfl, hc, hrest⟩
      obtain ⟨hword, hrest⟩ := ih.mp hrest
      exact ⟨⟨c, rest, rfl, hc, hword⟩, hrest⟩
    · rintro ⟨⟨c, rest, rfl, hc, hword⟩, hrest⟩
      exact ⟨c, rest, rfl, hc, ih.mpr ⟨hword, hrest⟩⟩

theorem begins_drop {word : Word α} {text : List α} (h : begins word text = true) (n : ℕ) :
    begins (word.drop n) (text.drop n) = true := by
  by_cases hn : n ≤ word.length
  · rw [← List.take_append_drop n word, begins_append, List.length_take_of_le hn] at h
    exact h.2
  · rw [List.drop_eq_nil_of_le (Nat.le_of_not_le hn), begins_nil]

theorem length_le_of_begins {word : Word α} {text : List α} (h : begins word text = true) :
    word.length ≤ text.length := by
  induction word generalizing text with
  | nil => exact Nat.zero_le _
  | cons symbols word ih =>
    obtain ⟨c, rest, rfl, -, hrest⟩ := begins_cons_iff.mp h
    exact Nat.succ_le_succ (ih hrest)

theorem not_begins_of_clash {word : Word α} {text : List α} (h : clash word text = true) (rest : List α) :
    begins word (text ++ rest) = false := by
  induction word generalizing text with
  | nil => cases h
  | cons symbols word ih =>
    cases text with
    | nil => cases h
    | cons c text =>
      rw [clash, Bool.or_eq_true, Bool.not_eq_true', decide_eq_false_iff_not] at h
      rw [List.cons_append, begins, Bool.and_eq_false_iff, decide_eq_false_iff_not]
      exact h.imp id ih

theorem not_begins_of_apart {word word' : Word α} {text : List α} (h : apart word word' = true)
    (hword : begins word text = true) : begins word' text = false := by
  induction word generalizing word' text with
  | nil => cases h
  | cons symbols word ih =>
    cases word' with
    | nil => cases h
    | cons symbols' word' =>
      obtain ⟨c, rest, rfl, hc, hrest⟩ := begins_cons_iff.mp hword
      rw [apart, Bool.or_eq_true, List.all_eq_true] at h
      rw [begins, Bool.and_eq_false_iff]
      exact h.imp (fun h ↦ (Bool.not_eq_true' _).mp (h c hc)) fun h ↦ ih h hrest

section
variable {pattern : List (Word α)} {replacement text : List α}

theorem replaceFrom_eq (skip : ℕ) (text : List α) :
    replaceFrom pattern replacement skip text = replaceAll pattern replacement (text.drop skip) := by
  induction text generalizing skip with
  | nil => cases skip <;> rfl
  | cons c text ih =>
    cases skip with
    | zero => rfl
    | succ skip => exact ih skip

/-- The head of a text is copied when nothing matches there. -/
theorem replaceAll_of_none {c : α} (h : ∀ word ∈ pattern, begins word (c :: text) = false) :
    replaceAll pattern replacement (c :: text) = c :: replaceAll pattern replacement text := by
  have hnone : matchLength pattern (c :: text) = 0 := by
    rw [matchLength, List.find?_eq_none.mpr fun word hword ↦ by rw [h word hword]; exact Bool.false_ne_true]
    rfl
  rw [replaceAll, replaceFrom, hnone]
  rfl

/-- Where a word that is not empty matches, one of the pattern is replaced. -/
theorem replaceAll_of_match (hwords : ∀ word ∈ pattern, word ≠ []) (replacement : List α) {word : Word α}
    (hword : word ∈ pattern) (h : begins word text = true) :
    ∃ word ∈ pattern, begins word text = true ∧
      replaceAll pattern replacement text = replacement ++ replaceAll pattern replacement (text.drop word.length) := by
  cases hfind : pattern.find? fun word ↦ begins word text with
  | none => exact absurd h (List.find?_eq_none.mp hfind word hword)
  | some found =>
    have hfound := List.mem_of_find?_eq_some hfind
    have hbegins := List.find?_some hfind
    refine ⟨found, hfound, hbegins, ?_⟩
    obtain ⟨symbols, found', rfl⟩ := List.exists_cons_of_ne_nil (hwords found hfound)
    obtain ⟨c, rest, rfl, -, -⟩ := begins_cons_iff.mp hbegins
    have hlength : matchLength pattern (c :: rest) = found'.length + 1 := by
      rw [matchLength, hfind]
      rfl
    rw [replaceAll, replaceFrom, hlength]
    exact congrArg _ (replaceFrom_eq found'.length rest)

/-- What happens at the head of a text. -/
theorem replaceAll_cons (hwords : ∀ word ∈ pattern, word ≠ []) (replacement : List α) (c : α) (text : List α) :
    (∃ word ∈ pattern, begins word (c :: text) = true ∧ replaceAll pattern replacement (c :: text) =
      replacement ++ replaceAll pattern replacement ((c :: text).drop word.length)) ∨
    (∀ word ∈ pattern, begins word (c :: text) = false) ∧
      replaceAll pattern replacement (c :: text) = c :: replaceAll pattern replacement text := by
  by_cases h : ∃ word ∈ pattern, begins word (c :: text) = true
  · obtain ⟨word, hword, hbegins⟩ := h
    exact .inl (replaceAll_of_match hwords replacement hword hbegins)
  · have hnone : ∀ word ∈ pattern, begins word (c :: text) = false :=
      fun word hword ↦ Bool.eq_false_iff.mpr fun hbegins ↦ h ⟨word, hword, hbegins⟩
    exact .inr ⟨hnone, replaceAll_of_none hnone⟩

/-- A text without a match stays as it is. -/
theorem replaceAll_eq_self (h : ∀ word ∈ pattern, ¬Occurs word text) : replaceAll pattern replacement text = text := by
  induction text with
  | nil => rfl
  | cons c text ih =>
    have hnone : ∀ word ∈ pattern, begins word (c :: text) = false :=
      fun word hword ↦ Bool.eq_false_iff.mpr fun hbegins ↦ h word hword ⟨_, List.suffix_rfl, hbegins⟩
    rw [replaceAll_of_none hnone, ih]
    rintro word hword ⟨t, ht, hbegins⟩
    exact h word hword ⟨t, ht.trans (List.suffix_cons _ _), hbegins⟩

/-- An end of the result starts where a symbol is copied or a match begins, or inside a replacement. -/
theorem suffix_replaceAll (hwords : ∀ word ∈ pattern, word ≠ []) {t : List α}
    (ht : t <:+ replaceAll pattern replacement text) :
    ∃ s, s <:+ text ∧ (t = replaceAll pattern replacement s ∨
      ∃ u, u ≠ [] ∧ u <:+ replacement ∧ t = u ++ replaceAll pattern replacement s) := by
  induction hn : text.length using Nat.strong_induction_on generalizing text with
  | _ n ih =>
    subst hn
    cases text with
    | nil => exact ⟨[], List.suffix_rfl, .inl (List.suffix_nil.mp ht)⟩
    | cons c text =>
      rcases replaceAll_cons hwords replacement c text with ⟨word, hword, -, heq⟩ | ⟨-, heq⟩
      · have hdrop : (c :: text).drop word.length <:+ c :: text := List.drop_suffix _ _
        rw [heq] at ht
        rcases List.suffix_or_suffix_of_suffix ht (List.suffix_append replacement _) with hshort | hlong
        · obtain ⟨s, hs, h⟩ := ih _ (length_drop_lt (hwords word hword) c text) hshort rfl
          exact ⟨s, hs.trans hdrop, h⟩
        · obtain ⟨u, rfl⟩ := hlong
          cases u with
          | nil => exact ⟨_, hdrop, .inl rfl⟩
          | cons d u =>
            exact ⟨_, hdrop, .inr ⟨_, List.cons_ne_nil _ _, ((List.suffix_append_inj_of_length_eq rfl).mp ht).1, rfl⟩⟩
      · rw [heq, List.suffix_cons_iff] at ht
        rcases ht with rfl | ht
        · exact ⟨_, List.suffix_rfl, .inl heq.symm⟩
        · obtain ⟨s, hs, h⟩ := ih _ (Nat.lt_succ_self _) ht rfl
          exact ⟨s, hs.trans (List.suffix_cons _ _), h⟩

/-- What begins the result, and agrees with no replacement anywhere, begins the text. -/
theorem begins_of_replaceAll (hwords : ∀ word ∈ pattern, word ≠ []) {word : Word α}
    (hclash : ∀ w, w <:+ word → w ≠ [] → clash w replacement = true)
    (h : begins word (replaceAll pattern replacement text) = true) : begins word text = true := by
  induction word generalizing text with
  | nil => exact begins_nil text
  | cons symbols word ih =>
    cases text with
    | nil => exact h
    | cons c text =>
      rcases replaceAll_cons hwords replacement c text with ⟨found, -, -, heq⟩ | ⟨-, heq⟩
      · rw [heq, not_begins_of_clash (hclash _ List.suffix_rfl (List.cons_ne_nil _ _))] at h
        cases h
      · rw [heq, begins, Bool.and_eq_true] at h
        rw [begins, Bool.and_eq_true]
        exact h.imp_right (ih fun w hw ↦ hclash w (hw.trans (List.suffix_cons _ _)))

/-- What begins the text, and overlaps no match that starts in it, begins the result. -/
theorem begins_replaceAll (hwords : ∀ word ∈ pattern, word ≠ []) {word : Word α}
    (hapart : ∀ found ∈ pattern, ∀ w, w <:+ word → w ≠ [] → apart w found = true) (h : begins word text = true) :
    begins word (replaceAll pattern replacement text) = true := by
  induction word generalizing text with
  | nil => exact begins_nil _
  | cons symbols word ih =>
    cases text with
    | nil => exact h
    | cons c text =>
      rcases replaceAll_cons hwords replacement c text with ⟨found, hfound, hbegins, -⟩ | ⟨-, heq⟩
      · rw [not_begins_of_apart (hapart found hfound _ List.suffix_rfl (List.cons_ne_nil _ _)) h] at hbegins
        cases hbegins
      · rw [begins, Bool.and_eq_true] at h
        rw [heq, begins, Bool.and_eq_true]
        exact h.imp_right (ih fun found hfound w hw ↦ hapart found hfound w (hw.trans (List.suffix_cons _ _)))

/-- An end of the text that starts in no match is an end of the text on which the replacement starts afresh. -/
theorem replaceAll_suffix (hwords : ∀ word ∈ pattern, word ≠ []) {s : List α}
    (hstart : ∀ found ∈ pattern, ∀ w, w <:+ found → w ≠ [] → w ≠ found → begins w s = false) (hs : s <:+ text) :
    replaceAll pattern replacement s <:+ replaceAll pattern replacement text := by
  induction hn : text.length using Nat.strong_induction_on generalizing text with
  | _ n ih =>
    subst hn
    cases text with
    | nil =>
      rw [List.suffix_nil.mp hs]
    | cons c text =>
      rcases List.suffix_cons_iff.mp hs with rfl | hshort
      · exact List.suffix_rfl
      rcases replaceAll_cons hwords replacement c text with ⟨found, hfound, hbegins, heq⟩ | ⟨-, heq⟩
      · have hdrop : (c :: text).drop found.length <:+ c :: text := List.drop_suffix _ _
        rw [heq]
        refine List.IsSuffix.trans ?_ (List.suffix_append _ _)
        rcases List.suffix_or_suffix_of_suffix hs hdrop with hs | hs
        · exact ih _ (length_drop_lt (hwords found hfound) c text) hs rfl
        · -- otherwise it starts inside the match or where that ends
          obtain ⟨k, hk⟩ : ∃ k, s = (c :: text).drop k := ⟨_, List.suffix_iff_eq_drop.mp (hshort.trans (List.suffix_cons _ _))⟩
          by_cases hend : found.length ≤ k
          · have heq : s = (c :: text).drop found.length := by
              refine hs.eq_of_length_le ?_ |>.symm
              rw [hk, List.length_drop, List.length_drop]
              omega
            rw [heq]
          · have hzero : k ≠ 0 := by
              rintro rfl
              have hlength := hshort.length_le
              rw [hk, List.drop_zero, List.length_cons] at hlength
              omega
            have hw := begins_drop hbegins k
            rw [← hk, hstart found hfound _ (List.drop_suffix k found)] at hw
            · cases hw
            · rw [Ne, List.drop_eq_nil_iff]
              exact hend
            · intro heq
              have hlength := congrArg List.length heq
              rw [List.length_drop] at hlength
              omega
      · rw [heq]
        exact (ih _ (Nat.lt_succ_self _) hshort rfl).trans (List.suffix_cons _ _)

end

/-- The word meets neither a match nor a replacement at its start or its end, nor holds one. -/
structure Independent (pattern : List (Word α)) (replacement : List α) (word : Word α) : Prop where
  copied : ∀ w ∈ word.tails, w ≠ [] → clash w replacement = true
  outside : ∀ u ∈ replacement.tails, u ≠ [] → clash word u = true
  kept : ∀ found ∈ pattern, ∀ w ∈ word.tails, w ≠ [] → apart w found = true
  aligned : ∀ found ∈ pattern, ∀ w ∈ found.tails, w ≠ [] → apart word w = true

instance (pattern : List (Word α)) (replacement : List α) (word : Word α) :
    Decidable (Independent pattern replacement word) :=
  decidable_of_iff
    ((∀ w ∈ word.tails, w ≠ [] → clash w replacement = true) ∧ (∀ u ∈ replacement.tails, u ≠ [] → clash word u = true) ∧
      (∀ found ∈ pattern, ∀ w ∈ word.tails, w ≠ [] → apart w found = true) ∧
        ∀ found ∈ pattern, ∀ w ∈ found.tails, w ≠ [] → apart word w = true)
    ⟨fun h ↦ ⟨h.1, h.2.1, h.2.2.1, h.2.2.2⟩, fun h ↦ ⟨h.copied, h.outside, h.kept, h.aligned⟩⟩

section
variable {pattern : List (Word α)} {replacement text : List α} {word : Word α}

theorem occurs_of_replaceAll (hwords : ∀ word ∈ pattern, word ≠ [])
    (hcopied : ∀ w ∈ word.tails, w ≠ [] → clash w replacement = true)
    (houtside : ∀ u ∈ replacement.tails, u ≠ [] → clash word u = true)
    (h : Occurs word (replaceAll pattern replacement text)) : Occurs word text := by
  obtain ⟨t, ht, hbegins⟩ := h
  obtain ⟨s, hs, rfl | ⟨u, hne, hu, rfl⟩⟩ := suffix_replaceAll hwords ht
  · exact ⟨s, hs, begins_of_replaceAll hwords (fun w hw ↦ hcopied w (List.mem_tails w word |>.mpr hw)) hbegins⟩
  · rw [not_begins_of_clash (houtside u (List.mem_tails u replacement |>.mpr hu) hne)] at hbegins
    cases hbegins

/-- A word that is independent of a replacement occurs after it exactly where it did before. -/
theorem Independent.occurs_iff (hwords : ∀ word ∈ pattern, word ≠ []) (h : Independent pattern replacement word) :
    Occurs word (replaceAll pattern replacement text) ↔ Occurs word text := by
  constructor
  · exact occurs_of_replaceAll hwords h.copied h.outside
  · rintro ⟨s, hs, hbegins⟩
    refine ⟨_, replaceAll_suffix hwords ?_ hs, begins_replaceAll hwords ?_ hbegins⟩
    · intro found hfound w hw hne _
      exact not_begins_of_apart (h.aligned found hfound w (List.mem_tails w found |>.mpr hw) hne) hbegins
    · exact fun found hfound w hw ↦ h.kept found hfound w (List.mem_tails w word |>.mpr hw)

/-- No match is left by a replacement that neither holds a part of one nor completes one. -/
theorem not_occurs_replaceAll (hwords : ∀ word ∈ pattern, word ≠ []) (hword : word ∈ pattern)
    (hcopied : ∀ w ∈ word.tails, w ≠ [] → clash w replacement = true)
    (houtside : ∀ u ∈ replacement.tails, u ≠ [] → clash word u = true) :
    ¬Occurs word (replaceAll pattern replacement text) := by
  rintro ⟨t, ht, hbegins⟩
  obtain ⟨s, hs, rfl | ⟨u, hne, hu, rfl⟩⟩ := suffix_replaceAll hwords ht
  · have hcopied := fun w hw ↦ hcopied w (List.mem_tails w word |>.mpr hw)
    obtain ⟨found, -, -, heq⟩ := replaceAll_of_match hwords replacement hword
      (begins_of_replaceAll hwords hcopied hbegins)
    rw [heq, not_begins_of_clash (hcopied word List.suffix_rfl (hwords word hword))] at hbegins
    cases hbegins
  · rw [not_begins_of_clash (houtside u (List.mem_tails u replacement |>.mpr hu) hne)] at hbegins
    cases hbegins

end

/-- Where one symbol replaces a word: `before`, the symbol and `after` come about from `before`, the word and `after`. -/
structure Widened (found : Word α) (m : α) (before after : Word α) : Prop where
  ne_nil : before ≠ []
  before_copied : ∀ symbols ∈ before, m ∉ symbols
  after_copied : ∀ symbols ∈ after, m ∉ symbols
  before_kept : ∀ w ∈ before.tails, w ≠ [] → apart (w ++ found) found = true
  after_kept : ∀ w ∈ after.tails, w ≠ [] → apart w found = true
  aligned : ∀ w ∈ found.tails, w ≠ [] → w ≠ found → apart (before ++ (found ++ after)) w = true

instance (found : Word α) (m : α) (before after : Word α) : Decidable (Widened found m before after) :=
  decidable_of_iff
    (before ≠ [] ∧ (∀ symbols ∈ before, m ∉ symbols) ∧ (∀ symbols ∈ after, m ∉ symbols) ∧
      (∀ w ∈ before.tails, w ≠ [] → apart (w ++ found) found = true) ∧
        (∀ w ∈ after.tails, w ≠ [] → apart w found = true) ∧
          ∀ w ∈ found.tails, w ≠ [] → w ≠ found → apart (before ++ (found ++ after)) w = true)
    ⟨fun h ↦ ⟨h.1, h.2.1, h.2.2.1, h.2.2.2.1, h.2.2.2.2.1, h.2.2.2.2.2⟩,
      fun h ↦ ⟨h.ne_nil, h.before_copied, h.after_copied, h.before_kept, h.after_kept, h.aligned⟩⟩

section
variable {found before after : Word α} {m : α} {text : List α}

theorem begins_of_replaceAll_one (hfound : found ≠ []) (hbefore : ∀ symbols ∈ before, m ∉ symbols)
    (hafter : ∀ symbols ∈ after, m ∉ symbols)
    (h : begins (before ++ [m] :: after) (replaceAll [found] [m] text) = true) :
    begins (before ++ (found ++ after)) text = true ∨ begins (before ++ [m] :: after) text = true := by
  have hwords : ∀ word ∈ [found], word ≠ [] := List.forall_mem_singleton.mpr hfound
  have hcopied : ∀ w, w <:+ after → w ≠ [] → clash w [m] = true := by
    intro w hw hne
    obtain ⟨symbols, w, rfl⟩ := List.exists_cons_of_ne_nil hne
    rw [clash, Bool.or_eq_true, Bool.not_eq_true', decide_eq_false_iff_not]
    exact .inl (hafter symbols (hw.subset (.head _)))
  induction before generalizing text with
  | nil =>
    cases text with
    | nil => exact .inr h
    | cons c text =>
      rcases replaceAll_cons hwords [m] c text with ⟨w, hw, hbegins, heq⟩ | ⟨-, heq⟩
      · obtain rfl := List.mem_singleton.mp hw
        rw [heq, List.nil_append, List.singleton_append, begins, Bool.and_eq_true] at h
        refine .inl ?_
        rw [List.nil_append]
        exact begins_append.mpr ⟨hbegins, begins_of_replaceAll hwords hcopied h.2⟩
      · rw [heq, List.nil_append, begins, Bool.and_eq_true] at h
        rw [List.nil_append, List.nil_append, begins, Bool.and_eq_true]
        exact .inr (h.imp_right (begins_of_replaceAll hwords hcopied))
  | cons symbols before ih =>
    obtain ⟨hm, hbefore⟩ := List.forall_mem_cons.mp hbefore
    cases text with
    | nil => exact .inr h
    | cons c text =>
      rcases replaceAll_cons hwords [m] c text with ⟨w, -, -, heq⟩ | ⟨-, heq⟩
      · rw [heq, List.cons_append, List.singleton_append, begins, Bool.and_eq_true, decide_eq_true_eq] at h
        exact absurd h.1 hm
      · rw [heq, List.cons_append, begins, Bool.and_eq_true] at h
        rw [List.cons_append, List.cons_append, begins, begins, Bool.and_eq_true, Bool.and_eq_true]
        exact (ih hbefore h.2).imp (fun hrest ↦ ⟨h.1, hrest⟩) fun hrest ↦ ⟨h.1, hrest⟩

theorem begins_replaceAll_one (hfound : found ≠ []) (hbefore : ∀ w, w <:+ before → w ≠ [] → apart (w ++ found) found = true)
    (hafter : ∀ w, w <:+ after → w ≠ [] → apart w found = true)
    (h : begins (before ++ (found ++ after)) text = true) :
    begins (before ++ [m] :: after) (replaceAll [found] [m] text) = true := by
  have hwords : ∀ word ∈ [found], word ≠ [] := List.forall_mem_singleton.mpr hfound
  induction before generalizing text with
  | nil =>
    rw [List.nil_append] at h
    obtain ⟨hbegins, hrest⟩ := begins_append.mp h
    obtain ⟨w, hw, -, heq⟩ := replaceAll_of_match hwords [m] (.head _) hbegins
    obtain rfl := List.mem_singleton.mp hw
    rw [heq, List.nil_append, List.singleton_append, begins, Bool.and_eq_true]
    exact ⟨decide_eq_true (.head _), begins_replaceAll hwords (List.forall_mem_singleton.mpr hafter) hrest⟩
  | cons symbols before ih =>
    cases text with
    | nil => cases h
    | cons c text =>
      have hnone : begins found (c :: text) = false := by
        refine not_begins_of_apart (hbefore _ List.suffix_rfl (List.cons_ne_nil _ _)) ?_
        rw [← List.append_assoc] at h
        exact (begins_append.mp h).1
      rw [replaceAll_of_none (List.forall_mem_singleton.mpr hnone)]
      rw [List.cons_append, begins, Bool.and_eq_true] at h ⊢
      exact h.imp_right (ih fun w hw ↦ hbefore w (hw.trans (List.suffix_cons _ _)))

/-- Unless the symbol stands there already, the result has it where the text has the word. -/
theorem Widened.occurs_iff (h : Widened found m before after) (hfound : found ≠ [])
    (hnew : ∀ s, s <:+ text → begins (before ++ [m] :: after) s = true →
      begins (before ++ [m] :: after) (replaceAll [found] [m] s) = false) :
    Occurs (before ++ [m] :: after) (replaceAll [found] [m] text) ↔ Occurs (before ++ (found ++ after)) text := by
  have hwords : ∀ word ∈ [found], word ≠ [] := List.forall_mem_singleton.mpr hfound
  constructor
  · rintro ⟨t, ht, hbegins⟩
    obtain ⟨s, hs, rfl | ⟨u, hne, hu, rfl⟩⟩ := suffix_replaceAll hwords ht
    · refine ⟨s, hs, (begins_of_replaceAll_one hfound h.before_copied h.after_copied hbegins).resolve_right fun hold ↦ ?_⟩
      rw [hnew s hs hold] at hbegins
      cases hbegins
    · obtain ⟨symbols, before, rfl⟩ := List.exists_cons_of_ne_nil h.ne_nil
      obtain rfl : u = [m] := hu.eq_of_length_le (List.length_pos_of_ne_nil hne)
      rw [List.cons_append, List.singleton_append, begins, Bool.and_eq_true, decide_eq_true_eq] at hbegins
      exact absurd hbegins.1 (h.before_copied symbols (.head _))
  · rintro ⟨s, hs, hbegins⟩
    refine ⟨_, replaceAll_suffix hwords (List.forall_mem_singleton.mpr fun w hw hne hproper ↦ ?_) hs,
      begins_replaceAll_one hfound ?_ ?_ hbegins⟩
    · exact not_begins_of_apart (h.aligned w (List.mem_tails w found |>.mpr hw) hne hproper) hbegins
    · exact fun w hw ↦ h.before_kept w (List.mem_tails w before |>.mpr hw)
    · exact fun w hw ↦ h.after_kept w (List.mem_tails w after |>.mpr hw)

end

section
variable {pattern : List (Word α)} {replacement : List α} (p : α → Bool)

theorem countP_le_of_begins {word : Word α} {text : List α} (h : begins word text = true) :
    word.countP (fun symbols ↦ symbols.all p) ≤ (text.take word.length).countP p := by
  induction word generalizing text with
  | nil => exact Nat.zero_le _
  | cons symbols word ih =>
    obtain ⟨c, rest, rfl, hc, hrest⟩ := begins_cons_iff.mp h
    have hle := ih hrest
    rw [List.length_cons, List.take_succ_cons, List.countP_cons, List.countP_cons]
    refine Nat.add_le_add hle ?_
    split
    next hall => rw [if_pos (List.all_eq_true.mp hall c hc)]
    next => exact Nat.zero_le _

/-- A replacement that has no more of some symbols than what it replaces adds none of them. -/
theorem countP_replaceAll_le (hwords : ∀ word ∈ pattern, word ≠ [])
    (hle : ∀ word ∈ pattern, replacement.countP p ≤ word.countP fun symbols ↦ symbols.all p) (text : List α) :
    (replaceAll pattern replacement text).countP p ≤ text.countP p := by
  induction hn : text.length using Nat.strong_induction_on generalizing text with
  | _ n ih =>
    subst hn
    cases text with
    | nil => exact le_rfl
    | cons c text =>
      rcases replaceAll_cons hwords replacement c text with ⟨word, hword, hbegins, heq⟩ | ⟨-, heq⟩
      · rw [heq, List.countP_append, countP_split p (c :: text) word.length]
        exact Nat.add_le_add ((hle word hword).trans (countP_le_of_begins p hbegins))
          (ih _ (length_drop_lt (hwords word hword) c text) _ rfl)
      · rw [heq, List.countP_cons, List.countP_cons]
        exact Nat.add_le_add_right (ih _ (Nat.lt_succ_self _) text rfl) _

theorem countP_replaceAll_lt (hwords : ∀ word ∈ pattern, word ≠ [])
    (hlt : ∀ word ∈ pattern, replacement.countP p < word.countP fun symbols ↦ symbols.all p) {text : List α}
    (hoccurs : ∃ word ∈ pattern, Occurs word text) :
    (replaceAll pattern replacement text).countP p < text.countP p := by
  have hle := countP_replaceAll_le p hwords fun word hword ↦ (hlt word hword).le
  induction text with
  | nil =>
    obtain ⟨word, hword, t, ht, hbegins⟩ := hoccurs
    obtain rfl := List.suffix_nil.mp ht
    exact absurd (List.eq_nil_of_length_eq_zero (Nat.le_zero.mp (length_le_of_begins hbegins))) (hwords word hword)
  | cons c text ih =>
    rcases replaceAll_cons hwords replacement c text with ⟨word, hword, hbegins, heq⟩ | ⟨hnone, heq⟩
    · rw [heq, List.countP_append, countP_split p (c :: text) word.length]
      exact Nat.add_lt_add_of_lt_of_le ((hlt word hword).trans_le (countP_le_of_begins p hbegins)) (hle _)
    · rw [heq, List.countP_cons, List.countP_cons]
      refine Nat.add_lt_add_right (ih ?_) _
      obtain ⟨word, hword, t, ht, hbegins⟩ := hoccurs
      rcases List.suffix_cons_iff.mp ht with rfl | ht
      · rw [hnone word hword] at hbegins
        cases hbegins
      · exact ⟨word, hword, t, ht, hbegins⟩

end

section
variable {word : Word α} {a b : List α}

theorem begins_append_text (h : begins word a = true) (b : List α) : begins word (a ++ b) = true := by
  induction word generalizing a with
  | nil => exact begins_nil _
  | cons symbols word ih =>
    obtain ⟨c, rest, rfl, hc, hrest⟩ := begins_cons_iff.mp h
    exact begins_cons_iff.mpr ⟨c, rest ++ b, rfl, hc, ih hrest⟩

theorem begins_of_append (h : begins word (a ++ b) = true) (hlength : word.length ≤ a.length) :
    begins word a = true := by
  induction word generalizing a with
  | nil => exact begins_nil _
  | cons symbols word ih =>
    cases a with
    | nil => exact absurd hlength (Nat.not_succ_le_zero _)
    | cons c a =>
      rw [List.cons_append, begins, Bool.and_eq_true] at h
      rw [begins, Bool.and_eq_true]
      exact h.imp_right fun h ↦ ih h (Nat.le_of_succ_le_succ hlength)

theorem occurs_cons {c : α} {text : List α} :
    Occurs word (c :: text) ↔ begins word (c :: text) = true ∨ Occurs word text := by
  constructor
  · rintro ⟨t, ht, hbegins⟩
    rcases List.suffix_cons_iff.mp ht with rfl | ht
    · exact .inl hbegins
    · exact .inr ⟨t, ht, hbegins⟩
  · rintro (hbegins | ⟨t, ht, hbegins⟩)
    · exact ⟨_, List.suffix_rfl, hbegins⟩
    · exact ⟨t, ht.trans (List.suffix_cons _ _), hbegins⟩

theorem Occurs.append_left (h : Occurs word a) (b : List α) : Occurs word (a ++ b) := by
  obtain ⟨s, ⟨front, rfl⟩, hbegins⟩ := h
  exact ⟨s ++ b, ⟨front, (List.append_assoc _ _ _).symm⟩, begins_append_text hbegins b⟩

theorem Occurs.append_right (h : Occurs word b) (a : List α) : Occurs word (a ++ b) := by
  obtain ⟨s, hs, hbegins⟩ := h
  exact ⟨s, hs.trans (List.suffix_append _ _), hbegins⟩

/-- Nothing starts among symbols that the word does not start with. -/
theorem occurs_append_left (h : ∀ c ∈ a, clash word [c] = true) : Occurs word (a ++ b) ↔ Occurs word b := by
  induction a with
  | nil => rfl
  | cons c a ih =>
    obtain ⟨hc, ha⟩ := List.forall_mem_cons.mp h
    have hnot := not_begins_of_clash hc (a ++ b)
    rw [List.singleton_append] at hnot
    rw [List.cons_append, occurs_cons, hnot, ih ha]
    exact or_iff_right Bool.false_ne_true

/-- An occurrence in a joined text is in one of the parts or meets both. -/
theorem Occurs.of_append (h : Occurs word (a ++ b)) : Occurs word a ∨ Occurs word b ∨
    ∃ front, front <:+ a ∧ front ≠ [] ∧ front.length < word.length ∧ begins (word.take front.length) front = true ∧
      begins (word.drop front.length) b = true := by
  obtain ⟨s, hs, hbegins⟩ := h
  rcases List.suffix_or_suffix_of_suffix hs (List.suffix_append a b) with hs | ⟨front, rfl⟩
  · exact .inr (.inl ⟨s, hs, hbegins⟩)
  have hfront : front <:+ a := ((List.suffix_append_inj_of_length_eq rfl).mp hs).1
  by_cases hlength : word.length ≤ front.length
  · exact .inl ⟨front, hfront, begins_of_append hbegins hlength⟩
  by_cases hnil : front = []
  · rw [hnil] at hbegins
    exact .inr (.inl ⟨b, List.suffix_rfl, hbegins⟩)
  have hlt := Nat.lt_of_not_le hlength
  have htake : (word.take front.length).length = front.length := List.length_take_of_le hlt.le
  rw [← List.take_append_drop front.length word, begins_append, htake, List.drop_left] at hbegins
  exact .inr (.inr ⟨front, hfront, hnil, hlt, begins_of_append hbegins.1 htake.le, hbegins.2⟩)

end

section
variable {α : Type} (matchAt : Option α → List α → ℕ)

/-- The matches of a pattern, from the left and without overlaps. The pattern sees the symbol before a place and the text
from there on, and tells the length of its match, 0 for none. -/
def matchesFrom : Option α → ℕ → List α → List (List α)
  | _, _, [] => []
  | _, skip + 1, c :: text => matchesFrom (some c) skip text
  | before, 0, c :: text =>
    match matchAt before (c :: text) with
    | 0 => matchesFrom (some c) 0 text
    | skip + 1 => (c :: text).take (skip + 1) :: matchesFrom (some c) skip text

def allMatches (text : List α) : List (List α) := matchesFrom matchAt none 0 text

/-- A match stays within the text, and no other one begins inside it. -/
structure Separated : Prop where
  length_le : ∀ before text, matchAt before text ≤ text.length
  inside : ∀ before a b, a ≠ [] → a.length < matchAt before (a ++ b) → matchAt a.getLast? b = 0

variable {matchAt} {m text : List α} {before : Option α} {skip : ℕ}

theorem getLast?_cons_or (c : α) (a : List α) : (c :: a).getLast?.or before = a.getLast?.or (some c) := by
  cases a with
  | nil => rfl
  | cons d a => rw [List.getLast?_cons_cons, List.getLast?_cons, Option.some_or, Option.some_or]

/-- A match of a text begins with it, or later. -/
theorem exists_match_cons {c : α} :
    (∃ a b, c :: text = a ++ m ++ b ∧ matchAt (a.getLast?.or before) (m ++ b) = m.length) ↔
      (∃ b, c :: text = m ++ b ∧ matchAt before (m ++ b) = m.length) ∨
        ∃ a b, text = a ++ m ++ b ∧ matchAt (a.getLast?.or (some c)) (m ++ b) = m.length := by
  constructor
  · rintro ⟨a, b, htext, hm⟩
    cases a with
    | nil => exact .inl ⟨b, htext, hm⟩
    | cons d a =>
      obtain ⟨rfl, rfl⟩ := List.cons.inj htext
      exact .inr ⟨a, b, rfl, getLast?_cons_or c a ▸ hm⟩
  · rintro (⟨b, htext, hm⟩ | ⟨a, b, rfl, hm⟩)
    · exact ⟨[], b, htext, hm⟩
    · exact ⟨c :: a, b, rfl, (getLast?_cons_or c a).symm ▸ hm⟩

theorem mem_matchesFrom (h : Separated matchAt)
    (hskip : ∀ a b, text = a ++ b → a.length < skip → matchAt (a.getLast?.or before) b = 0) :
    m ∈ matchesFrom matchAt before skip text ↔
      m ≠ [] ∧ ∃ a b, text = a ++ m ++ b ∧ matchAt (a.getLast?.or before) (m ++ b) = m.length := by
  induction text generalizing before skip with
  | nil =>
    refine iff_of_false List.not_mem_nil ?_
    rintro ⟨hne, a, b, htext, -⟩
    simp [hne] at htext
  | cons c text ih =>
    rw [exists_match_cons, and_or_left]
    have hnone : matchAt before (c :: text) = 0 → ¬(m ≠ [] ∧ ∃ b, c :: text = m ++ b ∧ matchAt before (m ++ b) = m.length) := by
      rintro hzero ⟨hne, b, htext, hm⟩
      rw [← htext, hzero] at hm
      exact hne (List.length_eq_zero_iff.mp hm.symm)
    cases skip with
    | succ skip =>
      have hzero : matchAt before (c :: text) = 0 := hskip [] (c :: text) rfl (Nat.succ_pos skip)
      rw [matchesFrom, ih, or_iff_right (hnone hzero)]
      intro a b htext hlt
      rw [← getLast?_cons_or c a]
      exact hskip (c :: a) b (congrArg (c :: ·) htext) (Nat.succ_lt_succ hlt)
    | zero =>
      rw [matchesFrom]
      split
      next hzero =>
        rw [ih, or_iff_right (hnone hzero)]
        exact fun _ _ _ hlt ↦ absurd hlt (Nat.not_lt_zero _)
      next n hlength =>
        have hle : n + 1 ≤ (c :: text).length := hlength.symm.trans_le (h.length_le before (c :: text))
        rw [List.mem_cons, ih]
        · refine or_congr_left ⟨?_, ?_⟩
          · rintro rfl
            refine ⟨List.cons_ne_nil _ _, (c :: text).drop (n + 1), (List.take_append_drop _ _).symm, ?_⟩
            rw [List.take_append_drop, hlength, List.length_take, Nat.min_eq_left hle]
          · rintro ⟨-, b, htext, hm⟩
            rw [← htext, hlength] at hm
            rw [htext, show n + 1 = m.length from hm, List.take_left]
        · intro a b htext hlt
          have hinside := h.inside before (c :: a) b (List.cons_ne_nil c a)
          rw [List.cons_append, ← htext, hlength] at hinside
          have hzero := hinside (Nat.succ_lt_succ hlt)
          cases a with
          | nil => exact hzero
          | cons d a =>
            rw [List.getLast?_cons_cons] at hzero
            rw [List.getLast?_cons, Option.some_or]
            rwa [List.getLast?_cons] at hzero

/-- Of a pattern with separated matches every match is found. -/
theorem mem_allMatches (h : Separated matchAt) : m ∈ allMatches matchAt text ↔
    m ≠ [] ∧ ∃ a b, text = a ++ m ++ b ∧ matchAt a.getLast? (m ++ b) = m.length := by
  rw [allMatches, mem_matchesFrom h fun _ _ _ hlt ↦ absurd hlt (Nat.not_lt_zero _)]
  simp only [Option.or_none]

end

end Briefr.Library.Substitution
