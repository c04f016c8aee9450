import Briefr.Db.PgRewrites

namespace Briefr.Db.PgAdapt

open Briefr.Library Briefr.Library.Rewriting Briefr.Library.SqlText Briefr.Python

/-- What becomes of a character. -/
inductive Kind
  | copy
  | mark
  | name
  | drop
  deriving DecidableEq

section
variable [Alnums]

def Place.kind : Place → Char → Text → Kind
  | .skip _, _, _ => .drop
  | .plain, _, _ => .copy
  | .quoted _ _, _, _ => .copy
  | .outside, c, text =>
    if c = '?' then .mark
    else if c = ':' ∧ text.head? ≠ some ':' ∧ text.takeWhile isWord ≠ [] then .name
    else .copy

def Place.next (ends : Char → Bool) : Place → Char → Text → Place
  | .skip 0, _, _ => .outside
  | .skip (rest + 1), _, _ => .skip rest
  | .plain, _, _ => .outside
  | .quoted quote before, c, _ => if c = quote ∧ ends before then .outside else .quoted quote c
  | .outside, c, text =>
    if c = '\'' ∨ c = '"' then .quoted c c
    else if c = ':' ∧ text.head? = some ':' then .plain
    else if c = ':' ∧ text.takeWhile isWord ≠ [] then .skip ((text.takeWhile isWord).length - 1)
    else .outside

/-- Both scanners at once: the names and the question marks numbered in turn, and the rest as it is. -/
def fill (ends : Char → Bool) : Place → ℕ → ℕ → Text → Text
  | _, _, _, [] => []
  | place, n, m, c :: text =>
    match place.kind c text with
    | .copy => c :: fill ends (place.next ends c text) n m text
    | .mark => placeholder m ++ fill ends (place.next ends c text) n (m + 1) text
    | .name => placeholder n ++ fill ends (place.next ends c text) (n + 1) m text
    | .drop => fill ends (place.next ends c text) n m text

/-- The names that are left out. -/
def namesFrom (ends : Char → Bool) : Place → Text → List Text
  | _, [] => []
  | place, c :: text =>
    match place.kind c text with
    | .name => text.takeWhile isWord :: namesFrom ends (place.next ends c text) text
    | _ => namesFrom ends (place.next ends c text) text

/-- SQL's rule: nothing in front of a quote makes it another character. -/
def always : Char → Bool := fun _ ↦ true

def filled (text : Text) : Text := fill always .outside 1 1 text

def names (text : Text) : List Text := namesFrom always .outside text

/-- The two rules for the end of quotes leave, translate and take for names the same characters. -/
def InStep : Place → Place → Text → Prop
  | _, _, [] => True
  | place, place', c :: text =>
    place.kind c text = place'.kind c text ∧ InStep (place.next endsBehind c text) (place'.next always c text) text

end

def Place.quotes : Place → Option (Char × Char)
  | .quoted quote before => some (quote, before)
  | _ => none

def Place.skips : Place → Option ℕ
  | .skip rest => some rest
  | _ => none

theorem scanMarks_copy (ends : Char → Bool) {c : Char} (hmark : c ≠ '?') (hquote : isQuiet c = true) (m : ℕ)
    (text : Text) : scanMarks ends none m (c :: text) = c :: scanMarks ends none m text := by
  rw [isQuiet, Bool.and_eq_true, bne_iff_ne, bne_iff_ne] at hquote
  rw [scanMarks, if_neg hmark, if_neg (not_or.mpr hquote)]

theorem isDigit_quiet {c : Char} (h : c.isDigit = true) : isQuiet c = true ∧ c ≠ '?' ∧ c ≠ '$' := by
  have hnot : ∀ d : Char, d.isDigit = false → c ≠ d := by
    rintro d hd rfl
    rw [hd] at h
    cases h
  rw [isQuiet, Bool.and_eq_true, bne_iff_ne, bne_iff_ne]
  exact ⟨⟨hnot _ (by decide), hnot _ (by decide)⟩, hnot _ (by decide), hnot _ (by decide)⟩

theorem isDigit_of_mem {n : ℕ} {c : Char} (h : c ∈ Nat.toDigits 10 n) : c.isDigit = true :=
  Nat.isDigit_of_mem_toDigits (by decide) (by decide) h

theorem placeholder_quiet (n : ℕ) : ∀ c ∈ placeholder n, isQuiet c = true ∧ c ≠ '?' := by
  intro c hc
  rcases List.mem_cons.mp hc with rfl | hc
  · decide
  · exact ⟨(isDigit_quiet (isDigit_of_mem hc)).1, (isDigit_quiet (isDigit_of_mem hc)).2.1⟩

theorem scanMarks_quiet (ends : Char → Bool) {part : Text} (h : ∀ c ∈ part, isQuiet c = true ∧ c ≠ '?') (m : ℕ)
    (text : Text) : scanMarks ends none m (part ++ text) = part ++ scanMarks ends none m text := by
  induction part with
  | nil => rfl
  | cons c part ih =>
    obtain ⟨⟨hquiet, hmark⟩, hpart⟩ := List.forall_mem_cons.mp h
    rw [List.cons_append, scanMarks_copy ends hmark hquiet, ih hpart, List.cons_append]

section
variable [Alnums] (ends : Char → Bool)

theorem kind_outside_mark {c : Char} {text : Text} : Place.outside.kind c text = .mark ↔ c = '?' := by
  rw [Place.kind]
  split_ifs with hmark hname
  · exact iff_of_true rfl hmark
  · exact iff_of_false (fun h ↦ by cases h) hmark
  · exact iff_of_false (fun h ↦ by cases h) hmark

theorem of_kind_outside_name {c : Char} {text : Text} (h : Place.outside.kind c text = .name) :
    c = ':' ∧ text.head? ≠ some ':' ∧ text.takeWhile isWord ≠ [] := by
  rw [Place.kind] at h
  split_ifs at h with hmark hname
  exact hname

theorem kind_eq_drop {place : Place} {c : Char} {text : Text} :
    place.kind c text = .drop ↔ ∃ rest, place = .skip rest := by
  cases place with
  | skip rest => exact iff_of_true rfl ⟨rest, rfl⟩
  | plain | quoted quote before => exact iff_of_false (fun h ↦ by cases h) (by rintro ⟨_, h⟩; cases h)
  | outside =>
    refine iff_of_false (fun h ↦ ?_) (by rintro ⟨_, h⟩; cases h)
    rw [Place.kind] at h
    split_ifs at h

theorem next_outside {c : Char} {text : Text} (hquiet : isQuiet c = true) (hcolon : c ≠ ':') :
    Place.outside.next ends c text = .outside := by
  rw [isQuiet, Bool.and_eq_true, bne_iff_ne, bne_iff_ne] at hquiet
  rw [Place.next, if_neg (not_or.mpr hquiet), if_neg fun h ↦ hcolon h.1, if_neg fun h ↦ hcolon h.1]

theorem next_name {c : Char} {text : Text} (h : Place.outside.kind c text = .name) :
    Place.outside.next ends c text = .skip ((text.takeWhile isWord).length - 1) := by
  obtain ⟨rfl, hcast, hname⟩ := of_kind_outside_name h
  rw [Place.next, if_neg (by decide), if_neg fun h ↦ hcast h.2, if_pos ⟨rfl, hname⟩]

/-- The step of the scanner for names. -/
theorem scanColons_cons (place : Place) (n : ℕ) (c : Char) (text : Text) :
    scanColons ends place n (c :: text) =
      match place.kind c text with
      | .drop => scanColons ends (place.next ends c text) n text
      | .name => (scanColons ends (place.next ends c text) (n + 1) text).map (placeholder n ++ ·)
          (text.takeWhile isWord :: ·)
      | _ => (scanColons ends (place.next ends c text) n text).map (c :: ·) id := by
  cases place with
  | skip rest => cases rest <;> rfl
  | plain => rfl
  | quoted quote before => rfl
  | outside =>
    rw [scanColons, Place.kind, Place.next]
    by_cases hquote : c = '\'' ∨ c = '"'
    · have hmark : c ≠ '?' := by rcases hquote with rfl | rfl <;> decide
      have hcolon : c ≠ ':' := by rcases hquote with rfl | rfl <;> decide
      rw [if_pos hquote, if_pos hquote, if_neg hmark, if_neg fun h ↦ hcolon h.1]
    · rw [if_neg hquote, if_neg hquote]
      by_cases hcast : c = ':' ∧ text.head? = some ':'
      · have hmark : c ≠ '?' := by
          rw [hcast.1]
          decide
        rw [if_pos hcast, if_pos hcast, if_neg hmark, if_neg fun h ↦ h.2.1 hcast.2]
      · rw [if_neg hcast, if_neg hcast]
        by_cases hname : c = ':' ∧ text.takeWhile isWord ≠ []
        · have hmark : c ≠ '?' := by
            rw [hname.1]
            decide
          rw [if_pos hname, if_pos hname, if_neg hmark, if_pos ⟨hname.1, fun h ↦ hcast ⟨hname.1, h⟩, hname.2⟩]
        · rw [if_neg hname, if_neg hname, if_neg (c := c = ':' ∧ _) fun h ↦ hname ⟨h.1, h.2.2⟩]
          by_cases hmark : c = '?'
          · rw [if_pos hmark]
          · rw [if_neg hmark]

theorem scanColons_names (place : Place) (n : ℕ) (text : Text) :
    (scanColons ends place n text).2 = namesFrom ends place text := by
  induction text generalizing place n with
  | nil => cases place <;> rfl
  | cons c text ih =>
    rw [scanColons_cons, namesFrom]
    cases place.kind c text with
    | name => exact congrArg (text.takeWhile isWord :: ·) (ih _ _)
    | copy | mark | drop => exact ih _ _

/-- What stands behind a place that was reached. -/
def Sane : Place → Text → Prop
  | .outside, _ => True
  | .plain, text => text.head? = some ':'
  | .skip rest, text => ∀ c ∈ text.take (rest + 1), isWord c = true
  | .quoted quote _, _ => quote = '\'' ∨ quote = '"'

theorem sane_next {place : Place} {c : Char} {text : Text} (h : Sane place (c :: text)) :
    Sane (place.next ends c text) text := by
  cases place with
  | skip rest =>
    cases rest with
    | zero => exact trivial
    | succ rest => exact fun d hd ↦ h d (List.mem_cons_of_mem c hd)
  | plain => exact trivial
  | quoted quote before =>
    rw [Place.next]
    split_ifs
    · exact trivial
    · exact h
  | outside =>
    rw [Place.next]
    split_ifs with hquote hcast hname
    · exact hquote
    · exact hcast.2
    · intro d hd
      have hpos := List.length_pos_of_ne_nil hname.2
      rw [Nat.sub_add_cancel hpos] at hd
      have hprefix := List.prefix_iff_eq_take.mp (List.takeWhile_prefix isWord (l := text))
      rw [← hprefix] at hd
      exact List.mem_takeWhile_imp hd
    · exact trivial

/-- A character that is left out is no quote or question mark. -/
theorem skip_quiet {rest : ℕ} {c : Char} {text : Text} (h : Sane (.skip rest) (c :: text)) :
    isQuiet c = true ∧ c ≠ '?' := isWord_quiet (h c List.mem_cons_self)

/-- The scanner for question marks behind the one for names. -/
theorem scanMarks_scanColons {place : Place} {text : Text} (h : Sane place text) (n m : ℕ) :
    scanMarks ends place.quotes m (scanColons ends place n text).1 = fill ends place n m text := by
  induction text generalizing place n m with
  | nil => cases place <;> rfl
  | cons c text ih =>
    have hnext := ih (sane_next ends h)
    rw [scanColons_cons, fill]
    cases place with
    | skip rest => cases rest <;> exact hnext n m
    | plain =>
      obtain rfl := Option.some.inj h
      exact congrArg (':' :: ·) (hnext n m)
    | quoted quote before =>
      rw [← hnext n m]
      change c :: scanMarks ends (if c = quote ∧ ends before then none else some (quote, c)) m _ = c :: _
      rw [Place.next]
      split_ifs <;> rfl
    | outside =>
      cases hkind : Place.outside.kind c text with
      | drop =>
        obtain ⟨rest, hplace⟩ := kind_eq_drop.mp hkind
        cases hplace
      | mark =>
        obtain rfl := kind_outside_mark.mp hkind
        have heq := hnext n (m + 1)
        rw [next_outside ends (by decide) (by decide)] at heq ⊢
        rw [← heq]
        rfl
      | name =>
        have heq := hnext (n + 1) m
        rw [next_name ends hkind] at heq ⊢
        rw [← heq]
        exact scanMarks_quiet ends (placeholder_quiet n) m _
      | copy =>
        have hmark : c ≠ '?' := fun h ↦ by rw [kind_outside_mark.mpr h] at hkind; cases hkind
        have heq := hnext n m
        rw [← heq]
        change scanMarks ends none m (c :: _) = c :: _
        rw [scanMarks, if_neg hmark]
        rw [Place.next]
        by_cases hquote : c = '\'' ∨ c = '"'
        · rw [if_pos hquote, if_pos hquote]
          rfl
        · rw [if_neg hquote, if_neg hquote]
          split_ifs <;> rfl

theorem namesFrom_of_colon_not_mem {place : Place} {text : Text} (h : ':' ∉ text) : namesFrom ends place text = [] := by
  induction text generalizing place with
  | nil => rfl
  | cons c text ih =>
    obtain ⟨hc, htext⟩ := not_or.mp (List.mem_cons.not.mp h)
    rw [namesFrom]
    cases hkind : place.kind c text with
    | copy | mark | drop => exact ih htext
    | name =>
      cases place with
      | outside => exact absurd (of_kind_outside_name hkind).1.symm hc
      | skip _ | plain | quoted _ _ => cases hkind

/-- Without colons the text is left as it is. -/
theorem scanColons_of_colon_not_mem {place : Place} {text : Text} (hplace : place.skips = none) (h : ':' ∉ text) (n : ℕ) :
    (scanColons ends place n text).1 = text := by
  induction text generalizing place with
  | nil => cases place <;> rfl
  | cons c text ih =>
    obtain ⟨hc, htext⟩ := not_or.mp (List.mem_cons.not.mp h)
    rw [scanColons_cons]
    have hcolon : ∀ {P : Prop}, ¬(c = ':' ∧ P) := fun hP ↦ hc hP.1.symm
    have hnext : (place.next ends c text).skips = none := by
      cases place with
      | skip rest => cases hplace
      | plain => rfl
      | quoted quote before => rw [Place.next]; split_ifs <;> rfl
      | outside => rw [Place.next, if_neg hcolon, if_neg hcolon]; split_ifs <;> rfl
    cases hkind : place.kind c text with
    | copy | mark => exact congrArg (c :: ·) (ih hnext htext)
    | drop =>
      obtain ⟨rest, rfl⟩ := kind_eq_drop.mp hkind
      cases hplace
    | name =>
      cases place with
      | outside => exact absurd (of_kind_outside_name hkind).1.symm hc
      | skip _ | plain | quoted _ _ => cases hkind

omit [Alnums] in
theorem scanMarks_of_mark_not_mem {quotes : Option (Char × Char)} {text : Text} (h : '?' ∉ text) (m : ℕ) :
    scanMarks ends quotes m text = text := by
  induction text generalizing quotes with
  | nil => cases quotes <;> rfl
  | cons c text ih =>
    obtain ⟨hc, htext⟩ := not_or.mp (List.mem_cons.not.mp h)
    cases quotes with
    | some quotes => exact congrArg (c :: ·) (ih htext)
    | none =>
      rw [scanMarks, if_neg fun h ↦ hc h.symm, ih htext, ih htext, ite_self]

/-- The scanners leave the text without what they look for as they would without looking. -/
theorem colonToDollar_names (text : Text) : (colonToDollar text).2 = namesFrom endsBehind .outside text := by
  rw [colonToDollar]
  split_ifs with h
  · exact scanColons_names endsBehind .outside 1 text
  · exact (namesFrom_of_colon_not_mem endsBehind h).symm

theorem qmarkToDollar_colonToDollar (text : Text) :
    qmarkToDollar (colonToDollar text).1 = fill endsBehind .outside 1 1 text := by
  have hcolons : (colonToDollar text).1 = (scanColons endsBehind .outside 1 text).1 := by
    rw [colonToDollar]
    split_ifs with h
    · rfl
    · exact (scanColons_of_colon_not_mem endsBehind rfl h 1).symm
  have hfill := scanMarks_scanColons endsBehind (show Sane .outside text from trivial) 1 1
  rw [hcolons, qmarkToDollar, ← hfill]
  split_ifs with h
  · rfl
  · exact (scanMarks_of_mark_not_mem endsBehind h 1).symm

end

section
variable [Alnums]

theorem skips_next {place place' : Place} {c : Char} {text : Text} {ends ends' : Char → Bool}
    (h : place.skips = place'.skips) (hkind : place.kind c text = place'.kind c text) :
    (place.next ends c text).skips = (place'.next ends' c text).skips := by
  have hcopy : ∀ {place : Place} {ends : Char → Bool}, place.skips = none → place.kind c text ≠ .name →
      (place.next ends c text).skips = none := by
    intro place ends hplace hname
    cases place with
    | skip rest => cases hplace
    | plain => rfl
    | quoted quote before => rw [Place.next]; split_ifs <;> rfl
    | outside =>
      rw [Place.next]
      split_ifs with hquote hcast hletters
      · rfl
      · rfl
      · refine absurd ?_ hname
        have hmark : c ≠ '?' := by
          rw [hletters.1]
          decide
        rw [Place.kind, if_neg hmark, if_pos ⟨hletters.1, fun h ↦ hcast ⟨hletters.1, h⟩, hletters.2⟩]
      · rfl
  have hskip : ∀ {place : Place} {rest : ℕ}, place.skips = some rest → place = .skip rest := by
    intro place rest hplace
    cases place with
    | skip rest' => exact congrArg Place.skip (Option.some.inj hplace)
    | outside | plain | quoted _ _ => cases hplace
  have hname : ∀ {place : Place}, place.kind c text = .name → place = .outside := by
    intro place hplace
    cases place with
    | outside => rfl
    | skip _ | plain | quoted _ _ => cases hplace
  cases hskips : place.skips with
  | some rest =>
    obtain rfl := hskip hskips
    obtain rfl := hskip (h.symm.trans hskips)
    cases rest <;> rfl
  | none =>
    by_cases hk : place.kind c text = .name
    · obtain rfl := hname hk
      obtain rfl := hname (hkind.symm.trans hk)
      rw [next_name ends hk, next_name ends' hk]
    · rw [hcopy hskips hk, hcopy (h.symm.trans hskips) (hkind ▸ hk)]

theorem eq_of_kind {place : Place} {c : Char} {text : Text} :
    (place.kind c text = .mark → c = '?') ∧ (place.kind c text = .name → c = ':') := by
  cases place with
  | outside => exact ⟨kind_outside_mark.mp, fun h ↦ (of_kind_outside_name h).1⟩
  | skip _ | plain | quoted _ _ => exact ⟨fun h ↦ (by cases h), fun h ↦ (by cases h)⟩

theorem kind_of_changed {place : Place} {c : Char} {text : Text} (hdrop : place.kind c text ≠ .drop)
    (hcopy : place.kind c text ≠ .copy) : c ≠ '$' ∧ place.kind c text = if c = '?' then .mark else .name := by
  cases hkind : place.kind c text with
  | copy => exact absurd hkind hcopy
  | drop => exact absurd hkind hdrop
  | mark =>
    obtain rfl := eq_of_kind.1 hkind
    exact ⟨by decide, rfl⟩
  | name =>
    obtain rfl := eq_of_kind.2 hkind
    exact ⟨by decide, rfl⟩

theorem head_fill {ends : Char → Bool} {place : Place} {c : Char} {text : Text} (h : place.kind c text ≠ .drop)
    (n m : ℕ) : (fill ends place n m (c :: text)).head? = some (if place.kind c text = .copy then c else '$') := by
  rw [fill]
  cases hkind : place.kind c text with
  | copy | mark | name => rfl
  | drop => exact absurd hkind h

/-- Two rules give the same text exactly if they do the same with every character. -/
theorem fill_eq_iff {place place' : Place} (h : place.skips = place'.skips) (n m : ℕ) (text : Text) :
    fill endsBehind place n m text = fill always place' n m text ↔ InStep place place' text := by
  induction text generalizing place place' n m with
  | nil => exact iff_of_true rfl trivial
  | cons c text ih =>
    rw [fill, fill, InStep]
    by_cases hkind : place.kind c text = place'.kind c text
    · have hnext := ih (@skips_next _ _ _ _ _ endsBehind always h hkind)
      rw [and_iff_right hkind, ← hkind]
      cases place.kind c text with
      | copy => exact (List.cons_inj_right c).trans (hnext n m)
      | mark => exact (List.append_right_inj (placeholder m)).trans (hnext n (m + 1))
      | name => exact (List.append_right_inj (placeholder n)).trans (hnext (n + 1) m)
      | drop => exact hnext n m
    · -- what is left is told from what is put in its place by the first character
      refine iff_of_false (fun heq ↦ ?_) fun h ↦ hkind h.1
      have hdrop : place.kind c text ≠ .drop ∧ place'.kind c text ≠ .drop := by
        refine not_or.mp fun hor ↦ hkind ?_
        have hskip : ∃ rest, place.skips = some rest := by
          rcases hor with hd | hd
          · obtain ⟨rest, rfl⟩ := kind_eq_drop.mp hd
            exact ⟨rest, rfl⟩
          · obtain ⟨rest, rfl⟩ := kind_eq_drop.mp hd
            exact ⟨rest, h⟩
        obtain ⟨rest, hrest⟩ := hskip
        have hboth : ∀ {p : Place}, p.skips = some rest → p.kind c text = .drop := by
          intro p hp
          cases p with
          | skip _ => rfl
          | outside | plain | quoted _ _ => cases hp
        rw [hboth hrest, hboth (h.symm.trans hrest)]
      have hhead := @head_fill _ endsBehind _ _ _ hdrop.1 n m
      rw [fill, heq, ← fill, head_fill hdrop.2] at hhead
      have hc := Option.some.inj hhead
      by_cases hcopy : place.kind c text = .copy
      · have hcopy' : place'.kind c text ≠ .copy := fun h ↦ hkind (hcopy.trans h.symm)
        rw [if_pos hcopy, if_neg hcopy'] at hc
        exact (kind_of_changed hdrop.2 hcopy').1 hc.symm
      · by_cases hcopy' : place'.kind c text = .copy
        · rw [if_neg hcopy, if_pos hcopy'] at hc
          exact (kind_of_changed hdrop.1 hcopy).1 hc
        · exact hkind ((kind_of_changed hdrop.1 hcopy).2.trans (kind_of_changed hdrop.2 hcopy').2.symm)

theorem namesFrom_of_inStep {place place' : Place} {text : Text} (h : InStep place place' text) :
    namesFrom endsBehind place text = namesFrom always place' text := by
  induction text generalizing place place' with
  | nil => rfl
  | cons c text ih =>
    obtain ⟨hkind, hnext⟩ := h
    rw [namesFrom, namesFrom, hkind, ih hnext]

def Place.mode : Place → Mode
  | .quoted quote _ => if quote = '\'' then .literal else .identifier
  | _ => .outside

/-- By SQL's rule the scanner is where SQL is read. -/
theorem mode_next {place : Place} {c : Char} {text : Text} (h : Sane place (c :: text)) :
    (place.next always c text).mode = place.mode.next c := by
  cases place with
  | skip rest =>
    have hnext : (Place.skip rest).mode.next c = .outside := next_quiet (skip_quiet h).1 _
    rw [hnext]
    cases rest <;> rfl
  | plain =>
    obtain rfl := Option.some.inj h
    rfl
  | quoted quote before =>
    rw [Place.next]
    rcases h with rfl | rfl
    · change _ = if c = '\'' then Mode.outside else .literal
      by_cases hc : c = '\''
      · rw [if_pos ⟨hc, rfl⟩, if_pos hc]
        rfl
      · rw [if_neg fun h ↦ hc h.1, if_neg hc]
        rfl
    · change _ = if c = '"' then Mode.outside else .identifier
      by_cases hc : c = '"'
      · rw [if_pos ⟨hc, rfl⟩, if_pos hc]
        rfl
      · rw [if_neg fun h ↦ hc h.1, if_neg hc]
        rfl
  | outside =>
    rw [Place.next]
    change _ = if c = '\'' then Mode.literal else if c = '"' then .identifier else .outside
    by_cases hquote : c = '\'' ∨ c = '"'
    · rw [if_pos hquote]
      rcases hquote with rfl | rfl <;> rfl
    · rw [if_neg hquote, if_neg (not_or.mp hquote).1, if_neg (not_or.mp hquote).2]
      split_ifs <;> rfl

theorem kind_eq_mark {place : Place} {c : Char} {text : Text} (h : Sane place (c :: text)) :
    place.kind c text = .mark ↔ place.mode = .outside ∧ c = '?' := by
  cases place with
  | skip rest => exact iff_of_false (fun h ↦ by cases h) fun hc ↦ (skip_quiet h).2 hc.2
  | plain =>
    obtain rfl := Option.some.inj h
    exact iff_of_false (fun h ↦ by cases h) fun hc ↦ absurd hc.2 (by decide)
  | quoted quote before =>
    refine iff_of_false (fun h ↦ by cases h) fun hc ↦ ?_
    rcases h with rfl | rfl <;> cases hc.1
  | outside => exact kind_outside_mark.trans (and_iff_right rfl).symm

theorem mode_of_changed {place : Place} {c : Char} {text : Text} (h : place.kind c text ≠ .copy) :
    place.mode = .outside := by
  cases place with
  | outside | skip _ => rfl
  | plain | quoted _ _ => exact absurd rfl h

/-- The places before and behind a character that is not left as it is. -/
theorem changed_quiet {place : Place} {c : Char} {text : Text} (h : Sane place (c :: text))
    (hkind : place.kind c text ≠ .copy) : isQuiet c = true := by
  cases hplace : place.kind c text with
  | copy => exact absurd hplace hkind
  | mark =>
    obtain rfl := eq_of_kind.1 hplace
    decide
  | name =>
    obtain rfl := eq_of_kind.2 hplace
    decide
  | drop =>
    obtain ⟨rest, rfl⟩ := kind_eq_drop.mp hplace
    exact (skip_quiet h).1

/-- A reader of the text with the numbers in it reads the same literals. -/
theorem run_fill {place : Place} {text : Text} (h : Sane place text) {r : Reader} (hproper : r.Proper)
    (hmode : r.mode = place.mode) (n m : ℕ) : r.run (fill always place n m text) = r.run text := by
  induction text generalizing place r n m with
  | nil => rfl
  | cons c text ih =>
    have hnext := ih (sane_next always h) (proper_step hproper c)
      ((mode_step r c).trans (by rw [hmode, mode_next h]))
    have hsame : ∀ part : Text, (∀ d ∈ part, isQuiet d = true) → place.kind c text ≠ .copy → ∀ n m,
        r.run (part ++ fill always (place.next always c text) n m text) = r.run (c :: text) := by
      intro part hpart hkind n m
      have houtside : r.mode ≠ .literal := by
        rw [hmode, mode_of_changed hkind]
        exact fun h ↦ by cases h
      have hstep : r.step c = r := show r.run [c] = r from run_quiet_outside
        (fun d hd ↦ List.mem_singleton.mp hd ▸ changed_quiet h hkind) hproper houtside
      have hrest := hnext n m
      rw [hstep] at hrest
      rw [run_append, run_quiet_outside hpart hproper houtside, hrest]
      change r.run text = (r.step c).run text
      rw [hstep]
    have hquiet : ∀ k, ∀ d ∈ placeholder k, isQuiet d = true := fun k d hd ↦ (placeholder_quiet k d hd).1
    rw [fill]
    cases hkind : place.kind c text with
    | copy => exact hnext n m
    | mark => exact hsame _ (hquiet m) (by rw [hkind]; exact fun h ↦ by cases h) n (m + 1)
    | name => exact hsame _ (hquiet n) (by rw [hkind]; exact fun h ↦ by cases h) (n + 1) m
    | drop => exact hsame [] (fun _ hd ↦ absurd hd List.not_mem_nil) (by rw [hkind]; exact fun h ↦ by cases h) n m

theorem marks_fill {place : Place} {text : Text} (h : Sane place text) (n m : ℕ) :
    marks place.mode (fill always place n m text) = 0 := by
  induction text generalizing place n m with
  | nil => rfl
  | cons c text ih =>
    have hnext := ih (sane_next always h)
    have hmode := mode_next h
    have hsame : ∀ part : Text, (∀ d ∈ part, isQuiet d = true ∧ d ≠ '?') → place.kind c text ≠ .copy → ∀ n m,
        marks place.mode (part ++ fill always (place.next always c text) n m text) = 0 := by
      intro part hpart hkind n m
      obtain ⟨hreading, hmarks⟩ := inert_quiet hpart place.mode
      rw [next_quiet (changed_quiet h hkind)] at hmode
      rw [marks_append, hreading, hmarks, ← hmode, hnext n m]
    rw [fill]
    cases hkind : place.kind c text with
    | copy =>
      have hmark : ¬(place.mode = .outside ∧ c = '?') := fun hc ↦ by
        rw [(kind_eq_mark h).mpr hc] at hkind
        cases hkind
      change (if place.mode = .outside ∧ c = '?' then 1 else 0) + marks (place.mode.next c) _ = 0
      rw [if_neg hmark, ← hmode, hnext n m]
    | mark => exact hsame _ (placeholder_quiet m) (by rw [hkind]; exact fun h ↦ by cases h) n (m + 1)
    | name => exact hsame _ (placeholder_quiet n) (by rw [hkind]; exact fun h ↦ by cases h) (n + 1) m
    | drop => exact hsame [] (fun _ hd ↦ absurd hd List.not_mem_nil) (by rw [hkind]; exact fun h ↦ by cases h) n m

omit [Alnums] in
theorem dollars_digits {digits : Text} (h : ∀ c ∈ digits, c.isDigit = true) (text : Text) :
    dollars .outside (digits ++ text) = dollars .outside text := by
  induction digits with
  | nil => rfl
  | cons c digits ih =>
    obtain ⟨hc, hdigits⟩ := List.forall_mem_cons.mp h
    obtain ⟨hquiet, -, hdollar⟩ := isDigit_quiet hc
    rw [List.cons_append, dollars, if_neg fun h ↦ hdollar h.2.1, next_quiet hquiet]
    exact ih hdigits

omit [Alnums] in
theorem dollars_placeholder (k : ℕ) (text : Text) : dollars .outside (placeholder k ++ text) =
    (Nat.toDigits 10 k ++ text.takeWhile Char.isDigit) :: dollars .outside text := by
  have hdigits : ∀ c ∈ Nat.toDigits 10 k, c.isDigit = true := fun c hc ↦ isDigit_of_mem hc
  have htake : (Nat.toDigits 10 k ++ text).takeWhile Char.isDigit = Nat.toDigits 10 k ++ text.takeWhile Char.isDigit :=
    List.takeWhile_append_of_pos hdigits
  have hne : Nat.toDigits 10 k ++ text.takeWhile Char.isDigit ≠ [] :=
    fun h ↦ Nat.toDigits_ne_nil (List.append_eq_nil_iff.mp h).1
  rw [placeholder, List.cons_append, dollars, htake, if_pos ⟨rfl, rfl, hne⟩, next_quiet (by decide), dollars_digits hdigits]

/-- The digits at the start stay there. -/
theorem takeWhile_fill (n m : ℕ) (text : Text) :
    (fill always .outside n m text).takeWhile Char.isDigit = text.takeWhile Char.isDigit := by
  induction text generalizing n m with
  | nil => rfl
  | cons c text ih =>
    by_cases hc : c.isDigit = true
    · obtain ⟨hquiet, hmark, -⟩ := isDigit_quiet hc
      have hcolon : c ≠ ':' := by
        rintro rfl
        cases hc
      have hkind : Place.outside.kind c text = .copy := by
        rw [Place.kind, if_neg hmark, if_neg fun h ↦ hcolon h.1]
      rw [fill, hkind, next_outside always hquiet hcolon]
      dsimp only
      rw [List.takeWhile_cons_of_pos hc, List.takeWhile_cons_of_pos hc, ih]
    · have hdrop : Place.outside.kind c text ≠ .drop := fun h ↦ by
        obtain ⟨rest, hplace⟩ := kind_eq_drop.mp h
        cases hplace
      have hhead := @head_fill _ always _ _ _ hdrop n m
      cases hfill : fill always .outside n m (c :: text) with
      | nil =>
        rw [hfill] at hhead
        cases hhead
      | cons d rest =>
        rw [hfill] at hhead
        obtain rfl := Option.some.inj hhead
        rw [List.takeWhile_cons_of_neg hc, List.takeWhile_cons_of_neg]
        split_ifs
        · exact hc
        · decide

theorem isWord_dollar : isWord '$' = false := by
  rw [isWord, Alnums.isAlnum_ascii '$' (by decide)]
  decide

/-- What a dollar sign that is left as it is stands before. -/
theorem takeWhile_fill_next {place : Place} {text : Text} (h : Sane place ('$' :: text)) (hmode : place.mode = .outside)
    (n m : ℕ) : (fill always (place.next always '$' text) n m text).takeWhile Char.isDigit =
      text.takeWhile Char.isDigit := by
  have hplace : place = .outside := by
    cases place with
    | outside => rfl
    | plain => cases h
    | skip rest =>
      have hword := h '$' List.mem_cons_self
      rw [isWord_dollar] at hword
      cases hword
    | quoted quote before => rcases h with rfl | rfl <;> cases hmode
  rw [hplace, next_outside always (by decide) (by decide)]
  exact takeWhile_fill n m text

/-- Where the readers are around a character that is not left as it is. -/
theorem changed_modes {place : Place} {c : Char} {text : Text} (h : Sane place (c :: text))
    (hkind : place.kind c text ≠ .copy) :
    place.mode = .outside ∧ (place.next always c text).mode = .outside := by
  have hmode := mode_next h
  rw [mode_of_changed hkind, next_quiet (changed_quiet h hkind)] at hmode
  exact ⟨mode_of_changed hkind, hmode⟩

theorem marks_cons {place : Place} {c : Char} {text : Text} (h : Sane place (c :: text)) :
    marks place.mode (c :: text) =
      (if place.kind c text = .mark then 1 else 0) + marks (place.next always c text).mode text := by
  rw [marks, mode_next h, if_congr (kind_eq_mark h) rfl rfl]

/-- The numbers that a character and those behind it come to. -/
theorem dollars_fill_cons {place : Place} {c : Char} {text : Text} (h : Sane place (c :: text)) (n m : ℕ) :
    dollars place.mode (fill always place n m (c :: text)) =
      let rest := fun n m ↦ dollars (place.next always c text).mode (fill always (place.next always c text) n m text)
      match place.kind c text with
      | .copy =>
        if place.mode = .outside ∧ c = '$' ∧ text.takeWhile Char.isDigit ≠ [] then
          text.takeWhile Char.isDigit :: rest n m
        else rest n m
      | .mark => (Nat.toDigits 10 m ++ text.takeWhile Char.isDigit) :: rest n (m + 1)
      | .name => (Nat.toDigits 10 n ++
          (fill always (place.next always c text) (n + 1) m text).takeWhile Char.isDigit) :: rest (n + 1) m
      | .drop => rest n m := by
  rw [fill]
  cases hkind : place.kind c text with
  | copy =>
    dsimp only
    rw [dollars, mode_next h]
    by_cases hc : place.mode = .outside ∧ c = '$'
    · obtain ⟨hmode, rfl⟩ := hc
      rw [takeWhile_fill_next h hmode]
    · rw [if_neg fun h ↦ hc ⟨h.1, h.2.1⟩, if_neg fun h ↦ hc ⟨h.1, h.2.1⟩]
  | mark =>
    have hmodes := changed_modes h (by rw [hkind]; exact fun h ↦ by cases h)
    have hplace : place = .outside ∧ c = '?' := by
      refine ⟨?_, eq_of_kind.1 hkind⟩
      cases place with
      | outside => rfl
      | skip _ | plain | quoted _ _ => cases hkind
    dsimp only
    rw [hmodes.1, hmodes.2, dollars_placeholder]
    obtain ⟨rfl, rfl⟩ := hplace
    rw [next_outside always (by decide) (by decide), takeWhile_fill]
  | name =>
    have hmodes := changed_modes h (by rw [hkind]; exact fun h ↦ by cases h)
    dsimp only
    rw [hmodes.1, hmodes.2, dollars_placeholder]
  | drop =>
    have hmodes := changed_modes h (by rw [hkind]; exact fun h ↦ by cases h)
    dsimp only
    rw [hmodes.1, hmodes.2]

theorem bare_cons {place : Place} {c : Char} {text : Text} (h : Sane place (c :: text)) :
    Bare place.mode (c :: text) ↔
      (place.kind c text = .mark ∨ (place.mode = .outside ∧ c = '$') → text.takeWhile Char.isDigit = []) ∧
        Bare (place.next always c text).mode text := by
  rw [Bare, mode_next h, kind_eq_mark h, ← and_or_left, and_imp]

theorem marks_le_dollars {place : Place} {text : Text} (h : Sane place text) (n m : ℕ) :
    marks place.mode text ≤ (dollars place.mode (fill always place n m text)).length := by
  induction text generalizing place n m with
  | nil => exact le_rfl
  | cons c text ih =>
    have hnext := ih (sane_next always h)
    rw [dollars_fill_cons h, marks_cons h]
    cases hkind : place.kind c text with
    | copy =>
      rw [if_neg (by decide), Nat.zero_add]
      dsimp only
      split_ifs
      · exact (hnext n m).trans (Nat.le_succ _)
      · exact hnext n m
    | mark =>
      rw [if_pos rfl, Nat.add_comm]
      exact Nat.succ_le_succ (hnext n (m + 1))
    | name =>
      rw [if_neg (by decide), Nat.zero_add]
      exact (hnext (n + 1) m).trans (Nat.le_succ _)
    | drop =>
      rw [if_neg (by decide), Nat.zero_add]
      exact hnext n m

/-- The numbers are those of the question marks, each once and in turn, exactly if there are no names, no numbers from
before and no digits that run on. -/
theorem dollars_fill_iff {place : Place} {text : Text} (h : Sane place text) (n m : ℕ) :
    dollars place.mode (fill always place n m text) =
        (List.range' m (marks place.mode text)).map (Nat.toDigits 10) ↔
      namesFrom always place text = [] ∧ Bare place.mode text := by
  induction text generalizing place n m with
  | nil => exact iff_of_true rfl ⟨rfl, trivial⟩
  | cons c text ih =>
    have hnext := ih (sane_next always h)
    have hlonger : ∀ (entry : Text) (n m' : ℕ), entry :: dollars (place.next always c text).mode
        (fill always (place.next always c text) n m' text) ≠
          (List.range' m (marks (place.next always c text).mode text)).map (Nat.toDigits 10) := by
      intro entry n m' heq
      have hlength := congrArg List.length heq
      rw [List.length_cons, List.length_map, List.length_range'] at hlength
      have hle := marks_le_dollars (sane_next always h) n m'
      omega
    rw [dollars_fill_cons h, marks_cons h, bare_cons h, namesFrom]
    cases hkind : place.kind c text with
    | copy =>
      rw [if_neg (by decide), Nat.zero_add]
      dsimp only
      split_ifs with hdollar
      · exact iff_of_false (hlonger _ n m) fun hc ↦ hdollar.2.2 (hc.2.1 (.inr ⟨hdollar.1, hdollar.2.1⟩))
      · rw [hnext n m]
        refine and_congr_right fun _ ↦ (and_iff_right ?_).symm
        rintro (hmark | ⟨hmode, hc⟩)
        · cases hmark
        · exact not_not.mp fun htake ↦ hdollar ⟨hmode, hc, htake⟩
    | mark =>
      rw [if_pos rfl, Nat.add_comm 1, List.range'_succ, List.map_cons]
      dsimp only
      rw [List.cons.injEq, hnext n (m + 1), List.append_right_eq_self]
      constructor
      · rintro ⟨htake, hnames, hbare⟩
        exact ⟨hnames, fun _ ↦ htake, hbare⟩
      · rintro ⟨hnames, htake, hbare⟩
        exact ⟨htake (.inl rfl), hnames, hbare⟩
    | name =>
      rw [if_neg (by decide), Nat.zero_add]
      exact iff_of_false (hlonger _ (n + 1) m) fun hc ↦ List.cons_ne_nil _ _ hc.1
    | drop =>
      rw [if_neg (by decide), Nat.zero_add]
      refine (hnext n m).trans (and_congr_right fun _ ↦ (and_iff_right ?_).symm)
      rintro (hmark | ⟨-, rfl⟩)
      · cases hmark
      · obtain ⟨rest, rfl⟩ := kind_eq_drop.mp hkind
        have hword := h '$' List.mem_cons_self
        rw [isWord_dollar] at hword
        cases hword

end

end Briefr.Db.PgAdapt
