import Briefr.Db.PgAdapt

namespace Briefr.Db.PgAdapt

open Briefr.Library Briefr.Library.Rewriting Briefr.Library.SqlText Briefr.Python

/-- The second text is what is left of the first one behind something that no reader takes notice of. -/
def Eats (text rest : Text) : Prop := ∃ eaten, text = eaten ++ rest ∧ Inert eaten

theorem Eats.trans {a b c : Text} (h : Eats a b) (h' : Eats b c) : Eats a c := by
  obtain ⟨eaten, rfl, heaten⟩ := h
  obtain ⟨eaten', rfl, heaten'⟩ := h'
  exact ⟨eaten ++ eaten', (List.append_assoc _ _ _).symm, inert_append heaten heaten'⟩

theorem Eats.length_le {a b : Text} (h : Eats a b) : b.length ≤ a.length := by
  obtain ⟨eaten, rfl, -⟩ := h
  rw [List.length_append]
  exact Nat.le_add_left _ _

theorem Eats.append {a b : Text} (h : Eats a b) (rest : Text) : Eats (a ++ rest) (b ++ rest) := by
  obtain ⟨eaten, rfl, heaten⟩ := h
  exact ⟨eaten, List.append_assoc _ _ _, heaten⟩

theorem eats_quiet {eaten rest : Text} (h : ∀ c ∈ eaten, isQuiet c = true ∧ c ≠ '?') : Eats (eaten ++ rest) rest :=
  ⟨eaten, rfl, inert_quiet h⟩

/-- A match of a character without case is the character. -/
theorem eq_iff_of_sameLetter {p c d : Char} (h : sameLetter p c = true) (hascii : d.toNat < 128) (halpha : ¬d.isAlpha)
    (hlower : d.toLower = d) : p = d ↔ c = d := by
  have hother : ∀ {q e : Char}, p = q → c = e → q.isAlpha = true → 128 ≤ e.toNat → (p = d ↔ c = d) := by
    rintro q e rfl rfl hq he
    refine iff_of_false ?_ ?_
    · rintro rfl
      exact halpha hq
    · rintro rfl
      omega
  simp only [sameLetter, Bool.or_eq_true, Bool.and_eq_true, beq_iff_eq] at h
  rcases h with ((h | ⟨hp, hc⟩) | ⟨hp, hc⟩) | ⟨hp, hc | hc⟩
  · constructor
    · rintro rfl
      exact eq_of_toLower halpha h.symm
    · rintro rfl
      exact h.symm.trans hlower
  · exact hother hp hc (by decide) (by decide)
  · exact hother hp hc (by decide) (by decide)
  · exact hother hp hc (by decide) (by decide)
  · exact hother hp hc (by decide) (by decide)

/-- A letter and its match are the same to a reader. -/
theorem sameLetter_next {p c : Char} (h : sameLetter p c = true) (mode : Mode) :
    mode.next p = mode.next c ∧ (mode = .outside ∧ p = '?' ↔ mode = .outside ∧ c = '?') := by
  have hquote := eq_iff_of_sameLetter (d := '\'') h (by decide) (by decide) (by decide)
  have hdouble := eq_iff_of_sameLetter (d := '"') h (by decide) (by decide) (by decide)
  have hmark := eq_iff_of_sameLetter (d := '?') h (by decide) (by decide) (by decide)
  refine ⟨?_, and_congr_right fun _ ↦ hmark⟩
  cases mode <;> simp only [Mode.next, hquote, hdouble]

theorem after_eats {pattern text rest : Text} (h : after pattern text = some rest) :
    (∃ eaten, text = eaten ++ rest ∧ Same pattern eaten) ∧ rest.length + pattern.length = text.length := by
  induction pattern generalizing text with
  | nil =>
    obtain rfl := Option.some.inj h
    exact ⟨⟨[], rfl, congruence_same.refl []⟩, rfl⟩
  | cons p pattern ih =>
    cases text with
    | nil => cases h
    | cons c text =>
      rw [after] at h
      split_ifs at h with hletter
      obtain ⟨⟨eaten, rfl, hsame⟩, hlength⟩ := ih h
      refine ⟨⟨c :: eaten, rfl, fun mode ↦ ?_⟩, ?_⟩
      · obtain ⟨hnext, hmark⟩ := sameLetter_next hletter mode
        obtain ⟨hreading, hmarks⟩ := hsame (mode.next c)
        change reading (mode.next p) pattern = reading (mode.next c) eaten ∧ _
        rw [marks, marks, hnext, hreading, hmarks, if_congr hmark rfl rfl]
        exact ⟨rfl, rfl⟩
      · rw [List.length_cons, List.length_cons, ← hlength]
        omega

theorem Eats.after {pattern text rest : Text} (h : PgAdapt.after pattern text = some rest) (hpattern : Inert pattern) :
    Eats text rest := by
  obtain ⟨⟨eaten, rfl, hsame⟩, -⟩ := after_eats h
  exact ⟨eaten, rfl, fun mode ↦ ⟨(hsame mode).1.symm.trans (hpattern mode).1, (hsame mode).2.symm.trans (hpattern mode).2⟩⟩

section
variable [Interp] {text rest : Text}

theorem isSpace_quiet {c : Char} (h : isSpace c = true) : isQuiet c = true ∧ c ≠ '?' := by
  have hnot : ∀ d : Char, d.toNat < 128 → isAsciiSpace d = false → c ≠ d := by
    rintro d hd hspace rfl
    rw [Interp.isSpace_ascii c hd, hspace] at h
    cases h
  refine ⟨?_, hnot '?' (by decide) (by decide)⟩
  rw [isQuiet, Bool.and_eq_true, bne_iff_ne, bne_iff_ne]
  exact ⟨hnot '\'' (by decide) (by decide), hnot '"' (by decide) (by decide)⟩

theorem Eats.spaces (text : Text) : Eats text (spaces text) := by
  have hspaces : ∀ c ∈ text.takeWhile isSpace, isQuiet c = true ∧ c ≠ '?' :=
    fun c hc ↦ isSpace_quiet (List.mem_takeWhile_imp hc)
  have h : Eats (text.takeWhile isSpace ++ text.dropWhile isSpace) (text.dropWhile isSpace) := eats_quiet hspaces
  rwa [List.takeWhile_append_dropWhile] at h

theorem Eats.someSpaces (h : someSpaces text = some rest) : Eats text rest := by
  rw [PgAdapt.someSpaces] at h
  split_ifs at h
  obtain rfl := Option.some.inj h
  exact .spaces text

/-- The end of a text of spaces. -/
theorem Eats.drop (h : PgAdapt.spaces text = []) (n : ℕ) : Eats text (text.drop n) := by
  have hspaces : ∀ c ∈ text.take n, isQuiet c = true ∧ c ≠ '?' :=
    fun c hc ↦ isSpace_quiet (List.dropWhile_eq_nil_iff.mp h c (List.mem_of_mem_take hc))
  have heats : Eats (text.take n ++ text.drop n) (text.drop n) := eats_quiet hspaces
  rwa [List.take_append_drop] at heats

theorem Eats.group (body : Text) :
    Eats body (if PgAdapt.spaces body = [] then body.drop (body.length - 1) else PgAdapt.spaces body) := by
  split_ifs with h
  · exact .drop h _
  · exact .spaces body

/-- The group of an interval stands between spaces and a bracket. -/
theorem interval_eats {group : Text} (h : interval text = some (group, rest)) : Eats text (group ++ ')' :: rest) := by
  rw [interval.eq_def] at h
  split at h
  next _ text =>
    dsimp only at h
    split at h
    next c rest' hdrop =>
      split at h
      next => cases h
      next =>
        obtain ⟨rfl, rfl⟩ := Prod.mk.inj (Option.some.inj h)
        have hc : c = ')' := by
          have hhead := List.head?_dropWhile_not (· != ')') text
          rw [hdrop] at hhead
          simpa using hhead
        have htext : text.takeWhile (· != ')') ++ ')' :: rest' = text := by
          have hsplit := List.takeWhile_append_dropWhile (p := (· != ')')) (l := text)
          rwa [hdrop, hc] at hsplit
        have hcomma : Eats (',' :: text) text := ⟨[','], rfl, inert_quiet (quiet_of_all rfl)⟩
        have hgroup := (Eats.group (text.takeWhile (· != ')'))).append (')' :: rest')
        rw [htext] at hgroup
        exact hcomma.trans hgroup
    next => cases h
  next => cases h

end

theorem comparison_eats {text rest op : Text} (h : comparison text = some (op, rest)) : Eats text rest ∧ Inert op := by
  have hop : ∀ op : Text, (∀ c ∈ op, isQuiet c = true ∧ c ≠ '?') → Eats (op ++ rest) rest ∧ Inert op :=
    fun op hquiet ↦ ⟨eats_quiet hquiet, inert_quiet hquiet⟩
  rw [comparison.eq_def] at h
  split at h
  next =>
    obtain ⟨rfl, rfl⟩ := Prod.mk.inj (Option.some.inj h)
    exact hop ">=".toList (quiet_of_all rfl)
  next =>
    obtain ⟨rfl, rfl⟩ := Prod.mk.inj (Option.some.inj h)
    exact hop "<=".toList (quiet_of_all rfl)
  next =>
    obtain ⟨rfl, rfl⟩ := Prod.mk.inj (Option.some.inj h)
    exact hop ">".toList (quiet_of_all rfl)
  next =>
    obtain ⟨rfl, rfl⟩ := Prod.mk.inj (Option.some.inj h)
    exact hop "<".toList (quiet_of_all rfl)
  next =>
    obtain ⟨rfl, rfl⟩ := Prod.mk.inj (Option.some.inj h)
    exact hop "=".toList (quiet_of_all rfl)
  next => cases h

section
variable [Alnums] {text rest col : Text}

theorem isWord_quiet {c : Char} (h : isWord c = true) : isQuiet c = true ∧ c ≠ '?' := by
  have hnot : ∀ d : Char, d.toNat < 128 → (d.isAlphanum || d == '_') = false → c ≠ d := by
    rintro d hd hword rfl
    rw [isWord, Alnums.isAlnum_ascii c hd, hword] at h
    cases h
  refine ⟨?_, hnot '?' (by decide) (by decide)⟩
  rw [isQuiet, Bool.and_eq_true, bne_iff_ne, bne_iff_ne]
  exact ⟨hnot '\'' (by decide) (by decide), hnot '"' (by decide) (by decide)⟩

/-- A word that is read is inert. -/
theorem word_eats (h : word text = some (col, rest)) : Eats text rest ∧ Inert col := by
  rw [word] at h
  split_ifs at h
  obtain ⟨rfl, rfl⟩ := Prod.mk.inj (Option.some.inj h)
  have hword : ∀ c ∈ text.takeWhile isWord, isQuiet c = true ∧ c ≠ '?' :=
    fun c hc ↦ isWord_quiet (List.mem_takeWhile_imp hc)
  have heats : Eats (text.takeWhile isWord ++ text.dropWhile isWord) (text.dropWhile isWord) := eats_quiet hword
  rw [List.takeWhile_append_dropWhile] at heats
  exact ⟨heats, inert_quiet hword⟩

theorem column_eats (h : column text = some (col, rest)) : Eats text rest ∧ Inert col := by
  obtain ⟨⟨table, rest'⟩, htable, h⟩ := Option.bind_eq_some_iff.mp h
  obtain ⟨heats, hinert⟩ := word_eats htable
  dsimp only at h
  split at h
  next rest₁ =>
    split at h
    next name rest₂ hname =>
      obtain ⟨rfl, rfl⟩ := Prod.mk.inj (Option.some.inj h)
      obtain ⟨heats', hinert'⟩ := word_eats hname
      have hdot : Eats ('.' :: rest₁) rest₁ := ⟨['.'], rfl, inert_quiet (quiet_of_all rfl)⟩
      have hinert'' : Inert ('.' :: name) := inert_append (a := ['.']) (inert_quiet (quiet_of_all rfl)) hinert'
      exact ⟨heats.trans (hdot.trans heats'), inert_append hinert hinert''⟩
    next =>
      obtain ⟨rfl, rfl⟩ := Prod.mk.inj (Option.some.inj h)
      exact ⟨heats, hinert⟩
  next =>
    obtain ⟨rfl, rfl⟩ := Prod.mk.inj (Option.some.inj h)
    exact ⟨heats, hinert⟩

end

/-- What a pattern finds is not empty, and the same to a reader as what replaces it. -/
def Fits (pattern : Text → Option (Text × Text)) : Prop :=
  ∀ text replacement rest, pattern text = some (replacement, rest) →
    rest.length < text.length ∧ ∃ found, text = found ++ rest ∧ Same found replacement

theorem respects_measured {pattern : Text → Option (Text × Text)} (h : Fits pattern) {text replacement : Text}
    {length : ℕ} (hfound : measured text (pattern text) = some (replacement, length)) :
    0 < length ∧ Same (text.take length) replacement := by
  obtain ⟨⟨replacement', rest⟩, hpattern, heq⟩ := Option.map_eq_some_iff.mp hfound
  obtain ⟨rfl, rfl⟩ := Prod.mk.inj heq
  obtain ⟨hlength, found, rfl, hsame⟩ := h text _ rest hpattern
  dsimp only
  rw [List.length_append, Nat.add_sub_cancel, List.take_left]
  rw [List.length_append] at hlength
  exact ⟨by omega, hsame⟩

theorem respects_unbounded {pattern : Text → Option (Text × Text)} (h : Fits pattern) :
    Respects (unbounded pattern) Same := fun _ _ _ _ hfound ↦ respects_measured h hfound

theorem respects_bounded [Alnums] {pattern : Text → Option (Text × Text)} (h : Fits pattern) :
    Respects (bounded pattern) Same := by
  intro before text replacement length hfound
  rw [bounded] at hfound
  split_ifs at hfound
  exact respects_measured h hfound

/-- A pattern whose match is inert, as its replacement is. -/
theorem fits_inert {text replacement rest : Text} (hlength : rest.length < text.length) (heats : Eats text rest)
    (hreplacement : Inert replacement) :
    rest.length < text.length ∧ ∃ found, text = found ++ rest ∧ Same found replacement := by
  obtain ⟨found, rfl, hfound⟩ := heats
  exact ⟨hlength, found, rfl, same_of_inert hfound hreplacement⟩

/-- A pattern with a group that is kept. -/
theorem fits_group {text group behind rest front back : Text} (hlength : rest.length < text.length)
    (hgroup : Eats text (group ++ behind)) (hbehind : Eats behind rest) (hfront : Inert front) (hback : Inert back) :
    rest.length < text.length ∧ ∃ found, text = found ++ rest ∧ Same found (front ++ (group ++ back)) := by
  obtain ⟨eaten, rfl, heaten⟩ := hgroup
  obtain ⟨eaten', rfl, heaten'⟩ := hbehind
  refine ⟨hlength, eaten ++ (group ++ eaten'), by simp only [List.append_assoc], ?_⟩
  exact same_of_kept heaten heaten' hfront hback group

theorem inert_of_modes {text : Text} (h : ∀ mode ∈ [Mode.outside, .literal, .identifier],
    reading mode text = mode ∧ marks mode text = 0) : Inert text := by
  intro mode
  refine h mode ?_
  cases mode <;> decide

theorem after_lt {pattern text rest : Text} (h : after pattern text = some rest) (hpattern : pattern ≠ []) :
    rest.length < text.length := by
  rw [← (after_eats h).2]
  exact Nat.lt_add_of_pos_right (List.length_pos_of_ne_nil hpattern)

/-- A pattern without groups. -/
theorem fits_plain {pattern replacement : Text} (hpattern : Inert pattern) (hne : pattern ≠ [])
    (hreplacement : Inert replacement) :
    Fits fun text ↦ (after pattern text).bind fun rest ↦ some (replacement, rest) := by
  intro text replacement' rest h
  obtain ⟨rest', hafter, heq⟩ := Option.bind_eq_some_iff.mp h
  obtain ⟨rfl, rfl⟩ := Prod.mk.inj (Option.some.inj heq)
  exact fits_inert (after_lt hafter hne) (.after hafter hpattern) hreplacement

theorem fits_datetimeNow : Fits datetimeNow :=
  fits_plain (inert_of_modes (by decide)) (by decide) (inert_of_modes (by decide))

theorem fits_dateNow : Fits dateNow :=
  fits_plain (inert_of_modes (by decide)) (by decide) (inert_of_modes (by decide))

theorem eats_bracket (rest : Text) : Eats (')' :: rest) rest := ⟨[')'], rfl, inert_quiet (quiet_of_all rfl)⟩

/-- A pattern with an interval only. -/
theorem fits_interval [Interp] {pattern front back : Text} (hpattern : Inert pattern) (hne : pattern ≠ [])
    (hfront : Inert front) (hback : Inert back) :
    Fits fun text ↦ (after pattern text).bind fun text ↦ (interval text).bind fun found ↦
      some (front ++ (found.1 ++ back), found.2) := by
  intro text replacement rest h
  obtain ⟨text', hafter, h⟩ := Option.bind_eq_some_iff.mp h
  obtain ⟨⟨group, rest'⟩, hinterval, heq⟩ := Option.bind_eq_some_iff.mp h
  obtain ⟨rfl, rfl⟩ := Prod.mk.inj (Option.some.inj heq)
  have hgroup := interval_eats hinterval
  have hlength : rest'.length < text.length := by
    have hle : (group ++ ')' :: rest').length ≤ text'.length := hgroup.length_le
    rw [List.length_append, List.length_cons] at hle
    have hlt := after_lt hafter hne
    omega
  exact fits_group hlength ((Eats.after hafter hpattern).trans hgroup) (eats_bracket rest') hfront hback

section
variable [Alnums]

theorem fits_datetimeShift : Fits datetimeShift :=
  fits_interval (inert_of_modes (by decide)) (by decide) (inert_of_modes (by decide))
    (inert_of_modes (by decide))

theorem fits_dateShift : Fits dateShift :=
  fits_interval (inert_of_modes (by decide)) (by decide) (inert_of_modes (by decide))
    (inert_of_modes (by decide))

theorem fits_datetimeCompare : Fits datetimeCompare := by
  intro text replacement rest h
  obtain ⟨text₁, hname, h⟩ := Option.bind_eq_some_iff.mp h
  obtain ⟨⟨col, text₂⟩, hcolumn, h⟩ := Option.bind_eq_some_iff.mp h
  obtain ⟨text₃, hclose, h⟩ := Option.bind_eq_some_iff.mp h
  obtain ⟨⟨op, text₄⟩, hop, h⟩ := Option.bind_eq_some_iff.mp h
  obtain ⟨text₅, hnow, h⟩ := Option.bind_eq_some_iff.mp h
  obtain ⟨hcol, hinertCol⟩ := column_eats hcolumn
  obtain ⟨hcomparison, hinertOp⟩ := comparison_eats hop
  have hbefore : Eats text₁ text₅ := hcol.trans ((Eats.after hclose (inert_of_modes (by decide))).trans
    ((Eats.spaces text₃).trans (hcomparison.trans ((Eats.spaces text₄).trans
      (.after hnow (inert_of_modes (by decide)))))))
  have hall : Eats text text₅ := (Eats.after hname (inert_of_modes (by decide))).trans hbefore
  have hlength : text₅.length < text.length := hbefore.length_le.trans_lt (after_lt hname (by decide))
  have hleft : Inert (col ++ "::timestamp ".toList ++ op ++ [' ']) :=
    inert_append (inert_append (inert_append hinertCol (inert_of_modes (by decide))) hinertOp)
      (inert_of_modes (by decide))
  dsimp only at h
  split at h
  next rest' hend =>
    obtain ⟨rfl, rfl⟩ := Prod.mk.inj (Option.some.inj h)
    have hrest : Eats text₅ rest' := .after hend (inert_of_modes (by decide))
    exact fits_inert (hrest.length_le.trans_lt hlength) (hall.trans hrest)
      (inert_append hleft (inert_of_modes (by decide)))
  next =>
    obtain ⟨⟨group, rest'⟩, hinterval, heq⟩ := Option.bind_eq_some_iff.mp h
    obtain ⟨hreplacement, rfl⟩ := Prod.mk.inj (Option.some.inj heq)
    subst hreplacement
    have hgroup := interval_eats hinterval
    have hle : (group ++ ')' :: rest').length ≤ text₅.length := hgroup.length_le
    rw [List.length_append, List.length_cons] at hle
    have hlt : rest'.length < text.length := by omega
    exact fits_group hlt (hall.trans hgroup) (eats_bracket rest') (inert_append hleft (inert_of_modes (by decide)))
      (inert_of_modes (by decide))

theorem fits_juliandayAge : Fits juliandayAge := by
  intro text replacement rest h
  obtain ⟨text₁, hopen, h⟩ := Option.bind_eq_some_iff.mp h
  obtain ⟨text₂, hnow, h⟩ := Option.bind_eq_some_iff.mp h
  obtain ⟨text₃, hminus, h⟩ := Option.bind_eq_some_iff.mp h
  obtain ⟨text₄, hname, h⟩ := Option.bind_eq_some_iff.mp h
  obtain ⟨⟨col, text₅⟩, hword, h⟩ := Option.bind_eq_some_iff.mp h
  obtain ⟨text₆, hclose, h⟩ := Option.bind_eq_some_iff.mp h
  obtain ⟨text₇, hclose', h⟩ := Option.bind_eq_some_iff.mp h
  obtain ⟨text₈, htimes, h⟩ := Option.bind_eq_some_iff.mp h
  obtain ⟨rest', hday, heq⟩ := Option.bind_eq_some_iff.mp h
  obtain ⟨hreplacement, rfl⟩ := Prod.mk.inj (Option.some.inj heq)
  subst hreplacement
  obtain ⟨hcol, hinertCol⟩ := word_eats hword
  have hage : Eats text₁ text₅ := (Eats.spaces text₁).trans ((Eats.after hnow (inert_of_modes (by decide))).trans
    ((Eats.spaces text₂).trans ((Eats.after hminus (inert_of_modes (by decide))).trans
      ((Eats.spaces text₃).trans ((Eats.after hname (inert_of_modes (by decide))).trans hcol)))))
  have hdays : Eats text₅ rest' := (Eats.after hclose (inert_of_modes (by decide))).trans
    ((Eats.spaces text₆).trans ((Eats.after hclose' (inert_of_modes (by decide))).trans
      ((Eats.spaces text₇).trans ((Eats.after htimes (inert_of_modes (by decide))).trans
        ((Eats.spaces text₈).trans (.after hday (inert_of_modes (by decide))))))))
  have hall : Eats text₁ rest' := hage.trans hdays
  refine fits_inert (hall.length_le.trans_lt (after_lt hopen (by decide)))
    ((Eats.after hopen (inert_of_modes (by decide))).trans hall) ?_
  exact inert_append (inert_append (inert_of_modes (by decide)) hinertCol) (inert_of_modes (by decide))

theorem fits_castColumn {name type : Text} (hname : Inert (name ++ ['('])) (htype : Inert type) :
    Fits (castColumn name type) := by
  intro text replacement rest h
  obtain ⟨text₁, hopen, h⟩ := Option.bind_eq_some_iff.mp h
  obtain ⟨⟨col, text₂⟩, hcolumn, h⟩ := Option.bind_eq_some_iff.mp h
  obtain ⟨rest', hclose, heq⟩ := Option.bind_eq_some_iff.mp h
  obtain ⟨hreplacement, rfl⟩ := Prod.mk.inj (Option.some.inj heq)
  subst hreplacement
  obtain ⟨hcol, hinertCol⟩ := column_eats hcolumn
  have hrest : Eats text₁ rest' := hcol.trans (.after hclose (inert_of_modes (by decide)))
  refine fits_inert (hrest.length_le.trans_lt (after_lt hopen (by simp)))
    ((Eats.after hopen hname).trans hrest) ?_
  exact inert_append (inert_append hinertCol (inert_of_modes (by decide))) htype

/-- The translation of the dates keeps every question mark and where the text is read. -/
theorem same_translateDates (text : Text) : Same text (translateDates text) := by
  have hstep : ∀ {rule : Rule Char}, Respects rule Same → ∀ text', Same text text' → Same text (rewrite rule text') :=
    fun hrule text' h mode ↦ ⟨(h mode).1.trans (rewrite_related congruence_same hrule text' mode).1,
      (h mode).2.trans (rewrite_related congruence_same hrule text' mode).2⟩
  have hdate := @fits_castColumn _ "date".toList "date".toList (inert_of_modes (by decide))
    (inert_of_modes (by decide))
  have hdatetime := @fits_castColumn _ "datetime".toList "timestamp".toList
    (inert_of_modes (by decide)) (inert_of_modes (by decide))
  rw [translateDates]
  simp only [List.foldl_cons, List.foldl_nil]
  refine hstep (respects_bounded hdatetime) _ (hstep (respects_bounded hdate) _ ?_)
  refine hstep (respects_bounded fits_dateNow) _ (hstep (respects_bounded fits_dateShift) _ ?_)
  refine hstep (respects_unbounded fits_juliandayAge) _ (hstep (respects_bounded fits_datetimeShift) _ ?_)
  refine hstep (respects_bounded fits_datetimeNow) _ (hstep (respects_bounded fits_datetimeCompare) _ ?_)
  exact congruence_same.refl text

end

/-- The second text is what is left of the first one behind some characters that are no quotes or question marks. -/
def Skips (n : ℕ) (text rest : Text) : Prop :=
  ∃ skipped, text = skipped ++ rest ∧ (∀ c ∈ skipped, isQuiet c = true ∧ c ≠ '?') ∧ n ≤ skipped.length

theorem Skips.trans {n m : ℕ} {a b c : Text} (h : Skips n a b) (h' : Skips m b c) : Skips (n + m) a c := by
  obtain ⟨skipped, rfl, hquiet, hlength⟩ := h
  obtain ⟨skipped', rfl, hquiet', hlength'⟩ := h'
  refine ⟨skipped ++ skipped', (List.append_assoc _ _ _).symm, fun d hd ↦ ?_, ?_⟩
  · exact (List.mem_append.mp hd).elim (hquiet d) (hquiet' d)
  · rw [List.length_append]
    exact Nat.add_le_add hlength hlength'

theorem Skips.after {pattern text rest : Text} (h : PgAdapt.after pattern text = some rest)
    (hpattern : ∀ c ∈ pattern, isQuiet c = true ∧ c ≠ '?') : Skips pattern.length text rest := by
  induction pattern generalizing text with
  | nil =>
    obtain rfl := Option.some.inj h
    exact ⟨[], rfl, fun _ hc ↦ absurd hc List.not_mem_nil, le_rfl⟩
  | cons p pattern ih =>
    cases text with
    | nil => cases h
    | cons c text =>
      rw [PgAdapt.after] at h
      split_ifs at h with hletter
      obtain ⟨⟨hquiet, hmark⟩, htail⟩ := List.forall_mem_cons.mp hpattern
      obtain ⟨skipped, rfl, hskipped, hlength⟩ := ih h htail
      refine ⟨c :: skipped, rfl, List.forall_mem_cons.mpr ⟨⟨?_, ?_⟩, hskipped⟩, Nat.succ_le_succ hlength⟩
      · rw [isQuiet, Bool.and_eq_true, bne_iff_ne, bne_iff_ne] at hquiet ⊢
        rwa [Ne, Ne, ← eq_iff_of_sameLetter hletter (by decide) (by decide) (by decide),
          ← eq_iff_of_sameLetter hletter (by decide) (by decide) (by decide)]
      · rwa [Ne, ← eq_iff_of_sameLetter hletter (by decide) (by decide) (by decide)]

theorem Skips.someSpaces [Interp] {text rest : Text} (h : PgAdapt.someSpaces text = some rest) : Skips 1 text rest := by
  rw [PgAdapt.someSpaces] at h
  split_ifs at h with hhead
  obtain rfl := Option.some.inj h
  refine ⟨text.takeWhile isSpace, List.takeWhile_append_dropWhile.symm,
    fun c hc ↦ isSpace_quiet (List.mem_takeWhile_imp hc), ?_⟩
  cases text with
  | nil => cases hhead
  | cons c text =>
    have hspace : isSpace c = true := hhead
    rw [List.takeWhile_cons_of_pos hspace]
    exact Nat.succ_le_succ (Nat.zero_le _)

theorem skips_insertOr [Alnums] {verb text rest : Text} (hverb : ∀ c ∈ verb, isQuiet c = true ∧ c ≠ '?')
    (h : insertOr verb text = some rest) : Skips (15 + verb.length) text rest := by
  obtain ⟨text₁, hinsert, h⟩ := Option.bind_eq_some_iff.mp h
  obtain ⟨text₂, hspaces, h⟩ := Option.bind_eq_some_iff.mp h
  obtain ⟨text₃, hor, h⟩ := Option.bind_eq_some_iff.mp h
  obtain ⟨text₄, hspaces', h⟩ := Option.bind_eq_some_iff.mp h
  obtain ⟨text₅, hafter, h⟩ := Option.bind_eq_some_iff.mp h
  obtain ⟨text₆, hspaces'', hinto⟩ := Option.bind_eq_some_iff.mp h
  have hfront := (Skips.after hinsert (quiet_of_all rfl)).trans ((Skips.someSpaces hspaces).trans (.after hor (quiet_of_all rfl)))
  have hback := (Skips.after hafter hverb).trans ((Skips.someSpaces hspaces'').trans (.after hinto (quiet_of_all rfl)))
  obtain ⟨skipped, htext, hskipped, hlength⟩ := hfront.trans ((Skips.someSpaces hspaces').trans hback)
  refine ⟨skipped, htext, hskipped, le_trans ?_ hlength⟩
  change 15 + verb.length ≤ 6 + (1 + 2) + (1 + (verb.length + (1 + 4)))
  omega

theorem skips_epssHistory [Alnums] {text rest : Text} (h : epssHistory text = some rest) : Skips 13 text rest := by
  obtain ⟨text₁, hspaces, h⟩ := Option.bind_eq_some_iff.mp h
  obtain ⟨text₂, hname, h⟩ := Option.bind_eq_some_iff.mp h
  split_ifs at h
  obtain rfl := Option.some.inj h
  exact (Skips.someSpaces hspaces).trans (.after hname (quiet_of_all rfl))

/-- A pattern of quiet text with a shorter replacement. -/
theorem shortens_unbounded {pattern : Text → Option (Text × Text)} {n : ℕ} {replacement : Text}
    (hpattern : ∀ text found, pattern text = some found → found.1 = replacement ∧ Skips n text found.2)
    (hquiet : ∀ c ∈ replacement, isQuiet c = true ∧ c ≠ '?') (hlength : replacement.length < n) :
    Shortens (unbounded pattern) ∧ Respects (unbounded pattern) Same := by
  have hmatch : ∀ text replacement' length, measured text (pattern text) = some (replacement', length) →
      (∀ c ∈ text.take length, isQuiet c = true ∧ c ≠ '?') ∧ replacement' = replacement ∧
        replacement.length < (text.take length).length ∧ 0 < length := by
    intro text replacement' length h
    obtain ⟨found, hfound, heq⟩ := Option.map_eq_some_iff.mp h
    obtain ⟨rfl, rfl⟩ := Prod.mk.inj heq
    obtain ⟨hreplacement, skipped, htext, hskipped, hle⟩ := hpattern text found hfound
    have hdrop : text.length - found.2.length = skipped.length := by
      rw [htext, List.length_append, Nat.add_sub_cancel]
    rw [hdrop, htext, List.take_left]
    exact ⟨hskipped, hreplacement, hlength.trans_le hle, by omega⟩
  refine ⟨fun _ text replacement' length h ↦ ?_, fun _ text replacement' length h ↦ ?_⟩
  · obtain ⟨hfound, rfl, hlt, -⟩ := hmatch text replacement' length h
    exact ⟨fun c hc ↦ (hfound c hc).1, fun c hc ↦ (hquiet c hc).1, hlt⟩
  · obtain ⟨hfound, rfl, -, hpos⟩ := hmatch text replacement' length h
    exact ⟨hpos, same_of_inert (inert_quiet hfound) (inert_quiet hquiet)⟩

section
variable [Alnums]

theorem shortens_insertOrReplace :
    Shortens (unbounded insertOrReplace) ∧ Respects (unbounded insertOrReplace) Same := by
  refine @shortens_unbounded _ 35 "INSERT INTO epss_history".toList ?_ (quiet_of_all rfl) (by decide)
  intro text found h
  obtain ⟨text₁, hinsert, h⟩ := Option.bind_eq_some_iff.mp h
  obtain ⟨text₂, hname, heq⟩ := Option.bind_eq_some_iff.mp h
  obtain rfl := Option.some.inj heq
  exact ⟨rfl, (skips_insertOr (quiet_of_all rfl) hinsert).trans (skips_epssHistory hname)⟩

theorem shortens_insertOrIgnore : Shortens (unbounded insertOrIgnore) ∧ Respects (unbounded insertOrIgnore) Same := by
  refine @shortens_unbounded _ 21 "INSERT INTO".toList ?_ (quiet_of_all rfl) (by decide)
  intro text found h
  obtain ⟨text₁, hinsert, heq⟩ := Option.bind_eq_some_iff.mp h
  obtain rfl := Option.some.inj heq
  exact ⟨rfl, skips_insertOr (quiet_of_all rfl) hinsert⟩

end

end Briefr.Db.PgAdapt
