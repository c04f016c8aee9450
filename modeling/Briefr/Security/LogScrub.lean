import Briefr.Python.Urllib
import Briefr.Security.Redact

namespace Briefr.Security.Redact

open Briefr.Python Briefr.Library.Rewriting Briefr.Library.Substitution

section
variable [Interp]

/-- `text.split()` -/
def words (text : Text) : List Text := (text.splitOnP isSpace).filter fun w ↦ !w.isEmpty

/-- No character of it is a space. -/
def Solid (text : Text) : Prop := ∀ c ∈ text, isSpace c = false

/-- A text that goes on behind a word. -/
def Parted (text : Text) : Prop := ∀ c, text.head? = some c → isSpace c = true

theorem words_space {c : Char} (hc : isSpace c = true) (text : Text) : words (c :: text) = words text := by
  rw [words, List.splitOnP_cons_eq_if_modifyHead, if_pos hc]
  rfl

theorem words_append {word rest : Text} (hword : Solid word) (hne : word ≠ []) (hrest : Parted rest) :
    words (word ++ rest) = word :: words rest := by
  have hkeep : (!word.isEmpty) = true := by rwa [Bool.not_eq_true', List.isEmpty_eq_false_iff]
  cases rest with
  | nil =>
    rw [List.append_nil, words, List.splitOnP_eq_singleton hword]
    exact List.filter_cons_of_pos (p := fun w : Text ↦ !w.isEmpty) hkeep
  | cons c rest =>
    have hc : isSpace c = true := hrest c rfl
    rw [words_space hc, words, List.splitOnP_append_cons_of_forall_mem hword c hc,
      List.filter_cons_of_pos (p := fun w : Text ↦ !w.isEmpty) hkeep]
    rfl

theorem words_spaces {spaces : Text} (hspaces : ∀ c ∈ spaces, isSpace c = true) (text : Text) :
    words (spaces ++ text) = words text := by
  induction spaces with
  | nil => rfl
  | cons c spaces ih =>
    obtain ⟨hc, hspaces⟩ := List.forall_mem_cons.mp hspaces
    rw [List.cons_append, words_space hc, ih hspaces]

/-- The word at the start of a text. -/
theorem exists_word {c : Char} {text : Text} (hc : isSpace c = false) :
    ∃ w rest, c :: text = w ++ rest ∧ w ≠ [] ∧ Solid w ∧ Parted rest := by
  have hfront : (c :: text).takeWhile (fun d ↦ !isSpace d) = c :: text.takeWhile fun d ↦ !isSpace d :=
    List.takeWhile_cons_of_pos (by simp [hc])
  refine ⟨_, _, (List.takeWhile_append_dropWhile (p := fun d ↦ !isSpace d) (l := c :: text)).symm,
    hfront ▸ List.cons_ne_nil _ _, fun d hd ↦ ?_, fun d hd ↦ ?_⟩
  · exact (Bool.not_eq_true' _).mp (List.mem_takeWhile_imp (p := fun d ↦ !isSpace d) hd)
  · have hstop := List.head?_dropWhile_not (fun d ↦ !isSpace d) (c :: text)
    rw [hd] at hstop
    exact (Bool.not_eq_false' _).mp hstop

/-- From the left, a space or a word at a time. -/
theorem words_induction {motive : Text → Prop} (nil : motive [])
    (space : ∀ c text, isSpace c = true → motive text → motive (c :: text))
    (word : ∀ w text, w ≠ [] → Solid w → Parted text → motive text → motive (w ++ text)) (text : Text) : motive text := by
  have hbound : ∀ n, ∀ text : Text, text.length ≤ n → motive text := by
    intro n
    induction n with
    | zero =>
      intro text hlength
      obtain rfl := List.length_eq_zero_iff.mp (Nat.le_zero.mp hlength)
      exact nil
    | succ n ih =>
      intro text hlength
      cases text with
      | nil => exact nil
      | cons c text =>
        by_cases hc : isSpace c = true
        · exact space c text hc (ih text (Nat.le_of_succ_le_succ hlength))
        · obtain ⟨w, rest, heq, hne, hsolid, hparted⟩ := @exists_word _ c text (Bool.eq_false_iff.mpr hc)
          have hcount := congrArg List.length heq
          rw [List.length_append] at hcount
          have hpos := List.length_pos_of_ne_nil hne
          rw [heq]
          exact word w rest hne hsolid hparted (ih rest (by omega))
  exact hbound text.length text le_rfl

/-- What has no space in it is part of a text if it is part of a word. -/
theorem infix_iff_words {w : Text} (hw : Solid w) (hne : w ≠ []) (text : Text) :
    w <:+: text ↔ ∃ v ∈ words text, w <:+: v := by
  induction text using words_induction with
  | nil =>
    refine iff_of_false (fun h ↦ hne (List.infix_nil.mp h)) ?_
    rintro ⟨v, hv, -⟩
    cases hv
  | space c text hc ih =>
    rw [words_space hc, ← ih, List.infix_cons_iff]
    refine or_iff_right fun hstart ↦ ?_
    cases w with
    | nil => exact hne rfl
    | cons d w =>
      obtain ⟨rfl, -⟩ := List.cons_prefix_cons.mp hstart
      exact absurd hc (Bool.eq_false_iff.mp (hw d (List.mem_cons_self ..)))
  | word v text hv hsolid hparted ih =>
    have hsplit : w <:+: v ++ text ↔ w <:+: v ∨ w <:+: text := by
      cases text with
      | nil => rw [List.append_nil, List.infix_nil, or_iff_left hne]
      | cons c text =>
        have hc : isSpace c = true := hparted c rfl
        have hcw : c ∉ w := fun h ↦ Bool.eq_false_iff.mp (hw c h) hc
        have htext : w <:+: c :: text ↔ w <:+: [] ∨ w <:+: text := @infix_append_cons_iff _ w [] text c hcw
        rw [infix_append_cons_iff hcw, htext, List.infix_nil, or_iff_right hne]
    rw [words_append hsolid hv hparted, hsplit, ih]
    simp only [List.mem_cons, exists_eq_or_imp]

end

theorem takeWhile_ne_nil_iff {p : Char → Bool} {text : Text} : text.takeWhile p ≠ [] ↔ text.head?.any p = true := by
  cases text with
  | nil => exact iff_of_false (fun h ↦ h rfl) Bool.false_ne_true
  | cons c text =>
    rw [List.head?_cons, Option.any_some, List.takeWhile_cons]
    split
    next hc => exact iff_of_true (List.cons_ne_nil _ _) hc
    next hc => exact iff_of_false (fun h ↦ h rfl) hc

/-- The letters that begin a rewritten text begin the text, where no replacement begins with one of them. -/
theorem begins_rewrite {marker : Text} {matched : Text → Option ℕ} (hproper : Proper matched) {x : Char}
    (hmarker : marker.head? = some x) {word : Word Char} (hx : ∀ symbols ∈ word, x ∉ symbols) {text : Text}
    (h : begins word (rewrite (fixed marker matched) text) = true) :
    begins word text = true ∧
      (rewrite (fixed marker matched) text).drop word.length =
        rewrite (fixed marker matched) (text.drop word.length) := by
  induction word generalizing text with
  | nil => exact ⟨begins_nil text, rfl⟩
  | cons symbols word ih =>
    obtain ⟨hsymbols, hword⟩ := List.forall_mem_cons.mp hx
    obtain ⟨c, out, hout, hc, hrest⟩ := begins_cons_iff.mp h
    have hne : c ≠ x := fun heq ↦ hsymbols (heq ▸ hc)
    obtain ⟨rest, rfl, -, rfl⟩ := rewrite_eq_cons hproper hmarker hne hout
    obtain ⟨hbegins, hdrop⟩ := ih hword hrest
    refine ⟨begins_cons_iff.mpr ⟨c, rest, rfl, hc, hbegins⟩, ?_⟩
    rw [hout]
    exact hdrop

theorem not_begins_plain {text : Text} (h : begins (httpLetters true) text = true) :
    begins (httpLetters false) text = false :=
  not_begins_of_apart (by decide) h

theorem head_urlMarker : "[redacted-url]".toList.head? = some '[' := rfl

theorem head_tokenMarker : "Bearer [redacted]".toList.head? = some 'B' := rfl

section
variable [Interp]

theorem logBearer_ne_none_iff {text : Text} :
    logBearer text ≠ none ↔ begins bearerLetters text = true ∧
      (text.drop bearerLetters.length).takeWhile isSpace ≠ [] ∧
        ((text.drop bearerLetters.length).dropWhile isSpace).head?.any isToken = true := by
  rw [logBearer, ← takeWhile_ne_nil_iff]
  split
  next h => exact iff_of_true (Option.some_ne_none _) h
  next h => exact iff_of_false (fun hne ↦ hne rfl) h

theorem logBearer_proper : Proper logBearer := by
  intro text n h
  rw [logBearer] at h
  split at h
  next hmatch =>
    obtain rfl := Option.some.inj h
    have hletters := length_le_of_begins hmatch.1
    have hrest := List.takeWhile_append_dropWhile (p := isSpace) (l := text.drop bearerLetters.length)
    have hlength := congrArg List.length hrest
    rw [List.length_append, List.length_drop] at hlength
    have htoken := (List.takeWhile_prefix isToken (l := (text.drop bearerLetters.length).dropWhile isSpace)).length_le
    exact ⟨Nat.add_pos_left (by decide) _, by omega⟩
  next => cases h

theorem head_of_logBearer {c : Char} {rest : Text} (h : logBearer (c :: rest) ≠ none) : c = 'b' ∨ c = 'B' := by
  obtain ⟨hbegins, -⟩ := logBearer_ne_none_iff.mp h
  obtain ⟨d, rest', heq, hd, -⟩ := begins_cons_iff.mp hbegins
  obtain ⟨rfl, -⟩ := List.cons.inj heq
  simpa using hd

theorem logUrl_ne_none_iff {text : Text} :
    logUrl text ≠ none ↔ ∃ secure, begins (httpLetters secure) text = true ∧
      (text.drop (httpLetters secure).length).head?.any isUrlChar = true := by
  simp only [← takeWhile_ne_nil_iff]
  rw [logUrl, Bool.exists_bool]
  cases hsecure : begins (httpLetters true) text with
  | true =>
    have hfind : [httpLetters true, httpLetters false].find? (fun word ↦ begins word text) = some (httpLetters true) :=
      List.find?_cons_of_pos hsecure
    rw [hfind, not_begins_plain hsecure]
    dsimp only
    split
    next h => exact iff_of_true (Option.some_ne_none _) (.inr ⟨rfl, h⟩)
    next h => exact iff_of_false (fun hne ↦ hne rfl) (by simpa using h)
  | false =>
    cases hplain : begins (httpLetters false) text with
    | true =>
      have hfind : [httpLetters true, httpLetters false].find? (fun word ↦ begins word text) = some (httpLetters false) := by
        rw [List.find?_cons_of_neg (by rw [hsecure]; exact Bool.false_ne_true)]
        exact List.find?_cons_of_pos hplain
      rw [hfind]
      dsimp only
      split
      next h => exact iff_of_true (Option.some_ne_none _) (.inl ⟨rfl, h⟩)
      next h => exact iff_of_false (fun hne ↦ hne rfl) (by simpa using h)
    | false =>
      have hfind : [httpLetters true, httpLetters false].find? (fun word ↦ begins word text) = none := by
        rw [List.find?_eq_none]
        simp [hsecure, hplain]
      rw [hfind]
      exact iff_of_false (fun hne ↦ hne rfl) (by simp)

theorem logUrl_proper : Proper logUrl := by
  intro text n h
  rw [logUrl] at h
  split at h
  next word hfind =>
    have hbegins : begins word text = true := List.find?_some (p := fun word ↦ begins word text) hfind
    have hmem := List.mem_of_find?_eq_some hfind
    dsimp only at h
    split at h
    next =>
      obtain rfl := Option.some.inj h
      have hletters := length_le_of_begins hbegins
      have htail := (List.takeWhile_prefix isUrlChar (l := text.drop word.length)).length_le
      rw [List.length_drop] at htail
      have hpos : 0 < word.length := by
        rcases List.mem_pair.mp hmem with rfl | rfl <;> decide
      exact ⟨Nat.add_pos_left hpos _, by omega⟩
    next => cases h
  next => cases h

theorem head_of_logUrl {c : Char} {rest : Text} (h : logUrl (c :: rest) ≠ none) : c = 'h' ∨ c = 'H' := by
  obtain ⟨secure, hbegins, -⟩ := logUrl_ne_none_iff.mp h
  have hcons : ∃ word, httpLetters secure = ['h', 'H'] :: word := ⟨_, rfl⟩
  obtain ⟨word, hword⟩ := hcons
  rw [hword] at hbegins
  obtain ⟨d, rest', heq, hd, -⟩ := begins_cons_iff.mp hbegins
  obtain ⟨rfl, -⟩ := List.cons.inj heq
  simpa using hd

theorem isSpace_bracket : isSpace '[' = false := Interp.isSpace_ascii '[' (by decide)

/-- No URL is left, and none comes of the rewriting. -/
theorem logUrl_hideUrls {text s : Text} (h : s <:+ hideUrls text) : logUrl s = none := by
  obtain ⟨rest, front, -, hfront, rfl⟩ := suffix_rewrite logUrl_proper h
  by_contra hmatch
  cases front with
  | cons d front =>
    have hd : d ∈ "[redacted-url]".toList := hfront.subset (List.mem_cons_self ..)
    rcases head_of_logUrl hmatch with rfl | rfl
    · exact absurd hd (by decide)
    · exact absurd hd (by decide)
  | nil =>
    rw [List.nil_append] at hmatch
    obtain ⟨secure, hbegins, htail⟩ := logUrl_ne_none_iff.mp hmatch
    have hletters : ∀ symbols ∈ httpLetters secure, '[' ∉ symbols := by cases secure <;> decide
    obtain ⟨hrest, hdrop⟩ := begins_rewrite logUrl_proper head_urlMarker hletters hbegins
    have hsome : logUrl rest ≠ none := by
      refine logUrl_ne_none_iff.mpr ⟨secure, hrest, ?_⟩
      rw [hdrop] at htail
      rcases head?_rewrite logUrl_proper head_urlMarker (rest.drop (httpLetters secure).length)
        with ⟨-, hhead⟩ | ⟨⟨n, hn⟩, -⟩
      · rwa [hhead] at htail
      · obtain ⟨c, r, hr⟩ := List.exists_cons_of_ne_nil
          (List.ne_nil_of_length_pos ((logUrl_proper _ _ hn).1.trans_le (logUrl_proper _ _ hn).2))
        rw [hr] at hn ⊢
        rcases head_of_logUrl (Option.ne_none_iff_exists'.mpr ⟨n, hn⟩) with rfl | rfl
        · simp [isUrlChar, Interp.isSpace_ascii 'h' (by decide), isAsciiSpace]
        · simp [isUrlChar, Interp.isSpace_ascii 'H' (by decide), isAsciiSpace]
    obtain ⟨n, hn⟩ := Option.ne_none_iff_exists'.mp hsome
    rw [rewrite_replace logUrl_proper hn] at hmatch
    rcases head_of_logUrl hmatch with heq | heq
    · exact absurd heq (by decide)
    · exact absurd heq (by decide)

theorem not_space_of_logUrl {c : Char} {rest : Text} (hc : isSpace c = true) : logUrl (c :: rest) = none := by
  by_contra hmatch
  rcases head_of_logUrl hmatch with rfl | rfl
  · exact absurd ((Interp.isSpace_ascii 'h' (by decide)).symm.trans hc) (by decide)
  · exact absurd ((Interp.isSpace_ascii 'H' (by decide)).symm.trans hc) (by decide)

theorem not_space_of_logBearer {c : Char} {rest : Text} (hc : isSpace c = true) : logBearer (c :: rest) = none := by
  by_contra hmatch
  rcases head_of_logBearer hmatch with rfl | rfl
  · exact absurd ((Interp.isSpace_ascii 'b' (by decide)).symm.trans hc) (by decide)
  · exact absurd ((Interp.isSpace_ascii 'B' (by decide)).symm.trans hc) (by decide)

/-- Taking out URLs exposes no token. -/
theorem logBearer_hideUrls {text : Text} (htext : ∀ t, t <:+ text → logBearer t = none) {s : Text}
    (h : s <:+ hideUrls text) : logBearer s = none := by
  obtain ⟨rest, front, hrest, hfront, rfl⟩ := suffix_rewrite logUrl_proper h
  by_contra hmatch
  cases front with
  | cons d front =>
    have hd : d ∈ "[redacted-url]".toList := hfront.subset (List.mem_cons_self ..)
    rcases head_of_logBearer hmatch with rfl | rfl
    · exact absurd hd (by decide)
    · exact absurd hd (by decide)
  | nil =>
    rw [List.nil_append] at hmatch
    obtain ⟨hbegins, hspaces, htoken⟩ := logBearer_ne_none_iff.mp hmatch
    obtain ⟨hletters, hdrop⟩ := begins_rewrite logUrl_proper head_urlMarker (by decide) hbegins
    rw [hdrop] at hspaces htoken
    obtain ⟨htake, hwhile⟩ := span_rewrite logUrl_proper head_urlMarker isSpace_bracket
      (fun _ _ hc ↦ not_space_of_logUrl hc) (rest.drop bearerLetters.length)
    rw [htake] at hspaces
    rw [hwhile] at htoken
    rcases head?_rewrite logUrl_proper head_urlMarker
      ((rest.drop bearerLetters.length).dropWhile isSpace) with ⟨-, hhead⟩ | ⟨-, hhead⟩
    · rw [hhead] at htoken
      exact logBearer_ne_none_iff.mpr ⟨hletters, hspaces, htoken⟩ (htext rest hrest)
    · rw [hhead] at htoken
      exact absurd htoken (by decide)

theorem logBearer_marker (rest : Text) : logBearer ("Bearer [redacted]".toList ++ rest) = none := by
  by_contra hmatch
  obtain ⟨-, -, htoken⟩ := logBearer_ne_none_iff.mp hmatch
  have hdrop : ("Bearer [redacted]".toList ++ rest).drop bearerLetters.length = ' ' :: '[' :: ("redacted]".toList ++ rest) := rfl
  have hspace : isSpace ' ' = true := Interp.isSpace_ascii ' ' (by decide)
  rw [hdrop, List.dropWhile_cons_of_pos hspace, List.dropWhile_cons_of_neg (Bool.eq_false_iff.mp isSpace_bracket)] at htoken
  exact absurd (show isToken '[' = true from htoken) (by decide)

/-- No token is left, and none comes of the rewriting: what stands for one is no token itself. -/
theorem logBearer_hideTokens {text s : Text} (h : s <:+ hideTokens text) : logBearer s = none := by
  obtain ⟨rest, front, -, hfront, rfl⟩ := suffix_rewrite logBearer_proper h
  have hmarker : ∀ front rest, front <:+ "Bearer [redacted]".toList → front ≠ [] → logBearer (front ++ rest) = none := by
    intro front rest hfront hne
    have hends : ∀ front ∈ "Bearer [redacted]".toList.tails, front.head? = some 'b' ∨ front.head? = some 'B' →
        front = "Bearer [redacted]".toList := by decide
    by_contra hmatch
    obtain ⟨d, front, rfl⟩ := List.exists_cons_of_ne_nil hne
    have hhead := head_of_logBearer hmatch
    have heq := hends (d :: front) ((List.mem_tails _ _).mpr hfront) (by simpa using hhead)
    rw [heq] at hmatch
    exact hmatch (logBearer_marker rest)
  by_cases hnil : front = []
  · subst hnil
    rw [List.nil_append]
    cases hrest : logBearer rest with
    | some n =>
      rw [rewrite_replace logBearer_proper hrest]
      exact hmarker _ _ List.suffix_rfl (by decide)
    | none =>
      cases rest with
      | nil => exact hrest
      | cons c rest =>
        rw [rewrite_keep hrest]
        by_contra hmatch
        obtain ⟨hbegins, hspaces, htoken⟩ := logBearer_ne_none_iff.mp hmatch
        obtain ⟨d, out, heq, hd, htail⟩ := begins_cons_iff.mp hbegins
        obtain ⟨rfl, rfl⟩ := List.cons.inj heq
        obtain ⟨hletters, hdrop⟩ := begins_rewrite logBearer_proper head_tokenMarker (by decide) htail
        refine logBearer_ne_none_iff.mpr ⟨begins_cons_iff.mpr ⟨c, rest, rfl, hd, hletters⟩, ?_⟩ hrest
        have hout : (c :: rewrite (fixed "Bearer [redacted]".toList logBearer) rest).drop bearerLetters.length =
            rewrite (fixed "Bearer [redacted]".toList logBearer) ((c :: rest).drop bearerLetters.length) := hdrop
        obtain ⟨htake, hwhile⟩ := span_rewrite logBearer_proper head_tokenMarker
          (Interp.isSpace_ascii 'B' (by decide)) (fun _ _ hc ↦ not_space_of_logBearer hc)
          ((c :: rest).drop bearerLetters.length)
        rw [hout, htake] at hspaces
        rw [hout, hwhile] at htoken
        refine ⟨hspaces, ?_⟩
        rcases head?_rewrite logBearer_proper head_tokenMarker
          (((c :: rest).drop bearerLetters.length).dropWhile isSpace) with ⟨-, hhead⟩ | ⟨⟨n, hn⟩, -⟩
        · rwa [hhead] at htoken
        · obtain ⟨d, r, hr⟩ := List.exists_cons_of_ne_nil
            (List.ne_nil_of_length_pos ((logBearer_proper _ _ hn).1.trans_le (logBearer_proper _ _ hn).2))
          rw [hr] at hn ⊢
          rcases head_of_logBearer (Option.ne_none_iff_exists'.mpr ⟨n, hn⟩) with rfl | rfl
          · rfl
          · rfl
  · exact hmarker _ _ hfront hnil

theorem begins_parted {word : Word Char} (hword : ∀ symbols ∈ word, Solid symbols) {rest : Text} (hrest : Parted rest)
    (s : Text) : begins word (s ++ rest) = begins word s := by
  induction word generalizing s with
  | nil => rw [begins_nil, begins_nil]
  | cons symbols word ih =>
    obtain ⟨hsymbols, hword⟩ := List.forall_mem_cons.mp hword
    cases s with
    | cons c s => rw [List.cons_append, begins, begins, ih hword]
    | nil =>
      cases rest with
      | nil => rfl
      | cons c rest =>
        have hc : c ∉ symbols := fun h ↦ Bool.eq_false_iff.mp (hsymbols c h) (hrest c rfl)
        rw [List.nil_append, begins, begins, decide_eq_false hc]
        rfl

theorem takeWhile_parted {p : Char → Bool} (hp : ∀ c, isSpace c = true → p c = false) {rest : Text} (hrest : Parted rest)
    (s : Text) : (s ++ rest).takeWhile p = s.takeWhile p ∧ (s ++ rest).dropWhile p = s.dropWhile p ++ rest := by
  induction s with
  | nil =>
    cases rest with
    | nil => exact ⟨rfl, rfl⟩
    | cons c rest =>
      have hc := Bool.eq_false_iff.mp (hp c (hrest c rfl))
      exact ⟨List.takeWhile_cons_of_neg hc, List.dropWhile_cons_of_neg hc⟩
  | cons c s ih =>
    by_cases hc : p c = true
    · rw [List.cons_append, List.takeWhile_cons_of_pos hc, List.takeWhile_cons_of_pos hc, List.dropWhile_cons_of_pos hc,
        List.dropWhile_cons_of_pos hc, ih.1, ih.2]
      exact ⟨rfl, rfl⟩
    · rw [List.cons_append, List.takeWhile_cons_of_neg hc, List.takeWhile_cons_of_neg hc, List.dropWhile_cons_of_neg hc,
        List.dropWhile_cons_of_neg hc]
      exact ⟨rfl, rfl⟩

theorem solid_of_all {text : Text} (h : (text.all fun c ↦ decide (c.toNat < 128) && !isAsciiSpace c) = true) :
    Solid text := by
  intro c hc
  obtain ⟨hascii, hspace⟩ := Bool.and_eq_true_iff.mp (List.all_eq_true.mp h c hc)
  rw [Interp.isSpace_ascii c (of_decide_eq_true hascii)]
  exact (Bool.not_eq_true' _).mp hspace

theorem isUrlChar_space (c : Char) (hc : isSpace c = true) : isUrlChar c = false := by
  rw [isUrlChar, hc]
  rfl

end

section
variable [CaseTwins]

theorem solid_httpLetters (secure : Bool) : ∀ symbols ∈ httpLetters secure, Solid symbols := by
  have hlongS : isSpace longS = false := CaseTwins.twin_not_space longS (by decide)
  have hsecure : Solid ['s', 'S', longS] := by
    intro c hc
    rcases List.mem_cons.mp hc with rfl | hc
    · exact Interp.isSpace_ascii 's' (by decide)
    · rcases List.mem_pair.mp hc with rfl | rfl
      · exact Interp.isSpace_ascii 'S' (by decide)
      · exact hlongS
  have hother : ∀ symbols ∈ ["hH".toList, "tT".toList, "tT".toList, "pP".toList, [':'], ['/'], ['/']], Solid symbols := by
    have hall : (["hH".toList, "tT".toList, "tT".toList, "pP".toList, [':'], ['/'], ['/']].all fun symbols ↦
        symbols.all fun c ↦ decide (c.toNat < 128) && !isAsciiSpace c) = true := rfl
    exact fun symbols h ↦ solid_of_all (List.all_eq_true.mp hall symbols h)
  intro symbols h
  cases secure with
  | false => exact hother symbols h
  | true =>
    have hsplit : symbols = ['s', 'S', longS] ∨
        symbols ∈ ["hH".toList, "tT".toList, "tT".toList, "pP".toList, [':'], ['/'], ['/']] := by
      simp only [httpLetters, List.mem_append, List.mem_cons, List.not_mem_nil, or_false, ite_true] at h ⊢
      tauto
    rcases hsplit with rfl | h
    · exact hsecure
    · exact hother symbols h

theorem logUrl_parted {rest : Text} (hrest : Parted rest) (s : Text) : logUrl (s ++ rest) = logUrl s := by
  have hfind : [httpLetters true, httpLetters false].find? (fun word ↦ begins word (s ++ rest)) =
      [httpLetters true, httpLetters false].find? fun word ↦ begins word s := by
    simp only [List.find?, begins_parted (solid_httpLetters true) hrest s, begins_parted (solid_httpLetters false) hrest s]
  rw [logUrl, logUrl, hfind]
  split
  next word h =>
    have hlength := length_le_of_begins (List.find?_some (p := fun word ↦ begins word s) h)
    rw [List.drop_append_of_le_length hlength, (takeWhile_parted isUrlChar_space hrest _).1]
  next => rfl

theorem hideUrls_append {word rest : Text} (hrest : Parted rest) : hideUrls (word ++ rest) = hideUrls word ++ hideUrls rest :=
  rewrite_append logUrl_proper fun s _ _ ↦ logUrl_parted hrest s

theorem parted_hideUrls {text : Text} (h : Parted text) : Parted (hideUrls text) := by
  cases text with
  | nil => exact h
  | cons c text =>
    have hc : isSpace c = true := h c rfl
    have hkeep : hideUrls (c :: text) = c :: hideUrls text := rewrite_keep (not_space_of_logUrl hc)
    rw [hkeep]
    exact fun d hd ↦ Option.some.inj hd ▸ hc

theorem solid_hideUrls {word : Text} (h : Solid word) : Solid (hideUrls word) := by
  intro c hc
  rcases mem_rewrite logUrl_proper hc with hc | hc
  · exact h c hc
  · have hmarker : Solid "[redacted-url]".toList := solid_of_all rfl
    exact hmarker c hc

theorem hideUrls_ne_nil {word : Text} (h : word ≠ []) : hideUrls word ≠ [] := by
  intro hnil
  rcases head?_rewrite logUrl_proper head_urlMarker word with ⟨-, hhead⟩ | ⟨-, hhead⟩
  · rw [show rewrite (fixed "[redacted-url]".toList logUrl) word = [] from hnil] at hhead
    exact h (List.head?_eq_none_iff.mp hhead.symm)
  · rw [show rewrite (fixed "[redacted-url]".toList logUrl) word = [] from hnil] at hhead
    cases hhead

theorem words_hideUrls (text : Text) : words (hideUrls text) = (words text).map hideUrls := by
  induction text using words_induction with
  | nil => rfl
  | space c text hc ih =>
    have hkeep : hideUrls (c :: text) = c :: hideUrls text := rewrite_keep (not_space_of_logUrl hc)
    rw [hkeep, words_space hc, words_space hc, ih]
  | word w text hne hsolid hparted ih =>
    rw [hideUrls_append hparted, words_append (solid_hideUrls hsolid) (hideUrls_ne_nil hne) (parted_hideUrls hparted),
      words_append hsolid hne hparted, ih, List.map_cons]

theorem isToken_space (c : Char) (hc : isSpace c = true) : isToken c = false := by
  by_cases hascii : c.toNat < 128
  · rw [Interp.isSpace_ascii c hascii] at hc
    have hall : ∀ n < 128, isAsciiSpace (Char.ofNat n) = true → isToken (Char.ofNat n) = false := by decide
    rw [← Char.ofNat_toNat c] at hc ⊢
    exact hall c.toNat hascii hc
  · have halnum : c.isAlphanum = false := by
      rw [Bool.eq_false_iff]
      exact fun h ↦ hascii (Urllib.schemeChar_bounds (by rw [Urllib.schemeChar, h]; rfl)).2
    have hmarks : c ∉ "._~+/=-".toList := fun h ↦ hascii (by
      have hall : ("._~+/=-".toList.all fun c ↦ decide (c.toNat < 128)) = true := rfl
      exact of_decide_eq_true (List.all_eq_true.mp hall c h))
    have htwins : c ∉ caseTwins := fun h ↦ Bool.eq_false_iff.mp (CaseTwins.twin_not_space c h) hc
    rw [isToken, halnum, decide_eq_false hmarks, decide_eq_false htwins]
    rfl

theorem solid_bearerLetters : ∀ symbols ∈ bearerLetters, Solid symbols := by
  have hall : (bearerLetters.all fun symbols ↦ symbols.all fun c ↦ decide (c.toNat < 128) && !isAsciiSpace c) = true := rfl
  exact fun symbols h ↦ solid_of_all (List.all_eq_true.mp hall symbols h)

/-- Only the last letters of a word can be a `bearer` with a token behind it. -/
theorem logBearer_parted {s rest : Text} (hs : Solid s) (hrest : Parted rest) :
    logBearer (s ++ rest) ≠ none ↔ s.length = bearerLetters.length ∧ begins bearerLetters s = true ∧
      rest.takeWhile isSpace ≠ [] ∧ (rest.dropWhile isSpace).head?.any isToken = true := by
  rw [logBearer_ne_none_iff, begins_parted solid_bearerLetters hrest]
  by_cases hlength : s.length = bearerLetters.length
  · have hdrop : (s ++ rest).drop bearerLetters.length = rest := by rw [← hlength, List.drop_left]
    rw [hdrop, and_iff_right hlength]
  · refine iff_of_false ?_ fun h ↦ hlength h.1
    rintro ⟨hbegins, hspaces, -⟩
    have hlt := lt_of_le_of_ne (length_le_of_begins hbegins) (Ne.symm hlength)
    rw [List.drop_append_of_le_length hlt.le, takeWhile_ne_nil_iff] at hspaces
    obtain ⟨c, hc⟩ : ∃ c, (s.drop bearerLetters.length).head? = some c := by
      rw [List.head?_drop]
      exact ⟨_, List.getElem?_eq_getElem hlt⟩
    rw [List.head?_append, hc, Option.some_or, Option.any_some,
      hs c (List.mem_of_mem_drop (List.mem_of_head? hc))] at hspaces
    exact Bool.false_ne_true hspaces

/-- Whether a word ends with `bearer`. -/
def endsBearer (w : Text) : Bool := begins bearerLetters (w.drop (w.length - bearerLetters.length))

/-- The words that are shown, from the word on of which `left` is left behind what stands for its token: a token goes if
the word before it ends with `bearer`. -/
def shownFrom (hidden left : Text) : List Text → List Text
  | [] => [hidden ++ left]
  | w :: ws =>
    if endsBearer left = true ∧ w.head?.any isToken = true then
      (hidden ++ left.take (left.length - bearerLetters.length) ++ "Bearer".toList) ::
        shownFrom "[redacted]".toList (w.dropWhile isToken) ws
    else (hidden ++ left) :: shownFrom [] w ws

def shownWords (text : Text) : List Text :=
  match words text with
  | [] => []
  | w :: ws => (shownFrom [] w ws).map hideUrls

theorem solid_append {a b : Text} (ha : Solid a) (hb : Solid b) : Solid (a ++ b) :=
  fun c hc ↦ (List.mem_append.mp hc).elim (ha c) (hb c)

theorem Solid.suffix {a b : Text} (h : Solid b) (hab : a <:+ b) : Solid a := fun c hc ↦ h c (hab.subset hc)

theorem parted_spaces {spaces : Text} (hspaces : ∀ c ∈ spaces, isSpace c = true) (hne : spaces ≠ []) (rest : Text) :
    Parted (spaces ++ rest) := by
  obtain ⟨c, spaces, rfl⟩ := List.exists_cons_of_ne_nil hne
  intro d hd
  obtain rfl := Option.some.inj hd
  exact hspaces c (List.mem_cons_self ..)

/-- Nothing is taken out of the rest of a word unless it ends with `bearer` and a token follows. -/
theorem hideTokens_kept {left rest : Text} (hleft : Solid left) (hrest : Parted rest)
    (h : ¬(endsBearer left = true ∧ (rest.dropWhile isSpace).head?.any isToken = true)) :
    hideTokens (left ++ rest) = left ++ (rest.takeWhile isSpace ++ hideTokens (rest.dropWhile isSpace)) := by
  have hfront : hideTokens (left ++ rest) = left ++ hideTokens rest := by
    refine rewrite_append_of_none fun s hs _ ↦ ?_
    by_contra hmatch
    obtain ⟨hlength, hbegins, -, htoken⟩ := (logBearer_parted (hleft.suffix hs) hrest).mp hmatch
    refine h ⟨?_, htoken⟩
    rwa [endsBearer, ← hlength, ← List.suffix_iff_eq_drop.mp hs]
  have hspaces : hideTokens (rest.takeWhile isSpace ++ rest.dropWhile isSpace) =
      rest.takeWhile isSpace ++ hideTokens (rest.dropWhile isSpace) := by
    refine rewrite_append_of_none fun s hs hne ↦ ?_
    obtain ⟨c, s, rfl⟩ := List.exists_cons_of_ne_nil hne
    exact not_space_of_logBearer (List.mem_takeWhile_imp (p := isSpace) (hs.subset (List.mem_cons_self ..)))
  rw [List.takeWhile_append_dropWhile] at hspaces
  rw [hfront, hspaces]

/-- A `bearer` at the end of a word and the token at the start of the next one. -/
theorem hideTokens_taken {left spaces w rest : Text} (hleft : Solid left) (hends : endsBearer left = true)
    (hspaces : ∀ c ∈ spaces, isSpace c = true) (hne : spaces ≠ []) (hw : Solid w) (htoken : w.head?.any isToken = true)
    (hrest : Parted rest) :
    hideTokens (left ++ (spaces ++ (w ++ rest))) = left.take (left.length - bearerLetters.length) ++
      ("Bearer [redacted]".toList ++ hideTokens (w.dropWhile isToken ++ rest)) := by
  obtain ⟨b, hb⟩ : ∃ b, b = left.drop (left.length - bearerLetters.length) := ⟨_, rfl⟩
  have hbegins : begins bearerLetters b = true := hb ▸ hends
  have hlength : b.length = bearerLetters.length := by
    have hle := length_le_of_begins hbegins
    have hdrop := congrArg List.length hb
    rw [List.length_drop] at hdrop
    omega
  have hsplit : left = left.take (left.length - bearerLetters.length) ++ b := by rw [hb, List.take_append_drop]
  have hparted : Parted (spaces ++ (w ++ rest)) := parted_spaces hspaces hne _
  have hfront : hideTokens (left.take (left.length - bearerLetters.length) ++ (b ++ (spaces ++ (w ++ rest)))) =
      left.take (left.length - bearerLetters.length) ++ hideTokens (b ++ (spaces ++ (w ++ rest))) := by
    refine rewrite_append_of_none fun s hs hne ↦ ?_
    by_contra hmatch
    obtain ⟨front, hfront⟩ := hs
    have hsuffix : s ++ b <:+ left := by
      rw [hsplit, ← hfront]
      exact ⟨front, (List.append_assoc _ _ _).symm⟩
    rw [← List.append_assoc] at hmatch
    have hcount := ((logBearer_parted (hleft.suffix hsuffix) hparted).mp hmatch).1
    rw [List.length_append, hlength] at hcount
    exact hne (List.length_eq_zero_iff.mp (by omega))
  obtain ⟨d, w', rfl⟩ : ∃ d w', w = d :: w' := by
    cases w with
    | nil => exact absurd htoken Bool.false_ne_true
    | cons d w' => exact ⟨d, w', rfl⟩
  have hd : isSpace d = false := hw d (List.mem_cons_self ..)
  have hmatch : logBearer (b ++ (spaces ++ (d :: w' ++ rest))) =
      some (bearerLetters.length + (spaces.length + ((d :: w').takeWhile isToken).length)) := by
    have hdrop : (b ++ (spaces ++ (d :: w' ++ rest))).drop bearerLetters.length = spaces ++ (d :: w' ++ rest) := by
      rw [← hlength, List.drop_left]
    have hstop : ¬isSpace d = true := Bool.eq_false_iff.mp hd
    have htake : (spaces ++ (d :: w' ++ rest)).takeWhile isSpace = spaces := by
      rw [List.takeWhile_append_of_pos hspaces, List.cons_append, List.takeWhile_cons_of_neg hstop, List.append_nil]
    have hwhile : (spaces ++ (d :: w' ++ rest)).dropWhile isSpace = d :: w' ++ rest := by
      rw [List.dropWhile_append_of_pos hspaces, List.cons_append, List.dropWhile_cons_of_neg hstop]
    have htokens := (takeWhile_parted isToken_space hrest (d :: w')).1
    rw [logBearer, hdrop, htake, hwhile, htokens, begins_parted solid_bearerLetters hparted,
      if_pos ⟨hbegins, hne, takeWhile_ne_nil_iff.mpr htoken⟩]
  have hskip : (b ++ (spaces ++ (d :: w' ++ rest))).drop
      (bearerLetters.length + (spaces.length + ((d :: w').takeWhile isToken).length)) =
      (d :: w').dropWhile isToken ++ rest := by
    rw [← hlength, List.drop_append, List.drop_eq_nil_of_le (Nat.le_add_right _ _), List.nil_append,
      Nat.add_sub_cancel_left, List.drop_append, List.drop_eq_nil_of_le (Nat.le_add_right _ _), List.nil_append,
      Nat.add_sub_cancel_left]
    nth_rewrite 2 [← List.takeWhile_append_dropWhile (p := isToken) (l := d :: w')]
    rw [List.append_assoc, List.drop_left]
  have hreplace : hideTokens (b ++ (spaces ++ (d :: w' ++ rest))) =
      "Bearer [redacted]".toList ++ hideTokens ((d :: w').dropWhile isToken ++ rest) := by
    rw [← hskip]
    exact rewrite_replace logBearer_proper hmatch
  nth_rewrite 1 [hsplit]
  rw [List.append_assoc, hfront, hreplace]

/-- A word that is kept, and the words behind it. -/
theorem words_kept {hidden left text : Text} (hhidden : Solid hidden) (hleft : Solid left) (hne : hidden ++ left ≠ [])
    (hparted : Parted text) (h : ¬(endsBearer left = true ∧ (text.dropWhile isSpace).head?.any isToken = true)) :
    words (hidden ++ hideTokens (left ++ text)) = (hidden ++ left) :: words (hideTokens (text.dropWhile isSpace)) := by
  have hspaces : ∀ c ∈ text.takeWhile isSpace, isSpace c = true := fun c hc ↦ List.mem_takeWhile_imp hc
  have hbehind : Parted (text.takeWhile isSpace ++ hideTokens (text.dropWhile isSpace)) := by
    cases text with
    | nil => exact fun c (hc : none = some c) ↦ by cases hc
    | cons d text =>
      refine parted_spaces hspaces ?_ _
      rw [List.takeWhile_cons_of_pos (hparted d rfl)]
      exact List.cons_ne_nil _ _
  rw [hideTokens_kept hleft hparted h, ← List.append_assoc, words_append (solid_append hhidden hleft) hne hbehind,
    words_spaces hspaces]

/-- A word that loses its `bearer` with the token behind it, and the words behind that. -/
theorem words_taken {hidden left spaces w rest : Text} (hhidden : Solid hidden) (hleft : Solid left)
    (hends : endsBearer left = true) (hspaces : ∀ c ∈ spaces, isSpace c = true) (hne : spaces ≠ []) (hw : Solid w)
    (htoken : w.head?.any isToken = true) (hrest : Parted rest) :
    words (hidden ++ hideTokens (left ++ (spaces ++ (w ++ rest)))) =
      (hidden ++ left.take (left.length - bearerLetters.length) ++ "Bearer".toList) ::
        words ("[redacted]".toList ++ hideTokens (w.dropWhile isToken ++ rest)) := by
  have hmarker : Solid "Bearer".toList := solid_of_all rfl
  have hfront : Solid (hidden ++ left.take (left.length - bearerLetters.length) ++ "Bearer".toList) :=
    solid_append (solid_append hhidden fun d hd ↦ hleft d (List.mem_of_mem_take hd)) hmarker
  have hspace : isSpace ' ' = true := Interp.isSpace_ascii ' ' (by decide)
  have hbehind : Parted (' ' :: ("[redacted]".toList ++ hideTokens (w.dropWhile isToken ++ rest))) :=
    fun d hd ↦ Option.some.inj hd ▸ hspace
  have hfirst := (words_append hfront (List.append_ne_nil_of_right_ne_nil _ (by decide)) hbehind).trans
    (congrArg _ (words_space hspace _))
  rw [hideTokens_taken hleft hends hspaces hne hw htoken hrest, ← hfirst]
  simp only [List.append_assoc]
  rfl

theorem words_shownFrom (text : Text) {hidden left : Text} (hhidden : Solid hidden) (hleft : Solid left)
    (hne : hidden ++ left ≠ []) (hparted : Parted text) :
    words (hidden ++ hideTokens (left ++ text)) = shownFrom hidden left (words text) := by
  have hbound : ∀ n, ∀ text hidden left : Text, text.length ≤ n → Solid hidden → Solid left → hidden ++ left ≠ [] →
      Parted text → words (hidden ++ hideTokens (left ++ text)) = shownFrom hidden left (words text) := by
    intro n
    -- a word of the text is taken off at a time
    induction n with
    | zero =>
      intro text hidden left hlength hhidden hleft hne hparted
      obtain rfl := List.length_eq_zero_iff.mp (Nat.le_zero.mp hlength)
      exact words_kept hhidden hleft hne hparted fun h ↦ Bool.false_ne_true h.2
    | succ n ih =>
      intro text hidden left hlength hhidden hleft hne hparted
      have htext := List.takeWhile_append_dropWhile (p := isSpace) (l := text)
      have hspaces : ∀ c ∈ text.takeWhile isSpace, isSpace c = true := fun c hc ↦ List.mem_takeWhile_imp hc
      have hwords : words text = words (text.dropWhile isSpace) := by
        nth_rewrite 1 [← htext]
        exact words_spaces hspaces _
      have hhead := List.head?_dropWhile_not isSpace text
      cases hrest : text.dropWhile isSpace with
      | nil =>
        have hnot : ¬(endsBearer left = true ∧ (text.dropWhile isSpace).head?.any isToken = true) := by
          rw [hrest]
          exact fun h ↦ Bool.false_ne_true h.2
        rw [words_kept hhidden hleft hne hparted hnot, hwords, hrest]
        rfl
      | cons c rest =>
        rw [hrest] at hhead
        obtain ⟨w, rest', hw, hwne, hsolid, hrest'⟩ := exists_word hhead
        have hspacesne : text.takeWhile isSpace ≠ [] := by
          cases text with
          | nil => cases hrest
          | cons d text => rw [List.takeWhile_cons_of_pos (hparted d rfl)]; exact List.cons_ne_nil _ _
        have hcount := congrArg List.length htext
        rw [hrest, hw, List.length_append, List.length_append] at hcount
        have hpos := List.length_pos_of_ne_nil hwne
        have hlist : words text = w :: words rest' := by rw [hwords, hrest, hw, words_append hsolid hwne hrest']
        rw [hlist, shownFrom]
        split
        next htaken =>
          have hback := ih rest' "[redacted]".toList (w.dropWhile isToken) (by omega) (solid_of_all rfl)
            (fun d hd ↦ hsolid d ((List.dropWhile_sublist _).mem hd))
            (List.append_ne_nil_of_left_ne_nil (by decide) _) hrest'
          have htake := words_taken hhidden hleft htaken.1 hspaces hspacesne hsolid htaken.2 hrest'
          rw [← hw, ← hrest, htext] at htake
          rw [htake, hback]
        next hkept =>
          have hnot : ¬(endsBearer left = true ∧ (text.dropWhile isSpace).head?.any isToken = true) := by
            rintro ⟨hends, htoken⟩
            refine hkept ⟨hends, ?_⟩
            obtain ⟨d, w', rfl⟩ := List.exists_cons_of_ne_nil hwne
            rw [hrest, hw] at htoken
            exact htoken
          have hback := ih rest' [] w (by omega) (fun d hd ↦ by cases hd) hsolid hwne hrest'
          rw [List.nil_append, ← hw] at hback
          rw [words_kept hhidden hleft hne hparted hnot, hrest, hback]
  exact hbound text.length text hidden left le_rfl hhidden hleft hne hparted

/-- The words of the text without its tokens and URLs. -/
theorem words_hidden (text : Text) : words (hideUrls (hideTokens text)) = shownWords text := by
  have htokens : words (hideTokens text) =
      match words text with
      | [] => []
      | w :: ws => shownFrom [] w ws := by
    induction text using words_induction with
    | nil => rfl
    | space c text hc ih =>
      have hkeep : hideTokens (c :: text) = c :: hideTokens text := rewrite_keep (not_space_of_logBearer hc)
      rw [hkeep, words_space hc, words_space hc, ih]
    | word w text hne hsolid hparted ih =>
      rw [words_append hsolid hne hparted]
      exact @words_shownFrom _ text [] w (fun d hd ↦ by cases hd) hsolid hne hparted
  rw [words_hideUrls, htokens, shownWords]
  cases words text with
  | nil => rfl
  | cons w ws => rfl

/-- A scrubbed text has no bearer token, no URL and no word of the text that looks like a secret. -/
structure Scrubbed (text out : Text) : Prop where
  tokens : ∀ t, t <:+ out → logBearer t = none
  urls : ∀ t, t <:+ out → logUrl t = none
  words : ∀ w ∈ words text, looksLikeSecretValue w = true → ¬w <:+: out

theorem strip_solid {w : Text} (h : Solid w) : strip w = w :=
  strip_eq_self_of_ends (fun c hc ↦ h c (List.mem_of_head? hc)) fun c hc ↦ h c (List.mem_of_getLast? hc)

theorem ne_nil_of_secret {w : Text} (h : looksLikeSecretValue w = true) : w ≠ [] := by
  rintro rfl
  have hnil : looksLikeSecretValue [] = false := by
    rw [looksLikeSecretValue, strip_solid fun c hc ↦ by cases hc]
    rfl
  rw [hnil] at h
  exact Bool.false_ne_true h

/-- No part of what stands for a whole text looks like a secret. -/
theorem redacted_not_secret {w : Text} (h : w <:+: "[redacted]".toList) : looksLikeSecretValue w = false := by
  have hmarker : Solid "[redacted]".toList := solid_of_all rfl
  have hparts : ∀ t ∈ "[redacted]".toList.tails, ∀ w ∈ t.inits, w.length < 9 ∨ w.length ≤ 24 ∧
      (secretPrefixes.any fun pre ↦ pre.isPrefixOf (w.map Char.toLower)) = false := by decide
  obtain ⟨t, hwt, ht⟩ := List.infix_iff_prefix_suffix.mp h
  have hascii : ∀ c ∈ w, c.toNat < 128 := by
    have hall : ("[redacted]".toList.all fun c ↦ decide (c.toNat < 128)) = true := rfl
    exact fun c hc ↦ of_decide_eq_true (List.all_eq_true.mp hall c (h.subset hc))
  rw [looksLikeSecretValue, strip_solid fun c hc ↦ hmarker c (h.subset hc), lower_ascii hascii]
  rcases hparts t ((List.mem_tails _ _).mpr ht) w ((List.mem_inits _ _).mpr hwt) with hshort | ⟨hlong, hbegin⟩
  · exact if_pos (.inr (.inl hshort))
  · rw [hbegin, decide_eq_false (not_lt.mpr hlong), if_neg Bool.false_ne_true, Bool.false_and, Bool.false_and, ite_self]

theorem solid_of_mem_words {w text : Text} (h : w ∈ words text) : Solid w := by
  induction text using words_induction with
  | nil => cases h
  | space c text hc ih =>
    rw [words_space hc] at h
    exact ih h
  | word v text hne hsolid hparted ih =>
    rw [words_append hsolid hne hparted] at h
    rcases List.mem_cons.mp h with rfl | h
    · exact hsolid
    · exact ih h

theorem scrub_log_text_iff (text : Text) :
    Scrubbed text (scrubLogText (some text)) ↔ looksLikeSecretValue (hideUrls (hideTokens text)) = true ∨
      ∀ w ∈ words text, looksLikeSecretValue w = true → ∀ v ∈ shownWords text, ¬w <:+: v := by
  have hwithin : ∀ w ∈ words text, looksLikeSecretValue w = true →
      (w <:+: hideUrls (hideTokens text) ↔ ∃ v ∈ shownWords text, w <:+: v) := by
    intro w hw hsecret
    rw [infix_iff_words (solid_of_mem_words hw) (ne_nil_of_secret hsecret), words_hidden]
  dsimp only [scrubLogText]
  split_ifs with hnil hwhole
  · subst hnil
    refine iff_of_true ⟨?_, ?_, ?_⟩ (.inr ?_)
    · exact fun t ht ↦ List.suffix_nil.mp ht ▸ logBearer_proper.nil
    · exact fun t ht ↦ List.suffix_nil.mp ht ▸ logUrl_proper.nil
    · exact fun w hw ↦ by cases hw
    · exact fun w hw ↦ by cases hw
  · refine iff_of_true ⟨?_, ?_, ?_⟩ (.inl hwhole)
    · intro t ht
      by_contra hmatch
      cases t with
      | nil => exact hmatch logBearer_proper.nil
      | cons c t =>
        have hc : c ∈ "[redacted]".toList := ht.subset (List.mem_cons_self ..)
        rcases head_of_logBearer hmatch with rfl | rfl <;> exact absurd hc (by decide)
    · intro t ht
      by_contra hmatch
      cases t with
      | nil => exact hmatch logUrl_proper.nil
      | cons c t =>
        have hc : c ∈ "[redacted]".toList := ht.subset (List.mem_cons_self ..)
        rcases head_of_logUrl hmatch with rfl | rfl <;> exact absurd hc (by decide)
    · intro w _ hsecret hin
      rw [redacted_not_secret hin] at hsecret
      exact Bool.false_ne_true hsecret
  · rw [or_iff_right hwhole]
    constructor
    · intro h w hw hsecret v hv hin
      exact h.words w hw hsecret ((hwithin w hw hsecret).mpr ⟨v, hv, hin⟩)
    · intro h
      refine ⟨fun t ht ↦ logBearer_hideUrls (fun s hs ↦ logBearer_hideTokens hs) ht, fun t ht ↦ logUrl_hideUrls ht, ?_⟩
      intro w hw hsecret hin
      obtain ⟨v, hv, hwv⟩ := (hwithin w hw hsecret).mp hin
      exact h w hw hsecret v hv hwv

end

section
local instance asciiTwins : CaseTwins :=
  { asciiCasing fun _ ↦ none with
    twin_not_space := by
      simp only [caseTwins, List.forall_mem_cons]
      exact ⟨by decide, by decide, by decide, by decide, nofun⟩ }

def groqKey : Text := "gsk_1234567890".toList

/-- A key between two other words is shown. -/
theorem scrub_shows_key : ¬Scrubbed ("key ".toList ++ groqKey ++ " used".toList)
    (scrubLogText (some ("key ".toList ++ groqKey ++ " used".toList))) := by
  intro h
  have hout : scrubLogText (some ("key ".toList ++ groqKey ++ " used".toList)) = "key ".toList ++ groqKey ++ " used".toList := by
    decide +kernel
  refine h.words groqKey (by decide +kernel) (by decide +kernel) ?_
  rw [hout]
  exact List.infix_append _ _ _

end

end Briefr.Security.Redact
