import Briefr.Library.Substitution
import Briefr.Python.Urllib

namespace Briefr.Python.Urllib

/-- The path with the parameters that are cut off it for the scheme, joined again. -/
def tidy (scheme path : Text) : Text :=
  if scheme ∈ usesParams then (splitParams path).1 ++ marked ';' (splitParams path).2 else path

/-- The parts as a text of them shows them. -/
def SplitResult.settled (s : SplitResult) : SplitResult := if s.slashed then { s with path := rooted s.path } else s

/-- The parts of a URL that is written anew: `http` is the scheme of a URL without one, and the network location is in
lower case. -/
def SplitResult.respelled [Interp] (s : SplitResult) : SplitResult :=
  { s with
    scheme := if s.scheme = [] then "http".toList else s.scheme
    netloc := lower s.netloc
    path := tidy s.scheme s.path }

def SplitResult.canonical [Interp] (s : SplitResult) : SplitResult := s.respelled.settled

theorem rooted_of_head {path : Text} (h : ∀ c, path.head? = some c → c = '/') : rooted path = path := by
  refine if_neg ?_
  rintro ⟨hne, hhead⟩
  obtain ⟨c, path, rfl⟩ := List.exists_cons_of_ne_nil hne
  exact hhead (congrArg some (h c rfl))

theorem head_rooted (path : Text) : ∀ c, (rooted path).head? = some c → c = '/' := by
  intro c hc
  rw [rooted] at hc
  split at hc
  next => exact (Option.some.inj hc).symm
  next h =>
    by_contra hne
    refine h ⟨?_, ?_⟩
    · rintro rfl
      cases hc
    · rw [hc]
      exact fun heq ↦ hne (Option.some.inj heq)

theorem rooted_rooted (path : Text) : rooted (rooted path) = rooted path := rooted_of_head (head_rooted path)

theorem slashed_settled (s : SplitResult) : s.settled.slashed = s.slashed := by
  rw [SplitResult.settled]
  split
  next h =>
    rw [h]
    by_cases hpath : ['/', '/'].isPrefixOf s.path = true
    · have hroot : rooted s.path = s.path := by
        refine rooted_of_head fun c hc ↦ ?_
        obtain ⟨rest, hrest⟩ := List.isPrefixOf_iff_prefix.mp hpath
        rw [← hrest] at hc
        exact (Option.some.inj hc).symm
      rw [hroot]
      exact h
    · rw [SplitResult.slashed, Bool.or_eq_true] at h ⊢
      exact .inl (h.resolve_right hpath)
  next => rfl

theorem body_settled (s : SplitResult) : s.settled.body = s.body := by
  rw [SplitResult.body, SplitResult.body, slashed_settled, SplitResult.settled]
  split
  next => rw [rooted_rooted]
  next => rfl

theorem directory_append_segment (path : Text) : directory path ++ segment path = path :=
  List.rdropWhile_append_rtakeWhile

theorem segment_slash (path : Text) : segment ('/' :: path) = segment path := by
  rw [segment, segment, List.rtakeWhile, List.rtakeWhile, List.reverse_cons, List.takeWhile_append]
  split
  next h =>
    have hall : path.reverse.takeWhile (· != '/') = path.reverse := (List.takeWhile_prefix _).eq_of_length h
    rw [hall, List.takeWhile_cons_of_neg (by simp), List.append_nil]
  next => rfl

theorem directory_slash (path : Text) : directory ('/' :: path) = '/' :: directory path := by
  have hwhole := directory_append_segment ('/' :: path)
  rw [segment_slash] at hwhole
  refine List.append_cancel_right (hwhole.trans ?_)
  rw [List.cons_append, directory_append_segment]

theorem slash_not_mem_segment (path : Text) : '/' ∉ segment path := by
  intro h
  have himp := List.mem_rtakeWhile_imp h
  rw [bne_iff_ne] at himp
  exact himp rfl

theorem segment_directory_append (path : Text) {name : Text} (hname : '/' ∉ name) :
    segment (directory path ++ name) = name := by
  have hnone : (directory path).reverse.takeWhile (· != '/') = [] := by
    rw [directory, List.rdropWhile, List.reverse_reverse]
    have hhead := List.head?_dropWhile_not (· != '/') path.reverse
    cases hdrop : path.reverse.dropWhile (· != '/') with
    | nil => rfl
    | cons c rest =>
      rw [hdrop] at hhead
      exact List.takeWhile_cons_of_neg (by simpa using hhead)
  have hall : ∀ c ∈ name.reverse, (c != '/') = true := by
    intro c hc
    rw [bne_iff_ne]
    rintro rfl
    exact hname (List.mem_reverse.mp hc)
  rw [segment, List.rtakeWhile, List.reverse_append, List.takeWhile_append_of_pos hall, hnone, List.append_nil,
    List.reverse_reverse]

theorem splitParams_slash (path : Text) :
    splitParams ('/' :: path) = ('/' :: (splitParams path).1, (splitParams path).2) := by
  rw [splitParams, splitParams, segment_slash, directory_slash]
  split
  next => rfl
  next => rfl

/-- Joining what was split leaves out at most a mark without parameters. -/
theorem splitParams_cases (path : Text) :
    (splitParams path).1 ++ marked ';' (splitParams path).2 = path ∨
      (splitParams path).2 = [] ∧ path = (splitParams path).1 ++ [';'] ∧
        splitParams (splitParams path).1 = ((splitParams path).1, []) := by
  have hpath := directory_append_segment path
  by_cases hmem : ';' ∈ segment path
  · obtain ⟨hnot, hcut | ⟨hcut, -⟩⟩ := cut_cases ';' (segment path)
    · rw [splitParams, if_pos hmem]
      by_cases hparams : (cut ';' (segment path)).2 = []
      · rw [hparams] at hcut
        have hname : '/' ∉ (cut ';' (segment path)).1 := by
          intro h
          refine slash_not_mem_segment path ?_
          rw [hcut]
          exact List.mem_append_left _ h
        refine .inr ⟨hparams, ?_, ?_⟩
        · rw [List.append_assoc, ← hcut]
          exact hpath.symm
        · rw [splitParams, segment_directory_append path hname, if_neg hnot]
      · refine .inl ?_
        rw [marked, if_neg hparams, List.append_assoc, ← hcut]
        exact hpath
    · rw [← hcut] at hnot
      exact absurd hmem hnot
  · rw [splitParams, if_neg hmem]
    exact .inl (List.append_nil path)

theorem tidy_tidy (scheme path : Text) : tidy scheme (tidy scheme path) = tidy scheme path := by
  by_cases hscheme : scheme ∈ usesParams
  · rcases splitParams_cases path with h | ⟨hnil, -, h⟩
    · have heq : tidy scheme path = path := by rw [tidy, if_pos hscheme, h]
      rw [heq, heq]
    · have heq : tidy scheme path = (splitParams path).1 := by
        rw [tidy, if_pos hscheme, hnil]
        exact List.append_nil _
      rw [heq, tidy, if_pos hscheme, h]
      exact List.append_nil _
  · rw [tidy, if_neg hscheme, tidy, if_neg hscheme]

theorem tidy_rooted {scheme path : Text} (h : tidy scheme path = path) : tidy scheme (rooted path) = rooted path := by
  rw [rooted]
  split
  next =>
    rw [tidy] at h ⊢
    split at h
    next hscheme => rw [if_pos hscheme, splitParams_slash, List.cons_append, h]
    next hscheme => rw [if_neg hscheme]
  next => exact h

theorem mem_tidy {scheme path : Text} {c : Char} (h : c ∈ tidy scheme path) : c ∈ path := by
  rw [tidy] at h
  split at h
  next =>
    rcases splitParams_cases path with heq | ⟨hnil, heq, -⟩
    · rwa [heq] at h
    · rw [hnil] at h
      rw [heq]
      exact List.mem_append_left _ ((List.append_nil (splitParams path).1) ▸ h)
  next => exact h

/-- What `split` gives. -/
structure Parsed (s : SplitResult) : Prop where
  scheme : s.scheme = [] ∨ Scheme s.scheme
  netloc : ∀ c ∈ s.netloc, isDelimiter c = false
  path : ∀ c ∈ s.path, c ≠ '?' ∧ c ≠ '#'
  path_head : s.netloc ≠ [] → ∀ c, s.path.head? = some c → c = '/'
  query : '#' ∉ s.query
  safe : ∀ c ∈ s.netloc ++ (s.path ++ (s.query ++ s.fragment)), isUnsafe c = false

theorem mem_of_mem_cut {mark c : Char} {text : Text} (h : c ∈ (cut mark text).1 ∨ c ∈ (cut mark text).2) : c ∈ text :=
  h.elim (fun h ↦ (List.takeWhile_sublist _).subset h) fun h ↦ (List.dropWhile_sublist _).subset (List.mem_of_mem_tail h)

theorem head_cut {mark c : Char} {text : Text} (h : (cut mark text).1.head? = some c) :
    text.head? = some c ∧ c ≠ mark := by
  obtain ⟨hnot, heq⟩ := cut_cases mark text
  obtain ⟨first, hfirst⟩ : ∃ first, (cut mark text).1 = c :: first := by
    cases hcut : (cut mark text).1 with
    | nil =>
      rw [hcut] at h
      cases h
    | cons d first =>
      rw [hcut] at h
      exact ⟨first, by rw [Option.some.inj h]⟩
  refine ⟨?_, fun hc ↦ hnot (by rw [hfirst, hc]; exact .head _)⟩
  rcases heq with heq | ⟨heq, -⟩
  · rw [heq, hfirst]
    rfl
  · rw [heq, hfirst]
    rfl

theorem schemeChar_toLower {c : Char} (h : schemeChar c = true) :
    schemeChar c.toLower = true ∧ c.toLower.toLower = c.toLower ∧ (c.isAlpha = true → c.toLower.isAlpha = true) := by
  have hall : ∀ n < 128, schemeChar (Char.ofNat n) = true → schemeChar (Char.ofNat n).toLower = true ∧
      (Char.ofNat n).toLower.toLower = (Char.ofNat n).toLower ∧
        ((Char.ofNat n).isAlpha = true → (Char.ofNat n).toLower.isAlpha = true) := by
    decide
  have hc := hall c.toNat (schemeChar_bounds h).2
  rw [Char.ofNat_toNat] at hc
  exact hc h

theorem splitNetloc_cases (url : Text) :
    (∃ netloc rest, url = '/' :: '/' :: (netloc ++ rest) ∧ (∀ c ∈ netloc, isDelimiter c = false) ∧
      (∀ c, rest.head? = some c → isDelimiter c = true) ∧ splitNetloc url = (netloc, rest)) ∨
    ['/', '/'].isPrefixOf url = false ∧ splitNetloc url = ([], url) := by
  cases hprefix : ['/', '/'].isPrefixOf url with
  | false => exact .inr ⟨rfl, splitNetloc_plain hprefix⟩
  | true =>
    obtain ⟨text, rfl⟩ := List.isPrefixOf_iff_prefix.mp hprefix
    refine .inl ⟨text.takeWhile fun c ↦ !isDelimiter c, text.dropWhile fun c ↦ !isDelimiter c, ?_, ?_, ?_, ?_⟩
    · rw [List.takeWhile_append_dropWhile]
      rfl
    · intro c hc
      have himp := List.mem_takeWhile_imp hc
      exact (Bool.not_eq_true' _).mp himp
    · intro c hc
      have hhead := List.head?_dropWhile_not (fun c ↦ !isDelimiter c) text
      rw [hc] at hhead
      simpa using hhead
    · rw [splitNetloc, if_pos hprefix]
      rfl

theorem isDelimiter_punct {c : Char} (h : isDelimiter c = true) : c.toNat < 128 ∧ ¬c.isAlpha := by
  simp only [isDelimiter, Bool.or_eq_true, beq_iff_eq] at h
  rcases h with (rfl | rfl) | rfl
  · decide
  · decide
  · decide

theorem isUnsafe_punct {c : Char} (h : isUnsafe c = true) : c.toNat < 128 ∧ ¬c.isAlpha := by
  simp only [isUnsafe, Bool.or_eq_true, beq_iff_eq] at h
  rcases h with (rfl | rfl) | rfl
  · decide
  · decide
  · decide

theorem scheme_http : Scheme "http".toList := .of_all rfl rfl

theorem mem_rooted {path : Text} {c : Char} (h : c ∈ rooted path) : c = '/' ∨ c ∈ path := by
  rw [rooted] at h
  split at h
  next => exact List.mem_cons.mp h
  next => exact .inr h

/-- What settling changes. -/
theorem settled_parts (s : SplitResult) : s.settled.scheme = s.scheme ∧ s.settled.netloc = s.netloc ∧
    (s.slashed = true → s.settled.path = rooted s.path) ∧ (s.slashed = false → s.settled.path = s.path) ∧
      s.settled.query = s.query ∧ s.settled.fragment = s.fragment := by
  rw [SplitResult.settled]
  split
  next h => exact ⟨rfl, rfl, fun _ ↦ rfl, fun hf ↦ absurd (h.symm.trans hf) Bool.true_eq_false.mp, rfl, rfl⟩
  next h => exact ⟨rfl, rfl, fun ht ↦ absurd ht h, fun _ ↦ rfl, rfl, rfl⟩

theorem mem_settled_path {s : SplitResult} {c : Char} (h : c ∈ s.settled.path) : c = '/' ∨ c ∈ s.path := by
  obtain ⟨-, -, hslashed, hplain, -, -⟩ := settled_parts s
  cases hs : s.slashed with
  | true =>
    rw [hslashed hs] at h
    exact mem_rooted h
  | false =>
    rw [hplain hs] at h
    exact .inr h

theorem tidy_http (path : Text) : tidy "http".toList path = tidy [] path := by
  rw [tidy, tidy, if_pos (by decide), if_pos (by decide)]

section
variable [Casing]

theorem scheme_lower {name : Text} (hhead : name.head?.any Char.isAlpha = true) (hall : name.all schemeChar = true) :
    Scheme (lower name) := by
  have hchars := List.all_eq_true.mp hall
  have hlower : lower name = name.map Char.toLower := lower_ascii fun c hc ↦ (schemeChar_bounds (hchars c hc)).2
  rw [hlower]
  refine ⟨?_, fun d hd ↦ ?_⟩
  · cases name with
    | nil => cases hhead
    | cons c name => exact (schemeChar_toLower (hchars c (.head _))).2.2 hhead
  · obtain ⟨c, hc, rfl⟩ := List.mem_map.mp hd
    obtain ⟨hchar, hidem, -⟩ := schemeChar_toLower (hchars c hc)
    exact ⟨hchar, hidem⟩

theorem splitScheme_cases (url : Text) :
    (∃ name rest, url = name ++ ':' :: rest ∧ name ≠ [] ∧ ':' ∉ name ∧ Scheme (lower name) ∧
      splitScheme url = (lower name, rest)) ∨ splitScheme url = ([], url) := by
  by_cases h : (decide (':' ∈ url) && ((url.takeWhile (· != ':')).head?.any Char.isAlpha &&
      (url.takeWhile (· != ':')).all schemeChar)) = true
  · have hsplit : splitScheme url = (lower (url.takeWhile (· != ':')), url.drop ((url.takeWhile (· != ':')).length + 1)) :=
      if_pos h
    rw [Bool.and_eq_true, Bool.and_eq_true, decide_eq_true_eq] at h
    obtain ⟨hmem, hhead, hall⟩ := h
    obtain ⟨name, rest, heq, hname⟩ := List.eq_append_cons_of_mem hmem
    have hcut : url.takeWhile (· != ':') = name := by
      have hfst := congrArg Prod.fst (cut_append hname rest)
      rwa [← heq] at hfst
    rw [hcut] at hsplit hhead hall
    have hdrop : url.drop (name.length + 1) = rest := by
      rw [heq]
      simp [List.drop_append]
    rw [hdrop] at hsplit
    refine .inl ⟨name, rest, heq, ?_, hname, scheme_lower hhead hall, hsplit⟩
    rintro rfl
    cases hhead
  · exact .inr (if_neg h)

/-- The steps of `split`. -/
theorem split_eq (url : Text) : ∃ rest path,
    splitScheme (cleaned url) = ((split url).scheme, rest) ∧ splitNetloc rest = ((split url).netloc, path) ∧
      (split url).path = (cut '?' (cut '#' path).1).1 ∧ (split url).query = (cut '?' (cut '#' path).1).2 ∧
        (split url).fragment = (cut '#' path).2 := ⟨_, _, rfl, rfl, rfl, rfl, rfl⟩

theorem parsed_split (url : Text) : Parsed (split url) := by
  obtain ⟨rest, path, hscheme, hnetloc, hpath, hquery, hfragment⟩ := split_eq url
  have hrest : ∀ c ∈ rest, c ∈ cleaned url := by
    intro c hc
    rcases splitScheme_cases (cleaned url) with ⟨name, rest', heq, -, -, -, hsplit⟩ | hsplit
    · obtain rfl := (Prod.mk.inj (hscheme.symm.trans hsplit)).2
      rw [heq]
      exact List.mem_append_right _ (.tail _ hc)
    · obtain rfl := (Prod.mk.inj (hscheme.symm.trans hsplit)).2
      exact hc
  have hparts : (∀ c ∈ (split url).netloc, isDelimiter c = false ∧ c ∈ rest) ∧ (∀ c ∈ path, c ∈ rest) ∧
      ((split url).netloc ≠ [] → ∀ c, path.head? = some c → isDelimiter c = true) := by
    rcases splitNetloc_cases rest with ⟨netloc, path', heq, hdelimiter, hhead, hsplit⟩ | ⟨-, hsplit⟩
    · obtain ⟨hn, rfl⟩ := Prod.mk.inj (hnetloc.symm.trans hsplit)
      rw [hn]
      refine ⟨fun c hc ↦ ⟨hdelimiter c hc, ?_⟩, fun c hc ↦ ?_, fun _ ↦ hhead⟩
      · rw [heq]
        exact .tail _ (.tail _ (List.mem_append_left _ hc))
      · rw [heq]
        exact .tail _ (.tail _ (List.mem_append_right _ hc))
    · obtain ⟨hn, rfl⟩ := Prod.mk.inj (hnetloc.symm.trans hsplit)
      rw [hn]
      exact ⟨fun c hc ↦ absurd hc List.not_mem_nil, fun c hc ↦ hc, fun h ↦ absurd rfl h⟩
  obtain ⟨hn, hp, hhead⟩ := hparts
  have hsafe : ∀ c ∈ rest, isUnsafe c = false := by
    intro c hc
    exact (Bool.not_eq_true' _).mp (List.mem_filter.mp (hrest c hc)).2
  have hnot : '#' ∉ (cut '#' path).1 := (cut_cases '#' path).1
  refine ⟨?_, fun c hc ↦ (hn c hc).1, fun c hc ↦ ?_, fun hne c hc ↦ ?_, fun hc ↦ ?_, fun c hc ↦ ?_⟩
  · rcases splitScheme_cases (cleaned url) with ⟨name, rest', -, -, -, h, hsplit⟩ | hsplit
    · exact .inr ((Prod.mk.inj (hscheme.symm.trans hsplit)).1 ▸ h)
    · exact .inl (Prod.mk.inj (hscheme.symm.trans hsplit)).1
  · rw [hpath] at hc
    refine ⟨?_, ?_⟩
    · rintro rfl
      exact (cut_cases '?' _).1 hc
    · rintro rfl
      exact hnot (mem_of_mem_cut (.inl hc))
  · rw [hpath] at hc
    obtain ⟨hc, hquestion⟩ := head_cut hc
    obtain ⟨hc, hhash⟩ := head_cut hc
    have hdelimiter := hhead hne c hc
    simp only [isDelimiter, Bool.or_eq_true, beq_iff_eq] at hdelimiter
    exact (hdelimiter.resolve_right hhash).resolve_right hquestion
  · rw [hquery] at hc
    exact hnot (mem_of_mem_cut (.inr hc))
  · simp only [List.mem_append] at hc
    rcases hc with hc | hc | hc | hc
    · exact hsafe c (hn c hc).2
    · rw [hpath] at hc
      exact hsafe c (hp c (mem_of_mem_cut (.inl (mem_of_mem_cut (.inl hc)))))
    · rw [hquery] at hc
      exact hsafe c (hp c (mem_of_mem_cut (.inl (mem_of_mem_cut (.inr hc)))))
    · rw [hfragment] at hc
      exact hsafe c (hp c (mem_of_mem_cut (.inr hc)))

/-- A set of ASCII characters without letters that a text avoids is avoided in lower case too. -/
theorem avoids_lower {p : Char → Bool} (hp : ∀ c, p c = true → c.toNat < 128 ∧ ¬c.isAlpha) {text : Text}
    (h : ∀ c ∈ text, p c = false) : ∀ c ∈ lower text, p c = false := by
  intro c hc
  refine Bool.eq_false_iff.mpr fun hpc ↦ ?_
  obtain ⟨hascii, halpha⟩ := hp c hpc
  rw [h c (mem_of_mem_lower hc hascii halpha)] at hpc
  cases hpc

theorem Parsed.canonical {s : SplitResult} (h : Parsed s) : Canonical s.canonical := by
  rw [SplitResult.canonical]
  obtain ⟨hscheme, hnetloc, hslashed, -, hquery, hfragment⟩ := settled_parts s.respelled
  refine ⟨⟨?_, ?_, fun c hc ↦ ?_, fun hs ↦ ?_, ?_, fun c hc ↦ ?_⟩, ?_⟩
  · rw [hscheme, SplitResult.respelled]
    simp only
    split
    next => exact scheme_http
    next hne => exact h.scheme.resolve_left hne
  · rw [hnetloc]
    exact avoids_lower (fun c hc ↦ isDelimiter_punct hc) h.netloc
  · rcases mem_settled_path hc with rfl | hc
    · decide
    · exact h.path c (mem_tidy hc)
  · rw [slashed_settled] at hs
    rw [hslashed hs, rooted_rooted]
  · rw [hquery]
    exact h.query
  · have hsafe : ∀ c, c ∈ s.netloc ∨ c ∈ s.path ∨ c ∈ s.query ∨ c ∈ s.fragment → isUnsafe c = false := by
      intro c hc
      refine h.safe c ?_
      simpa only [List.mem_append] using hc
    simp only [List.mem_append, hnetloc, hquery, hfragment] at hc
    rcases hc with hc | hc | hc | hc
    · exact avoids_lower (fun c hc ↦ isUnsafe_punct hc) (fun c hc ↦ hsafe c (.inl hc)) c hc
    · rcases mem_settled_path hc with rfl | hc
      · decide
      · exact hsafe c (.inr (.inl (mem_tidy hc)))
    · exact hsafe c (.inr (.inr (.inl hc)))
    · exact hsafe c (.inr (.inr (.inr hc)))
  · rw [hnetloc]
    exact fixed_lower _

/-- Parts that were written anew are not changed by writing them anew. -/
theorem Parsed.canonical_canonical {s : SplitResult} (h : Parsed s) : s.canonical.canonical = s.canonical := by
  have hc := h.canonical
  obtain ⟨hscheme, hnetloc, hslashed, hplain, -, -⟩ := settled_parts s.respelled
  have htidy : tidy s.canonical.scheme s.canonical.path = s.canonical.path := by
    have hrespelled : tidy s.respelled.scheme s.respelled.path = s.respelled.path := by
      rw [SplitResult.respelled]
      simp only
      split
      next hnil => rw [tidy_http, hnil, tidy_tidy]
      next => exact tidy_tidy _ _
    rw [SplitResult.canonical, hscheme]
    cases hs : s.respelled.slashed with
    | true =>
      rw [hslashed hs]
      exact tidy_rooted hrespelled
    | false =>
      rw [hplain hs]
      exact hrespelled
  have hrespelled : s.canonical.respelled = s.canonical := by
    rw [SplitResult.respelled, if_neg hc.scheme.ne_nil, lower_of_fixed hc.netloc_fixed, htidy]
  rw [SplitResult.canonical, hrespelled, SplitResult.settled]
  split
  next hs => rw [hc.rooted hs]
  next => rfl

/-- The text of a parsed URL that is written anew. -/
def rewritten (url : Text) : Text := urlunsplit (split url).canonical

theorem split_rewritten (url : Text) : split (rewritten url) = (split url).canonical :=
  (parsed_split url).canonical.split_urlunsplit

theorem rewritten_rewritten (url : Text) : rewritten (rewritten url) = rewritten url := by
  rw [rewritten, split_rewritten, (parsed_split url).canonical_canonical, rewritten]

end

section
variable {p : Char → Bool}

def SplitResult.countP (p : Char → Bool) (s : SplitResult) : ℕ :=
  s.scheme.countP p + (s.netloc.countP p + (s.path.countP p + (s.query.countP p + s.fragment.countP p)))

theorem countP_cons_false {c : Char} (hc : p c = false) (text : Text) : (c :: text).countP p = text.countP p := by
  rw [List.countP_cons_of_neg]
  rw [hc]
  exact Bool.false_ne_true

theorem countP_marked {mark : Char} (hmark : p mark = false) (text : Text) :
    (marked mark text).countP p = text.countP p := by
  rw [marked]
  split
  next h => rw [h]
  next => exact countP_cons_false hmark text

theorem countP_cut {mark : Char} (hmark : p mark = false) (text : Text) :
    (cut mark text).1.countP p + (cut mark text).2.countP p = text.countP p := by
  obtain ⟨-, heq | ⟨heq, hnil⟩⟩ := cut_cases mark text
  · conv_rhs => rw [heq, List.countP_append, countP_cons_false hmark]
  · conv_rhs => rw [heq]
    rw [hnil]
    rfl

theorem countP_rooted (hslash : p '/' = false) (path : Text) : (rooted path).countP p = path.countP p := by
  rw [rooted]
  split
  next => exact countP_cons_false hslash path
  next => rfl

theorem countP_tidy (hsemicolon : p ';' = false) (scheme path : Text) :
    (tidy scheme path).countP p = path.countP p := by
  rw [tidy]
  split
  next =>
    rcases splitParams_cases path with heq | ⟨hnil, heq, -⟩
    · rw [heq]
    · rw [hnil]
      conv_rhs => rw [heq, List.countP_append, countP_cons_false hsemicolon]
      rw [List.countP_append]
      rfl
  next => rfl

end

section
variable [Casing] {p : Char → Bool}

/-- Characters that parsing a URL and writing it anew keeps, up to case, and adds none of. -/
structure Counted (p : Char → Bool) : Prop where
  lower : ∀ text : Text, (lower text).countP p = text.countP p
  punct : ∀ c ∈ [':', '/', '?', '#', ';'], p c = false
  http : "http".toList.countP p = 0

theorem Counted.split (h : Counted p) (url : Text) : (Urllib.split url).countP p = (cleaned url).countP p := by
  obtain ⟨rest, path, hscheme, hnetloc, hpath, hquery, hfragment⟩ := split_eq url
  have hfirst : (Urllib.split url).scheme.countP p + rest.countP p = (cleaned url).countP p := by
    rcases splitScheme_cases (cleaned url) with ⟨name, rest', heq, -, -, -, hsplit⟩ | hsplit
    · obtain ⟨hs, rfl⟩ := Prod.mk.inj (hscheme.symm.trans hsplit)
      rw [hs, heq, h.lower, List.countP_append, countP_cons_false (h.punct ':' (by decide))]
    · obtain ⟨hs, rfl⟩ := Prod.mk.inj (hscheme.symm.trans hsplit)
      rw [hs, List.countP_nil, Nat.zero_add]
  have hsecond : (Urllib.split url).netloc.countP p + path.countP p = rest.countP p := by
    rcases splitNetloc_cases rest with ⟨netloc, path', heq, -, -, hsplit⟩ | ⟨-, hsplit⟩
    · obtain ⟨hn, rfl⟩ := Prod.mk.inj (hnetloc.symm.trans hsplit)
      have hslash := h.punct '/' (by decide)
      rw [hn, heq, countP_cons_false hslash, countP_cons_false hslash, List.countP_append]
    · obtain ⟨hn, rfl⟩ := Prod.mk.inj (hnetloc.symm.trans hsplit)
      rw [hn, List.countP_nil, Nat.zero_add]
  have hhash := countP_cut (h.punct '#' (by decide)) path
  have hquestion := countP_cut (h.punct '?' (by decide)) (cut '#' path).1
  rw [← hpath, ← hquery] at hquestion
  rw [← hfragment] at hhash
  rw [SplitResult.countP]
  omega

theorem Counted.canonical (h : Counted p) (s : SplitResult) : s.canonical.countP p = s.countP p := by
  have hscheme : s.respelled.scheme.countP p = s.scheme.countP p := by
    rw [SplitResult.respelled]
    simp only
    split
    next hnil => rw [h.http, hnil, List.countP_nil]
    next => rfl
  have hpath : s.respelled.path.countP p = s.path.countP p := countP_tidy (h.punct ';' (by decide)) _ _
  have hnetloc : s.respelled.netloc.countP p = s.netloc.countP p := h.lower _
  have hsettled : s.canonical.path.countP p = s.respelled.path.countP p := by
    obtain ⟨-, -, hslashed, hplain, -, -⟩ := settled_parts s.respelled
    rw [SplitResult.canonical]
    cases hs : s.respelled.slashed with
    | true => rw [hslashed hs, countP_rooted (h.punct '/' (by decide))]
    | false => rw [hplain hs]
  obtain ⟨hsc, hn, -, -, hq, hf⟩ := settled_parts s.respelled
  rw [SplitResult.countP, SplitResult.countP, hsettled, hpath]
  rw [SplitResult.canonical, hsc, hn, hq, hf, hscheme, hnetloc]
  rfl

theorem Counted.urlunsplit {s : SplitResult} (h : Counted p) (hscheme : Scheme s.scheme) :
    (urlunsplit s).countP p = s.countP p := by
  have hslash := h.punct '/' (by decide)
  have hbody : s.body.countP p = s.netloc.countP p + s.path.countP p := by
    rw [SplitResult.body]
    split
    next => rw [countP_cons_false hslash, countP_cons_false hslash, List.countP_append, countP_rooted hslash]
    next hs =>
      rw [(not_slashed (Bool.eq_false_iff.mpr hs)).1, List.countP_nil, Nat.zero_add]
  rw [urlunsplit_eq hscheme, List.countP_append, countP_cons_false (h.punct ':' (by decide)), List.countP_append,
    List.countP_append, countP_marked (h.punct '?' (by decide)), countP_marked (h.punct '#' (by decide)), hbody,
    SplitResult.countP]
  omega

theorem Counted.rewritten (h : Counted p) (url : Text) : (rewritten url).countP p = (cleaned url).countP p := by
  rw [Urllib.rewritten, h.urlunsplit (parsed_split url).canonical.scheme, h.canonical, h.split]

end

end Briefr.Python.Urllib

namespace Briefr.Python

open Briefr.Library.Substitution

/-- A class of characters that takes no notice of case. -/
structure CaseClosed (symbols : List Char) : Prop where
  closed : ∀ n < 128, (Char.ofNat n).toLower ∈ symbols ↔ Char.ofNat n ∈ symbols
  small : ∀ c ∈ symbols, c = longS ∨ c.toNat < 128 ∧ c ≠ 'i' ∧ c ≠ 'k'

instance (symbols : List Char) : Decidable (CaseClosed symbols) :=
  have : Decidable (∀ c ∈ symbols, c = longS ∨ c.toNat < 128 ∧ c ≠ 'i' ∧ c ≠ 'k') := List.decidableBAll _ _
  decidable_of_iff ((∀ n < 128, (Char.ofNat n).toLower ∈ symbols ↔ Char.ofNat n ∈ symbols) ∧
      ∀ c ∈ symbols, c = longS ∨ c.toNat < 128 ∧ c ≠ 'i' ∧ c ≠ 'k')
    ⟨fun h ↦ ⟨h.1, h.2⟩, fun h ↦ ⟨h.closed, h.small⟩⟩

theorem CaseClosed.toLower {symbols : List Char} (h : CaseClosed symbols) {c : Char} (hc : c.toNat < 128) :
    c.toLower ∈ symbols ↔ c ∈ symbols := by
  have hclosed := h.closed c.toNat hc
  rwa [Char.ofNat_toNat] at hclosed

section
variable [Casing] {symbols : List Char} {word : Word Char} {s t : Text}

/-- Lower-casing makes one character of a class of one of the class, and none of others. -/
theorem CaseClosed.piece (h : CaseClosed symbols) {c : Char} {piece : Text} (hpiece : LowerPiece lowerChar c piece) :
    (c ∈ symbols ∧ ∃ d ∈ symbols, piece = [d]) ∨ (c ∉ symbols ∧ ∀ d ∈ piece, d ∉ symbols) := by
  by_cases hc : c ∈ symbols
  · refine .inl ⟨hc, ?_⟩
    rcases h.small c hc with rfl | ⟨hascii, -⟩
    · exact ⟨longS, hc, piece_of_fixed Casing.lowerChar_longS hpiece⟩
    · rcases hpiece with rfl | ⟨-, hsigma, -⟩
      · exact ⟨c.toLower, (h.toLower hascii).mpr hc, Interp.lowerChar_ascii c hascii⟩
      · rw [Interp.lowerChar_ascii c hascii] at hsigma
        have hlower := toLower_ascii hascii
        rw [(List.cons.inj hsigma).1] at hlower
        exact absurd hlower (by decide)
  · refine .inr ⟨hc, fun d hd hmem ↦ hc ?_⟩
    rcases h.small d hmem with rfl | ⟨hascii, hi, hk⟩
    · rcases hpiece with rfl | ⟨-, -, rfl⟩
      · exact Casing.longS_of_mem c hd ▸ hmem
      · exact absurd (List.mem_singleton.mp hd) (by decide)
    · obtain ⟨rfl, hc'⟩ := mem_piece_ascii hpiece hd hascii hi hk
      exact (h.toLower hc').mp hmem

theorem piece_ne_nil {c : Char} {piece : Text} (h : LowerPiece lowerChar c piece) : piece ≠ [] := by
  rcases h with rfl | ⟨-, -, rfl⟩
  · exact Casing.lowerChar_ne_nil c
  · exact List.cons_ne_nil _ _

theorem begins_lowered (hword : ∀ symbols ∈ word, CaseClosed symbols) (h : Lowered s t) (rest : Text) :
    begins word (t ++ rest) = begins word (s ++ rest) := by
  induction word generalizing s t with
  | nil => rw [begins_nil, begins_nil]
  | cons symbols word ih =>
    obtain ⟨hsymbols, hword⟩ := List.forall_mem_cons.mp hword
    cases s with
    | nil => rw [lowered_nil.mp h]
    | cons c s =>
      obtain ⟨piece, t, hpiece, ht, rfl⟩ := lowered_cons.mp h
      rcases hsymbols.piece hpiece with ⟨hc, d, hd, rfl⟩ | ⟨hc, hnone⟩
      · rw [List.append_assoc, List.singleton_append, List.cons_append, begins, begins, ih hword ht,
          decide_eq_true hd, decide_eq_true hc]
      · obtain ⟨d, piece, rfl⟩ := List.exists_cons_of_ne_nil (piece_ne_nil hpiece)
        rw [List.cons_append, List.cons_append, List.cons_append, begins, begins,
          decide_eq_false (hnone d (.head _)), decide_eq_false hc, Bool.false_and, Bool.false_and]

/-- A word that takes no notice of case occurs in lower-cased text where it did before. -/
theorem occurs_lowered (hword : ∀ symbols ∈ word, CaseClosed symbols) (h : Lowered s t) (rest : Text) :
    Occurs word (t ++ rest) ↔ Occurs word (s ++ rest) := by
  induction s generalizing t with
  | nil => rw [lowered_nil.mp h]
  | cons c s ih =>
    have hbegins := begins_lowered hword h rest
    obtain ⟨piece, t, hpiece, ht, rfl⟩ := lowered_cons.mp h
    rw [List.cons_append, occurs_cons, ← List.cons_append, ← hbegins, ← ih ht]
    cases word with
    | nil =>
      have hall : ∀ text : Text, Occurs [] text := fun text ↦ ⟨text, List.suffix_rfl, begins_nil text⟩
      exact iff_of_true (hall _) (.inr (hall _))
    | cons symbols word =>
      rcases (hword symbols (.head _)).piece hpiece with ⟨-, d, -, rfl⟩ | ⟨-, hnone⟩
      · rw [List.append_assoc, List.singleton_append, occurs_cons]
      · have hclash : ∀ d ∈ piece, clash (symbols :: word) [d] = true := by
          intro d hd
          rw [clash, decide_eq_false (hnone d hd)]
          rfl
        obtain ⟨d, piece, rfl⟩ := List.exists_cons_of_ne_nil (piece_ne_nil hpiece)
        have hnot := not_begins_of_clash (hclash d (.head _)) (piece ++ (t ++ rest))
        rw [List.singleton_append] at hnot
        rw [List.append_assoc, occurs_append_left hclash, List.cons_append, hnot]
        exact (or_iff_right Bool.false_ne_true).symm

theorem occurs_lower (hword : ∀ symbols ∈ word, CaseClosed symbols) (s rest : Text) :
    Occurs word (lower s ++ rest) ↔ Occurs word (s ++ rest) := occurs_lowered hword (lowered_lower s) rest

end

end Briefr.Python
