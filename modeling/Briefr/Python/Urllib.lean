import Briefr.Python.Casing

namespace Briefr.Python.Urllib

/-- The checks of `urlsplit` on a network location that rest on tables: what stands in brackets, and characters that
normalisation makes delimiters of. -/
class Netlocs [Casing] where
  accepts : Text → Bool
  accepts_ascii : ∀ netloc, (∀ c ∈ netloc, c.toNat < 128 ∧ c ≠ '[' ∧ c ≠ ']') → accepts netloc = true
  accepts_lower : ∀ netloc, accepts netloc = true → accepts (lower netloc) = true

export Netlocs (accepts)

def usesNetloc : List Text :=
  ["".toList, "ftp".toList, "http".toList, "gopher".toList, "nntp".toList, "telnet".toList, "imap".toList,
    "wais".toList, "file".toList, "mms".toList, "https".toList, "shttp".toList, "snews".toList, "prospero".toList,
    "rtsp".toList, "rtsps".toList, "rtspu".toList, "rsync".toList, "svn".toList, "svn+ssh".toList, "sftp".toList,
    "nfs".toList, "git".toList, "git+ssh".toList, "ws".toList, "wss".toList]

def usesParams : List Text :=
  ["".toList, "ftp".toList, "hdl".toList, "prospero".toList, "http".toList, "imap".toList, "https".toList,
    "shttp".toList, "rtsp".toList, "rtsps".toList, "rtspu".toList, "sip".toList, "sips".toList, "mms".toList,
    "sftp".toList, "tel".toList]

structure SplitResult where
  scheme : Text
  netloc : Text
  path : Text
  query : Text
  fragment : Text

structure ParseResult extends SplitResult where
  params : Text

def isC0OrSpace (c : Char) : Bool := decide (c.toNat ≤ 32)

def isUnsafe (c : Char) : Bool := c == '\t' || c == '\r' || c == '\n'

def schemeChar (c : Char) : Bool := c.isAlphanum || c == '+' || c == '-' || c == '.'

def isDelimiter (c : Char) : Bool := c == '/' || c == '?' || c == '#'

/-- The text that is parsed: leading controls and spaces and every tab and line break are taken out. -/
def cleaned (url : Text) : Text := (url.dropWhile isC0OrSpace).filter fun c ↦ !isUnsafe c

/-- `text.split(mark, 1)`, where a text without the mark is the first part. -/
def cut (mark : Char) (text : Text) : Text × Text := (text.takeWhile (· != mark), (text.dropWhile (· != mark)).tail)

def splitScheme [Interp] (url : Text) : Text × Text :=
  let name := url.takeWhile (· != ':')
  if decide (':' ∈ url) && (name.head?.any Char.isAlpha && name.all schemeChar) then
    (lower name, url.drop (name.length + 1))
  else ([], url)

def splitNetloc (url : Text) : Text × Text :=
  if ['/', '/'].isPrefixOf url then
    ((url.drop 2).takeWhile fun c ↦ !isDelimiter c, (url.drop 2).dropWhile fun c ↦ !isDelimiter c)
  else ([], url)

/-- The parts that `urlsplit` finds before it checks the network location. -/
def split [Interp] (url : Text) : SplitResult :=
  let (scheme, rest) := splitScheme (cleaned url)
  let (netloc, rest) := splitNetloc rest
  let (rest, fragment) := cut '#' rest
  let (path, query) := cut '?' rest
  { scheme, netloc, path, query, fragment }

/-- The path up to its last slash. -/
def directory (path : Text) : Text := path.rdropWhile (· != '/')

/-- The path behind its last slash. -/
def segment (path : Text) : Text := path.rtakeWhile (· != '/')

def splitParams (path : Text) : Text × Text :=
  if ';' ∈ segment path then (directory path ++ (cut ';' (segment path)).1, (cut ';' (segment path)).2) else (path, [])

section
variable [Casing] [Netlocs]

def urlsplit (url : Text) : Py SplitResult :=
  if accepts (split url).netloc then .ok (split url) else .error .valueError

def urlparse (url : Text) : Py ParseResult := do
  let result ← urlsplit url
  let (path, params) := if result.scheme ∈ usesParams then splitParams result.path else (result.path, [])
  pure { result with path, params }

end

def marked (mark : Char) (text : Text) : Text := if text = [] then [] else mark :: text

/-- Whether the result has `//` before the network location. -/
def SplitResult.slashed (s : SplitResult) : Bool :=
  s.netloc != [] || (s.scheme != [] && decide (s.scheme ∈ usesNetloc)) || ['/', '/'].isPrefixOf s.path

/-- The path as it is written after a network location. -/
def rooted (path : Text) : Text := if path ≠ [] ∧ path.head? ≠ some '/' then '/' :: path else path

def urlunsplit (s : SplitResult) : Text :=
  let url := if s.slashed then '/' :: '/' :: (s.netloc ++ rooted s.path) else s.path
  let url := if s.scheme = [] then url else s.scheme ++ ':' :: url
  url ++ (marked '?' s.query ++ marked '#' s.fragment)

def urlunparse (p : ParseResult) : Text := urlunsplit { p.toSplitResult with path := p.path ++ marked ';' p.params }

/-- `hostname` of a result with the network location; the zone of a scoped address keeps its case. -/
def hostname [Interp] (netloc : Text) : Option Text :=
  let hostinfo := netloc.rtakeWhile (· != '@')
  let name := if '[' ∈ hostinfo then (cut ']' (cut '[' hostinfo).2).1 else (cut ':' hostinfo).1
  if name = [] then none
  else some (lower (cut '%' name).1 ++ name.dropWhile (· != '%'))

theorem cut_of_not_mem {mark : Char} {text : Text} (h : mark ∉ text) : cut mark text = (text, []) := by
  have hall : ∀ c ∈ text, (c != mark) = true := by
    intro c hc
    rw [bne_iff_ne]
    rintro rfl
    exact h hc
  rw [cut, List.takeWhile_eq_self_iff.mpr hall, List.dropWhile_eq_nil_iff.mpr hall]
  rfl

theorem cut_append {mark : Char} {text : Text} (h : mark ∉ text) (rest : Text) :
    cut mark (text ++ mark :: rest) = (text, rest) := by
  have hall : ∀ c ∈ text, (c != mark) = true := by
    intro c hc
    rw [bne_iff_ne]
    rintro rfl
    exact h hc
  rw [cut, List.takeWhile_append_of_pos hall, List.dropWhile_append_of_pos hall,
    List.takeWhile_cons_of_neg (by simp), List.dropWhile_cons_of_neg (by simp), List.append_nil]
  rfl

theorem cut_marked {mark : Char} {text : Text} (h : mark ∉ text) (rest : Text) :
    cut mark (text ++ marked mark rest) = (text, rest) := by
  rw [marked]
  split
  next hrest => rw [List.append_nil, cut_of_not_mem h, hrest]
  next => exact cut_append h rest

/-- What `cut` finds. -/
theorem cut_cases (mark : Char) (text : Text) :
    mark ∉ (cut mark text).1 ∧ (text = (cut mark text).1 ++ mark :: (cut mark text).2 ∨
      text = (cut mark text).1 ∧ (cut mark text).2 = []) := by
  have hnot : mark ∉ (cut mark text).1 := by
    intro hmem
    have himp := List.mem_takeWhile_imp hmem
    rw [bne_iff_ne] at himp
    exact himp rfl
  refine ⟨hnot, ?_⟩
  by_cases h : mark ∈ text
  · obtain ⟨a, b, heq, ha⟩ := List.eq_append_cons_of_mem h
    rw [heq, cut_append ha]
    exact .inl rfl
  · rw [cut_of_not_mem h]
    exact .inr ⟨rfl, rfl⟩

/-- A scheme as `splitScheme` finds it. -/
structure Scheme (scheme : Text) : Prop where
  head : scheme.head?.any Char.isAlpha = true
  chars : ∀ c ∈ scheme, schemeChar c = true ∧ c.toLower = c

theorem Scheme.of_all {scheme : Text} (hhead : scheme.head?.any Char.isAlpha = true)
    (h : (scheme.all fun c ↦ schemeChar c && c.toLower == c) = true) : Scheme scheme := by
  refine ⟨hhead, fun c hc ↦ ?_⟩
  obtain ⟨hchar, hlower⟩ := Bool.and_eq_true_iff.mp (List.all_eq_true.mp h c hc)
  exact ⟨hchar, eq_of_beq hlower⟩

theorem schemeChar_bounds {c : Char} (h : schemeChar c = true) : 43 ≤ c.toNat ∧ c.toNat < 128 := by
  have hclass : ∀ {lo hi : UInt32}, 43 ≤ lo.toNat → hi.toNat < 128 →
      (decide (c.val ≥ lo) && decide (c.val ≤ hi)) = true → 43 ≤ c.toNat ∧ c.toNat < 128 := by
    intro lo hi hlo hhi h
    obtain ⟨h1, h2⟩ := Bool.and_eq_true_iff.mp h
    exact ⟨hlo.trans (of_decide_eq_true h1), lt_of_le_of_lt (of_decide_eq_true h2) hhi⟩
  rw [schemeChar, Bool.or_eq_true, Bool.or_eq_true, Bool.or_eq_true, beq_iff_eq, beq_iff_eq, beq_iff_eq] at h
  rcases h with ((halnum | rfl) | rfl) | rfl
  · rcases Bool.or_eq_true_iff.mp halnum with halpha | hdigit
    · rcases Bool.or_eq_true_iff.mp halpha with hupper | hlower
      · exact hclass (by decide) (by decide) ((Bool.decide_and _ _).symm.trans hupper)
      · exact hclass (by decide) (by decide) hlower
    · exact hclass (by decide) (by decide) hdigit
  · decide
  · decide
  · decide

theorem schemeChar_not {c : Char} (h : schemeChar c = true) :
    c ≠ ':' ∧ isDelimiter c = false ∧ isUnsafe c = false ∧ isC0OrSpace c = false := by
  have hother : ∀ d : Char, schemeChar d = false → c ≠ d := by
    rintro d hd rfl
    rw [h] at hd
    cases hd
  have hbounds := schemeChar_bounds h
  refine ⟨hother _ (by decide), ?_, ?_, decide_eq_false (by omega)⟩
  · simp only [isDelimiter, Bool.or_eq_false_iff, beq_eq_false_iff_ne]
    exact ⟨⟨hother _ (by decide), hother _ (by decide)⟩, hother _ (by decide)⟩
  · simp only [isUnsafe, Bool.or_eq_false_iff, beq_eq_false_iff_ne]
    exact ⟨⟨hother _ (by decide), hother _ (by decide)⟩, hother _ (by decide)⟩

theorem cleaned_of_safe {url : Text} (hhead : url.head?.any isC0OrSpace = false)
    (hsafe : ∀ c ∈ url, isUnsafe c = false) : cleaned url = url := by
  have hdrop : url.dropWhile isC0OrSpace = url := by
    cases url with
    | nil => rfl
    | cons c url =>
      exact List.dropWhile_cons_of_neg (by rw [show isC0OrSpace c = false from hhead]; exact Bool.false_ne_true)
  rw [cleaned, hdrop, List.filter_eq_self]
  intro c hc
  rw [hsafe c hc]
  rfl

theorem isPrefixOf_slashes (rest : Text) : ['/', '/'].isPrefixOf ('/' :: '/' :: rest) = true := by
  simp [List.isPrefixOf]

theorem splitNetloc_slashed {netloc rest : Text} (hnetloc : ∀ c ∈ netloc, isDelimiter c = false)
    (hrest : ∀ c, rest.head? = some c → isDelimiter c = true) :
    splitNetloc ('/' :: '/' :: (netloc ++ rest)) = (netloc, rest) := by
  have hall : ∀ c ∈ netloc, (!isDelimiter c) = true := fun c hc ↦ by rw [hnetloc c hc]; rfl
  rw [splitNetloc, if_pos (isPrefixOf_slashes _)]
  simp only [List.drop_succ_cons, List.drop_zero]
  rw [List.takeWhile_append_of_pos hall, List.dropWhile_append_of_pos hall]
  cases rest with
  | nil => simp
  | cons c rest =>
    have hc := hrest c rfl
    rw [List.takeWhile_cons_of_neg (by simp [hc]), List.dropWhile_cons_of_neg (by simp [hc]), List.append_nil]

theorem splitNetloc_plain {rest : Text} (h : ['/', '/'].isPrefixOf rest = false) : splitNetloc rest = ([], rest) := by
  rw [splitNetloc, h]
  rfl

theorem Scheme.ne_nil {scheme : Text} (h : Scheme scheme) : scheme ≠ [] := by
  rintro rfl
  cases h.head

theorem mem_marked {mark c : Char} {text : Text} (h : c ∈ marked mark text) : c = mark ∨ c ∈ text := by
  rw [marked] at h
  split at h
  · cases h
  · exact List.mem_cons.mp h

/-- What follows the path of a URL starts with a delimiter. -/
theorem head_tails (query fragment : Text) :
    ∀ c, (marked '?' query ++ marked '#' fragment).head? = some c → c = '?' ∨ c = '#' := by
  intro c hc
  rw [marked, marked] at hc
  split at hc
  · split at hc
    · cases hc
    · exact .inr (Option.some.inj hc).symm
  · exact .inl (Option.some.inj hc).symm

theorem cut_tails {path query : Text} (hpath : ∀ c ∈ path, c ≠ '?' ∧ c ≠ '#') (hquery : '#' ∉ query)
    (fragment : Text) :
    cut '#' (path ++ (marked '?' query ++ marked '#' fragment)) = (path ++ marked '?' query, fragment) ∧
      cut '?' (path ++ marked '?' query) = (path, query) := by
  refine ⟨?_, cut_marked (fun h ↦ (hpath _ h).1 rfl) query⟩
  rw [← List.append_assoc]
  refine cut_marked (fun h ↦ ?_) fragment
  rcases List.mem_append.mp h with h | h
  · exact (hpath _ h).2 rfl
  · rcases mem_marked h with h | h
    · exact absurd h (by decide)
    · exact hquery h

/-- The text behind the scheme. -/
def SplitResult.body (s : SplitResult) : Text := if s.slashed then '/' :: '/' :: (s.netloc ++ rooted s.path) else s.path

theorem isPrefixOf_slashes_append {path tails : Text} (h : ['/', '/'].isPrefixOf path = false)
    (htails : ∀ c, tails.head? = some c → c = '?' ∨ c = '#') : ['/', '/'].isPrefixOf (path ++ tails) = false := by
  have hne : ∀ c t, tails = c :: t → c ≠ '/' := by
    rintro c t rfl rfl
    rcases htails '/' rfl with h | h
    · exact absurd h (by decide)
    · exact absurd h (by decide)
  rw [Bool.eq_false_iff, Ne, List.isPrefixOf_iff_prefix] at h ⊢
  rintro ⟨rest, hrest⟩
  cases path with
  | nil => exact hne '/' ('/' :: rest) hrest.symm rfl
  | cons c path =>
    cases path with
    | nil =>
      have htail : '/' :: rest = tails := congrArg List.tail hrest
      exact hne '/' rest htail.symm rfl
    | cons d path =>
      simp only [List.cons_append, List.nil_append, List.cons.injEq] at hrest
      obtain ⟨rfl, rfl, -⟩ := hrest
      exact h ⟨path, rfl⟩

section
variable {s : SplitResult}

theorem urlunsplit_eq (h : Scheme s.scheme) :
    urlunsplit s = s.scheme ++ ':' :: (s.body ++ (marked '?' s.query ++ marked '#' s.fragment)) := by
  rw [urlunsplit]
  simp only [if_neg h.ne_nil]
  rw [List.append_assoc]
  rfl

theorem not_slashed (h : s.slashed = false) :
    s.netloc = [] ∧ (s.scheme ≠ [] → s.scheme ∉ usesNetloc) ∧ ['/', '/'].isPrefixOf s.path = false := by
  rw [SplitResult.slashed, Bool.or_eq_false_iff, Bool.or_eq_false_iff] at h
  obtain ⟨⟨hnetloc, hscheme⟩, hpath⟩ := h
  refine ⟨by simpa using hnetloc, fun hne hmem ↦ ?_, hpath⟩
  rw [bne_iff_ne.mpr hne, decide_eq_true hmem] at hscheme
  cases hscheme

/-- The parts of a URL as the text of one is made of them. -/
structure Spelled (s : SplitResult) : Prop where
  scheme : Scheme s.scheme
  netloc : ∀ c ∈ s.netloc, isDelimiter c = false
  path : ∀ c ∈ s.path, c ≠ '?' ∧ c ≠ '#'
  rooted : s.slashed = true → Urllib.rooted s.path = s.path
  query : '#' ∉ s.query
  safe : ∀ c ∈ s.netloc ++ (s.path ++ (s.query ++ s.fragment)), isUnsafe c = false

theorem Spelled.rooted_path (h : Spelled s) (hslashed : s.slashed = true) :
    ∀ c, s.path.head? = some c → c = '/' := by
  intro c hc
  have hrooted := h.rooted hslashed
  by_contra hne
  have hhead : s.path ≠ [] ∧ s.path.head? ≠ some '/' := by
    refine ⟨?_, ?_⟩
    · rintro hnil
      rw [hnil] at hc
      cases hc
    · rw [hc]
      exact fun h ↦ hne (Option.some.inj h)
  rw [Urllib.rooted, if_pos hhead] at hrooted
  exact List.cons_ne_self _ _ hrooted

theorem Spelled.mem_body (h : Spelled s) {c : Char} (hc : c ∈ s.body) : c = '/' ∨ c ∈ s.netloc ∨ c ∈ s.path := by
  rw [SplitResult.body] at hc
  split at hc
  next hslashed =>
    rw [h.rooted hslashed, List.mem_cons, List.mem_cons, List.mem_append] at hc
    tauto
  next => exact .inr (.inr hc)

theorem Spelled.cleaned (h : Spelled s) : cleaned (urlunsplit s) = urlunsplit s := by
  rw [urlunsplit_eq h.scheme]
  refine cleaned_of_safe ?_ fun c hc ↦ ?_
  · obtain ⟨c, scheme, heq⟩ := List.exists_cons_of_ne_nil h.scheme.ne_nil
    rw [heq]
    exact (schemeChar_not (h.scheme.chars c (heq ▸ .head _)).1).2.2.2
  · have hpart : ∀ c, c ∈ s.netloc ∨ c ∈ s.path ∨ c ∈ s.query ∨ c ∈ s.fragment → isUnsafe c = false := by
      intro c hc
      refine h.safe c ?_
      simpa only [List.mem_append] using hc
    rw [List.mem_append, List.mem_cons, List.mem_append, List.mem_append] at hc
    rcases hc with hc | rfl | hc | hc | hc
    · exact (schemeChar_not (h.scheme.chars c hc).1).2.2.1
    · decide
    · rcases h.mem_body hc with rfl | hc | hc
      · decide
      · exact hpart c (.inl hc)
      · exact hpart c (.inr (.inl hc))
    · rcases mem_marked hc with rfl | hc
      · decide
      · exact hpart c (.inr (.inr (.inl hc)))
    · rcases mem_marked hc with rfl | hc
      · decide
      · exact hpart c (.inr (.inr (.inr hc)))

end

section
variable [Casing] {s : SplitResult}

theorem splitScheme_append {scheme : Text} (h : Scheme scheme) (rest : Text) :
    splitScheme (scheme ++ ':' :: rest) = (scheme, rest) := by
  have hname : (scheme ++ ':' :: rest).takeWhile (· != ':') = scheme := by
    rw [List.takeWhile_append_of_pos, List.takeWhile_cons_of_neg (by simp), List.append_nil]
    exact fun c hc ↦ bne_iff_ne.mpr (schemeChar_not (h.chars c hc).1).1
  have hall : scheme.all schemeChar = true := List.all_eq_true.mpr fun c hc ↦ (h.chars c hc).1
  have hlower : lower scheme = scheme :=
    lower_of_fixed (fixed_ascii fun c hc ↦ ⟨(schemeChar_bounds (h.chars c hc).1).2, (h.chars c hc).2⟩)
  have hmem : ':' ∈ scheme ++ ':' :: rest := List.mem_append_right _ (.head _)
  have hdrop : (scheme ++ ':' :: rest).drop (scheme.length + 1) = rest := by simp [List.drop_append]
  rw [splitScheme, hname, if_pos (by rw [h.head, hall, decide_eq_true hmem]; rfl), hlower, hdrop]

/-- The text of spelled parts is parsed into them again. -/
theorem Spelled.split_urlunsplit (h : Spelled s) : split (urlunsplit s) = s := by
  have hnetloc : splitNetloc (s.body ++ (marked '?' s.query ++ marked '#' s.fragment)) =
      (s.netloc, s.path ++ (marked '?' s.query ++ marked '#' s.fragment)) := by
    rw [SplitResult.body]
    split
    next hslashed =>
      rw [h.rooted hslashed, List.cons_append, List.cons_append, List.append_assoc]
      refine splitNetloc_slashed h.netloc fun c hc ↦ ?_
      cases hpath : s.path with
      | nil =>
        rw [hpath, List.nil_append] at hc
        rcases head_tails _ _ c hc with rfl | rfl
        · rfl
        · rfl
      | cons d path =>
        rw [hpath] at hc
        obtain rfl := Option.some.inj hc
        rw [h.rooted_path hslashed d (by rw [hpath]; rfl)]
        rfl
    next hslashed =>
      obtain ⟨hnil, -, hpath⟩ := not_slashed (Bool.eq_false_iff.mpr hslashed)
      rw [splitNetloc_plain (isPrefixOf_slashes_append hpath (head_tails _ _)), hnil]
  obtain ⟨hfragment, hquery⟩ := cut_tails h.path h.query s.fragment
  rw [split, h.cleaned, urlunsplit_eq h.scheme]
  simp only [splitScheme_append h.scheme, hnetloc, hfragment, hquery]

/-- Spelled parts with the network location in lower case. -/
structure Canonical (s : SplitResult) : Prop extends Spelled s where
  netloc_fixed : Fixed s.netloc

end

end Briefr.Python.Urllib
