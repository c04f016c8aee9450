import Briefr.Correlation.IocNormalize
import Briefr.Library.Dict
import Briefr.Python.Keywords
import Briefr.Python.Loop

namespace Briefr.Correlation.IocNormalize

open Briefr.Python Briefr.Python.Urllib Briefr.Library.Substitution
open Briefr.Blocklist (dropWww rstripDots)

theorem begins_word {α : Type} [DecidableEq α] (word text : List α) :
    begins (word.map fun c ↦ [c]) text = true ↔ word <+: text := by
  induction word generalizing text with
  | nil => exact iff_of_true (begins_nil text) List.nil_prefix
  | cons c word ih =>
    cases text with
    | nil => exact iff_of_false Bool.false_ne_true (by simp)
    | cons d text =>
      rw [List.map_cons, begins, Bool.and_eq_true, decide_eq_true_eq, List.mem_singleton, ih, List.cons_prefix_cons]
      exact and_congr_left' eq_comm

theorem occurs_word {α : Type} [DecidableEq α] (word text : List α) :
    Occurs (word.map fun c ↦ [c]) text ↔ word <:+: text := by
  rw [List.infix_iff_prefix_suffix]
  exact exists_congr fun t ↦ by rw [begins_word, and_comm]

/-- What starts with a symbol that a text does not have is no part of it. -/
theorem infix_append_of_head {α : Type} {c : α} {k a b : List α} (hc : c ∉ a) : c :: k <:+: a ++ b ↔ c :: k <:+: b := by
  rw [List.infix_append_iff_ne_nil]
  constructor
  · rintro (h | h | ⟨x, y, hx, -, heq, ha, -⟩)
    · exact absurd (h.subset (.head _)) hc
    · exact h
    · obtain ⟨d, x, rfl⟩ := List.exists_cons_of_ne_nil hx
      obtain ⟨rfl, -⟩ := List.cons.inj heq
      exact absurd (ha.subset (.head _)) hc
  · exact fun h ↦ .inr (.inl h)

section
variable {s : SplitResult}

theorem urlunsplit_settled (hscheme : Scheme s.scheme) : urlunsplit s.settled = urlunsplit s := by
  obtain ⟨hs, -, -, -, hquery, hfragment⟩ := settled_parts s
  rw [urlunsplit_eq hscheme, urlunsplit_eq (hs ▸ hscheme), body_settled, hs, hquery, hfragment]

/-- What `urlparse` makes of the parts that `urlsplit` finds. -/
def parseResult (s : SplitResult) : ParseResult :=
  let (path, params) := if s.scheme ∈ usesParams then splitParams s.path else (s.path, [])
  { s with path, params }

theorem tidy_eq (s : SplitResult) : (parseResult s).path ++ marked ';' (parseResult s).params =
    tidy s.scheme s.path := by
  by_cases h : s.scheme ∈ usesParams
  · simp only [parseResult, tidy, if_pos h]
  · simp only [parseResult, tidy, if_neg h]
    exact List.append_nil _

theorem colon_not_mem_scheme (h : Scheme s.scheme) : ':' ∉ s.scheme :=
  fun hmem ↦ (schemeChar_not (h.chars ':' hmem).1).1 rfl

end

def colonSlashes : Text := "://".toList

theorem colonSlashes_cleaned {text : Text} (h : colonSlashes <:+: text) : colonSlashes <:+: cleaned text := by
  have hcolon : ':' ∉ text.takeWhile isC0OrSpace := fun hmem ↦ absurd (List.mem_takeWhile_imp hmem) (by decide)
  rw [← List.takeWhile_append_dropWhile (p := isC0OrSpace) (l := text)] at h
  exact ((infix_append_of_head hcolon).mp h).filter fun c ↦ !isUnsafe c

theorem infix_tidy {scheme path : Text} (h : colonSlashes <:+: path) : colonSlashes <:+: tidy scheme path := by
  rw [tidy]
  split
  next =>
    rcases splitParams_cases path with heq | ⟨hnil, heq, -⟩
    · rwa [heq]
    · have hsplit : colonSlashes <:+: (splitParams path).1 ++ [';'] ↔
          colonSlashes <:+: (splitParams path).1 ∨ colonSlashes <:+: [] := infix_append_cons_iff (by decide)
      rw [heq, hsplit] at h
      rw [hnil]
      exact (h.resolve_right fun h ↦ absurd (List.infix_nil.mp h) (by decide)).trans (List.prefix_append _ _).isInfix
  next => exact h

theorem infix_marked {mark : Char} {text : Text} (h : colonSlashes <:+: text) : colonSlashes <:+: marked mark text := by
  rw [marked]
  split
  next hnil =>
    rw [hnil] at h
    exact h
  next => exact h.trans (List.suffix_cons _ _).isInfix

theorem head_tidy {scheme path : Text} {c : Char} (h : (tidy scheme path).head? = some c) : path.head? = some c := by
  rw [tidy] at h
  split at h
  next =>
    rcases splitParams_cases path with heq | ⟨hnil, heq, -⟩
    · rwa [heq] at h
    · rw [hnil, marked, if_pos rfl, List.append_nil] at h
      rw [heq, List.head?_append, h]
      rfl
  next => exact h

theorem infix_cut {mark : Char} (hmark : mark ∉ colonSlashes) {text : Text} (h : colonSlashes <:+: text) :
    colonSlashes <:+: (cut mark text).1 ∨ colonSlashes <:+: (cut mark text).2 := by
  obtain ⟨-, heq | ⟨heq, -⟩⟩ := cut_cases mark text
  · rw [heq] at h
    exact (infix_append_cons_iff hmark).mp h
  · rw [heq] at h
    exact .inl h

theorem infix_recut {scheme text : Text} (h : colonSlashes <:+: text) :
    colonSlashes <:+: tidy scheme (cut '?' (cut '#' text).1).1 ++
      (marked '?' (cut '?' (cut '#' text).1).2 ++ marked '#' (cut '#' text).2) := by
  have hhash : '#' ∉ colonSlashes := by decide
  have hquestion : '?' ∉ colonSlashes := by decide
  rcases infix_cut hhash h with h | h
  · rcases infix_cut hquestion h with h | h
    · exact (infix_tidy h).trans (List.prefix_append _ _).isInfix
    · exact (infix_marked h).trans ((List.prefix_append _ _).isInfix.trans (List.suffix_append _ _).isInfix)
  · exact (infix_marked h).trans ((List.suffix_append _ _).trans (List.suffix_append _ _)).isInfix

section
variable [Casing] {s s' : SplitResult}

theorem fixed_scheme (h : Scheme s.scheme) : Fixed s.scheme :=
  fixed_ascii fun c hc ↦ ⟨(schemeChar_bounds (h.chars c hc).1).2, (h.chars c hc).2⟩

/-- The network location is in lower case already, and its ends are no letters. -/
theorem netloc_of_lowered (h : Canonical s) {t : Text}
    (ht : Lowered (s.body ++ (marked '?' s.query ++ marked '#' s.fragment)) t) : s.netloc = (splitNetloc t).1 := by
  have hslash : lowerChar '/' = ['/'] := Interp.lowerChar_ascii '/' (by decide)
  rw [SplitResult.body] at ht
  split at ht
  next hslashed =>
    rw [List.cons_append, List.cons_append, List.append_assoc] at ht
    obtain ⟨t₁, ht₁, rfl⟩ := (lowered_cons_fixed hslash).mp ht
    obtain ⟨t₂, ht₂, rfl⟩ := (lowered_cons_fixed hslash).mp ht₁
    obtain ⟨u, hu, rfl⟩ := (lowered_append_fixed h.netloc_fixed).mp ht₂
    have hhead : ∀ c, u.head? = some c → isDelimiter c = true := by
      intro c hc
      have hrest : ∀ d, (rooted s.path ++ (marked '?' s.query ++ marked '#' s.fragment)).head? = some d →
          isDelimiter d = true ∧ lowerChar d = [d] := by
        intro d hd
        cases hpath : rooted s.path with
        | nil =>
          rw [hpath, List.nil_append] at hd
          rcases head_tails _ _ d hd with rfl | rfl
          · exact ⟨rfl, Interp.lowerChar_ascii '?' (by decide)⟩
          · exact ⟨rfl, Interp.lowerChar_ascii '#' (by decide)⟩
        | cons e path =>
          rw [hpath] at hd
          obtain rfl := Option.some.inj hd
          obtain rfl := head_rooted s.path e (by rw [hpath]; rfl)
          exact ⟨rfl, hslash⟩
      cases htext : rooted s.path ++ (marked '?' s.query ++ marked '#' s.fragment) with
      | nil =>
        rw [htext] at hu
        rw [lowered_nil.mp hu] at hc
        cases hc
      | cons d rest =>
        obtain ⟨hdelimiter, hfixed⟩ := hrest d (by rw [htext]; rfl)
        rw [htext] at hu
        obtain ⟨u, -, rfl⟩ := (lowered_cons_fixed hfixed).mp hu
        obtain rfl := Option.some.inj hc
        exact hdelimiter
    rw [splitNetloc_slashed h.netloc hhead]
  next hslashed =>
    obtain ⟨hnil, -, hpath⟩ := not_slashed (Bool.eq_false_iff.mpr hslashed)
    have hbare : ['/', '/'].isPrefixOf t = false := by
      have hplain := isPrefixOf_slashes_append hpath (head_tails s.query s.fragment)
      have hclosed : ∀ symbols ∈ "//".toList.map fun c ↦ [c], CaseClosed symbols := by decide
      have hbegins := begins_lowered hclosed ht []
      rw [List.append_nil, List.append_nil] at hbegins
      rw [Bool.eq_false_iff, ne_eq, List.isPrefixOf_iff_prefix] at hplain ⊢
      exact fun hstart ↦ hplain ((begins_word _ _).mp (hbegins.symm.trans ((begins_word _ _).mpr hstart)))
    rw [splitNetloc_plain hbare, hnil]

/-- Lower-casing a canonical URL keeps its scheme and its network location. -/
theorem same_parts (h : Canonical s) (h' : Canonical s') (heq : lower (urlunsplit s) = lower (urlunsplit s')) :
    s.scheme = s'.scheme ∧ s.netloc = s'.netloc := by
  have hsplit : ∀ {s : SplitResult}, Canonical s → ∃ t, lower (urlunsplit s) = s.scheme ++ ':' :: t ∧
      Lowered (s.body ++ (marked '?' s.query ++ marked '#' s.fragment)) t := by
    intro s h
    have hlower := lowered_lower (urlunsplit s)
    rw [urlunsplit_eq h.scheme] at hlower
    obtain ⟨t₁, ht₁, hs⟩ := (lowered_append_fixed (fixed_scheme h.scheme)).mp hlower
    obtain ⟨t, ht, rfl⟩ := (lowered_cons_fixed (Interp.lowerChar_ascii ':' (by decide))).mp ht₁
    rw [urlunsplit_eq h.scheme]
    exact ⟨t, hs, ht⟩
  obtain ⟨t, ht, hbody⟩ := hsplit h
  obtain ⟨t', ht', hbody'⟩ := hsplit h'
  rw [ht, ht'] at heq
  have hcut := congrArg (cut ':') heq
  rw [cut_append (colon_not_mem_scheme h.scheme), cut_append (colon_not_mem_scheme h'.scheme)] at hcut
  obtain ⟨hscheme, rfl⟩ := Prod.mk.inj hcut
  exact ⟨hscheme, (netloc_of_lowered h hbody).trans (netloc_of_lowered h' hbody').symm⟩

theorem colonSlashes_lower (text : Text) : colonSlashes <:+: lower text ↔ colonSlashes <:+: text := by
  have hclosed : ∀ symbols ∈ colonSlashes.map fun c ↦ [c], CaseClosed symbols := by decide
  have hoccurs := occurs_lower hclosed text []
  rwa [List.append_nil, List.append_nil, occurs_word, occurs_word] at hoccurs

section
variable [Netlocs]

theorem urlparse_eq (url : Text) :
    urlparse url = if accepts (split url).netloc then .ok (parseResult (split url)) else .error .valueError := by
  rw [urlparse, urlsplit]
  split
  next => rfl
  next => rfl

theorem normalizeUrl_eq {v a : Text} (h : normalizeUrl v = .ok a) : a = rewritten (urlText v) := by
  obtain ⟨parsed, hparsed, ha⟩ := bind_eq_ok.mp h
  rw [urlparse_eq] at hparsed
  have hparts := (parsed_split (urlText v)).scheme
  rw [rewritten, SplitResult.canonical]
  generalize split (urlText v) = s at hparsed hparts
  split at hparsed
  next =>
    obtain rfl := Except.ok.inj hparsed
    obtain rfl := Except.ok.inj ha
    have hscheme : Scheme s.respelled.scheme := by
      by_cases hnil : s.scheme = []
      · rw [show s.respelled.scheme = "http".toList from if_pos hnil]
        exact scheme_http
      · rw [show s.respelled.scheme = s.scheme from if_neg hnil]
        exact hparts.resolve_left hnil
    have hlower : lower (if s.scheme = [] then "http".toList else s.scheme) = s.respelled.scheme :=
      lower_of_fixed (fixed_scheme hscheme)
    rw [urlunsplit_settled hscheme, urlunparse]
    refine congrArg urlunsplit ?_
    dsimp only
    rw [tidy_eq]
    rw [show (parseResult s).scheme = s.scheme from rfl, hlower]
    rfl
  next => cases hparsed

/-- The end of `_url_host`. -/
def hostOf (netloc : Text) : Py Text :=
  if accepts netloc then .ok (dropWww (rstripDots (lower ((hostname netloc).getD [])))) else .error .valueError

theorem urlHost_eq (value : Text) :
    urlHost value = hostOf (split (if colonSlashes <:+: value then value else "http://".toList ++ value)).netloc := by
  have htext : (if isIn "://".toList value then value else "http://".toList ++ value) =
      if colonSlashes <:+: value then value else "http://".toList ++ value := by
    by_cases h : colonSlashes <:+: value
    · rw [if_pos h, if_pos (show isIn "://".toList value = true from decide_eq_true h)]
    · rw [if_neg h, if_neg (fun hin : isIn "://".toList value = true ↦ h (of_decide_eq_true hin))]
  rw [urlHost, htext, urlparse_eq, hostOf]
  generalize split (if colonSlashes <:+: value then value else "http://".toList ++ value) = s
  by_cases h : accepts s.netloc = true
  · rw [if_pos h, if_pos h]
    rfl
  · rw [if_neg h, if_neg h]
    rfl

end

theorem not_slashed_of_rewritten {text : Text} (h : ¬colonSlashes <:+: rewritten text) :
    (split text).canonical.slashed = false := by
  rw [Bool.eq_false_iff]
  intro hslashed
  refine h ?_
  rw [rewritten, urlunsplit_eq (parsed_split text).canonical.scheme, SplitResult.body, if_pos hslashed]
  exact ⟨(split text).canonical.scheme, (split text).canonical.netloc ++ (rooted (split text).canonical.path ++
    (marked '?' (split text).canonical.query ++ marked '#' (split text).canonical.fragment)), by simp [colonSlashes]⟩

/-- A URL with `://` in it whose canonical form has none: there is no network location, and the path starts with a
slash. -/
theorem canonical_path {text : Text} (hin : colonSlashes <:+: text) (hout : ¬colonSlashes <:+: rewritten text) :
    (split text).canonical.slashed = false ∧ ∀ c, (split text).canonical.path.head? = some c → c = '/' := by
  have hc := (parsed_split text).canonical
  have hslashed := not_slashed_of_rewritten hout
  refine ⟨hslashed, ?_⟩
  have hrespelled : (split text).respelled.slashed = false := (slashed_settled _).symm.trans hslashed
  obtain ⟨-, -, -, hplain, hquery, hfragment⟩ := settled_parts (split text).respelled
  replace hquery : (split text).canonical.query = (split text).query := hquery
  replace hfragment : (split text).canonical.fragment = (split text).fragment := hfragment
  have hpath : (split text).canonical.path = tidy (split text).scheme (split text).path := hplain hrespelled
  obtain ⟨-, husesNetloc, -⟩ := not_slashed hrespelled
  have hscheme : (split text).scheme ≠ [] := by
    intro hnil
    have hhttp : (split text).respelled.scheme = "http".toList := if_pos hnil
    rw [hhttp] at husesNetloc
    exact husesNetloc (by decide) (by decide)
  obtain ⟨rest, path, hfirst, hsecond, hpath', hquery', hfragment'⟩ := split_eq text
  have hcleaned := colonSlashes_cleaned hin
  rcases splitScheme_cases (cleaned text) with ⟨name, rest', heq, -, hname, -, hsplit⟩ | hsplit
  · rw [hsplit] at hfirst
    obtain ⟨-, rfl⟩ := Prod.mk.inj hfirst
    rw [heq, colonSlashes, show "://".toList = ':' :: "//".toList from rfl, infix_append_of_head hname,
      List.infix_cons_iff] at hcleaned
    rcases splitNetloc_cases rest' with ⟨netloc, tail, -, -, htail, hloc⟩ | ⟨hnot, hloc⟩
    · rw [hloc] at hsecond
      obtain ⟨-, rfl⟩ := Prod.mk.inj hsecond
      intro c hc
      rw [hpath] at hc
      have hhead := head_tidy hc
      rw [hpath'] at hhead
      obtain ⟨hhead, hquestion⟩ := head_cut hhead
      obtain ⟨hhead, hhash⟩ := head_cut hhead
      have hdelimiter := htail c hhead
      simp only [isDelimiter, Bool.or_eq_true, beq_iff_eq] at hdelimiter
      exact (hdelimiter.resolve_right hhash).resolve_right hquestion
    · rw [hloc] at hsecond
      obtain ⟨-, rfl⟩ := Prod.mk.inj hsecond
      have hbehind : colonSlashes <:+: rest' := by
        refine hcleaned.resolve_left fun hstart ↦ ?_
        obtain ⟨-, hslashes⟩ := List.cons_prefix_cons.mp hstart
        rw [Bool.eq_false_iff, ne_eq, List.isPrefixOf_iff_prefix] at hnot
        exact hnot hslashes
      refine absurd ?_ hout
      rw [rewritten, urlunsplit_eq hc.scheme, SplitResult.body, if_neg (Bool.eq_false_iff.mp hslashed), hpath, hquery,
        hfragment]
      refine List.IsInfix.trans ?_ (List.suffix_append_of_suffix (List.suffix_cons _ _)).isInfix
      rw [hpath', hquery', hfragment']
      exact infix_recut hbehind
  · rw [hsplit] at hfirst
    exact absurd (Prod.mk.inj hfirst).1.symm hscheme

/-- The network location that is read where `http` and two slashes stand before a URL that has none. -/
theorem netloc_behind_http {s : SplitResult} (h : Canonical s) (hslashed : s.slashed = false)
    (hhead : ∀ c, s.path.head? = some c → c = '/') :
    (split ("http://".toList ++ urlunsplit s)).netloc = s.scheme ++ [':'] := by
  have hsafe : ∀ c, c ∈ s.path ∨ c ∈ s.query ∨ c ∈ s.fragment → isUnsafe c = false := by
    intro c hc
    refine h.safe c (List.mem_append_right _ ?_)
    simpa only [List.mem_append] using hc
  have hspelled : Spelled { s with scheme := "http".toList, netloc := s.scheme ++ [':'] } := by
    refine ⟨scheme_http, fun c hc ↦ ?_, h.path, fun _ ↦ rooted_of_head hhead, h.query, fun c hc ↦ ?_⟩
    · rcases List.mem_append.mp hc with hc | hc
      · exact (schemeChar_not (h.scheme.chars c hc).1).2.1
      · obtain rfl := List.mem_singleton.mp hc
        decide
    · simp only [List.mem_append, List.mem_singleton] at hc
      rcases hc with (hc | rfl) | hc
      · exact (schemeChar_not (h.scheme.chars c hc).1).2.2.1
      · decide
      · exact hsafe c hc
  have htext : "http://".toList ++ urlunsplit s =
      urlunsplit { s with scheme := "http".toList, netloc := s.scheme ++ [':'] } := by
    rw [urlunsplit_eq h.scheme, urlunsplit_eq hspelled.scheme, SplitResult.body, SplitResult.body,
      if_neg (Bool.eq_false_iff.mp hslashed), if_pos (by simp [SplitResult.slashed])]
    dsimp only
    rw [rooted_of_head hhead]
    simp
  rw [htext, hspelled.split_urlunsplit]

variable [Netlocs]

/-- The host of a canonical URL, out of the parts of it. -/
theorem urlHost_canonical {v a : Text} (h : normalizeUrl v = .ok a) : ∃ s, Canonical s ∧ a = urlunsplit s ∧
    urlHost a = hostOf (if colonSlashes <:+: a then s.netloc else s.scheme ++ [':']) := by
  have hc := (parsed_split (urlText v)).canonical
  obtain rfl := normalizeUrl_eq h
  refine ⟨_, hc, rfl, ?_⟩
  rw [urlHost_eq]
  by_cases hslashes : colonSlashes <:+: rewritten (urlText v)
  · rw [if_pos hslashes, if_pos hslashes, split_rewritten]
  · have hin : colonSlashes <:+: urlText v := by
      rw [urlText]
      split
      next hin => exact of_decide_eq_true hin
      next => exact ⟨"http".toList, strip (refang v), rfl⟩
    obtain ⟨hslashed, hhead⟩ := canonical_path hin hslashes
    rw [if_neg hslashes, if_neg hslashes, rewritten, netloc_behind_http hc hslashed hhead]

/-- Canonical URLs that differ in case only have the same host. -/
theorem urlHost_congr {v v' a a' : Text} (h : normalizeUrl v = .ok a) (h' : normalizeUrl v' = .ok a')
    (heq : lower a = lower a') : urlHost a = urlHost a' := by
  obtain ⟨s, hs, rfl, hhost⟩ := urlHost_canonical h
  obtain ⟨s', hs', rfl, hhost'⟩ := urlHost_canonical h'
  obtain ⟨hscheme, hnetloc⟩ := same_parts hs hs' heq
  have hslashes : colonSlashes <:+: urlunsplit s ↔ colonSlashes <:+: urlunsplit s' := by
    rw [← colonSlashes_lower, heq, colonSlashes_lower]
  rw [hhost, hhost', hscheme, hnetloc]
  simp only [hslashes]

end

end Briefr.Correlation.IocNormalize

namespace Briefr.Correlation.SourceEvidence

open Briefr.Python Briefr.Python.Urllib Briefr.Library Briefr.Correlation.IocNormalize
open Briefr.Blocklist (normalizeIocType)

structure SourceDescriptor where
  sourceKey : Text
  mirrorTypeMap : List (Text × Text)

def catalogSources : List SourceDescriptor :=
  [⟨"threatfox".toList, [("IP".toList, "ip".toList), ("DOMAIN".toList, "domain".toList), ("HASH".toList, "hash".toList),
      ("URL".toList, "domain".toList)]⟩,
    ⟨"urlhaus".toList, [("URL".toList, "url".toList), ("DOMAIN".toList, "url".toList)]⟩,
    ⟨"malwarebazaar".toList, [("HASH".toList, "hash".toList)]⟩,
    ⟨"feodo".toList, [("IP".toList, "ip".toList)]⟩,
    ⟨"phishtank".toList, [("URL".toList, "url".toList), ("DOMAIN".toList, "url".toList)]⟩]

inductive JoinColumn
  | hostIoc
  | iocValue
  deriving DecidableEq

/-- A join column with the mirror's type and the value that is looked up. -/
structure Lookup where
  column : JoinColumn
  mirrorType : Text
  value : Text
  deriving DecidableEq

/-- The columns of a row that are selected. -/
structure Evidence where
  source : Text
  refId : Text
  iocType : Text
  iocValue : Text
  hostIoc : Option Text
  malware : Option Text
  threatType : Option Text
  confidenceLevel : Option ℤ
  firstSeen : Option Text
  deriving DecidableEq

structure MirrorRow extends Evidence where
  iocValueDigest : Text

/-- `ti_mirror_iocs`, of which the source and the `ref_id` are the key. -/
structure Mirror where
  rows : List MirrorRow
  keys : (rows.map fun row ↦ (row.source, row.refId)).Nodup

/-- The digest, and `LOWER`, which leaves a text in lower case as it is. -/
class Digests [Interp] where
  md5 : Text → Text
  sqlLower : Text → Text
  sqlLower_lower : ∀ text, lower text = text → sqlLower text = text

export Digests (md5 sqlLower)

abbrev EdgeKey := Text × Text

abbrev Edge := Text × Text

section
variable [Interp]

def SourceDescriptor.canonicalType (desc : SourceDescriptor) (iocType : Text) : Option Text :=
  desc.mirrorTypeMap.lookup (normalizeIocType iocType)

/-- The keys of a row in the reverse index. -/
def Evidence.candidates (row : Evidence) : List Lookup :=
  let mirrorType := lower (strip row.iocType)
  if mirrorType = "url".toList then
    let hostLower := lower (strip (row.hostIoc.getD []))
    let valueLower := lower (strip row.iocValue)
    (if hostLower ≠ [] then [⟨.hostIoc, "url".toList, hostLower⟩] else []) ++
      (if valueLower ≠ [] then [⟨.iocValue, "url".toList, valueLower⟩] else [])
  else [⟨.iocValue, mirrorType, lower (strip row.iocValue)⟩]

def reverseIndex (lookup : Dict EdgeKey Lookup) : Dict Lookup (List EdgeKey) :=
  Dict.groups (lookup.items.map fun entry ↦ (entry.2, entry.1))

/-- The keys that a row is given to, each of them once. -/
def matchedKeys (reverse : Dict Lookup (List EdgeKey)) (row : Evidence) : List EdgeKey :=
  (row.candidates.flatMap fun candidate ↦ (reverse.get? candidate).getD []).dedup

def record (reverse : Dict Lookup (List EdgeKey)) (hits : Dict EdgeKey (List Evidence)) (row : Evidence) :
    Dict EdgeKey (List Evidence) :=
  (matchedKeys reverse row).foldl (fun hits key ↦ hits.append key row) hits

variable [Digests]

def iocValueDigest (iocValue : Text) : Text := md5 (strip iocValue)

/-- The condition of `_mirror_clauses` on a row. -/
def Lookup.clause (pair : Lookup) (row : MirrorRow) : Bool :=
  match pair.column with
  | .iocValue =>
    row.iocType == pair.mirrorType && (row.iocValueDigest == iocValueDigest pair.value ||
      (row.iocValueDigest == [] && sqlLower row.iocValue == pair.value))
  | .hostIoc => row.iocType == pair.mirrorType && row.hostIoc.any fun host ↦ sqlLower host == pair.value

/-- The rows of a source that one of the clauses takes. -/
def sourceRows (db : Mirror) (desc : SourceDescriptor) (lookup : Dict EdgeKey Lookup) : List Evidence :=
  (db.rows.filter fun row ↦
    row.source == desc.sourceKey && lookup.items.any fun entry ↦ entry.2.clause row).map MirrorRow.toEvidence

end

section
variable [Casing] [Netlocs] [IpAddresses]

def iocEdgeKey (iocType iocValue : Text) : Py (Option EdgeKey) := do
  match ← normalizeIoc iocType iocValue with
  | none => return none
  | some normalized => return some (normalized.type, lower normalized.value)

def mirrorLookupPair (desc : SourceDescriptor) (iocType iocValue : Text) : Py (Option Lookup) :=
  match desc.canonicalType iocType with
  | none => .ok none
  | some mirrorType => do
    match ← normalizeIoc iocType iocValue with
    | none => return none
    | some normalized =>
      if mirrorType = "url".toList ∧ normalized.type = "DOMAIN".toList then
        return some ⟨.hostIoc, "url".toList, lower normalized.value⟩
      else if mirrorType = "url".toList ∧ normalized.type = "URL".toList then
        return some ⟨.iocValue, "url".toList, lower normalized.value⟩
      else if mirrorType = "domain".toList ∧ normalized.type = "URL".toList then
        let host ← urlHost normalized.value
        if host = [] then return none else return some ⟨.iocValue, "domain".toList, host⟩
      else return some ⟨.iocValue, mirrorType, lower normalized.value⟩

def addEdge (keys : Dict EdgeKey Edge) (edge : Edge) : Py (Dict EdgeKey Edge) := do
  match ← iocEdgeKey edge.1 edge.2 with
  | none => return keys
  | some key => return keys.set key edge

def edgeKeys (iocs : List Edge) : Py (Dict EdgeKey Edge) := iocs.foldlM addEdge .empty

def addLookup (desc : SourceDescriptor) (suppressHostLevel : Finset Text) (lookup : Dict EdgeKey Lookup)
    (entry : EdgeKey × Edge) : Py (Dict EdgeKey Lookup) := do
  match ← mirrorLookupPair desc entry.2.1 entry.2.2 with
  | none => return lookup
  | some pair =>
    if pair.column = .hostIoc ∧ pair.value ∈ suppressHostLevel then return lookup
    else return lookup.set entry.1 pair

def lookups (desc : SourceDescriptor) (suppressHostLevel : Finset Text) (keys : Dict EdgeKey Edge) :
    Py (Dict EdgeKey Lookup) :=
  keys.items.foldlM (addLookup desc suppressHostLevel) .empty

variable [Digests]

def addSource (db : Mirror) (suppressHostLevel : Finset Text) (keys : Dict EdgeKey Edge)
    (hits : Dict EdgeKey (List Evidence)) (desc : SourceDescriptor) : Py (Dict EdgeKey (List Evidence)) := do
  let lookup ← lookups desc suppressHostLevel keys
  if lookup.items = [] then return hits
  else return (sourceRows db desc lookup).foldl (record (reverseIndex lookup)) hits

def batchSourceEvidence (db : Mirror) (iocs : List Edge) (suppressHostLevel : Finset Text) :
    Py (Dict EdgeKey (List Evidence)) :=
  if iocs = [] then .ok .empty
  else do
    let keys ← edgeKeys iocs
    if keys.items = [] then return .empty
    else catalogSources.foldlM (addSource db suppressHostLevel keys) .empty

end

end Briefr.Correlation.SourceEvidence
