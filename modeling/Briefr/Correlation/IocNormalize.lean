import Briefr.Blocklist.Build
import Briefr.Library.Substitution
import Briefr.Python.UrlCanonical

namespace Briefr.Correlation.IocNormalize

open Briefr.Python Briefr.Python.Urllib Briefr.Library.Substitution Briefr.Blocklist

def isHexDigit (c : Char) : Bool := c.isDigit || ('a' ≤ c && c ≤ 'f') || ('A' ≤ c && c ≤ 'F')

/-- `ipaddress`: the numbers of the addresses that are read and the texts that are written, which are read as the same
number again, and whether an address is private, loopback, link-local or reserved. -/
class IpAddresses where
  ipv4 : Text → Option ℕ
  ipv4Text : ℕ → Text
  ipv6 : Text → Option ℕ
  ipv6Text : ℕ → Text
  isInternal : Text → Bool
  ipv4_text : ∀ text n, ipv4 text = some n → ipv4 (ipv4Text n) = some n
  ipv4_chars : ∀ text n, ipv4 text = some n → ∀ c ∈ text, c.isDigit = true ∨ c = '.'
  ipv6_text : ∀ text n, ipv6 text = some n → ipv6 (ipv6Text n) = some n
  ipv6_chars : ∀ text n, ipv6 text = some n → ∀ c ∈ text, isHexDigit c = true ∨ c = ':' ∨ c = '.'
  ipv6_colon : ∀ text n, ipv6 text = some n → ':' ∈ text

export IpAddresses (ipv4 ipv4Text ipv6 ipv6Text isInternal)

/-- No text is an address. -/
@[reducible] def noAddresses : IpAddresses where
  ipv4 _ := none
  ipv4Text _ := []
  ipv6 _ := none
  ipv6Text _ := []
  isInternal _ := false
  ipv4_text _ _ h := by cases h
  ipv4_chars _ _ h := by cases h
  ipv6_text _ _ h := by cases h
  ipv6_chars _ _ h := by cases h
  ipv6_colon _ _ h := by cases h

def hxxpLetters (secure : Bool) : Word Char :=
  [['h', 'H'], ['x', 'X'], ['x', 'X'], ['p', 'P']] ++ if secure then [['s', 'S', longS]] else []

/-- `hxxps?`, the separator and two slashes, in any case. -/
def hxxp (separator : Word Char) : List (Word Char) :=
  [true, false].map fun secure ↦ hxxpLetters secure ++ (separator ++ [['/'], ['/']])

def bracketed (mark : Char) : Word Char := [['['], [mark], [']']]

def defangReplacements : List (List (Word Char) × Text) :=
  [(hxxp [[':']], "http://".toList), ([bracketed '.'], ['.']), ([bracketed ':'], [':']), ([bracketed '@'], ['@'])]

def publicResolverIps : List Text :=
  ["8.8.8.8".toList, "8.8.4.4".toList, "2001:4860:4860::8888".toList, "2001:4860:4860::8844".toList,
    "1.1.1.1".toList, "1.0.0.1".toList, "2606:4700:4700::1111".toList, "2606:4700:4700::1001".toList,
    "9.9.9.9".toList, "149.112.112.112".toList, "2620:fe::fe".toList, "2620:fe::9".toList, "208.67.222.222".toList,
    "208.67.220.220".toList, "2620:119:35::35".toList, "2620:119:53::53".toList, "4.2.2.1".toList, "4.2.2.2".toList,
    "64.6.64.6".toList, "64.6.65.6".toList]

/-- `str(ipaddress.ip_address(text))`; the scope of an IPv6 address stays as it is. -/
def ipAddress [IpAddresses] (text : Text) : Option Text :=
  match ipv4 text with
  | some n => some (ipv4Text n)
  | none =>
    if '/' ∈ text then none
    else if '%' ∈ text then
      if (cut '%' text).2 = [] ∨ '%' ∈ (cut '%' text).2 then none
      else (ipv6 (cut '%' text).1).map fun n ↦ ipv6Text n ++ '%' :: (cut '%' text).2
    else (ipv6 text).map ipv6Text

section
variable [Interp]

def refang (value : Text) : Text :=
  defangReplacements.foldl (fun out replacement ↦ replaceAll replacement.1 replacement.2 out) (strip value)

def normalizeHash (value : Text) : Text := lower (value.filter isHexDigit)

def isNoiseIp [IpAddresses] (value : Text) : Bool :=
  decide (strip value ∈ publicResolverIps) || ((ipAddress (strip value)).isSome && isInternal (strip value))

end

structure Info where
  rawValue : Text
  isNoiseIp : Option Bool := none
  host : Option Text := none

structure Normalized where
  type : Text
  value : Text
  info : Info

section
variable [Casing] [Netlocs]

/-- The text that `_normalize_url` parses. -/
def urlText (value : Text) : Text :=
  let v := strip (refang value)
  if isIn "://".toList v then v else "http://".toList ++ v

def normalizeUrl (value : Text) : Py Text := do
  let parsed ← urlparse (urlText value)
  pure (urlunparse
    { parsed with
      scheme := lower (if parsed.scheme = [] then "http".toList else parsed.scheme)
      netloc := lower parsed.netloc })

def urlHost (value : Text) : Py Text := do
  let parsed ← urlparse (if isIn "://".toList value then value else "http://".toList ++ value)
  pure (dropWww (rstripDots (lower ((hostname parsed.netloc).getD []))))

def normalizeIoc [IpAddresses] (iocType iocValue : Text) : Py (Option Normalized) :=
  let raw := strip iocValue
  if raw = [] then .ok none
  else
    let type := normalizeIocType iocType
    let refanged := refang raw
    let info : Info := { rawValue := iocValue }
    if type = "IP".toList then
      match ipAddress refanged with
      | none => .ok none
      | some value => .ok (some { type, value, info := { info with isNoiseIp := some (isNoiseIp value) } })
    else if type = "DOMAIN".toList then
      let value := normalizeDomain refanged
      if value = [] ∨ '.' ∉ value then .ok none
      else .ok (some { type, value, info := { info with host := some value } })
    else if type = "URL".toList then do
      let value ← normalizeUrl refanged
      if value.length < 8 then pure none
      else
        let host ← urlHost value
        pure (some { type, value, info := { info with host := some host } })
    else if type = "HASH".toList then
      let value := normalizeHash refanged
      if value.length < 32 then .ok none else .ok (some { type, value, info })
    else .ok (some { type, value := refanged, info })

end

end Briefr.Correlation.IocNormalize

namespace Briefr.Correlation.IocNormalize

open Briefr.Python Briefr.Library.Substitution

def markers : List (Word Char) := hxxp [[':']] ++ [bracketed '.', bracketed ':', bracketed '@']

/-- A marker is left in the text. -/
def Marked (text : Text) : Prop := ∃ word ∈ markers, Occurs word text

def nested (mark : Char) : Word Char := ['['] :: (bracketed mark ++ [[']']])

def nestedMarkers : List (Word Char) := hxxp (bracketed ':') ++ [nested '.', nested ':', nested '@']

/-- The text has a marker in brackets, or a colon in brackets in the marker of a scheme. -/
def Nested (text : Text) : Prop := ∃ word ∈ nestedMarkers, Occurs word text

def unbracket (mark : Char) (text : Text) : Text := replaceAll [bracketed mark] [mark] text

def refangScheme (text : Text) : Text := replaceAll (hxxp [[':']]) "http://".toList text

theorem refang_eq [Interp] (value : Text) :
    refang value = unbracket '@' (unbracket ':' (unbracket '.' (refangScheme (strip value)))) := rfl

section
variable {mark : Char} {word : Word Char} {text : Text}

theorem hxxp_iff {p : Word Char → Prop} (separator : Word Char) : (∃ word ∈ hxxp separator, p word) ↔
    ∃ secure, p (hxxpLetters secure ++ (separator ++ [['/'], ['/']])) := by
  constructor
  · rintro ⟨word, hword, h⟩
    obtain ⟨secure, -, rfl⟩ := List.mem_map.mp hword
    exact ⟨secure, h⟩
  · rintro ⟨secure, h⟩
    exact ⟨_, List.mem_map_of_mem (by cases secure <;> decide), h⟩

theorem hxxp_ne_nil (separator : Word Char) : ∀ word ∈ hxxp separator, word ≠ [] := by
  intro word hword
  obtain ⟨secure, -, rfl⟩ := List.mem_map.mp hword
  exact List.cons_ne_nil _ _

theorem bracketed_ne_nil (mark : Char) : ∀ word ∈ [bracketed mark], word ≠ [] :=
  List.forall_mem_singleton.mpr (List.cons_ne_nil _ _)

theorem occurs_unbracket (h : Independent [bracketed mark] [mark] word) :
    Occurs word (unbracket mark text) ↔ Occurs word text := h.occurs_iff (bracketed_ne_nil mark)

theorem occurs_refangScheme (h : Independent (hxxp [[':']]) "http://".toList word) :
    Occurs word (refangScheme text) ↔ Occurs word text := h.occurs_iff (hxxp_ne_nil _)

/-- A bracketed mark is left where there was one in brackets. -/
theorem occurs_own_mark (hmark : mark ≠ '[') (h : Widened (bracketed mark) mark [['[']] [[']']]) :
    Occurs (bracketed mark) (unbracket mark text) ↔ Occurs (nested mark) text := by
  refine h.occurs_iff (List.cons_ne_nil _ _) fun s _ hs ↦ ?_
  obtain ⟨word, -, -, heq⟩ := replaceAll_of_match (bracketed_ne_nil mark) [mark] (.head _) hs
  rw [heq, List.singleton_append, List.singleton_append, begins, Bool.and_eq_false_iff, decide_eq_false_iff_not,
    List.mem_singleton]
  exact .inl hmark

theorem not_occurs_refangScheme (hword : word ∈ hxxp [[':']]) : ¬Occurs word (refangScheme text) := by
  have hcopied : ∀ word ∈ hxxp [[':']], ∀ w ∈ word.tails, w ≠ [] → clash w "http://".toList = true := by decide
  have houtside : ∀ word ∈ hxxp [[':']], ∀ u ∈ ("http://".toList).tails, u ≠ [] → clash word u = true := by decide
  exact not_occurs_replaceAll (hxxp_ne_nil _) hword (hcopied word hword) (houtside word hword)

/-- The marker of a scheme is left where its colon was in brackets. -/
theorem occurs_scheme_colon {before : Word Char} (h : Widened (bracketed ':') ':' before [['/'], ['/']])
    (hnone : ¬Occurs (before ++ [':'] :: [['/'], ['/']]) text) :
    Occurs (before ++ ([[':']] ++ [['/'], ['/']])) (unbracket ':' text) ↔
      Occurs (before ++ (bracketed ':' ++ [['/'], ['/']])) text :=
  h.occurs_iff (List.cons_ne_nil _ _) fun s hs hbegins ↦ absurd ⟨s, hs, hbegins⟩ hnone

theorem marked_iff : Marked text ↔ (∃ word ∈ hxxp [[':']], Occurs word text) ∨ Occurs (bracketed '.') text ∨
    Occurs (bracketed ':') text ∨ Occurs (bracketed '@') text := by
  simp only [Marked, markers, List.mem_append, List.mem_cons, List.not_mem_nil, or_false, or_and_right, exists_or,
    exists_eq_left]

theorem nested_iff : Nested text ↔ (∃ word ∈ hxxp (bracketed ':'), Occurs word text) ∨ Occurs (nested '.') text ∨
    Occurs (nested ':') text ∨ Occurs (nested '@') text := by
  simp only [Nested, nestedMarkers, List.mem_append, List.mem_cons, List.not_mem_nil, or_false, or_and_right, exists_or,
    exists_eq_left]

end

/-- A character that every marker has, and no replacement. -/
def isMarkChar (c : Char) : Bool := c == '[' || c == 'x' || c == 'X'

theorem countP_unbracket_le (mark : Char) (hmark : isMarkChar mark = false) (text : Text) :
    (unbracket mark text).countP isMarkChar ≤ text.countP isMarkChar := by
  refine countP_replaceAll_le isMarkChar (bracketed_ne_nil mark) (fun word _ ↦ ?_) text
  rw [List.countP_singleton, hmark]
  exact Nat.zero_le _

theorem countP_unbracket_lt {mark : Char} (hmark : isMarkChar mark = false) {text : Text}
    (h : Occurs (bracketed mark) text) : (unbracket mark text).countP isMarkChar < text.countP isMarkChar := by
  refine countP_replaceAll_lt isMarkChar (bracketed_ne_nil mark) (List.forall_mem_singleton.mpr ?_) ⟨_, .head _, h⟩
  rw [List.countP_singleton, hmark, bracketed, List.countP_cons_of_pos (by decide)]
  exact Nat.succ_pos _

theorem countP_refangScheme_le (text : Text) : (refangScheme text).countP isMarkChar ≤ text.countP isMarkChar :=
  countP_replaceAll_le isMarkChar (hxxp_ne_nil _) (by decide) text

theorem countP_refangScheme_lt {text : Text} (h : ∃ word ∈ hxxp [[':']], Occurs word text) :
    (refangScheme text).countP isMarkChar < text.countP isMarkChar :=
  countP_replaceAll_lt isMarkChar (hxxp_ne_nil _) (by decide) h

theorem unbracket_eq_self {mark : Char} {text : Text} (h : ¬Occurs (bracketed mark) text) : unbracket mark text = text :=
  replaceAll_eq_self (List.forall_mem_singleton.mpr h)

theorem refangScheme_eq_self {text : Text} (h : ¬∃ word ∈ hxxp [[':']], Occurs word text) : refangScheme text = text :=
  replaceAll_eq_self fun word hword hoccurs ↦ h ⟨word, hword, hoccurs⟩

section
variable [Interp]

/-- What is left of the markers is what was nested. -/
theorem marked_refang (value : Text) : Marked (refang value) ↔ Nested (strip value) := by
  have hword : ∀ secure, Occurs (hxxpLetters secure ++ ([[':']] ++ [['/'], ['/']])) (refang value) ↔
      Occurs (hxxpLetters secure ++ (bracketed ':' ++ [['/'], ['/']])) (strip value) := by
    intro secure
    have hat : Independent [bracketed '@'] ['@'] (hxxpLetters secure ++ ([[':']] ++ [['/'], ['/']])) := by
      cases secure <;> decide
    have hold : Independent [bracketed '.'] ['.'] (hxxpLetters secure ++ ([[':']] ++ [['/'], ['/']])) := by
      cases secure <;> decide
    have hcolon : Widened (bracketed ':') ':' (hxxpLetters secure) [['/'], ['/']] := by cases secure <;> decide
    have hdot : Independent [bracketed '.'] ['.'] (hxxpLetters secure ++ (bracketed ':' ++ [['/'], ['/']])) := by
      cases secure <;> decide
    have hscheme : Independent (hxxp [[':']]) "http://".toList
        (hxxpLetters secure ++ (bracketed ':' ++ [['/'], ['/']])) := by
      cases secure <;> decide
    have hnone : ¬Occurs (hxxpLetters secure ++ [':'] :: [['/'], ['/']])
        (unbracket '.' (refangScheme (strip value))) := by
      rw [← List.singleton_append (x := [':']), occurs_unbracket hold]
      exact not_occurs_refangScheme (List.mem_map_of_mem (by cases secure <;> decide))
    rw [refang_eq, occurs_unbracket hat, occurs_scheme_colon hcolon hnone, occurs_unbracket hdot,
      occurs_refangScheme hscheme]
  have hdot : Occurs (bracketed '.') (refang value) ↔ Occurs (nested '.') (strip value) := by
    rw [refang_eq, occurs_unbracket (by decide), occurs_unbracket (by decide), occurs_own_mark (by decide) (by decide),
      occurs_refangScheme (by decide)]
  have hcolon : Occurs (bracketed ':') (refang value) ↔ Occurs (nested ':') (strip value) := by
    rw [refang_eq, occurs_unbracket (by decide), occurs_own_mark (by decide) (by decide), occurs_unbracket (by decide),
      occurs_refangScheme (by decide)]
  have hat : Occurs (bracketed '@') (refang value) ↔ Occurs (nested '@') (strip value) := by
    rw [refang_eq, occurs_own_mark (by decide) (by decide), occurs_unbracket (by decide), occurs_unbracket (by decide),
      occurs_refangScheme (by decide)]
  rw [marked_iff, nested_iff, hxxp_iff, hxxp_iff, exists_congr hword, hdot, hcolon, hat]

/-- Text without a marker is only stripped. -/
theorem refang_of_not_marked {value : Text} (h : ¬Marked (strip value)) : refang value = strip value := by
  rw [marked_iff, not_or, not_or, not_or] at h
  obtain ⟨hscheme, hdot, hcolon, hat⟩ := h
  rw [refang_eq, refangScheme_eq_self hscheme, unbracket_eq_self hdot, unbracket_eq_self hcolon, unbracket_eq_self hat]

/-- Refanging a text with a marker takes characters of it away. -/
theorem countP_refang_lt {value : Text} (h : Marked (strip value)) :
    (refang value).countP isMarkChar < (strip value).countP isMarkChar := by
  have hat := countP_unbracket_le '@' (by decide) (unbracket ':' (unbracket '.' (refangScheme (strip value))))
  have hcolon := countP_unbracket_le ':' (by decide) (unbracket '.' (refangScheme (strip value)))
  have hdot := countP_unbracket_le '.' (by decide) (refangScheme (strip value))
  have hscheme := countP_refangScheme_le (strip value)
  rw [refang_eq]
  rw [marked_iff] at h
  by_cases hs : ∃ word ∈ hxxp [[':']], Occurs word (strip value)
  · exact hat.trans_lt (hcolon.trans_lt (hdot.trans_lt (countP_refangScheme_lt hs)))
  rw [refangScheme_eq_self hs] at hat hcolon hdot ⊢
  by_cases hd : Occurs (bracketed '.') (strip value)
  · exact hat.trans_lt (hcolon.trans_lt (countP_unbracket_lt (by decide) hd))
  rw [unbracket_eq_self hd] at hat hcolon ⊢
  by_cases hc : Occurs (bracketed ':') (strip value)
  · exact hat.trans_lt (countP_unbracket_lt (by decide) hc)
  rw [unbracket_eq_self hc]
  exact countP_unbracket_lt (by decide) (((h.resolve_left hs).resolve_left hd).resolve_left hc)

/-- Every round on a marked text takes characters of markers away, so the rounds run out of them. -/
theorem exists_not_marked {n : ℕ} {value : Text} (h : (strip value).countP isMarkChar ≤ n) :
    ∃ rounds ≤ n, ¬Marked (strip (refang^[rounds] value)) := by
  induction n generalizing value with
  | zero =>
    have hnot : ¬Marked (strip value) := fun hmarked ↦ absurd (countP_refang_lt hmarked) (by omega)
    exact ⟨0, le_rfl, hnot⟩
  | succ n ih =>
    by_cases hmarked : Marked (strip value)
    · have hlt := countP_refang_lt hmarked
      have hstrip := (strip_sublist (refang value)).countP_le (p := isMarkChar)
      obtain ⟨rounds, hrounds, hnot⟩ := @ih (refang value) (by omega)
      refine ⟨rounds + 1, Nat.succ_le_succ hrounds, ?_⟩
      rwa [Function.iterate_succ_apply]
    · exact ⟨0, Nat.zero_le _, hmarked⟩

/-- Refanging leaves a marker exactly where one was nested, and refanging again settles: after as many rounds as there
are characters of markers at most, nothing is left to replace. -/
theorem refang_settles (value : Text) : (Marked (refang value) ↔ Nested (strip value)) ∧
    ∃ rounds ≤ (strip value).countP isMarkChar, ∃ text, ¬Marked text ∧ ∀ more, refang^[rounds + 1 + more] value = text := by
  refine ⟨marked_refang value, ?_⟩
  obtain ⟨rounds, hrounds, hnot⟩ := exists_not_marked (le_refl ((strip value).countP isMarkChar))
  refine ⟨rounds, hrounds, strip (refang^[rounds] value), hnot, fun more ↦ ?_⟩
  induction more with
  | zero => rw [Nat.add_zero, Function.iterate_succ_apply', refang_of_not_marked hnot]
  | succ more ih =>
    have hstrip : strip (strip (refang^[rounds] value)) = strip (refang^[rounds] value) := strip_strip _
    rw [← Nat.add_assoc, Function.iterate_succ_apply', ih, refang_of_not_marked (by rwa [hstrip]), hstrip]

end

end Briefr.Correlation.IocNormalize
