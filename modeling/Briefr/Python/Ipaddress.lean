import Mathlib.Algebra.Group.Nat.Defs
import Mathlib.Data.List.Basic
import Briefr.Python.Value

namespace Briefr.Python.Ipaddress

/-- An address without its zone. -/
inductive Address
  | v4 (ip : BitVec 32)
  | v6 (ip : BitVec 128)
  deriving DecidableEq

structure Network (w : ℕ) where
  base : BitVec w
  prefixlen : ℕ
  deriving DecidableEq

def Network.contains {w : ℕ} (net : Network w) (ip : BitVec w) : Bool :=
  ip >>> (w - net.prefixlen) == net.base >>> (w - net.prefixlen)

def net4 (a b c d : BitVec 8) (prefixlen : ℕ) : Network 32 := ⟨a ++ b ++ c ++ d, prefixlen⟩

def net6 (high low : BitVec 64) (prefixlen : ℕ) : Network 128 := ⟨high ++ low, prefixlen⟩

def privateV4 : List (Network 32) :=
  [net4 0 0 0 0 8, net4 10 0 0 0 8, net4 127 0 0 0 8, net4 169 254 0 0 16, net4 172 16 0 0 12, net4 192 0 0 0 24,
    net4 192 0 0 170 31, net4 192 0 2 0 24, net4 192 168 0 0 16, net4 198 18 0 0 15, net4 198 51 100 0 24,
    net4 203 0 113 0 24, net4 240 0 0 0 4, net4 255 255 255 255 32]

def privateExceptionsV4 : List (Network 32) := [net4 192 0 0 9 32, net4 192 0 0 10 32]

def privateV6 : List (Network 128) :=
  [net6 0 1 128, net6 0 0 128, net6 0 0x0000ffff00000000 96, net6 0x0064ff9b00010000 0 48, net6 0x0100000000000000 0 64,
    net6 0x2001000000000000 0 23, net6 0x20010db800000000 0 32, net6 0x2002000000000000 0 16,
    net6 0x3fff000000000000 0 20, net6 0xfc00000000000000 0 7, net6 0xfe80000000000000 0 10]

def privateExceptionsV6 : List (Network 128) :=
  [net6 0x2001000100000000 1 128, net6 0x2001000100000000 2 128, net6 0x2001000300000000 0 32,
    net6 0x2001000401120000 0 48, net6 0x2001002000000000 0 28, net6 0x2001003000000000 0 28]

/-- Whether an address is in one of the networks. -/
def inAny {w : ℕ} (nets : List (Network w)) (ip : BitVec w) : Bool := nets.any fun net ↦ net.contains ip

/-- The address that `::ffff:0:0/96` maps. -/
def ipv4Mapped (ip : BitVec 128) : Option (BitVec 32) := if ip >>> 32 = 0xffff then some (ip.setWidth 32) else none

def isPrivateV4 (ip : BitVec 32) : Bool := inAny privateV4 ip && !inAny privateExceptionsV4 ip

namespace Address

def isPrivate : Address → Bool
  | .v4 ip => isPrivateV4 ip
  | .v6 ip =>
    match ipv4Mapped ip with
    | some ip => isPrivateV4 ip
    | none => inAny privateV6 ip && !inAny privateExceptionsV6 ip

def isLoopback : Address → Bool
  | .v4 ip => (net4 127 0 0 0 8).contains ip
  | .v6 ip => ip == 1

def isLinkLocal : Address → Bool
  | .v4 ip => (net4 169 254 0 0 16).contains ip
  | .v6 ip => (net6 0xfe80000000000000 0 10).contains ip

def isUnspecified : Address → Bool
  | .v4 ip => ip == 0
  | .v6 ip => ip == 0

def isSiteLocal : Address → Bool
  | .v4 _ => false
  | .v6 ip => (net6 0xfec0000000000000 0 10).contains ip

end Address

def parseOctet (text : Text) : Option (BitVec 8) :=
  if text ≠ [] ∧ text.all Char.isDigit ∧ text.length ≤ 3 ∧ ¬(text ≠ ['0'] ∧ text.head? = some '0') ∧
      Nat.ofDigitChars 10 text 0 ≤ 255 then
    some (.ofNat 8 (Nat.ofDigitChars 10 text 0))
  else none

/-- `IPv4Address(text)` -/
def parseV4 (text : Text) : Option (BitVec 32) :=
  if '/' ∈ text then none
  else
    match text.splitOn '.' with
    | [a, b, c, d] => do pure ((← parseOctet a) ++ (← parseOctet b) ++ (← parseOctet c) ++ (← parseOctet d))
    | _ => none

def isHexDigit (c : Char) : Bool := c.isDigit || ('a' ≤ c && c ≤ 'f') || ('A' ≤ c && c ≤ 'F')

def hexValue (c : Char) : ℕ := if c.isDigit then c.toNat - 48 else c.toLower.toNat - 87

def parseHextet (text : Text) : Option (BitVec 16) :=
  if text.all isHexDigit ∧ text.length ≤ 4 ∧ text ≠ [] then
    some (.ofNat 16 (text.foldl (fun n c ↦ 16 * n + hexValue c) 0))
  else none

/-- The hextets of the parts behind an address. -/
def pack (ip : BitVec 128) : List Text → Option (BitVec 128)
  | [] => some ip
  | part :: parts => do pack (ip <<< 16 ||| (← parseHextet part).setWidth 128) parts

/-- The parts with a dotted last part as two hextets. -/
def undotted (parts : List Text) : Option (List Text) :=
  let last := parts.getLast?.getD []
  if '.' ∈ last then
    (parseV4 last).map fun ip ↦
      parts.dropLast ++ [Nat.toDigits 16 (ip.toNat / 2 ^ 16), Nat.toDigits 16 (ip.toNat % 2 ^ 16)]
  else some parts

/-- The places of the empty parts between the first and the last one. -/
def skips (parts : List Text) : List ℕ :=
  (List.range' 1 (parts.length - 2)).filter fun i ↦ decide (parts[i]? = some [])

/-- The number of parts before the zeros. -/
def partsHi (parts : List Text) (skip : ℕ) : ℕ := if parts.head? = some [] then skip - 1 else skip

/-- The number of parts behind the zeros. -/
def partsLo (parts : List Text) (skip : ℕ) : ℕ :=
  if parts.getLast? = some [] then parts.length - skip - 2 else parts.length - skip - 1

def packParts (parts : List Text) : Option (BitVec 128) :=
  match skips parts with
  | [] => if parts.length = 8 then pack 0 parts else none
  | [skip] =>
    let hi := partsHi parts skip
    let lo := partsLo parts skip
    if (parts.head? = some [] ∧ hi ≠ 0) ∨ (parts.getLast? = some [] ∧ lo ≠ 0) ∨ 8 ≤ hi + lo then none
    else do
      let ip ← pack 0 (parts.take hi)
      pack (ip <<< (16 * (8 - (hi + lo)))) (parts.drop (parts.length - lo))
  | _ => none

/-- The text before the zone. -/
def splitScopeId (text : Text) : Option Text :=
  if '%' ∈ text then
    let scopeId := (text.dropWhile (· != '%')).tail
    if scopeId = [] ∨ '%' ∈ scopeId then none else some (text.takeWhile (· != '%'))
  else some text

/-- `IPv6Address(text)` -/
def parseV6 (text : Text) : Option (BitVec 128) :=
  if '/' ∈ text then none
  else do
    let parts := (← splitScopeId text).splitOn ':'
    if parts.length < 3 then none
    else
      let parts ← undotted parts
      if 9 < parts.length then none else packParts parts

/-- `ipaddress.ip_address(text)`, or `none` if it raises `ValueError`. -/
def ipAddress (text : Text) : Option Address := (parseV4 text).map .v4 <|> (parseV6 text).map .v6

example : ipAddress "64:ff9b::127.0.0.1".toList = some (.v6 0x0064ff9b00000000000000007f000001) := by decide +kernel

/-- A character of an address without a zone. -/
def isAddressChar (c : Char) : Bool := isHexDigit c || c == '.' || c == ':'

theorem mem_splitOn {text : Text} {sep c : Char} (h : c ∈ text) : c = sep ∨ ∃ part ∈ text.splitOn sep, c ∈ part := by
  rw [← @List.intercalate_splitOn _ text _ _ sep] at h
  generalize text.splitOn sep = parts at h ⊢
  induction parts with
  | nil => cases h
  | cons part parts ih =>
    cases parts with
    | nil =>
      rw [List.intercalate_singleton] at h
      exact .inr ⟨part, .head _, h⟩
    | cons part' parts =>
      rw [List.intercalate_cons_cons, List.mem_append, List.mem_append, List.mem_singleton] at h
      rcases h with (h | h) | h
      · exact .inr ⟨part, .head _, h⟩
      · exact .inl h
      · rcases ih h with rfl | ⟨part'', hmem, hc⟩
        · exact .inl rfl
        · exact .inr ⟨part'', .tail _ hmem, hc⟩

theorem isDigit_of_parseOctet {text : Text} {octet : BitVec 8} (h : parseOctet text = some octet) :
    ∀ c ∈ text, c.isDigit = true := by
  rw [parseOctet] at h
  split_ifs at h with hoctet
  exact List.all_eq_true.mp hoctet.2.1

theorem chars_of_parseV4 {text : Text} {ip : BitVec 32} (h : parseV4 text = some ip) :
    ∀ c ∈ text, c.isDigit = true ∨ c = '.' := by
  intro c hc
  rw [parseV4] at h
  split_ifs at h
  split at h
  next a b d e hparts =>
    simp only [Option.bind_eq_bind, Option.bind_eq_some_iff] at h
    obtain ⟨_, ha, _, hb, _, hd, _, he, -⟩ := h
    rcases mem_splitOn hc with hdot | ⟨part, hpart, hc⟩
    · exact .inr hdot
    · rw [hparts] at hpart
      simp only [List.mem_cons, List.not_mem_nil, or_false] at hpart
      rcases hpart with rfl | rfl | rfl | rfl
      · exact .inl (isDigit_of_parseOctet ha c hc)
      · exact .inl (isDigit_of_parseOctet hb c hc)
      · exact .inl (isDigit_of_parseOctet hd c hc)
      · exact .inl (isDigit_of_parseOctet he c hc)
  next => cases h

theorem chars_of_pack {parts : List Text} {ip packed : BitVec 128} (h : pack ip parts = some packed) :
    ∀ part ∈ parts, ∀ c ∈ part, isHexDigit c = true := by
  induction parts generalizing ip with
  | nil => exact List.forall_mem_nil _
  | cons part parts ih =>
    rw [pack, Option.bind_eq_bind, Option.bind_eq_some_iff] at h
    obtain ⟨hextet, hpart, h⟩ := h
    refine List.forall_mem_cons.mpr ⟨?_, ih h⟩
    rw [parseHextet] at hpart
    split_ifs at hpart with hhex
    exact List.all_eq_true.mp hhex.1

theorem mem_skips {parts : List Text} {i : ℕ} (h : i ∈ skips parts) :
    1 ≤ i ∧ i + 1 < parts.length ∧ parts[i]? = some [] := by
  rw [skips, List.mem_filter, List.mem_range', decide_eq_true_eq] at h
  obtain ⟨⟨k, hk, rfl⟩, hempty⟩ := h
  exact ⟨by omega, by omega, hempty⟩

/-- A part that is neither before nor behind the zeros is empty. -/
theorem empty_of_skipped {parts : List Text} {skip j : ℕ} (hempty : parts[skip]? = some [])
    (hhi : ¬(parts.head? = some [] ∧ partsHi parts skip ≠ 0))
    (hlo : ¬(parts.getLast? = some [] ∧ partsLo parts skip ≠ 0)) (hj : j < parts.length)
    (hskipped : ¬j < partsHi parts skip) (hskipped' : j < parts.length - partsLo parts skip) :
    parts[j]? = some [] := by
  rw [partsHi] at hhi hskipped
  rw [partsLo] at hlo hskipped'
  rcases Nat.lt_trichotomy j skip with hlt | rfl | hlt
  · by_cases hhead : parts.head? = some []
    · have hzero : skip - 1 = 0 := by_contra fun hne ↦ hhi ⟨hhead, by rwa [if_pos hhead]⟩
      obtain rfl : j = 0 := by omega
      exact List.head?_eq_getElem? ▸ hhead
    · rw [if_neg hhead] at hskipped
      exact absurd hlt hskipped
  · exact hempty
  · by_cases hlast : parts.getLast? = some []
    · have hzero : parts.length - skip - 2 = 0 := by_contra fun hne ↦ hlo ⟨hlast, by rwa [if_pos hlast]⟩
      obtain rfl : j = parts.length - 1 := by omega
      exact List.getLast?_eq_getElem? ▸ hlast
    · rw [if_neg hlast] at hskipped'
      omega

theorem chars_of_packParts {parts : List Text} {ip : BitVec 128} (h : packParts parts = some ip) :
    ∀ part ∈ parts, ∀ c ∈ part, isHexDigit c = true := by
  rw [packParts] at h
  split at h
  next =>
    split_ifs at h
    exact chars_of_pack h
  next skip hskips =>
    obtain ⟨-, -, hempty⟩ := mem_skips (hskips ▸ .head _ : skip ∈ skips parts)
    dsimp only at h
    split_ifs at h with hbad
    obtain ⟨hhi, hbad⟩ := not_or.mp hbad
    obtain ⟨hlo, -⟩ := not_or.mp hbad
    obtain ⟨_, hbefore, hbehind⟩ := Option.bind_eq_some_iff.mp h
    intro part hpart
    obtain ⟨j, hj, rfl⟩ := List.mem_iff_getElem.mp hpart
    by_cases hlt : j < partsHi parts skip
    · exact chars_of_pack hbefore _ (List.mem_take_iff_getElem.mpr ⟨j, by omega, rfl⟩)
    · by_cases hge : j < parts.length - partsLo parts skip
      · have hnil := empty_of_skipped hempty hhi hlo hj hlt hge
        rw [List.getElem?_eq_getElem hj] at hnil
        rw [Option.some.inj hnil]
        exact List.forall_mem_nil _
      · refine chars_of_pack hbehind _ (List.mem_drop_iff_getElem.mpr ⟨j - (parts.length - partsLo parts skip), ?_, ?_⟩)
        · omega
        · congr 1
          omega
  next => cases h

theorem isHexDigit_of_isDigit {c : Char} (h : c.isDigit = true) : isHexDigit c = true := by
  rw [isHexDigit, h]
  rfl

theorem chars_of_undotted {parts parts' : List Text} (h : undotted parts = some parts')
    (hchars : ∀ part ∈ parts', ∀ c ∈ part, isHexDigit c = true) :
    ∀ part ∈ parts, ∀ c ∈ part, isHexDigit c = true ∨ c = '.' := by
  rw [undotted] at h
  split_ifs at h
  · obtain ⟨ip, hlast, rfl⟩ := Option.map_eq_some_iff.mp h
    intro part hpart c hc
    have hmem := List.getLast?_eq_some_getLast (List.ne_nil_of_mem hpart)
    rw [hmem, Option.getD_some] at hlast
    rw [← List.dropLast_append_getLast? _ hmem, List.mem_append, List.mem_singleton] at hpart
    rcases hpart with hpart | heq
    · exact .inl (hchars part (List.mem_append_left _ hpart) c hc)
    · rw [← heq] at hlast
      exact (chars_of_parseV4 hlast c hc).imp_left isHexDigit_of_isDigit
  · obtain rfl := Option.some.inj h
    exact fun part hpart c hc ↦ .inl (hchars part hpart c hc)

/-- An address without a zone has no other characters than digits, dots and colons. -/
theorem isAddressChar_of_ipAddress {text : Text} {address : Address} (h : ipAddress text = some address)
    (hzone : '%' ∉ text) : ∀ c ∈ text, isAddressChar c = true := by
  have hchar : ∀ c, (isHexDigit c = true ∨ c = '.') ∨ c = ':' → isAddressChar c = true := by
    intro c hc
    simpa only [isAddressChar, Bool.or_eq_true, beq_iff_eq] using hc
  intro c hc
  refine hchar c ?_
  rw [ipAddress] at h
  cases hv4 : parseV4 text with
  | some ip => exact .inl ((chars_of_parseV4 hv4 c hc).imp_left isHexDigit_of_isDigit)
  | none =>
    rw [hv4] at h
    obtain ⟨ip, hv6, -⟩ := Option.map_eq_some_iff.mp h
    rw [parseV6] at hv6
    split_ifs at hv6
    rw [splitScopeId, if_neg hzone, Option.bind_eq_bind, Option.bind_some] at hv6
    dsimp only at hv6
    split_ifs at hv6
    obtain ⟨parts, hparts, hpacked⟩ := Option.bind_eq_some_iff.mp hv6
    split_ifs at hpacked
    rcases mem_splitOn hc with hcolon | ⟨part, hpart, hc⟩
    · exact .inr hcolon
    · exact .inl (chars_of_undotted hparts (chars_of_packParts hpacked) part hpart c hc)

end Briefr.Python.Ipaddress
