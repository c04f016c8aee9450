import Briefr.Library.Dict
import Briefr.Library.StableSort
import Briefr.Outbound.SourcePauses
import Briefr.Python.Ipaddress
import Briefr.Python.UrlCanonical

namespace Briefr.Webhooks.Ssrf

open Briefr.Library Briefr.Library.StableSort Briefr.Python Briefr.Python.Urllib Briefr.Python.Ipaddress
open Briefr.Outbound.ApiQueue (Headers Queue)
open Briefr.Outbound.Pacing Briefr.Outbound.Durations Briefr.Outbound.SourcePauses

def retryableStatus : List ℕ := [500, 502, 503, 504]

def blockedNetworksV4 : List (Network 32) :=
  [net4 10 0 0 0 8, net4 172 16 0 0 12, net4 192 168 0 0 16, net4 100 64 0 0 10, net4 127 0 0 0 8, net4 169 254 0 0 16,
    net4 0 0 0 0 8]

def blockedNetworksV6 : List (Network 128) := [net6 0 1 128, net6 0xfc00000000000000 0 7]

def forbiddenOutboundHeaders : List Text :=
  ["authorization".toList, "x-briefr-admin-key".toList, "x-api-key".toList, "x-virustotal-api-key".toList,
    "x-nvd-api-key".toList, "x-github-token".toList, "x-groq-api-key".toList, "x-abuseipdb-api-key".toList,
    "x-greynoise-api-key".toList, "x-circl-api-key".toList]

inductive Raised
  | ssrf (message : Text)
  | valueError
  | unicodeError
  | resolver
  | httpError
  | httpStatus (status : ℕ)
  | headers (exc : Exc)

/-- `socket.getaddrinfo`, where `none` is an error of its own, and the codec `idna`, where `none` is a `UnicodeError`. -/
class Names where
  getaddrinfo : Text → Option (List Text)
  idna : Text → Option Text

/-- Whether an address is in one of the blocked networks of its version. -/
def inBlockedNetworks : Address → Bool
  | .v4 ip => inAny blockedNetworksV4 ip
  | .v6 ip => inAny blockedNetworksV6 ip

def isBlockedIp (addr : Address) : Bool :=
  if addr.isPrivate || addr.isLoopback || addr.isLinkLocal then true
  else if addr.isUnspecified then true
  else if addr.isSiteLocal then true
  else inBlockedNetworks addr

def validateIp (raw : Text) : Except Raised Text :=
  match ipAddress raw with
  | none => .error (.ssrf ("invalid resolved address: ".toList ++ raw))
  | some addr => if isBlockedIp addr then .error (.ssrf ("blocked address: ".toList ++ raw)) else .ok raw

def validateResolvedIps (ips : List Text) : Except Raised (List Text) :=
  if ips = [] then .error (.ssrf "hostname did not resolve".toList) else ips.mapM validateIp

/-- The addresses of an answer are text, sorted by code points. -/
def resolveHostname [Names] (hostname : Text) : Except Raised (List Text) :=
  if hostname = [] then .error (.ssrf "missing hostname".toList)
  else
    match Names.getaddrinfo hostname with
    | none => .error (.ssrf ("DNS resolution failed for ".toList ++ hostname))
    | some infos => validateResolvedIps (sortedSet infos)

/-- The name and the port of a network location. -/
def hostinfo (netloc : Text) : Text × Text :=
  let info := netloc.rtakeWhile (· != '@')
  if '[' ∈ info then
    let bracketed := (cut '[' info).2
    ((cut ']' bracketed).1, (cut ':' (cut ']' bracketed).2).2)
  else cut ':' info

/-- `port` of a result with the network location, where an empty one is none. -/
def portOf (netloc : Text) : Except Raised (Option ℕ) :=
  let port := (hostinfo netloc).2
  if port = [] then .ok none
  else if port.all Char.isDigit ∧ Nat.ofDigitChars 10 port 0 ≤ 65535 then .ok (some (Nat.ofDigitChars 10 port 0))
  else .error .valueError

/-- `path`, or a slash for an empty one. -/
def orSlash (path : Text) : Text := if path = [] then ['/'] else path

section
variable [Casing] [Netlocs]

/-- The host, the port, the path with the query, and the network location. -/
def parseHttpsUrl (url : Text) : Except Raised (Text × ℕ × Text × Text) :=
  match urlparse (strip url) with
  | .error _ => .error .valueError
  | .ok parsed =>
    if parsed.scheme ≠ "https".toList then .error (.ssrf "only https webhook URLs are allowed".toList)
    else
      match hostname parsed.netloc with
      | none => .error (.ssrf "missing hostname".toList)
      | some host => do
        let port ← portOf parsed.netloc
        -- a port of zero counts as none
        let port := if port.getD 0 = 0 then 443 else port.getD 0
        pure (host, port, orSlash parsed.path ++ marked '?' parsed.query, parsed.netloc)

end

def bracketed (host : Text) : Text := if ':' ∈ host then '[' :: host ++ [']'] else host

def buildPinnedUrl (_host : Text) (port : ℕ) (path pinnedIp : Text) : Text :=
  if port = 443 then "https://".toList ++ bracketed pinnedIp ++ path
  else "https://".toList ++ bracketed pinnedIp ++ ':' :: Nat.toDigits 10 port ++ path

def sanitizeOutboundHeaders [Interp] (headers : Option (Dict Text Text)) : Dict Text Text :=
  (headers.getD .empty).keep fun key _ ↦
    !decide (lower key ∈ forbiddenOutboundHeaders) && !"x-briefr-".toList.isPrefixOf (lower key)

/-- The client of all calls: it has one header of its own and follows no redirect. -/
structure Client where
  followRedirects : Bool
  headers : List (Text × Text)

def getWebhookClient : Client :=
  ⟨false, [("User-Agent".toList, "BRIEFR/1.0 (+https://github.com/Soldier0x0/briefr)".toList)]⟩

structure Request where
  client : Client
  method : Text
  url : Text
  json : Value
  data : Value
  headers : Dict Text Text
  sniHostname : Option Text

structure Call where
  source : Text
  method : Text
  url : Text
  json : Value
  data : Value
  headers : Option (Dict Text Text)
  retries : ℤ
  resolve : Option (Text → Except Raised (List Text))

inductive Reply
  | httpError (text : Text)
  | response (status : ℕ) (headers : Headers) (clocks : Clocks) (queue : Queue)

/-- What the health of the source is told. -/
inductive Record
  | success
  | failure (text : Text)

inductive Next
  | again (attempt : ℕ)
  | returns
  | raises (raised : Raised)

def Call.resolver [Names] (c : Call) (host : Text) : Except Raised (List Text) :=
  match c.resolve with
  | some resolve => resolve host
  | none => resolveHostname host

/-- The name that the certificate is checked against, which an address does not have. -/
def sniHostname [Names] (host : Text) : Except Raised (Option Text) :=
  match ipAddress host with
  | some _ => .ok none
  | none =>
    match Names.idna host with
    | some name => .ok (some name)
    | none => .error .unicodeError

/-- The request that a call sends, again and again. -/
def Call.request [Casing] [Netlocs] [Names] (c : Call) : Except Raised Request := do
  let (host, port, path, _) ← parseHttpsUrl c.url
  let pinnedIps ← validateResolvedIps (← c.resolver host)
  let url := buildPinnedUrl host port path (pinnedIps.headD [])
  let headers := (sanitizeOutboundHeaders c.headers).set "Host".toList host
  let sniHostname ← sniHostname host
  pure ⟨getWebhookClient, c.method, url, c.json, c.data, headers, sniHostname⟩

def httpText (status : ℕ) : Text := "HTTP ".toList ++ Nat.toDigits 10 status

def isRedirect (status : ℕ) : Bool := 300 ≤ status && status ≤ 399

section
variable [Interp] [HeaderReaders]

/-- What a reply makes of the call. -/
def onReply (c : Call) (attempt : ℕ) : Reply → Option Record × Next
  | .httpError text => (some (.failure text), .raises .httpError)
  | .response status headers clocks queue =>
    let applied (next : Next) : Next :=
      match (applyRateLimitHeaders clocks c.source headers none queue).raised with
      | some exc => .raises (.headers exc)
      | none => next
    if status = 429 then (none, applied (.again attempt))
    else if status ∈ retryableStatus then
      if (attempt : ℤ) < c.retries then (none, .again (attempt + 1))
      else (some (.failure (httpText status)), .raises (.httpStatus status))
    else if isRedirect status then
      (some (.failure ("redirect blocked: ".toList ++ httpText status)),
        .raises (.ssrf ("redirect responses are not followed (".toList ++ httpText status ++ [')'])))
    else if 400 ≤ status ∧ status < 600 then (some (.failure (httpText status)), .raises (.httpStatus status))
    else (some .success, applied .returns)

/-- The requests of a call as its replies come, the one that waits for a reply among them. -/
def sent (c : Call) (request : Request) (attempt : ℕ) : List Reply → List Request
  | [] => [request]
  | reply :: replies =>
    match (onReply c attempt reply).2 with
    | .again attempt => request :: sent c request attempt replies
    | _ => [request]

end

/-- `safe_webhook_request` up to the replies so far. -/
def safeWebhookRequest [Casing] [Netlocs] [Names] [HeaderReaders] (c : Call) (replies : List Reply) :
    Except Raised (List Request) := do
  let request ← c.request
  pure (sent c request 0 replies)

/-- The addresses that no request is to go to. -/
def Internal (addr : Address) : Prop :=
  addr.isPrivate = true ∨ addr.isLoopback = true ∨ addr.isLinkLocal = true ∨ addr.isUnspecified = true ∨
    inBlockedNetworks addr = true

/-- The address that an IPv6 address maps, or has embedded by NAT64 or 6to4. -/
def embedded (ip : BitVec 128) : Option (BitVec 32) :=
  if ip >>> 32 = 0xffff ∨ ip >>> 32 = 0x0064ff9b0000000000000000 then some (ip.setWidth 32)
  else if ip >>> 112 = 0x2002 then some ((ip >>> 80).setWidth 32)
  else none

def Safe : Address → Prop
  | .v4 ip => ¬Internal (.v4 ip)
  | .v6 ip => ¬Internal (.v6 ip) ∧ ∀ ip', embedded ip = some ip' → ¬Internal (.v4 ip')

/-- The addresses that the check lets pass with another one in them: a blocked one by NAT64, or one of the shared
network 100.64.0.0/10, which is not private, mapped. -/
def Hidden : Address → Prop
  | .v4 _ => False
  | .v6 ip =>
    ip >>> 32 = 0x0064ff9b0000000000000000 ∧ isBlockedIp (.v4 (ip.setWidth 32)) = true ∨
      ip >>> 32 = 0xffff ∧ (net4 100 64 0 0 10).contains (ip.setWidth 32) = true

theorem not_internal_of_not_blocked {addr : Address} (h : isBlockedIp addr = false) : ¬Internal addr := by
  rw [isBlockedIp] at h
  split_ifs at h with hprivate hunspecified
  simp only [Bool.or_eq_true, not_or] at hprivate
  rintro (hin | hin | hin | hin | hin)
  · exact hprivate.1.1 hin
  · exact hprivate.1.2 hin
  · exact hprivate.2 hin
  · exact hunspecified hin
  · rw [h] at hin
    cases hin

theorem internal_of_blocked {ip : BitVec 32} (h : isBlockedIp (.v4 ip) = true) : Internal (.v4 ip) := by
  rw [isBlockedIp] at h
  split_ifs at h with hprivate hunspecified hsite
  · simp only [Bool.or_eq_true] at hprivate
    rcases hprivate with (hin | hin) | hin
    · exact .inl hin
    · exact .inr (.inl hin)
    · exact .inr (.inr (.inl hin))
  · exact .inr (.inr (.inr (.inl hunspecified)))
  · cases hsite
  · exact .inr (.inr (.inr (.inr h)))

theorem shiftRight_of_contains {w k : ℕ} {net : Network w} {ip : BitVec w} (h : net.contains ip = true)
    (hk : w - net.prefixlen ≤ k) : ip >>> k = net.base >>> k := by
  have heq : ip >>> (w - net.prefixlen) = net.base >>> (w - net.prefixlen) := beq_iff_eq.mp h
  obtain ⟨m, rfl⟩ := Nat.exists_eq_add_of_le hk
  rw [BitVec.shiftRight_add, BitVec.shiftRight_add, heq]

/-- A network of the private ones without an exception in it. -/
theorem isPrivateV4_of_contains {net : Network 32} {ip : BitVec 32} (hnet : net ∈ privateV4)
    (hexceptions : ∀ e ∈ privateExceptionsV4, net.contains e.base = false) (h : net.contains ip = true) :
    isPrivateV4 ip = true := by
  rw [isPrivateV4, Bool.and_eq_true, Bool.not_eq_true']
  refine ⟨List.any_eq_true.mpr ⟨net, hnet, h⟩, List.any_eq_false.mpr fun e he hin ↦ ?_⟩
  have hlengths : ∀ e ∈ privateExceptionsV4, 32 - e.prefixlen ≤ 0 := by decide
  have heq : ip = e.base := by simpa using shiftRight_of_contains hin (hlengths e he)
  rw [heq, hexceptions e he] at h
  cases h

theorem internal_iff_of_not_private {ip : BitVec 32} (h : isPrivateV4 ip = false) :
    Internal (.v4 ip) ↔ (net4 100 64 0 0 10).contains ip = true := by
  have hnot : ∀ net ∈ privateV4, (∀ e ∈ privateExceptionsV4, net.contains e.base = false) → ¬net.contains ip = true := by
    intro net hnet hexceptions hin
    rw [isPrivateV4_of_contains hnet hexceptions hin] at h
    cases h
  constructor
  · rintro (hin | hin | hin | hin | hin)
    · rw [Address.isPrivate, h] at hin
      cases hin
    · exact absurd hin (hnot _ (by decide) (by decide))
    · exact absurd hin (hnot _ (by decide) (by decide))
    · have hzero : ip = 0 := beq_iff_eq.mp hin
      rw [hzero] at h
      exact absurd h (by decide)
    · rw [inBlockedNetworks, inAny, List.any_eq_true] at hin
      obtain ⟨net, hnet, hin⟩ := hin
      by_cases hcgn : net ∈ privateV4
      · have hexceptions : ∀ net ∈ blockedNetworksV4, ∀ e ∈ privateExceptionsV4, net.contains e.base = false := by decide
        exact absurd hin (hnot net hcgn (hexceptions net hnet))
      · have hrest : ∀ net ∈ blockedNetworksV4, net ∉ privateV4 → net = net4 100 64 0 0 10 := by decide
        exact hrest net hnet hcgn ▸ hin
  · intro hin
    exact .inr (.inr (.inr (.inr (List.any_eq_true.mpr ⟨_, by decide, hin⟩))))

/-- Every address of 6to4 is private. -/
theorem isPrivate_sixToFour {ip : BitVec 128} (h : ip >>> 112 = 0x2002) : (Address.v6 ip).isPrivate = true := by
  have hmapped : ipv4Mapped ip = none := by
    refine if_neg fun hmapped ↦ ?_
    have hshift : ip >>> 112 = (ip >>> 32) >>> 80 := BitVec.shiftRight_add ip 32 80
    rw [hmapped, h] at hshift
    exact absurd hshift (by decide)
  rw [Address.isPrivate, hmapped]
  dsimp only
  rw [Bool.and_eq_true, Bool.not_eq_true']
  refine ⟨List.any_eq_true.mpr ⟨net6 0x2002000000000000 0 16, by decide, ?_⟩, List.any_eq_false.mpr fun e he hin ↦ ?_⟩
  · have hbase : (net6 0x2002000000000000 0 16).base >>> 112 = 0x2002 := by decide
    exact beq_iff_eq.mpr (h.trans hbase.symm)
  · have hlengths : ∀ e ∈ privateExceptionsV6, 128 - e.prefixlen ≤ 112 ∧ e.base >>> 112 ≠ 0x2002 := by decide
    obtain ⟨hlength, hbase⟩ := hlengths e he
    exact hbase ((shiftRight_of_contains hin hlength).symm.trans h)

theorem safe_iff {addr : Address} (h : isBlockedIp addr = false) : Safe addr ↔ ¬Hidden addr := by
  have hinternal := not_internal_of_not_blocked h
  cases addr with
  | v4 ip => exact ⟨fun _ hhidden ↦ hhidden, fun _ ↦ hinternal⟩
  | v6 ip =>
    constructor
    · rintro ⟨-, hembedded⟩ (⟨hmapped, hblocked⟩ | ⟨hnat, hin⟩)
      · exact hembedded _ (if_pos (.inr hmapped)) (internal_of_blocked hblocked)
      · refine hembedded _ (if_pos (.inl hnat)) ?_
        exact .inr (.inr (.inr (.inr (List.any_eq_true.mpr ⟨_, by decide, hin⟩))))
    · intro hhidden
      refine ⟨hinternal, fun ip' hembedded hin ↦ ?_⟩
      rw [embedded] at hembedded
      split_ifs at hembedded with hprefix hsix
      · obtain rfl := Option.some.inj hembedded
        rcases hprefix with hmapped | hnat
        · have hprivate : isPrivateV4 (ip.setWidth 32) = false := by
            have hnot : ¬(Address.v6 ip).isPrivate = true := fun h ↦ hinternal (.inl h)
            rwa [Address.isPrivate, ipv4Mapped, if_pos hmapped, Bool.not_eq_true] at hnot
          exact hhidden (.inr ⟨hmapped, (internal_iff_of_not_private hprivate).mp hin⟩)
        · cases hblocked : isBlockedIp (.v4 (ip.setWidth 32)) with
          | true => exact hhidden (.inl ⟨hnat, hblocked⟩)
          | false => exact not_internal_of_not_blocked hblocked hin
      · exact hinternal (.inl (isPrivate_sixToFour hsix))

/-- The port that a network location of `https` names. -/
def namedPort (netloc : Text) : ℕ :=
  if (hostinfo netloc).2 = [] then 443 else Nat.ofDigitChars 10 (hostinfo netloc).2 0

def portSuffix (port : ℕ) : Text := if port = 443 then [] else ':' :: Nat.toDigits 10 port

theorem scheme_https : Scheme "https".toList := .of_all rfl rfl

theorem isAddressChar_plain {c : Char} (h : isAddressChar c = true) :
    isDelimiter c = false ∧ isUnsafe c = false ∧ c ≠ '@' ∧ c ≠ '[' ∧ c ≠ ']' := by
  refine ⟨Bool.eq_false_iff.mpr fun hc ↦ ?_, Bool.eq_false_iff.mpr fun hc ↦ ?_, ?_, ?_, ?_⟩
  · simp only [isDelimiter, Bool.or_eq_true, beq_iff_eq] at hc
    rcases hc with (rfl | rfl) | rfl <;> exact absurd h (by decide)
  · simp only [isUnsafe, Bool.or_eq_true, beq_iff_eq] at hc
    rcases hc with (rfl | rfl) | rfl <;> exact absurd h (by decide)
  all_goals
    rintro rfl
    exact absurd h (by decide)

theorem isAddressChar_of_isDigit {c : Char} (h : c.isDigit = true) : isAddressChar c = true := by
  rw [isAddressChar, isHexDigit_of_isDigit h]
  rfl

section
variable {ip : Text} (hip : ∀ c ∈ ip, isAddressChar c = true) (port : ℕ)

theorem isAddressChar_portSuffix {c : Char} (h : c ∈ portSuffix port) : isAddressChar c = true := by
  rw [portSuffix] at h
  split_ifs at h
  · cases h
  · rcases List.mem_cons.mp h with rfl | h
    · decide
    · exact isAddressChar_of_isDigit (Nat.isDigit_of_mem_toDigits (by decide) (by decide) h)

include hip

theorem mem_pinned {c : Char} (h : c ∈ bracketed ip ++ portSuffix port) : isAddressChar c = true ∨ c = '[' ∨ c = ']' := by
  rcases List.mem_append.mp h with h | h
  · rw [bracketed] at h
    split_ifs at h
    · rw [List.mem_append, List.mem_cons, List.mem_singleton] at h
      rcases h with (h | h) | h
      · exact .inr (.inl h)
      · exact .inl (hip c h)
      · exact .inr (.inr h)
    · exact .inl (hip c h)
  · exact .inl (isAddressChar_portSuffix port h)

theorem hostinfo_pinned : hostinfo (bracketed ip ++ portSuffix port) = (ip, (portSuffix port).tail) := by
  have hinfo : (bracketed ip ++ portSuffix port).rtakeWhile (· != '@') = bracketed ip ++ portSuffix port := by
    refine List.rtakeWhile_eq_self_iff.mpr fun c hc ↦ bne_iff_ne.mpr ?_
    rcases mem_pinned hip port hc with h | rfl | rfl
    · exact (isAddressChar_plain h).2.2.1
    · decide
    · decide
  have hsuffix : ∀ text : Text, ':' ∉ text → cut ':' (text ++ portSuffix port) = (text, (portSuffix port).tail) := by
    intro text htext
    rw [portSuffix]
    split_ifs
    · rw [List.append_nil]
      exact cut_of_not_mem htext
    · exact cut_append htext _
  rw [hostinfo, hinfo]
  by_cases hcolon : ':' ∈ ip
  · have hclose : ']' ∉ ip := fun h ↦ (isAddressChar_plain (hip _ h)).2.2.2.2 rfl
    have heq : bracketed ip ++ portSuffix port = [] ++ '[' :: (ip ++ ']' :: portSuffix port) := by
      rw [bracketed, if_pos hcolon]
      simp
    have hmem : '[' ∈ bracketed ip ++ portSuffix port := by
      rw [heq]
      exact .head _
    rw [if_pos hmem, heq]
    dsimp only
    rw [cut_append List.not_mem_nil]
    dsimp only
    rw [cut_append hclose]
    exact congrArg (fun pair : Text × Text ↦ (ip, pair.2)) (hsuffix [] List.not_mem_nil)
  · have hopen : '[' ∉ bracketed ip ++ portSuffix port := by
      rw [bracketed, if_neg hcolon]
      intro h
      rcases List.mem_append.mp h with h | h
      · exact (isAddressChar_plain (hip _ h)).2.2.2.1 rfl
      · exact (isAddressChar_plain (isAddressChar_portSuffix port h)).2.2.2.1 rfl
    rw [if_neg hopen, bracketed, if_neg hcolon]
    exact hsuffix ip hcolon

theorem namedPort_pinned : namedPort (bracketed ip ++ portSuffix port) = port := by
  rw [namedPort, hostinfo_pinned hip, portSuffix]
  by_cases h : port = 443
  · rw [if_pos h]
    exact (if_pos rfl).trans h.symm
  · rw [if_neg h]
    exact (if_neg Nat.toDigits_ne_nil).trans (Nat.ofDigitChars_toDigits (by decide) (by decide))

/-- The URL of a pinned address is read as the address, the port, the path and the query. -/
theorem split_pinned [Casing] {path query : Text} (host : Text) (hhead : path.head? = some '/')
    (hpath : ∀ c ∈ path, c ≠ '?' ∧ c ≠ '#') (hquery : '#' ∉ query) (hsafe : ∀ c ∈ path ++ query, isUnsafe c = false) :
    split (buildPinnedUrl host port (path ++ marked '?' query) ip) =
      ⟨"https".toList, bracketed ip ++ portSuffix port, path, query, []⟩ := by
  have hrooted : rooted path = path := if_neg fun h ↦ h.2 hhead
  have hspelled : Spelled ⟨"https".toList, bracketed ip ++ portSuffix port, path, query, []⟩ := by
    refine ⟨scheme_https, fun c hc ↦ ?_, hpath, fun _ ↦ hrooted, hquery, fun c hc ↦ ?_⟩
    · rcases mem_pinned hip port hc with h | rfl | rfl
      · exact (isAddressChar_plain h).1
      · rfl
      · rfl
    · rw [List.append_nil] at hc
      rcases List.mem_append.mp hc with hc | hc
      · rcases mem_pinned hip port hc with h | rfl | rfl
        · exact (isAddressChar_plain h).2.1
        · rfl
        · rfl
      · exact hsafe c hc
  have hurl : buildPinnedUrl host port (path ++ marked '?' query) ip =
      urlunsplit ⟨"https".toList, bracketed ip ++ portSuffix port, path, query, []⟩ := by
    have hslashed : SplitResult.slashed ⟨"https".toList, bracketed ip ++ portSuffix port, path, query, []⟩ = true := by
      have hscheme : ("https".toList != [] && decide ("https".toList ∈ usesNetloc)) = true := by decide
      rw [SplitResult.slashed, hscheme, Bool.or_true]
      rfl
    rw [urlunsplit_eq hspelled.scheme, SplitResult.body, if_pos hslashed, hrooted, buildPinnedUrl, portSuffix]
    split_ifs
    · simp [marked]
    · simp [marked]
  rw [hurl, hspelled.split_urlunsplit]

end

theorem validateIp_ok {raw ip : Text} (h : validateIp raw = .ok ip) :
    ip = raw ∧ ∃ addr, ipAddress raw = some addr ∧ isBlockedIp addr = false := by
  rw [validateIp] at h
  cases haddr : ipAddress raw with
  | none =>
    rw [haddr] at h
    cases h
  | some addr =>
    rw [haddr] at h
    dsimp only at h
    split_ifs at h with hblocked
    cases h
    exact ⟨rfl, addr, rfl, Bool.eq_false_iff.mpr hblocked⟩

theorem mapM_validateIp_ok {raws ips : List Text} (h : raws.mapM validateIp = .ok ips) :
    ips = raws ∧ ∀ raw ∈ raws, ∃ addr, ipAddress raw = some addr ∧ isBlockedIp addr = false := by
  induction raws generalizing ips with
  | nil =>
    cases h
    exact ⟨rfl, List.forall_mem_nil _⟩
  | cons raw raws ih =>
    rw [List.mapM_cons] at h
    cases hraw : validateIp raw with
    | error e =>
      rw [hraw] at h
      cases h
    | ok ip =>
      cases hraws : raws.mapM validateIp with
      | error e =>
        rw [hraw, hraws] at h
        cases h
      | ok rest =>
        rw [hraw, hraws] at h
        cases h
        obtain ⟨rfl, hip⟩ := validateIp_ok hraw
        obtain ⟨rfl, hips⟩ := ih hraws
        exact ⟨rfl, List.forall_mem_cons.mpr ⟨hip, hips⟩⟩

/-- What the check lets pass stays as it is. -/
theorem validateResolvedIps_ok {raws ips : List Text} (h : validateResolvedIps raws = .ok ips) :
    ips = raws ∧ raws ≠ [] ∧ ∀ raw ∈ raws, ∃ addr, ipAddress raw = some addr ∧ isBlockedIp addr = false := by
  rw [validateResolvedIps] at h
  split_ifs at h with hnil
  obtain ⟨heq, hips⟩ := mapM_validateIp_ok h
  exact ⟨heq, hnil, hips⟩

theorem portOf_ok {netloc : Text} {found : Option ℕ} (h : portOf netloc = .ok found) :
    (if found.getD 0 = 0 then 443 else found.getD 0) = if namedPort netloc = 0 then 443 else namedPort netloc := by
  rw [portOf] at h
  rw [namedPort]
  split_ifs at h with hnil
  · cases h
    rw [if_pos hnil]
    rfl
  · cases h
    rw [if_neg hnil]
    rfl

section
variable [Casing] [Netlocs] {url host path netloc : Text} {port : ℕ}

theorem urlparse_ok {parsed : ParseResult} (h : urlparse url = .ok parsed) :
    parsed.scheme = (split url).scheme ∧ parsed.netloc = (split url).netloc ∧ parsed.query = (split url).query ∧
      (parsed.scheme ∈ usesParams → parsed.path = (splitParams (split url).path).1) := by
  rw [urlparse, urlsplit] at h
  split_ifs at h
  · obtain rfl := Except.ok.inj h
    exact ⟨rfl, rfl, rfl, fun hscheme ↦ congrArg Prod.fst (if_pos hscheme)⟩
  · cases h

/-- What an accepted URL is taken apart into. -/
theorem parseHttpsUrl_ok (h : parseHttpsUrl url = .ok (host, port, path, netloc)) :
    (split (strip url)).scheme = "https".toList ∧ hostname (split (strip url)).netloc = some host ∧
      port = (if namedPort (split (strip url)).netloc = 0 then 443 else namedPort (split (strip url)).netloc) ∧
        path = orSlash (splitParams (split (strip url)).path).1 ++ marked '?' (split (strip url)).query := by
  rw [parseHttpsUrl] at h
  cases hparse : urlparse (strip url) with
  | error e =>
    rw [hparse] at h
    cases h
  | ok parsed =>
    obtain ⟨hscheme, hnetloc, hquery, hpath⟩ := urlparse_ok hparse
    rw [hparse] at h
    dsimp only at h
    split_ifs at h with hhttps
    have hhttps : parsed.scheme = "https".toList := not_not.mp hhttps
    rw [hhttps] at hscheme hpath
    rw [hnetloc] at h
    cases hhost : hostname (split (strip url)).netloc with
    | none =>
      rw [hhost] at h
      cases h
    | some name =>
      rw [hhost] at h
      cases hport : portOf (split (strip url)).netloc with
      | error e =>
        rw [hport] at h
        cases h
      | ok found =>
        rw [hport] at h
        cases h
        rw [hquery, hpath (by decide), portOf_ok hport]
        exact ⟨hscheme.symm, rfl, rfl, rfl⟩

end

section
variable [Names]

/-- The addresses that are found for a host. -/
def Call.answer (c : Call) (host : Text) : List Text :=
  match c.resolve with
  | some resolve => (resolve host).toOption.getD []
  | none => (Names.getaddrinfo host).getD []

theorem mem_answer {c : Call} {host : Text} {ips : List Text} (h : c.resolver host = .ok ips) :
    ∀ ip ∈ ips, ip ∈ c.answer host := by
  intro ip hip
  rw [Call.resolver] at h
  rw [Call.answer]
  cases hresolve : c.resolve with
  | some resolve =>
    rw [hresolve] at h
    dsimp only at h ⊢
    rw [h]
    exact hip
  | none =>
    rw [hresolve] at h
    dsimp only at h ⊢
    rw [resolveHostname] at h
    split_ifs at h
    cases hinfos : Names.getaddrinfo host with
    | none =>
      rw [hinfos] at h
      cases h
    | some infos =>
      rw [hinfos] at h
      obtain ⟨rfl, -, -⟩ := validateResolvedIps_ok h
      exact mem_sortedSet.mp hip

end

section
variable [Casing] [Netlocs] [Names]

/-- The parts of the URL of a call. -/
def Call.parts (c : Call) : SplitResult := split (strip c.url)

/-- What a call that sends a request has found before. -/
structure Prepared (c : Call) (r : Request) (host ip : Text) (ips : List Text) (addr : Address) : Prop where
  hostname : Urllib.hostname c.parts.netloc = some host
  resolved : c.resolver host = .ok (ip :: ips)
  answer : ip ∈ c.answer host
  address : ipAddress ip = some addr
  passed : isBlockedIp addr = false
  url : r.url = buildPinnedUrl host (if namedPort c.parts.netloc = 0 then 443 else namedPort c.parts.netloc)
    (orSlash (splitParams c.parts.path).1 ++ marked '?' c.parts.query) ip
  headers : r.headers = (sanitizeOutboundHeaders c.headers).set "Host".toList host
  client : r.client = getWebhookClient

theorem prepared_of_request {c : Call} {r : Request} (h : c.request = .ok r) :
    ∃ host ip ips addr, Prepared c r host ip ips addr := by
  simp only [Call.request, bind_eq_ok, pure_eq_ok, Except.ok.injEq] at h
  obtain ⟨⟨host, port, path, netloc⟩, hparse, raws, hraws, ips, hips, name, -, rfl⟩ := h
  obtain ⟨-, hhost, hport, hpath⟩ := parseHttpsUrl_ok hparse
  subst hport hpath
  obtain ⟨rfl, hne, haddrs⟩ := validateResolvedIps_ok hips
  obtain ⟨ip, ips, rfl⟩ := List.exists_cons_of_ne_nil hne
  obtain ⟨addr, haddr, hpassed⟩ := haddrs ip (.head _)
  refine ⟨host, ip, ips, addr, hhost, hraws, mem_answer hraws ip (.head _), haddr, hpassed, ?_, rfl, rfl⟩
  dsimp only [Call.parts, List.headD_cons]
  congr 1

/-- A header `Host` that names a host and a port, which may be left out where it is that of `https`. -/
def NamesHost (host : Text) (port : ℕ) (value : Text) : Prop :=
  value = bracketed host ++ ':' :: Nat.toDigits 10 port ∨ port = 443 ∧ value = bracketed host

/-- What a request of a call for a host is to be. -/
structure Faithful (c : Call) (host : Text) (r : Request) : Prop where
  address : ∃ ip ∈ c.answer host, ∃ addr, ipAddress ip = some addr ∧ Safe addr ∧
    (hostinfo (split r.url).netloc).1 = ip
  headers : ∀ key ∈ r.client.headers.map Prod.fst ++ r.headers.keys,
    lower key ∉ forbiddenOutboundHeaders ∧ "x-briefr-".toList.isPrefixOf (lower key) = false
  redirects : r.client.followRedirects = false
  scheme : (split r.url).scheme = "https".toList
  port : namedPort (split r.url).netloc = namedPort c.parts.netloc
  path : (split r.url).path = orSlash c.parts.path
  query : (split r.url).query = c.parts.query
  host : "Host".toList ∈ r.headers.keys ∧
    ∀ key value, r.headers.get? key = some value → lower key = "host".toList →
      NamesHost host (namedPort c.parts.netloc) value

/-- The URL has no parameters behind its path, names no port but that of `https` and no IPv6 address, no other header of
the call names a host, and the address that is taken has none hidden in it. -/
structure Clean (c : Call) (host : Text) : Prop where
  path : ';' ∉ segment c.parts.path
  port : namedPort c.parts.netloc = 443
  name : ':' ∉ host
  headers : ∀ key value, (c.headers.getD .empty).get? key = some value → lower key = "host".toList →
    key = "Host".toList ∨ NamesHost host 443 value
  address : ∀ ip ips addr, c.resolver host = .ok (ip :: ips) → ipAddress ip = some addr → ¬Hidden addr

end

section
variable [Names]

/-- An address with a zone is found for the own link only. -/
def Unscoped (c : Call) : Prop :=
  ∀ host, ∀ ip ∈ c.answer host, ∀ addr, ipAddress ip = some addr → '%' ∈ ip → addr.isLinkLocal = true

end

theorem namesHost_iff {host : Text} {port : ℕ} : NamesHost host port host ↔ port = 443 ∧ ':' ∉ host := by
  have hlength : host.length ≤ (bracketed host).length := by
    rw [bracketed]
    split_ifs
    · rw [List.length_append, List.length_cons]
      omega
    · exact le_rfl
  constructor
  · rintro (h | ⟨rfl, h⟩)
    · have hlengths := congrArg List.length h
      rw [List.length_append, List.length_cons] at hlengths
      omega
    · refine ⟨rfl, fun hcolon ↦ ?_⟩
      have hlengths := congrArg List.length h
      rw [bracketed, if_pos hcolon, List.length_append, List.length_cons, List.length_singleton] at hlengths
      omega
  · rintro ⟨rfl, hcolon⟩
    exact .inr ⟨rfl, (if_neg hcolon).symm⟩

theorem splitParams_eq_self {path : Text} : (splitParams path).1 = path ↔ ';' ∉ segment path := by
  constructor
  · intro h hmem
    rw [splitParams, if_pos hmem] at h
    have hcut : (cut ';' (segment path)).1 = segment path :=
      List.append_cancel_left (h.trans (directory_append_segment path).symm)
    exact (cut_cases ';' (segment path)).1 (hcut.symm ▸ hmem)
  · intro h
    rw [splitParams, if_neg h]

/-- A path that begins with a slash still does without its parameters. -/
theorem head_splitParams {path : Text} (h : path.head? = some '/') : (splitParams path).1.head? = some '/' := by
  cases path with
  | nil => cases h
  | cons c path =>
    obtain rfl := Option.some.inj h
    rw [splitParams_slash]
    rfl

theorem mem_orSlash {path : Text} {d : Char} (h : d ∈ orSlash (splitParams path).1) : d = '/' ∨ d ∈ path := by
  rw [orSlash] at h
  split_ifs at h
  · exact .inl (List.mem_singleton.mp h)
  · rcases splitParams_cases path with heq | ⟨-, heq, -⟩
    · rw [← heq]
      exact .inr (List.mem_append_left _ h)
    · rw [heq]
      exact .inr (List.mem_append_left _ h)

section
variable [Casing] {c : Call}

theorem netloc_ne_nil {host : Text} (h : hostname c.parts.netloc = some host) : c.parts.netloc ≠ [] := by
  intro hnil
  rw [hnil] at h
  cases h

/-- The path of a URL with a host is empty or begins with a slash. -/
theorem head_path (h : c.parts.netloc ≠ []) (hpath : c.parts.path ≠ []) : c.parts.path.head? = some '/' := by
  obtain ⟨d, path, heq⟩ := List.exists_cons_of_ne_nil hpath
  have hhead : c.parts.path.head? = some d := by rw [heq]; rfl
  rw [hhead, (parsed_split (strip c.url)).path_head h d hhead]

theorem orSlash_splitParams (h : c.parts.netloc ≠ []) :
    (orSlash (splitParams c.parts.path).1).head? = some '/' ∧
      (orSlash (splitParams c.parts.path).1 = orSlash c.parts.path ↔ ';' ∉ segment c.parts.path) := by
  by_cases hpath : c.parts.path = []
  · rw [hpath]
    exact ⟨rfl, fun _ h ↦ (by cases h), fun _ ↦ rfl⟩
  · have hhead := head_path h hpath
    have hparams := head_splitParams hhead
    have hne : (splitParams c.parts.path).1 ≠ [] := by
      intro hnil
      rw [hnil] at hparams
      cases hparams
    rw [orSlash, orSlash, if_neg hne, if_neg hpath]
    exact ⟨hparams, splitParams_eq_self⟩

theorem lower_host : lower "Host".toList = "host".toList := by
  rw [lower_ascii (by simp)]
  rfl

theorem lower_userAgent : lower "User-Agent".toList = "user-agent".toList := by
  rw [lower_ascii (by simp)]
  rfl

/-- The headers of a call that are sent, and the host. -/
theorem get?_headers (headers : Option (Dict Text Text)) (host key : Text) :
    ((sanitizeOutboundHeaders headers).set "Host".toList host).get? key =
      if key = "Host".toList then some host
      else ((headers.getD .empty).get? key).filter fun _ ↦
        !decide (lower key ∈ forbiddenOutboundHeaders) && !"x-briefr-".toList.isPrefixOf (lower key) := by
  rw [Dict.get?_set, sanitizeOutboundHeaders, Dict.get?_keep]

end

section
variable [Casing] [Names] {c : Call} {r : Request} {host ip : Text} {ips : List Text} {addr : Address}

/-- The URL of a request is read as the address, the port and what is left of the path, and the query. -/
theorem Prepared.split_url (h : Prepared c r host ip ips addr) (hzone : '%' ∉ ip) :
    split r.url = ⟨"https".toList, bracketed ip ++
      portSuffix (if namedPort c.parts.netloc = 0 then 443 else namedPort c.parts.netloc),
      orSlash (splitParams c.parts.path).1, c.parts.query, []⟩ := by
  have hparsed : Parsed c.parts := parsed_split (strip c.url)
  have hsafe : ∀ d, d ∈ c.parts.path ∨ d ∈ c.parts.query → isUnsafe d = false := by
    intro d hd
    refine hparsed.safe d (List.mem_append_right _ ?_)
    exact hd.elim (List.mem_append_left _) fun hd ↦ List.mem_append_right _ (List.mem_append_left _ hd)
  rw [h.url]
  refine split_pinned (isAddressChar_of_ipAddress h.address hzone) _ host
    (orSlash_splitParams (netloc_ne_nil h.hostname)).1 (fun d hd ↦ ?_) hparsed.query fun d hd ↦ ?_
  · rcases mem_orSlash hd with rfl | hd
    · decide
    · exact hparsed.path d hd
  · rcases List.mem_append.mp hd with hd | hd
    · rcases mem_orSlash hd with rfl | hd
      · decide
      · exact hsafe d (.inl hd)
    · exact hsafe d (.inr hd)

/-- No request has a forbidden header. -/
theorem Prepared.not_forbidden (h : Prepared c r host ip ips addr) :
    ∀ key ∈ r.client.headers.map Prod.fst ++ r.headers.keys,
      lower key ∉ forbiddenOutboundHeaders ∧ "x-briefr-".toList.isPrefixOf (lower key) = false := by
  intro key hkey
  rw [h.client, h.headers] at hkey
  rcases List.mem_append.mp hkey with hkey | hkey
  · obtain rfl : key = "User-Agent".toList := List.mem_singleton.mp hkey
    rw [lower_userAgent]
    decide
  · rw [Dict.mem_keys_iff, get?_headers] at hkey
    split_ifs at hkey with hhost
    · rw [hhost, lower_host]
      decide
    · obtain ⟨value, hvalue⟩ := Option.isSome_iff_exists.mp hkey
      obtain ⟨-, hpass⟩ := Option.filter_eq_some_iff.mp hvalue
      simpa using hpass

/-- What a request is to be is decided by the URL, the headers of the call and the address. -/
theorem Prepared.faithful_iff (h : Prepared c r host ip ips addr) (hzone : '%' ∉ ip) :
    Faithful c host r ↔ Clean c host := by
  have hsplit := h.split_url hzone
  have hchars := isAddressChar_of_ipAddress h.address hzone
  have hnetloc := netloc_ne_nil h.hostname
  have hget : ∀ key, r.headers.get? key = if key = "Host".toList then some host
      else ((c.headers.getD .empty).get? key).filter fun _ ↦
        !decide (lower key ∈ forbiddenOutboundHeaders) && !"x-briefr-".toList.isPrefixOf (lower key) := by
    intro key
    rw [h.headers, get?_headers]
  constructor
  · intro hfaithful
    have hhost := hfaithful.host.2 "Host".toList host (by rw [hget, if_pos rfl]) lower_host
    obtain ⟨hport, hname⟩ := namesHost_iff.mp hhost
    refine ⟨?_, hport, hname, fun key value hvalue hkey ↦ ?_, fun ip' ips' addr' hresolved haddr ↦ ?_⟩
    · have hpath := hfaithful.path
      rw [hsplit] at hpath
      dsimp only at hpath
      exact (orSlash_splitParams hnetloc).2.mp hpath
    · refine or_iff_not_imp_left.mpr fun hne ↦ ?_
      rw [← hport]
      refine hfaithful.host.2 key value ?_ hkey
      rw [hget, if_neg hne, hvalue, hkey]
      rfl
    · obtain ⟨ip'', -, addr'', haddr'', hsafe, heq⟩ := hfaithful.address
      rw [hsplit, hostinfo_pinned hchars] at heq
      obtain rfl : ip = ip'' := heq
      obtain ⟨rfl, -⟩ := List.cons.inj (Except.ok.inj (h.resolved.symm.trans hresolved))
      obtain rfl := Option.some.inj (h.address.symm.trans haddr'')
      obtain rfl := Option.some.inj (h.address.symm.trans haddr)
      exact (safe_iff h.passed).mp hsafe
  · intro hclean
    refine ⟨⟨ip, h.answer, addr, h.address, ?_, ?_⟩, h.not_forbidden, ?_, ?_, ?_, ?_, ?_, ?_, fun key value hvalue hkey ↦ ?_⟩
    · exact (safe_iff h.passed).mpr (hclean.address ip ips addr h.resolved h.address)
    · rw [hsplit, hostinfo_pinned hchars]
    · rw [h.client]
      rfl
    · rw [hsplit]
    · rw [hsplit]
      dsimp only
      rw [namedPort_pinned hchars, hclean.port]
      rfl
    · rw [hsplit]
      dsimp only
      exact (orSlash_splitParams hnetloc).2.mpr hclean.path
    · rw [hsplit]
    · rw [Dict.mem_keys_iff, hget, if_pos rfl]
      rfl
    · rw [hclean.port]
      rw [hget] at hvalue
      split_ifs at hvalue with hname
      · obtain rfl := Option.some.inj hvalue
        exact namesHost_iff.mpr ⟨rfl, hclean.name⟩
      · obtain ⟨hvalue, -⟩ := Option.filter_eq_some_iff.mp hvalue
        exact (hclean.headers key value hvalue hkey).resolve_left hname

end

section
variable [Interp] [HeaderReaders] {c : Call} {request : Request}

/-- A retry sends the same request. -/
theorem eq_of_mem_sent {attempt : ℕ} {replies : List Reply} :
    ∀ r ∈ sent c request attempt replies, r = request := by
  induction replies generalizing attempt with
  | nil => exact fun r hr ↦ List.mem_singleton.mp hr
  | cons reply replies ih =>
    intro r hr
    rw [sent] at hr
    split at hr
    next =>
      rcases List.mem_cons.mp hr with rfl | hr
      · rfl
      · exact ih r hr
    next => exact List.mem_singleton.mp hr

theorem onReply_redirect {attempt status : ℕ} {headers : Headers} {clocks : Clocks} {queue : Queue}
    (h : isRedirect status = true) :
    ∃ raised, (onReply c attempt (.response status headers clocks queue)).2 = .raises raised := by
  have hbounds : 300 ≤ status ∧ status ≤ 399 := by
    rw [isRedirect, Bool.and_eq_true, decide_eq_true_eq, decide_eq_true_eq] at h
    exact h
  have hretryable : status ∉ retryableStatus := by
    simp only [retryableStatus, List.mem_cons, List.not_mem_nil, or_false]
    omega
  rw [onReply]
  dsimp only
  rw [if_neg (by omega), if_neg hretryable, if_pos h]
  exact ⟨_, rfl⟩

/-- A redirect is not followed by another request. -/
theorem length_sent_le {attempt i status : ℕ} {replies : List Reply} {headers : Headers} {clocks : Clocks}
    {queue : Queue} (h : replies[i]? = some (.response status headers clocks queue)) (hredirect : isRedirect status = true) :
    (sent c request attempt replies).length ≤ i + 1 := by
  induction replies generalizing attempt i with
  | nil => cases h
  | cons reply replies ih =>
    rw [sent]
    split
    next n hagain =>
      cases i with
      | zero =>
        obtain rfl := Option.some.inj h
        obtain ⟨raised, hraises⟩ := @onReply_redirect _ _ c attempt _ _ _ _ hredirect
        rw [hraises] at hagain
        cases hagain
      | succ i => exact Nat.succ_le_succ (ih h)
    next => exact Nat.succ_le_succ (Nat.zero_le i)

end

/-- What the requests of a call are to be. -/
structure Delivered [Casing] [Netlocs] [Names] [HeaderReaders] (c : Call) : Prop where
  faithful : ∀ host replies requests, hostname c.parts.netloc = some host →
    safeWebhookRequest c replies = .ok requests → ∀ r ∈ requests, Faithful c host r
  redirects : ∀ replies requests i status headers clocks queue, safeWebhookRequest c replies = .ok requests →
    replies[i]? = some (.response status headers clocks queue) → isRedirect status = true → requests.length ≤ i + 1

/-- The requests of a call are what they are to be exactly if the call is clean or sends none. -/
theorem delivered_iff [Casing] [Netlocs] [Names] [HeaderReaders] {c : Call} (hunscoped : Unscoped c) :
    Delivered c ↔
      ∀ host request, hostname c.parts.netloc = some host → c.request = .ok request → Clean c host := by
  have hiff : ∀ host request, hostname c.parts.netloc = some host → c.request = .ok request →
      (Faithful c host request ↔ Clean c host) := by
    intro host request hhost hrequest
    obtain ⟨host', ip, ips, addr, hprepared⟩ := prepared_of_request hrequest
    obtain rfl := Option.some.inj (hhost.symm.trans hprepared.hostname)
    refine hprepared.faithful_iff fun hzone ↦ ?_
    have hlink := hunscoped host ip hprepared.answer addr hprepared.address hzone
    exact not_internal_of_not_blocked hprepared.passed (.inr (.inr (.inl hlink)))
  constructor
  · intro hdelivered host request hhost hrequest
    refine (hiff host request hhost hrequest).mp (hdelivered.faithful host [] [request] hhost ?_ request (.head _))
    rw [safeWebhookRequest, hrequest]
    rfl
  · intro hclean
    refine ⟨fun host replies requests hhost hrequests r hr ↦ ?_, fun replies requests i status headers clocks queue hrequests ↦ ?_⟩
    · obtain ⟨request, hrequest, hsent⟩ := bind_eq_ok.mp hrequests
      obtain rfl := Except.ok.inj hsent
      rw [eq_of_mem_sent r hr]
      exact (hiff host request hhost hrequest).mpr (hclean host request hhost hrequest)
    · obtain ⟨request, -, hsent⟩ := bind_eq_ok.mp hrequests
      obtain rfl := Except.ok.inj hsent
      exact length_sent_le

section
local instance ssrfCasing : Casing := asciiCasing fun _ ↦ none

local instance ssrfNetlocs : Netlocs := ⟨fun _ ↦ true, fun _ _ ↦ rfl, fun _ _ ↦ rfl⟩

local instance ssrfNames : Names := ⟨fun _ ↦ none, some⟩

local instance ssrfReaders : HeaderReaders := noReaders

/-- A call whose host has one address. -/
def hookCall (url : Text) : Call :=
  { source := "webhook".toList, method := "POST".toList, url, json := .none, data := .none, headers := none, retries := 2,
    resolve := some fun _ ↦ .ok ["8.8.8.8".toList] }

theorem unscoped_hookCall (url : Text) : Unscoped (hookCall url) := by
  intro host ip hip addr _ hzone
  obtain rfl : ip = "8.8.8.8".toList := List.mem_singleton.mp hip
  exact absurd hzone (by decide)

theorem delivered_plainUrl : Delivered (hookCall "https://hooks.example/services/hook?wait=true".toList) := by
  refine (delivered_iff (unscoped_hookCall _)).mpr fun host request hhost _ ↦ ?_
  have hname : hostname (hookCall "https://hooks.example/services/hook?wait=true".toList).parts.netloc =
      some "hooks.example".toList := by decide
  obtain rfl := Option.some.inj (hname.symm.trans hhost)
  refine ⟨by decide, by decide, by decide, fun key value hvalue ↦ ?_,
    fun ip ips addr hresolved haddr ↦ ?_⟩
  · cases hvalue
  · obtain ⟨rfl, -⟩ := List.cons.inj (Except.ok.inj hresolved)
    have hip : ipAddress "8.8.8.8".toList = some (.v4 0x08080808) := by decide
    obtain rfl := Option.some.inj (hip.symm.trans haddr)
    exact id

/-- The parameters of a path are not sent. -/
theorem params_dropped : ¬Delivered (hookCall "https://hooks.example/services;v=2".toList) := by
  intro h
  obtain ⟨request, hrequest⟩ : ∃ request, (hookCall "https://hooks.example/services;v=2".toList).request = .ok request :=
    ⟨_, rfl⟩
  obtain ⟨host, ip, ips, addr, hprepared⟩ := prepared_of_request hrequest
  obtain rfl : ip = "8.8.8.8".toList := List.mem_singleton.mp hprepared.answer
  have hsent : safeWebhookRequest (hookCall "https://hooks.example/services;v=2".toList) [] = .ok [request] := by
    rw [safeWebhookRequest, hrequest]
    rfl
  have hfaithful := h.faithful host [] [request] hprepared.hostname hsent request (.head _)
  have hclean := (hprepared.faithful_iff (by decide)).mp hfaithful
  exact absurd hclean.path (by decide)

end

end Briefr.Webhooks.Ssrf
