import Briefr.Library.Runs
import Briefr.Library.SerialTable
import Briefr.Python.Digits

namespace Briefr.Auth.SearchTokens

open Briefr.Python Briefr.Library Briefr.Library.Runs

def nul : Char := Char.ofNat 0

/-- `bcrypt`, with the salt drawn. A password below its limit of 72 bytes verifies against its own hashes, and no other
text does. -/
class Passwords where
  hashPassword : Text → ℕ → Text
  verifyPassword : Text → Text → Bool
  verify_hash : ∀ (plain : Text) (salt : ℕ) (text : Text), (∀ c ∈ plain, c ≠ nul ∧ c.toNat < 128) → plain.length < 72 →
    nul ∉ text → (verifyPassword text (hashPassword plain salt) = true ↔ text = plain)

export Passwords (hashPassword verifyPassword verify_hash)

structure TokenRow where
  id : ℕ
  name : Text
  tokenPrefix : Text
  tokenHash : Text
  scopes : List Text
  createdAt : Text
  createdBy : Text
  lastUsedAt : Option Text
  revokedAt : Option Text
  deriving DecidableEq

/-- `search_api_tokens`, with its `UNIQUE` on the prefix. -/
abbrev Table := SerialTable TokenRow Text TokenRow.id TokenRow.tokenPrefix

def tokenPrefix : Text := "briefr_search_"

def lookupLen : ℕ := tokenPrefix.length + 12

def defaultScopes : List Text := ["search:semantic", "cves:related", "cves:read"]

/-- What `secrets.token_urlsafe(32)` draws. -/
structure Secret where
  text : Text
  length_eq : text.length = 43
  urlsafe : ∀ c ∈ text, (c.isAlphanum || c == '-' || c == '_') = true

def generateSearchTokenPlaintext (secret : Secret) : Text := tokenPrefix ++ secret.text

section
variable [Interp]

def tokenLookupPrefix (plaintext : Text) : Text :=
  let text := strip plaintext
  if text.length < lookupLen then text else text.take lookupLen

/-- `name.strip() or "Search token"`. -/
def labelOf (name : Text) : Text := if strip name = [] then "Search token" else strip name

variable [Passwords]

/-- The table with the new row, and the plaintext that is shown once; a prefix that is taken raises. -/
def createSearchToken (t : Table) (name createdBy : Text) (secret : Secret) (salt : ℕ) (now : Text) :
    Option (Table × TokenRow × Text) :=
  let plaintext := generateSearchTokenPlaintext secret
  let start := tokenLookupPrefix plaintext
  if h : start ∈ t.rows.map TokenRow.tokenPrefix then none
  else
    let row : TokenRow :=
      ⟨t.nextId, labelOf name, start, hashPassword plaintext salt, defaultScopes, now, createdBy, none, none⟩
    some (t.insert row rfl h, row, plaintext)

def createSearchApiToken (t : Table) (name createdBy : Text) (secret : Secret) (salt : ℕ) (now : Text) :
    Option (Table × TokenRow × Text) :=
  createSearchToken t ((labelOf name).take 120) createdBy secret salt now

end

def TokenRow.revoke (id : ℕ) (now : Text) (row : TokenRow) : TokenRow :=
  if row.id = id ∧ row.revokedAt = none then { row with revokedAt := some now } else row

def TokenRow.touch (id : ℕ) (now : Text) (row : TokenRow) : TokenRow :=
  if row.id = id then { row with lastUsedAt := some now } else row

@[simp] theorem TokenRow.id_revoke (id : ℕ) (now : Text) (row : TokenRow) : (row.revoke id now).id = row.id := by
  rw [revoke]; split <;> rfl

@[simp] theorem TokenRow.tokenPrefix_revoke (id : ℕ) (now : Text) (row : TokenRow) :
    (row.revoke id now).tokenPrefix = row.tokenPrefix := by
  rw [revoke]; split <;> rfl

@[simp] theorem TokenRow.tokenHash_revoke (id : ℕ) (now : Text) (row : TokenRow) :
    (row.revoke id now).tokenHash = row.tokenHash := by
  rw [revoke]; split <;> rfl

theorem TokenRow.revokedAt_revoke (id : ℕ) (now : Text) (row : TokenRow) :
    (row.revoke id now).revokedAt = none ↔ row.revokedAt = none ∧ row.id ≠ id := by
  rw [revoke]
  by_cases hid : row.id = id <;> by_cases hrevoked : row.revokedAt = none <;> simp [hid, hrevoked]

@[simp] theorem TokenRow.id_touch (id : ℕ) (now : Text) (row : TokenRow) : (row.touch id now).id = row.id := by
  rw [touch]; split <;> rfl

@[simp] theorem TokenRow.tokenPrefix_touch (id : ℕ) (now : Text) (row : TokenRow) :
    (row.touch id now).tokenPrefix = row.tokenPrefix := by
  rw [touch]; split <;> rfl

@[simp] theorem TokenRow.tokenHash_touch (id : ℕ) (now : Text) (row : TokenRow) :
    (row.touch id now).tokenHash = row.tokenHash := by
  rw [touch]; split <;> rfl

@[simp] theorem TokenRow.revokedAt_touch (id : ℕ) (now : Text) (row : TokenRow) :
    (row.touch id now).revokedAt = row.revokedAt := by
  rw [touch]; split <;> rfl

/-- Whether an active row was there, and the table after it. -/
def revokeSearchToken (t : Table) (id : ℕ) (now : Text) : Table × Bool :=
  (t.update (TokenRow.revoke id now) (TokenRow.id_revoke id now) (TokenRow.tokenPrefix_revoke id now),
    t.rows.any fun row ↦ row.id = id && row.revokedAt = none)

/-- The status of the response. -/
def revokeSearchApiToken (t : Table) (tokenId : ℤ) (now : Text) : Table × ℕ :=
  if tokenId < 1 then (t, 400)
  else
    let (t, ok) := revokeSearchToken t tokenId.toNat now
    (t, if ok then 200 else 404)

/-- `UPDATE search_api_tokens SET last_used_at`. -/
def touchToken (t : Table) (id : ℕ) (now : Text) : Table :=
  t.update (TokenRow.touch id now) (TokenRow.id_touch id now) (TokenRow.tokenPrefix_touch id now)

structure Meta where
  id : ℕ
  name : Text
  tokenPrefix : Text
  scopes : List Text
  deriving DecidableEq

/-- The row whose prefix the text has, if it is active and its hash verifies. -/
def verifySearchToken [Interp] [Passwords] (t : Table) (plaintext : Text) : Option Meta :=
  let text := strip plaintext
  if ¬tokenPrefix <+: text ∨ text.length < lookupLen then none
  else
    match t.rows.find? fun row ↦ row.tokenPrefix = tokenLookupPrefix text && row.revokedAt = none with
    | none => none
    | some row =>
      if verifyPassword text row.tokenHash then some ⟨row.id, row.name, row.tokenPrefix, row.scopes⟩ else none

/-- A request, with what the limiter of search tokens raises for it, if anything, and the answer of `require_user`. No
header has a NUL. -/
structure Request where
  method : Text
  path : Text
  authorization : Text
  noNul : nul ∉ authorization
  limited : Option ℕ
  session : Except ℕ Text

def publicPrefixes : List Text := ["/api/auth/", "/api/wallboard/"]

def publicExact : List Text := ["/api/health", "/api/health/live", "/api/docs", "/api/redoc", "/api/openapi.json"]

def adminPrefixes : List Text := ["/api/admin/", "/api/refresh"]

def isPublicApiPath (path : Text) : Bool := path ∈ publicExact || publicPrefixes.any (· <+: path)

def skipSessionGate (path : Text) : Bool :=
  !("/api/".toList.isPrefixOf path) || isPublicApiPath path || adminPrefixes.any (· <+: path)

/-- A letter of a pattern under `re.IGNORECASE`, which lets two letters beside `I` stand for `i`, and one for `s`. -/
def ignoreCase (p c : Char) : Bool :=
  c.toLower == p.toLower || (p.toLower == 'i' && (c == 'İ' || c == 'ı')) || (p.toLower == 's' && c == 'ſ')

def dropIgnoringCase : Text → Text → Option Text
  | [], path => some path
  | p :: pattern, c :: path => if ignoreCase p c then dropIgnoringCase pattern path else none
  | _ :: _, [] => none

section
variable [Digits]

/-- What `/api/cves/CVE-\d{4}-\d+` leaves of a path. -/
def afterCveId (path : Text) : Option Text := do
  let rest ← dropIgnoringCase "/api/cves/CVE-" path
  let serial := (rest.drop 5).takeWhile isDecimal
  if (rest.take 4).length = 4 ∧ (rest.take 4).all isDecimal ∧ rest[4]? = some '-' ∧ serial ≠ [] then
    some ((rest.drop 5).dropWhile isDecimal)
  else none

def searchTokenPathAllowed (path method : Text) : Bool :=
  if upper method ≠ "GET" then false
  else
    path = "/api/search/semantic" || afterCveId path = some [] ||
      (afterCveId path).any fun rest ↦
        (["/related", "/drawer"] : List Text).any fun word ↦ dropIgnoringCase word rest = some []

def bearerToken (r : Request) : Option Text :=
  if "bearer ".toList <+: lower r.authorization then
    let token := strip (r.authorization.drop 7)
    if token = [] then none else some token
  else none

/-- The text of a search token that a request carries. -/
def searchBearer (r : Request) : Option Text := (bearerToken r).filter (tokenPrefix <+: ·)

/-- Who a request goes on as. -/
inductive Caller
  | ungated
  | searchToken (token : Meta)
  | user (username : Text)

inductive Answer
  | next (caller : Caller)
  | refused (status : ℕ)

def sessionAuthMiddleware [Passwords] (t : Table) (r : Request) : Answer :=
  if r.method = "OPTIONS" ∨ skipSessionGate r.path then .next .ungated
  else
    match searchBearer r with
    | some bearer =>
      if searchTokenPathAllowed r.path r.method then
        match r.limited with
        | some status => .refused status
        | none =>
          match verifySearchToken t bearer with
          | none => .refused 401
          | some token => .next (.searchToken token)
      else .refused 403
    | none =>
      match r.session with
      | .error status => .refused status
      | .ok username => .next (.user username)

/-- The admin's requests, the `UPDATE` of a request that was let through, and an id that is drawn for no row. -/
inductive Event
  | create (name createdBy : Text) (secret : Secret) (salt : ℕ) (now : Text)
  | revoke (tokenId : ℤ) (now : Text)
  | touch (id : ℕ) (now : Text)
  | skip

def step [Passwords] (t : Table) : Event → Table
  | .create name createdBy secret salt now =>
    ((createSearchApiToken t name createdBy secret salt now).map Prod.fst).getD t
  | .revoke tokenId now => (revokeSearchApiToken t tokenId now).1
  | .touch id now => touchToken t id now
  | .skip => t.skip

/-- The token that an event hands out. -/
def issued [Passwords] (t : Table) : Event → Option (ℕ × Text)
  | .create name createdBy secret salt now =>
    (createSearchApiToken t name createdBy secret salt now).map fun made ↦ (made.2.1.id, made.2.2)
  | .revoke _ _ | .touch _ _ | .skip => none

end

section
variable {secret : Secret}

theorem toNat_of_urlsafe {c : Char} (h : (c.isAlphanum || c == '-' || c == '_') = true) :
    45 ≤ c.toNat ∧ c.toNat ≤ 122 := by
  rw [Bool.or_eq_true, Bool.or_eq_true] at h
  rcases h with (h | h) | h
  · rw [Char.isAlphanum, Bool.or_eq_true, isDigit_iff] at h
    have hletter : c.isAlpha = true → (65 ≤ c.toNat ∧ c.toNat ≤ 90) ∨ (97 ≤ c.toNat ∧ c.toNat ≤ 122) := by
      intro h
      rcases Bool.or_eq_true_iff.mp h with hupper | hlower
      · exact .inl (of_decide_eq_true hupper)
      · obtain ⟨hlow, hhigh⟩ := Bool.and_eq_true_iff.mp hlower
        exact .inr ⟨of_decide_eq_true hlow, of_decide_eq_true hhigh⟩
    have hrange := h.imp_left hletter
    omega
  · rw [beq_iff_eq.mp h]
    decide
  · rw [beq_iff_eq.mp h]
    decide

theorem toNat_of_plaintext {c : Char} (h : c ∈ generateSearchTokenPlaintext secret) : 45 ≤ c.toNat ∧ c.toNat ≤ 122 := by
  have hstart : tokenPrefix.all (fun c ↦ decide (45 ≤ c.toNat ∧ c.toNat ≤ 122)) = true := by decide
  rcases List.mem_append.mp h with h | h
  · exact of_decide_eq_true (List.all_eq_true.mp hstart c h)
  · exact toNat_of_urlsafe (secret.urlsafe c h)

theorem length_plaintext : (generateSearchTokenPlaintext secret).length = 57 := by
  rw [generateSearchTokenPlaintext, List.length_append, secret.length_eq]
  rfl

theorem verify_plaintext [Passwords] (salt : ℕ) {text : Text} (h : nul ∉ text) :
    verifyPassword text (hashPassword (generateSearchTokenPlaintext secret) salt) = true ↔
      text = generateSearchTokenPlaintext secret := by
  refine verify_hash _ salt text (fun c hc ↦ ?_) (by rw [length_plaintext]; decide) h
  have hrange := toNat_of_plaintext hc
  refine ⟨?_, by omega⟩
  rintro rfl
  exact absurd hrange.1 (by decide)

variable [Interp]

theorem strip_plaintext : strip (generateSearchTokenPlaintext secret) = generateSearchTokenPlaintext secret := by
  refine strip_eq_self fun c hc ↦ ?_
  have hrange := toNat_of_plaintext hc
  rw [Interp.isSpace_ascii c (by omega), isAsciiSpace]
  simp only [Bool.or_eq_false_iff, Bool.and_eq_false_iff, decide_eq_false_iff_not, beq_eq_false_iff_ne]
  omega

theorem tokenLookupPrefix_eq (text : Text) : tokenLookupPrefix text = (strip text).take lookupLen := by
  rw [tokenLookupPrefix]
  split
  next h => rw [List.take_of_length_le h.le]
  next => rfl

end

section
variable [Digits] [Passwords] (start : Table) (events : List Event)

/-- An event of the run handed the token out. -/
def Issued (id : ℕ) (plain : Text) : Prop := ∃ before e after, events = before ++ e :: after ∧
  issued (run step start before) e = some (id, plain)

/-- It was handed out, and its id is not revoked after that. -/
def Active (id : ℕ) (plain : Text) : Prop := ∃ before e after, events = before ++ e :: after ∧
  issued (run step start before) e = some (id, plain) ∧ ∀ now, Event.revoke id now ∉ after

/-- What a row keeps of its plaintext. -/
def Made (row : TokenRow) (plain : Text) : Prop := row.tokenPrefix = plain.take lookupLen ∧
  ∃ secret salt, plain = generateSearchTokenPlaintext secret ∧ row.tokenHash = hashPassword plain salt

/-- Each row is of a token that was handed out, and each token has a row, which is active as the token is. -/
structure Traced (t : Table) : Prop where
  next : 1 ≤ t.nextId
  positive : ∀ row ∈ t.rows, 1 ≤ row.id
  rows : ∀ row ∈ t.rows, ∃ plain, Issued start events row.id plain
  tokens : ∀ id plain, Issued start events id plain →
    ∃ row ∈ t.rows, row.id = id ∧ Made row plain ∧ (row.revokedAt = none ↔ Active start events id plain)

variable {start events} {e : Event} {t : Table}

theorem issued_append {id : ℕ} {plain : Text} : Issued start (events ++ [e]) id plain ↔
    Issued start events id plain ∨ issued (run step start events) e = some (id, plain) :=
  exists_split_append_singleton (P := fun before e _ ↦ issued (run step start before) e = some (id, plain))

theorem active_append {id : ℕ} {plain : Text} : Active start (events ++ [e]) id plain ↔
    (Active start events id plain ∧ ∀ now, e ≠ .revoke id now) ∨
      issued (run step start events) e = some (id, plain) := by
  rw [Active, exists_split_append_singleton (P := fun before e after ↦
    issued (run step start before) e = some (id, plain) ∧ ∀ now, Event.revoke id now ∉ after)]
  simp only [List.mem_append, List.mem_singleton, not_or, forall_and, List.not_mem_nil, not_false_eq_true, implies_true,
    and_true]
  refine or_congr_left ?_
  constructor
  · rintro ⟨before, e', after, heq, hissued, hafter, he⟩
    exact ⟨⟨before, e', after, heq, hissued, hafter⟩, fun now h ↦ he now h.symm⟩
  · rintro ⟨⟨before, e', after, heq, hissued, hafter⟩, he⟩
    exact ⟨before, e', after, heq, hissued, hafter, fun now h ↦ he now h.symm⟩

/-- A create either raises or adds the row of its token. -/
theorem createSearchApiToken_cases (t : Table) (name createdBy : Text) (secret : Secret) (salt : ℕ) (now : Text) :
    createSearchApiToken t name createdBy secret salt now = none ∨
      ∃ t' row, createSearchApiToken t name createdBy secret salt now =
          some (t', row, generateSearchTokenPlaintext secret) ∧
        t'.rows = t.rows ++ [row] ∧ t'.nextId = t.nextId + 1 ∧ row.id = t.nextId ∧ row.revokedAt = none ∧
          Made row (generateSearchTokenPlaintext secret) := by
  rw [createSearchApiToken, createSearchToken]
  dsimp only
  split
  · exact .inl rfl
  · refine .inr ⟨_, _, rfl, rfl, rfl, rfl, rfl, ?_, secret, salt, rfl, rfl⟩
    rw [tokenLookupPrefix_eq, strip_plaintext]

/-- An event that hands out no token leaves each row as it is, but for the revocations that it is. -/
theorem traced_map (h : Traced start events (run step start events)) (hissued : issued (run step start events) e = none)
    {f : TokenRow → TokenRow} (hnext : (run step start events).nextId ≤ t.nextId)
    (hrows : t.rows = (run step start events).rows.map f) (hid : ∀ row, (f row).id = row.id)
    (hbegin : ∀ row, (f row).tokenPrefix = row.tokenPrefix) (hhash : ∀ row, (f row).tokenHash = row.tokenHash)
    (hrevoked : ∀ row ∈ (run step start events).rows,
      (f row).revokedAt = none ↔ row.revokedAt = none ∧ ∀ now, e ≠ .revoke row.id now) :
    Traced start (events ++ [e]) t := by
  have hold : ∀ {id plain}, Issued start (events ++ [e]) id plain ↔ Issued start events id plain := by
    intro id plain
    rw [issued_append, hissued]
    exact or_iff_left nofun
  refine ⟨h.next.trans hnext, ?_, ?_, ?_⟩
  · intro row hrow
    rw [hrows] at hrow
    obtain ⟨row, hmem, rfl⟩ := List.mem_map.mp hrow
    rw [hid]
    exact h.positive row hmem
  · intro row hrow
    rw [hrows] at hrow
    obtain ⟨row, hmem, rfl⟩ := List.mem_map.mp hrow
    obtain ⟨plain, hplain⟩ := h.rows row hmem
    exact ⟨plain, by rwa [hold, hid]⟩
  · intro id plain hplain
    obtain ⟨row, hmem, rfl, ⟨hstart, secret, salt, hsecret, hhashed⟩, hactive⟩ := h.tokens id plain (hold.mp hplain)
    refine ⟨f row, hrows ▸ List.mem_map_of_mem hmem, hid row, ⟨?_, secret, salt, hsecret, ?_⟩, ?_⟩
    · rw [hbegin, hstart]
    · rw [hhash, hhashed]
    · rw [hrevoked row hmem, hactive, active_append, hissued]
      exact (or_iff_left nofun).symm

theorem traced_create {name createdBy now : Text} {secret : Secret} {salt : ℕ}
    (h : Traced start events (run step start events)) :
    Traced start (events ++ [.create name createdBy secret salt now])
      (step (run step start events) (.create name createdBy secret salt now)) := by
  rcases createSearchApiToken_cases (run step start events) name createdBy secret salt now with
    hnone | ⟨t', row, hcreated, hrows, hnext, hid, hrevoked, hmade⟩
  · refine traced_map h ?_ ?_ (f := id) ?_ (fun _ ↦ rfl) (fun _ ↦ rfl) (fun _ ↦ rfl) fun row _ ↦ ?_
    · rw [issued, hnone]
      rfl
    · rw [step, hnone]
      exact le_rfl
    · rw [step, hnone, List.map_id]
      rfl
    · exact ⟨fun h ↦ ⟨h, nofun⟩, And.left⟩
  · have hissued : issued (run step start events) (.create name createdBy secret salt now) =
        some (row.id, generateSearchTokenPlaintext secret) := by
      rw [issued, hcreated]
      rfl
    rw [step, hcreated, Option.map_some, Option.getD_some]
    refine ⟨hnext ▸ Nat.le_succ_of_le h.next, ?_, ?_, ?_⟩
    · intro old hold
      rw [hrows] at hold
      rcases List.mem_append.mp hold with hold | hold
      · exact h.positive old hold
      · rw [List.mem_singleton.mp hold, hid]
        exact h.next
    · intro old hold
      rw [hrows] at hold
      rcases List.mem_append.mp hold with hold | hold
      · obtain ⟨plain, hplain⟩ := h.rows old hold
        exact ⟨plain, issued_append.mpr (.inl hplain)⟩
      · rw [List.mem_singleton.mp hold]
        exact ⟨_, issued_append.mpr (.inr hissued)⟩
    · intro id plain hplain
      rw [hrows]
      rcases issued_append.mp hplain with hplain | hplain
      · obtain ⟨old, hold, rfl, hkeeps, hactive⟩ := h.tokens id plain hplain
        have hne : (row.id, generateSearchTokenPlaintext secret) ≠ (old.id, plain) := by
          intro heq
          have hfresh := (run step start events).fresh old hold
          have hsame := (Prod.mk.inj heq).1
          omega
        refine ⟨old, List.mem_append_left _ hold, rfl, hkeeps, ?_⟩
        rw [hactive, active_append, hissued, Option.some_inj, or_iff_left hne, and_iff_left (fun _ ↦ nofun)]
      · obtain ⟨rfl, rfl⟩ := Prod.mk.inj (Option.some.inj (hissued.symm.trans hplain))
        refine ⟨row, List.mem_append_right _ (List.mem_singleton_self row), rfl, hmade, ?_⟩
        exact iff_of_true hrevoked (active_append.mpr (.inr hplain))

theorem traced_step (h : Traced start events (run step start events)) (e : Event) :
    Traced start (events ++ [e]) (step (run step start events) e) := by
  cases e with
  | create name createdBy secret salt now => exact traced_create h
  | revoke tokenId now =>
    rw [step, revokeSearchApiToken]
    split
    next hlow =>
      refine traced_map h rfl (f := id) le_rfl (List.map_id _).symm (fun _ ↦ rfl) (fun _ ↦ rfl) (fun _ ↦ rfl)
        fun row hrow ↦ ?_
      have hpositive := h.positive row hrow
      refine (and_iff_left fun now' heq ↦ ?_).symm
      have hsame := (Event.revoke.inj heq).1
      omega
    next hlow =>
      refine traced_map h rfl le_rfl rfl (TokenRow.id_revoke _ _) (TokenRow.tokenPrefix_revoke _ _)
        (TokenRow.tokenHash_revoke _ _) fun row hrow ↦ ?_
      rw [TokenRow.revokedAt_revoke]
      refine and_congr_right fun _ ↦ ⟨fun hne now' heq ↦ ?_, fun hne hsame ↦ hne now ?_⟩
      · have hsame := (Event.revoke.inj heq).1
        omega
      · rw [hsame, Int.toNat_of_nonneg (by omega)]
  | touch id now =>
    refine traced_map h rfl le_rfl rfl (TokenRow.id_touch _ _) (TokenRow.tokenPrefix_touch _ _)
      (TokenRow.tokenHash_touch _ _) fun row _ ↦ ?_
    rw [TokenRow.revokedAt_touch]
    exact (and_iff_left fun _ ↦ nofun).symm
  | skip =>
    exact traced_map h rfl (f := id) (Nat.le_succ _) (List.map_id _).symm (fun _ ↦ rfl) (fun _ ↦ rfl) (fun _ ↦ rfl)
      fun row _ ↦ (and_iff_left fun _ ↦ nofun).symm

theorem traced_run (hrows : start.rows = []) (hnext : 1 ≤ start.nextId) (events : List Event) :
    Traced start events (run step start events) := by
  induction events using List.reverseRecOn with
  | nil =>
    have hnone : ∀ id plain, ¬Issued start [] id plain := by
      rintro id plain ⟨before, e, after, hnil, -⟩
      exact absurd hnil.symm (by simp)
    refine ⟨hnext, fun row hrow ↦ ?_, fun row hrow ↦ ?_, fun id plain h ↦ absurd h (hnone id plain)⟩
    · rw [run_nil, hrows] at hrow
      cases hrow
    · rw [run_nil, hrows] at hrow
      cases hrow
  | append_singleton events e ih =>
    rw [run_append]
    exact traced_step ih e

/-- A text verifies as a token exactly when the token was handed out with this text and is active. -/
theorem verifySearchToken_iff (h : Traced start events t) {text : Text} (hnul : nul ∉ text) (hstrip : strip text = text)
    (id : ℕ) : (∃ token, verifySearchToken t text = some token ∧ token.id = id) ↔ Active start events id text := by
  have hlookup : tokenLookupPrefix text = text.take lookupLen := by rw [tokenLookupPrefix_eq, hstrip]
  rw [verifySearchToken, hstrip, hlookup]
  constructor
  · rintro ⟨token, hverified, rfl⟩
    split at hverified
    · cases hverified
    · split at hverified
      next => cases hverified
      next row hfound =>
        split at hverified
        next hhash =>
          obtain rfl := Option.some.inj hverified
          have hrow := List.mem_of_find?_eq_some hfound
          obtain ⟨plain, hplain⟩ := h.rows row hrow
          obtain ⟨row', hrow', hid, ⟨-, secret, salt, rfl, hmade⟩, hactive⟩ := h.tokens _ _ hplain
          obtain rfl := SerialTable.eq_of_id t hrow' hrow hid
          rw [hmade, verify_plaintext salt hnul] at hhash
          have hopen := List.find?_some hfound
          rw [Bool.and_eq_true, decide_eq_true_eq, decide_eq_true_eq] at hopen
          rw [hhash]
          exact hactive.mp hopen.2
        next => cases hverified
  · intro hactive
    have hissued : Issued start events id text := by
      obtain ⟨before, e, after, heq, hissued, -⟩ := hactive
      exact ⟨before, e, after, heq, hissued⟩
    obtain ⟨row, hrow, hid, ⟨hbegin, secret, salt, rfl, hmade⟩, hopen⟩ := h.tokens id text hissued
    have hstarts : tokenPrefix <+: generateSearchTokenPlaintext secret := List.prefix_append _ _
    have hlong : ¬(generateSearchTokenPlaintext secret).length < lookupLen := by rw [length_plaintext]; decide
    rw [if_neg (not_or.mpr ⟨not_not.mpr hstarts, hlong⟩)]
    have hfind : t.rows.find? (fun row ↦ row.tokenPrefix = (generateSearchTokenPlaintext secret).take lookupLen &&
        row.revokedAt = none) = some row := by
      cases hfound : t.rows.find? fun row ↦ row.tokenPrefix = (generateSearchTokenPlaintext secret).take lookupLen &&
          row.revokedAt = none with
      | none =>
        have hnot := List.find?_eq_none.mp hfound row hrow
        rw [Bool.and_eq_true, decide_eq_true_eq, decide_eq_true_eq] at hnot
        exact absurd ⟨hbegin, hopen.mpr hactive⟩ hnot
      | some other =>
        have hother := List.find?_some hfound
        rw [Bool.and_eq_true, decide_eq_true_eq] at hother
        rw [SerialTable.eq_of_key t (List.mem_of_find?_eq_some hfound) hrow (hother.1.trans hbegin.symm)]
    rw [hfind]
    dsimp only
    rw [if_pos]
    · exact ⟨_, rfl, hid⟩
    · rw [hmade, verify_plaintext salt hnul]

omit [Passwords] in
theorem searchBearer_spec {r : Request} {text : Text} (h : searchBearer r = some text) :
    nul ∉ text ∧ strip text = text := by
  obtain ⟨hbearer, -⟩ := Option.filter_eq_some_iff.mp h
  rw [bearerToken] at hbearer
  split at hbearer
  next =>
    dsimp only at hbearer
    split at hbearer
    next => cases hbearer
    next =>
      obtain rfl := Option.some.inj hbearer
      refine ⟨fun hmem ↦ r.noNul ?_, strip_strip _⟩
      exact List.mem_of_mem_drop ((strip_sublist _).mem hmem)
  next => cases hbearer

theorem next_searchToken_iff {r : Request} {token : Meta} :
    sessionAuthMiddleware t r = .next (.searchToken token) ↔ ¬(r.method = "OPTIONS" ∨ skipSessionGate r.path) ∧
      searchTokenPathAllowed r.path r.method = true ∧ r.limited = none ∧
        ∃ text, searchBearer r = some text ∧ verifySearchToken t text = some token := by
  rw [sessionAuthMiddleware]
  constructor
  · intro h
    split at h
    next => cases h
    next hgate =>
      split at h
      next text hbearer =>
        split at h
        next hallowed =>
          split at h
          next => cases h
          next hlimited =>
            split at h
            next => cases h
            next token' hverified =>
              obtain rfl := Caller.searchToken.inj (Answer.next.inj h)
              exact ⟨hgate, hallowed, hlimited, text, hbearer, hverified⟩
        next => cases h
      next =>
        split at h
        next => cases h
        next => cases h
  · rintro ⟨hgate, hallowed, hlimited, text, hbearer, hverified⟩
    rw [if_neg hgate, hbearer]
    dsimp only
    rw [if_pos hallowed, hlimited, hverified]

theorem next_user_iff {r : Request} {username : Text} :
    sessionAuthMiddleware t r = .next (.user username) ↔ ¬(r.method = "OPTIONS" ∨ skipSessionGate r.path) ∧
      searchBearer r = none ∧ r.session = .ok username := by
  rw [sessionAuthMiddleware]
  constructor
  · intro h
    split at h
    next => cases h
    next hgate =>
      split at h
      next =>
        split at h
        next =>
          split at h
          next => cases h
          next =>
            split at h
            next => cases h
            next => cases h
        next => cases h
      next hbearer =>
        split at h
        next => cases h
        next name hsession =>
          obtain rfl := Caller.user.inj (Answer.next.inj h)
          exact ⟨hgate, hbearer, hsession⟩
  · rintro ⟨hgate, hbearer, hsession⟩
    rw [if_neg hgate, hbearer]
    dsimp only
    rw [hsession]

/-- In any run, a request goes on as a search token exactly when it asks one of the routes of search tokens, below
their limit, with a text that an admin was shown as the plaintext of this token, which was not revoked since. A request
with any such text never goes on as a user, whatever its session. -/
theorem goes_on_as_token_iff (hrows : start.rows = []) (hnext : 1 ≤ start.nextId) (events : List Event) (r : Request) :
    (∀ id, (∃ token, sessionAuthMiddleware (run step start events) r = .next (.searchToken token) ∧ token.id = id) ↔
      ¬(r.method = "OPTIONS" ∨ skipSessionGate r.path) ∧ searchTokenPathAllowed r.path r.method = true ∧
        r.limited = none ∧ ∃ text, searchBearer r = some text ∧ Active start events id text) ∧
    ∀ username, sessionAuthMiddleware (run step start events) r = .next (.user username) ↔
      ¬(r.method = "OPTIONS" ∨ skipSessionGate r.path) ∧ searchBearer r = none ∧ r.session = .ok username := by
  refine ⟨fun id ↦ ?_, fun username ↦ next_user_iff⟩
  have htraced := traced_run hrows hnext events
  constructor
  · rintro ⟨token, htoken, hid⟩
    obtain ⟨hgate, hallowed, hlimited, text, hbearer, hverified⟩ := next_searchToken_iff.mp htoken
    obtain ⟨hnul, hstrip⟩ := searchBearer_spec hbearer
    have hactive := (verifySearchToken_iff htraced hnul hstrip id).mp ⟨token, hverified, hid⟩
    exact ⟨hgate, hallowed, hlimited, text, hbearer, hactive⟩
  · rintro ⟨hgate, hallowed, hlimited, text, hbearer, hactive⟩
    obtain ⟨hnul, hstrip⟩ := searchBearer_spec hbearer
    obtain ⟨token, hverified, hid⟩ := (verifySearchToken_iff htraced hnul hstrip id).mpr hactive
    exact ⟨token, next_searchToken_iff.mpr ⟨hgate, hallowed, hlimited, text, hbearer, hverified⟩, hid⟩

end

section

local instance tokenDigits : Digits := latinDigits

/-- Hashes that keep the password and verify nothing else. -/
local instance plainPasswords : Passwords where
  hashPassword plain _ := plain
  verifyPassword text hash := text == hash
  verify_hash _ _ _ _ _ _ := beq_iff_eq

def repeated (c : Char) (h : (c.isAlphanum || c == '-' || c == '_') = true) : Secret where
  text := List.replicate 43 c
  length_eq := List.length_replicate
  urlsafe _ hd := List.eq_of_mem_replicate hd ▸ h

/-- Two tokens are made, an id is lost between them, and the first is revoked. -/
def twoTokens : List Event := [
  .create "CI" "admin" (repeated 'a' rfl) 1 "2026-07-22", .skip, .create "" "admin" (repeated '_' rfl) 2 "2026-07-23",
  .touch 1 "2026-07-24", .revoke 1 "2026-07-25"]

def relatedRequest (c : Char) (h : nul ≠ c) : Request where
  method := "GET"
  path := "/api/cves/cve-2026-4242/related"
  authorization := "bearer briefr_search_".toList ++ List.replicate 43 c
  noNul := by
    have hstart : nul ∉ "bearer briefr_search_".toList := by decide
    exact fun hmem ↦ (List.mem_append.mp hmem).elim hstart fun hmem ↦ h (List.eq_of_mem_replicate hmem)
  limited := none
  session := .ok "analyst"

example : sessionAuthMiddleware (run step SerialTable.empty twoTokens) (relatedRequest 'a' (by decide)) =
    .refused 401 := rfl

theorem second_token_goes_on :
    let r := relatedRequest '_' (by decide)
    ¬(r.method = "OPTIONS" ∨ skipSessionGate r.path) ∧ searchTokenPathAllowed r.path r.method = true ∧
      r.limited = none ∧ ∃ text, searchBearer r = some text ∧ Active SerialTable.empty twoTokens 3 text :=
  ((goes_on_as_token_iff rfl (le_refl 1) twoTokens (relatedRequest '_' (by decide))).1 3).mp ⟨_, rfl, rfl⟩

end

end Briefr.Auth.SearchTokens
