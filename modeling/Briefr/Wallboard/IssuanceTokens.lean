import Briefr.Python.Digits
import Mathlib.Algebra.Group.Int.Defs
import Mathlib.Logic.Encodable.Lattice
import Mathlib.Logic.Equiv.List

namespace Briefr.Wallboard.IssuanceTokens

open Briefr.Python

section
variable [Interp]

/-- `int(text)`: spaces around it, a sign and single underscores between digits are allowed. -/
def intOfText (text : Text) : Py ℤ :=
  let text := strip text
  let negative := decide (text.head? = some '-')
  let digits := if text.head? = some '-' ∨ text.head? = some '+' then text.tail else text
  let plain := digits.filter (· ≠ '_')
  if (digits.splitOn '_').all (fun group ↦ !group.isEmpty && group.all isDecimal) && decide (plain.length ≤ maxIntDigits)
  then .ok (if negative then -(digitsValue plain : ℤ) else digitsValue plain)
  else .error .valueError

/-- `_load_generation` with what the row of `app_settings` holds. -/
def loadGeneration (raw : Option Text) : ℤ :=
  match intOfText (if raw.getD [] = [] then "0".toList else raw.getD []) with
  | .ok generation => generation
  | .error _ => 0

def getTokenGeneration (generationCache : Option ℤ) (raw : Option Text) : ℤ := generationCache.getD (loadGeneration raw)

end

def audience : Text := "briefr-wallboard".toList

def issuancePrefix : Text := "wbiss.".toList

/-- The claims that are encoded, the dates as the whole seconds that a token holds. -/
structure Payload where
  sub : Text
  aud : Text
  iat : ℤ
  exp : ℤ
  gen : ℤ
  typ : Text

/-- The `gen` of a token that was decoded. What is neither a number nor a string is known by its truth and by what `int`
makes of it. -/
inductive Gen
  | int (n : ℤ)
  | str (s : Text)
  | other (truthy : Bool) (asInt : Py ℤ)

structure Decoded where
  typ : Option Text
  gen : Gen

/-- `jwt.encode` and `jwt.decode` with the secret, and for decoding the audience and the time in microseconds; `none` is a
`PyJWTError`. A token is read back while it is valid, and refused before and after. -/
class Jwt where
  encode : Payload → Text → Text
  decode : Text → Text → Text → ℤ → Option Decoded
  decode_encode : ∀ payload secret now, decode (encode payload secret) secret payload.aud now =
    if payload.iat * 10 ^ 6 ≤ now ∧ now < payload.exp * 10 ^ 6 then some ⟨some payload.typ, .int payload.gen⟩ else none

structure Settings where
  jwtSecret : Text
  wallboardToken : Text
  wallboardIssuanceTokenMinutes : ℤ

def Settings.secret (s : Settings) : Text :=
  if s.jwtSecret ≠ [] then s.jwtSecret
  else if s.wallboardToken ≠ [] then s.wallboardToken
  else "briefr-wallboard-dev".toList

/-- When a token that is issued at a time expires, in microseconds. -/
def Settings.expiry (s : Settings) (now : ℤ) : ℤ := now + max 1 s.wallboardIssuanceTokenMinutes * (60 * 10 ^ 6)

def issuancePayload (s : Settings) (now : ℤ) (username : Text) (generation : ℤ) : Payload where
  sub := username
  aud := audience
  iat := now / 10 ^ 6
  exp := s.expiry now / 10 ^ 6
  gen := generation
  typ := "wallboard_issuance".toList

theorem issued_lt_expiry (s : Settings) (issued : ℤ) (username : Text) (generation : ℤ) :
    (issuancePayload s issued username generation).iat * 10 ^ 6 <
      (issuancePayload s issued username generation).exp * 10 ^ 6 := by
  have hminutes : 1 ≤ max 1 s.wallboardIssuanceTokenMinutes := le_max_left _ _
  change issued / 10 ^ 6 * 10 ^ 6 < (issued + max 1 s.wallboardIssuanceTokenMinutes * (60 * 10 ^ 6)) / 10 ^ 6 * 10 ^ 6
  omega

section
variable [Jwt]

def issueIssuanceToken (s : Settings) (now : ℤ) (username : Text) (generation : ℤ) : Text × ℤ :=
  (issuancePrefix ++ Jwt.encode (issuancePayload s now username generation) s.secret, s.expiry now)

/-- `int(payload.get("gen") or -1)`. -/
def generationOf [Interp] : Gen → Py ℤ
  | .int n => .ok (if n = 0 then -1 else n)
  | .str text => if text = [] then .ok (-1) else intOfText text
  | .other truthy asInt => if truthy then asInt else .ok (-1)

def verifyIssuanceToken [Interp] (s : Settings) (now : ℤ) (token : Text) (expectedGeneration : ℤ) : Py Bool :=
  if token = [] ∨ issuancePrefix.isPrefixOf token = false then .ok false
  else
    match Jwt.decode (token.drop issuancePrefix.length) s.secret audience now with
    | none => .ok false
    | some payload =>
      if payload.typ ≠ some "wallboard_issuance".toList then .ok false
      else
        match generationOf payload.gen with
        | .ok generation => .ok (decide (generation = expectedGeneration))
        | .error .typeError | .error .valueError => .ok false
        | .error e => .error e

variable [Interp] (s : Settings)

/-- The tokens of a generation are accepted for it from their issue to their expiry, and for no other generation ever. -/
def Verifies (generation : ℤ) : Prop :=
  ∀ username issued now,
    ((issuancePayload s issued username generation).iat * 10 ^ 6 ≤ now →
      now < (issuancePayload s issued username generation).exp * 10 ^ 6 →
        verifyIssuanceToken s now (issueIssuanceToken s issued username generation).1 generation = .ok true) ∧
    ∀ other, other ≠ generation →
      verifyIssuanceToken s now (issueIssuanceToken s issued username generation).1 other = .ok false

variable {s}

theorem verify_issued (issued now : ℤ) (username : Text) (generation expected : ℤ) :
    verifyIssuanceToken s now (issueIssuanceToken s issued username generation).1 expected =
      .ok (decide ((issuancePayload s issued username generation).iat * 10 ^ 6 ≤ now ∧
        now < (issuancePayload s issued username generation).exp * 10 ^ 6) &&
          decide ((if generation = 0 then -1 else generation) = expected)) := by
  have hne : (issueIssuanceToken s issued username generation).1 ≠ [] := List.cons_ne_nil _ _
  have hissued : issuancePrefix.isPrefixOf (issueIssuanceToken s issued username generation).1 = true :=
    List.isPrefixOf_iff_prefix.mpr (List.prefix_append _ _)
  have hdrop : (issueIssuanceToken s issued username generation).1.drop issuancePrefix.length =
      Jwt.encode (issuancePayload s issued username generation) s.secret := List.drop_left
  have hdecode := Jwt.decode_encode (issuancePayload s issued username generation) s.secret now
  have haud : (issuancePayload s issued username generation).aud = audience := rfl
  rw [haud] at hdecode
  rw [verifyIssuanceToken, if_neg (by rw [hissued]; simp [hne]), hdrop, hdecode]
  by_cases hvalid : (issuancePayload s issued username generation).iat * 10 ^ 6 ≤ now ∧
      now < (issuancePayload s issued username generation).exp * 10 ^ 6
  · rw [if_pos hvalid, decide_eq_true hvalid]
    rfl
  · rw [if_neg hvalid, decide_eq_false hvalid]
    rfl

/-- A token of generation 0 reads as one of generation -1. -/
theorem verifies_iff (generation : ℤ) : Verifies s generation ↔ generation ≠ 0 := by
  constructor
  · rintro h rfl
    have hlt := issued_lt_expiry s 0 [] 0
    have haccepted := (h [] 0 _).1 le_rfl hlt
    have hother : (-1 : ℤ) ≠ 0 := by decide
    rw [verify_issued, if_pos rfl, decide_eq_false hother, Bool.and_false] at haccepted
    cases haccepted
  · intro hne username issued now
    refine ⟨fun hissued hvalid ↦ ?_, fun other hother ↦ ?_⟩
    · rw [verify_issued, if_neg hne, decide_eq_true ⟨hissued, hvalid⟩, decide_eq_true rfl]
      rfl
    · rw [verify_issued, if_neg hne, decide_eq_false hother.symm, Bool.and_false]

/-- The tokens that are issued for the current generation verify exactly when that is not 0, the generation of an
installation without a stored one. -/
theorem tokens_verify_iff (s : Settings) (generationCache : Option ℤ) (raw : Option Text) :
    Verifies s (getTokenGeneration generationCache raw) ↔ getTokenGeneration generationCache raw ≠ 0 :=
  verifies_iff _

end

instance charEncodable : Encodable Char :=
  Encodable.ofLeftInjection Char.toNat (fun n ↦ some (Char.ofNat n)) fun c ↦ congrArg some (Char.ofNat_toNat c)

def Payload.fields (p : Payload) : Text × Text × ℤ × ℤ × ℤ × Text := (p.sub, p.aud, p.iat, p.exp, p.gen, p.typ)

/-- Tokens that are as long as the number of their content. -/
@[reducible] def numberedTokens : Jwt where
  encode payload secret := List.replicate (Encodable.encode (payload.fields, secret)) 'x'
  decode token secret audience now :=
    match (Encodable.decode token.length : Option ((Text × Text × ℤ × ℤ × ℤ × Text) × Text)) with
    | none => none
    | some ((_, aud, iat, exp, gen, typ), signed) =>
      if (signed = secret ∧ aud = audience) ∧ iat * 10 ^ 6 ≤ now ∧ now < exp * 10 ^ 6 then some ⟨some typ, .int gen⟩
      else none
  decode_encode payload secret now := by
    rw [List.length_replicate, Encodable.encodek]
    simp only [Payload.fields, true_and, and_self]

section
local instance tokenTables : Interp := latinDigits.toInterp

local instance tokenCodec : Jwt := numberedTokens

def fresh : Settings := ⟨[], [], 15⟩

/-- On a fresh installation the token that was just issued is refused. -/
theorem fresh_refused : getTokenGeneration none none = 0 ∧ 0 < (issueIssuanceToken fresh 0 "analyst".toList 0).2 ∧
    verifyIssuanceToken fresh 0 (issueIssuanceToken fresh 0 "analyst".toList 0).1 0 = .ok false := by
  refine ⟨by decide, by decide, ?_⟩
  have hother : (-1 : ℤ) ≠ 0 := by decide
  rw [verify_issued, if_pos rfl, decide_eq_false hother, Bool.and_false]

end

end Briefr.Wallboard.IssuanceTokens
