import Briefr.Library.Rewriting
import Briefr.Library.Substitution
import Briefr.Python.Casing
import Briefr.Python.Keywords

namespace Briefr.Security.Redact

open Briefr.Python Briefr.Library.Rewriting Briefr.Library.Substitution

inductive FieldType
  | secret
  | url
  | other
  deriving DecidableEq

/-- The types of the settings that hold URLs. -/
def urlFields : List (Text × FieldType) :=
  [("ATLAS_YAML_URL".toList, .url), ("MITRE_CVE_MAPPINGS_JSON_URL".toList, .url), ("CUSTOM_LLM_BASE_URL".toList, .url),
    ("DATABASE_URL".toList, .secret), ("DISCORD_WEBHOOK_URL".toList, .secret), ("WEBHOOK_GENERIC_URL".toList, .secret)]

/-- The types of the other settings of `CONFIG_SCHEMA`. -/
class ConfigSchema where
  otherField : Text → Option FieldType

/-- The type of `get_field(key)`. -/
def getField [ConfigSchema] (key : Text) : Option FieldType :=
  match urlFields.lookup key with
  | some type => some type
  | none => ConfigSchema.otherField key

def databaseUrl : Text := "DATABASE_URL".toList

def configSet : Text := "config.set.".toList

def secretPrefixes : List Text :=
  ["gsk_".toList, "sk-or-v1-".toList, "sk-".toList, "sk_".toList, "csk-".toList, "vulncheck_".toList, "aq.".toList]

/-- The letters outside ASCII that `[A-Za-z]` takes when case is ignored. -/
def caseTwins : List Char := [Char.ofNat 0x130, Char.ofNat 0x131, longS, Char.ofNat 0x212A]

/-- None of them is a space. -/
class CaseTwins extends Casing where
  twin_not_space : ∀ c ∈ caseTwins, isSpace c = false

/-- `[A-Za-z0-9._~+/=-]`, in any case. -/
def isToken (c : Char) : Bool := c.isAlphanum || decide (c ∈ "._~+/=-".toList) || decide (c ∈ caseTwins)

def bearerLetters : Word Char :=
  ["bB".toList, "eE".toList, "aA".toList, "rR".toList, "eE".toList, "rR".toList]

/-- `https?://` with the `s` and without. -/
def httpLetters (secure : Bool) : Word Char :=
  ["hH".toList, "tT".toList, "tT".toList, "pP".toList] ++ (if secure then [['s', 'S', longS]] else []) ++
    [[':'], ['/'], ['/']]

section
variable [Interp]

def maskSecretValue (value : Text) : Text :=
  let text := strip value
  if text = [] then "not configured".toList
  else if text.length ≤ 8 then "***".toList
  else text.take 4 ++ '…' :: text.drop (text.length - 4)

def maskUrlValue (value : Text) : Text :=
  let text := strip value
  if text = [] then "not configured".toList
  else if text.length ≤ 30 then text.take 8 ++ "…[masked]".toList
  else text.take 30 ++ "…[masked]".toList

/-- A text of more than 200 characters is cut. -/
def cut200 (value : Text) : Text := if 200 < value.length then value.take 200 ++ ['…'] else value

def alreadyMaskedSecret (text : Text) : Bool :=
  decide (text ∈ ["***".toList, "not configured".toList]) || decide ('…' ∈ text) || isIn "[masked]" (lower text)

def looksLikeSecretValue (text : Text) : Bool :=
  let stripped := strip text
  if stripped = [] ∨ stripped.length < 9 ∨ alreadyMaskedSecret stripped = true then false
  else if secretPrefixes.any fun pre ↦ pre.isPrefixOf (lower stripped) then true
  else decide (24 < stripped.length) && decide (' ' ∉ stripped) && decide ('/' ∉ stripped)

/-- The length of a match of `_LOG_BEARER_RE` at the start of the text. -/
def logBearer (text : Text) : Option ℕ :=
  let rest := text.drop bearerLetters.length
  let spaces := rest.takeWhile isSpace
  let token := (rest.dropWhile isSpace).takeWhile isToken
  if begins bearerLetters text = true ∧ spaces ≠ [] ∧ token ≠ [] then
    some (bearerLetters.length + (spaces.length + token.length))
  else none

/-- `[^\s"']` -/
def isUrlChar (c : Char) : Bool := !(isSpace c || c == '"' || c == '\'')

/-- The length of a match of `_LOG_URL_RE` at the start of the text. -/
def logUrl (text : Text) : Option ℕ :=
  match [httpLetters true, httpLetters false].find? fun word ↦ begins word text with
  | some word =>
    let rest := (text.drop word.length).takeWhile isUrlChar
    if rest ≠ [] then some (word.length + rest.length) else none
  | none => none

def hideTokens (text : Text) : Text := rewrite (fixed "Bearer [redacted]".toList logBearer) text

def hideUrls (text : Text) : Text := rewrite (fixed "[redacted-url]".toList logUrl) text

def scrubLogText (text : Option Text) : Text :=
  match text with
  | none => []
  | some text =>
    if text = [] then []
    else
      let cleaned := hideUrls (hideTokens text)
      if looksLikeSecretValue cleaned then "[redacted]".toList else cleaned

variable [ConfigSchema]

def maskConfigValue (key value : Text) : Text :=
  match getField key with
  | none => value
  | some .secret => maskSecretValue value
  | some .url => maskUrlValue value
  | some .other => if key = databaseUrl then maskUrlValue value else value

def redactAuditTarget (action key value : Text) : Text :=
  if configSet.isPrefixOf action then
    match getField key with
    | some .secret => maskSecretValue value
    | some .url => maskUrlValue value
    | _ => if key = databaseUrl then maskUrlValue value else cut200 value
  else cut200 value

/-- The end of `mask_audit_log_target`. -/
def maskLegacy (action text : Text) : Text :=
  if "config.".toList.isPrefixOf action && looksLikeSecretValue text then maskSecretValue text else cut200 text

def maskAuditLogTarget (action target : Text) : Text :=
  let text := strip target
  if text = [] then text
  else if alreadyMaskedSecret text then text
  else if configSet.isPrefixOf action then
    match getField (action.drop configSet.length) with
    | some .secret => maskSecretValue text
    | some .url => maskUrlValue text
    | _ => if action.drop configSet.length = databaseUrl then maskUrlValue text else maskLegacy action text
  else maskLegacy action text

end

end Briefr.Security.Redact
