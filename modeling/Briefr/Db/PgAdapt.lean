import Briefr.Library.Dict
import Briefr.Library.SqlText
import Briefr.Python.Casing

namespace Briefr.Db.PgAdapt

open Briefr.Library Briefr.Library.Rewriting Briefr.Library.SqlText Briefr.Python

/-- The interpreter with `str.isalnum`. -/
class Alnums extends Interp where
  isAlnum : Char → Bool
  isAlnum_ascii : ∀ c, c.toNat < 128 → isAlnum c = c.isAlphanum

section
variable [Alnums]

/-- `\w` -/
def isWord (c : Char) : Bool := Alnums.isAlnum c || c == '_'

end

/-- Whether a letter of a pattern in lower case matches a character whatever its case. -/
def sameLetter (p c : Char) : Bool :=
  c.toLower == p || (p == 's' && c == longS) || (p == 'k' && c == Char.ofNat 0x212A) ||
    (p == 'i' && (c == Char.ofNat 0x130 || c == Char.ofNat 0x131))

/-- What is behind a word of a pattern. -/
def after : Text → Text → Option Text
  | [], text => some text
  | p :: word, c :: text => if sameLetter p c then after word text else none
  | _ :: _, [] => none

section
variable [Interp]

def spaces (text : Text) : Text := text.dropWhile isSpace

/-- `\s+` -/
def someSpaces (text : Text) : Option Text := if text.head?.any isSpace then some (spaces text) else none

/-- `,\s*([^)]+)\)`, where a group of spaces only is the last one. -/
def interval : Text → Option (Text × Text)
  | ',' :: text =>
    let body := text.takeWhile (· != ')')
    let group := if spaces body = [] then body.drop (body.length - 1) else spaces body
    match text.dropWhile (· != ')') with
    | _ :: rest => if body = [] then none else some (group, rest)
    | [] => none
  | _ => none

end

/-- `>=|<=|>|<|=` -/
def comparison : Text → Option (Text × Text)
  | '>' :: '=' :: text => some (">=".toList, text)
  | '<' :: '=' :: text => some ("<=".toList, text)
  | '>' :: text => some (">".toList, text)
  | '<' :: text => some ("<".toList, text)
  | '=' :: text => some ("=".toList, text)
  | _ => none

def nowUtcText : Text := "(TO_CHAR((NOW() AT TIME ZONE 'utc'), 'YYYY-MM-DD HH24:MI:SS'))".toList

section
variable [Alnums]

/-- `\w+` -/
def word (text : Text) : Option (Text × Text) :=
  if text.takeWhile isWord = [] then none else some (text.takeWhile isWord, text.dropWhile isWord)

/-- `\w+(?:\.\w+)?` -/
def column (text : Text) : Option (Text × Text) := do
  let (table, rest) ← word text
  match rest with
  | '.' :: rest' =>
    match word rest' with
    | some (name, rest'') => some (table ++ '.' :: name, rest'')
    | none => some (table, rest)
  | _ => some (table, rest)

/-- `\bdatetime\((\w+(?:\.\w+)?)\)\s*(>=|<=|>|<|=)\s*datetime\('now'(?:,\s*([^)]+))?\)` -/
def datetimeCompare (text : Text) : Option (Text × Text) := do
  let (col, text) ← column (← after "datetime(".toList text)
  let (op, text) ← comparison (spaces (← after ")".toList text))
  let text ← after "datetime('now'".toList (spaces text)
  let left := col ++ "::timestamp ".toList ++ op ++ [' ']
  match after ")".toList text with
  | some rest => some (left ++ "(NOW() AT TIME ZONE 'utc')".toList, rest)
  | none => do
    let (group, rest) ← interval text
    some (left ++ "((NOW() AT TIME ZONE 'utc') + CAST(CAST(".toList ++ (group ++ " AS text) AS interval))".toList), rest)

/-- `\bdatetime\('now'\)` -/
def datetimeNow (text : Text) : Option (Text × Text) := do
  let rest ← after "datetime('now')".toList text
  some (nowUtcText, rest)

/-- `\bdatetime\('now',\s*([^)]+)\)` -/
def datetimeShift (text : Text) : Option (Text × Text) := do
  let (group, rest) ← interval (← after "datetime('now'".toList text)
  some ("(TO_CHAR(((NOW() AT TIME ZONE 'utc') + CAST(CAST(".toList ++
    (group ++ " AS text) AS interval)), 'YYYY-MM-DD HH24:MI:SS'))".toList), rest)

/-- `\(\s*julianday\('now'\)\s*-\s*julianday\((\w+)\)\s*\)\s*\*\s*86400` -/
def juliandayAge (text : Text) : Option (Text × Text) := do
  let text ← after "julianday('now')".toList (spaces (← after "(".toList text))
  let text ← after "julianday(".toList (spaces (← after "-".toList (spaces text)))
  let (col, text) ← word text
  let text ← after ")".toList (spaces (← after ")".toList text))
  let rest ← after "86400".toList (spaces (← after "*".toList (spaces text)))
  some ("EXTRACT(EPOCH FROM ((NOW() AT TIME ZONE 'utc') - CAST(".toList ++ col ++ " AS timestamp)))".toList, rest)

/-- `\bdate\('now',\s*([^)]+)\)` -/
def dateShift (text : Text) : Option (Text × Text) := do
  let (group, rest) ← interval (← after "date('now'".toList text)
  some ("(((NOW() AT TIME ZONE 'utc') + CAST(CAST(".toList ++ (group ++ " AS text) AS interval))::date)".toList), rest)

/-- `\bdate\('now'\)` -/
def dateNow (text : Text) : Option (Text × Text) := do
  let rest ← after "date('now')".toList text
  some ("((NOW() AT TIME ZONE 'utc')::date)".toList, rest)

/-- `\bdate\((\w+(?:\.\w+)?)\)` and `\bdatetime\((\w+(?:\.\w+)?)\)` as casts. -/
def castColumn (name type : Text) (text : Text) : Option (Text × Text) := do
  let (col, text) ← column (← after (name ++ ['(']) text)
  let rest ← after ")".toList text
  some (col ++ "::".toList ++ type, rest)

/-- `INSERT\s+OR\s+…\s+INTO` -/
def insertOr (verb : Text) (text : Text) : Option Text := do
  let text ← after "or".toList (← someSpaces (← after "insert".toList text))
  after "into".toList (← someSpaces (← after verb (← someSpaces text)))

/-- `epss_history\b` behind spaces -/
def epssHistory (text : Text) : Option Text := do
  let rest ← after "epss_history".toList (← someSpaces text)
  if rest.head?.any isWord then none else some rest

/-- A match with its length. -/
def measured (text : Text) (found : Option (Text × Text)) : Option (Text × ℕ) :=
  found.map fun found ↦ (found.1, text.length - found.2.length)

/-- A pattern that begins at the start of a word. -/
def bounded (pattern : Text → Option (Text × Text)) : Rule Char := fun before text ↦
  if before.any isWord then none else measured text (pattern text)

def unbounded (pattern : Text → Option (Text × Text)) : Rule Char := fun _ text ↦ measured text (pattern text)

def insertOrReplace (text : Text) : Option (Text × Text) := do
  let rest ← epssHistory (← insertOr "replace".toList text)
  some ("INSERT INTO epss_history".toList, rest)

def insertOrIgnore (text : Text) : Option (Text × Text) := do
  let rest ← insertOr "ignore".toList text
  some ("INSERT INTO".toList, rest)

/-- `INSERT\s+INTO\s+epss_history\b` -/
def insertIntoEpss (text : Text) : Option (Text × Text) := do
  let text ← after "into".toList (← someSpaces (← after "insert".toList text))
  let rest ← epssHistory text
  some ([], rest)

/-- The date functions translated. -/
def translateDates (text : Text) : Text :=
  [bounded datetimeCompare, bounded datetimeNow, bounded datetimeShift, unbounded juliandayAge, bounded dateShift,
    bounded dateNow, bounded (castColumn "date".toList "date".toList),
    bounded (castColumn "datetime".toList "timestamp".toList)].foldl (fun text rule ↦ rewrite rule text) text

/-- `"ON CONFLICT" not in text.upper()` -/
def lacksConflict (text : Text) : Bool := !decide ("ON CONFLICT".toList <:+: upper text)

def withClause (clause text : Text) : Text := text.rdropWhile (· == ';') ++ clause

/-- The inserts into the history of EPSS translated. -/
def translateReplace (text : Text) : Text :=
  let text := rewriteFirst (unbounded insertOrReplace) text
  if (first (unbounded insertIntoEpss) text).isSome && lacksConflict text then
    withClause " ON CONFLICT (cve_id, recorded_date) DO UPDATE SET score = EXCLUDED.score".toList text
  else text

def translateIgnore (text : Text) : Text :=
  if (first (unbounded insertOrIgnore) text).isSome then
    let text := rewriteFirst (unbounded insertOrIgnore) text
    if lacksConflict text then withClause " ON CONFLICT DO NOTHING".toList text else text
  else text

def isCheck (text : Text) : Bool :=
  "PRAGMA INTEGRITY_CHECK".toList.isPrefixOf (upper text) || "PRAGMA FOREIGN_KEY_CHECK".toList.isPrefixOf (upper text)

def postgresTranslateSql (text : Text) : Text :=
  if isCheck text then strip text else translateIgnore (translateReplace (translateDates text))

/-- Where the scanner for names is: in front of the second of two colons, of the rest of a name that is left out, or
in quotes of a kind and behind a character. -/
inductive Place
  | outside
  | plain
  | skip (rest : ℕ)
  | quoted (quote before : Char)
  deriving DecidableEq

def placeholder (n : ℕ) : Text := '$' :: Nat.toDigits 10 n

/-- Whether a quote behind a character is taken for the end. -/
def endsBehind (c : Char) : Bool := c != '\\'

/-- The loop of `_colon_to_dollar`, with the rule for the end of quotes. -/
def scanColons (ends : Char → Bool) : Place → ℕ → Text → Text × List Text
  | _, _, [] => ([], [])
  | .skip 0, n, _ :: text => scanColons ends .outside n text
  | .skip (rest + 1), n, _ :: text => scanColons ends (.skip rest) n text
  | .plain, n, c :: text => (scanColons ends .outside n text).map (c :: ·) id
  | .quoted quote before, n, c :: text =>
    (scanColons ends (if c = quote ∧ ends before then .outside else .quoted quote c) n text).map (c :: ·) id
  | .outside, n, c :: text =>
    let name := text.takeWhile isWord
    if c = '\'' ∨ c = '"' then (scanColons ends (.quoted c c) n text).map (c :: ·) id
    else if c = ':' ∧ text.head? = some ':' then (scanColons ends .plain n text).map (c :: ·) id
    else if c = ':' ∧ name ≠ [] then
      (scanColons ends (.skip (name.length - 1)) (n + 1) text).map (placeholder n ++ ·) (name :: ·)
    else (scanColons ends .outside n text).map (c :: ·) id

end

/-- The loop of `_qmark_to_dollar`, in quotes of a kind and behind a character. -/
def scanMarks (ends : Char → Bool) : Option (Char × Char) → ℕ → Text → Text
  | _, _, [] => []
  | some (quote, before), n, c :: text =>
    c :: scanMarks ends (if c = quote ∧ ends before then none else some (quote, c)) n text
  | none, n, c :: text =>
    if c = '?' then placeholder n ++ scanMarks ends none (n + 1) text
    else if c = '\'' ∨ c = '"' then c :: scanMarks ends (some (c, c)) n text
    else c :: scanMarks ends none n text

def qmarkToDollar (sql : Text) : Text := if '?' ∈ sql then scanMarks endsBehind none 1 sql else sql

inductive Params (ν : Type)
  | tuple (values : List ν)
  | list (values : List ν)
  | dict (values : Dict Text ν)

def adaptParams {ν : Type} : Params ν → Params ν
  | .dict values => .dict values
  | .list values | .tuple values => .tuple values

section
variable [Alnums]

def colonToDollar (sql : Text) : Text × List Text :=
  if ':' ∈ sql then scanColons endsBehind .outside 1 sql else (sql, [])

/-- `backend == "postgresql"`, or the configured one where none is given. -/
def usesPostgres (backend : Option Text) (isPostgres : Bool) : Bool :=
  backend.elim isPostgres fun backend ↦ decide (backend = "postgresql".toList)

def adaptSql (sql : Text) (backend : Option Text) (isPostgres : Bool) : Text :=
  if usesPostgres backend isPostgres then
    qmarkToDollar (colonToDollar (postgresTranslateSql (strip sql))).1
  else sql

/-- The text and what is bound to it, or `none` if a name has no value. -/
def prepareQuery {ν : Type} (sql : Text) (params : Params ν) (backend : Option Text) (isPostgres : Bool) :
    Option (Text × Params ν) :=
  if usesPostgres backend isPostgres then
    let (text, names) := colonToDollar (postgresTranslateSql (strip sql))
    let text := qmarkToDollar text
    match params with
    | .dict values =>
      if names = [] then some (text, .tuple (values.items.map Prod.snd))
      else (names.mapM values.get?).map fun bound ↦ (text, .tuple bound)
    | .list values => some (text, .tuple values)
    | .tuple values => some (text, .tuple values)
  else some (sql, adaptParams params)

end

end Briefr.Db.PgAdapt
