import Mathlib.Data.Rat.Defs
import Mathlib.Algebra.Order.Ring.Rat
import Briefr.Python.Loop

namespace Briefr.Routers.CveFilters

open Briefr.Python

/-- SQLite's date functions, `datetime('now')` and the day `utcnow_str()[:10]`. The two functions
give NULL for a text they cannot read. -/
class Sqlite where
  datetime : Text → Option Text
  date : Text → Option Text
  now : Text
  today : Text

inductive WatchState
  | pin
  | snooze
  deriving DecidableEq

structure Watch where
  state : WatchState
  snoozeUntil : Option Text

structure KevDeadline where
  dueDate : Option Text
  knownRansomware : Option Text

/-- A row of `cves` with what the queries of the feed look up by its `cve_id`: its rows in
`kev_deadlines` and `watchlist`, where it is the primary key, its techniques and its campaigns. -/
structure CveRow where
  cveId : Text
  description : Option Text
  cvssScore : Option ℚ
  severity : Option Text
  published : Option Text
  modified : Option Text
  affectedProducts : Option Text
  affectedProductsSource : Option Text
  mitreTechnique : Option Text
  summary : Option Text
  isKev : Option ℤ
  epssScore : Option ℚ
  epssPercentile : Option ℚ
  hasPoc : Option ℤ
  patchAvailable : Option ℤ
  hasAiContext : Option ℤ
  sourceUrls : Option Text
  cweIds : Option Text
  updatedAt : Option Text
  kev : Option KevDeadline
  watch : Option Watch
  techniques : List Text
  memberOfCampaign : Bool
  lifecycles : List (Option Text)

/-- The query parameters that `list_cves` hands to the filters. -/
structure Filters where
  severity : Option Text
  kevOnly : Bool
  kevOverdueOnly : Bool
  pocOnly : Bool
  patchOnly : Bool
  epssMin : Option ℚ
  search : Option Text
  stack : Option Text
  vendors : Option Text
  technique : Option Text
  publishedOn : Option Text
  summaryOnly : Bool
  aiContextOnly : Bool
  frameworks : Option Text
  watchlistOnly : Bool
  severityList : Option Text
  excludeVendors : Option Text

/-- Why a request gets no page. -/
inductive HttpError
  | unprocessable
  | badRequest (detail : String)
  | serverError (e : Exc)
  deriving DecidableEq

abbrev Http := Except HttpError

/-- `LOWER` of SQLite, which knows ASCII only. -/
def lowerAscii (s : Text) : Text := s.map Char.toLower

/-- `LIKE` of SQLite without an escape character. -/
def like : Text → Text → Bool
  | [], s => s.isEmpty
  | '%' :: p, s => s.tails.any (like p)
  | _ :: _, [] => false
  | '_' :: p, _ :: s => like p s
  | c :: p, d :: s => c.toLower == d.toLower && like p s

/-- `LOWER(column) LIKE pattern` is true. -/
def columnLike (column : Option Text) (pattern : Text) : Bool := column.any fun s ↦ like pattern (lowerAscii s)

/-- `TRIM` of SQLite. -/
def trim (s : Text) : Text := (s.dropWhile (· == ' ')).rdropWhile (· == ' ')

section
variable [Interp]

/-- `f"%{term}%"`. -/
def anywhere (term : Text) : Text := '%' :: term ++ ['%']

/-- `[p.strip() for p in text.split(",") if p.strip()]`. -/
def commaParts (text : Text) : List Text := ((text.splitOn ',').map strip).filter fun p ↦ !p.isEmpty

/-- `CVE-\d{4}-\d+` without regard to case. -/
def isCveId (value : Text) : Bool :=
  match strip value with
  | c :: v :: e :: '-' :: a :: b :: y :: d :: '-' :: n =>
    [c, v, e].map Char.toUpper == "CVE".toList && [a, b, y, d].all isDecimal && !n.isEmpty && n.all isDecimal
  | _ => false

/-- One term of the stack filter. -/
inductive StackPart
  | cveId (id : Text)
  | mention (pattern : Text)

def StackPart.holds (r : CveRow) : StackPart → Bool
  | cveId id => r.cveId == id
  | mention pattern => columnLike r.description pattern || columnLike r.affectedProducts pattern

def stackPart (raw : Text) : StackPart :=
  if isCveId raw then .cveId (upper (strip raw)) else .mention (anywhere (lower raw))

/-- `_stack_match_clause`: the alternatives of the clause and the lower-cased terms. -/
def stackMatchClause (stack : Option Text) : List StackPart × List Text :=
  match stack with
  | none => ([], [])
  | some stack => ((commaParts stack).map stackPart, (commaParts stack).map lower)

def parseFrameworkList (frameworks : Option Text) : List Text :=
  match frameworks with
  | none => []
  | some frameworks => (commaParts frameworks).map lower

def severityLevels : List Text := ["CRITICAL".toList, "HIGH".toList, "MEDIUM".toList, "LOW".toList]

/-- A list parameter replaces the single one unless it is empty. -/
def rawSeverities (severity severityList : Option Text) : List Text :=
  match severityList, severity with
  | some (c :: l), _ => (commaParts (c :: l)).map upper
  | _, some (c :: s) => [upper (strip (c :: s))]
  | _, _ => []

def parseSeverityValues (severity severityList : Option Text) : List Text :=
  (rawSeverities severity severityList).foldl
    (fun out token ↦ if token ∈ severityLevels ∧ token ∉ out then out ++ [token] else out) []

end

/-- The conditions of the `WHERE` clause with their bound parameters. -/
inductive Cond
  | severityIn (severities : List Text)
  | isKev
  | kevOverdue (today : Text)
  | hasPoc
  | patchAvailable
  | epssMin (min : ℚ)
  | cveId (id : Text)
  | textLike (patterns : List Text)
  | stack (parts : List StackPart)
  | productsNotLike (pattern : Text)
  | technique (tid : Text)
  | publishedOn (day : Text)
  | hasSummary
  | hasAiContext
  | frameworkLike (patterns : List Text)
  | watchlistActive
  | notSnoozed

section
variable [Sqlite]

/-- `state = 'snooze'` with a `snooze_until` that is still ahead. -/
def Watch.snoozed (w : Watch) : Bool :=
  w.state == .snooze && w.snoozeUntil.any fun s ↦
    trim s != [] && (Sqlite.datetime s).any fun t ↦ decide (Sqlite.now < t)

def Watch.active (w : Watch) : Bool := w.state == .pin || w.snoozed

/-- The condition evaluates to true. A comparison with NULL does not, and no condition negates one. -/
def Cond.holds (r : CveRow) : Cond → Bool
  | severityIn severities => r.severity.any (severities.contains ·)
  | isKev => r.isKev == some 1
  | kevOverdue today => r.kev.any fun k ↦ k.dueDate.any fun d ↦
      trim d != [] && decide (10 ≤ d.length) && decide (d < today)
  | hasPoc => r.hasPoc == some 1
  | patchAvailable => r.patchAvailable == some 1
  | epssMin min => r.epssScore.any fun e ↦ decide (min ≤ e)
  | cveId id => r.cveId == id
  | textLike patterns => patterns.any fun p ↦ like p (lowerAscii r.cveId) || columnLike r.description p ||
      columnLike r.summary p || columnLike r.affectedProducts p
  | stack parts => parts.any fun p ↦ p.holds r
  | productsNotLike pattern => !like pattern (lowerAscii (r.affectedProducts.getD []))
  | technique tid => r.techniques.contains tid
  | publishedOn day => r.published.any fun p ↦ Sqlite.date p == some day
  | hasSummary => r.summary.any fun s ↦ trim s != []
  | hasAiContext => r.hasAiContext == some 1
  | frameworkLike patterns => patterns.any fun p ↦ columnLike r.description p || columnLike r.affectedProducts p ||
      columnLike r.summary p
  | watchlistActive => r.watch.any Watch.active
  | notSnoozed => !r.watch.any Watch.snoozed

variable [Interp]

/-- `_validate_published_on`. -/
def validatePublishedOn (value : Text) : Http Text :=
  match value with
  | [a, b, c, d, '-', e, f, '-', g, h] =>
    if [a, b, c, d, e, f, g, h].all isDecimal then .ok value
    else .error (.badRequest "published_on must be YYYY-MM-DD")
  | _ => .error (.badRequest "published_on must be YYYY-MM-DD")

def techniqueCond (technique : Text) : Http Cond :=
  let tid := upper (strip technique)
  if tid.head? = some 'T' then .ok (.technique tid)
  else .error (.badRequest "Invalid ATT&CK technique ID")

/-- A parameter that is given and not empty. -/
def given : Option Text → Option Text
  | some (c :: s) => some (c :: s)
  | _ => none

def searchCond (search : Text) : Cond :=
  if isCveId (strip search) then .cveId (upper (strip search)) else .textLike [anywhere (lower (strip search))]

/-- A clause of alternatives is left out when it has none. -/
def unlessEmpty {α : Type} (clause : List α → Cond) (parts : List α) : List Cond :=
  if parts.isEmpty then [] else [clause parts]

/-- `_build_cve_filters` as `list_cves` calls it, with `hide_snoozed` the negation of
`watchlist_only`. -/
def buildCveFilters (f : Filters) : Http (List Cond × List Text) := do
  let technique ← ((given f.technique).mapM techniqueCond)
  let day ← ((given f.publishedOn).mapM fun d ↦ validatePublishedOn (strip d))
  let conditions :=
    unlessEmpty .severityIn (parseSeverityValues f.severity f.severityList) ++
    (if f.kevOnly then [.isKev] else []) ++
    (if f.kevOverdueOnly then [.isKev, .kevOverdue Sqlite.today] else []) ++
    (if f.pocOnly then [.hasPoc] else []) ++
    (if f.patchOnly then [.patchAvailable] else []) ++
    (f.epssMin.map Cond.epssMin).toList ++
    ((given f.search).map searchCond).toList ++
    unlessEmpty .stack (stackMatchClause f.stack).1 ++
    unlessEmpty .textLike (((f.vendors.map commaParts).getD []).map fun t ↦ anywhere (lower t)) ++
    ((f.excludeVendors.map commaParts).getD []).map (fun t ↦ .productsNotLike (anywhere (lower t))) ++
    technique.toList ++
    (day.map Cond.publishedOn).toList ++
    (if f.summaryOnly then [.hasSummary] else []) ++
    (if f.aiContextOnly || !(parseFrameworkList f.frameworks).isEmpty then [.hasAiContext] else []) ++
    unlessEmpty .frameworkLike ((parseFrameworkList f.frameworks).map anywhere) ++
    [if f.watchlistOnly then .watchlistActive else .notSnoozed]
  return (conditions, (stackMatchClause f.stack).2)

/-- The row passes the `WHERE` clause. -/
def satisfies (conditions : List Cond) (r : CveRow) : Bool := conditions.all fun c ↦ c.holds r

end

end Briefr.Routers.CveFilters
