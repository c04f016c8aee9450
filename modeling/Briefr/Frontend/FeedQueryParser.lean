import Mathlib.Data.List.Basic
import Mathlib.Data.List.DropRight
import Mathlib.Logic.Function.Basic
import Briefr.Python.Casing

namespace Briefr.Frontend.FeedQueryParser

abbrev Text := List Char

/-- What the language does with strings and numbers. A number is one that `parseFloat` reads and that is finite. -/
class Js where
  Number : Type
  decEq : DecidableEq Number
  toLowerCase : Text → Text
  toUpperCase : Text → Text
  isSpace : Char → Bool
  parseFloat : Text → Option Number
  isUnit : Number → Bool
  display : Number → Text
  mem_toLowerCase : ∀ s c, c.toNat < 128 → ¬c.isAlpha → (c ∈ toLowerCase s ↔ c ∈ s)

export Js (Number toLowerCase toUpperCase isSpace)

inductive Severity
  | critical
  | high
  | medium
  | low
  deriving DecidableEq

def Severity.text : Severity → Text
  | .critical => "CRITICAL".toList
  | .high => "HIGH".toList
  | .medium => "MEDIUM".toList
  | .low => "LOW".toList

/-- The boolean fields of a result. -/
inductive Flag
  | kevOnly
  | kevOverdueOnly
  | pocOnly
  | patchOnly
  | watchlistOnly
  deriving DecidableEq

def Flag.label : Flag → Text
  | .kevOnly => "KEV".toList
  | .kevOverdueOnly => "KEV OVERDUE".toList
  | .pocOnly => "PoC".toList
  | .patchOnly => "Patch".toList
  | .watchlistOnly => "Watchlist".toList

inductive Mapped
  | flag (flag : Flag)
  | severity (severity : Severity)
  deriving DecidableEq

def keywordMap : List (Text × Mapped) :=
  [("kev".toList, .flag .kevOnly), ("kevs".toList, .flag .kevOnly), ("overdue".toList, .flag .kevOverdueOnly),
    ("kev-overdue".toList, .flag .kevOverdueOnly), ("kev_overdue".toList, .flag .kevOverdueOnly),
    ("critical".toList, .severity .critical), ("crit".toList, .severity .critical), ("high".toList, .severity .high),
    ("medium".toList, .severity .medium), ("med".toList, .severity .medium), ("low".toList, .severity .low),
    ("poc".toList, .flag .pocOnly), ("patch".toList, .flag .patchOnly), ("patched".toList, .flag .patchOnly),
    ("watchlist".toList, .flag .watchlistOnly), ("pinned".toList, .flag .watchlistOnly),
    ("mine".toList, .flag .watchlistOnly)]

/-- The names in lower case that every object has; what they stand for is no string. -/
def inherited : List Text := ["constructor".toList, "__proto__".toList]

inductive Entry
  | absent
  | mapped (mapped : Mapped)
  | inherited
  deriving DecidableEq

/-- `KEYWORD_MAP[key]` -/
def keywordEntry (key : Text) : Entry :=
  match keywordMap.lookup key with
  | some mapped => .mapped mapped
  | none => if key ∈ inherited then .inherited else .absent

inductive Handler
  | vendor
  | is
  | severity
  | cve
  | technique
  | epss
  | stack
  | date
  deriving DecidableEq

/-- An inherited name is no handler that the code compares with. -/
def prefixHandlers : List (Text × Handler) :=
  [("vendor".toList, .vendor), ("v".toList, .vendor), ("is".toList, .is), ("sev".toList, .severity),
    ("severity".toList, .severity), ("cve".toList, .cve), ("technique".toList, .technique), ("t".toList, .technique),
    ("epss".toList, .epss), ("stack".toList, .stack), ("product".toList, .stack), ("published".toList, .date),
    ("date".toList, .date), ("kev".toList, .is)]

/-- `VENDOR_LOOKUP`, where an alias replaces a vendor of the same name. -/
def vendorLookup : List (Text × Text) :=
  [("microsoft".toList, "Microsoft".toList), ("linux".toList, "Linux".toList), ("google".toList, "Google".toList),
    ("apple".toList, "Apple".toList), ("oracle".toList, "Oracle".toList), ("apache".toList, "Apache".toList),
    ("adobe".toList, "Adobe".toList), ("mozilla".toList, "Mozilla".toList), ("cisco".toList, "Cisco".toList),
    ("ibm".toList, "IBM".toList), ("wordpress".toList, "WordPress".toList), ("redhat".toList, "redhat".toList),
    ("dell".toList, "Dell".toList), ("vmware".toList, "VMware".toList), ("f5".toList, "F5".toList),
    ("fortinet".toList, "Fortinet".toList), ("ivanti".toList, "Ivanti".toList), ("citrix".toList, "Citrix".toList),
    ("paloaltonetworks".toList, "Paloaltonetworks".toList), ("atlassian".toList, "Atlassian".toList),
    ("sap".toList, "SAP".toList), ("jenkins".toList, "Jenkins".toList), ("mongodb".toList, "MongoDB".toList),
    ("kubernetes".toList, "Kubernetes".toList), ("docker".toList, "Docker".toList), ("gitlab".toList, "GitLab".toList),
    ("juniper".toList, "Juniper".toList), ("hp".toList, "HP".toList), ("siemens".toList, "Siemens".toList),
    ("python".toList, "Python".toList), ("amazon".toList, "Amazon".toList),
    ("check point".toList, "Check Point".toList), ("node.js".toList, "Node.js".toList), ("php".toList, "PHP".toList),
    ("palo alto".toList, "paloaltonetworks".toList), ("palo alto networks".toList, "paloaltonetworks".toList),
    ("red hat".toList, "redhat".toList), ("ms".toList, "microsoft".toList), ("msft".toList, "microsoft".toList)]

def vendorAliases : List (Text × Text) :=
  [("palo alto".toList, "paloaltonetworks".toList), ("palo alto networks".toList, "paloaltonetworks".toList),
    ("red hat".toList, "redhat".toList), ("redhat".toList, "redhat".toList), ("ms".toList, "microsoft".toList),
    ("msft".toList, "microsoft".toList)]

inductive ChipType
  | vendor
  | excludeVendor
  | severity
  | flag (flag : Flag)
  | cveId
  | technique
  | epssMin
  | stack
  | publishedOn
  | search
  deriving DecidableEq

inductive ChipValue [Js]
  | true
  | text (text : Text)
  | number (number : Number)

structure Chip [Js] where
  type : ChipType
  label : Text
  value : ChipValue

structure Result [Js] where
  search : Text
  vendors : List Text
  excludeVendors : List Text
  severities : List Severity
  flag : Flag → Bool
  epssMin : Option Number
  technique : Text
  publishedOn : Text
  stack : Text
  cveId : Text
  chips : List Chip

section
variable [Js]

instance : DecidableEq Number := Js.decEq

deriving instance DecidableEq for ChipValue

deriving instance DecidableEq for Chip

def emptyResult : Result := ⟨[], [], [], [], fun _ ↦ false, none, [], [], [], [], []⟩

def trim (text : Text) : Text := (text.dropWhile isSpace).rdropWhile isSpace

/-- `text.split(',').map(trim).filter(Boolean)` -/
def parts (text : Text) : List Text := ((text.splitOn ',').map trim).filter fun part ↦ !part.isEmpty

def resolveVendorToken (token : Text) : Option Text :=
  let key := toLowerCase (trim token)
  if key = [] then none
  else
    match vendorLookup.lookup key with
    | some vendor => some vendor
    | none => (vendorAliases.find? fun entry ↦ key = entry.1 ∨ entry.1 <:+: key).map Prod.snd

def resolveVendors (tokens : List Text) : List Text := (tokens.filterMap resolveVendorToken).eraseDups

/-- The severity that a part of a list names, or `none` if reading it raises an error. -/
def severityOf (part : Text) : Option (Option Severity) :=
  match keywordEntry (toLowerCase part) with
  | .inherited => none
  | .mapped (.severity severity) => some (some severity)
  | _ => some ([.critical, .high, .medium, .low].find? fun severity ↦ severity.text = toUpperCase part)

def parseSeverityList (raw : Text) : Option (List Severity) :=
  ((parts raw).mapM severityOf).map fun found ↦ (found.filterMap id).eraseDups

def parseEpssValue (raw : Text) : Option Number :=
  let text := trim raw
  let text := match text with
    | '>' :: rest => rest
    | _ => text
  (Js.parseFloat text).filter Js.isUnit

/-- `/^\d{4}-\d{2}-\d{2}$/` -/
def isDate : Text → Bool
  | [a, b, c, d, '-', e, f, '-', g, h] => [a, b, c, d, e, f, g, h].all Char.isDigit
  | _ => false

def parseDateValue (raw : Text) : Text := if isDate (trim raw) then trim raw else []

/-- `CVE_ID_RE` -/
def isCveId : Text → Bool
  | c :: v :: e :: '-' :: y₁ :: y₂ :: y₃ :: y₄ :: '-' :: number =>
    [c, v, e].map Char.toUpper = "CVE".toList && [y₁, y₂, y₃, y₄].all Char.isDigit && !number.isEmpty &&
      number.all Char.isDigit
  | _ => false

/-- `TECHNIQUE_RE` -/
def isTechnique : Text → Bool
  | [t, a, b, c, d] => t.toUpper == 'T' && [a, b, c, d].all Char.isDigit
  | [t, a, b, c, d, '.', e, f, g] => t.toUpper == 'T' && [a, b, c, d, e, f, g].all Char.isDigit
  | _ => false

inductive Token
  | text (value : Text)
  | quoted (value : Text)
  | word (value : Text)
  deriving DecidableEq

/-- What the tokenizer is in the middle of, with what it has read of it. -/
inductive Mode
  | gap
  | word (value : Text)
  | quoted (value : Text)

def isGap (c : Char) : Bool := isSpace c || c == '+'

def scan : Mode → Text → List Token
  | .gap, [] => []
  | .word value, [] => [.word value]
  | .quoted value, [] => [.text ('"' :: value)]
  | .gap, c :: rest =>
    if c = '"' then scan (.quoted []) rest else if isGap c then scan .gap rest else scan (.word [c]) rest
  | .word value, c :: rest =>
    if isGap c then .word value :: scan .gap rest else scan (.word (value ++ [c])) rest
  | .quoted value, c :: rest =>
    if c = '"' then .quoted value :: scan .gap rest else scan (.quoted (value ++ [c])) rest

def tokenize (query : Text) : List Token := scan .gap (trim query)

def addChip (result : Result) (type : ChipType) (label : Text) (value : ChipValue) : Result :=
  { result with chips := result.chips ++ [⟨type, label, value⟩] }

def addVendor (result : Result) (vendor : Text) : Result :=
  if vendor ∈ result.vendors then result
  else addChip { result with vendors := result.vendors ++ [vendor] } .vendor vendor (.text vendor)

def excludeVendor (result : Result) (vendor : Text) : Result :=
  if vendor ∈ result.excludeVendors then result
  else addChip { result with excludeVendors := result.excludeVendors ++ [vendor] } .excludeVendor ('−' :: vendor)
    (.text vendor)

def addSeverity (result : Result) (severity : Severity) : Result :=
  if severity ∈ result.severities then result
  else addChip { result with severities := result.severities ++ [severity] } .severity severity.text
    (.text severity.text)

def setFlag (result : Result) (flag : Flag) : Result :=
  addChip { result with flag := Function.update result.flag flag true } (.flag flag) flag.label .true

def setCveId (result : Result) (id : Text) : Result := addChip { result with cveId := id } .cveId id (.text id)

def setTechnique (result : Result) (id : Text) : Result :=
  addChip { result with technique := id } .technique id (.text id)

def setEpss (result : Result) (epss : Number) : Result :=
  addChip { result with epssMin := some epss } .epssMin ("EPSS ≥ ".toList ++ Js.display epss) (.number epss)

def addStack (result : Result) (terms : Text) : Result :=
  addChip { result with stack := if result.stack = [] then terms else result.stack ++ ',' :: terms } .stack
    ("stack: ".toList ++ terms) (.text terms)

def setDate (result : Result) (date : Text) : Result :=
  addChip { result with publishedOn := date } .publishedOn date (.text date)

/-- The result and whether the keyword is handled, or `none` if an error is raised. -/
def applyKeyword (result : Result) (keyword : Text) : Option (Result × Bool) :=
  match keywordEntry (toLowerCase keyword) with
  | .inherited => none
  | .absent => some (result, false)
  | .mapped (.severity severity) => some (addSeverity result severity, true)
  | .mapped (.flag flag) => some (if result.flag flag then (result, false) else (setFlag result flag, true))

/-- The flags that the handler of `is` sets itself. -/
def isFlags : List (Text × Flag) :=
  [("kev".toList, .kevOnly), ("overdue".toList, .kevOverdueOnly), ("kev-overdue".toList, .kevOverdueOnly),
    ("poc".toList, .pocOnly), ("patch".toList, .patchOnly), ("patched".toList, .patchOnly),
    ("watchlist".toList, .watchlistOnly), ("mine".toList, .watchlistOnly)]

def applyPrefixed (result : Result) (key value : Text) : Option (Result × Bool) :=
  match prefixHandlers.lookup (toLowerCase key) with
  | none => some (result, false)
  | some .vendor => some ((resolveVendors (parts value)).foldl addVendor result, true)
  | some .is =>
    match isFlags.lookup (toLowerCase value) with
    | some flag => some (setFlag result flag, true)
    | none => applyKeyword result (toLowerCase value)
  | some .severity =>
    (parseSeverityList value).map fun severities ↦ (severities.foldl addSeverity result, !severities.isEmpty)
  | some .cve =>
    let id := toUpperCase (trim value)
    some (if isCveId id then (setCveId result id, true) else (result, false))
  | some .technique =>
    let id := toUpperCase (trim value)
    some (if isTechnique id then (setTechnique result id, true) else (result, false))
  | some .epss =>
    match parseEpssValue value with
    | some epss => some (setEpss result epss, true)
    | none => some (result, false)
  | some .stack =>
    let terms := [','].intercalate (parts value)
    some (if terms = [] then (result, false) else (addStack result terms, true))
  | some .date =>
    let date := parseDateValue value
    some (if date = [] then (result, false) else (setDate result date, true))

def addToken (exclude : Bool) (result : Result) (vendor : Text) : Result :=
  if exclude then excludeVendor result vendor else addVendor result vendor

def applyCommaGroup (result : Result) (group : Text) (exclude : Bool) : Option (Result × Bool) :=
  let members := parts group
  if members.length ≤ 1 then some (result, false)
  else
    let vendors := resolveVendors members
    if vendors.length = members.length then some (vendors.foldl (addToken exclude) result, true)
    else
      (parseSeverityList group).map fun severities ↦
        if 1 < severities.length then (severities.foldl addSeverity result, true) else (result, false)

def isNot (word : Text) : Bool := toLowerCase word = "not".toList || toLowerCase word = "without".toList

/-- The part of a word before its first colon and the part behind it, if there is one and it is not the first
character. -/
def splitColon (word : Text) : Option (Text × Text) :=
  match word.span fun c ↦ c != ':' with
  | (c :: key, _ :: value) => some (c :: key, value)
  | _ => none

def applyColon (result : Result) (word : Text) : Option (Result × Bool) :=
  match splitColon word with
  | some (key, value) => applyPrefixed result key value
  | none => some (result, false)

def applyVendor (result : Result) (word : Text) (exclude : Bool) : Result × Bool :=
  match resolveVendorToken word with
  | some vendor => (addToken exclude result vendor, true)
  | none => (result, false)

def applyWordToken (result : Result) (word : Text) (exclude : Bool) : Option (Result × Bool) :=
  if isNot word then some (result, true)
  else if isCveId word then some (setCveId result (toUpperCase word), true)
  else if isTechnique word then some (setTechnique result (toUpperCase word), true)
  else do
    let (result, handled) ← applyColon result word
    if handled then pure (result, true)
    else
      let (result, handled) ← applyKeyword result (toLowerCase word)
      if handled then pure (result, true) else pure (applyVendor result word exclude)

structure State where
  result : Result
  freeText : List Text
  pendingExclude : Bool

def isDash (word : Text) : Bool := word.head? = some '-' && decide (1 < word.length)

def applyComma (result : Result) (word : Text) (exclude : Bool) : Option (Result × Bool) :=
  if ',' ∈ word then applyCommaGroup result word exclude else some (result, false)

def stepWord (state : State) (word : Text) (exclude : Bool) : Option State := do
  let (result, handled) ← applyComma state.result word exclude
  if handled then pure { state with result }
  else
    let (result, handled) ← applyWordToken result word exclude
    if handled || exclude then pure { state with result }
    else pure { state with result, freeText := state.freeText ++ [word] }

/-- One turn of the loop over the tokens. -/
def step (state : State) : Token → Option State
  | .quoted value =>
    some
      { state with
        freeText := state.freeText ++ [value]
        result := addChip state.result .search ('"' :: value ++ ['"']) (.text value) }
  | .text word | .word word =>
    if word = [] then some state
    else if isNot word then some { state with pendingExclude := true }
    else if isDash word then stepWord state (word.drop 1) true
    else stepWord { state with pendingExclude := false } word state.pendingExclude

def run (state : State) : List Token → Option State
  | [] => some state
  | token :: rest => do
    let state ← step state token
    run state rest

def initial : State := ⟨emptyResult, [], false⟩

/-- The result that the loop leaves. -/
def finish (state : State) : Result :=
  { state.result with
    search := if state.result.cveId = [] then [' '].intercalate state.freeText else state.result.cveId }

def isWordChar (c : Char) : Bool := c.isAlphanum || c == '_'

/-- Whether a text begins with another one, whatever the case of its letters. -/
def beginsWith (phrase text : Text) : Bool :=
  (text.take phrase.length).map Char.toLower = phrase

/-- `text.replace(new RegExp('\\b…\\b', 'gi'), slug)`, with the characters of a match that are still to be skipped and
the character before. -/
def replacePhrase (phrase slug : Text) : ℕ → Option Char → Text → Text
  | _, _, [] => []
  | skip + 1, _, c :: rest => replacePhrase phrase slug skip (some c) rest
  | 0, before, c :: rest =>
    if beginsWith phrase (c :: rest) && !before.any isWordChar &&
        !(((c :: rest).drop phrase.length).head?.any isWordChar) then
      slug ++ replacePhrase phrase slug (phrase.length - 1) (some c) rest
    else c :: replacePhrase phrase slug 0 (some c) rest

/-- The aliases of more than one word; one that is there already is not replaced again. -/
def phraseAliases : List (Text × Text) :=
  [("palo alto networks".toList, "paloaltonetworks".toList), ("palo alto".toList, "paloaltonetworks".toList),
    ("red hat".toList, "redhat".toList)]

def preprocessAliases (query : Text) : Text :=
  phraseAliases.foldl (fun text entry ↦ replacePhrase entry.1 entry.2 0 none text) query

def isLineTerminator (c : Char) : Bool :=
  c == '\n' || c == '\r' || c == Char.ofNat 0x2028 || c == Char.ofNat 0x2029

/-- What is behind a word and the spaces after it, if there are any. -/
def behind (word text : Text) : Option Text :=
  if beginsWith word text && ((text.drop word.length).head?.any isSpace) then
    some ((text.drop word.length).dropWhile isSpace)
  else none

def behindKev (text : Text) : Option Text := behind "kevs".toList text <|> behind "kev".toList text

/-- The group of `kevs?\s+from\s+(.+)$` -/
def fromGroup (text : Text) : Option Text := do
  let text ← behindKev text
  let group ← behind "from".toList text
  if group = [] || group.any isLineTerminator then none else some group

/-- The group of `^(?:any\s+)?kevs?\s+from\s+(.+)$` -/
def anyFromGroup (text : Text) : Option Text := (behind "any".toList text >>= fromGroup) <|> fromGroup text

def endsWith (word text : Text) : Bool :=
  decide (word.length ≤ text.length) && beginsWith word (text.drop (text.length - word.length))

/-- The group of `^(.+?)\s+kevs?$` -/
def kevGroup (text : Text) : Option Text :=
  let before := if endsWith "kevs".toList text then some (text.take (text.length - 4))
    else if endsWith "kev".toList text then some (text.take (text.length - 3)) else none
  before.bind fun before ↦
    let group := before.rdropWhile isSpace
    if group = [] || group.length = before.length || group.any isLineTerminator then none else some group

/-- `text.replace(/\s+or\s+/gi, ',')`, with the characters of a match that are still to be skipped. -/
def replaceOr : ℕ → Text → Text
  | _, [] => []
  | skip + 1, _ :: rest => replaceOr skip rest
  | 0, c :: rest =>
    let text := (c :: rest).dropWhile isSpace
    match if isSpace c then behind "or".toList text else none with
    | some after => ',' :: replaceOr (rest.length - after.length) rest
    | none => c :: replaceOr 0 rest

/-- The vendors of the first pattern that matches and names one. -/
def phraseVendors (query : Text) : Option (List Text) :=
  let text := trim query
  if text = [] || text.contains '+' || text.head? = some '"' then none
  else
    [anyFromGroup text, kevGroup text, fromGroup text].findSome? fun group ↦ group.bind fun group ↦
      let vendors := resolveVendors (parts (replaceOr 0 (trim group)))
      if vendors = [] then none else some vendors

/-- The text that is parsed. -/
def rawQuery (input : Text) : Text := preprocessAliases (trim input)

/-- The result of a query, or `none` if an error is raised. -/
def parseFeedQuery (input : Text) : Option Result :=
  let raw := rawQuery input
  if raw = [] then some emptyResult
  else
    match phraseVendors raw with
    | some vendors => some (vendors.foldl addVendor (setFlag emptyResult .kevOnly))
    | none => (run initial (tokenize raw)).map finish

end

/-- Strings of ASCII text, for runs on concrete inputs without numbers. -/
@[reducible] def asciiJs : Js where
  Number := Unit
  decEq := inferInstance
  toLowerCase s := s.map Char.toLower
  toUpperCase s := s.map Char.toUpper
  isSpace c := c.isWhitespace
  parseFloat _ := none
  isUnit _ := false
  display _ := []
  mem_toLowerCase s c _ halpha := by
    constructor
    · intro h
      obtain ⟨d, hd, heq⟩ := List.mem_map.mp h
      rwa [← Python.eq_of_toLower halpha heq.symm]
    · intro h
      have hupper : ¬Python.isUpperAscii c := by
        intro hu
        unfold Python.isUpperAscii at hu
        refine halpha ?_
        refine Bool.or_eq_true_iff.mpr (.inl (decide_eq_true ?_))
        exact hu
      exact List.mem_map.mpr ⟨c, h, Python.toLower_of_not_upper hupper⟩

end Briefr.Frontend.FeedQueryParser
