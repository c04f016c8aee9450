import Briefr.Detection.SigmaTemplates
import Briefr.Library.Runs
import Mathlib.Logic.Function.Basic

namespace Briefr.Detection

open Briefr.Python Briefr.Library.Runs

class Md5 where
  hexdigest : Text → Text

/-- `yaml.dump` of a rule; the rule type is given below. -/
class Yaml (Rule : Type) where
  dump : Rule → Text

/-- What the template objects hold now. A rule is built from them by reference. -/
abbrev Store := TemplateName → Template

inductive Basis
  | attackTechnique
  | cwe
  | generic
  deriving DecidableEq

/-- The arguments of `build_sigma_rule_dict`, and the date it reads from the clock. -/
structure Call where
  cveId : Text
  techniqueId : Text
  product : Text
  description : Text
  cweIds : Value
  detectionContext : Option Dict
  today : Text

structure SigmaRule where
  title : Text
  id : Text
  status : Text
  description : Text
  references : List Text
  author : Text
  date : Text
  tags : List Text
  logsource : Dict
  detection : Dict
  falsepositives : List Text
  level : Text
  briefrBasis : Basis
  briefrConfidence : Text
  briefrNote : Text
  briefrClass : Option Text
  briefrArtifacts : Option Value

section Inputs
variable [Interp]

/-- The digits of `^CWE-?(\d+)$`. -/
def cweDigits (compact : Text) : Option Text :=
  if ("CWE" : String).toList.isPrefixOf compact then
    let rest := compact.drop 3
    let digits := if rest.head? = some '-' then rest.tail else rest
    if digits ≠ [] ∧ digits.all isDecimal then some digits else none
  else none

def cweName (digits : Text) : Py Text := do
  return ("CWE-" : String).toList ++ (toString (← int digits)).toList

def normalizeCweId (value : Text) : Py Text :=
  let text := strip value
  if text = [] then .ok []
  else
    let compact := (upper text).filter fun c ↦ !(isSpace c || c == '_')
    if compact ≠ [] ∧ compact.all isDigit then cweName compact
    else
      match cweDigits compact with
      | some digits => cweName digits
      | none => .ok compact

def techniquePrefix (techniqueId : Text) : Text := (upper (strip techniqueId)).take 5

def firstCweTemplate : List Value → Py (Option (TemplateName × Text))
  | [] => .ok none
  | raw :: rest => do
    let cweId ← normalizeCweId (str raw)
    match tableGet cweTemplates cweId with
    | some template => return some (template, cweId)
    | none => firstCweTemplate rest

def resolveTemplate (techniqueId : Text) (cweIds : List Value) : Py (TemplateName × Basis × Text) :=
  match tableGet techniqueTemplates (techniquePrefix techniqueId) with
  | some template => .ok (template, .attackTechnique, [])
  | none => do
    match ← firstCweTemplate cweIds with
    | some (template, cweId) => return (template, .cwe, cweId)
    | none => return (.default, .generic, [])

def mergeDetectionInputs (c : Call) : Py (Text × List Value × Text) := do
  let ctx := c.detectionContext.getD []
  let cweIds ← ((c.cweIds.orElse (Dict.get ctx ("cwe_ids" : String))).orElse (.list [])).iter
  let product ← (if c.product ≠ [] then .ok c.product else (Dict.get ctx ("product" : String)).orText : Py Text)
  return (strip product, cweIds, strip c.techniqueId)

def normalizeCweIds (cweIds : List Value) : Py (List Text) := do
  return (← cweIds.mapM fun item ↦ normalizeCweId (str item)).filter (· ≠ [])

def firstCweSlug : List Text → Py Text
  | [] => .ok ("generic" : String).toList
  | raw :: rest => do
    let cweId ← normalizeCweId raw
    match tableGet cweClassSlugs cweId with
    | some slug => return slug.toList
    | none => firstCweSlug rest

def resolveDetectionClass (techniqueId : Text) (cweIds : List Value) : Py Text := do
  let normalized ← normalizeCweIds cweIds
  match tableGet techniqueClassSlugs (techniquePrefix techniqueId) with
  | some slug => return slug.toList
  | none => firstCweSlug normalized

def dotted (s : Text) : Text := (lower s).map fun ch ↦ if ch = '-' then '.' else ch

end Inputs

section Build
variable [Interp] [Md5]

def generateRuleId (cveId techniqueId cweId : Text) : Text :=
  let digest := Md5.hexdigest (cveId ++ (":" : String) ++ techniqueId ++ (":" : String) ++ cweId)
  let slice := fun i j : ℕ ↦ (digest.take j).drop i
  slice 0 8 ++ '-' :: slice 8 12 ++ '-' :: slice 12 16 ++ '-' :: slice 16 20 ++ '-' :: slice 20 32

/-- The rule of `build_sigma_rule_dict` before the artifacts, and the template it was built from. -/
def newRule (st : Store) (c : Call) : Py (TemplateName × SigmaRule) := do
  let (product, cweIds, technique) ← mergeDetectionInputs c
  let (name, basis, matchedCwe) ← resolveTemplate technique cweIds
  let template := st name
  let extraNote := strip (template.briefrNoteExtra.getD [])
  let resolvedClass ← resolveDetectionClass technique cweIds
  return (name,
    { title := (if product ≠ [] then strip product else ("Affected Product" : String)) ++ (" - " : String) ++
        c.cveId ++ (" Exploitation Attempt" : String)
      id := generateRuleId c.cveId c.techniqueId matchedCwe
      status := "experimental"
      description := if strip c.description ≠ [] then strip c.description
        else ("Detects exploitation attempt targeting " : String) ++ c.cveId ++ ("." : String)
      references := [("https://nvd.nist.gov/vuln/detail/" : String) ++ c.cveId]
      author := "BRIEFR (generated)"
      date := c.today
      tags := [("attack." : String) ++ template.tactic] ++
        (if c.techniqueId ≠ [] then [("attack." : String) ++ lower c.techniqueId] else []) ++
        (if matchedCwe ≠ [] then [dotted matchedCwe] else []) ++ [("cve." : String) ++ dotted c.cveId]
      logsource := template.logsource
      detection := template.detection
      falsepositives := template.falsepositives
      level := template.level
      briefrBasis := basis
      briefrConfidence := template.briefrConfidence.getD ("MEDIUM" : String)
      briefrNote := if extraNote ≠ [] then defaultBriefrNote ++ (" — " : String) ++ extraNote
        else defaultBriefrNote
      briefrClass := if resolvedClass ≠ ("generic" : String) then some resolvedClass else none
      briefrArtifacts := none })

end Build

section Artifacts
variable [Interp]

/-- `artifacts[:8]`. -/
def firstEight : Value → Py Value
  | .list l => .ok (.list (l.take 8))
  | .str s => .ok (.str (s.take 8))
  | _ => .error .typeError

/-- The keywords and the paths of all artifacts. -/
def extras : List Value → Py (List Value × List Value)
  | [] => .ok ([], [])
  | .dict fields :: rest => do
    let keywords ← ((Dict.get fields ("keywords" : String)).orElse (.list [])).iter
    let paths ← ((Dict.get fields ("paths" : String)).orElse (.list [])).iter
    let (moreKeywords, morePaths) ← extras rest
    return (keywords ++ moreKeywords, paths ++ morePaths)
  | _ :: rest => extras rest

def artifactExtras (artifacts : Value) : Py (Value × List Value × List Value) := do
  let shown ← firstEight artifacts
  let (keywords, paths) ← extras (← artifacts.iter)
  return (shown, keywords, paths)

def artifactsOf (c : Call) : Value := Dict.get (c.detectionContext.getD []) ("artifacts" : String)

/-- The list that artifacts may extend: the condition of the template is `keywords`. -/
def keywordList (detection : Dict) : Option (List Value) :=
  match Dict.get detection ("condition" : String), Dict.get detection ("keywords" : String) with
  | .str condition, .list keywords => if condition = ("keywords" : String) then some keywords else none
  | _, _ => none

def tokenOf (keyword : Value) : Text := strip (strOr keyword)

/-- The loop over the artifact keywords; it stops once thirty are reached. -/
def addKeywords (seen : List Text) (existing : List Value) : List Value → List Value
  | [] => existing
  | keyword :: rest =>
    if tokenOf keyword = [] then addKeywords seen existing rest
    else if lower (tokenOf keyword) ∈ seen then addKeywords seen existing rest
    else
      let extended := existing ++ [Value.str (tokenOf keyword)]
      if 30 ≤ extended.length then extended else addKeywords (lower (tokenOf keyword) :: seen) extended rest

def extendKeywords (existing keywords : List Value) : List Value :=
  addKeywords (existing.map fun k ↦ lower (str k)) existing keywords

/-- `d[key] = value`. -/
def setItem (d : Dict) (key : Text) (value : Value) : Dict :=
  match d with
  | [] => [(key, value)]
  | (k, v) :: rest => if k = key then (k, value) :: rest else (k, v) :: setItem rest key value

/-- `", ".join(list(dict.fromkeys(paths))[:3])`: only the three that are joined have to be
strings, but all have to be hashable. -/
def pathHint (paths : List Value) : Py Text :=
  if paths.any (fun p ↦ match p with | .list _ | .dict _ => true | _ => false) then .error .typeError
  else do return (", " : String).toList.intercalate (← firstThree [] paths)
where
  firstThree (found : List Text) : List Value → Py (List Text)
    | [] => .ok found
    | path :: rest =>
      if 3 ≤ found.length then .ok found
      else
        match path with
        | .str s => firstThree (if s ∈ found then found else found ++ [s]) rest
        | _ => .error .typeError

def withPaths (rule : SigmaRule) (paths : List Value) : Py SigmaRule :=
  if paths = [] then .ok rule
  else do
    let hint ← pathHint paths
    let note := if rule.briefrNote ≠ [] then rule.briefrNote else defaultBriefrNote
    return { rule with briefrNote := note ++ (" — Nuclei paths: " : String) ++ hint }

/-- `_apply_artifacts_to_sigma_rule`. The rule's `detection` is the template's own dictionary, so
the assignment to its keywords is seen by the template. -/
def applyArtifacts (st : Store) (name : TemplateName) (rule : SigmaRule) (c : Call) : Py SigmaRule × Store :=
  if !(artifactsOf c).truthy then (.ok rule, st)
  else
    match artifactExtras (artifactsOf c) with
    | .error e => (.error e, st)
    | .ok (shown, keywords, paths) =>
      let detection := match keywordList (st name).detection with
        | some existing => setItem (st name).detection ("keywords" : String) (.list (extendKeywords existing keywords))
        | none => (st name).detection
      (withPaths { rule with briefrArtifacts := some shown, detection } paths,
        Function.update st name { st name with detection })

end Artifacts

section Generate
variable [Interp] [Md5]

def buildSigmaRuleDict (st : Store) (c : Call) : Py SigmaRule × Store :=
  match newRule st c with
  | .error e => (.error e, st)
  | .ok (name, rule) => applyArtifacts st name rule c

def generateSigmaRule [Yaml SigmaRule] (st : Store) (c : Call) : Py Text × Store :=
  let (rule, st) := buildSigmaRuleDict st c
  (Yaml.dump <$> rule, st)

/-- A call of either function as a step of the process: what it leaves in the templates. -/
def callStep (st : Store) (c : Call) : Store := (buildSigmaRuleDict st c).2

end Generate

section Memory
variable [Interp]

/-- An artifact keyword that a keyword list does not hold yet, up to case. -/
def IsNew (existing : List Value) (keyword : Value) : Prop :=
  tokenOf keyword ≠ [] ∧ lower (tokenOf keyword) ∉ existing.map fun k ↦ lower (str k)

theorem prefix_addKeywords (seen : List Text) (existing keywords : List Value) :
    existing <+: addKeywords seen existing keywords := by
  induction keywords generalizing seen existing with
  | nil => exact List.prefix_refl existing
  | cons keyword rest ih =>
    simp only [addKeywords]
    split
    · exact ih seen existing
    · split
      · exact ih seen existing
      · split
        · exact List.prefix_append _ _
        · exact (List.prefix_append existing _).trans (ih _ _)

theorem length_lt_addKeywords {seen : List Text} {existing keywords : List Value} {keyword : Value}
    (hk : keyword ∈ keywords) (ht : tokenOf keyword ≠ []) (hs : lower (tokenOf keyword) ∉ seen) :
    existing.length < (addKeywords seen existing keywords).length := by
  induction keywords with
  | nil => cases hk
  | cons first rest ih =>
    simp only [addKeywords]
    by_cases hf : tokenOf first = []
    · rw [if_pos hf]
      refine ih ((List.mem_cons.mp hk).resolve_left ?_)
      intro he
      exact ht (he ▸ hf)
    · rw [if_neg hf]
      by_cases hseen : lower (tokenOf first) ∈ seen
      · rw [if_pos hseen]
        refine ih ((List.mem_cons.mp hk).resolve_left ?_)
        intro he
        exact hs (he ▸ hseen)
      · rw [if_neg hseen]
        split
        · simp
        · have h := (prefix_addKeywords (lower (tokenOf first) :: seen)
            (existing ++ [Value.str (tokenOf first)]) rest).length_le
          simp only [List.length_append, List.length_singleton] at h
          omega

theorem addKeywords_eq_self {seen : List Text} {existing keywords : List Value}
    (h : ∀ keyword ∈ keywords, tokenOf keyword ≠ [] → lower (tokenOf keyword) ∈ seen) :
    addKeywords seen existing keywords = existing := by
  induction keywords with
  | nil => rfl
  | cons first rest ih =>
    have hrest := ih fun keyword hk ↦ h keyword (.tail _ hk)
    simp only [addKeywords]
    by_cases hf : tokenOf first = []
    · rw [if_pos hf, hrest]
    · rw [if_neg hf, if_pos (h first (.head _) hf), hrest]

theorem extendKeywords_eq_self_iff {existing keywords : List Value} :
    extendKeywords existing keywords = existing ↔ ∀ keyword ∈ keywords, ¬IsNew existing keyword := by
  constructor
  · intro h keyword hk ⟨ht, hs⟩
    have hlt : existing.length < (extendKeywords existing keywords).length := length_lt_addKeywords hk ht hs
    rw [h] at hlt
    exact lt_irrefl _ hlt
  · intro h
    refine addKeywords_eq_self fun keyword hk ht ↦ ?_
    by_contra hs
    exact h keyword hk ⟨ht, hs⟩

omit [Interp] in
theorem get_setItem (d : Dict) (key : Text) (value : Value) : Dict.get (setItem d key value) key = value := by
  induction d with
  | nil => simp [setItem, Dict.get]
  | cons p rest ih =>
    obtain ⟨k, v⟩ := p
    simp only [setItem]
    split
    · simp_all [Dict.get]
    · rename_i hk
      have hne : (key == k) = false := by simpa using fun h ↦ hk h.symm
      simpa [Dict.get, List.lookup_cons, hne] using ih

omit [Interp] in
theorem setItem_get {d : Dict} {key : Text} {value : Value} (h : d.lookup key = some value) :
    setItem d key value = d := by
  induction d with
  | nil => cases h
  | cons p rest ih =>
    obtain ⟨k, v⟩ := p
    simp only [setItem]
    by_cases hk : k = key
    · rw [if_pos hk]
      rw [List.lookup_cons, beq_iff_eq.mpr hk.symm] at h
      cases h
      rfl
    · have hne : (key == k) = false := by simpa using fun h ↦ hk h.symm
      rw [List.lookup_cons, hne] at h
      rw [if_neg hk, ih h]

omit [Interp] in
theorem lookup_of_keywordList {detection : Dict} {existing : List Value} (h : keywordList detection = some existing) :
    detection.lookup ("keywords" : String).toList = some (.list existing) := by
  unfold keywordList at h
  split at h
  · rename_i condition keywords _ hk
    split at h
    · cases h
      unfold Dict.get at hk
      cases hl : detection.lookup ("keywords" : String).toList with
      | none =>
        rw [hl] at hk
        cases hk
      | some v =>
        rw [hl] at hk
        exact congrArg some hk
    · cases h
  · cases h

/-- The call builds on a template whose keywords its artifacts extend. -/
def AddsKeyword [Md5] (st : Store) (c : Call) : Prop :=
  ∃ name rule shown keywords paths existing, newRule st c = .ok (name, rule) ∧
    artifactExtras (artifactsOf c) = .ok (shown, keywords, paths) ∧
    keywordList (st name).detection = some existing ∧ ∃ keyword ∈ keywords, IsNew existing keyword

omit [Interp] in
theorem keywords_of_falsy {artifacts shown : Value} {keywords paths : List Value} (hf : artifacts.truthy = false)
    (h : artifactExtras artifacts = .ok (shown, keywords, paths)) : keywords = [] := by
  cases artifacts with
  | list l =>
    obtain rfl : l = [] := by simpa [Value.truthy] using hf
    cases h
    rfl
  | str s =>
    obtain rfl : s = [] := by simpa [Value.truthy] using hf
    cases h
    rfl
  | none | bool | num | dict => cases h

variable [Md5]

/-- One call leaves the templates as they were exactly when it adds no keyword to them. -/
theorem callStep_eq_self_iff (st : Store) (c : Call) : callStep st c = st ↔ ¬AddsKeyword st c := by
  unfold callStep buildSigmaRuleDict
  cases hnew : newRule st c with
  | error e => simp [AddsKeyword, hnew]
  | ok p =>
    obtain ⟨name, rule⟩ := p
    simp only [applyArtifacts]
    split
    · rename_i hf
      refine iff_of_true rfl ?_
      intro ⟨_, _, _, _, _, _, _, hx, _, keyword, hk, _⟩
      rw [keywords_of_falsy (by simpa using hf) hx] at hk
      cases hk
    · cases hx : artifactExtras (artifactsOf c) with
      | error e => simp [AddsKeyword, hx]
      | ok x =>
        obtain ⟨shown, keywords, paths⟩ := x
        simp only [AddsKeyword, hnew, hx, Except.ok.injEq, Prod.mk.injEq, Function.update_eq_self_iff]
        cases hl : keywordList (st name).detection with
        | none => simp +contextual [hl]
        | some existing =>
          have hlookup := lookup_of_keywordList hl
          have hset : setItem (st name).detection ("keywords" : String).toList
              (.list (extendKeywords existing keywords)) = (st name).detection ↔
              extendKeywords existing keywords = existing := by
            constructor
            · intro h
              have hget := get_setItem (st name).detection ("keywords" : String).toList
                (.list (extendKeywords existing keywords))
              rw [h, Dict.get, hlookup] at hget
              injection hget with hget
              exact hget.symm
            · intro h
              rw [h]
              exact setItem_get hlookup
          have hself : ∀ d : Dict, ({ st name with detection := d } : Template) = st name ↔ d = (st name).detection :=
            fun d ↦ ⟨fun h ↦ congrArg Template.detection h, fun h ↦ by rw [h]⟩
          rw [hself]
          refine hset.trans ?_
          rw [extendKeywords_eq_self_iff]
          constructor
          · intro h
            rintro ⟨_, _, _, _, _, _, ⟨rfl, rfl⟩, ⟨rfl, rfl, rfl⟩, hl', keyword, hk, hn⟩
            rw [hl] at hl'
            cases hl'
            exact h keyword hk hn
          · intro h keyword hk hn
            exact h ⟨name, rule, shown, keywords, paths, existing, ⟨rfl, rfl⟩, ⟨rfl, rfl, rfl⟩, hl, keyword, hk, hn⟩

/-- The process is as good as a new one: every call gives what it gives there. -/
def AsLoaded [Yaml SigmaRule] (st : Store) : Prop :=
  st = templates ∧ ∀ c, (buildSigmaRuleDict st c).1 = (buildSigmaRuleDict templates c).1 ∧
    (generateSigmaRule st c).1 = (generateSigmaRule templates c).1

/-- Throughout a run of calls the templates stay as loaded, and every further call gives what it
gives in a fresh process, exactly when no call of the run adds a keyword to the template it uses. -/
theorem no_memory_iff [Yaml SigmaRule] (calls : List Call) :
    (∀ before, before <+: calls → AsLoaded (run callStep templates before)) ↔
      ∀ c ∈ calls, ¬AddsKeyword templates c := by
  have hgood : ∀ st : Store, st = templates → AsLoaded st := by
    rintro st rfl
    exact ⟨rfl, fun c ↦ ⟨rfl, rfl⟩⟩
  have hkeep : ∀ (st : Store) (c : Call), st = templates → ¬AddsKeyword templates c → callStep st c = templates := by
    intro st c hst hc
    rw [hst]
    exact (callStep_eq_self_iff templates c).mpr hc
  have hbreak : ∀ (st : Store) (c : Call), st = templates → ¬¬AddsKeyword templates c →
      ¬AsLoaded (callStep st c) := by
    intro st c hst hc h
    rw [hst] at h
    exact hc ((callStep_eq_self_iff templates c).mp h.1)
  exact (forall_prefix_iff hgood hkeep hbreak rfl).trans along_const_iff

end Memory

section Leak

local instance sigmaInterp : Interp := ascii fun _ ↦ none

local instance sigmaMd5 : Md5 where
  hexdigest s :=
    if s = ("CVE-2024-0400::CWE-89" : String) then "7bc21cd31adacb397be136a85263aece"
    else "1da898b85e567cd356d8a696f196f53c"

def sqlInjection (cveId : Text) (artifacts : List Value) : Call where
  cveId
  techniqueId := []
  product := []
  description := []
  cweIds := strs ["CWE-89"]
  detectionContext := some [("artifacts", .list artifacts)]
  today := "2026/07/01"

def mysqlArtifact : Value :=
  .dict [("paths", strs ["/api/login"]), ("params", strs ["username"]), ("keywords", strs ["mysql syntax error"])]

def mentions (result : Py SigmaRule) (keyword : Text) : Bool :=
  match result with
  | .ok rule =>
    match Dict.get rule.detection ("keywords" : String) with
    | .list l => l.any fun k ↦ str k == keyword
    | _ => false
  | .error _ => false

/-- A keyword taken from the artifacts of one CVE stands in the rule of the next one. -/
theorem keyword_leaks :
    let before := run callStep templates [sqlInjection "CVE-2024-0400" [mysqlArtifact]]
    let next := sqlInjection "CVE-2024-0401" []
    mentions (buildSigmaRuleDict before next).1 "mysql syntax error" = true ∧
      mentions (buildSigmaRuleDict templates next).1 "mysql syntax error" = false := by
  decide +kernel

end Leak

end Briefr.Detection
