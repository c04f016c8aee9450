import Briefr.Detection.SigmaGenerator
import Briefr.Library.Substitution

namespace Briefr.Detection

open Briefr.Python Briefr.Library.Substitution

/-- A template of queries, an absent query as an empty one. -/
structure QueryTemplate where
  title : Option Text
  elasticKql : Text
  splunkSpl : Text
  sentinelKql : Text
  qradarAql : Text
  logPatterns : List Text

/-- The tables of templates and notes. -/
structure QueryTables where
  techniqueQueries : Text → Option QueryTemplate
  classQueries : Text → Option QueryTemplate
  default : QueryTemplate
  fieldNotes : Text → Text

structure Query where
  query : Text
  notes : Text

structure SiemQueries where
  title : Text
  detectionClass : Text
  elasticKql : Query
  splunkSpl : Query
  sentinelKql : Query
  qradarAql : Query
  logPatterns : List Text

section
variable [Interp]

/-- The list that `normalize_cwe_ids` goes through. -/
def cweList (raw : Value) : List Value :=
  if raw.truthy then
    match raw with
    | .list items => items
    | .str s =>
      match Interp.loads s with
      | some (.list items) => items
      | _ => []
    | _ => []
  else []

def contextCwes (detectionContext : Option Dict) : Value := Dict.get (detectionContext.getD []) ("cwe_ids" : String)

/-- `_resolve_detection_class` of a technique, CWEs and a context. -/
def resolveClassOf (techniqueId : Text) (cweIds : Value) (detectionContext : Option Dict) : Py Text :=
  resolveDetectionClass techniqueId (cweList (if cweIds.isNone then contextCwes detectionContext else cweIds))

/-- `q.replace(pattern, text)` -/
def replaceText (pattern text q : Text) : Text := replaceAll [pattern.map fun c ↦ [c]] text q

def getSiemQueries (tables : QueryTables) (c : Call) : Py SiemQueries := do
  let detectionClass ← resolveClassOf c.techniqueId c.cweIds c.detectionContext
  let template := (tables.techniqueQueries (techniquePrefix c.techniqueId)).getD
    ((tables.classQueries detectionClass).getD tables.default)
  let cveId := if c.cveId ≠ [] then c.cveId else ("CVE-XXXX-XXXXX" : String)
  let product := if c.product ≠ [] then c.product else ("affected_product" : String)
  let query := fun (platform : String) q ↦
    ({ query := replaceText ("{PRODUCT}" : String) product (replaceText ("{CVE_ID}" : String) cveId q)
       notes := tables.fieldNotes platform } : Query)
  return {
    title := template.title.getD ("Suspicious Activity" : String)
    detectionClass
    elasticKql := query "elastic_kql" template.elasticKql
    splunkSpl := query "splunk_spl" template.splunkSpl
    sentinelKql := query "sentinel_kql" template.sentinelKql
    qradarAql := query "qradar_aql" template.qradarAql
    logPatterns := template.logPatterns }

/-- CWEs as the callers have them. -/
def IsCweList (v : Value) : Prop := v = .none ∨ ∃ items, v = .list items

/-- No class comes of the context alone. -/
def Unclassed (techniqueId : Text) (detectionContext : Option Dict) : Prop :=
  (tableGet techniqueClassSlugs (techniquePrefix techniqueId)).isSome ∨
    resolveDetectionClass techniqueId (cweList (contextCwes detectionContext)) = .ok ("generic" : String).toList

theorem techniquePrefix_strip (techniqueId : Text) : techniquePrefix (strip techniqueId) = techniquePrefix techniqueId := by
  rw [techniquePrefix, techniquePrefix, strip_strip]

theorem resolveDetectionClass_strip (techniqueId : Text) (cweIds : List Value) :
    resolveDetectionClass (strip techniqueId) cweIds = resolveDetectionClass techniqueId cweIds := by
  rw [resolveDetectionClass, resolveDetectionClass, techniquePrefix_strip]

theorem resolveDetectionClass_nil {techniqueId : Text} {slug : String}
    (h : tableGet techniqueClassSlugs (techniquePrefix techniqueId) = some slug) :
    resolveDetectionClass techniqueId [] = .ok slug.toList := by
  rw [resolveDetectionClass, h]
  rfl

theorem resolveDetectionClass_nil_of_none {techniqueId : Text}
    (h : tableGet techniqueClassSlugs (techniquePrefix techniqueId) = none) :
    resolveDetectionClass techniqueId [] = .ok ("generic" : String).toList := by
  rw [resolveDetectionClass, h]
  rfl

theorem class_of_technique {techniqueId cls : Text} {slug : String} {items : List Value}
    (hslug : tableGet techniqueClassSlugs (techniquePrefix techniqueId) = some slug)
    (h : resolveDetectionClass techniqueId items = .ok cls) : cls = slug.toList := by
  obtain ⟨normalized, -, h⟩ := bind_eq_ok.mp h
  rw [hslug] at h
  exact (Except.ok.inj h).symm

theorem getSiemQueries_class {tables : QueryTables} {c : Call} {detectionClass : Text} :
    (∃ siem, getSiemQueries tables c = .ok siem ∧ siem.detectionClass = detectionClass) ↔
      resolveClassOf c.techniqueId c.cweIds c.detectionContext = .ok detectionClass := by
  rw [getSiemQueries]
  cases resolveClassOf c.techniqueId c.cweIds c.detectionContext with
  | error e =>
    refine iff_of_false ?_ fun h ↦ by cases h
    rintro ⟨siem, h, -⟩
    cases h
  | ok found =>
    constructor
    · rintro ⟨siem, h, rfl⟩
      cases h
      rfl
    · intro h
      obtain rfl := Except.ok.inj h
      exact ⟨_, rfl, rfl⟩

omit [Interp] in
theorem briefrClass_withPaths {rule rule' : SigmaRule} {paths : List Value} (h : withPaths rule paths = .ok rule') :
    rule'.briefrClass = rule.briefrClass := by
  rw [withPaths] at h
  split at h
  · obtain rfl := Except.ok.inj h
    rfl
  · obtain ⟨hint, -, h⟩ := bind_eq_ok.mp h
    obtain rfl := Except.ok.inj h
    rfl

variable [Md5]

theorem briefrClass_buildSigmaRuleDict {st : Store} {c : Call} {rule : SigmaRule}
    (h : (buildSigmaRuleDict st c).1 = .ok rule) :
    ∃ name rule', newRule st c = .ok (name, rule') ∧ rule.briefrClass = rule'.briefrClass := by
  rw [buildSigmaRuleDict] at h
  cases hnew : newRule st c with
  | error e =>
    rw [hnew] at h
    cases h
  | ok found =>
    obtain ⟨name, rule'⟩ := found
    rw [hnew] at h
    refine ⟨name, rule', rfl, ?_⟩
    dsimp only [applyArtifacts] at h
    split at h
    · obtain rfl := Except.ok.inj h
      rfl
    · split at h
      · cases h
      · dsimp only at h
        have hclass := briefrClass_withPaths h
        exact hclass

/-- The class of a rule is that of the CWEs that were merged. -/
theorem class_of_newRule {st : Store} {c : Call} {name : TemplateName} {rule : SigmaRule}
    (h : newRule st c = .ok (name, rule)) :
    ∃ items, ((c.cweIds.orElse (contextCwes c.detectionContext)).orElse (.list [])).iter = .ok items ∧
      resolveDetectionClass c.techniqueId items = .ok (rule.briefrClass.getD ("generic" : String)) := by
  obtain ⟨⟨product, cweIds, technique⟩, hmerge, h₁⟩ := bind_eq_ok.mp h
  obtain ⟨⟨name', basis, matchedCwe⟩, -, h₂⟩ := bind_eq_ok.mp h₁
  obtain ⟨resolvedClass, hclass, h₃⟩ := bind_eq_ok.mp h₂
  obtain ⟨items, hitems, hmerge₁⟩ := bind_eq_ok.mp hmerge
  obtain ⟨product', -, hmerge₂⟩ := bind_eq_ok.mp hmerge₁
  obtain ⟨-, hcwes⟩ := Prod.mk.inj (Except.ok.inj hmerge₂)
  obtain ⟨rfl, rfl⟩ := Prod.mk.inj hcwes
  obtain ⟨-, rfl⟩ := Prod.mk.inj (Except.ok.inj h₃)
  refine ⟨items, hitems, ?_⟩
  rw [resolveDetectionClass_strip] at hclass
  rw [hclass]
  dsimp only
  split_ifs with hgeneric
  · rfl
  · exact congrArg Except.ok (not_not.mp hgeneric)

omit [Md5] in
theorem iter_orElse {v : Value} (h : IsCweList v) : (v.orElse (.list [])).iter = .ok (cweList v) := by
  rcases h with rfl | ⟨items, rfl⟩
  · rfl
  · cases items <;> rfl

/-- The rule and the queries have one class if and only if no empty list of CWEs hides a class of the context's. -/
theorem classes_agree_iff (tables : QueryTables) {st : Store} {c : Call} {rule : SigmaRule}
    (hcwes : IsCweList c.cweIds) (hcontext : IsCweList (contextCwes c.detectionContext))
    (hrule : (buildSigmaRuleDict st c).1 = .ok rule) :
    (∃ siem, getSiemQueries tables c = .ok siem ∧
        siem.detectionClass = rule.briefrClass.getD ("generic" : String).toList) ↔
      (c.cweIds = .list [] → Unclassed c.techniqueId c.detectionContext) := by
  obtain ⟨name, rule', hnew, hsame⟩ := briefrClass_buildSigmaRuleDict hrule
  obtain ⟨items, hitems, hclass⟩ := class_of_newRule hnew
  rw [getSiemQueries_class, hsame, ← hclass, resolveClassOf]
  rcases hcwes with hnone | ⟨given, hgiven⟩
  · -- without CWEs both read those of the context
    rw [hnone] at hitems ⊢
    have hitems' := Except.ok.inj ((iter_orElse hcontext).symm.trans hitems)
    refine iff_of_true ?_ fun h ↦ by cases h
    change resolveDetectionClass c.techniqueId (cweList (contextCwes c.detectionContext)) = _
    rw [hitems']
  · rw [hgiven] at hitems ⊢
    rw [if_neg (by exact Bool.false_ne_true)]
    cases given with
    | cons item given =>
      have hitems' := Except.ok.inj hitems
      refine iff_of_true ?_ fun h ↦ by cases h
      rw [← hitems']
      rfl
    | nil =>
      -- only the rule reads those of the context
      have hitems' := Except.ok.inj ((iter_orElse hcontext).symm.trans hitems)
      rw [Unclassed, hitems']
      refine Iff.trans ?_ ⟨fun h _ ↦ h, fun h ↦ h rfl⟩
      change resolveDetectionClass c.techniqueId [] = _ ↔ _
      cases hslug : tableGet techniqueClassSlugs (techniquePrefix c.techniqueId) with
      | some slug =>
        refine iff_of_true ?_ (.inl rfl)
        rw [hclass, class_of_technique hslug hclass]
        exact resolveDetectionClass_nil hslug
      | none =>
        rw [resolveDetectionClass_nil_of_none hslug]
        exact ⟨fun h ↦ .inr h.symm, fun h ↦ (h.resolve_left Bool.false_ne_true).symm⟩

end

section

local instance siemInterp : Interp := ascii fun _ ↦ none

local instance siemMd5 : Md5 where
  hexdigest _ := "00000000000000000000000000000000"

def emptyTables : QueryTables where
  techniqueQueries _ := none
  classQueries _ := none
  default := ⟨none, [], [], [], [], []⟩
  fieldNotes _ := []

/-- A call for a CVE whose context knows a CWE. -/
def contextOnly (cweIds : Value) : Call where
  cveId := "CVE-2024-0001"
  techniqueId := []
  product := []
  description := []
  cweIds
  detectionContext := some [("cwe_ids", strs ["CWE-89"])]
  today := "2026/07/01"

/-- Absent CWEs are read from the context on both sides. -/
theorem classes_agree_contextOnly : ∃ rule siem,
    (buildSigmaRuleDict templates (contextOnly .none)).1 = .ok rule ∧
      getSiemQueries emptyTables (contextOnly .none) = .ok siem ∧
        siem.detectionClass = rule.briefrClass.getD ("generic" : String).toList := by
  have hclass : (buildSigmaRuleDict templates (contextOnly .none)).1.toOption.map SigmaRule.briefrClass =
      some (some ("sqli" : String).toList) := by decide +kernel
  cases hrule : (buildSigmaRuleDict templates (contextOnly .none)).1 with
  | error e =>
    rw [hrule] at hclass
    cases hclass
  | ok rule =>
    have hcontext : IsCweList (contextCwes (contextOnly .none).detectionContext) := .inr ⟨_, rfl⟩
    obtain ⟨siem, hsiem, hagree⟩ :=
      (classes_agree_iff emptyTables (.inl rfl) hcontext hrule).mpr fun h ↦ by cases h
    exact ⟨rule, siem, rfl, hsiem, hagree⟩

/-- An empty list of CWEs is an answer to one side and none to the other. -/
theorem emptyCwes_disagree :
    (buildSigmaRuleDict templates (contextOnly (.list []))).1.toOption.map SigmaRule.briefrClass =
        some (some ("sqli" : String).toList) ∧
      (getSiemQueries emptyTables (contextOnly (.list []))).toOption.map SiemQueries.detectionClass =
        some ("generic" : String).toList := by
  decide +kernel

end

end Briefr.Detection
