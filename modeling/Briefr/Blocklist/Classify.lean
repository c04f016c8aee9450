import Briefr.Library.Dict
import Briefr.Library.StableSort
import Briefr.Python.Text
import Mathlib.Data.Finset.Dedup
import Mathlib.Data.List.Lex

namespace Briefr.Blocklist

open Briefr.Python Briefr.Library

/-- `value or default` for a string that may be missing. -/
def orElse (value : Option Text) (default : Text) : Text := if value.getD [] = [] then default else value.getD []

def orEmpty (value : Option Text) : Text := orElse value []

/-- `urlparse(url).hostname`. -/
class Urls where
  hostname : Text → Option Text

export Urls (hostname)

section
variable [Interp]

def rstripDots (s : Text) : Text := s.rdropWhile (· == '.')

def dropWww (host : Text) : Text := if "www.".toList.isPrefixOf host then host.drop 4 else host

def normalizeDomain (value : Text) : Text := dropWww (rstripDots (lower (strip value)))

def canonicalHost (value : Text) : Text := normalizeDomain value

def urlHost [Urls] (value : Text) : Text :=
  let parsed := hostname (if isIn "://".toList value then value else "http://".toList ++ value)
  dropWww (rstripDots (lower (orEmpty parsed)))

end

inductive Classification
  | legitimateDomain
  | sharedLegitimateInfrastructure
  | trustedService
  | unknown
deriving DecidableEq

namespace Classification

def text : Classification → Text
  | legitimateDomain => "LEGITIMATE_DOMAIN".toList
  | sharedLegitimateInfrastructure => "SHARED_LEGITIMATE_INFRASTRUCTURE".toList
  | trustedService => "TRUSTED_SERVICE".toList
  | unknown => "UNKNOWN".toList

/-- Any other text counts as unknown. -/
def ofText (s : Text) : Classification :=
  if s = text legitimateDomain then legitimateDomain
  else if s = text sharedLegitimateInfrastructure then sharedLegitimateInfrastructure
  else if s = text trustedService then trustedService
  else unknown

def isExclusion : Classification → Bool
  | unknown => false
  | _ => true

end Classification

/-- A row of `app.infra_classifications`. -/
structure InfraRow where
  host : Option Text
  classification : Option Text
  enabled : Option ℤ

def InfraRow.isEnabled (row : InfraRow) : Bool := row.enabled.getD 0 != 0

def InfraRow.classified (row : InfraRow) : Classification := .ofText (orEmpty row.classification)

/-- What `classify_host` returns; of `enabled` only the truth is read. -/
structure Classified where
  classification : Classification
  enabled : Bool
deriving DecidableEq

section
variable [Interp]

def InfraRow.canonical (row : InfraRow) : Text := canonicalHost (orEmpty row.host)

/-- The loop over the classification rows: a later row of a host replaces an earlier one. -/
def classificationIndex (infraRows : List InfraRow) : Dict Text InfraRow :=
  infraRows.foldl (fun index row ↦ if row.canonical = [] then index else index.set row.canonical row) Dict.empty

/-- The same loop: a host stays excluded once an enabled row excludes it. -/
def excludedHosts (infraRows : List InfraRow) : Finset Text :=
  ((infraRows.filter fun row ↦ row.canonical != [] && row.isEnabled && row.classified.isExclusion).map
    InfraRow.canonical).toFinset

def classifyHost (host : Text) (index : Dict Text InfraRow) : Classified :=
  let canon := canonicalHost host
  if canon = [] then ⟨.unknown, false⟩
  else
    match index.get? canon with
    | none => ⟨.unknown, false⟩
    | some row => ⟨row.classified, row.isEnabled⟩

end

def isExcludedFromExport (classified : Classified) : Bool := classified.enabled && classified.classification.isExclusion

def isExcludedFromDomainExport (classified : Classified) : Bool := isExcludedFromExport classified

inductive IocType
  | domain
  | url
deriving DecidableEq

def exportEligibility (baseEligible : Bool) (classified : Classified) (iocType : IocType) : Bool × Bool :=
  if !baseEligible then (false, false)
  else
    let domainBlocked := isExcludedFromDomainExport classified
    if domainBlocked && decide (iocType = .url) then (false, true)
    else if domainBlocked then (false, false)
    else (true, decide (iocType = .url))

def InfraRow.withholds (row : InfraRow) : Bool := row.isEnabled && row.classified.isExclusion

section
variable [Interp]

theorem get?_classificationIndex (infraRows : List InfraRow) {k : Text} (hk : k ≠ []) :
    (classificationIndex infraRows).get? k = (infraRows.filter fun row ↦ row.canonical = k).getLast? := by
  induction infraRows using List.reverseRecOn with
  | nil => rfl
  | append_singleton rows row ih =>
    have hs : classificationIndex (rows ++ [row]) =
        if row.canonical = [] then classificationIndex rows else (classificationIndex rows).set row.canonical row := by
      rw [classificationIndex, List.foldl_append]
      rfl
    rw [hs, List.filter_append]
    by_cases hc : row.canonical = k
    · have hne : row.canonical ≠ [] := hc ▸ hk
      rw [if_neg hne, Dict.get?_set, if_pos hc.symm, List.filter_cons_of_pos (by simpa using hc)]
      simp
    · rw [List.filter_cons_of_neg (by simpa using hc), List.filter_nil, List.append_nil, ← ih]
      split
      · rfl
      · rw [Dict.get?_set, if_neg fun h ↦ hc h.symm]

theorem classifyHost_of_getLast? {infraRows : List InfraRow} {host : Text} {row : InfraRow} (hc : canonicalHost host ≠ [])
    (h : (infraRows.filter fun row ↦ row.canonical = canonicalHost host).getLast? = some row) :
    classifyHost host (classificationIndex infraRows) = ⟨row.classified, row.isEnabled⟩ := by
  rw [classifyHost]
  simp only [hc, if_false, get?_classificationIndex infraRows hc, h]

theorem classifyHost_of_filter_nil {infraRows : List InfraRow} {host : Text}
    (h : canonicalHost host = [] ∨ (infraRows.filter fun row ↦ row.canonical = canonicalHost host) = []) :
    classifyHost host (classificationIndex infraRows) = ⟨.unknown, false⟩ := by
  rw [classifyHost]
  by_cases hc : canonicalHost host = []
  · simp only [hc, if_true]
  · simp only [hc, if_false, get?_classificationIndex infraRows hc, h.resolve_left hc, List.getLast?_nil]

/-- There is a classification of the domain's host, and each of them leaves the host out. -/
structure Guarded (infraRows : List InfraRow) (d : Text) : Prop where
  host : canonicalHost d ≠ []
  found : ∃ row ∈ infraRows, row.canonical = canonicalHost d
  withholds : ∀ row ∈ infraRows, row.canonical = canonicalHost d → row.withholds = true

/-- Whatever the order of the rows, the host is left out: exactly when every row of the host says so. -/
theorem guarded_iff {infraRows : List InfraRow} {d : Text} :
    Guarded infraRows d ↔ ∀ rows, rows.Perm infraRows →
      isExcludedFromDomainExport (classifyHost d (classificationIndex rows)) = true := by
  constructor
  · intro h rows hp
    obtain ⟨row, hr, hc⟩ := h.found
    have hm : row ∈ rows.filter fun row ↦ row.canonical = canonicalHost d :=
      List.mem_filter.mpr ⟨hp.mem_iff.mpr hr, by simpa using hc⟩
    obtain ⟨last, hl⟩ := Option.isSome_iff_exists.mp (List.getLast?_isSome.mpr (List.ne_nil_of_mem hm))
    obtain ⟨hlr, hlc⟩ := List.mem_filter.mp (List.mem_of_getLast? hl)
    rw [classifyHost_of_getLast? h.host hl]
    exact h.withholds last (hp.mem_iff.mp hlr) (by simpa using hlc)
  · intro h
    have hex : canonicalHost d ≠ [] ∧ (infraRows.filter fun row ↦ row.canonical = canonicalHost d) ≠ [] := by
      rw [← not_or]
      intro hn
      have hx := h infraRows (.refl _)
      rw [classifyHost_of_filter_nil hn] at hx
      cases hx
    obtain ⟨row, hr⟩ := List.exists_mem_of_ne_nil _ hex.2
    refine ⟨hex.1, ⟨row, (List.mem_filter.mp hr).1, by simpa using (List.mem_filter.mp hr).2⟩, ?_⟩
    intro row hr hc
    obtain ⟨a, b, rfl⟩ := List.append_of_mem hr
    have hp : (a ++ b ++ [row]).Perm (a ++ row :: b) :=
      (List.perm_append_singleton row _).trans List.perm_middle.symm
    have hl : ((a ++ b ++ [row]).filter fun row ↦ row.canonical = canonicalHost d).getLast? = some row := by
      rw [List.filter_append, List.filter_cons_of_pos (by simpa using hc)]
      simp
    have hx := h _ hp
    rwa [classifyHost_of_getLast? hex.1 hl] at hx

theorem excludedHosts_perm {rows infraRows : List InfraRow} (h : rows.Perm infraRows) :
    excludedHosts rows = excludedHosts infraRows :=
  List.toFinset_eq_of_perm _ _ ((h.filter _).map _)

end

end Briefr.Blocklist
