import Briefr.Blocklist.Build

namespace Briefr.Blocklist

open Briefr.Python Briefr.Library Briefr.Library.StableSort

variable {Factor : Type}

/-- The host is withheld from the domain export and the candidate has no URL to export. -/
def Blocked (c : Candidate) : Prop := isExcludedFromDomainExport c.classified = true ∧ c.iocType ≠ .url

/-- A catalog row backs the candidate, or one corroborates it with medium confidence at least. -/
def Supported (svc : Services Factor) (c : Candidate) (catalogEv otxEv : List Evidence)
    (corroboratingRows : List MirrorRow) : Prop :=
  catalogEv ≠ [] ∨ corroboratingRows ≠ [] ∧ minOtxConfidence.index ≤
    (svc.confidenceForIocEdge (catalogReceipts corroboratingRows) (earliestObservedAt otxEv) c.fetchedAt).1.index

/-- What every record says about its candidate. -/
structure Describes (c : Candidate) (r : Record Factor) : Prop where
  domain : r.domain = c.domain
  iocType : r.iocType = c.iocType
  exactIoc : r.exactIoc = c.exactIoc
  classification : r.classification = c.classified.classification
  classificationEnabled : r.classificationEnabled = c.classified.enabled
  evidence : r.evidence = c.evidence
  fetchedAt : r.fetchedAt = c.fetchedAt

structure Exported (c : Candidate) (r : Record Factor) : Prop extends Describes c r where
  eligible : r.eligible = true
  flags : (r.eligibleDomain, r.eligibleUrl) = exportEligibility true c.classified c.iocType

structure Withheld (c : Candidate) (r : Record Factor) : Prop extends Describes c r where
  eligible : r.eligible = false

variable {svc : Services Factor} {c : Candidate} {catalogEv otxEv : List Evidence} {corroboratingRows : List MirrorRow}

theorem exported_candidateRecord (c : Candidate) (reason : Text) (confidenceLevel : ℤ) (confidence : Level)
    (corroboratingSources : List Text) (otxCorroborated : Bool) (factors : List Factor) :
    Exported c (candidateRecord c true reason confidenceLevel confidence corroboratingSources otxCorroborated factors
      none) := ⟨⟨rfl, rfl, rfl, rfl, rfl, rfl, rfl⟩, rfl, rfl⟩

theorem withheld_candidateRecord (c : Candidate) (reason : Text) (confidenceLevel : ℤ) (confidence : Level)
    (corroboratingSources : List Text) (otxCorroborated : Bool) (factors : List Factor) (flags : Option (Bool × Bool)) :
    Withheld c (candidateRecord c false reason confidenceLevel confidence corroboratingSources otxCorroborated factors
      flags) := ⟨⟨rfl, rfl, rfl, rfl, rfl, rfl, rfl⟩, rfl⟩

theorem outcome_cases (svc : Services Factor) (c : Candidate) (catalogEv otxEv : List Evidence)
    (corroboratingRows : List MirrorRow) :
    (∃ r, outcome svc c catalogEv otxEv corroboratingRows = .domains r ∧ Exported c r ∧ ¬Blocked c ∧
      Supported svc c catalogEv otxEv corroboratingRows) ∨
    ∃ r, outcome svc c catalogEv otxEv corroboratingRows = .excluded r ∧ Withheld c r ∧
      (Blocked c ∨ ¬Supported svc c catalogEv otxEv corroboratingRows) := by
  by_cases hb : Blocked c
  · refine .inr ⟨_, if_pos ?_, withheld_candidateRecord .., .inl hb⟩
    simpa [Blocked] using hb
  have hn : (isExcludedFromDomainExport c.classified && decide (c.iocType ≠ .url)) = false := by
    simpa [Blocked] using hb
  simp only [outcome, hn, Bool.false_eq_true, if_false]
  by_cases hc : catalogEv = []
  · subst hc
    simp only [List.isEmpty_nil, Bool.not_true, Bool.false_eq_true, if_false]
    by_cases hr : corroboratingRows = []
    · refine .inr ⟨_, if_pos (by simp [hr]), withheld_candidateRecord .., .inr ?_⟩
      simp [Supported, hr]
    · have hne : (!(!corroboratingRows.isEmpty)) = false := by simpa using hr
      simp only [hne, Bool.false_eq_true, if_false]
      by_cases hl : (svc.confidenceForIocEdge (catalogReceipts corroboratingRows) (earliestObservedAt otxEv)
          c.fetchedAt).1.index < minOtxConfidence.index
      · refine .inr ⟨_, if_pos hl, withheld_candidateRecord .., .inr ?_⟩
        simpa [Supported, hr] using hl
      · refine .inl ⟨_, if_neg hl, exported_candidateRecord .., hb, ?_⟩
        exact .inr ⟨hr, not_lt.mp hl⟩
  · have hne : (!catalogEv.isEmpty) = true := by simpa using hc
    simp only [hne, if_true]
    exact .inl ⟨_, rfl, exported_candidateRecord .., hb, .inl hc⟩

def Outcome.record : Outcome Factor → Record Factor
  | .domains record => record
  | .excluded record => record

theorem describes_outcome (svc : Services Factor) (c : Candidate) (catalogEv otxEv : List Evidence)
    (corroboratingRows : List MirrorRow) : Describes c (outcome svc c catalogEv otxEv corroboratingRows).record := by
  rcases outcome_cases svc c catalogEv otxEv corroboratingRows with ⟨r, h, hr, -⟩ | ⟨r, h, hr, -⟩
  · rw [h]
    exact hr.toDescribes
  · rw [h]
    exact hr.toDescribes

theorem perm_listed_excluded (l : List (Outcome Factor)) :
    (l.filterMap Outcome.listed? ++ l.filterMap Outcome.excluded?).Perm (l.map Outcome.record) := by
  induction l with
  | nil => exact .refl _
  | cons o l ih =>
    cases o with
    | domains r => exact ih.cons r
    | excluded r => exact List.perm_middle.trans (ih.cons r)

variable {d : Text}

theorem mem_keys_byDomain {domainOf : Row → Text} {rows : List Row} :
    d ∈ (byDomain domainOf rows).keys ↔ '.' ∈ d ∧ ∃ row ∈ rows, domainOf row = d := by
  rw [byDomain, Dict.mem_keys_groups, List.map_map]
  simp only [List.mem_map, List.mem_filter, decide_eq_true_eq, Function.comp_apply]
  constructor
  · rintro ⟨row, ⟨hr, hdot⟩, rfl⟩
    exact ⟨hdot, row, hr, rfl⟩
  · rintro ⟨hdot, row, hr, rfl⟩
    exact ⟨row, ⟨hr, hdot⟩, rfl⟩

theorem get?_byDomain {domainOf : Row → Text} {rows : List Row} (hd : '.' ∈ d) :
    ((byDomain domainOf rows).get? d).getD [] = (rows.filter fun row ↦ domainOf row = d).map evidenceRow := by
  rw [byDomain, Dict.get?_groups, List.filter_map, List.map_map, List.filter_filter]
  refine congrArg₂ _ rfl (List.filter_congr fun row _ ↦ ?_)
  by_cases h : domainOf row = d
  · simp [h, hd]
  · simp [h]

section
variable [Interp] [Urls] {i : Inputs} {generatedAt : Text} {r : Record Factor}

/-- The candidate domains: canonical, with a dot, of some row. -/
def Inputs.Derived (i : Inputs) (d : Text) : Prop :=
  '.' ∈ d ∧ ((∃ row ∈ i.catalogRows, candidateDomainForRow row = d) ∨ ∃ row ∈ i.otxRows, otxDomainForRow row = d)

theorem mem_allCandidateDomains : d ∈ i.allCandidateDomains ↔ i.Derived d := by
  rw [Inputs.allCandidateDomains, mem_sortedSet, List.mem_append, Inputs.catalogByDomain, Inputs.otxByDomain,
    mem_keys_byDomain, mem_keys_byDomain, Inputs.Derived, and_or_left]

theorem catalogEv_eq (hd : '.' ∈ d) :
    i.catalogEv d = (i.catalogRows.filter fun row ↦ candidateDomainForRow row = d).map evidenceRow := get?_byDomain hd

theorem otxEv_eq (hd : '.' ∈ d) :
    i.otxEv d = (i.otxRows.filter fun row ↦ otxDomainForRow row = d).map evidenceRow := get?_byDomain hd

def Inputs.Supports (i : Inputs) (svc : Services Factor) (generatedAt d : Text) : Prop :=
  Supported svc (i.candidate generatedAt d) (i.catalogEv d) (i.otxEv d) (i.corroboratingRows svc d)

theorem outcomeOf_cases (svc : Services Factor) (generatedAt : Text) (i : Inputs) (d : Text) :
    (∃ r, i.outcomeOf svc generatedAt d = .domains r ∧ Exported (i.candidate generatedAt d) r ∧
      ¬Blocked (i.candidate generatedAt d) ∧ i.Supports svc generatedAt d) ∨
    ∃ r, i.outcomeOf svc generatedAt d = .excluded r ∧ Withheld (i.candidate generatedAt d) r ∧
      (Blocked (i.candidate generatedAt d) ∨ ¬i.Supports svc generatedAt d) := outcome_cases ..

theorem perm_records (svc : Services Factor) (generatedAt : Text) (i : Inputs) :
    ((buildBlocklist svc generatedAt i).domains ++ (buildBlocklist svc generatedAt i).excluded).Perm
      (i.allCandidateDomains.map fun d ↦ (i.outcomeOf svc generatedAt d).record) := by
  have h := perm_listed_excluded (i.outcomes svc generatedAt)
  rw [Inputs.outcomes, List.map_map] at h
  exact ((perm_sortBy _ _).append (perm_sortBy _ _)).trans h

theorem domain_record (svc : Services Factor) (generatedAt : Text) (i : Inputs) (d : Text) :
    (i.outcomeOf svc generatedAt d).record.domain = d := (describes_outcome ..).domain

theorem map_domain_records (svc : Services Factor) (generatedAt : Text) (i : Inputs) :
    (((buildBlocklist svc generatedAt i).domains ++ (buildBlocklist svc generatedAt i).excluded).map Record.domain).Perm
      i.allCandidateDomains := by
  have h := (perm_records svc generatedAt i).map Record.domain
  have hid : (Record.domain ∘ fun d ↦ (i.outcomeOf svc generatedAt d).record) = id :=
    funext (domain_record svc generatedAt i)
  rw [List.map_map, hid, List.map_id] at h
  exact h

theorem mem_records {svc : Services Factor} :
    r ∈ (buildBlocklist svc generatedAt i).domains ++ (buildBlocklist svc generatedAt i).excluded ↔
      i.Derived r.domain ∧ (i.outcomeOf svc generatedAt r.domain).record = r := by
  rw [(perm_records svc generatedAt i).mem_iff, List.mem_map]
  constructor
  · rintro ⟨d, hd, rfl⟩
    rw [domain_record]
    exact ⟨mem_allCandidateDomains.mp hd, rfl⟩
  · intro ⟨hd, hr⟩
    exact ⟨r.domain, mem_allCandidateDomains.mpr hd, hr⟩

/-- The records that a side of the payload takes from the outcomes. -/
theorem mem_picked {svc : Services Factor} {pick : Outcome Factor → Option (Record Factor)}
    {made : Record Factor → Outcome Factor} (hpick : ∀ o r, pick o = some r ↔ o = made r)
    (hmade : ∀ r, (made r).record = r) :
    r ∈ (i.outcomes svc generatedAt).filterMap pick ↔
      i.Derived r.domain ∧ i.outcomeOf svc generatedAt r.domain = made r := by
  rw [List.mem_filterMap, Inputs.outcomes]
  simp only [List.mem_map, exists_exists_and_eq_and, hpick]
  constructor
  · intro ⟨d, hd, ho⟩
    have hdom := domain_record svc generatedAt i d
    rw [ho, hmade] at hdom
    subst hdom
    exact ⟨mem_allCandidateDomains.mp hd, ho⟩
  · intro ⟨hd, ho⟩
    exact ⟨r.domain, mem_allCandidateDomains.mpr hd, ho⟩

theorem mem_domains {svc : Services Factor} :
    r ∈ (buildBlocklist svc generatedAt i).domains ↔
      i.Derived r.domain ∧ i.outcomeOf svc generatedAt r.domain = .domains r := by
  have hpick : ∀ (o : Outcome Factor) r, o.listed? = some r ↔ o = .domains r := by
    intro o r
    cases o <;> simp [Outcome.listed?]
  exact (perm_sortBy _ _).mem_iff.trans (mem_picked hpick fun _ ↦ rfl)

theorem mem_excluded {svc : Services Factor} :
    r ∈ (buildBlocklist svc generatedAt i).excluded ↔
      i.Derived r.domain ∧ i.outcomeOf svc generatedAt r.domain = .excluded r := by
  have hpick : ∀ (o : Outcome Factor) r, o.excluded? = some r ↔ o = .excluded r := by
    intro o r
    cases o <;> simp [Outcome.excluded?]
  exact (perm_sortBy _ _).mem_iff.trans (mem_picked hpick fun _ ↦ rfl)

/-- A listed record is that of an exported candidate with support. -/
theorem exported_of_mem {svc : Services Factor} (h : r ∈ (buildBlocklist svc generatedAt i).domains) :
    Exported (i.candidate generatedAt r.domain) r ∧ ¬Blocked (i.candidate generatedAt r.domain) ∧
      i.Supports svc generatedAt r.domain := by
  have ho := (mem_domains.mp h).2
  rcases outcomeOf_cases svc generatedAt i r.domain with ⟨r', h', hr⟩ | ⟨r', h', -⟩
  · obtain rfl : r' = r := Outcome.domains.inj (h'.symm.trans ho)
    exact hr
  · cases h'.symm.trans ho

theorem withheld_of_mem {svc : Services Factor} (h : r ∈ (buildBlocklist svc generatedAt i).excluded) :
    Withheld (i.candidate generatedAt r.domain) r := by
  have ho := (mem_excluded.mp h).2
  rcases outcomeOf_cases svc generatedAt i r.domain with ⟨r', h', -⟩ | ⟨r', h', hr, -⟩
  · cases h'.symm.trans ho
  · obtain rfl : r' = r := Outcome.excluded.inj (h'.symm.trans ho)
    exact hr

/-- A candidate that has support and is not blocked is listed. -/
theorem listed_of_supports {svc : Services Factor} (hd : i.Derived d) (hb : ¬Blocked (i.candidate generatedAt d))
    (hs : i.Supports svc generatedAt d) :
    ∃ r ∈ (buildBlocklist svc generatedAt i).domains, r.domain = d ∧ Exported (i.candidate generatedAt d) r := by
  rcases outcomeOf_cases svc generatedAt i d with ⟨r, h, hr, -⟩ | ⟨r, h, -, hr⟩
  · have hdom : r.domain = d := hr.domain
    subst hdom
    exact ⟨r, mem_domains.mpr ⟨hd, h⟩, rfl, hr⟩
  · exact absurd hs (hr.resolve_left hb)

theorem countP_eligible (svc : Services Factor) (generatedAt : Text) (i : Inputs) (p : Record Factor → Bool) :
    ((buildBlocklist svc generatedAt i).domains ++ (buildBlocklist svc generatedAt i).excluded).countP
      (fun r ↦ r.eligible && p r) = (buildBlocklist svc generatedAt i).domains.countP p := by
  have hd : ∀ r ∈ (buildBlocklist svc generatedAt i).domains, (r.eligible && p r) = true ↔ p r = true := by
    intro r hr
    rw [(exported_of_mem hr).1.eligible, Bool.true_and]
  have he : (buildBlocklist svc generatedAt i).excluded.countP (fun r ↦ r.eligible && p r) = 0 := by
    rw [List.countP_eq_zero]
    intro r hr
    rw [(withheld_of_mem hr).eligible, Bool.false_and]
    exact Bool.false_ne_true
  rw [List.countP_append, he, Nat.add_zero]
  exact List.countP_congr hd

theorem catalogEv_eq_nil_iff (hd : '.' ∈ d) :
    i.catalogEv d = [] ↔ ∀ row ∈ i.catalogRows, candidateDomainForRow row ≠ d := by
  rw [catalogEv_eq hd, List.map_eq_nil_iff, List.filter_eq_nil_iff]
  simp only [decide_eq_true_eq, ne_eq]

end

end Briefr.Blocklist
