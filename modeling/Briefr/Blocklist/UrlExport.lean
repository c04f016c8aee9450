import Briefr.Blocklist.Serialize

namespace Briefr.Blocklist

open Briefr.Python Briefr.Library Briefr.Library.StableSort

variable {Factor : Type}

section
variable [Interp]

theorem strip_exact (e : Evidence) : strip e.exact = e.exact := by
  rw [Evidence.exact]
  split
  · exact strip_strip _
  · exact strip_strip _

/-- Where a URL is known, the row that the sort puts first among those of a URL gives the exact value. -/
theorem candidateIoc_url_iff {evidence : List Evidence} {u : Text} :
    candidateIoc evidence = (.url, u) ↔
      ∃ e, FirstBy candidateSortKey (evidence.filter Evidence.isUrl) e ∧ e.exact = u := by
  have hf : (sortBy candidateSortKey evidence).find? Evidence.isUrl =
      (sortBy candidateSortKey (evidence.filter Evidence.isUrl)).head? := by
    rw [← List.head?_filter, filter_sortBy]
  simp only [candidateIoc, hf]
  cases hh : (sortBy candidateSortKey (evidence.filter Evidence.isUrl)).head? with
  | none =>
    have hn : ¬∃ e, FirstBy candidateSortKey (evidence.filter Evidence.isUrl) e ∧ e.exact = u := by
      intro ⟨e, he, _⟩
      rw [head?_sortBy.mpr he] at hh
      cases hh
    refine iff_of_false ?_ hn
    cases sortBy candidateSortKey evidence <;> simp
  | some e =>
    have he := head?_sortBy.mp hh
    constructor
    · intro h
      exact ⟨e, he, congrArg Prod.snd h⟩
    · intro ⟨e', he', hu⟩
      rw [← hu, he'.unique he]

variable [Urls] {i : Inputs} {svc : Services Factor} {generatedAt d u : Text} {e : Evidence}

/-- The domain's URL row that the two sorts put first. -/
def Inputs.FirstUrl (i : Inputs) (d : Text) (e : Evidence) : Prop :=
  FirstBy candidateSortKey ((sortedEvidence (i.catalogEv d ++ i.otxEv d)).filter Evidence.isUrl) e

theorem Inputs.FirstUrl.mem (h : i.FirstUrl d e) : (e ∈ i.catalogEv d ∨ e ∈ i.otxEv d) ∧ e.isUrl = true := by
  obtain ⟨hm, hu⟩ := List.mem_filter.mp (FirstBy.mem h)
  exact ⟨List.mem_append.mp ((perm_sortBy _ _).mem_iff.mp hm), hu⟩

theorem exists_firstUrl (he : e ∈ i.catalogEv d ++ i.otxEv d) (hu : e.isUrl = true) : ∃ e, i.FirstUrl d e := by
  have hm : e ∈ (sortedEvidence (i.catalogEv d ++ i.otxEv d)).filter Evidence.isUrl :=
    List.mem_filter.mpr ⟨(perm_sortBy _ _).mem_iff.mpr he, hu⟩
  have hne := List.ne_nil_of_mem ((perm_sortBy candidateSortKey _).mem_iff.mpr hm)
  obtain ⟨e', t, ht⟩ := List.exists_cons_of_ne_nil hne
  exact ⟨e', firstBy_of_sortBy ht⟩

theorem mem_urls_iff :
    u ∈ txtLines (buildBlocklist svc generatedAt i) .urls ↔
      ∃ d e, i.Derived d ∧ i.Supports svc generatedAt d ∧ i.FirstUrl d e ∧ e.exact = u ∧ u ≠ [] := by
  rw [mem_txtLines_urls]
  constructor
  · intro ⟨d, hd, hs, ht, hx, hne⟩
    have hp : candidateIoc (i.candidate generatedAt d).evidence =
        (.url, (i.candidate generatedAt d).exactIoc) := Prod.ext ht rfl
    obtain ⟨e, he, hu⟩ := candidateIoc_url_iff.mp hp
    rw [← hu, strip_exact] at hx
    exact ⟨d, e, hd, hs, he, hx, hne⟩
  · intro ⟨d, e, hd, hs, he, hx, hne⟩
    have hp : candidateIoc (i.candidate generatedAt d).evidence = (.url, u) := candidateIoc_url_iff.mpr ⟨e, he, hx⟩
    refine ⟨d, hd, hs, congrArg Prod.fst hp, ?_, hne⟩
    have hu : (i.candidate generatedAt d).exactIoc = u := congrArg Prod.snd hp
    rw [hu, ← hx, strip_exact]

theorem mem_catalogEv (hd : '.' ∈ d) :
    e ∈ i.catalogEv d ↔ ∃ row ∈ i.catalogRows, candidateDomainForRow row = d ∧ evidenceRow row = e := by
  rw [catalogEv_eq hd, List.mem_map]
  simp only [List.mem_filter, decide_eq_true_eq, and_assoc]

theorem mem_otxEv (hd : '.' ∈ d) :
    e ∈ i.otxEv d ↔ ∃ row ∈ i.otxRows, otxDomainForRow row = d ∧ evidenceRow row = e := by
  rw [otxEv_eq hd, List.mem_map]
  simp only [List.mem_filter, decide_eq_true_eq, and_assoc]

/-- A catalog row whose host is a candidate and that carries a URL. -/
structure Inputs.CatalogUrl (i : Inputs) (row : Row) : Prop where
  mem : row ∈ i.catalogRows
  candidate : '.' ∈ candidateDomainForRow row
  isUrl : (evidenceRow row).isUrl = true
  exact_ne_nil : (evidenceRow row).exact ≠ []

theorem supports_of_catalog (svc : Services Factor) (generatedAt : Text) {row : Row} (hr : row ∈ i.catalogRows) (hd : '.' ∈ candidateDomainForRow row) :
    i.Derived (candidateDomainForRow row) ∧ i.Supports svc generatedAt (candidateDomainForRow row) := by
  refine ⟨⟨hd, .inl ⟨row, hr, rfl⟩⟩, .inl ?_⟩
  exact List.ne_nil_of_mem ((mem_catalogEv hd).mpr ⟨row, hr, rfl, rfl⟩)

/-- The value is one of the two that the row preserves from upstream. -/
def Carries (row : Row) (u : Text) : Prop := u = strip (orEmpty row.rawIoc) ∨ u = strip (orEmpty row.iocValue)

instance (row : Row) (u : Text) : Decidable (Carries row u) := inferInstanceAs (Decidable (_ ∨ _))

/-- A catalog row carries the value, or an OTX row of a candidate without catalog evidence that is corroborated with
medium confidence at least. -/
def Inputs.Vouched (i : Inputs) (svc : Services Factor) (generatedAt u : Text) : Prop :=
  (∃ row ∈ i.catalogRows, Carries row u) ∨
  ∃ row ∈ i.otxRows, Carries row u ∧ i.Derived (otxDomainForRow row) ∧ i.catalogEv (otxDomainForRow row) = [] ∧
    i.Supports svc generatedAt (otxDomainForRow row)

omit [Urls] in
theorem carries_exact (row : Row) : Carries row (evidenceRow row).exact := by
  rw [Evidence.exact]
  split
  · exact .inr rfl
  · exact .inl rfl

/-- Every exported URL is vouched for exactly when, on each host with catalog evidence, an OTX row that is first for
the host has no value or one that is vouched for otherwise. -/
theorem urls_sound_iff (svc : Services Factor) (generatedAt : Text) (i : Inputs) :
    (∀ u ∈ txtLines (buildBlocklist svc generatedAt i) .urls, i.Vouched svc generatedAt u) ↔
    ∀ catalogRow ∈ i.catalogRows, ∀ otxRow ∈ i.otxRows, otxDomainForRow otxRow = candidateDomainForRow catalogRow →
      '.' ∈ candidateDomainForRow catalogRow →
      i.FirstUrl (candidateDomainForRow catalogRow) (evidenceRow otxRow) →
      (evidenceRow otxRow).exact = [] ∨ i.Vouched svc generatedAt (evidenceRow otxRow).exact := by
  constructor
  · intro h catalogRow hc otxRow ho hdom hd hf
    by_cases hne : (evidenceRow otxRow).exact = []
    · exact .inl hne
    · obtain ⟨hder, hs⟩ := supports_of_catalog svc generatedAt hc hd
      exact .inr (h _ (mem_urls_iff.mpr ⟨_, _, hder, hs, hf, rfl, hne⟩))
  · intro h u hu
    obtain ⟨d, e, hd, hs, hf, rfl, hne⟩ := mem_urls_iff.mp hu
    rcases hf.mem.1 with hm | hm
    · obtain ⟨row, hr, -, rfl⟩ := (mem_catalogEv hd.1).mp hm
      exact .inl ⟨row, hr, carries_exact row⟩
    · obtain ⟨row, hr, rfl, rfl⟩ := (mem_otxEv hd.1).mp hm
      by_cases hc : i.catalogEv (otxDomainForRow row) = []
      · exact .inr ⟨row, hr, carries_exact row, hd, hc, hs⟩
      · obtain ⟨e, he⟩ := List.exists_mem_of_ne_nil _ hc
        obtain ⟨catalogRow, hcr, hdom, -⟩ := (mem_catalogEv hd.1).mp he
        rw [← hdom] at hd hf
        exact (h catalogRow hcr row hr hdom.symm hd.1 hf).resolve_left hne

end

section

local instance urlExportInterp : Interp := ascii fun _ ↦ none

local instance urlExportUrls : Urls := ⟨fun _ ↦ none⟩

def urlhausUrl (refId url host : Text) : Row where
  source := some "urlhaus".toList
  refId := some refId
  iocType := some "url".toList
  iocValue := some url
  rawIoc := some url
  hostIoc := some host

def otxUrl (pulseId url host : Text) : Row where
  pulseId := some pulseId
  iocType := some "URL".toList
  iocValue := some url
  rawIoc := some url
  hostIoc := some host

/-- Two malicious URLs on one classified file-sharing host. -/
def twoUrlsOneHost : Inputs where
  infraRows := [⟨some "t.me".toList, some "SHARED_LEGITIMATE_INFRASTRUCTURE".toList, some 1⟩]
  catalogRows := [urlhausUrl "1".toList "http://t.me/a".toList "t.me".toList,
    urlhausUrl "2".toList "http://t.me/b".toList "t.me".toList]
  otxRows := []

/-- A catalog URL and an OTX URL that only shares its host; the mirror finds the catalog row for the host. -/
def sharedHost : Inputs where
  infraRows := []
  catalogRows := [urlhausUrl "1".toList "http://x.example/a".toList "x.example".toList]
  otxRows := [otxUrl "p".toList "http://x.example/otx".toList "x.example".toList]

def sharedHostServices : Services Unit where
  confidenceForIocEdge _ _ _ := (.medium, [])
  batchSourceEvidence _ _ d := if d = "x.example".toList then [⟨some "urlhaus".toList, some "1".toList, none⟩] else []

theorem otx_url_exported :
    ¬∀ (svc : Services Unit) (generatedAt : Text) (i : Inputs),
      ∀ u ∈ txtLines (buildBlocklist svc generatedAt i) .urls, i.Vouched svc generatedAt u := by
  intro h
  have hv := h sharedHostServices [] sharedHost "http://x.example/otx".toList (by decide +kernel)
  rcases hv with ⟨row, hr, hc⟩ | ⟨row, hr, -, -, hn, -⟩
  · obtain rfl := List.mem_singleton.mp hr
    revert hc
    decide +kernel
  · obtain rfl := List.mem_singleton.mp hr
    revert hn
    decide +kernel

end

end Briefr.Blocklist
