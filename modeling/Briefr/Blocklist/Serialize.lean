import Briefr.Blocklist.Partition

namespace Briefr.Blocklist

open Briefr.Python Briefr.Library Briefr.Library.StableSort

variable {Factor : Type}

inductive ExportMode
  | domains
  | urls
  | all

def ExportMode.text : ExportMode → Text
  | domains => "domains".toList
  | urls => "urls".toList
  | all => "all".toList

def recordMatchesMode (record : Record Factor) (mode : ExportMode) : Bool :=
  record.eligible &&
    match mode with
    | .domains => record.eligibleDomain
    | .urls => record.eligibleUrl
    | .all => record.eligibleDomain || record.eligibleUrl

def eligibleCount (payload : Payload Factor) (mode : ExportMode) : ℕ :=
  payload.domains.countP fun record ↦ recordMatchesMode record mode

def escapeSpreadsheetValue (value : Text) : Text :=
  if value.head?.any (· ∈ ['=', '+', '-', '@']) then '\'' :: value else value

def IocType.text : IocType → Text
  | domain => "domain".toList
  | url => "url".toList

structure CsvRow where
  type : Text
  value : Text
  source : Text
  confidence : Text
  firstSeen : Text
  malware : Text
  threatType : Text

def csvHeader : CsvRow where
  type := "type".toList
  value := "value".toList
  source := "source".toList
  confidence := "confidence".toList
  firstSeen := "first_seen".toList
  malware := "malware".toList
  threatType := "threat_type".toList

def csvRow (record : Record Factor) : CsvRow where
  type := escapeSpreadsheetValue record.iocType.text
  value := escapeSpreadsheetValue record.exactIoc
  source := [';'].intercalate record.sources
  confidence := record.confidence.text
  firstSeen := record.firstSeen
  malware := [';'].intercalate record.malware
  threatType := [';'].intercalate record.threatType

/-- The cells that the CSV writer is given, row by row. -/
def toCsv (payload : Payload Factor) (mode : ExportMode) : List CsvRow :=
  csvHeader :: (payload.domains.filter fun record ↦ recordMatchesMode record mode).map csvRow

section
variable [Interp]

def txtLine? (mode : ExportMode) (record : Record Factor) : Option Text :=
  match mode with
  | .urls => if strip record.exactIoc = [] then none else some (strip record.exactIoc)
  | _ => some record.domain

/-- The lines of `to_txt` below its header. -/
def txtLines (payload : Payload Factor) (mode : ExportMode) : List Text :=
  sortBy id ((payload.domains.filter fun record ↦ recordMatchesMode record mode).filterMap (txtLine? mode))

def toTxt (payload : Payload Factor) (mode : ExportMode) : Text :=
  let header := "# BRIEFR malicious-domain candidates\n".toList ++
    "# generated_at: ".toList ++ payload.info.generatedAt ++ "\n# mode: ".toList ++ mode.text ++
    "\n# eligible: ".toList ++ (toString (eligibleCount payload mode)).toList ++
    "\n# excluded: ".toList ++ (toString payload.info.excludedCount).toList ++ "\n".toList
  let body := ['\n'].intercalate (txtLines payload mode)
  if body = [] then header else header ++ body ++ "\n".toList

end

theorem exportEligibility_of_not_excluded {classified : Classified} {iocType : IocType}
    (h : isExcludedFromDomainExport classified = false) :
    exportEligibility true classified iocType = (true, decide (iocType = .url)) := by
  simp [exportEligibility, h]

theorem exportEligibility_of_excluded {classified : Classified} {iocType : IocType}
    (h : isExcludedFromDomainExport classified = true) :
    exportEligibility true classified iocType = (false, decide (iocType = .url)) := by
  cases iocType <;> simp [exportEligibility, h]

/-- Which of the two exports a listed candidate is in. -/
theorem Exported.eligibleDomain {c : Candidate} {r : Record Factor} (h : Exported c r) :
    r.eligibleDomain = !isExcludedFromDomainExport c.classified := by
  have hf := congrArg Prod.fst h.flags
  cases he : isExcludedFromDomainExport c.classified with
  | true => rwa [exportEligibility_of_excluded he] at hf
  | false => rwa [exportEligibility_of_not_excluded he] at hf

theorem Exported.eligibleUrl {c : Candidate} {r : Record Factor} (h : Exported c r) :
    r.eligibleUrl = decide (c.iocType = .url) := by
  have hf := congrArg Prod.snd h.flags
  cases he : isExcludedFromDomainExport c.classified with
  | true => rwa [exportEligibility_of_excluded he] at hf
  | false => rwa [exportEligibility_of_not_excluded he] at hf

theorem csvRow_type (record : Record Factor) : (csvRow record).type = record.iocType.text := by
  rw [csvRow]
  cases record.iocType <;> rfl

section
variable [Interp] [Urls] {i : Inputs} {svc : Services Factor} {generatedAt v : Text}

/-- The host of the domain is classified as one to leave out. -/
def Inputs.withholds (i : Inputs) (d : Text) : Bool :=
  isExcludedFromDomainExport (classifyHost d (classificationIndex i.infraRows))

theorem excluded_candidate (i : Inputs) (generatedAt d : Text) :
    isExcludedFromDomainExport (i.candidate generatedAt d).classified = i.withholds d := rfl

theorem not_blocked {d : Text} (h : i.withholds d = false) : ¬Blocked (i.candidate generatedAt d) :=
  fun hb ↦ Bool.false_ne_true (h.symm.trans hb.1)

omit [Urls] in
theorem mem_txtLines {payload : Payload Factor} {mode : ExportMode} :
    v ∈ txtLines payload mode ↔ ∃ r ∈ payload.domains, recordMatchesMode r mode = true ∧ txtLine? mode r = some v := by
  rw [txtLines, (perm_sortBy _ _).mem_iff, List.mem_filterMap]
  simp only [List.mem_filter, and_assoc]

/-- The domain lines: the candidates with support whose host is not withheld. -/
theorem mem_txtLines_domains :
    v ∈ txtLines (buildBlocklist svc generatedAt i) .domains ↔
      i.Derived v ∧ i.Supports svc generatedAt v ∧
        i.withholds v = false := by
  rw [mem_txtLines]
  constructor
  · intro ⟨r, hr, hm, hv⟩
    obtain rfl : r.domain = v := Option.some.inj hv
    obtain ⟨hx, -, hs⟩ := exported_of_mem hr
    simp only [recordMatchesMode, hx.eligible, hx.eligibleDomain, excluded_candidate, Bool.true_and, Bool.not_eq_true'] at hm
    exact ⟨(mem_domains.mp hr).1, hs, hm⟩
  · intro ⟨hd, hs, he⟩
    obtain ⟨r, hr, rfl, hx⟩ := listed_of_supports hd (not_blocked he) hs
    refine ⟨r, hr, ?_, rfl⟩
    rw [recordMatchesMode, hx.eligible, hx.eligibleDomain, excluded_candidate, he]
    rfl

/-- The URL lines: the exact values of the candidates with support that have a URL. -/
theorem mem_txtLines_urls :
    v ∈ txtLines (buildBlocklist svc generatedAt i) .urls ↔
      ∃ d, i.Derived d ∧ i.Supports svc generatedAt d ∧ (i.candidate generatedAt d).iocType = .url ∧
        strip (i.candidate generatedAt d).exactIoc = v ∧ v ≠ [] := by
  rw [mem_txtLines]
  constructor
  · intro ⟨r, hr, hm, hv⟩
    obtain ⟨hx, -, hs⟩ := exported_of_mem hr
    simp only [recordMatchesMode, hx.eligible, hx.eligibleUrl, Bool.true_and, decide_eq_true_eq] at hm
    simp only [txtLine?, hx.exactIoc] at hv
    split at hv
    · cases hv
    · rename_i hne
      obtain rfl := Option.some.inj hv
      exact ⟨r.domain, (mem_domains.mp hr).1, hs, hm, rfl, hne⟩
  · intro ⟨d, hd, hs, ht, he, hne⟩
    obtain ⟨r, hr, rfl, hx⟩ := listed_of_supports hd (fun hb ↦ hb.2 ht) hs
    refine ⟨r, hr, ?_, ?_⟩
    · rw [recordMatchesMode, hx.eligible, hx.eligibleUrl, ht]
      rfl
    · rw [txtLine?, hx.exactIoc, he, if_neg hne]

/-- A CSV row of type `domain` belongs to a candidate without a URL that is in the domain export. -/
theorem mem_toCsv_domain {row : CsvRow} {mode : ExportMode}
    (h : row ∈ toCsv (buildBlocklist svc generatedAt i) mode) (ht : row.type = "domain".toList) :
    ∃ d, i.Derived d ∧ i.Supports svc generatedAt d ∧
      i.withholds d = false ∧
      (i.candidate generatedAt d).iocType = .domain ∧
      row.value = escapeSpreadsheetValue (i.candidate generatedAt d).exactIoc := by
  rcases List.mem_cons.mp h with rfl | h
  · exact absurd ht (by decide)
  · obtain ⟨r, hr, rfl⟩ := List.mem_map.mp h
    obtain ⟨hr, hm⟩ := List.mem_filter.mp hr
    obtain ⟨hx, hb, hs⟩ := exported_of_mem hr
    have hdom : (i.candidate generatedAt r.domain).iocType = .domain := by
      rw [← hx.iocType]
      cases hi : r.iocType with
      | domain => rfl
      | url =>
        rw [csvRow_type, hi] at ht
        exact absurd ht (by decide)
    refine ⟨r.domain, (mem_domains.mp hr).1, hs, ?_, hdom, by rw [csvRow, hx.exactIoc]⟩
    by_contra he
    exact hb ⟨Bool.eq_true_of_not_eq_false he, by rw [hdom]; decide⟩

theorem toCsv_domain_of_supports {d : Text} (hd : i.Derived d) (hs : i.Supports svc generatedAt d)
    (he : i.withholds d = false)
    (ht : (i.candidate generatedAt d).iocType = .domain) :
    ∃ row ∈ toCsv (buildBlocklist svc generatedAt i) .all, row.type = "domain".toList ∧
      row.value = escapeSpreadsheetValue (i.candidate generatedAt d).exactIoc := by
  obtain ⟨r, hr, rfl, hx⟩ := listed_of_supports hd (not_blocked he) hs
  refine ⟨csvRow r, List.mem_cons_of_mem _ (List.mem_map_of_mem (List.mem_filter.mpr ⟨hr, ?_⟩)), ?_, ?_⟩
  · rw [recordMatchesMode, hx.eligible, hx.eligibleDomain, excluded_candidate, he]
    rfl
  · rw [csvRow_type, hx.iocType, ht]
    rfl
  · rw [csvRow, hx.exactIoc]

end

end Briefr.Blocklist

namespace Briefr.Blocklist

open Briefr.Python Briefr.Library Briefr.Library.StableSort

variable {Factor : Type}

section
variable [Interp] [Urls]

def AllowListed (infraRows : List InfraRow) (h : Text) : Prop :=
  ∃ row ∈ infraRows, row.withholds = true ∧ row.canonical = h

/-- The host is neither a line of the domain list nor a domain of the CSV. -/
def NotBlocking (payload : Payload Factor) (h : Text) : Prop :=
  h ∉ txtLines payload .domains ∧
    ∀ mode, ∀ row ∈ toCsv payload mode, row.type = "domain".toList → row.value ≠ h

/-- The domain is what its record would show as a blocked host. -/
def Inputs.Shows (i : Inputs) (generatedAt d h : Text) : Prop :=
  d = h ∨ (i.candidate generatedAt d).iocType = .domain ∧
    escapeSpreadsheetValue (i.candidate generatedAt d).exactIoc = h

variable {i : Inputs} {svc : Services Factor} {generatedAt d h : Text} {rows : List InfraRow}

theorem supports_perm (hp : rows.Perm i.infraRows) :
    ({ i with infraRows := rows } : Inputs).Supports svc generatedAt d ↔ i.Supports svc generatedAt d := by
  have hr : ({ i with infraRows := rows } : Inputs).corroboratingRows svc d = i.corroboratingRows svc d := by
    rw [Inputs.corroboratingRows, Inputs.corroboratingRows, excludedHosts_perm hp]
    rfl
  rw [Inputs.Supports, Inputs.Supports, hr]
  rfl

theorem notBlocking_iff :
    NotBlocking (buildBlocklist svc generatedAt i) h ↔
      ∀ d, i.Derived d → i.Supports svc generatedAt d → i.Shows generatedAt d h → i.withholds d = true := by
  constructor
  · intro ⟨htxt, hcsv⟩ d hd hs hsh
    by_contra hw
    have hw : i.withholds d = false := Bool.eq_false_iff.mpr hw
    rcases hsh with rfl | ⟨ht, hv⟩
    · exact htxt (mem_txtLines_domains.mpr ⟨hd, hs, hw⟩)
    · obtain ⟨row, hr, htype, hval⟩ := toCsv_domain_of_supports hd hs hw ht
      exact hcsv .all row hr htype (hval.trans hv)
  · intro hall
    refine ⟨?_, ?_⟩
    · intro htxt
      obtain ⟨hd, hs, hw⟩ := mem_txtLines_domains.mp htxt
      exact Bool.false_ne_true (hw.symm.trans (hall h hd hs (.inl rfl)))
    · intro mode row hr ht hv
      obtain ⟨d, hd, hs, hw, htype, hval⟩ := mem_toCsv_domain hr ht
      exact Bool.false_ne_true (hw.symm.trans (hall d hd hs (.inr ⟨htype, hval.symm.trans hv⟩)))

/-- An allow-listed host stays off the block list in every order of the rows exactly when all classifications agree
for the candidates with support that would show it. -/
theorem allow_list_holds_iff (svc : Services Factor) (generatedAt : Text) (i : Inputs) :
    (∀ rows, rows.Perm i.infraRows → ∀ h, AllowListed i.infraRows h →
      NotBlocking (buildBlocklist svc generatedAt { i with infraRows := rows }) h) ↔
    ∀ h, AllowListed i.infraRows h → ∀ d, i.Derived d → i.Supports svc generatedAt d → i.Shows generatedAt d h →
      Guarded i.infraRows d := by
  constructor
  · intro hall h ha d hd hs hsh
    rw [guarded_iff]
    intro rows hp
    exact notBlocking_iff.mp (hall rows hp h ha) d hd ((supports_perm hp).mpr hs) hsh
  · intro hall rows hp h ha
    rw [notBlocking_iff]
    intro d hd hs hsh
    exact guarded_iff.mp (hall h ha d hd ((supports_perm hp).mp hs) hsh) rows hp

end

section

local instance allowListInterp : Interp := ascii fun _ ↦ none

local instance allowListUrls : Urls := ⟨fun _ ↦ none⟩

/-- Without OTX rows nothing is asked of these. -/
def quietServices : Services Unit where
  confidenceForIocEdge _ _ _ := (.medium, [])
  batchSourceEvidence _ _ _ := []

/-- A ThreatFox row of a plain domain. -/
def threatfoxDomain (domain : Text) : Row where
  source := some "threatfox".toList
  refId := some "1".toList
  iocType := some "domain".toList
  iocValue := some domain
  rawIoc := some domain

/-- One host classified twice: the enabled row under `www.`, and a disabled one fetched after it. -/
def classifiedTwice : Inputs where
  infraRows := [⟨some "www.example.com".toList, some "LEGITIMATE_DOMAIN".toList, some 1⟩,
    ⟨some "example.com".toList, some "LEGITIMATE_DOMAIN".toList, some 0⟩]
  catalogRows := [threatfoxDomain "example.com".toList]
  otxRows := []

theorem allow_listed_host_blocked :
    ¬∀ (svc : Services Unit) (generatedAt : Text) (i : Inputs) (rows : List InfraRow), rows.Perm i.infraRows →
      ∀ h, AllowListed i.infraRows h →
        NotBlocking (buildBlocklist svc generatedAt { i with infraRows := rows }) h := by
  intro hall
  have ha : AllowListed classifiedTwice.infraRows "example.com".toList :=
    ⟨_, .head _, by decide +kernel, by decide +kernel⟩
  refine (hall quietServices [] classifiedTwice _ (.refl _) _ ha).1 ?_
  decide +kernel

end

end Briefr.Blocklist
