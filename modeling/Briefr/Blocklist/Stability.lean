import Briefr.Blocklist.Serialize

namespace Briefr.Blocklist

open Briefr.Python Briefr.Library Briefr.Library.StableSort

variable {Factor : Type}

theorem perm_eq_of_forall_eq {α : Type} {l m : List α} (hp : l.Perm m) (h : ∀ a ∈ l, ∀ b ∈ l, a = b) : l = m :=
  eq_of_perm_of_sorted (fun _ ↦ 0) hp (List.pairwise_of_forall fun _ _ ↦ le_rfl)
    (List.pairwise_of_forall fun _ _ ↦ le_rfl) fun a ha b hb _ ↦ h a ha b (hp.mem_iff.mpr hb)

theorem min?_perm {α : Type} [LinearOrder α] {l m : List α} (hp : l.Perm m) : l.min? = m.min? := by
  ext a
  simp only [List.min?_eq_some_iff, hp.mem_iff]

theorem max?_perm {α : Type} [LinearOrder α] {l m : List α} (hp : l.Perm m) : l.max? = m.max? := by
  ext a
  simp only [List.max?_eq_some_iff, hp.mem_iff]

/-- The loop's body reads the two lists of evidence without regard to their order. -/
theorem outcome_perm {svc : Services Factor} {c : Candidate} {catalogEv catalogEv' otxEv otxEv' : List Evidence}
    {corroboratingRows : List MirrorRow} (hc : catalogEv'.Perm catalogEv) (ho : otxEv'.Perm otxEv) :
    outcome svc c catalogEv' otxEv' corroboratingRows = outcome svc c catalogEv otxEv corroboratingRows := by
  have hu : upstreamConfidence (catalogEv'.map Evidence.confidenceLevel) =
      upstreamConfidence (catalogEv.map Evidence.confidenceLevel) := by
    rw [upstreamConfidence, upstreamConfidence, max?_perm (hc.map _)]
  have he : earliestObservedAt otxEv' = earliestObservedAt otxEv := by
    have hs : (sortedEvidence otxEv').Perm (sortedEvidence otxEv) :=
      (perm_sortBy _ _).trans (ho.trans (perm_sortBy _ _).symm)
    rw [earliestObservedAt, earliestObservedAt, given, given, min?_perm ((hs.map _).filter _)]
  have hce : catalogEv'.isEmpty = catalogEv.isEmpty := hc.isEmpty_eq
  have hoe : otxEv'.isEmpty = otxEv.isEmpty := ho.isEmpty_eq
  simp only [outcome, hu, he, hce, hoe]

section
variable [Interp] [Urls] {i i' : Inputs} {svc : Services Factor} {generatedAt d : Text}

/-- The same rows, each of the three queries in an order of its own. -/
structure Reordered (i' i : Inputs) : Prop where
  infraRows : i'.infraRows.Perm i.infraRows
  catalogRows : i'.catalogRows.Perm i.catalogRows
  otxRows : i'.otxRows.Perm i.otxRows

/-- Rows of one domain that the evidence order does not tell apart are the same evidence. -/
def NoTies (domainOf : Row → Text) (rows : List Row) : Prop :=
  ∀ r ∈ rows, ∀ r' ∈ rows, '.' ∈ domainOf r → domainOf r = domainOf r' →
    evidenceSortKey (evidenceRow r) = evidenceSortKey (evidenceRow r') → evidenceRow r = evidenceRow r'

def Inputs.ClassifiesAlike (i : Inputs) : Prop :=
  ∀ d, i.Derived d → canonicalHost d ≠ [] → ∀ r ∈ i.infraRows, ∀ r' ∈ i.infraRows, r.canonical = canonicalHost d →
    r'.canonical = canonicalHost d → r.classified = r'.classified ∧ r.isEnabled = r'.isEnabled

theorem Reordered.derived (h : Reordered i' i) : i'.Derived d ↔ i.Derived d := by
  simp only [Inputs.Derived, h.catalogRows.mem_iff, h.otxRows.mem_iff]

theorem Reordered.allCandidateDomains (h : Reordered i' i) : i'.allCandidateDomains = i.allCandidateDomains := by
  apply sortedSet_congr
  intro d
  rw [← mem_sortedSet, ← mem_sortedSet (l := i.catalogByDomain.keys ++ i.otxByDomain.keys)]
  exact mem_allCandidateDomains.trans (h.derived.trans mem_allCandidateDomains.symm)

theorem Reordered.corroboratingRows (h : Reordered i' i) :
    i'.corroboratingRows svc d = i.corroboratingRows svc d := by
  have hk : sortedSet i'.otxByDomain.keys = sortedSet i.otxByDomain.keys := by
    apply sortedSet_congr
    intro d
    simp only [Inputs.otxByDomain, mem_keys_byDomain, h.otxRows.mem_iff]
  rw [Inputs.corroboratingRows, Inputs.corroboratingRows, hk, excludedHosts_perm h.infraRows]

omit [Interp] [Urls] in
theorem filter_of_noTies {domainOf : Row → Text} {rows rows' : List Row} (hn : NoTies domainOf rows)
    (hp : rows'.Perm rows) (hd : '.' ∈ d) {p : Evidence → Bool} {k : List Text}
    (hk : ∀ e, p e = true → evidenceSortKey e = k) :
    ((rows'.filter fun r ↦ domainOf r = d).map evidenceRow).filter p =
      ((rows.filter fun r ↦ domainOf r = d).map evidenceRow).filter p := by
  apply perm_eq_of_forall_eq (((hp.filter _).map _).filter _)
  intro a ha b hb
  simp only [List.mem_filter, List.mem_map, decide_eq_true_eq] at ha hb
  obtain ⟨⟨r, ⟨hr, hrd⟩, rfl⟩, hrk⟩ := ha
  obtain ⟨⟨r', ⟨hr', hrd'⟩, rfl⟩, hrk'⟩ := hb
  exact hn r (hp.mem_iff.mp hr) r' (hp.mem_iff.mp hr') (hrd.symm ▸ hd) (hrd.trans hrd'.symm)
    ((hk _ hrk).trans (hk _ hrk').symm)

theorem Reordered.evidence (h : Reordered i' i) (hc : NoTies candidateDomainForRow i.catalogRows)
    (ho : NoTies otxDomainForRow i.otxRows) (hd : '.' ∈ d) :
    sortedEvidence (i'.catalogEv d ++ i'.otxEv d) = sortedEvidence (i.catalogEv d ++ i.otxEv d) := by
  rw [sortedEvidence, sortedEvidence, sortBy_eq_iff]
  intro k
  rw [List.filter_append, List.filter_append, catalogEv_eq hd, catalogEv_eq hd, otxEv_eq hd, otxEv_eq hd]
  exact congrArg₂ _ (filter_of_noTies hc h.catalogRows hd fun _ hk ↦ by simpa using hk)
    (filter_of_noTies ho h.otxRows hd fun _ hk ↦ by simpa using hk)

theorem Reordered.classified (h : Reordered i' i) (ha : i.ClassifiesAlike) (hd : i.Derived d) :
    classifyHost d (classificationIndex i'.infraRows) = classifyHost d (classificationIndex i.infraRows) := by
  have hp := h.infraRows.filter fun row ↦ row.canonical = canonicalHost d
  by_cases hc : canonicalHost d = []
  · rw [classifyHost_of_filter_nil (.inl hc), classifyHost_of_filter_nil (.inl hc)]
  · cases hl : (i.infraRows.filter fun row ↦ row.canonical = canonicalHost d).getLast? with
    | none =>
      have hn := List.getLast?_eq_none_iff.mp hl
      rw [hn] at hp
      rw [classifyHost_of_filter_nil (.inr hn), classifyHost_of_filter_nil (.inr hp.eq_nil)]
    | some row =>
      have hm := List.mem_of_getLast? hl
      obtain ⟨row', hl'⟩ := Option.isSome_iff_exists.mp
        (List.getLast?_isSome.mpr (List.ne_nil_of_mem (hp.mem_iff.mpr hm)))
      have hm' := List.mem_filter.mp (hp.mem_iff.mp (List.mem_of_getLast? hl'))
      have hm := List.mem_filter.mp hm
      obtain ⟨hclass, hen⟩ := ha d hd hc row' hm'.1 row hm.1 (by simpa using hm'.2) (by simpa using hm.2)
      rw [classifyHost_of_getLast? hc hl, classifyHost_of_getLast? hc hl', hclass, hen]

theorem Reordered.outcomeOf (h : Reordered i' i) (hc : NoTies candidateDomainForRow i.catalogRows)
    (ho : NoTies otxDomainForRow i.otxRows) (ha : i.ClassifiesAlike) (hd : i.Derived d) :
    i'.outcomeOf svc generatedAt d = i.outcomeOf svc generatedAt d := by
  have hcand : i'.candidate generatedAt d = i.candidate generatedAt d := by
    simp only [Inputs.candidate, h.evidence hc ho hd.1, h.classified ha hd]
  rw [Inputs.outcomeOf, Inputs.outcomeOf, hcand, h.corroboratingRows]
  apply outcome_perm
  · rw [catalogEv_eq hd.1, catalogEv_eq hd.1]
    exact (h.catalogRows.filter _).map _
  · rw [otxEv_eq hd.1, otxEv_eq hd.1]
    exact (h.otxRows.filter _).map _

theorem Reordered.buildBlocklist (h : Reordered i' i) (hc : NoTies candidateDomainForRow i.catalogRows)
    (ho : NoTies otxDomainForRow i.otxRows) (ha : i.ClassifiesAlike) :
    buildBlocklist svc generatedAt i' = buildBlocklist svc generatedAt i := by
  have hout : i'.outcomes svc generatedAt = i.outcomes svc generatedAt := by
    rw [Inputs.outcomes, Inputs.outcomes, h.allCandidateDomains]
    exact List.map_congr_left fun d hd ↦ h.outcomeOf hc ho ha (mem_allCandidateDomains.mp hd)
  simp only [Blocklist.buildBlocklist, hout, h.allCandidateDomains]

theorem candidate_of_payload_eq (h : buildBlocklist svc generatedAt i' = buildBlocklist svc generatedAt i)
    (hd : i.Derived d) :
    (i'.candidate generatedAt d).evidence = (i.candidate generatedAt d).evidence ∧
      (i'.candidate generatedAt d).classified = (i.candidate generatedAt d).classified := by
  have hr := mem_records.mpr ⟨(domain_record svc generatedAt i d).symm ▸ hd, by rw [domain_record]⟩
  rw [← h] at hr
  have he := (mem_records.mp hr).2
  rw [domain_record] at he
  have hx : Describes (i.candidate generatedAt d) (i.outcomeOf svc generatedAt d).record := describes_outcome ..
  have hx' : Describes (i'.candidate generatedAt d) (i'.outcomeOf svc generatedAt d).record := describes_outcome ..
  rw [he] at hx'
  refine ⟨hx'.evidence.symm.trans hx.evidence, ?_⟩
  have hclass := hx'.classification.symm.trans hx.classification
  have hen := hx'.classificationEnabled.symm.trans hx.classificationEnabled
  exact congrArg₂ Classified.mk hclass hen

theorem filter_of_payload_eq (h : buildBlocklist svc generatedAt i' = buildBlocklist svc generatedAt i)
    (hd : i.Derived d) (k : List Text) :
    (i'.catalogEv d).filter (evidenceSortKey · = k) ++ (i'.otxEv d).filter (evidenceSortKey · = k) =
      (i.catalogEv d).filter (evidenceSortKey · = k) ++ (i.otxEv d).filter (evidenceSortKey · = k) := by
  have he := sortBy_eq_iff.mp (candidate_of_payload_eq h hd).1 k
  rw [List.filter_append, List.filter_append] at he
  convert he

omit [Interp] [Urls] in
theorem exists_perm_cons {α : Type} {l : List α} {a : α} (h : a ∈ l) : ∃ t, (a :: t).Perm l := by
  obtain ⟨x, y, rfl⟩ := List.append_of_mem h
  exact ⟨x ++ y, List.perm_middle.symm⟩

omit [Interp] [Urls] in
/-- Of the rows of a domain with a given key, the one fetched first comes first. -/
theorem eq_of_first {domainOf : Row → Text} {r r' : Row} {t t' : List Row} {k : List Text} (hd : domainOf r = d)
    (hd' : domainOf r' = d) (hk : evidenceSortKey (evidenceRow r) = k) (hk' : evidenceSortKey (evidenceRow r') = k)
    (h : (((r :: t).filter fun r ↦ domainOf r = d).map evidenceRow).filter (evidenceSortKey · = k) =
      (((r' :: t').filter fun r ↦ domainOf r = d).map evidenceRow).filter (evidenceSortKey · = k)) :
    evidenceRow r = evidenceRow r' := by
  rw [List.filter_cons_of_pos (by simpa using hd), List.filter_cons_of_pos (by simpa using hd'), List.map_cons,
    List.map_cons, List.filter_cons_of_pos (by simpa using hk), List.filter_cons_of_pos (by simpa using hk')] at h
  exact (List.cons.inj h).1

/-- The payload is the same in every order of the rows exactly when no tie of the evidence order hides a difference
and the rows of a candidate's host classify it alike. -/
theorem payload_stable_iff (svc : Services Factor) (generatedAt : Text) (i : Inputs) :
    (∀ i', Reordered i' i → buildBlocklist svc generatedAt i' = buildBlocklist svc generatedAt i) ↔
      NoTies candidateDomainForRow i.catalogRows ∧ NoTies otxDomainForRow i.otxRows ∧ i.ClassifiesAlike := by
  constructor
  · intro h
    refine ⟨?_, ?_, ?_⟩
    · intro r hr r' hr' hdot hdom hkey
      obtain ⟨t, ht⟩ := exists_perm_cons hr
      obtain ⟨t', ht'⟩ := exists_perm_cons hr'
      have hd : i.Derived (candidateDomainForRow r) := ⟨hdot, .inl ⟨r, hr, rfl⟩⟩
      have h1 := filter_of_payload_eq (h { i with catalogRows := r :: t } ⟨.refl _, ht, .refl _⟩) hd
        (evidenceSortKey (evidenceRow r))
      have h2 := filter_of_payload_eq (h { i with catalogRows := r' :: t' } ⟨.refl _, ht', .refl _⟩) hd
        (evidenceSortKey (evidenceRow r))
      have hcat := List.append_cancel_right (h1.trans h2.symm)
      rw [catalogEv_eq hdot, catalogEv_eq hdot] at hcat
      exact eq_of_first rfl hdom.symm rfl hkey.symm hcat
    · intro r hr r' hr' hdot hdom hkey
      obtain ⟨t, ht⟩ := exists_perm_cons hr
      obtain ⟨t', ht'⟩ := exists_perm_cons hr'
      have hd : i.Derived (otxDomainForRow r) := ⟨hdot, .inr ⟨r, hr, rfl⟩⟩
      have h1 := filter_of_payload_eq (h { i with otxRows := r :: t } ⟨.refl _, .refl _, ht⟩) hd
        (evidenceSortKey (evidenceRow r))
      have h2 := filter_of_payload_eq (h { i with otxRows := r' :: t' } ⟨.refl _, .refl _, ht'⟩) hd
        (evidenceSortKey (evidenceRow r))
      have hotx := List.append_cancel_left (h1.trans h2.symm)
      rw [otxEv_eq hdot, otxEv_eq hdot] at hotx
      exact eq_of_first rfl hdom.symm rfl hkey.symm hotx
    · intro d hd hc r hr r' hr' hrc hrc'
      have hlast : ∀ r ∈ i.infraRows, r.canonical = canonicalHost d →
          (i.candidate generatedAt d).classified = ⟨r.classified, r.isEnabled⟩ := by
        intro r hr hrc
        obtain ⟨t, ht⟩ := exists_perm_cons hr
        have hp : (t ++ [r]).Perm i.infraRows := (List.perm_append_singleton r t).trans ht
        have hl : ((t ++ [r]).filter fun row ↦ row.canonical = canonicalHost d).getLast? = some r := by
          rw [List.filter_append, List.filter_cons_of_pos (by simpa using hrc)]
          simp
        have hx := (candidate_of_payload_eq (h { i with infraRows := t ++ [r] } ⟨hp, .refl _, .refl _⟩) hd).2
        exact hx.symm.trans (classifyHost_of_getLast? hc hl)
      have he := (hlast r hr hrc).symm.trans (hlast r' hr' hrc')
      exact ⟨congrArg Classified.classification he, congrArg Classified.enabled he⟩
  · intro ⟨hc, ho, ha⟩ i' hi
    exact hi.buildBlocklist hc ho ha

end

section

local instance stabilityInterp : Interp := ascii fun _ ↦ none

local instance stabilityUrls : Urls := ⟨fun _ ↦ none⟩

theorem payload_changes_with_order :
    ¬∀ (svc : Services Unit) (generatedAt : Text) (i i' : Inputs), Reordered i' i →
      buildBlocklist svc generatedAt i' = buildBlocklist svc generatedAt i := by
  intro h
  have hp : classifiedTwice.infraRows.reverse.Perm classifiedTwice.infraRows := List.reverse_perm _
  have he := h quietServices [] classifiedTwice { classifiedTwice with infraRows := classifiedTwice.infraRows.reverse }
    ⟨hp, .refl _, .refl _⟩
  have hd := congrArg (fun payload ↦ payload.domains.length) he
  revert hd
  decide +kernel

end

end Briefr.Blocklist
