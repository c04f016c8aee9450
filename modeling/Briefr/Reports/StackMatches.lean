import Briefr.Library.Batches
import Briefr.Reports.KevCoverage

namespace Briefr.Reports.DailyBrief

open Briefr.Python Briefr.Library Briefr.Library.StableSort Briefr.Library.PagedReads

def Candidate.item (c : Candidate) : Item := ⟨c.cveId, c.reason, c.severity⟩

/-- A candidate that can be listed. -/
def Candidate.Matches (onStack : Text → Bool) (c : Candidate) : Prop := c.cveId ≠ [] ∧ onStack c.cveId = true

instance (onStack : Text → Bool) (c : Candidate) : Decidable (c.Matches onStack) := by
  unfold Candidate.Matches
  infer_instance

def ids (page : List Candidate) : Finset Text := (page.map Candidate.cveId).toFinset

/-- The rows of a page that are counted, where the ids of the pages before it were seen. -/
def pageMatches (onStack : Text → Bool) (seen : Finset Text) (page : List Candidate) : List Candidate :=
  (page.filter fun c ↦ c.Matches onStack).filter fun c ↦ c.cveId ∉ seen

def counted (onStack : Text → Bool) : Finset Text → List (List Candidate) → List Candidate
  | _, [] => []
  | seen, page :: pages => pageMatches onStack seen page ++ counted onStack (seen ∪ ids page) pages

/-- No page holds two rows of a matching CVE that no page before it holds. -/
def Apart (onStack : Text → Bool) : Finset Text → List (List Candidate) → Prop
  | _, [] => True
  | seen, page :: pages =>
    ((pageMatches onStack seen page).map Candidate.cveId).Nodup ∧ Apart onStack (seen ∪ ids page) pages

instance decidableApart (onStack : Text → Bool) :
    ∀ (seen : Finset Text) (pages : List (List Candidate)), Decidable (Apart onStack seen pages)
  | _, [] => inferInstanceAs (Decidable True)
  | seen, page :: pages =>
    haveI := decidableApart onStack (seen ∪ ids page) pages
    inferInstanceAs (Decidable (_ ∧ _))

theorem mem_ids {page : List Candidate} {c : Candidate} (h : c ∈ page) : c.cveId ∈ ids page :=
  List.mem_toFinset.mpr (List.mem_map_of_mem h)

theorem mem_pageMatches {onStack : Text → Bool} {seen : Finset Text} {page : List Candidate} {c : Candidate} :
    c ∈ pageMatches onStack seen page ↔ c ∈ page ∧ c.Matches onStack ∧ c.cveId ∉ seen := by
  rw [pageMatches, List.mem_filter, List.mem_filter, decide_eq_true_eq, decide_eq_true_eq, and_assoc]

theorem mem_counted {onStack : Text → Bool} {id : Text} {seen : Finset Text} {pages : List (List Candidate)} :
    id ∈ (counted onStack seen pages).map Candidate.cveId ↔
      id ∉ seen ∧ ∃ c ∈ pages.flatten, c.cveId = id ∧ c.Matches onStack := by
  induction pages generalizing seen with
  | nil => simp [counted]
  | cons page pages ih =>
    rw [counted, List.map_append, List.mem_append, ih, List.flatten_cons]
    constructor
    · rintro (h | ⟨hseen, c, hc, hid, hmatches⟩)
      · obtain ⟨c, hc, rfl⟩ := List.mem_map.mp h
        obtain ⟨hpage, hmatches, hseen⟩ := mem_pageMatches.mp hc
        exact ⟨hseen, c, List.mem_append_left _ hpage, rfl, hmatches⟩
      · exact ⟨fun h ↦ hseen (Finset.mem_union_left _ h), c, List.mem_append_right _ hc, hid, hmatches⟩
    · rintro ⟨hseen, c, hc, rfl, hmatches⟩
      by_cases hpage : c.cveId ∈ ids page
      · obtain ⟨d, hd, hid⟩ := List.mem_map.mp (List.mem_toFinset.mp hpage)
        refine .inl (List.mem_map.mpr ⟨d, mem_pageMatches.mpr ⟨hd, ?_, hid ▸ hseen⟩, hid⟩)
        rw [Candidate.Matches, hid]
        exact hmatches
      · rcases List.mem_append.mp hc with hc | hc
        · exact absurd (mem_ids hc) hpage
        · exact .inr ⟨fun h ↦ (Finset.mem_union.mp h).elim hseen hpage, c, hc, rfl, hmatches⟩

/-- The rows counted are of different CVEs exactly if no page holds two of one. -/
theorem nodup_counted_iff {onStack : Text → Bool} {seen : Finset Text} {pages : List (List Candidate)} :
    ((counted onStack seen pages).map Candidate.cveId).Nodup ↔ Apart onStack seen pages := by
  induction pages generalizing seen with
  | nil => exact iff_of_true List.nodup_nil trivial
  | cons page pages ih =>
    rw [counted, Apart, List.map_append, List.nodup_append', ih, ← and_assoc]
    refine and_iff_left fun id hpage hrest ↦ ?_
    obtain ⟨c, hc, rfl⟩ := List.mem_map.mp hpage
    exact (mem_counted.mp hrest).1 (Finset.mem_union_right _ (mem_ids (mem_pageMatches.mp hc).1))

theorem counted_eq_firsts {onStack : Text → Bool} {seen : Finset Text} {pages : List (List Candidate)}
    (h : Apart onStack seen pages) :
    counted onStack seen pages =
      firsts Candidate.cveId seen (pages.flatten.filter fun c ↦ c.Matches onStack) := by
  induction pages generalizing seen with
  | nil => rfl
  | cons page pages ih =>
    have hpage : firsts Candidate.cveId seen (page.filter fun c ↦ c.Matches onStack) = pageMatches onStack seen page := by
      rw [← firsts_filter]
      exact firsts_of_nodup _ (fun c hc ↦ (mem_pageMatches.mp hc).2.2) h.1
    rw [counted, List.flatten_cons, List.filter_append, firsts_append, hpage, ih h.2]
    congr 1
    refine firsts_congr _ fun c hc ↦ ?_
    have hmatches : c.Matches onStack := of_decide_eq_true (List.mem_filter.mp hc).2
    rw [Finset.mem_union, Finset.mem_union]
    refine or_congr_right ⟨fun hid ↦ ?_, fun hid ↦ ?_⟩
    · obtain ⟨d, hd, hdc⟩ := List.mem_map.mp (List.mem_toFinset.mp hid)
      refine List.mem_toFinset.mpr (List.mem_map.mpr ⟨d, List.mem_filter.mpr ⟨hd, decide_eq_true ?_⟩, hdc⟩)
      rw [Candidate.Matches, hdc]
      exact hmatches
    · obtain ⟨d, hd, hdc⟩ := List.mem_map.mp (List.mem_toFinset.mp hid)
      exact hdc ▸ mem_ids (List.mem_filter.mp hd).1

theorem foldl_add (cs : List Candidate) (s : Scan) (h : s.stack.length ≤ listQueryLimit) :
    cs.foldl Scan.add s =
      ⟨s.seen, s.stack ++ (cs.take (listQueryLimit - s.stack.length)).map Candidate.item, s.matchedTotal + cs.length⟩ := by
  induction cs generalizing s with
  | nil => simp
  | cons c cs ih =>
    rw [List.foldl_cons]
    by_cases hroom : s.stack.length < listQueryLimit
    · have hadd : s.add c = ⟨s.seen, s.stack ++ [c.item], s.matchedTotal + 1⟩ := by
        rw [Scan.add, if_pos hroom]
        rfl
      obtain ⟨room, hrest⟩ := Nat.exists_eq_add_of_lt hroom
      have hlength : (s.stack ++ [c.item]).length = s.stack.length + 1 := by simp
      rw [hadd, ih _ (by simp only; omega)]
      simp only [hlength]
      rw [show listQueryLimit - s.stack.length = room + 1 by omega,
        show listQueryLimit - (s.stack.length + 1) = room by omega, List.take_succ_cons, List.map_cons,
        List.append_assoc, List.singleton_append, List.length_cons, Nat.add_assoc, Nat.add_comm 1]
    · have hfull : listQueryLimit - s.stack.length = 0 := by omega
      have hadd : s.add c = ⟨s.seen, s.stack, s.matchedTotal + 1⟩ := by
        rw [Scan.add, if_neg hroom]
      rw [hadd, ih ⟨s.seen, s.stack, s.matchedTotal + 1⟩ h]
      simp only [hfull, List.take_zero, List.map_nil, List.append_nil, List.length_cons, Nat.add_assoc,
        Nat.add_comm 1]

/-- A round of the loop counts the matches of its page. -/
theorem page_eq {onStack : Text → Bool} {s : Scan} {seen : Finset Text} (h : s.stack.length ≤ listQueryLimit)
    (hseen : ∀ id ≠ [], id ∈ s.seen ↔ id ∈ seen) (page : List Candidate) :
    ∃ seen', (∀ id ≠ [], id ∈ seen' ↔ id ∈ seen ∪ ids page) ∧ s.page onStack page =
      ⟨seen', s.stack ++ ((pageMatches onStack seen page).take (listQueryLimit - s.stack.length)).map Candidate.item,
        s.matchedTotal + (pageMatches onStack seen page).length⟩ := by
  have hfresh : (page.filter fun c ↦ c.cveId ≠ [] ∧ c.cveId ∉ s.seen).filter (fun c ↦ onStack c.cveId) =
      pageMatches onStack seen page := by
    rw [pageMatches, List.filter_filter, List.filter_filter]
    refine List.filter_congr fun c _ ↦ ?_
    rw [Bool.eq_iff_iff]
    simp only [Bool.and_eq_true, decide_eq_true_eq]
    constructor
    · rintro ⟨hon, hne, hnew⟩
      exact ⟨mt (hseen _ hne).mpr hnew, hne, hon⟩
    · rintro ⟨hnew, hmatches⟩
      exact ⟨hmatches.2, hmatches.1, mt (hseen _ hmatches.1).mp hnew⟩
  refine ⟨s.seen ++ (page.filter fun c ↦ c.cveId ≠ [] ∧ c.cveId ∉ s.seen).map Candidate.cveId, ?_, ?_⟩
  swap
  · rw [Scan.page]
    simp only [hfresh]
    exact foldl_add _ ⟨_, s.stack, s.matchedTotal⟩ h
  intro id hne
  rw [List.mem_append, List.mem_map, Finset.mem_union, hseen id hne]
  constructor
  · rintro (hold | ⟨c, hc, rfl⟩)
    · exact .inl hold
    · exact .inr (mem_ids (List.mem_filter.mp hc).1)
  · rintro (hold | hid)
    · exact .inl hold
    · by_cases hold : id ∈ seen
      · exact .inl hold
      · obtain ⟨c, hc, rfl⟩ := List.mem_map.mp (List.mem_toFinset.mp hid)
        exact .inr ⟨c, List.mem_filter.mpr ⟨hc, decide_eq_true ⟨hne, mt (hseen _ hne).mp hold⟩⟩, rfl⟩

/-- The loop lists and counts the rows counted. -/
theorem pages_eq {onStack : Text → Bool} {pages : List (List Candidate)} {s : Scan} {seen : Finset Text}
    (h : s.stack.length ≤ listQueryLimit) (hseen : ∀ id ≠ [], id ∈ s.seen ↔ id ∈ seen) :
    (pages.foldl (Scan.page onStack) s).stack =
        s.stack ++ ((counted onStack seen pages).take (listQueryLimit - s.stack.length)).map Candidate.item ∧
      (pages.foldl (Scan.page onStack) s).matchedTotal = s.matchedTotal + (counted onStack seen pages).length := by
  induction pages generalizing s seen with
  | nil => simp [counted]
  | cons page pages ih =>
    obtain ⟨seen', hseen', hpage⟩ := @page_eq onStack s seen h hseen page
    have hlength : (s.stack ++
        ((pageMatches onStack seen page).take (listQueryLimit - s.stack.length)).map Candidate.item).length =
          s.stack.length + min (listQueryLimit - s.stack.length) (pageMatches onStack seen page).length := by
      rw [List.length_append, List.length_map, List.length_take]
    have hroom : listQueryLimit - (s.stack.length +
        min (listQueryLimit - s.stack.length) (pageMatches onStack seen page).length) =
          listQueryLimit - s.stack.length - (pageMatches onStack seen page).length := by
      omega
    rw [List.foldl_cons, hpage, counted]
    have hle : (s.stack ++ ((pageMatches onStack seen page).take
        (listQueryLimit - s.stack.length)).map Candidate.item).length ≤ listQueryLimit := by
      rw [hlength]
      omega
    obtain ⟨hstack, htotal⟩ := @ih ⟨seen', _, s.matchedTotal + (pageMatches onStack seen page).length⟩ _ hle hseen'
    refine ⟨?_, ?_⟩
    · rw [hstack, hlength, hroom, List.take_append, List.map_append, List.append_assoc]
    · rw [htotal, List.length_append, Nat.add_assoc]

section
variable (db : Db) (onStack : Text → Bool) (kevStartDate kevEndDate startBound endBound : Text)

/-- The CVEs that are in the range of KEV dates or are Critical or High and published in the window, and match. -/
def matchingIds : Finset Text :=
  ((db.kevInRange kevStartDate kevEndDate).map KevRow.cveId ++
    (db.cves.filter (criticalHigh startBound endBound)).map CveRow.cveId).toFinset.filter fun id ↦
      id ≠ [] ∧ onStack id = true

/-- The first candidate of each CVE that matches, in order. -/
def fullScan : List Candidate :=
  firsts Candidate.cveId ∅ ((candidates db kevStartDate kevEndDate startBound endBound).filter fun c ↦ c.Matches onStack)

theorem mem_candidate_ids {id : Text} :
    (∃ c ∈ candidates db kevStartDate kevEndDate startBound endBound, c.cveId = id ∧ c.Matches onStack) ↔
      id ∈ matchingIds db onStack kevStartDate kevEndDate startBound endBound := by
  have hids : id ∈ (candidates db kevStartDate kevEndDate startBound endBound).map Candidate.cveId ↔
      id ∈ (db.kevInRange kevStartDate kevEndDate).map KevRow.cveId ++
        (db.cves.filter (criticalHigh startBound endBound)).map CveRow.cveId := by
    rw [candidates, ((perm_sortBy _ _).map _).mem_iff, List.map_append, List.map_map, List.map_map]
    rfl
  rw [matchingIds, Finset.mem_filter, List.mem_toFinset, ← hids, List.mem_map]
  constructor
  · rintro ⟨c, hc, rfl, hmatches⟩
    exact ⟨⟨c, hc, rfl⟩, hmatches⟩
  · rintro ⟨⟨c, hc, rfl⟩, hmatches⟩
    exact ⟨c, hc, rfl, hmatches⟩

/-- The list and the total are those of one scan over all candidates exactly if no page holds two rows of a matching CVE
that no page before it holds. -/
theorem stack_full_scan_iff :
    ((collectStack { db with onStack := some onStack } kevStartDate kevEndDate startBound endBound).1.matchedTotal =
          (matchingIds db onStack kevStartDate kevEndDate startBound endBound).card ∧
        (collectStack { db with onStack := some onStack } kevStartDate kevEndDate startBound endBound).1.stack =
          ((fullScan db onStack kevStartDate kevEndDate startBound endBound).take listQueryLimit).map Candidate.item) ↔
      Apart onStack ∅ (pagesFrom (candidates db kevStartDate kevEndDate startBound endBound) 0) := by
  obtain ⟨hstack, htotal⟩ := @pages_eq onStack
    (pagesFrom (candidates db kevStartDate kevEndDate startBound endBound) 0) ⟨[], [], 0⟩ ∅ (Nat.zero_le _)
    (fun _ _ ↦ by simp)
  have hflatten := flatten_pagesFrom (candidates db kevStartDate kevEndDate startBound endBound) 0
  rw [List.drop_zero] at hflatten
  have hids : ((counted onStack ∅ (pagesFrom (candidates db kevStartDate kevEndDate startBound endBound) 0)).map
      Candidate.cveId).toFinset = matchingIds db onStack kevStartDate kevEndDate startBound endBound := by
    ext id
    rw [List.mem_toFinset, mem_counted, hflatten, mem_candidate_ids, and_iff_right (Finset.notMem_empty id)]
  rw [List.length_nil, Nat.sub_zero, List.nil_append] at hstack
  rw [Nat.zero_add] at htotal
  have hcollect : (collectStack { db with onStack := some onStack } kevStartDate kevEndDate startBound endBound).1 =
      (pagesFrom (candidates db kevStartDate kevEndDate startBound endBound) 0).foldl (Scan.page onStack) ⟨[], [], 0⟩ := rfl
  rw [hcollect, hstack, htotal, ← hids, ← nodup_counted_iff]
  constructor
  · rintro ⟨hcard, -⟩
    rw [← List.length_map Candidate.cveId] at hcard
    exact Multiset.toFinset_card_eq_card_iff_nodup.mp hcard.symm
  · intro hnodup
    rw [List.toFinset_card_of_nodup hnodup, List.length_map, counted_eq_firsts (nodup_counted_iff.mp hnodup), hflatten]
    exact ⟨rfl, rfl⟩

end

/-- A CVE on the stack that was added to KEV and published as critical on one day. -/
def kevAndCritical : Db where
  kev := [⟨"CVE-2026-1111".toList, none, some "2026-09-10".toList⟩]
  cves := [⟨"CVE-2026-1111".toList, some "CRITICAL".toList, some "2026-09-10T08:00:00".toList⟩]
  onStack := some fun _ ↦ true
  watermark := none

/-- The candidates of September 10. -/
def bothRows : List Candidate :=
  candidates kevAndCritical "2026-09-10".toList "2026-09-10".toList "2026-09-10 00:00:00".toList
    "2026-09-11 00:00:00".toList

/-- The CVE is counted and listed twice. -/
theorem stack_counts_twice :
    (matchingIds kevAndCritical (fun _ ↦ true) "2026-09-10".toList "2026-09-10".toList
        "2026-09-10 00:00:00".toList "2026-09-11 00:00:00".toList).card = 1 ∧
      (collectStack kevAndCritical "2026-09-10".toList "2026-09-10".toList "2026-09-10 00:00:00".toList
        "2026-09-11 00:00:00".toList).1.matchedTotal = 2 ∧
      (collectStack kevAndCritical "2026-09-10".toList "2026-09-10".toList "2026-09-10 00:00:00".toList
        "2026-09-11 00:00:00".toList).1.stack.map Item.cveId = ["CVE-2026-1111".toList, "CVE-2026-1111".toList] := by
  have hpages : pagesFrom bothRows 0 = [bothRows] := by
    rw [pagesFrom]
    exact dif_pos (by decide)
  have hcollect : (collectStack kevAndCritical "2026-09-10".toList "2026-09-10".toList "2026-09-10 00:00:00".toList
      "2026-09-11 00:00:00".toList).1 = (pagesFrom bothRows 0).foldl (Scan.page fun _ ↦ true) ⟨[], [], 0⟩ := rfl
  rw [hcollect, hpages]
  decide

end Briefr.Reports.DailyBrief
