import Briefr.Matching.Agreement
import Briefr.Security.SelfStack

namespace Briefr.Security.SelfStack

open Briefr.Python Briefr.Library.StableSort Briefr.Matching.Cpe Briefr.Scoring.AssetMatch Briefr.Routers.CveFilters
open Briefr.Matching.Agreement (Scorable scorable_iff)

section Recall

variable [Interp] {assets : List Asset} {cves rows : List Row} {corpus : List Entry}

/-- Where all assets are scored, each is by itself. -/
theorem matchedAsset_defined {cpes : List Value} (score : ℕ) (h : Scorable assets cpes) :
    ∃ asset, matchedAsset cpes score assets = .ok asset := by
  induction assets with
  | nil => exact ⟨none, rfl⟩
  | cons asset assets ih =>
    obtain ⟨own, hown⟩ := scorable_iff.mp (show Scorable [asset] cpes from fun a ha ↦
      h a (List.mem_singleton.mp ha ▸ .head _))
    obtain ⟨found, hfound⟩ := ih fun a ha ↦ h a (.tail _ ha)
    rw [matchedAsset, hown, ok_bind]
    split
    · exact ⟨some asset, rfl⟩
    · exact ⟨found, hfound⟩

/-- The loop keeps the rows that score, and raises where the scorer does. -/
theorem liveRows_eq_ok {live : List LiveRow} :
    liveRows assets rows = .ok live ↔
      (∀ row ∈ rows, ∃ score, rowScore assets row = .ok score) ∧ live = (rows.filter (scores assets)).map (liveOf assets) := by
  induction rows generalizing live with
  | nil => simp [liveRows, eq_comm]
  | cons row rows ih =>
    rw [List.forall_mem_cons, liveRows]
    cases hscore : rowScore assets row with
    | error e => simp
    | ok score =>
      have hs : scores assets row = admissible score := by simp only [scores, hscore]
      rw [List.filter_cons, hs, ok_bind]
      by_cases ha : admissible score
      · obtain ⟨asset, hasset⟩ := matchedAsset_defined score (scorable_iff.mpr ⟨score, hscore⟩)
        have hlive : liveOf assets row = liveRow row score (asset.getD unknownAsset) := by
          simp only [liveOf, hscore, hasset]
        simp only [ha, if_true, hasset, ok_bind, bind_eq_ok, ih, pure_eq_ok, List.map_cons, hlive, Except.ok.injEq]
        constructor
        · rintro ⟨_, ⟨hdef, rfl⟩, rfl⟩
          exact ⟨⟨⟨score, rfl⟩, hdef⟩, rfl⟩
        · rintro ⟨⟨_, hdef⟩, rfl⟩
          exact ⟨_, ⟨hdef, rfl⟩, rfl⟩
      · simp [ha, ih]

def fetched (cves : List Row) (corpus : List Entry) : List Row := fetch cves (productTokens (selfStackAssets corpus))

omit [Interp] in
theorem candidates_nil (cves : List Row) : candidates cves [] = [] := by
  simp [candidates, prefilter]

/-- With no asset, and with no token, the function answers as it does for no candidate. -/
theorem selfStackRiskRowsWithStats_eq (cves : List Row) (corpus : List Entry) :
    selfStackRiskRowsWithStats cves corpus =
      (do
        let live ← liveRows (selfStackAssets corpus) (fetched cves corpus)
        return withStats (fetched cves corpus).length live) := by
  have hnone : productTokens (selfStackAssets corpus) = [] → fetched cves corpus = [] := by
    intro h
    rw [fetched, h, fetch, candidates_nil]
    rfl
  simp only [selfStackRiskRowsWithStats]
  by_cases ha : selfStackAssets corpus = []
  · have ht : productTokens (selfStackAssets corpus) = [] := by rw [ha]; rfl
    rw [if_pos ha, hnone ht]
    rfl
  rw [if_neg ha]
  by_cases ht : productTokens (selfStackAssets corpus) = []
  · rw [if_pos ht, hnone ht]
    rfl
  · rw [if_neg ht, fetched]

theorem fetched_subperm : (fetched cves corpus).Subperm (cves.filter kevOrCritical) := by
  refine ((List.take_sublist _ _).subperm.trans (perm_sortBy _ _).subperm).trans (List.Sublist.subperm ?_)
  refine List.monotone_filter_right _ fun row hrow ↦ ?_
  exact (Bool.and_eq_true_iff.mp hrow).1

theorem scoring_subperm :
    ((fetched cves corpus).filter (scores (selfStackAssets corpus))).Subperm (exposure cves corpus) := by
  have h := List.Subperm.filter (scores (selfStackAssets corpus)) (@fetched_subperm _ cves corpus)
  rw [List.filter_filter] at h
  simpa only [exposure, Bool.and_comm] using h

theorem selfStack_eq_ok {result : List LiveRow × Stats} :
    selfStackRiskRowsWithStats cves corpus = .ok result ↔
      (∀ row ∈ fetched cves corpus, ∃ score, rowScore (selfStackAssets corpus) row = .ok score) ∧
        result = withStats (fetched cves corpus).length
          (((fetched cves corpus).filter (scores (selfStackAssets corpus))).map (liveOf (selfStackAssets corpus))) := by
  rw [selfStackRiskRowsWithStats_eq, bind_eq_ok]
  constructor
  · intro ⟨live, hlive, hr⟩
    obtain ⟨hscored, rfl⟩ := liveRows_eq_ok.mp hlive
    cases hr
    exact ⟨hscored, rfl⟩
  · rintro ⟨hscored, rfl⟩
    exact ⟨_, liveRows_eq_ok.mpr ⟨hscored, rfl⟩, rfl⟩

theorem mem_exposure {row : Row} :
    row ∈ exposure cves corpus ↔ row ∈ cves ∧ kevOrCritical row = true ∧ scores (selfStackAssets corpus) row = true := by
  rw [exposure, List.mem_filter, Bool.and_eq_true]

omit [Interp] in
theorem mem_candidates {tokens : List Text} {row : Row} :
    row ∈ candidates cves tokens ↔ row ∈ cves ∧ kevOrCritical row = true ∧ prefilter tokens row = true := by
  rw [candidates, List.mem_filter, Bool.and_eq_true]

theorem mem_fetched {t : CveTable} {row : Row} :
    row ∈ fetched t.rows corpus ↔ row ∈ candidates t.rows (productTokens (selfStackAssets corpus)) ∧
      place fetchKey Row.cveId (candidates t.rows (productTokens (selfStackAssets corpus))) row < candidateLimit := by
  have hkey : ((candidates t.rows (productTokens (selfStackAssets corpus))).map Row.cveId).Nodup :=
    t.key.sublist (List.filter_sublist.map _)
  constructor
  · intro h
    have hmem := (perm_sortBy _ _).mem_iff.mp (List.mem_of_mem_take h)
    exact ⟨hmem, (mem_take_sortBy hkey hmem).mp h⟩
  · exact fun ⟨hmem, h⟩ ↦ (mem_take_sortBy hkey hmem).mpr h

theorem shownScores_iff {t : CveTable} :
    Kept t.rows corpus ↔ (∀ row ∈ fetched t.rows corpus, ∃ score, rowScore (selfStackAssets corpus) row = .ok score) ∧
      exposure t.rows corpus ⊆ fetched t.rows corpus := by
  constructor
  · intro h
    refine ⟨fun row hrow ↦ h.scored row (mem_fetched.mp hrow).1 (mem_fetched.mp hrow).2, fun row hrow ↦ ?_⟩
    obtain ⟨hmem, hkev, _⟩ := mem_exposure.mp hrow
    exact mem_fetched.mpr ⟨mem_candidates.mpr ⟨hmem, hkev, h.mentioned row hrow⟩, h.within row hrow⟩
  · intro ⟨hscored, hsub⟩
    exact {
      mentioned := fun row hrow ↦ (mem_candidates.mp (mem_fetched.mp (hsub hrow)).1).2.2
      within := fun row hrow ↦ (mem_fetched.mp (hsub hrow)).2
      scored := fun row hrow hplace ↦ hscored row (mem_fetched.mpr ⟨hrow, hplace⟩) }

theorem kept_of_complete {t : CveTable}
    (h : ∃ result, selfStackRiskRowsWithStats t.rows corpus = .ok result ∧ Complete t.rows corpus result) :
    Kept t.rows corpus := by
  obtain ⟨result, hresult, hcomplete⟩ := h
  obtain ⟨hscored, rfl⟩ := selfStack_eq_ok.mp hresult
  obtain ⟨_, _, _, _, hcount⟩ := hcomplete
  have hperm := scoring_subperm.perm_of_length_le (by simpa [withStats] using hcount.ge)
  exact shownScores_iff.mpr ⟨hscored, fun row hrow ↦ List.mem_of_mem_filter (hperm.mem_iff.mpr hrow)⟩

theorem complete_of_kept {t : CveTable} (h : Kept t.rows corpus) :
    ∃ result, selfStackRiskRowsWithStats t.rows corpus = .ok result ∧ Complete t.rows corpus result := by
  obtain ⟨hscored, hsub⟩ := shownScores_iff.mp h
  have hnodup : (exposure t.rows corpus).Nodup := (List.Nodup.of_map _ t.key).filter _
  have hperm := scoring_subperm.antisymm (List.subperm_of_subset hnodup fun row hrow ↦
    List.mem_filter.mpr ⟨hsub hrow, (mem_exposure.mp hrow).2.2⟩)
  let scoring := (fetched t.rows corpus).filter (scores (selfStackAssets corpus))
  refine ⟨_, selfStack_eq_ok.mpr ⟨hscored, rfl⟩, sortBy (liveKey ∘ liveOf (selfStackAssets corpus)) scoring, ?_, ?_, ?_, ?_⟩
  · exact (perm_sortBy _ _).trans hperm
  · rw [map_sortBy]
    exact pairwise_sortBy _ _
  · rw [map_sortBy]
    rfl
  · simpa [withStats] using hperm.length_eq

/-- The register shows the first of all CVEs that score, and counts them all, exactly when the prefilter keeps them. -/
theorem self_stack_complete_iff (t : CveTable) (corpus : List Entry) :
    (∃ result, selfStackRiskRowsWithStats t.rows corpus = .ok result ∧ Complete t.rows corpus result) ↔
      Kept t.rows corpus :=
  ⟨kept_of_complete, complete_of_kept⟩

end Recall

section Spelling

/-- The JSON text of the row's products. -/
def nodeProducts : Text := "[\"nodejs:nodejs\"]"

def nodeLoads (s : Text) : Option Value := if s = nodeProducts then some (.list [.str "nodejs:nodejs".toList]) else none

local instance selfStackInterp : Interp := ascii nodeLoads

def nodeRow : Row where
  cveId := "CVE-2024-0001"
  severity := some "CRITICAL".toList
  cvssScore := .none
  epssScore := .none
  isKev := some 0
  published := none
  affectedProducts := some nodeProducts
  cpeMatches := none

def nodeTable : CveTable := ⟨[nodeRow], List.nodup_singleton _⟩

/-- The dependency is spelled with a dot. -/
def nodeCorpus : List Entry := [⟨some "node.js".toList, none, none, none⟩]

theorem self_stack_not_complete :
    ¬∀ (t : CveTable) (corpus : List Entry),
      ∃ result, selfStackRiskRowsWithStats t.rows corpus = .ok result ∧ Complete t.rows corpus result := by
  intro h
  have hkept := kept_of_complete (h nodeTable nodeCorpus)
  have hrow : nodeRow ∈ exposure nodeTable.rows nodeCorpus :=
    List.mem_filter.mpr ⟨.head _, by decide +kernel⟩
  exact absurd (hkept.mentioned nodeRow hrow) (by decide +kernel)

end Spelling

end Briefr.Security.SelfStack
