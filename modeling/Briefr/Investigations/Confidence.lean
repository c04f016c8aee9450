import Briefr.Investigations.Projection
import Briefr.Library.DecimalOrder

namespace Briefr.Investigations

open Briefr.Python Briefr.Library Briefr.Library.DecimalOrder

/-- The text is `str(n)` of a natural number. -/
def Rendered (confidence : Option Text) : Prop := ∀ text ∈ confidence, ∃ n, text = Nat.toDigits 10 n

def level (c : CandidateEdge) : Option ℕ := c.edge.confidence.map fun text ↦ Nat.ofDigitChars 10 text 0

def requested (edgeClass : Option EdgeClass) (c : CandidateEdge) : Bool :=
  edgeClass.all fun edgeClass ↦ c.edge.edgeClass = edgeClass

/-- The edges of the class whose level is at least a number. -/
def atLeast (candidates : List CandidateEdge) (edgeClass : Option EdgeClass) (least : ℕ) : List CandidateEdge :=
  candidates.filter fun c ↦ requested edgeClass c && (level c).any fun n ↦ decide (least ≤ n)

def withLeast (filters : RelationshipFilters) (least : ℕ) : RelationshipFilters :=
  { filters with minConfidence := some (Nat.toDigits 10 least) }

theorem confidence_eq {c : CandidateEdge} (h : Rendered c.edge.confidence) :
    c.edge.confidence = (level c).map (Nat.toDigits 10) := by
  rw [level]
  cases hc : c.edge.confidence with
  | none => rfl
  | some text =>
    obtain ⟨n, rfl⟩ := h text hc
    rw [Option.map_some, Option.map_some, Nat.ofDigitChars_toDigits (by decide) (by decide)]

theorem passes_withLeast {c : CandidateEdge} (h : Rendered c.edge.confidence) (filters : RelationshipFilters) (least : ℕ) :
    passes (withLeast filters least) c =
      (requested filters.edgeClass c &&
        (level c).any fun n ↦ !decide (Nat.toDigits 10 n < Nat.toDigits 10 least)) := by
  rw [passes, confidence_eq h, withLeast, Option.all_some, Option.any_map]
  rfl

/-- An edge is filtered by number: it is of another class, has no level, or its level and the least one are in the order
of their texts. -/
theorem passes_numeric_iff {c : CandidateEdge} (h : Rendered c.edge.confidence) (filters : RelationshipFilters)
    (least : ℕ) :
    (passes (withLeast filters least) c =
        (requested filters.edgeClass c && (level c).any fun n ↦ decide (least ≤ n))) ↔
      (requested filters.edgeClass c = true → ∀ n ∈ level c, InOrder n least) := by
  rw [passes_withLeast h]
  cases hrequested : requested filters.edgeClass c with
  | false => simp
  | true =>
    cases hlevel : level c with
    | none => simp
    | some n =>
      have hnot : (!decide (Nat.toDigits 10 n < Nat.toDigits 10 least)) = decide (least ≤ n) ↔
          (Nat.toDigits 10 n < Nat.toDigits 10 least ↔ n < least) := by
        rw [Bool.eq_iff_iff, Bool.not_eq_true', decide_eq_false_iff_not, decide_eq_true_iff, ← not_lt, not_iff_not]
      rw [Bool.true_and, Bool.true_and, Option.any_some, Option.any_some, hnot, toDigits_lt_iff_of_inOrder]
      simp

theorem filter_eq_filter_iff {α : Type} {p q : α → Bool} {as : List α} :
    as.filter p = as.filter q ↔ ∀ a ∈ as, p a = q a := by
  refine ⟨fun h a ha ↦ ?_, List.filter_congr⟩
  rw [Bool.eq_iff_iff]
  have hmem : a ∈ as.filter p ↔ a ∈ as.filter q := by rw [h]
  simpa only [List.mem_filter, ha, true_and] using hmem

theorem atLeast_sublist (candidates : List CandidateEdge) (edgeClass : Option EdgeClass) {least least' : ℕ}
    (h : least ≤ least') : (atLeast candidates edgeClass least').Sublist (atLeast candidates edgeClass least) := by
  refine List.monotone_filter_right candidates fun c hc ↦ ?_
  rw [Bool.and_eq_true, Option.any_eq_true] at hc ⊢
  obtain ⟨hrequested, n, hn, hle⟩ := hc
  exact ⟨hrequested, n, hn, decide_eq_true (h.trans (of_decide_eq_true hle))⟩

/-- The edges of the class that have a level are in the order of the texts with a least one. -/
def Comparable (candidates : List CandidateEdge) (edgeClass : Option EdgeClass) (least : ℕ) : Prop :=
  ∀ c ∈ candidates, requested edgeClass c = true → ∀ n ∈ level c, InOrder n least

instance (candidates : List CandidateEdge) (edgeClass : Option EdgeClass) (least : ℕ) :
    Decidable (Comparable candidates edgeClass least) := by
  unfold Comparable
  infer_instance

theorem applyEdgeFilters_numeric_iff {candidates : List CandidateEdge}
    (hrendered : ∀ c ∈ candidates, Rendered c.edge.confidence) (filters : RelationshipFilters) (least : ℕ) :
    applyEdgeFilters candidates (withLeast filters least) = atLeast candidates filters.edgeClass least ↔
      Comparable candidates filters.edgeClass least := by
  rw [applyEdgeFilters, atLeast, filter_eq_filter_iff]
  exact forall₂_congr fun c hc ↦ passes_numeric_iff (hrendered c hc) filters least

/-- An edge of a mirror row with the level. -/
def mirrorEdge (confidence : ℕ) : CandidateEdge :=
  candidateEdge "cve:CVE-2024-0001".toList
    { targetRef := ⟨.ioc, "ip:192.0.2.1".toList, "192.0.2.1".toList⟩, edgeClass := .reported
      sourceKey := "threatfox".toList, confidence := some (Nat.toDigits 10 confidence) }

theorem one_level : 1 ≤ 1 ∧ 1 ≤ 2 := by decide

theorem fifty_edges : 1 ≤ 50 ∧ 50 ≤ 100 := by decide

def anyEdge : RelationshipFilters where
  depth := 1
  limit := 50
  cursor := none
  edgeClass := none
  minConfidence := none
  includeSemantic := false
  depth_bounds := one_level
  limit_bounds := fifty_edges

theorem rendered_mirrorEdge (confidence : ℕ) : Rendered (mirrorEdge confidence).edge.confidence :=
  fun _ h ↦ ⟨confidence, (Option.some.inj h).symm⟩

end Briefr.Investigations
