import Mathlib.Combinatorics.SimpleGraph.Connectivity.Connected
import Mathlib.Tactic.NormNum
import Briefr.Library.UniqueIndex
import Briefr.Correlation.PulseFamilies

namespace Briefr.Correlation

open Briefr.Python Briefr.Library Briefr.Library.UnionFind

theorem mem_of_mem_pairs {α : Type} {l : List α} {e : α × α} (h : e ∈ pairs l) : e.1 ∈ l ∧ e.2 ∈ l := by
  induction l with
  | nil => cases h
  | cons x l ih =>
    rcases List.mem_append.mp h with h | h
    · obtain ⟨y, hy, rfl⟩ := List.mem_map.mp h
      exact ⟨.head _, .tail _ hy⟩
    · exact ⟨.tail _ (ih h).1, .tail _ (ih h).2⟩

theorem mem_pairs {α : Type} {l : List α} {a b : α} (ha : a ∈ l) (hb : b ∈ l) (hne : a ≠ b) :
    (a, b) ∈ pairs l ∨ (b, a) ∈ pairs l := by
  induction l with
  | nil => cases ha
  | cons x l ih =>
    simp only [pairs, List.mem_append, List.mem_map, Prod.mk.injEq]
    rcases List.mem_cons.mp ha with rfl | ha'
    · rcases List.mem_cons.mp hb with rfl | hb'
      · exact absurd rfl hne
      · exact .inl (.inl ⟨b, hb', rfl, rfl⟩)
    · rcases List.mem_cons.mp hb with rfl | hb'
      · exact .inr (.inl ⟨a, ha', rfl, rfl⟩)
      · exact (ih ha' hb').imp .inr .inr

theorem jaccard_comm (a b : Finset Text) : jaccard a b = jaccard b a := by
  simp only [jaccard, Finset.inter_comm a b, Finset.union_comm a b, or_comm]

theorem inter_nonempty_of_jaccard {a b : Finset Text} (h : jaccardThreshold ≤ jaccard a b) : (a ∩ b).Nonempty := by
  rw [Finset.nonempty_iff_ne_empty]
  intro he
  have hz : jaccard a b = 0 := by
    rw [jaccard, he]
    simp
  rw [hz, jaccardThreshold] at h
  norm_num at h

/-- Both sets are large enough and overlap enough. -/
def Overlap (a b : Finset Text) : Prop :=
  minIocsForJaccard ≤ a.card ∧ minIocsForJaccard ≤ b.card ∧ jaccardThreshold ≤ jaccard a b

theorem Overlap.symm {a b : Finset Text} (h : Overlap a b) : Overlap b a :=
  ⟨h.2.1, h.1, jaccard_comm a b ▸ h.2.2⟩

theorem sortedPair_eq_iff {e e' : Text × Text} (h : sortedPair e' = sortedPair e) : e' = e ∨ e' = e.swap := by
  unfold sortedPair at h
  split at h <;> split at h
  · exact .inl (Prod.swap_injective h)
  · exact .inr (Prod.swap_eq_iff_eq_swap.mp h)
  · exact .inr h
  · exact .inl h

section
variable {iocs : Text → Finset Text} {s : Sweep} {e : Text × Text}

theorem sweepPair_seen (h : sortedPair e ∈ s.seenPairs) : sweepPair iocs s e = s := by
  rw [sweepPair, if_pos h]

theorem sweepPair_overlap (h : sortedPair e ∉ s.seenPairs) (ho : Overlap (iocs e.1) (iocs e.2)) :
    sweepPair iocs s e = ⟨sortedPair e :: s.seenPairs, s.parent.merge e.1 e.2⟩ := by
  have hsmall : ¬((iocs e.1).card < minIocsForJaccard ∨ (iocs e.2).card < minIocsForJaccard) := by
    rw [not_or, not_lt, not_lt]
    exact ⟨ho.1, ho.2.1⟩
  rw [sweepPair, if_neg h]
  simp only [if_neg hsmall, if_pos ho.2.2]

theorem sweepPair_apart (h : sortedPair e ∉ s.seenPairs) (ho : ¬Overlap (iocs e.1) (iocs e.2)) :
    sweepPair iocs s e = ⟨sortedPair e :: s.seenPairs, s.parent⟩ := by
  rw [sweepPair, if_neg h]
  dsimp only
  split
  · rfl
  · rename_i hsmall
    rw [not_or, not_lt, not_lt] at hsmall
    rw [if_neg fun hj ↦ ho ⟨hsmall.1, hsmall.2, hj⟩]

/-- The first pair of a sweep stands in the pairs that are merged after it, or the rest of the sweep sees to it. -/
theorem complete_cons {l merged merged' : List (Text × Text)} {seen : List (Text × Text)} {e : Text × Text}
    {iocs : Text → Finset Text} (hsub : merged ⊆ merged')
    (hcomplete : ∀ e' ∈ l, Overlap (iocs e'.1) (iocs e'.2) → sortedPair e' ∉ sortedPair e :: seen →
      e' ∈ merged ∨ e'.swap ∈ merged)
    (hfirst : ∀ e', sortedPair e' = sortedPair e → Overlap (iocs e'.1) (iocs e'.2) → e' ∈ merged' ∨ e'.swap ∈ merged') :
    ∀ e' ∈ e :: l, Overlap (iocs e'.1) (iocs e'.2) → sortedPair e' ∉ seen → e' ∈ merged' ∨ e'.swap ∈ merged' := by
  intro e' he' ho hn
  by_cases heq : sortedPair e' = sortedPair e
  · exact hfirst e' heq ho
  · rcases List.mem_cons.mp he' with rfl | he'
    · exact absurd rfl heq
    · have hn' : sortedPair e' ∉ sortedPair e :: seen := by
        simpa using ⟨heq, hn⟩
      exact (hcomplete e' he' ho hn').imp (fun h ↦ hsub h) fun h ↦ hsub h

/-- The sweep merges overlapping pairs only, and each of them unless it was seen, in this or in the other order. -/
theorem sweep_spec (iocs : Text → Finset Text) (l : List (Text × Text)) (s : Sweep) :
    ∃ merged, (l.foldl (sweepPair iocs) s).parent = s.parent.mergeAll merged ∧
      (∀ e ∈ merged, e ∈ l ∧ Overlap (iocs e.1) (iocs e.2)) ∧
      ∀ e ∈ l, Overlap (iocs e.1) (iocs e.2) → sortedPair e ∉ s.seenPairs → e ∈ merged ∨ e.swap ∈ merged := by
  induction l generalizing s with
  | nil => exact ⟨[], rfl, by simp, by simp⟩
  | cons e l ih =>
    by_cases hs : sortedPair e ∈ s.seenPairs
    · obtain ⟨merged, hp, hsound, hcomplete⟩ := ih s
      refine ⟨merged, ?_, fun e' he' ↦ (hsound e' he').imp_left (.tail _), ?_⟩
      · rw [List.foldl_cons, sweepPair_seen hs, hp]
      · intro e' he' ho hn
        rcases List.mem_cons.mp he' with rfl | he'
        · exact absurd hs hn
        · exact hcomplete e' he' ho hn
    · by_cases ho : Overlap (iocs e.1) (iocs e.2)
      · obtain ⟨merged, hp, hsound, hcomplete⟩ := ih ⟨sortedPair e :: s.seenPairs, s.parent.merge e.1 e.2⟩
        refine ⟨e :: merged, ?_, ?_, complete_cons (List.subset_cons_self _ _) hcomplete ?_⟩
        · rw [List.foldl_cons, sweepPair_overlap hs ho, hp]
          rfl
        · intro e' he'
          rcases List.mem_cons.mp he' with rfl | he'
          · exact ⟨.head _, ho⟩
          · exact (hsound e' he').imp_left (.tail _)
        · intro e' heq _
          rcases sortedPair_eq_iff heq with rfl | rfl
          · exact .inl (.head _)
          · exact .inr (by simp)
      · obtain ⟨merged, hp, hsound, hcomplete⟩ := ih ⟨sortedPair e :: s.seenPairs, s.parent⟩
        refine ⟨merged, ?_, fun e' he' ↦ (hsound e' he').imp_left (.tail _),
          complete_cons (List.Subset.refl _) hcomplete ?_⟩
        · rw [List.foldl_cons, sweepPair_apart hs ho, hp]
        · intro e' heq ho'
          rcases sortedPair_eq_iff heq with rfl | rfl
          · exact absurd ho' ho
          · exact absurd ho'.symm ho

end

namespace Otx

variable {o : Otx} {hubCap : ℤ} {order : SetOrder} {a b pid ioc : Text}

variable (o hubCap) in
def nonHubIocs (pid : Text) : Finset Text :=
  ((o.iocs.filter fun r ↦ r.pulseId = pid ∧ (o.degree r.iocType r.iocValue).getD 0 ≤ hubCap).map fun r ↦
    r.iocType ++ ':' :: r.iocValue).toFinset

theorem iocSet_eq (hp : pid ∈ o.pulseIds) : o.iocSet hubCap pid = o.nonHubIocs hubCap pid := by
  ext x
  rw [iocSet, iocSets, Dict.get?_groups, nonHubIocs]
  simp only [iocRows, List.mem_toFinset, List.mem_map, List.mem_filter, decide_eq_true_eq]
  constructor
  · intro ⟨e, ⟨⟨r, ⟨hr, _, hd⟩, he⟩, hpid⟩, hx⟩
    subst he
    exact ⟨r, ⟨hr, hpid, hd⟩, hx⟩
  · intro ⟨r, ⟨hr, hpid, hd⟩, hx⟩
    exact ⟨(r.pulseId, x), ⟨⟨r, ⟨hr, hpid ▸ hp, hd⟩, by rw [hx]⟩, hpid⟩, rfl⟩

theorem toFinset_items {e : Text × List Text} (he : e ∈ (o.iocSets hubCap).items) :
    e.2.toFinset = o.iocSet hubCap e.1 := by
  rw [iocSet, Dict.mem_items_iff.mp he, Option.getD_some]

theorem mem_pulseIds_of_items {e : Text × List Text} (he : e ∈ (o.iocSets hubCap).items) : e.1 ∈ o.pulseIds := by
  obtain ⟨x, hx, hk⟩ := List.mem_map.mp (Dict.mem_keys_groups.mp (List.mem_map_of_mem he))
  obtain ⟨r, hr, rfl⟩ := List.mem_map.mp hx
  have hr := (List.mem_filter.mp hr).2
  simp only [decide_eq_true_eq] at hr
  exact hk ▸ hr.1

theorem mem_postings : (ioc, pid) ∈ o.postings hubCap order ↔
    pid ∈ o.pulseIds ∧ minIocsForJaccard ≤ (o.iocSet hubCap pid).card ∧ ioc ∈ o.iocSet hubCap pid := by
  rw [postings, List.mem_flatMap]
  constructor
  · intro ⟨e, he, hx⟩
    split at hx
    · cases hx
    · rename_i hc
      obtain ⟨y, hy, hxy⟩ := List.mem_map.mp hx
      obtain ⟨rfl, rfl⟩ := Prod.mk.inj hxy
      rw [order.mem_iter] at hy
      rw [toFinset_items he] at hc hy
      exact ⟨mem_pulseIds_of_items he, not_lt.mp hc, hy⟩
  · intro ⟨_, hc, hx⟩
    have hget : ∃ l, (o.iocSets hubCap).get? pid = some l := by
      cases h : (o.iocSets hubCap).get? pid with
      | none => simp [iocSet, h] at hx
      | some l => exact ⟨l, rfl⟩
    obtain ⟨l, hl⟩ := hget
    have he := Dict.mem_items_iff.mpr hl
    refine ⟨(pid, l), he, ?_⟩
    have hset := toFinset_items he
    dsimp only at hset ⊢
    rw [hset, if_neg (not_lt.mpr hc)]
    exact List.mem_map.mpr ⟨ioc, (order.mem_iter _ _ _).mpr hx, rfl⟩

theorem mem_pulseIds_of_sharedPairs {e : Text × Text} (h : e ∈ o.sharedPairs hubCap order) :
    e.1 ∈ o.pulseIds ∧ e.2 ∈ o.pulseIds := by
  obtain ⟨g, hg, he⟩ := List.mem_flatMap.mp h
  have hmem : ∀ pid ∈ g.2, pid ∈ o.pulseIds := fun pid hp ↦
    (mem_postings.mp ((Dict.mem_group_iff hg).mp hp)).1
  exact (mem_of_mem_pairs he).imp (hmem _) (hmem _)

theorem mem_sharedPairs (ha : a ∈ o.pulseIds) (hb : b ∈ o.pulseIds) (hne : a ≠ b)
    (h : Overlap (o.iocSet hubCap a) (o.iocSet hubCap b)) :
    (a, b) ∈ o.sharedPairs hubCap order ∨ (b, a) ∈ o.sharedPairs hubCap order := by
  obtain ⟨ioc, hi⟩ := inter_nonempty_of_jaccard h.2.2
  obtain ⟨hia, hib⟩ := Finset.mem_inter.mp hi
  have hpa : (ioc, a) ∈ o.postings hubCap order := mem_postings.mpr ⟨ha, h.1, hia⟩
  have hpb : (ioc, b) ∈ o.postings hubCap order := mem_postings.mpr ⟨hb, h.2.1, hib⟩
  obtain ⟨g, hg, hk, hga⟩ := Dict.mem_groups_iff.mp hpa
  obtain ⟨g', hg', hk', hgb⟩ := Dict.mem_groups_iff.mp hpb
  obtain rfl : g' = g := List.inj_on_of_nodup_map (iocToPulses o hubCap order).nodup hg' hg (hk'.trans hk.symm)
  rcases mem_pairs hga hgb hne with hp | hp
  · exact .inl (List.mem_flatMap.mpr ⟨g', hg, hp⟩)
  · exact .inr (List.mem_flatMap.mpr ⟨g', hg, hp⟩)

section
variable [Interp]

theorem mem_bucketPairs {e : Text × Text} (h : e ∈ o.bucketPairs) :
    e.1 ∈ o.pulseIds ∧ e.2 ∈ o.pulseIds ∧ o.cveSet e.1 = o.cveSet e.2 ∧ o.nameMap e.1 = o.nameMap e.2 := by
  obtain ⟨g, hg, he⟩ := List.mem_flatMap.mp h
  have hmem : ∀ pid ∈ g.2, pid ∈ o.pulseIds ∧ (o.cveSet pid, o.nameMap pid) = g.1 := by
    intro pid hp
    obtain ⟨q, hq, hqp⟩ := List.mem_map.mp ((Dict.mem_group_iff hg).mp hp)
    obtain ⟨hk, rfl⟩ := Prod.mk.inj hqp
    exact ⟨hq, hk⟩
  cases hl : g.2 with
  | nil => simp [hl] at he
  | cons anchor others =>
    rw [hl] at he hmem
    obtain ⟨other, ho, rfl⟩ := List.mem_map.mp he
    obtain ⟨h1, hk1⟩ := hmem anchor (.head _)
    obtain ⟨h2, hk2⟩ := hmem other (.tail _ ho)
    obtain ⟨hc, hn⟩ := Prod.mk.inj (hk1.trans hk2.symm)
    exact ⟨h1, h2, hc, hn⟩

/-- The pulses of one bucket are all merged with its first. -/
theorem eqvGen_bucketPairs (ha : a ∈ o.pulseIds) (hb : b ∈ o.pulseIds) (hc : o.cveSet a = o.cveSet b)
    (hn : o.nameMap a = o.nameMap b) : Relation.EqvGen (fun x y ↦ (x, y) ∈ o.bucketPairs) a b := by
  have hga : ((o.cveSet a, o.nameMap a), a) ∈ o.pulseIds.map fun pid ↦ ((o.cveSet pid, o.nameMap pid), pid) :=
    List.mem_map.mpr ⟨a, ha, rfl⟩
  have hgb : ((o.cveSet a, o.nameMap a), b) ∈ o.pulseIds.map fun pid ↦ ((o.cveSet pid, o.nameMap pid), pid) :=
    List.mem_map.mpr ⟨b, hb, by rw [hc, hn]⟩
  obtain ⟨g, hg, hk, hga⟩ := Dict.mem_groups_iff.mp hga
  obtain ⟨g', hg', hk', hgb⟩ := Dict.mem_groups_iff.mp hgb
  obtain rfl : g' = g := List.inj_on_of_nodup_map o.buckets.nodup hg' hg (hk'.trans hk.symm)
  cases hl : g'.2 with
  | nil => simp [hl] at hga
  | cons anchor others =>
    have hanchor : ∀ pid ∈ g'.2, Relation.EqvGen (fun x y ↦ (x, y) ∈ o.bucketPairs) anchor pid := by
      intro pid hp
      rw [hl] at hp
      rcases List.mem_cons.mp hp with rfl | hp
      · exact .refl _
      · refine .rel _ _ (List.mem_flatMap.mpr ⟨g', hg, ?_⟩)
        rw [hl]
        exact List.mem_map_of_mem hp
    exact ((hanchor a hga).symm _ _).trans _ _ _ (hanchor b hgb)

variable (o hubCap) in
/-- The pulses that are alike: their non-hub indicators overlap, or their CVEs and their normalised names are the same. -/
def similarity : SimpleGraph Text where
  Adj a b := a ≠ b ∧ a ∈ o.pulseIds ∧ b ∈ o.pulseIds ∧
    (Overlap (o.nonHubIocs hubCap a) (o.nonHubIocs hubCap b) ∨ o.cveSet a = o.cveSet b ∧ o.nameMap a = o.nameMap b)
  symm := ⟨fun _ _ h ↦ ⟨h.1.symm, h.2.2.1, h.2.1, h.2.2.2.imp Overlap.symm fun h ↦ ⟨h.1.symm, h.2.symm⟩⟩⟩

theorem reachable_of_eqvGen {l : List (Text × Text)}
    (hl : ∀ e ∈ l, e.1 = e.2 ∨ (o.similarity hubCap).Adj e.1 e.2)
    (h : Relation.EqvGen (fun x y ↦ (x, y) ∈ l) a b) : (o.similarity hubCap).Reachable a b := by
  induction h with
  | rel x y hxy =>
    rcases hl _ hxy with he | hadj
    · obtain rfl : x = y := he
      exact .refl _
    · exact hadj.reachable
  | refl => exact .refl _
  | symm _ _ _ ih => exact ih.symm
  | trans _ _ _ _ _ ih ih' => exact ih.trans ih'

theorem eqvGen_of_reachable {l : List (Text × Text)}
    (hl : ∀ x y, (o.similarity hubCap).Adj x y → Relation.EqvGen (fun x y ↦ (x, y) ∈ l) x y)
    (h : (o.similarity hubCap).Reachable a b) : Relation.EqvGen (fun x y ↦ (x, y) ∈ l) a b := by
  rw [SimpleGraph.reachable_iff_reflTransGen] at h
  induction h with
  | refl => exact .refl _
  | tail _ hxy ih => exact ih.trans _ _ _ (hl _ _ hxy)

/-- The union-find ends with the components of the graph. -/
theorem parent_spec (o : Otx) (hubCap : ℤ) (order : SetOrder) :
    ∃ rep rank, Represents (o.parent hubCap order) rep rank ∧
      ∀ a b, rep a = rep b ↔ (o.similarity hubCap).Reachable a b := by
  obtain ⟨merged, hp, hsound, hcomplete⟩ :=
    sweep_spec (o.iocSet hubCap) (o.sharedPairs hubCap order) ⟨[], Forest.start.mergeAll o.bucketPairs⟩
  have hparent : o.parent hubCap order = Forest.start.mergeAll (o.bucketPairs ++ merged) := by
    rw [parent, hp, Forest.mergeAll, Forest.mergeAll, Forest.mergeAll, List.foldl_append]
  obtain ⟨rep, rank, hrep, heqv⟩ := Represents.mergeAll (o.bucketPairs ++ merged)
  refine ⟨rep, rank, hparent ▸ hrep, fun a b ↦ (heqv a b).trans ⟨reachable_of_eqvGen ?_, eqvGen_of_reachable ?_⟩⟩
  · intro e he
    by_cases hne : e.1 = e.2
    · exact .inl hne
    · rcases List.mem_append.mp he with he | he
      · obtain ⟨h1, h2, hc⟩ := mem_bucketPairs he
        exact .inr ⟨hne, h1, h2, .inr hc⟩
      · obtain ⟨hshared, ho⟩ := hsound e he
        obtain ⟨h1, h2⟩ := mem_pulseIds_of_sharedPairs hshared
        rw [iocSet_eq h1, iocSet_eq h2] at ho
        exact .inr ⟨hne, h1, h2, .inl ho⟩
  · rintro x y ⟨hne, hx, hy, hxy⟩
    rcases hxy with ho | ⟨hc, hn⟩
    · rw [← iocSet_eq hx, ← iocSet_eq hy] at ho
      have hmerged : (x, y) ∈ merged ∨ (y, x) ∈ merged := by
        rcases mem_sharedPairs hx hy hne ho with h | h
        · exact hcomplete _ h ho List.not_mem_nil
        · exact (hcomplete _ h ho.symm List.not_mem_nil).symm
      rcases hmerged with h | h
      · exact .rel _ _ (List.mem_append_right _ h)
      · exact .symm _ _ (.rel _ _ (List.mem_append_right _ h))
    · exact Relation.EqvGen.mono (fun _ _ h ↦ List.mem_append_left merged h) _ _ (eqvGen_bucketPairs hx hy hc hn)

omit [Interp] in
theorem nodup_pulseIds (o : Otx) : o.pulseIds.Nodup := o.nodup.sublist (List.filter_sublist.map _)

omit [Interp] in
theorem find?_pulseId {l : List Pulse} (hn : (l.map Pulse.pulseId).Nodup) {p : Pulse} :
    l.find? (fun p ↦ p.pulseId = pid) = some p ↔ p ∈ l ∧ p.pulseId = pid := UniqueIndex.find?_eq_some hn

omit [Interp] in
theorem zip_map_self {α β : Type} (f : α → β) (l : List α) : (l.map f).zip l = l.map fun x ↦ (f x, x) := by
  induction l with
  | nil => rfl
  | cons x l ih => rw [List.map_cons, List.zip_cons_cons, ih, List.map_cons]

theorem families_eq (o : Otx) (hubCap : ℤ) (order : SetOrder) :
    ∃ rep : Text → Text, o.families hubCap order = Dict.groups (o.pulseIds.map fun pid ↦ (rep pid, pid)) ∧
      ∀ a b, rep a = rep b ↔ (o.similarity hubCap).Reachable a b := by
  obtain ⟨rep, rank, hrep, h⟩ := o.parent_spec hubCap order
  exact ⟨rep, by rw [families, hrep.findAll, zip_map_self], h⟩

theorem mem_family {e : Text × List Text} (he : e ∈ (o.families hubCap order).items) (ha : a ∈ e.2) :
    b ∈ e.2 ↔ b ∈ o.pulseIds ∧ (o.similarity hubCap).Reachable a b := by
  obtain ⟨rep, hf, hrep⟩ := o.families_eq hubCap order
  rw [hf] at he
  have hmem : ∀ x, x ∈ e.2 ↔ x ∈ o.pulseIds ∧ rep x = e.1 := by
    intro x
    rw [Dict.mem_group_iff he]
    simp [eq_comm]
  rw [hmem] at ha
  rw [hmem, ← hrep, ha.2, eq_comm]

theorem exists_family (hubCap : ℤ) (order : SetOrder) (ha : a ∈ o.pulseIds) :
    ∃ e ∈ (o.families hubCap order).items, a ∈ e.2 := by
  obtain ⟨rep, hf, -⟩ := o.families_eq hubCap order
  have hm : (rep a, a) ∈ o.pulseIds.map fun pid ↦ (rep pid, pid) := List.mem_map.mpr ⟨a, ha, rfl⟩
  obtain ⟨e, he, -, hv⟩ := Dict.mem_groups_iff.mp hm
  exact ⟨e, hf ▸ he, hv⟩

theorem family_ne_nil {e : Text × List Text} (he : e ∈ (o.families hubCap order).items) : e.2 ≠ [] :=
  Dict.ne_nil_of_mem_groups he

theorem nodup_families (o : Otx) (hubCap : ℤ) (order : SetOrder) :
    ((o.families hubCap order).items.flatMap Prod.snd).Nodup := by
  obtain ⟨rep, hf, -⟩ := o.families_eq hubCap order
  rw [hf]
  apply Dict.nodup_flatMap_groups
  simpa [Function.comp_def] using o.nodup_pulseIds

variable [Iso] [Sha256] {rows : List FamilyRow} {members : List Text}

theorem familyRows_eq_ok (hne : members ≠ []) : o.familyRows members = .ok rows ↔
    ∃ p, IsOldest familyRank (members.map o.dated) p ∧ rows = members.map (⟨·, familyIdForOldestPulse p⟩) := by
  have hne' : members.map o.dated ≠ [] := by simpa using hne
  rw [familyRows, bind_eq_ok]
  simp only [oldestPulseId, oldestBy_eq_ok_iff hne', pure_eq_ok, Except.ok.injEq]
  constructor
  · rintro ⟨x, ⟨p, hx, hp⟩, hr⟩
    subst hx
    exact ⟨p, hp, hr.symm⟩
  · rintro ⟨p, hp, hr⟩
    exact ⟨some p, ⟨p, rfl, hp⟩, hr.symm⟩

variable (o) in
def DatesReadable : Prop := ∀ pid ∈ o.pulseIds, Readable (o.createdMap pid)

theorem rebuildPulseFamilies_eq : o.rebuildPulseFamilies hubCap order =
    do return (← (o.families hubCap order).items.mapM fun e ↦ o.familyRows e.2).flatten := by
  rw [rebuildPulseFamilies]
  split
  · rename_i h
    have hids : o.pulseIds = [] := by rw [pulseIds, h, List.map_nil]
    have hitems : (o.families hubCap order).items = [] := by
      obtain ⟨rep, hf, -⟩ := o.families_eq hubCap order
      rw [hf, hids]
      rfl
    rw [hitems]
    rfl
  · rfl

omit [Sha256] in
theorem exists_isOldest {κ : Type} [LinearOrder κ] (rank : Option ℕ → κ) (h : o.DatesReadable) {e : Text × List Text}
    (he : e ∈ (o.families hubCap order).items) : ∃ p, IsOldest rank (e.2.map o.dated) p := by
  have hread : ∀ m ∈ e.2.map o.dated, Readable m.2 := by
    intro m hm
    obtain ⟨pid, hp, rfl⟩ := List.mem_map.mp hm
    exact h pid ((mem_family he hp).mp hp).1
  obtain ⟨p, hp⟩ := exists_oldestBy rank (by simpa using family_ne_nil he) hread
  exact ⟨p, oldestBy_eq_ok.mp hp⟩

theorem exists_rebuildPulseFamilies (hubCap : ℤ) (order : SetOrder) (h : o.DatesReadable) :
    ∃ rows, o.rebuildPulseFamilies hubCap order = .ok rows := by
  have hdefined : ∀ e ∈ (o.families hubCap order).items, ∃ r, o.familyRows e.2 = .ok r := by
    intro e he
    obtain ⟨p, hp⟩ := exists_isOldest familyRank h he
    exact ⟨_, (familyRows_eq_ok (family_ne_nil he)).mpr ⟨p, hp, rfl⟩⟩
  obtain ⟨written, hw⟩ := mapM_defined hdefined
  exact ⟨written.flatten, by rw [rebuildPulseFamilies_eq, hw]; rfl⟩

theorem datesReadable_of_rebuild (h : o.rebuildPulseFamilies hubCap order = .ok rows) : o.DatesReadable := by
  rw [rebuildPulseFamilies_eq] at h
  obtain ⟨written, hw, -⟩ := bind_eq_ok.mp h
  intro pid hp
  obtain ⟨e, he, hpe⟩ := exists_family hubCap order hp
  obtain ⟨r, -, hr⟩ := mem_of_mapM hw he
  obtain ⟨p, hold, -⟩ := (familyRows_eq_ok (family_ne_nil he)).mp hr
  exact hold.readable _ (List.mem_map_of_mem hpe)

variable {κ : Type} [LinearOrder κ] {rank : Option ℕ → κ}

variable (o hubCap rank) in
/-- The first pulse of the component of a pulse. -/
def IsAnchor (pid anchor : Text) : Prop :=
  ∃ members : List Text, (∀ b, b ∈ members ↔ b ∈ o.pulseIds ∧ (o.similarity hubCap).Reachable pid b) ∧
    IsOldest rank (members.map o.dated) anchor

omit [Sha256] in
theorem IsAnchor.spec {p : Text} (h : o.IsAnchor hubCap rank a p) :
    p ∈ o.pulseIds ∧ (o.similarity hubCap).Reachable a p := by
  obtain ⟨members, hm, hold⟩ := h
  obtain ⟨x, hx, rfl⟩ := List.mem_map.mp hold.mem
  obtain ⟨pid, hp, rfl⟩ := List.mem_map.mp hx
  exact (hm pid).mp hp

omit [Sha256] in
theorem IsAnchor.unique {p q : Text} (hab : (o.similarity hubCap).Reachable a b) (hp : o.IsAnchor hubCap rank a p)
    (hq : o.IsAnchor hubCap rank b q) : p = q := by
  obtain ⟨members, hm, hold⟩ := hp
  obtain ⟨members', hm', hold'⟩ := hq
  refine hold.unique (hold'.congr fun x ↦ ?_)
  have hsame : ∀ y, y ∈ members' ↔ y ∈ members := by
    intro y
    rw [hm, hm']
    exact and_congr_right fun _ ↦ ⟨hab.trans, hab.symm.trans⟩
  simp only [List.mem_map, hsame]

omit [Sha256] in
theorem exists_isAnchor (hubCap : ℤ) (order : SetOrder) (rank : Option ℕ → κ) (h : o.DatesReadable) (ha : a ∈ o.pulseIds) :
    ∃ p, o.IsAnchor hubCap rank a p := by
  obtain ⟨e, he, hae⟩ := exists_family hubCap order ha
  obtain ⟨p, hp⟩ := exists_isOldest rank h he
  exact ⟨p, e.2, fun b ↦ mem_family he hae, hp⟩

theorem mem_rebuildPulseFamilies (h : o.rebuildPulseFamilies hubCap order = .ok rows) {row : FamilyRow} :
    row ∈ rows ↔ row.pulseId ∈ o.pulseIds ∧
      ∃ p, o.IsAnchor hubCap familyRank row.pulseId p ∧ row.familyId = familyIdForOldestPulse p := by
  rw [rebuildPulseFamilies_eq] at h
  obtain ⟨written, hw, hr⟩ := bind_eq_ok.mp h
  obtain rfl := Except.ok.inj hr
  rw [List.mem_flatten]
  constructor
  · intro ⟨r, hmem, hrow⟩
    obtain ⟨e, he, hr⟩ := mem_of_mem_mapM hw hmem
    obtain ⟨p, hold, rfl⟩ := (familyRows_eq_ok (family_ne_nil he)).mp hr
    obtain ⟨pid, hp, rfl⟩ := List.mem_map.mp hrow
    exact ⟨((mem_family he hp).mp hp).1, p, ⟨e.2, fun b ↦ mem_family he hp, hold⟩, rfl⟩
  · intro ⟨hp, p, hanchor, hfam⟩
    obtain ⟨e, he, hpe⟩ := exists_family hubCap order hp
    obtain ⟨r, hmem, hr⟩ := mem_of_mapM hw he
    obtain ⟨q, hold, rfl⟩ := (familyRows_eq_ok (family_ne_nil he)).mp hr
    have hpq : p = q := hanchor.unique (.refl _) ⟨e.2, fun b ↦ mem_family he hpe, hold⟩
    refine ⟨_, hmem, List.mem_map.mpr ⟨row.pulseId, hpe, ?_⟩⟩
    rw [← hpq, ← hfam]

theorem map_pulseId_written {items : List (Text × List Text)} {written : List (List FamilyRow)}
    (h : List.Forall₂ (fun e r ↦ o.familyRows e.2 = .ok r) items written) (hne : ∀ e ∈ items, e.2 ≠ []) :
    written.flatten.map FamilyRow.pulseId = items.flatMap Prod.snd := by
  induction h with
  | nil => rfl
  | @cons e r items written her _ ih =>
    obtain ⟨p, -, rfl⟩ := (familyRows_eq_ok (hne e (.head _))).mp her
    rw [List.flatten_cons, List.map_append, List.flatMap_cons, ih fun e he ↦ hne e (.tail _ he), List.map_map]
    simp [Function.comp_def]

theorem nodup_rebuildPulseFamilies (h : o.rebuildPulseFamilies hubCap order = .ok rows) :
    (rows.map FamilyRow.pulseId).Nodup := by
  rw [rebuildPulseFamilies_eq] at h
  obtain ⟨written, hw, hr⟩ := bind_eq_ok.mp h
  obtain rfl := Except.ok.inj hr
  rw [map_pulseId_written (mapM_eq_ok.mp hw) fun e he ↦ family_ne_nil he]
  exact o.nodup_families hubCap order

end

/-- The same tables, each with its rows in an order of its own. -/
structure Reordered (o' o : Otx) : Prop where
  pulses : o'.pulses.Perm o.pulses
  links : o'.links.Perm o.links
  cves : o'.cves.Perm o.cves
  iocs : o'.iocs.Perm o.iocs
  degree : o'.degree = o.degree

namespace Reordered

variable {o' : Otx}

theorem knownCves (h : Reordered o' o) : o'.knownCves = o.knownCves := by
  ext pid x
  simp only [Otx.knownCves, List.mem_toFinset, List.mem_map, List.mem_filter, h.links.mem_iff, h.cves.mem_iff]

theorem pulseRows (h : Reordered o' o) : o'.pulseRows.Perm o.pulseRows := by
  rw [Otx.pulseRows, Otx.pulseRows, h.knownCves]
  exact h.pulses.filter _

theorem mem_pulseIds (h : Reordered o' o) : pid ∈ o'.pulseIds ↔ pid ∈ o.pulseIds := (h.pulseRows.map _).mem_iff

theorem row? (h : Reordered o' o) : o'.row? = o.row? := by
  ext pid p
  rw [Otx.row?, Otx.row?, find?_pulseId o'.nodup_pulseIds, find?_pulseId o.nodup_pulseIds, h.pulseRows.mem_iff]

theorem createdMap (h : Reordered o' o) : o'.createdMap = o.createdMap := by
  funext pid
  rw [Otx.createdMap, Otx.createdMap, h.row?]

theorem cveSet (h : Reordered o' o) : o'.cveSet = o.cveSet := by
  ext pid x
  simp only [Otx.cveSet, List.mem_toFinset, List.mem_map, List.mem_filter, h.links.mem_iff]

theorem nonHubIocs (h : Reordered o' o) : o'.nonHubIocs hubCap = o.nonHubIocs hubCap := by
  ext pid x
  simp only [Otx.nonHubIocs, List.mem_toFinset, List.mem_map, List.mem_filter, h.iocs.mem_iff, h.degree]

theorem similarity [Interp] (h : Reordered o' o) : o'.similarity hubCap = o.similarity hubCap := by
  have hname : o'.nameMap = o.nameMap := by
    funext pid
    rw [Otx.nameMap, Otx.nameMap, h.row?]
  ext a b
  simp only [Otx.similarity, h.mem_pulseIds, h.nonHubIocs, h.cveSet, hname]

theorem isAnchor [Interp] [Iso] (h : Reordered o' o) {κ : Type} [LinearOrder κ] {rank : Option ℕ → κ} {p : Text} :
    o'.IsAnchor hubCap rank a p ↔ o.IsAnchor hubCap rank a p := by
  have hdated : o'.dated = o.dated := by
    funext pid
    rw [Otx.dated, Otx.dated, h.createdMap]
  simp only [IsAnchor, h.mem_pulseIds, h.similarity, hdated]

end Reordered

section
variable [Interp] [Iso] [Sha256]

variable (o hubCap order) in
/-- The rebuild writes one row for each pulse with two known CVEs, the families are the components of the graph, and
another order of the rows or of a set changes nothing. -/
def WritesComponents : Prop :=
  ∃ rows, o.rebuildPulseFamilies hubCap order = .ok rows ∧ (∀ r ∈ rows, r.pulseId ∈ o.pulseIds) ∧
    (∀ pid ∈ o.pulseIds, rows.countP (fun r ↦ r.pulseId = pid) = 1) ∧
    (∀ r ∈ rows, ∀ r' ∈ rows,
      r.familyId = r'.familyId ↔ (o.similarity hubCap).Reachable r.pulseId r'.pulseId) ∧
    ∀ o' order', Reordered o' o → ∃ rows', o'.rebuildPulseFamilies hubCap order' = .ok rows' ∧ rows'.Perm rows

theorem countP_rebuildPulseFamilies {rows : List FamilyRow} (h : o.rebuildPulseFamilies hubCap order = .ok rows)
    (hp : pid ∈ o.pulseIds) : rows.countP (fun r ↦ r.pulseId = pid) = 1 := by
  obtain ⟨p, hanchor⟩ := exists_isAnchor hubCap order familyRank (datesReadable_of_rebuild h) hp
  have hrow : ⟨pid, familyIdForOldestPulse p⟩ ∈ rows := (mem_rebuildPulseFamilies h).mpr ⟨hp, p, hanchor, rfl⟩
  have hcount : (rows.map FamilyRow.pulseId).count pid = 1 :=
    List.count_eq_one_of_mem (nodup_rebuildPulseFamilies h) (List.mem_map_of_mem hrow)
  rw [List.count, List.countP_map] at hcount
  rw [← hcount]
  apply List.countP_congr
  intro r _
  simp

theorem familyId_eq_iff (hd : Set.InjOn digest {pid | pid ∈ o.pulseIds}) {rows : List FamilyRow}
    (h : o.rebuildPulseFamilies hubCap order = .ok rows) {r r' : FamilyRow} (hr : r ∈ rows) (hr' : r' ∈ rows) :
    r.familyId = r'.familyId ↔ (o.similarity hubCap).Reachable r.pulseId r'.pulseId := by
  obtain ⟨-, p, hp, hfam⟩ := (mem_rebuildPulseFamilies h).mp hr
  obtain ⟨-, p', hp', hfam'⟩ := (mem_rebuildPulseFamilies h).mp hr'
  rw [hfam, hfam', familyIdForOldestPulse_inj hd hp.spec.1 hp'.spec.1]
  constructor
  · intro he
    exact hp.spec.2.trans (he ▸ hp'.spec.2.symm)
  · intro hreach
    exact IsAnchor.unique hreach hp hp'

theorem rebuildPulseFamilies_perm {o' : Otx} {order' : SetOrder} {rows : List FamilyRow} (hre : Reordered o' o)
    (h : o.rebuildPulseFamilies hubCap order = .ok rows) :
    ∃ rows', o'.rebuildPulseFamilies hubCap order' = .ok rows' ∧ rows'.Perm rows := by
  have hread : o'.DatesReadable := by
    intro pid hp
    rw [hre.createdMap]
    exact datesReadable_of_rebuild h pid (hre.mem_pulseIds.mp hp)
  obtain ⟨rows', h'⟩ := exists_rebuildPulseFamilies hubCap order' hread
  refine ⟨rows', h', ?_⟩
  rw [List.perm_ext_iff_of_nodup (.of_map _ (nodup_rebuildPulseFamilies h')) (.of_map _ (nodup_rebuildPulseFamilies h))]
  intro row
  rw [mem_rebuildPulseFamilies h', mem_rebuildPulseFamilies h]
  simp only [hre.mem_pulseIds, hre.isAnchor]

/-- The rebuild does all this exactly when it can read the dates. -/
theorem writesComponents_iff (o : Otx) (hubCap : ℤ) (order : SetOrder)
    (hd : Set.InjOn digest {pid | pid ∈ o.pulseIds}) : o.WritesComponents hubCap order ↔ o.DatesReadable := by
  constructor
  · intro ⟨rows, h, _⟩
    exact datesReadable_of_rebuild h
  · intro hread
    obtain ⟨rows, h⟩ := exists_rebuildPulseFamilies hubCap order hread
    refine ⟨rows, h, ?_, ?_, ?_, ?_⟩
    · intro r hr
      exact ((mem_rebuildPulseFamilies h).mp hr).1
    · intro pid hp
      exact countP_rebuildPulseFamilies h hp
    · intro r hr r' hr'
      exact familyId_eq_iff hd h hr hr'
    · intro o' order' hre
      exact rebuildPulseFamilies_perm hre h

end

/-- Two pulses of one title and the same two CVEs, the first with this date. -/
@[reducible] def twoPulses (createdDate : Text) : Otx where
  pulses := [⟨"p1".toList, "Storm | Part 1/2".toList, some createdDate⟩, ⟨"p2".toList, "Storm | Part 2/2".toList, none⟩]
  links := [("p1".toList, "A".toList), ("p1".toList, "B".toList), ("p2".toList, "A".toList), ("p2".toList, "B".toList)]
  cves := ["A".toList, "B".toList]
  iocs := []
  degree _ _ := none
  nodup := (by decide : (["p1".toList, "p2".toList] : List Text).Nodup)
  named := by simp

theorem pulseIds_twoPulses (createdDate : Text) : (twoPulses createdDate).pulseIds = ["p1".toList, "p2".toList] := rfl

theorem digests_twoPulses [Sha256] (h : digest "p1".toList ≠ digest "p2".toList) (createdDate : Text) :
    Set.InjOn digest {pid | pid ∈ (twoPulses createdDate).pulseIds} := by
  rw [pulseIds_twoPulses]
  intro a ha b hb hab
  simp only [Set.mem_ofPred_eq, List.mem_cons, List.not_mem_nil, or_false] at ha hb
  rcases ha with rfl | rfl <;> rcases hb with rfl | rfl
  · rfl
  · exact absurd hab h
  · exact absurd hab.symm h
  · rfl

section
local instance familyInterp : Interp := ascii fun _ ↦ none

local instance familyIso : Iso where
  fromIsoformat text :=
    if text = "0001-01-01T00:00:00+05:00".toList then some (-18000000000)
    else if text = "2026-01-02T03:04:05".toList then some 63902919845000000
    else none

local instance familySha256 : Sha256 where
  digest text := if text = "p1".toList then "f64551fcd6f0".toList else "3946ca64ff78".toList

def sortedOrder : SetOrder where
  iter _ s := s.sort (· ≤ ·)
  mem_iter _ _ _ := Finset.mem_sort _
  nodup _ s := s.sort_nodup _

theorem writesComponents_overflow :
    ¬(twoPulses "0001-01-01T00:00:00+05:00".toList).WritesComponents 50 sortedOrder := by
  intro ⟨rows, h, _⟩
  obtain ⟨d, hd⟩ := datesReadable_of_rebuild h "p1".toList (by decide)
  have herror : parseDt ((twoPulses "0001-01-01T00:00:00+05:00".toList).createdMap "p1".toList) = .error .overflowError := by
    decide
  rw [herror] at hd
  cases hd

theorem writesComponents_twoPulses :
    Set.InjOn digest {pid | pid ∈ (twoPulses "2026-01-02T03:04:05".toList).pulseIds} ∧
      (twoPulses "2026-01-02T03:04:05".toList).WritesComponents 50 sortedOrder := by
  have hd := digests_twoPulses (by decide) "2026-01-02T03:04:05".toList
  refine ⟨hd, (writesComponents_iff _ _ _ hd).mpr ?_⟩
  intro pid hp
  rw [pulseIds_twoPulses] at hp
  rcases List.mem_cons.mp hp with rfl | hp
  · exact ⟨some 63902919845000000, by decide⟩
  · obtain rfl := List.mem_singleton.mp hp
    exact ⟨none, by decide⟩

end

end Otx

end Briefr.Correlation
