import Briefr.Db.Cve

namespace Briefr.Db.Cve

open Briefr.Python Briefr.Feeds.CveRecordV5

theorem mem_sortedSet {l : List Text} {s : Text} : s ∈ sortedSet l ↔ s ∈ l := by
  rw [sortedSet, List.mem_insertionSort, List.mem_dedup]

theorem sortedSet_congr {l m : List Text} (h : ∀ s, s ∈ l ↔ s ∈ m) : sortedSet l = sortedSet m := by
  have hp : (sortedSet l).Perm (sortedSet m) := by
    refine (List.perm_insertionSort _ _).trans (List.Perm.trans ?_ (List.perm_insertionSort _ _).symm)
    rw [List.perm_ext_iff_of_nodup (List.nodup_dedup l) (List.nodup_dedup m)]
    intro s
    rw [List.mem_dedup, List.mem_dedup, h s]
  exact List.Perm.eq_of_sortedLE List.sortedLE_insertionSort List.sortedLE_insertionSort hp

theorem mem_nonEmpty {l : List Text} {s : Text} : s ∈ nonEmpty l ↔ s ∈ l ∧ s ≠ [] := by
  rw [nonEmpty, List.mem_filter]
  simp

/-- A union that adds nothing to a set is not written. -/
theorem mergedItems_eq_none {existing incoming : List Text} (h : ∀ s ∈ incoming, s ∈ existing) :
    mergedItems existing incoming = none := by
  have hs : sortedSet (existing ++ incoming) = sortedSet existing := by
    apply sortedSet_congr
    intro s
    rw [List.mem_append]
    exact ⟨fun hs ↦ hs.elim id (h s), .inl⟩
  rw [mergedItems, if_pos hs]

theorem mergedItems_eq_some {existing incoming l : List Text} (h : mergedItems existing incoming = some l) :
    l = sortedSet (existing ++ incoming) := by
  rw [mergedItems] at h
  split at h
  · cases h
  · exact (Option.some.inj h).symm

theorem filled_eq_none_of_filled [Interp] {existing incoming : Option Text} {s : Text}
    (h : filled existing incoming = some s) : filled (some s) incoming = none := by
  rw [filled] at h
  split at h
  · rename_i hf
    obtain rfl := Option.some.inj h
    rw [filled, if_neg]
    rintro ⟨hs, -⟩
    exact hf.2 (by rwa [Option.getD_some, strip_strip] at hs)
  · cases h

section
variable {Score : Type} [Interp] [Dumps] {existing : Row Score} {incoming : Incoming Score} {changes : Changes Score}

/-- The non-empty strings of a column that an update has written. -/
theorem storedItems_dumpStrs (l : List Text) : storedItems (some (dumpStrs (some l))) = .ok (nonEmpty l) := by
  have hl : ∀ l : List Text, ((l.map Value.str).filter Value.truthy).map str = nonEmpty l := by
    intro l
    induction l with
    | nil => rfl
    | cons s l ih =>
      rw [List.map_cons, nonEmpty, List.filter_cons, List.filter_cons, ← nonEmpty]
      have ht : (Value.str s).truthy = !s.isEmpty := rfl
      rw [ht]
      split
      · rw [List.map_cons, ih, str_str]
      · exact ih
  by_cases hd : dumps (.list (l.map .str)) = []
  · have hn := Dumps.dumps_blank _ (.inl hd)
    obtain rfl : l = [] := by simpa using hn
    rw [dumpStrs, hd]
    rfl
  · have hload := Dumps.loads_strs l
    rw [dumpStrs, storedItems, hload]
    · exact congrArg Except.ok (hl l)
    · exact hd

omit [Dumps] in
/-- What the columns of a row that is merged are read as, and what the merge says. -/
theorem merge_eq_ok : mergeAdditiveCveFields existing incoming = .ok changes ↔ ∃ cwes products,
    storedItems existing.cweIds = .ok cwes ∧ storedItems existing.affectedProducts = .ok products ∧
    changes = {
      cvssScore := if existing.cvssScore.isNone then incoming.cvssScore else none
      severity := mergedSeverity existing.severity incoming.severity
      description := filled existing.description incoming.description
      published := filled existing.published incoming.published
      modified := filled existing.modified incoming.modified
      cweIds := mergedItems (cwes.map upper) ((nonEmpty (incoming.cweIds.getD [])).map upper)
      affectedProducts := mergedItems products (nonEmpty (incoming.affectedProducts.getD [])) } := by
  simp only [mergeAdditiveCveFields, bind_eq_ok, pure_eq_ok, Except.ok.injEq]
  constructor
  · rintro ⟨cwes, hc, products, hp, rfl⟩
    exact ⟨cwes, products, hc, hp, rfl⟩
  · rintro ⟨cwes, products, hc, hp, rfl⟩
    exact ⟨cwes, hc, products, hp, rfl⟩

omit [Dumps] in
theorem severityOf_ne_nil (s : Option Text) : severityOf s ≠ [] := by
  intro h
  cases s with
  | none => exact absurd (Interp.upper_eq_nil _ h) (by decide)
  | some s =>
    have hs := Interp.upper_eq_nil _ h
    split at hs
    · exact absurd hs (by decide)
    · rename_i hn
      exact hn hs

omit [Dumps] in
@[simp] theorem severityOf_severityOf (s : Option Text) : severityOf (some (severityOf s)) = severityOf s := by
  rw [severityOf, if_neg (severityOf_ne_nil s)]
  cases s with
  | none => exact Interp.upper_idem _
  | some s => exact Interp.upper_idem _

/-- The severity is one that says something. -/
def Known (severity : Option Text) : Prop := severityOf severity ≠ unknown

/-- The severity of the record replaces that of the row. -/
def Raises (existing incoming : Option Text) : Prop :=
  Known incoming ∧ (Known existing → severityRank (severityOf existing) < severityRank (severityOf incoming))

omit [Dumps] in
theorem mergedSeverity_of_raises {old new : Option Text} (h : Raises old new) :
    mergedSeverity old new = some (severityOf new) := by
  rw [mergedSeverity, if_neg h.1]
  split
  · rfl
  · rename_i hk
    exact if_pos (h.2 fun he ↦ hk (.inr he))

omit [Dumps] in
theorem mergedSeverity_of_not_raises {old new : Option Text} (h : ¬Raises old new) : mergedSeverity old new = none := by
  rw [mergedSeverity]
  split
  · rfl
  · rename_i hn
    split
    · rename_i hk
      exact absurd ⟨hn, fun hold ↦ absurd (hk.resolve_left (severityOf_ne_nil old)) hold⟩ h
    · split
      · rename_i hr
        exact absurd ⟨hn, fun _ ↦ hr⟩ h
      · rfl

/-- A non-empty item of a JSON column. -/
def Holds (column : Option Text) (item : Text) : Prop :=
  ∃ items, storedItems column = .ok items ∧ item ∈ items ∧ item ≠ []

def NotBlank (column : Option Text) : Prop := strip (column.getD []) ≠ []

/-- What a row had is still in it. -/
structure NonDestructive (existing result : Row Score) : Prop where
  cweIds : ∀ cwe, Holds existing.cweIds cwe → ∃ kept, Holds result.cweIds kept ∧ upper kept = upper cwe
  affectedProducts : ∀ product, Holds existing.affectedProducts product → Holds result.affectedProducts product
  cvssScore : ∀ score, existing.cvssScore = some score → result.cvssScore = some score
  description : NotBlank existing.description → result.description = existing.description
  published : NotBlank existing.published → result.published = existing.published
  modified : NotBlank existing.modified → result.modified = existing.modified
  severity : severityRank (severityOf existing.severity) ≤ severityRank (severityOf result.severity)

/-- Score and severity are the row's, or the record's, or one of the two fills the half that the other has not. -/
def SingleSource (existing : Row Score) (incoming : Incoming Score) (result : Row Score) : Prop :=
  (result.cvssScore = existing.cvssScore ∧ severityOf result.severity = severityOf existing.severity) ∨
  (result.cvssScore = incoming.cvssScore ∧ severityOf result.severity = severityOf incoming.severity) ∨
  (result.cvssScore = incoming.cvssScore ∧ existing.cvssScore = none ∧
    severityOf result.severity = severityOf existing.severity ∧ ¬Known incoming.severity) ∨
  (result.cvssScore = existing.cvssScore ∧ incoming.cvssScore = none ∧
    severityOf result.severity = severityOf incoming.severity ∧ ¬Known existing.severity)

/-- The columns go by their own rules to different sources: a score stays while another severity is taken, or a score
is filled in beside a known severity that is not the record's. -/
def Mixed (existing : Row Score) (incoming : Incoming Score) : Prop :=
  (Raises existing.severity incoming.severity ∧ existing.cvssScore.isSome ∧
    incoming.cvssScore ≠ existing.cvssScore ∧ (incoming.cvssScore.isSome ∨ Known existing.severity)) ∨
  (¬Raises existing.severity incoming.severity ∧ existing.cvssScore = none ∧ incoming.cvssScore.isSome ∧
    Known incoming.severity ∧ severityOf incoming.severity ≠ severityOf existing.severity)

omit [Dumps] in
theorem raises_ne {old new : Option Text} (h : Raises old new) : severityOf new ≠ severityOf old := by
  intro he
  by_cases hold : Known old
  · exact absurd (h.2 hold) (by rw [he]; exact lt_irrefl _)
  · exact h.1 (he.trans (not_not.mp hold))

section
variable {now : Text}

theorem severity_of_raises (h : mergeAdditiveCveFields existing incoming = .ok changes)
    (hr : Raises existing.severity incoming.severity) :
    (additiveRow now changes existing).severity = some (severityOf incoming.severity) := by
  obtain ⟨_, _, -, -, rfl⟩ := merge_eq_ok.mp h
  rw [additiveRow]
  simp only [mergedSeverity_of_raises hr, Option.some_or]

theorem severity_of_not_raises (h : mergeAdditiveCveFields existing incoming = .ok changes)
    (hr : ¬Raises existing.severity incoming.severity) :
    (additiveRow now changes existing).severity = existing.severity := by
  obtain ⟨_, _, -, -, rfl⟩ := merge_eq_ok.mp h
  rw [additiveRow]
  simp only [mergedSeverity_of_not_raises hr, Option.none_or]

theorem cvssScore_after (h : mergeAdditiveCveFields existing incoming = .ok changes) :
    (additiveRow now changes existing).cvssScore = existing.cvssScore.or incoming.cvssScore := by
  obtain ⟨_, _, -, -, rfl⟩ := merge_eq_ok.mp h
  rw [additiveRow]
  cases existing.cvssScore <;> cases incoming.cvssScore <;> rfl

/-- The pair is from a single source exactly where the rules of the two columns do not part. -/
theorem singleSource_iff (h : mergeAdditiveCveFields existing incoming = .ok changes) :
    SingleSource existing incoming (additiveRow now changes existing) ↔ ¬Mixed existing incoming := by
  rw [SingleSource, cvssScore_after h, Mixed]
  by_cases hr : Raises existing.severity incoming.severity
  · have hne := raises_ne hr
    rw [severity_of_raises h hr, severityOf_severityOf]
    simp only [hr, hr.1, hne, true_and, not_true, false_and, and_false, false_or, or_false]
    cases existing.cvssScore <;> cases incoming.cvssScore <;> simp [eq_comm]
  · rw [severity_of_not_raises h hr]
    simp only [hr, false_and, not_false_iff, true_and, false_or, and_true]
    cases existing.cvssScore <;> cases incoming.cvssScore <;> simp [eq_comm]
    grind

/-- Every item of a union is stored by it. -/
theorem holds_union {column : Option Text} {items add l : List Text} {s : Text}
    (hm : mergedItems items add = some l) (hs : s ∈ items ∨ s ∈ add) (hn : s ≠ []) :
    Holds ((some l).map (fun l ↦ dumpStrs (some l)) |>.or column) s := by
  refine ⟨nonEmpty l, storedItems_dumpStrs l, ?_, hn⟩
  rw [mergedItems_eq_some hm, mem_nonEmpty, mem_sortedSet, List.mem_append]
  exact ⟨hs, hn⟩

theorem cweIds_kept (h : mergeAdditiveCveFields existing incoming = .ok changes) {cwe : Text}
    (hc : Holds existing.cweIds cwe) :
    ∃ kept, Holds (additiveRow now changes existing).cweIds kept ∧ upper kept = upper cwe := by
  obtain ⟨cwes, products, hcwes, -, rfl⟩ := merge_eq_ok.mp h
  obtain ⟨items, hitems, hmem, hne⟩ := hc
  obtain rfl := Except.ok.inj (hcwes.symm.trans hitems)
  rw [additiveRow]
  dsimp only
  cases hm : mergedItems (cwes.map upper) ((nonEmpty (incoming.cweIds.getD [])).map upper) with
  | none => exact ⟨cwe, ⟨cwes, hcwes, hmem, hne⟩, rfl⟩
  | some l =>
    refine ⟨upper cwe, holds_union hm (.inl (List.mem_map_of_mem hmem)) ?_, Interp.upper_idem cwe⟩
    exact fun hu ↦ hne (Interp.upper_eq_nil cwe hu)

theorem affectedProducts_kept (h : mergeAdditiveCveFields existing incoming = .ok changes) {product : Text}
    (hp : Holds existing.affectedProducts product) :
    Holds (additiveRow now changes existing).affectedProducts product := by
  obtain ⟨cwes, products, -, hproducts, rfl⟩ := merge_eq_ok.mp h
  obtain ⟨items, hitems, hmem, hne⟩ := hp
  obtain rfl := Except.ok.inj (hproducts.symm.trans hitems)
  rw [additiveRow]
  dsimp only
  cases hm : mergedItems products (nonEmpty (incoming.affectedProducts.getD [])) with
  | none => exact ⟨products, hproducts, hmem, hne⟩
  | some l => exact holds_union hm (.inl hmem) hne

omit [Dumps] in
theorem filled_of_notBlank {old new : Option Text} (h : NotBlank old) : filled old new = none := if_neg fun hb ↦ h hb.1

theorem severityRank_after (h : mergeAdditiveCveFields existing incoming = .ok changes) :
    severityRank (severityOf existing.severity) ≤ severityRank (severityOf (additiveRow now changes existing).severity) := by
  by_cases hr : Raises existing.severity incoming.severity
  · rw [severity_of_raises h hr, severityOf_severityOf]
    by_cases hk : Known existing.severity
    · exact (hr.2 hk).le
    · rw [not_not.mp hk]
      exact Nat.zero_le _
  · rw [severity_of_not_raises h hr]

theorem merge_nonDestructive (h : mergeAdditiveCveFields existing incoming = .ok changes) :
    NonDestructive existing (additiveRow now changes existing) where
  cweIds _ := cweIds_kept h
  affectedProducts _ := affectedProducts_kept h
  cvssScore score hs := by rw [cvssScore_after h, hs, Option.some_or]
  description hb := by
    obtain ⟨_, _, -, -, rfl⟩ := merge_eq_ok.mp h
    simp only [additiveRow, filled_of_notBlank hb, Option.none_or]
  published hb := by
    obtain ⟨_, _, -, -, rfl⟩ := merge_eq_ok.mp h
    simp only [additiveRow, filled_of_notBlank hb, Option.none_or]
  modified hb := by
    obtain ⟨_, _, -, -, rfl⟩ := merge_eq_ok.mp h
    simp only [additiveRow, filled_of_notBlank hb, Option.none_or]
  severity := severityRank_after h

/-- A column that took a union takes nothing more from the same record. -/
theorem items_again {column : Option Text} {items : List Text} {f : Text → Text} (add : List Text)
    (hf : ∀ s, f (f s) = f s) (hnil : ∀ s, f s = [] → s = []) (hitems : storedItems column = .ok items) :
    ∃ again, storedItems (((mergedItems (items.map f) ((nonEmpty add).map f)).map fun l ↦ dumpStrs (some l)).or column) =
      .ok again ∧ mergedItems (again.map f) ((nonEmpty add).map f) = none := by
  cases hm : mergedItems (items.map f) ((nonEmpty add).map f) with
  | none => exact ⟨items, hitems, hm⟩
  | some l =>
    refine ⟨nonEmpty l, storedItems_dumpStrs l, mergedItems_eq_none fun s hs ↦ ?_⟩
    obtain ⟨x, hx, rfl⟩ := List.mem_map.mp hs
    rw [List.mem_map]
    refine ⟨f x, mem_nonEmpty.mpr ⟨?_, fun h ↦ (mem_nonEmpty.mp hx).2 (hnil x h)⟩, hf x⟩
    rw [mergedItems_eq_some hm, mem_sortedSet, List.mem_append]
    exact .inr hs

omit [Dumps] in
theorem filled_again (old new : Option Text) : filled ((filled old new).or old) new = none := by
  cases hf : filled old new with
  | none => exact hf
  | some s => exact filled_eq_none_of_filled hf

theorem not_raises_after (h : mergeAdditiveCveFields existing incoming = .ok changes) :
    ¬Raises (additiveRow now changes existing).severity incoming.severity := by
  intro hr
  by_cases hfirst : Raises existing.severity incoming.severity
  · rw [severity_of_raises h hfirst] at hr
    exact raises_ne hr (severityOf_severityOf _).symm
  · rw [severity_of_not_raises h hfirst] at hr
    exact hfirst hr

theorem merge_again (h : mergeAdditiveCveFields existing incoming = .ok changes) :
    ∃ again, mergeAdditiveCveFields (additiveRow now changes existing) incoming = .ok again ∧ again.isEmpty = true := by
  obtain ⟨cwes, products, hcwes, hproducts, hch⟩ := merge_eq_ok.mp h
  obtain ⟨cwes', hc, hcnone⟩ := items_again (incoming.cweIds.getD []) Interp.upper_idem Interp.upper_eq_nil hcwes
  obtain ⟨products', hp, hpnone⟩ := items_again (f := id) (incoming.affectedProducts.getD []) (fun _ ↦ rfl)
    (fun _ hs ↦ hs) hproducts
  rw [List.map_id, List.map_id] at hp hpnone
  have hscore : (if (additiveRow now changes existing).cvssScore.isNone then incoming.cvssScore else none) = none := by
    rw [cvssScore_after h]
    cases existing.cvssScore <;> cases incoming.cvssScore <;> rfl
  have hseverity : mergedSeverity (additiveRow now changes existing).severity incoming.severity = none :=
    mergedSeverity_of_not_raises (not_raises_after h)
  subst hch
  refine ⟨_, merge_eq_ok.mpr ⟨cwes', products', hc, hp, rfl⟩, ?_⟩
  simp only [Changes.isEmpty, hscore, hseverity, hcnone, hpnone]
  simp only [additiveRow, filled_again]
  rfl

/-- A merge that returns is done once and for all, keeps what the row had, and takes score and severity from a single
source except exactly where the rules of the two columns part. -/
theorem merge_additive (h : mergeAdditiveCveFields existing incoming = .ok changes) :
    (∃ again, mergeAdditiveCveFields (additiveRow now changes existing) incoming = .ok again ∧ again.isEmpty = true) ∧
    NonDestructive existing (additiveRow now changes existing) ∧
    (SingleSource existing incoming (additiveRow now changes existing) ↔ ¬Mixed existing incoming) :=
  ⟨merge_again h, merge_nonDestructive h, singleSource_iff h⟩

end

end

section
local instance mergeInterp : Interp := asciiJson

local instance mergeDumps : Dumps := asciiDumps

/-- A row with a blank description, one CWE id in lower case, a score and a severity. -/
def scoredRow (cvssScore : Option ℕ) (severity : String) : Row ℕ where
  description := some "  ".toList
  cvssScore
  severity := some severity.toList
  published := none
  modified := none
  affectedProducts := some "[]".toList
  affectedProductsSource := some []
  cpeMatches := none
  mitreTechnique := none
  summary := none
  isKev := false
  epss := ⟨none, none⟩
  hasPoc := false
  patchAvailable := false
  hasAiContext := false
  sourceUrls := none
  cweIds := some "[]".toList
  updatedAt := []

def scoredRecord (cvssScore : Option ℕ) (severity : String) : Incoming ℕ :=
  { nvdRecord "CVE-2026-0001" cvssScore [] [] with
    severity := some severity.toList
    description := some "A flaw.".toList }

/-- A score of 7.5 stays beside the severity of a score of 9.8; the blank description is replaced. -/
theorem high_score_becomes_critical : ∃ changes,
    mergeAdditiveCveFields (scoredRow (some 7500000) "HIGH") (scoredRecord (some 9800000) "CRITICAL") = .ok changes ∧
    (additiveRow [] changes (scoredRow (some 7500000) "HIGH")).cvssScore = some 7500000 ∧
    (additiveRow [] changes (scoredRow (some 7500000) "HIGH")).severity = some "CRITICAL".toList ∧
    (additiveRow [] changes (scoredRow (some 7500000) "HIGH")).description = some "A flaw.".toList ∧
    ¬SingleSource (scoredRow (some 7500000) "HIGH") (scoredRecord (some 9800000) "CRITICAL")
      (additiveRow [] changes (scoredRow (some 7500000) "HIGH")) := by
  refine ⟨_, rfl, rfl, rfl, rfl, ?_⟩
  rintro (⟨-, h⟩ | ⟨h, -⟩ | ⟨h, -⟩ | ⟨-, h, -⟩)
  · exact absurd h (by decide)
  · exact absurd h (by decide)
  · exact absurd h (by decide)
  · cases h

theorem merge_additive_fills : ∃ changes,
    mergeAdditiveCveFields (scoredRow none "UNKNOWN") (scoredRecord (some 7800000) "HIGH") = .ok changes ∧
    ((∃ again, mergeAdditiveCveFields (additiveRow [] changes (scoredRow none "UNKNOWN"))
      (scoredRecord (some 7800000) "HIGH") = .ok again ∧ again.isEmpty = true) ∧
    NonDestructive (scoredRow none "UNKNOWN") (additiveRow [] changes (scoredRow none "UNKNOWN")) ∧
    (SingleSource (scoredRow none "UNKNOWN") (scoredRecord (some 7800000) "HIGH")
      (additiveRow [] changes (scoredRow none "UNKNOWN")) ↔
      ¬Mixed (scoredRow none "UNKNOWN") (scoredRecord (some 7800000) "HIGH"))) :=
  ⟨_, rfl, merge_additive rfl⟩

end

end Briefr.Db.Cve
