import Briefr.Library.Runs
import Briefr.Library.SqlTables

namespace Briefr.Library.Sql

open Briefr.Library.Runs

variable {τ γ ν : Type}

section Rows

variable (d : TableDef τ γ ν) (action : OnConflict γ)

/-- A local row that the merge of the rows seen has left alone. -/
def Stays (seen : List (Row γ ν)) (l : Row γ ν) : Prop :=
  action = .doNothing ∨ ∀ s ∈ seen, values d.primaryKey s ≠ values d.primaryKey l

/-- A row that a merge into the local rows writes. -/
def Lands (old : List (Row γ ν)) (s : Row γ ν) : Prop :=
  action ≠ .doNothing ∨ ∀ l ∈ old, values d.primaryKey l ≠ values d.primaryKey s

/-- What has become of the local rows by the time the rows seen are merged. -/
structure Merged (old seen rows : List (Row γ ν)) : Prop where
  source : ∀ r ∈ rows, (r ∈ old ∧ Stays d action seen r) ∨ ∃ s ∈ seen, Lands d action old s ∧ Agree d.columns r s
  stays : ∀ l ∈ old, Stays d action seen l → l ∈ rows
  lands : ∀ s ∈ seen, Lands d action old s → ∃ r ∈ rows, Agree d.columns r s

/-- No local row that is still there holds a unique key of the row that comes next. -/
def Fits (old seen : List (Row γ ν)) (s : Row γ ν) : Prop :=
  Lands d action old s → ∀ l ∈ old, Stays d action seen l → values d.primaryKey l ≠ values d.primaryKey s →
    ∀ cols ∈ d.uniques, ¬Clash cols l s

def AllFit (old rows : List (Row γ ν)) : Prop := Along (fun seen s ↦ seen ++ [s]) (Fits d action old) [] rows

variable {d action} {old seen rows : List (Row γ ν)} {s : Row γ ν}

theorem merged_nil : Merged d action old [] old where
  source := fun _ hr ↦ .inl ⟨hr, .inr fun _ h ↦ nomatch h⟩
  stays := fun _ hl _ ↦ hl
  lands := fun _ h ↦ nomatch h

theorem Stays.of_append {l : Row γ ν} (h : Stays d action (seen ++ [s]) l) : Stays d action seen l :=
  h.imp_right fun h s' hs' ↦ h s' (List.mem_append_left _ hs')

theorem Stays.append {l : Row γ ν} (h : Stays d action seen l) (hne : values d.primaryKey s ≠ values d.primaryKey l) :
    Stays d action (seen ++ [s]) l := by
  refine h.imp_right fun h s' hs' ↦ ?_
  rcases List.mem_append.mp hs' with hs' | hs'
  · exact h s' hs'
  · exact List.mem_singleton.mp hs' ▸ hne

/-- Until a key has been seen it is taken in the table if and only if a local row has it. -/
theorem Merged.taken_iff (h : Merged d action old seen rows)
    (hseen : ∀ s' ∈ seen, values d.primaryKey s' ≠ values d.primaryKey s) :
    (∃ r ∈ rows, values d.primaryKey r = values d.primaryKey s) ↔
      ∃ l ∈ old, values d.primaryKey l = values d.primaryKey s := by
  constructor
  · intro ⟨r, hr, hk⟩
    rcases h.source r hr with ⟨hl, _⟩ | ⟨s', hs', _, ha⟩
    · exact ⟨r, hl, hk⟩
    · exact absurd ((ha.values_eq d.primaryKey_subset).symm.trans hk) (hseen s' hs')
  · intro ⟨l, hl, hk⟩
    exact ⟨l, h.stays l hl (.inr fun s' hs' ↦ hk ▸ hseen s' hs'), hk⟩

theorem Merged.fits_iff [DecidableEq γ] (h : Merged d action old seen rows) (hs : d.Accepts s)
    (hseen : ∀ s' ∈ seen, ∀ cols ∈ d.keys, ¬Clash cols s' s) (hlands : Lands d action old s) :
    Fits d action old seen s ↔
      ∀ r ∈ rows, values d.primaryKey r ≠ values d.primaryKey s → ∀ cols ∈ d.keys, ¬Clash cols r s := by
  constructor
  · intro hf r hr hk cols hcols
    rcases h.source r hr with ⟨hl, hst⟩ | ⟨s', hs', _, ha⟩
    · rcases d.mem_keys hcols with rfl | hu
      · rwa [d.clash_primaryKey hs]
      · exact hf hlands r hl hst hk cols hu
    · rw [clash_congr_left (ha.values_eq (d.key_subset hcols))]
      exact hseen s' hs' cols hcols
  · intro hr _ l hl hst hk cols hcols
    exact hr l (h.stays l hl hst) hk cols (d.unique_mem_keys hcols)

/-- The row comes under a key that is taken, and `DO NOTHING` skips it. -/
theorem Merged.skip (h : Merged d .doNothing old seen rows)
    (ht : ∃ l ∈ old, values d.primaryKey l = values d.primaryKey s) : Merged d .doNothing old (seen ++ [s]) rows where
  source := by
    intro r hr
    refine (h.source r hr).imp (fun h ↦ ⟨h.1, .inl rfl⟩) fun ⟨s', hs', h⟩ ↦ ⟨s', List.mem_append_left _ hs', h⟩
  stays := fun l hl _ ↦ h.stays l hl (.inl rfl)
  lands := by
    intro s' hs' hlands
    rcases List.mem_append.mp hs' with hs' | hs'
    · exact h.lands s' hs' hlands
    · obtain rfl := List.mem_singleton.mp hs'
      obtain ⟨l, hl, hk⟩ := ht
      exact absurd hk (hlands.resolve_left (fun h ↦ h rfl) l hl)

/-- The row is written over the row that has its key, or added. -/
theorem Merged.write {f : Row γ ν → Row γ ν} {added : List (Row γ ν)} (h : Merged d action old seen rows)
    (hlands : Lands d action old s) (hseen : ∀ s' ∈ seen, values d.primaryKey s' ≠ values d.primaryKey s)
    (hf : ∀ r, values d.primaryKey r = values d.primaryKey s → Agree d.columns (f r) s)
    (hold : ∀ r, values d.primaryKey r ≠ values d.primaryKey s → f r = r)
    (hadded : ∀ r ∈ added, Agree d.columns r s) (hs : ∃ r ∈ rows.map f ++ added, Agree d.columns r s) :
    Merged d action old (seen ++ [s]) (rows.map f ++ added) where
  source := by
    intro r hr
    rcases List.mem_append.mp hr with hr | hr
    · obtain ⟨o, ho, rfl⟩ := List.mem_map.mp hr
      by_cases hk : values d.primaryKey o = values d.primaryKey s
      · exact .inr ⟨s, List.mem_append_right _ (.head _), hlands, hf o hk⟩
      · rw [hold o hk]
        refine (h.source o ho).imp (fun ⟨hl, hst⟩ ↦ ⟨hl, hst.append (Ne.symm hk)⟩) ?_
        intro ⟨s', hs', h⟩
        exact ⟨s', List.mem_append_left _ hs', h⟩
    · exact .inr ⟨s, List.mem_append_right _ (.head _), hlands, hadded r hr⟩
  stays := by
    intro l hl hst
    have hk : values d.primaryKey l ≠ values d.primaryKey s := by
      rcases hst with hn | hst
      · exact hlands.resolve_left (fun h ↦ h hn) l hl
      · exact (hst s (List.mem_append_right _ (.head _))).symm
    exact List.mem_append_left _ (List.mem_map.mpr ⟨l, h.stays l hl hst.of_append, hold l hk⟩)
  lands := by
    intro s' hs' hlands'
    rcases List.mem_append.mp hs' with hs' | hs'
    · obtain ⟨r, hr, ha⟩ := h.lands s' hs' hlands'
      have hk : values d.primaryKey r ≠ values d.primaryKey s := ha.values_eq d.primaryKey_subset ▸ hseen s' hs'
      exact ⟨r, List.mem_append_left _ (List.mem_map.mpr ⟨r, hr, hold r hk⟩), ha⟩
    · rwa [List.mem_singleton.mp hs']

/-- What the rows say in some of their columns after a merge. -/
theorem Merged.mem_values (h : Merged d action old seen rows) {sub : List γ} (hsub : sub ⊆ d.columns)
    {v : List (Option ν)} :
    v ∈ rows.map (values sub) ↔
      (∃ l ∈ old, Stays d action seen l ∧ values sub l = v) ∨ ∃ s ∈ seen, Lands d action old s ∧ values sub s = v := by
  constructor
  · intro hv
    obtain ⟨r, hr, rfl⟩ := List.mem_map.mp hv
    rcases h.source r hr with ⟨hl, hst⟩ | ⟨s, hs, hlands, ha⟩
    · exact .inl ⟨r, hl, hst, rfl⟩
    · exact .inr ⟨s, hs, hlands, (ha.values_eq hsub).symm⟩
  · rintro (⟨l, hl, hst, rfl⟩ | ⟨s, hs, hlands, rfl⟩)
    · exact List.mem_map_of_mem (h.stays l hl hst)
    · obtain ⟨r, hr, ha⟩ := h.lands s hs hlands
      exact List.mem_map.mpr ⟨r, hr, ha.values_eq hsub⟩

/-- Primary keys are neither lost nor made up. -/
theorem Merged.mem_primaryKeys (h : Merged d action old seen rows) {v : List (Option ν)} :
    v ∈ rows.map (values d.primaryKey) ↔
      v ∈ old.map (values d.primaryKey) ∨ v ∈ seen.map (values d.primaryKey) := by
  rw [h.mem_values d.primaryKey_subset, List.mem_map, List.mem_map]
  constructor
  · exact Or.imp (fun ⟨l, hl, _, hv⟩ ↦ ⟨l, hl, hv⟩) fun ⟨s, hs, _, hv⟩ ↦ ⟨s, hs, hv⟩
  · intro hv
    by_cases hold : ∃ l ∈ old, Stays d action seen l ∧ values d.primaryKey l = v
    · exact .inl hold
    · by_cases hseen : ∃ s ∈ seen, values d.primaryKey s = v
      · obtain ⟨s, hs, hk⟩ := hseen
        by_cases hlands : Lands d action old s
        · exact .inr ⟨s, hs, hlands, hk⟩
        · rw [Lands, not_or, not_ne_iff] at hlands
          obtain ⟨hn, hl⟩ := hlands
          push Not at hl
          obtain ⟨l, hl, hlk⟩ := hl
          exact .inl ⟨l, hl, .inl hn, hlk.trans hk⟩
      · obtain ⟨l, hl, hk⟩ := hv.resolve_right hseen
        exact .inl ⟨l, hl, .inr fun s hs hsk ↦ hseen ⟨s, hs, hsk.trans hk⟩, hk⟩

/-- Where the rows of one list hide those of another that have their keys, what is said is kept if and only if
each hidden row says what is said elsewhere. -/
theorem overlay_iff {α κ β : Type} {above under : List α} (key : α → κ) (say : α → β) :
    (∀ v, (v ∈ above.map say ∨ ∃ r ∈ under, key r ∉ above.map key ∧ say r = v) ↔ v ∈ above.map say ∨ v ∈ under.map say) ↔
      ∀ r ∈ under, key r ∈ above.map key →
        say r ∈ above.map say ∨ ∃ r' ∈ under, key r' ∉ above.map key ∧ say r' = say r := by
  constructor
  · intro hall r hr _
    exact (hall (say r)).mpr (.inr (List.mem_map_of_mem hr))
  · intro h v
    refine or_congr_right' fun hv ↦ ⟨fun ⟨r, hr, _, he⟩ ↦ List.mem_map.mpr ⟨r, hr, he⟩, fun hm ↦ ?_⟩
    obtain ⟨r, hr, rfl⟩ := List.mem_map.mp hm
    by_cases hk : key r ∈ above.map key
    · exact (h r hr hk).resolve_left hv
    · exact ⟨r, hr, hk, rfl⟩

/-- Under `DO NOTHING` a row is lost if its key is taken, unless what it says is there anyway. -/
theorem Merged.keeps_iff_of_doNothing (h : Merged d .doNothing old seen rows) {sub : List γ} (hsub : sub ⊆ d.columns) :
    (∀ v, v ∈ rows.map (values sub) ↔ v ∈ old.map (values sub) ∨ v ∈ seen.map (values sub)) ↔
      ∀ s ∈ seen, values d.primaryKey s ∈ old.map (values d.primaryKey) → values sub s ∈ old.map (values sub) ∨
        ∃ s' ∈ seen, values d.primaryKey s' ∉ old.map (values d.primaryKey) ∧ values sub s' = values sub s := by
  rw [← overlay_iff]
  refine forall_congr' fun v ↦ iff_congr ?_ Iff.rfl
  rw [h.mem_values hsub, List.mem_map]
  refine or_congr (exists_congr fun l ↦ ?_) (exists_congr fun s ↦ ?_)
  · exact and_congr_right fun _ ↦ and_iff_right (.inl rfl)
  · rw [Lands, or_iff_right (fun h ↦ h rfl), List.mem_map]
    push Not
    rfl

/-- Under `DO UPDATE` a row is lost if another comes under its key. -/
theorem Merged.keeps_iff_of_doUpdate (h : Merged d action old seen rows) (hact : action ≠ .doNothing) {sub : List γ}
    (hsub : sub ⊆ d.columns) :
    (∀ v, v ∈ rows.map (values sub) ↔ v ∈ old.map (values sub) ∨ v ∈ seen.map (values sub)) ↔
      ∀ l ∈ old, values d.primaryKey l ∈ seen.map (values d.primaryKey) → values sub l ∈ seen.map (values sub) ∨
        ∃ l' ∈ old, values d.primaryKey l' ∉ seen.map (values d.primaryKey) ∧ values sub l' = values sub l := by
  rw [← overlay_iff]
  refine forall_congr' fun v ↦ iff_congr ?_ or_comm
  rw [h.mem_values hsub, or_comm, List.mem_map]
  refine or_congr (exists_congr fun s ↦ ?_) (exists_congr fun l ↦ ?_)
  · exact and_congr_right fun _ ↦ and_iff_right (.inl hact)
  · rw [Stays, or_iff_right hact, List.mem_map]
    push Not
    rfl

theorem run_concat (seen rows : List (Row γ ν)) : run (fun seen s ↦ seen ++ [s]) seen rows = seen ++ rows := by
  induction rows generalizing seen with
  | nil => simp
  | cons s rows ih => rw [run_cons, ih, List.append_assoc, List.singleton_append]

theorem allFit_iff : AllFit d action old rows ↔ ∀ seen s, seen ++ [s] <+: rows → Fits d action old seen s := by
  rw [AllFit, along_iff_each]
  simp only [run_concat, List.nil_append]

end Rows

variable [DecidableEq γ]

def TableDef.others (d : TableDef τ γ ν) : List γ := d.columns.filter (· ∉ d.primaryKey)

theorem agree_overwrite {d : TableDef τ γ ν} {r new s : Row γ ν} (hnew : Agree d.columns new s)
    (hk : values d.primaryKey r = values d.primaryKey s) : Agree d.columns (overwrite d.others r new) s := by
  intro c hc
  rw [overwrite]
  split
  · exact hnew c hc
  · next hn =>
    have hpk : c ∈ d.primaryKey := by
      by_contra h
      exact hn (List.mem_filter.mpr ⟨hc, by simpa using h⟩)
    exact agree_of_values_eq hk c hpk

theorem overwrite_self {d : TableDef τ γ ν} {r new : Row γ ν} (h : Agree d.columns r new) :
    overwrite d.others r new = r := by
  funext c
  rw [overwrite]
  split
  · next hc => exact (h c (List.mem_filter.mp hc).1).symm
  · rfl

namespace Table

variable [DecidableEq ν] {t : Table τ γ ν} {s new : Row γ ν}

theorem put_self (t : Table τ γ ν) : t.put t.rows = .ok t := put_eq_ok.mpr ⟨rfl, rfl⟩

theorem put_isOk {rows : List (Row γ ν)} (ha : ∀ r ∈ rows, t.decl.Accepts r) :
    (∃ t', t.put rows = .ok t') ↔ Distinct t.decl.keys rows := by
  rw [put, dif_pos ha]
  split
  · next h => exact iff_of_true ⟨_, rfl⟩ h
  · next h =>
      refine iff_of_false ?_ h
      rintro ⟨_, hput⟩
      cases hput

theorem put_append_isOk (ha : t.decl.Accepts new) :
    (∃ t', t.put (t.rows ++ [new]) = .ok t') ↔ ∀ r ∈ t.rows, ∀ cols ∈ t.decl.keys, ¬Clash cols r new := by
  have hall : ∀ r ∈ t.rows ++ [new], t.decl.Accepts r := by
    intro r hr
    rcases List.mem_append.mp hr with hr | hr
    · exact t.accepted r hr
    · exact List.mem_singleton.mp hr ▸ ha
  rw [put_isOk hall]
  constructor
  · intro h r hr cols hcols
    exact (List.pairwise_append.mp (h cols hcols)).2.2 r hr new (.head _)
  · intro h cols hcols
    refine List.pairwise_append.mpr ⟨t.distinct cols hcols, List.pairwise_singleton _ _, ?_⟩
    intro r hr n hn
    exact List.mem_singleton.mp hn ▸ h r hr cols hcols

/-- Replacing the row of one primary key is fine as long as the new row clashes with no other. -/
theorem put_replace_isOk {f : Row γ ν → Row γ ν} (hpk : t.decl.primaryKey ≠ []) (hs : t.decl.Accepts s)
    (hf : ∀ r, values t.decl.primaryKey r = values t.decl.primaryKey s → Agree t.decl.columns (f r) s)
    (hold : ∀ r, values t.decl.primaryKey r ≠ values t.decl.primaryKey s → f r = r)
    (htaken : ∃ r ∈ t.rows, values t.decl.primaryKey r = values t.decl.primaryKey s) :
    (∃ t', t.put (t.rows.map f) = .ok t') ↔
      ∀ r ∈ t.rows, values t.decl.primaryKey r ≠ values t.decl.primaryKey s → ∀ cols ∈ t.decl.keys, ¬Clash cols r s := by
  have hall : ∀ r ∈ t.rows.map f, t.decl.Accepts r := by
    intro r hr
    obtain ⟨o, ho, rfl⟩ := List.mem_map.mp hr
    by_cases hk : values t.decl.primaryKey o = values t.decl.primaryKey s
    · exact (TableDef.accepts_congr (hf o hk)).mpr hs
    · rw [hold o hk]
      exact t.accepted o ho
  rw [put_isOk hall]
  constructor
  · intro h r hr hk cols hcols hc
    obtain ⟨o, ho, hok⟩ := htaken
    have hsymm : Std.Symm fun a b ↦ ¬Clash cols (f a) (f b) := ⟨fun _ _ h h' ↦ h h'.symm⟩
    have hne : r ≠ o := fun he ↦ hk (he ▸ hok)
    have hp : t.rows.Pairwise fun a b ↦ ¬Clash cols (f a) (f b) := List.pairwise_map.mp (h cols hcols)
    apply hp.forall hr ho hne
    rw [hold r hk]
    exact (clash_congr_right ((hf o hok).values_eq (t.decl.key_subset hcols)) r).mpr hc
  · intro h cols hcols
    have hkeys := t.distinct _ (TableDef.primaryKey_mem_keys hpk)
    refine List.pairwise_map.mpr (((t.distinct cols hcols).and hkeys).imp_of_mem ?_)
    intro a b ha hb ⟨hab, hne⟩
    have hvalues := fun r hr ↦ (hf r hr).values_eq (t.decl.key_subset hcols)
    by_cases hka : values t.decl.primaryKey a = values t.decl.primaryKey s <;>
      by_cases hkb : values t.decl.primaryKey b = values t.decl.primaryKey s
    · exact absurd ((TableDef.clash_primaryKey (t.accepted b hb)).mpr (hka.trans hkb.symm)) hne
    · rw [hold b hkb, clash_congr_left (hvalues a hka), clash_comm]
      exact h b hb hkb cols hcols
    · rw [hold a hka, clash_congr_right (hvalues b hkb)]
      exact h a ha hka cols hcols
    · rwa [hold a hka, hold b hkb]

section Step

variable (t s) in
/-- The row proposed for a row of a table with the same columns. -/
abbrev propose : Row γ ν := proposed t.decl.columns t.decl.default s

variable (t s) in
def replaceWith (set : List γ) (r : Row γ ν) : Row γ ν :=
  if values t.decl.primaryKey r = values t.decl.primaryKey s then overwrite set r (t.propose s) else r

omit [DecidableEq ν] in
theorem agree_propose : Agree t.decl.columns (t.propose s) s := agree_proposed _ _ _

omit [DecidableEq ν] in
theorem accepts_propose (hs : t.decl.Accepts s) : t.decl.Accepts (t.propose s) :=
  (TableDef.accepts_congr agree_propose).mpr hs

omit [DecidableEq ν] in
theorem clash_propose {cols : List γ} (hcols : cols ∈ t.decl.keys) {r : Row γ ν} :
    Clash cols r (t.propose s) ↔ Clash cols r s :=
  clash_congr_right (agree_propose.values_eq (t.decl.key_subset hcols)) r

omit [DecidableEq ν] in
theorem clash_key_propose (hs : t.decl.Accepts s) {r : Row γ ν} :
    Clash t.decl.primaryKey r (t.propose s) ↔ values t.decl.primaryKey r = values t.decl.primaryKey s := by
  rw [t.decl.clash_primaryKey (accepts_propose hs), agree_propose.values_eq t.decl.primaryKey_subset]

theorem upsertRow_taken (hs : t.decl.Accepts s) (action : OnConflict γ)
    (ht : ∃ r ∈ t.rows, values t.decl.primaryKey r = values t.decl.primaryKey s) :
    t.upsertRow t.decl.columns t.decl.primaryKey action s =
      match action with
      | .doNothing => .ok (t, 0)
      | .doUpdate set => (t.put (t.rows.map (t.replaceWith s set))).map (·, 1) := by
  have hc : ∃ r ∈ t.rows, Clash t.decl.primaryKey r (t.propose s) := by simpa only [clash_key_propose hs] using ht
  have hmap : ∀ set, (fun r ↦ if Clash t.decl.primaryKey r (t.propose s) then overwrite set r (t.propose s) else r) =
      t.replaceWith s set := by
    intro set
    funext r
    rw [replaceWith]
    simp only [clash_key_propose hs]
  simp only [upsertRow]
  rw [if_pos (accepts_propose hs), if_pos hc]
  cases action with
  | doNothing => rfl
  | doUpdate set => exact congrArg (fun f ↦ (t.put (t.rows.map f)).map (·, 1)) (hmap set)

theorem upsertRow_free (hs : t.decl.Accepts s) (action : OnConflict γ)
    (hn : ¬∃ r ∈ t.rows, values t.decl.primaryKey r = values t.decl.primaryKey s) :
    t.upsertRow t.decl.columns t.decl.primaryKey action s = (t.put (t.rows ++ [t.propose s])).map (·, 1) := by
  have hc : ¬∃ r ∈ t.rows, Clash t.decl.primaryKey r (t.propose s) := by simpa only [clash_key_propose hs] using hn
  simp only [upsertRow]
  rw [if_pos (accepts_propose hs), if_neg hc]

theorem agree_replaceWith {r : Row γ ν} (h : values t.decl.primaryKey r = values t.decl.primaryKey s) :
    Agree t.decl.columns (t.replaceWith s t.decl.others r) s := by
  rw [replaceWith, if_pos h]
  exact agree_overwrite agree_propose h

theorem replaceWith_of_ne {set : List γ} {r : Row γ ν} (h : values t.decl.primaryKey r ≠ values t.decl.primaryKey s) :
    t.replaceWith s set r = r := if_neg h

variable {action : OnConflict γ} {old seen : List (Row γ ν)}

/-- A statement succeeds if and only if its rows fit, and has merged them then. -/
def Outcome (d : TableDef τ γ ν) (action : OnConflict γ) (old seen : List (Row γ ν)) (fits : Prop) :
    Except SqlError (Table τ γ ν × ℕ) → Prop
  | .ok p => fits ∧ p.1.decl = d ∧ Merged d action old seen p.1.rows
  | .error _ => ¬fits

theorem outcome_put {rows : List (Row γ ν)} {fits : Prop} (hfits : fits ↔ ∃ t', t.put rows = .ok t')
    (hm : Merged t.decl action old seen rows) :
    Outcome t.decl action old seen fits ((t.put rows).map (·, 1)) := by
  cases hp : t.put rows with
  | ok t' =>
    obtain ⟨hd, rfl⟩ := put_eq_ok.mp hp
    exact ⟨hfits.mpr ⟨t', hp⟩, hd, hm⟩
  | error e =>
    intro hf
    obtain ⟨t', h⟩ := hfits.mp hf
    exact absurd (hp.symm.trans h) nofun

theorem upsertRow_outcome (hpk : t.decl.primaryKey ≠ [])
    (hact : action = .doNothing ∨ action = .doUpdate t.decl.others) (hs : t.decl.Accepts s)
    (hseen : ∀ s' ∈ seen, ∀ cols ∈ t.decl.keys, ¬Clash cols s' s) (h : Merged t.decl action old seen t.rows) :
    Outcome t.decl action old (seen ++ [s]) (Fits t.decl action old seen s)
      (t.upsertRow t.decl.columns t.decl.primaryKey action s) := by
  have hkeys : ∀ s' ∈ seen, values t.decl.primaryKey s' ≠ values t.decl.primaryKey s := by
    intro s' hs' hk
    exact hseen s' hs' _ (TableDef.primaryKey_mem_keys hpk) ((TableDef.clash_primaryKey hs).mpr hk)
  by_cases ht : ∃ r ∈ t.rows, values t.decl.primaryKey r = values t.decl.primaryKey s
  · have htold := (h.taken_iff hkeys).mp ht
    rw [upsertRow_taken hs action ht]
    rcases hact with rfl | rfl
    · refine ⟨fun hlands ↦ ?_, rfl, h.skip htold⟩
      obtain ⟨l, hl, hk⟩ := htold
      exact absurd hk (hlands.resolve_left (fun h ↦ h rfl) l hl)
    · have hlands : Lands t.decl (.doUpdate t.decl.others) old s := .inl nofun
      have hf : ∀ r, values t.decl.primaryKey r = values t.decl.primaryKey s →
          Agree t.decl.columns (t.replaceWith s t.decl.others r) s := fun _ ↦ agree_replaceWith
      have hold : ∀ r, values t.decl.primaryKey r ≠ values t.decl.primaryKey s →
          t.replaceWith s t.decl.others r = r := fun _ ↦ replaceWith_of_ne
      refine outcome_put ?_ ?_
      · rw [h.fits_iff hs hseen hlands, put_replace_isOk hpk hs hf hold ht]
      · obtain ⟨r, hr, hk⟩ := ht
        have hm := h.write hlands hkeys hf hold (List.forall_mem_nil _)
          ⟨_, List.mem_append_left [] (List.mem_map_of_mem hr), agree_replaceWith hk⟩
        rwa [List.append_nil] at hm
  · have hnew : ∀ r ∈ t.rows, values t.decl.primaryKey r ≠ values t.decl.primaryKey s := fun r hr hk ↦ ht ⟨r, hr, hk⟩
    have hlands : Lands t.decl action old s := .inr fun l hl hk ↦ ht ((h.taken_iff hkeys).mpr ⟨l, hl, hk⟩)
    rw [upsertRow_free hs action ht]
    refine outcome_put ?_ ?_
    · rw [h.fits_iff hs hseen hlands, put_append_isOk (accepts_propose hs)]
      refine forall₂_congr fun r hr ↦ ?_
      rw [forall_prop_of_true (hnew r hr)]
      exact forall₂_congr fun cols hcols ↦ not_congr (clash_propose hcols).symm
    · have hadded : ∀ r ∈ [t.propose s], Agree t.decl.columns r s := by
        intro r hr
        exact List.mem_singleton.mp hr ▸ agree_propose
      have hid : t.rows.map (t.replaceWith s t.decl.others) = t.rows :=
        List.map_congr_left (fun r hr ↦ replaceWith_of_ne (hnew r hr)) |>.trans (List.map_id t.rows)
      have hm := h.write hlands hkeys (fun _ ↦ agree_replaceWith) (fun _ ↦ replaceWith_of_ne) hadded
        ⟨t.propose s, List.mem_append_right _ (.head _), agree_propose⟩
      rwa [hid] at hm

/-- The rows that are still to come clash neither with each other nor with those seen. -/
theorem insertRows_outcome {d : TableDef τ γ ν} (hpk : d.primaryKey ≠ [])
    (hact : action = .doNothing ∨ action = .doUpdate d.others) (rest : List (Row γ ν)) (n : ℕ) (hd : t.decl = d)
    (hacc : ∀ s ∈ rest, d.Accepts s) (hdist : Distinct d.keys (seen ++ rest)) (h : Merged d action old seen t.rows) :
    Outcome d action old (seen ++ rest) (Along (fun seen s ↦ seen ++ [s]) (Fits d action old) seen rest)
      (insertRows d.columns d.primaryKey action rest (t, n)) := by
  induction rest generalizing t seen n with
  | nil =>
    rw [List.append_nil]
    exact ⟨trivial, hd, h⟩
  | cons s rest ih =>
    subst hd
    have hseen : ∀ s' ∈ seen, ∀ cols ∈ t.decl.keys, ¬Clash cols s' s := by
      intro s' hs' cols hcols
      exact (List.pairwise_append.mp (hdist cols hcols)).2.2 s' hs' s (.head _)
    have hstep := upsertRow_outcome hpk hact (hacc s (.head _)) hseen h
    rw [insertRows]
    cases hr : t.upsertRow t.decl.columns t.decl.primaryKey action s with
    | error e =>
      rw [hr] at hstep
      exact fun hall ↦ hstep hall.1
    | ok p =>
      rw [hr] at hstep
      obtain ⟨hfits, hd, hm⟩ := hstep
      have hsplit : seen ++ s :: rest = (seen ++ [s]) ++ rest := by simp
      have hrest := ih (n + p.2) hd (fun s hs ↦ hacc s (.tail _ hs)) (hsplit ▸ hdist) hm
      rw [Along, and_iff_right hfits, hsplit]
      exact hrest

theorem insertRows_again {d : TableDef τ γ ν} (rest : List (Row γ ν)) (n : ℕ) (hd : t.decl = d)
    (hact : action = .doNothing ∨ action = .doUpdate d.others) (hacc : ∀ s ∈ rest, d.Accepts s)
    (htaken : ∀ s ∈ rest, ∃ r ∈ t.rows, values d.primaryKey r = values d.primaryKey s)
    (hsame : action ≠ .doNothing → ∀ s ∈ rest, ∀ r ∈ t.rows, values d.primaryKey r = values d.primaryKey s →
      Agree d.columns r s) :
    ∃ n', insertRows d.columns d.primaryKey action rest (t, n) = .ok (t, n') := by
  subst hd
  induction rest generalizing n with
  | nil => exact ⟨n, rfl⟩
  | cons s rest ih =>
    have hs := hacc s (.head _)
    have ih := fun n ↦ ih n (fun s hs ↦ hacc s (.tail _ hs)) (fun s hs ↦ htaken s (.tail _ hs))
      (fun h s hs ↦ hsame h s (.tail _ hs))
    rw [insertRows, upsertRow_taken hs action (htaken s (.head _))]
    rcases hact with rfl | rfl
    · exact ih n
    · have hid : t.rows.map (t.replaceWith s t.decl.others) = t.rows := by
        refine List.map_congr_left (fun r hr ↦ ?_) |>.trans (List.map_id t.rows)
        rw [replaceWith]
        split
        · next hk =>
          have hrs := hsame nofun s (.head _) r hr hk
          exact overwrite_self fun c hc ↦ (hrs c hc).trans (agree_propose c hc).symm
        · rfl
      simp only [hid, put_self]
      exact ih (n + 1)

end Step

section Select

variable {S t' : Table τ γ ν} {action : OnConflict γ}

/-- The rows of a table that declares the same are merged if they all fit. -/
theorem insertSelect_outcome (hd : S.decl = t.decl) (hpk : t.decl.primaryKey ≠ [])
    (hact : action = .doNothing ∨ action = .doUpdate t.decl.others) :
    Outcome t.decl action t.rows S.rows (AllFit t.decl action t.rows S.rows)
      (t.insertSelect t.decl.columns t.decl.primaryKey action S.rows) := by
  have hkey : ∃ key ∈ t.decl.keys, key ⊆ t.decl.primaryKey ∧ t.decl.primaryKey ⊆ key :=
    ⟨_, TableDef.primaryKey_mem_keys hpk, List.Subset.refl _, List.Subset.refl _⟩
  rw [insertSelect, if_pos (List.Subset.refl _), if_pos hkey]
  exact insertRows_outcome hpk hact S.rows 0 rfl (hd ▸ S.accepted) (hd ▸ S.distinct) merged_nil

theorem insertSelect_again (hd : S.decl = t.decl) (hpk : t.decl.primaryKey ≠ [])
    (hact : action = .doNothing ∨ action = .doUpdate t.decl.others) (hd' : t'.decl = t.decl)
    (hm : Merged t.decl action t.rows S.rows t'.rows) :
    ∃ n, t'.insertSelect t.decl.columns t.decl.primaryKey action S.rows = .ok (t', n) := by
  have hkey : ∃ key ∈ t'.decl.keys, key ⊆ t.decl.primaryKey ∧ t.decl.primaryKey ⊆ key := by
    rw [hd']
    exact ⟨_, TableDef.primaryKey_mem_keys hpk, List.Subset.refl _, List.Subset.refl _⟩
  have hacc : ∀ s ∈ S.rows, t.decl.Accepts s := hd ▸ S.accepted
  rw [insertSelect, if_pos (hd' ▸ List.Subset.refl _), if_pos hkey]
  refine insertRows_again S.rows 0 hd' hact hacc ?_ ?_
  · intro s hs
    by_cases hlands : Lands t.decl action t.rows s
    · obtain ⟨r, hr, ha⟩ := hm.lands s hs hlands
      exact ⟨r, hr, ha.values_eq t.decl.primaryKey_subset⟩
    · rw [Lands, not_or, not_ne_iff] at hlands
      obtain ⟨hn, hl⟩ := hlands
      push Not at hl
      obtain ⟨l, hl, hk⟩ := hl
      exact ⟨l, hm.stays l hl (.inl hn), hk⟩
  · intro hne s hs r hr hk
    rcases hm.source r hr with ⟨_, hst⟩ | ⟨s', hs', _, ha⟩
    · exact absurd hk.symm (hst.resolve_left hne s hs)
    · have hkey : values t.decl.primaryKey s' = values t.decl.primaryKey s :=
        (ha.values_eq t.decl.primaryKey_subset).symm.trans hk
      have hmem : t.decl.primaryKey ∈ S.decl.keys := by
        rw [hd]
        exact TableDef.primaryKey_mem_keys hpk
      obtain rfl := eq_of_key hmem hs' hs ((TableDef.clash_primaryKey (hacc s hs)).mpr hkey)
      exact ha

end Select

end Table

end Briefr.Library.Sql
