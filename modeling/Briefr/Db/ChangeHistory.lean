import Briefr.Db.Cve

namespace Briefr.Db.ChangeHistory

open Briefr.Python Briefr.Library.Runs Briefr.Db.Cve Briefr.Feeds.Epss Briefr.Feeds.CveRecordV5
open Briefr.Scheduler.EpssSync

inductive Tracked (Score : Type)
  | score (x : Option Score)
  | flag (b : Bool)

section
variable {Score : Type}

/-- The tracked value of a field before a CVE has a row. -/
def unset : Field → Tracked Score
  | .cvssScore => .score none
  | .epssScore => .score none
  | .isKev => .flag false
  | .hasPoc => .flag false
  | .patchAvailable => .flag false

def rowValue (r : Row Score) : Field → Tracked Score
  | .cvssScore => .score r.cvssScore
  | .epssScore => .score r.epss.score
  | .isKev => .flag r.isKev
  | .hasPoc => .flag r.hasPoc
  | .patchAvailable => .flag r.patchAvailable

def value (old : Option (Row Score)) (f : Field) : Tracked Score := old.elim (unset f) fun r ↦ rowValue r f

/-- The history of one field of one CVE. -/
def changesOf (cveId : Text) (f : Field) (history : List Change) : List Change :=
  (history.filter fun ch ↦ decide (ch.cveId = cveId)).filter fun ch ↦ decide (ch.fieldName = f)

variable [Tracking Score]

/-- `_change_value_str`. -/
def render : Tracked Score → Text
  | .score x => changeValueStr x
  | .flag b => if b then "1".toList else "0".toList

/-- A writer sees no difference between the values: CVSS scores within the tolerance, EPSS scores that
show the same percentage. -/
inductive Alike : Field → Tracked Score → Tracked Score → Prop
  | cvss {x y : Option Score} : valuesDiffer x y = false → Alike .cvssScore (.score x) (.score y)
  | epss {x y : Option Score} : epssScoresDiffer x y = false → Alike .epssScore (.score x) (.score y)

/-- One write after another, without a difference to record. -/
def Unseen (f : Field) : Tracked Score → Tracked Score → Prop := Relation.ReflTransGen (Alike f)

/-- The history leads from one value to the other. -/
def Linked (f : Field) : Tracked Score → List Change → Tracked Score → Prop
  | v, [], w => Unseen f v w
  | v, ch :: rest, w => ∃ a b, Unseen f v a ∧ ch.oldValue = render a ∧ ch.newValue = render b ∧ Linked f b rest w

/-- Each old value is the new value before it, and the last new value is the one given. -/
def Chain : List Change → Text → Prop
  | [], _ => True
  | [ch], v => ch.newValue = v
  | ch :: ch' :: rest, v => ch'.oldValue = ch.newValue ∧ Chain (ch' :: rest) v

/-- The history of a field leads to the stored value, from no value at all or, for EPSS, from the score
that came with the row. -/
def Faithful (cveId : Text) (f : Field) (db : Store Score) : Prop :=
  ∃ v, (f ≠ .epssScore → v = unset f) ∧ Linked f v (changesOf cveId f db.history) (value (db.rows cveId) f)

theorem Unseen.refl (f : Field) (v : Tracked Score) : Unseen f v v := Relation.ReflTransGen.refl

theorem Unseen.eq_of_flag {f : Field} {v w : Tracked Score} (h : Unseen f v w) (hc : f ≠ .cvssScore)
    (he : f ≠ .epssScore) : v = w := by
  induction h with
  | refl => rfl
  | tail _ hs _ =>
    cases hs with
    | cvss _ => exact absurd rfl hc
    | epss _ => exact absurd rfl he

theorem Unseen.epss {x : Option Score} {w : Tracked Score} (h : Unseen .epssScore (.score x) w) :
    ∃ y, w = .score y ∧
      epssDisplayPercent (normalizeEpssScore x) = epssDisplayPercent (normalizeEpssScore y) := by
  induction h with
  | refl => exact ⟨x, rfl, rfl⟩
  | tail _ hs ih =>
    obtain ⟨y, rfl, hy⟩ := ih
    cases hs with
    | epss hd =>
      rw [epssScoresDiffer, Bool.not_eq_false', Tracking.same_iff] at hd
      exact ⟨_, rfl, hy.trans hd⟩

theorem Linked.unseen {f : Field} {u v w : Tracked Score} {changes : List Change} (h : Linked f u changes v)
    (h' : Unseen f v w) : Linked f u changes w := by
  induction changes generalizing u with
  | nil => exact Relation.ReflTransGen.trans h h'
  | cons ch changes ih =>
    obtain ⟨a, b, ha, ho, hn, hl⟩ := h
    exact ⟨a, b, ha, ho, hn, ih hl⟩

theorem Linked.append {f : Field} {u v w : Tracked Score} {changes : List Change} {ch : Change}
    (h : Linked f u changes v) (ho : ch.oldValue = render v) (hn : ch.newValue = render w) :
    Linked f u (changes ++ [ch]) w := by
  induction changes generalizing u with
  | nil => exact ⟨v, w, h, ho, hn, .refl f w⟩
  | cons ch' changes ih =>
    obtain ⟨a, b, ha, ho, hn, hl⟩ := h
    exact ⟨a, b, ha, ho, hn, ih hl⟩

/-- Flags are compared exactly, so their history is an exact chain. -/
theorem Linked.chain {f : Field} {v w : Tracked Score} {changes : List Change} (h : Linked f v changes w)
    (hc : f ≠ .cvssScore) (he : f ≠ .epssScore) : Chain changes (render w) := by
  induction changes generalizing v with
  | nil => trivial
  | cons ch changes ih =>
    obtain ⟨a, b, -, -, hn, hl⟩ := h
    cases changes with
    | nil =>
      obtain rfl := Unseen.eq_of_flag hl hc he
      exact hn
    | cons ch' rest =>
      refine ⟨?_, ih hl⟩
      obtain ⟨a', b', ha, ho, -⟩ := hl
      rw [ho, hn, Unseen.eq_of_flag ha hc he]

/-- What a step may do to one field of one CVE: leave a difference that the writer does not see, insert the
row of a CVE with an EPSS score, or record the change. -/
structure Cell (f : Field) (old new : Option (Row Score)) (changes : List Change) : Prop where
  lasts : new = none → old = none
  tracks : changes = [] ∧ (Unseen f (value old f) (value new f) ∨ f = .epssScore ∧ old = none) ∨
    ∃ ch, changes = [ch] ∧ ch.oldValue = render (value old f) ∧ ch.newValue = render (value new f) ∧
      value old f ≠ value new f

def Steps (cveId : Text) (f : Field) (db db' : Store Score) : Prop :=
  ∃ changes, changesOf cveId f db'.history = changesOf cveId f db.history ++ changes ∧
    Cell f (db.rows cveId) (db'.rows cveId) changes

/-- The field and its history stay as they are. -/
structure Still (cveId : Text) (f : Field) (db db' : Store Score) : Prop where
  lasts : db'.rows cveId = none → db.rows cveId = none
  changes : changesOf cveId f db'.history = changesOf cveId f db.history
  value : value (db'.rows cveId) f = value (db.rows cveId) f

theorem Cell.of_value_eq {f : Field} {old new : Option (Row Score)} (hl : new = none → old = none)
    (hv : value new f = value old f) : Cell f old new [] :=
  ⟨hl, .inl ⟨rfl, .inl (hv ▸ .refl f _)⟩⟩

theorem Still.steps {cveId : Text} {f : Field} {db db' : Store Score} (h : Still cveId f db db') :
    Steps cveId f db db' :=
  ⟨[], by rw [h.changes, List.append_nil], .of_value_eq h.lasts h.value⟩

omit [Tracking Score] in
theorem Still.refl (cveId : Text) (f : Field) (db : Store Score) : Still cveId f db db := ⟨fun h ↦ h, rfl, rfl⟩

omit [Tracking Score] in
theorem Still.trans {cveId : Text} {f : Field} {a b c : Store Score} (h : Still cveId f a b) (h' : Still cveId f b c) :
    Still cveId f a c :=
  ⟨fun hc ↦ h.lasts (h'.lasts hc), h'.changes.trans h.changes, h'.value.trans h.value⟩

theorem Still.trans_steps {cveId : Text} {f : Field} {a b c : Store Score} (h : Still cveId f a b)
    (h' : Steps cveId f b c) : Steps cveId f a c := by
  obtain ⟨changes, hc, hl, ht⟩ := h'
  refine ⟨changes, h.changes ▸ hc, fun hn ↦ h.lasts (hl hn), ?_⟩
  rw [h.value] at ht
  rcases ht with ⟨hn, hu | ⟨he, hb⟩⟩ | hs
  · exact .inl ⟨hn, .inl hu⟩
  · exact .inl ⟨hn, .inr ⟨he, h.lasts hb⟩⟩
  · exact .inr hs

theorem Steps.trans_still {cveId : Text} {f : Field} {a b c : Store Score} (h : Steps cveId f a b)
    (h' : Still cveId f b c) : Steps cveId f a c := by
  obtain ⟨changes, hc, hl, ht⟩ := h
  refine ⟨changes, h'.changes.trans hc, fun hn ↦ hl (h'.lasts hn), ?_⟩
  rwa [h'.value]

theorem Steps.no_change {cveId : Text} {f : Field} {db db' : Store Score} (h : Steps cveId f db db')
    (hv : ChangeHistory.value (db'.rows cveId) f = ChangeHistory.value (db.rows cveId) f) :
    changesOf cveId f db'.history = changesOf cveId f db.history := by
  obtain ⟨changes, hc, -, ⟨rfl, -⟩ | ⟨ch, -, -, -, hne⟩⟩ := h
  · rw [hc, List.append_nil]
  · exact absurd hv.symm hne

/-- What every step keeps. A CVE without a row has no history. -/
structure Inv (cveId : Text) (f : Field) (db : Store Score) : Prop where
  faithful : Faithful cveId f db
  fresh : db.rows cveId = none → changesOf cveId f db.history = []

theorem Inv.steps {cveId : Text} {f : Field} {db db' : Store Score} (h : Inv cveId f db) (hs : Steps cveId f db db') :
    Inv cveId f db' := by
  obtain ⟨changes, hc, hl, ht⟩ := hs
  obtain ⟨⟨v, hv, hlink⟩, hf⟩ := h
  rcases ht with ⟨rfl, hu | ⟨he, hn⟩⟩ | ⟨ch, rfl, ho, hnew, hne⟩
  · rw [List.append_nil] at hc
    exact ⟨⟨v, hv, hc ▸ hlink.unseen hu⟩, fun h ↦ hc ▸ hf (hl h)⟩
  · rw [List.append_nil] at hc
    refine ⟨⟨value (db'.rows cveId) f, fun h ↦ absurd he h, ?_⟩, fun _ ↦ hc ▸ hf hn⟩
    rw [hc, hf hn]
    exact .refl f _
  · refine ⟨⟨v, hv, hc ▸ hlink.append ho hnew⟩, ?_⟩
    intro h
    have hold := hl h
    rw [h, hold] at hne
    exact absurd rfl hne

end

section
variable {α β : Type}

/-- What a list of keyed results holds for one key. -/
theorem filter_flatMap_key (key : α → Text) (out : β → Text) {g : α → List β} (h : ∀ a, ∀ b ∈ g a, out b = key a)
    (l : List α) (k : Text) :
    (l.flatMap g).filter (fun b ↦ decide (out b = k)) = (l.filter fun a ↦ decide (key a = k)).flatMap g := by
  induction l with
  | nil => rfl
  | cons a l ih =>
    rw [List.flatMap_cons, List.filter_append, ih]
    by_cases ha : key a = k
    · rw [List.filter_cons_of_pos (by simpa using ha), List.flatMap_cons,
        List.filter_eq_self.mpr fun b hb ↦ by simpa [ha] using h a b hb]
    · have hn : (g a).filter (fun b ↦ decide (out b = k)) = [] := by
        rw [List.filter_eq_nil_iff]
        intro b hb
        simpa [h a b hb] using ha
      rw [List.filter_cons_of_neg (by simpa using ha), hn, List.nil_append]

theorem length_filter_key {key : α → Text} {l : List α} (h : (l.map key).Nodup) (k : Text) :
    (l.filter fun a ↦ decide (key a = k)).length ≤ 1 := by
  have hc : (l.filter fun a ↦ decide (key a = k)).length = (l.map key).count k := by
    rw [List.count, List.countP_map, List.countP_eq_length_filter]
    exact congrArg List.length (List.filter_congr fun a _ ↦ by simp [beq_eq_decide])
  rw [hc]
  exact List.nodup_iff_count_le_one.mp h k

theorem filter_key_self {l : List Text} (h : l.Nodup) (k : Text) :
    (l.filter fun c ↦ decide (c = k)) = if k ∈ l then [k] else [] := by
  induction l with
  | nil => rfl
  | cons c l ih =>
    obtain ⟨hc, hl⟩ := List.nodup_cons.mp h
    by_cases hk : c = k
    · subst hk
      simp [ih hl, hc]
    · simp [ih hl, hk, Ne.symm hk]

end

section
variable {Score : Type} [Interp] [Dumps] [Analysis Score]

theorem writeAll_history (db : Store Score) (writes : List (Text × Write Score)) :
    (db.writeAll writes).history = db.history := by
  induction writes generalizing db with
  | nil => rfl
  | cons w writes ih => exact ih (db.write w.1 w.2)

theorem writeAll_rows (db : Store Score) (writes : List (Text × Write Score)) (cveId : Text) :
    (db.writeAll writes).rows cveId =
      (writes.filter fun w ↦ decide (w.1 = cveId)).foldl (fun old w ↦ w.2.apply old) (db.rows cveId) := by
  induction writes generalizing db with
  | nil => rfl
  | cons w writes ih =>
    rw [Store.writeAll, List.foldl_cons, ← Store.writeAll, ih]
    by_cases hw : w.1 = cveId
    · rw [List.filter_cons_of_pos (by simpa using hw), List.foldl_cons]
      simp [Store.write, ← hw]
    · rw [List.filter_cons_of_neg (by simpa using hw)]
      simp [Store.write, Ne.symm hw]

omit [Interp] [Dumps] [Analysis Score] in
theorem value_map {old : Option (Row Score)} {g : Row Score → Row Score} {f : Field}
    (h : ∀ r, old = some r → rowValue (g r) f = rowValue r f) : value (old.map g) f = value old f := by
  cases old with
  | none => rfl
  | some r => exact h r rfl

/-- Statements that leave the value of the field as they find it. -/
theorem Still.writeAll {cveId : Text} {f : Field} (db : Store Score) (writes : List (Text × Write Score))
    (h : ∀ w ∈ writes, ∃ g, (∀ old, w.2.apply old = old.map g) ∧
      (w.1 = cveId → ∀ r, rowValue r f = ChangeHistory.value (db.rows cveId) f → rowValue (g r) f = rowValue r f)) :
    Still cveId f db (db.writeAll writes) := by
  induction writes generalizing db with
  | nil => exact .refl cveId f db
  | cons w writes ih =>
    obtain ⟨g, hg, hv⟩ := h w (.head _)
    have hw : Still cveId f db (db.write w.1 w.2) := by
      by_cases hw : w.1 = cveId
      · have hrow : (db.write w.1 w.2).rows cveId = (db.rows cveId).map g := by simp [Store.write, ← hw, hg]
        refine ⟨?_, rfl, ?_⟩
        · rw [hrow]
          exact Option.map_eq_none_iff.mp
        · rw [hrow]
          apply value_map
          intro r hr
          exact hv hw r (by rw [hr]; rfl)
      · have hrow : (db.write w.1 w.2).rows cveId = db.rows cveId := by simp [Store.write, Ne.symm hw]
        exact ⟨fun h ↦ hrow ▸ h, rfl, by rw [hrow]⟩
    refine hw.trans (ih (db.write w.1 w.2) ?_)
    rw [hw.value]
    exact fun w hw ↦ h w (.tail _ hw)

variable [Tracking Score]

omit [Interp] [Dumps] [Analysis Score] in
theorem mem_upsertChanges {cveId : Text} {c : Incoming Score} {prior : Option (Snapshot Score)} {ch : Change}
    (h : ch ∈ upsertChanges cveId c prior) : ch.cveId = cveId := by
  have hite : ∀ (b : Bool) (f : Field) (o n : Text), ch ∈ (if b then [Change.mk cveId f o n] else []) →
      ch.cveId = cveId := by
    intro b f o n h
    cases b with
    | false => cases h
    | true => rw [List.mem_singleton.mp h]
  cases prior with
  | none =>
    simp only [upsertChanges, List.mem_append] at h
    rcases h with ((h | h) | h) | h <;> exact hite _ _ _ _ h
  | some prior =>
    simp only [upsertChanges, List.mem_append] at h
    rcases h with (h | h) | h <;> exact hite _ _ _ _ h

omit [Dumps] [Analysis Score] [Tracking Score] in
theorem snapshots_of_mem {db : Store Score} {valid : List (Incoming Score)} {c : Incoming Score} (hc : c ∈ valid)
    (hv : (strip c.cveId).isEmpty = false) :
    loadCveChangeSnapshots db (valid.map fun c ↦ upper c.cveId) (upper c.cveId) =
      (db.rows (upper c.cveId)).map snapshot := by
  have hne : upper c.cveId ≠ [] := by
    intro h
    rw [Interp.upper_eq_nil _ h] at hv
    cases hv
  have hmem : upper c.cveId ∈ ((valid.map fun c ↦ upper c.cveId).filter fun c ↦ !c.isEmpty).map upper := by
    refine List.mem_map.mpr ⟨upper c.cveId, List.mem_filter.mpr ⟨List.mem_map_of_mem hc, ?_⟩, Interp.upper_idem _⟩
    simpa using hne
  rw [loadCveChangeSnapshots, if_pos hmem]

theorem upsertCves_changes (now : Text) (db : Store Score) (cves : List (Incoming Score)) (cveId : Text) (f : Field) :
    changesOf cveId f (upsertCves now db cves).history =
      changesOf cveId f db.history ++
        ((recordsOf cveId cves).flatMap fun c ↦ upsertChanges cveId c ((db.rows cveId).map snapshot)).filter
          fun ch ↦ decide (ch.fieldName = f) := by
  have hput : ∀ cves db, (putCves now db cves : Store Score).history = db.history := by
    intro cves
    induction cves with
    | nil => exact fun _ ↦ rfl
    | cons c cves ih => exact fun db ↦ ih (db.write (upper c.cveId) (.upsert now c))
  have hflat : ((validCves cves).flatMap fun c ↦ upsertChanges (upper c.cveId) c
      (loadCveChangeSnapshots db ((validCves cves).map fun c ↦ upper c.cveId) (upper c.cveId))).filter
        (fun ch ↦ decide (ch.cveId = cveId)) =
      (recordsOf cveId cves).flatMap fun c ↦ upsertChanges cveId c ((db.rows cveId).map snapshot) := by
    rw [filter_flatMap_key (fun c : Incoming Score ↦ upper c.cveId) Change.cveId (fun c ch h ↦ mem_upsertChanges h)]
    refine List.flatMap_congr ?_
    intro c hc
    obtain ⟨hvalid, hid⟩ := List.mem_filter.mp hc
    obtain rfl : upper c.cveId = cveId := by simpa using hid
    rw [snapshots_of_mem hvalid (by simpa using (List.mem_filter.mp hvalid).2)]
  simp only [upsertCves, Store.record, changesOf, List.filter_append, hput, hflat]

omit [Interp] [Dumps] [Analysis Score] in
theorem Cell.of_flag {f : Field} {old new : Option (Row Score)} {cveId : Text} {b c : Bool}
    (hl : new = none → old = none) (ho : value old f = .flag b) (hn : value new f = .flag (c || b)) :
    Cell f old new (if !b && c then [switchedOn cveId f] else []) := by
  refine ⟨hl, ?_⟩
  rw [ho, hn]
  cases b with
  | true => exact .inl ⟨rfl, .inl (by simpa using Unseen.refl f _)⟩
  | false =>
    cases c with
    | false => exact .inl ⟨rfl, .inl (.refl f _)⟩
    | true => exact .inr ⟨_, rfl, rfl, rfl, by simp⟩

omit [Interp] [Dumps] [Analysis Score] in
/-- The history rows of one field that a record brings. -/
theorem upsertChanges_field (cveId : Text) (c : Incoming Score) (prior : Option (Snapshot Score)) (f : Field) :
    ((upsertChanges cveId c prior).filter fun ch ↦ decide (ch.fieldName = f)) =
      match f with
      | .cvssScore =>
        if valuesDiffer (prior.bind Snapshot.cvssScore) c.cvssScore then
          [⟨cveId, .cvssScore, changeValueStr (prior.bind Snapshot.cvssScore), changeValueStr c.cvssScore⟩] else []
      | .epssScore => []
      | .isKev => if !prior.isSome && c.isKev then [switchedOn cveId .isKev] else []
      | .hasPoc => if !prior.any Snapshot.hasPoc && c.hasPoc then [switchedOn cveId .hasPoc] else []
      | .patchAvailable =>
        if !prior.any Snapshot.patchAvailable && c.patchAvailable then [switchedOn cveId .patchAvailable] else [] := by
  have hfilter : ∀ (b : Prop) [Decidable b] (ch : Change),
      (if b then [ch] else []).filter (fun ch ↦ decide (ch.fieldName = f)) =
        if ch.fieldName = f then (if b then [ch] else []) else [] := by
    intro b _ ch
    by_cases hb : b
    · by_cases hf : ch.fieldName = f <;> simp [hb, hf]
    · simp [hb]
  cases prior with
  | none =>
    simp only [upsertChanges, List.filter_append, hfilter, switchedOn]
    cases f with
    | cvssScore =>
      cases hc : c.cvssScore with
      | none => simp [valuesDiffer]
      | some x => simp [valuesDiffer, changeValueStr]
    | _ => simp
  | some prior =>
    simp only [upsertChanges, List.filter_append, hfilter, switchedOn]
    cases f with
    | hasPoc => cases hb : prior.hasPoc <;> simp [hb]
    | _ => simp

omit [Interp] [Dumps] [Analysis Score] in
theorem valuesDiffer_self (x : Option Score) : valuesDiffer x x = false := by
  cases x with
  | none => rfl
  | some x => exact Tracking.farApart_self x

theorem upsert_cell (cveId now : Text) (f : Field) (old : Option (Row Score)) (c : Incoming Score)
    (hp : f = .patchAvailable → ∀ r, old = some r → r.patchAvailable = true → c.patchAvailable = true) :
    Cell f old (some (upsertRow now old c))
      ((upsertChanges cveId c (old.map snapshot)).filter fun ch ↦ decide (ch.fieldName = f)) := by
  have hl : some (upsertRow now old c) = none → old = none := by simp
  rw [upsertChanges_field]
  cases f with
  | cvssScore =>
    have ho : value old .cvssScore = .score ((old.map snapshot).bind Snapshot.cvssScore) := by cases old <;> rfl
    have hn : value (some (upsertRow now old c)) .cvssScore = .score c.cvssScore := by cases old <;> rfl
    refine ⟨hl, ?_⟩
    rw [ho, hn]
    by_cases hd : valuesDiffer ((old.map snapshot).bind Snapshot.cvssScore) c.cvssScore = true
    · refine .inr ⟨_, if_pos hd, rfl, rfl, ?_⟩
      intro he
      injection he with he
      rw [he, valuesDiffer_self] at hd
      cases hd
    · exact .inl ⟨if_neg hd, .inl (.single (.cvss (by simpa using hd)))⟩
  | epssScore =>
    cases old with
    | none => exact ⟨hl, .inl ⟨rfl, .inr ⟨rfl, rfl⟩⟩⟩
    | some r => exact .of_value_eq hl rfl
  | isKev =>
    cases old with
    | none => simpa using Cell.of_flag (b := false) (c := c.isKev) hl rfl (by simp [value, rowValue, upsertRow, insertRow])
    | some r => exact .of_value_eq hl rfl
  | hasPoc =>
    apply Cell.of_flag hl
    · cases old <;> rfl
    · cases old with
      | none => simp [value, rowValue, upsertRow, insertRow]
      | some r => rfl
  | patchAvailable =>
    apply Cell.of_flag hl
    · cases old <;> rfl
    · cases old with
      | none => simp [value, rowValue, upsertRow, insertRow]
      | some r =>
        have hr := hp rfl r rfl
        cases hb : r.patchAvailable with
        | false => simp [value, rowValue, upsertRow, conflictRow, insertRow, snapshot, hb]
        | true => simp [value, rowValue, upsertRow, conflictRow, insertRow, snapshot, hb, hr hb]

/-- A batch with at most one record for the CVE. -/
theorem Steps.upsertCves {cveId now : Text} {f : Field} {db : Store Score} {cves : List (Incoming Score)}
    (h1 : (recordsOf cveId cves).length ≤ 1)
    (hp : f = .patchAvailable → ∀ c ∈ recordsOf cveId cves, ∀ r, db.rows cveId = some r → r.patchAvailable = true →
      c.patchAvailable = true) :
    Steps cveId f db (Cve.upsertCves now db cves) := by
  refine ⟨_, upsertCves_changes now db cves cveId f, ?_⟩
  rw [upsertCves_rows]
  match hc : recordsOf cveId cves with
  | [] => exact .of_value_eq (fun h ↦ h) rfl
  | [c] =>
    rw [List.flatMap_singleton, List.foldl_cons, List.foldl_nil]
    exact upsert_cell cveId now f _ c fun hf ↦ hp hf c (by simp [hc])
  | c :: d :: l => simp [hc] at h1

/-- No event but `update_epss_scores` records EPSS scores or changes the score of a row. -/
structure Quiet (cveId : Text) (db db' : Store Score) : Prop where
  changes : changesOf cveId .epssScore db'.history = changesOf cveId .epssScore db.history
  kept : ∀ r, db.rows cveId = some r → ∃ r', db'.rows cveId = some r' ∧ r'.epss = r.epss

omit [Interp] [Dumps] [Analysis Score] [Tracking Score] in
theorem Quiet.refl (cveId : Text) (db : Store Score) : Quiet cveId db db := ⟨rfl, fun r hr ↦ ⟨r, hr, rfl⟩⟩

omit [Interp] [Dumps] [Analysis Score] [Tracking Score] in
theorem Quiet.trans {cveId : Text} {a b c : Store Score} (h : Quiet cveId a b) (h' : Quiet cveId b c) : Quiet cveId a c := by
  refine ⟨h'.changes.trans h.changes, ?_⟩
  intro r hr
  obtain ⟨r', hr', he⟩ := h.kept r hr
  obtain ⟨r'', hr'', he'⟩ := h'.kept r' hr'
  exact ⟨r'', hr'', he'.trans he⟩

omit [Interp] [Dumps] [Analysis Score] in
theorem Quiet.steps {cveId : Text} {db db' : Store Score} (h : Quiet cveId db db') : Steps cveId .epssScore db db' := by
  refine ⟨[], by rw [h.changes, List.append_nil], ?_⟩
  cases hr : db.rows cveId with
  | none => exact ⟨fun _ ↦ rfl, .inl ⟨rfl, .inr ⟨rfl, rfl⟩⟩⟩
  | some r =>
    obtain ⟨r', hr', he⟩ := h.kept r hr
    rw [hr']
    exact .of_value_eq (by simp) (by simp [value, rowValue, he])

omit [Tracking Score] in
theorem foldl_upsertRow_epss (now : Text) (l : List (Incoming Score)) (r : Row Score) :
    ∃ r', l.foldl (fun old c ↦ some (upsertRow now old c)) (some r) = some r' ∧ r'.epss = r.epss := by
  induction l generalizing r with
  | nil => exact ⟨r, rfl, rfl⟩
  | cons c l ih =>
    obtain ⟨r', hr', he⟩ := ih (upsertRow now (some r) c)
    exact ⟨r', hr', he⟩

theorem Quiet.upsertCves (cveId now : Text) (db : Store Score) (cves : List (Incoming Score)) :
    Quiet cveId db (Cve.upsertCves now db cves) := by
  constructor
  · have hnil : ((recordsOf cveId cves).flatMap fun c ↦ upsertChanges cveId c ((db.rows cveId).map snapshot)).filter
        (fun ch ↦ decide (ch.fieldName = .epssScore)) = [] := by
      rw [List.filter_flatMap]
      simp [upsertChanges_field]
    rw [upsertCves_changes, hnil, List.append_nil]
  · intro r hr
    rw [upsertCves_rows, hr]
    exact foldl_upsertRow_epss now _ r

omit [Tracking Score] in
theorem Quiet.additive (cveId key now : Text) (db : Store Score) (changes : Changes Score) :
    Quiet cveId db (db.write key (.additive now changes)) := by
  refine ⟨rfl, ?_⟩
  intro r hr
  by_cases hk : cveId = key
  · subst hk
    exact ⟨additiveRow now changes r, by simp [Store.write, Write.apply, hr], rfl⟩
  · exact ⟨r, by simpa [Store.write, hk] using hr, rfl⟩

def mine (cveId : Text) (l : List (Incoming Score)) : List (Incoming Score) :=
  l.filter fun c ↦ decide (upper c.cveId = cveId)

omit [Dumps] [Analysis Score] [Tracking Score] in
theorem recordsOf_sublist (cveId : Text) (l : List (Incoming Score)) : (recordsOf cveId l).Sublist (mine cveId l) :=
  List.Sublist.filter _ List.filter_sublist

/-- An enrichment gives a stored CVE no CVSS score. -/
def NoScore (cveId : Text) (db : Store Score) (c : Incoming Score) : Prop :=
  upper c.cveId = cveId → ∀ r, db.rows cveId = some r → r.cvssScore = none → c.cvssScore = none

/-- `apply_additive_cve_enrichments` before and after the one record for the CVE. -/
inductive Mid (cveId : Text) (f : Field) (db : Store Score) (a : AdditiveState Score) (rest : List (Incoming Score)) : Prop
  | before : a.db.rows cveId = db.rows cveId → changesOf cveId f a.db.history = changesOf cveId f db.history →
      (mine cveId (a.pendingInserts ++ rest)).length ≤ 1 → (mine cveId a.pendingInserts ≠ [] → db.rows cveId = none) →
      Mid cveId f db a rest
  | after : Steps cveId f db a.db → mine cveId (a.pendingInserts ++ rest) = [] → Mid cveId f db a rest

theorem upsertCves_untouched (now : Text) (f : Field) (db : Store Score) {cveId : Text} {cves : List (Incoming Score)}
    (h : mine cveId cves = []) :
    (upsertCves now db cves).rows cveId = db.rows cveId ∧
      changesOf cveId f (upsertCves now db cves).history = changesOf cveId f db.history := by
  have hn : recordsOf cveId cves = [] := List.eq_nil_of_subset_nil (h ▸ (recordsOf_sublist cveId cves).subset)
  rw [upsertCves_rows, upsertCves_changes, hn]
  simp

omit [Interp] [Dumps] [Analysis Score] [Tracking Score] in
theorem Still.of_eq {cveId : Text} {f : Field} {db db' : Store Score} (hr : db'.rows cveId = db.rows cveId)
    (hc : changesOf cveId f db'.history = changesOf cveId f db.history) : Still cveId f db db' :=
  ⟨fun h ↦ hr ▸ h, hc, by rw [hr]⟩

omit [Dumps] [Analysis Score] [Tracking Score] in
theorem mine_append (cveId : Text) (l m : List (Incoming Score)) : mine cveId (l ++ m) = mine cveId l ++ mine cveId m :=
  List.filter_append l m

theorem Mid.flush {cveId : Text} {f : Field} {db : Store Score} {a : AdditiveState Score}
    {rest : List (Incoming Score)} (h : Mid cveId f db a rest) (now : Text) : Mid cveId f db (flushInserts now a) rest := by
  rw [flushInserts]
  split
  · exact h
  · cases h with
    | before hr hc hl hp =>
      rw [mine_append, List.length_append] at hl
      by_cases hm : mine cveId a.pendingInserts = []
      · obtain ⟨hr', hc'⟩ := upsertCves_untouched now f a.db hm
        exact .before (hr'.trans hr) (hc'.trans hc) (by rw [List.nil_append]; omega) fun h ↦ absurd rfl h
      · have hpos := List.length_pos_iff.mpr hm
        refine .after ?_ (List.length_eq_zero_iff.mp (by rw [List.nil_append]; omega))
        refine (Still.of_eq hr hc).trans_steps (Steps.upsertCves ?_ ?_)
        · have hle := (recordsOf_sublist cveId a.pendingInserts).length_le
          omega
        · intro _ c _ r hrow
          rw [hr, hp hm] at hrow
          cases hrow
    | after hs hn =>
      obtain ⟨hp, hn⟩ := List.append_eq_nil_iff.mp (mine_append cveId _ _ ▸ hn)
      obtain ⟨hr', hc'⟩ := upsertCves_untouched now f a.db hp
      exact .after (hs.trans_still (.of_eq hr' hc')) hn

theorem Mid.processedOne {cveId : Text} {f : Field} {db : Store Score} {a : AdditiveState Score}
    {rest : List (Incoming Score)} (h : Mid cveId f db a rest) (now : Text) (commitEvery : Option ℕ) :
    Mid cveId f db (Cve.processedOne now commitEvery a) rest := by
  rw [Cve.processedOne]
  dsimp only
  have h' : Mid cveId f db { a with processed := a.processed + 1 } rest := by
    cases h with
    | before hr hc hl hp => exact .before hr hc hl hp
    | after hs hn => exact .after hs hn
  split
  · exact h'.flush now
  · exact h'

omit [Dumps] [Analysis Score] [Tracking Score] in
theorem merged_score_none {existing : Row Score} {incoming : Incoming Score} {changes : Changes Score}
    (h : mergeAdditiveCveFields existing incoming = .ok changes)
    (hn : existing.cvssScore = none → incoming.cvssScore = none) : changes.cvssScore = none := by
  obtain ⟨cwes, -, h⟩ := bind_eq_ok.mp h
  obtain ⟨products, -, h⟩ := bind_eq_ok.mp h
  obtain rfl := Except.ok.inj h
  cases he : existing.cvssScore with
  | none => simpa [he] using hn he
  | some x => simp

omit [Tracking Score] in
theorem additive_still {cveId key now : Text} {f : Field} {db : Store Score} {changes : Changes Score}
    (h : key = cveId → f = .cvssScore → changes.cvssScore = none) :
    Still cveId f db (db.write key (.additive now changes)) := by
  apply Still.writeAll db [(key, .additive now changes)]
  intro w hw
  obtain rfl := List.mem_singleton.mp hw
  refine ⟨additiveRow now changes, fun _ ↦ rfl, ?_⟩
  intro hk r _
  cases f with
  | cvssScore => simp [rowValue, additiveRow, h hk rfl]
  | _ => rfl

theorem Mid.step {cveId now : Text} {f : Field} {db : Store Score} {commitEvery : Option ℕ}
    {a b : AdditiveState Score} {c : Incoming Score} {rest : List (Incoming Score)} (h : Mid cveId f db a (c :: rest))
    (hs : f = .cvssScore → NoScore cveId db c) (hb : additiveStep now commitEvery a c = .ok b) :
    Mid cveId f db b rest := by
  have hsub : (mine cveId (a.pendingInserts ++ rest)).Sublist (mine cveId (a.pendingInserts ++ c :: rest)) :=
    List.Sublist.filter _ ((List.Sublist.refl _).append (List.sublist_cons_self c rest))
  rcases additiveStep_cases hb with rfl | ⟨hnone, rfl⟩ | ⟨existing, changes, updated, he, hm, rfl⟩
  · cases h with
    | before hr hc hl hp => exact .before hr hc (hsub.length_le.trans hl) hp
    | after hst hn => exact .after hst (List.eq_nil_of_subset_nil (hn ▸ hsub.subset))
  · apply Mid.processedOne
    cases h with
    | before hr hc hl hp =>
      refine .before hr hc (by simpa using hl) ?_
      intro hne
      by_cases hid : upper c.cveId = cveId
      · rw [← hr, ← hid, hnone]
      · apply hp
        simpa [mine_append, mine, hid] using hne
    | after hst hn => exact .after hst (by simpa using hn)
  · apply Mid.processedOne
    by_cases hid : upper c.cveId = cveId
    · have hc1 : mine cveId (a.pendingInserts ++ c :: rest) = mine cveId a.pendingInserts ++ c :: mine cveId rest := by
        simp [mine, hid]
      cases h with
      | before hr hc hl hp =>
        have hstill : Still cveId f a.db (if changes.isEmpty then a.db else a.db.write (upper c.cveId) (.additive now changes)) := by
          split
          · exact .refl cveId f a.db
          · apply additive_still
            intro _ hf
            exact merged_score_none hm (hs hf hid existing (hr ▸ hid ▸ he))
        rw [hc1, List.length_append, List.length_cons] at hl
        refine .after ((Still.of_eq hr hc).trans hstill).steps ?_
        have hpending : mine cveId a.pendingInserts = [] := List.length_eq_zero_iff.mp (by omega)
        have hrest : mine cveId rest = [] := List.length_eq_zero_iff.mp (by omega)
        rw [mine_append, List.append_eq_nil_iff]
        exact ⟨hpending, hrest⟩
      | after hst hn =>
        rw [hc1] at hn
        simp at hn
    · have hrow : (if changes.isEmpty then a.db else a.db.write (upper c.cveId) (.additive now changes)).rows cveId = a.db.rows cveId := by
        split
        · rfl
        · simp [Store.write, Ne.symm hid]
      have hch : changesOf cveId f (if changes.isEmpty then a.db else a.db.write (upper c.cveId) (.additive now changes)).history = changesOf cveId f a.db.history := by
        split <;> rfl
      cases h with
      | before hr hc hl hp => exact .before (hrow.trans hr) (hch.trans hc) (hsub.length_le.trans hl) hp
      | after hst hn =>
        exact .after (hst.trans_still (.of_eq hrow hch)) (List.eq_nil_of_subset_nil (hn ▸ hsub.subset))

theorem Steps.additive {cveId now : Text} {f : Field} {db : Store Score} {commitEvery : Option ℕ}
    {enrichments : List (Incoming Score)} (h1 : (mine cveId enrichments).length ≤ 1)
    (hs : f = .cvssScore → ∀ c ∈ enrichments, NoScore cveId db c) :
    Steps cveId f db (applyAdditiveCveEnrichments now commitEvery db enrichments) := by
  have hloop : ∀ l a, Mid cveId f db a l → (f = .cvssScore → ∀ c ∈ l, NoScore cveId db c) →
      ∃ rest, Mid cveId f db (additiveLoop now commitEvery a l) rest := by
    intro l
    induction l with
    | nil => exact fun a h _ ↦ ⟨[], h.flush now⟩
    | cons c l ih =>
      intro a h hs
      rw [additiveLoop]
      cases hb : additiveStep now commitEvery a c with
      | error e => exact ⟨_, h⟩
      | ok b => exact ih b (h.step (fun hf ↦ hs hf c (.head _)) hb) fun hf c hc ↦ hs hf c (.tail _ hc)
  obtain ⟨rest, h⟩ := hloop enrichments ⟨db, [], 0, 0⟩ (.before rfl rfl (by simpa using h1) fun h ↦ absurd rfl h) hs
  cases h with
  | before hr hc _ _ => exact (Still.of_eq hr hc).steps
  | after hst _ => exact hst

/-- A flag that an update switches on, with the ids whose rows lacked it in the history. -/
structure Switch (g : Field) (w : Write Score) (set : Row Score → Row Score) (flag : Row Score → Bool) : Prop where
  apply : ∀ old, w.apply old = old.map set
  rowValue : ∀ r, rowValue r g = .flag (flag r)
  flag_set : ∀ r, flag (set r) = true
  set_set : ∀ r, set (set r) = set r
  others : ∀ r f, f ≠ g → ChangeHistory.rowValue (set r) f = ChangeHistory.rowValue r f

omit [Tracking Score] in
theorem switch_kev : Switch .isKev .kev (fun r : Row Score ↦ { r with isKev := true }) Row.isKev where
  apply _ := rfl
  rowValue _ := rfl
  flag_set _ := rfl
  set_set _ := rfl
  others r f hf := by
    cases f with
    | isKev => exact absurd rfl hf
    | _ => rfl

omit [Tracking Score] in
theorem switch_poc : Switch .hasPoc .poc (fun r : Row Score ↦ { r with hasPoc := true }) Row.hasPoc where
  apply _ := rfl
  rowValue _ := rfl
  flag_set _ := rfl
  set_set _ := rfl
  others r f hf := by
    cases f with
    | hasPoc => exact absurd rfl hf
    | _ => rfl

section
variable {g : Field} {w : Write Score} {set : Row Score → Row Score} {flag : Row Score → Bool}

omit [Tracking Score] in
theorem Switch.rows (h : Switch g w set flag) (db : Store Score) (ids : List Text) (cveId : Text) :
    (db.writeAll (ids.map fun c ↦ (c, w))).rows cveId =
      if cveId ∈ ids then (db.rows cveId).map set else db.rows cveId := by
  induction ids generalizing db with
  | nil => rfl
  | cons c ids ih =>
    rw [List.map_cons, Store.writeAll, List.foldl_cons, ← Store.writeAll, ih]
    by_cases hc : cveId = c
    · subst hc
      have hss : set ∘ set = set := funext h.set_set
      simp [Store.write, h.apply, hss]
    · simp [Store.write, hc]

omit [Interp] [Dumps] [Analysis Score] [Tracking Score] in
theorem changesOf_switchedOn {new : List Text} (hn : new.Nodup) (cveId : Text) (f g : Field) :
    changesOf cveId f (new.map fun c ↦ switchedOn c g) =
      if g = f ∧ cveId ∈ new then [switchedOn cveId g] else [] := by
  have hkey : (new.map fun c ↦ switchedOn c g).filter (fun ch ↦ decide (ch.cveId = cveId)) =
      (new.filter fun c ↦ decide (c = cveId)).map fun c ↦ switchedOn c g := by
    rw [List.filter_map]
    rfl
  rw [changesOf, hkey, filter_key_self hn]
  by_cases hm : cveId ∈ new
  · by_cases hf : g = f <;> simp [hm, hf, switchedOn]
  · simp [hm]

theorem Switch.outcome (h : Switch g w set flag) (db : Store Score) {ids new : List Text} (hn : new.Nodup)
    (hmem : ∀ c, c ∈ new ↔ c ∈ ids ∧ (db.rows c).any (fun r ↦ !flag r) = true) (cveId : Text) (f : Field) :
    Still cveId f db ((db.record (new.map fun c ↦ switchedOn c g)).writeAll (ids.map fun c ↦ (c, w))) ∨
    Steps cveId f db ((db.record (new.map fun c ↦ switchedOn c g)).writeAll (ids.map fun c ↦ (c, w))) ∧
      value (db.rows cveId) f = .flag false ∧
      value (((db.record (new.map fun c ↦ switchedOn c g)).writeAll (ids.map fun c ↦ (c, w))).rows cveId) f = .flag true := by
  set db' := (db.record (new.map fun c ↦ switchedOn c g)).writeAll (ids.map fun c ↦ (c, w)) with hdb
  have hrow : db'.rows cveId = if cveId ∈ ids then (db.rows cveId).map set else db.rows cveId := h.rows _ ids cveId
  have hch : changesOf cveId f db'.history =
      changesOf cveId f db.history ++ if g = f ∧ cveId ∈ new then [switchedOn cveId g] else [] := by
    rw [← changesOf_switchedOn hn, hdb, writeAll_history]
    simp [changesOf, Store.record]
  have hlast : db'.rows cveId = none → db.rows cveId = none := by
    rw [hrow]
    split
    · exact Option.map_eq_none_iff.mp
    · exact fun h ↦ h
  by_cases hnew : g = f ∧ cveId ∈ new
  · obtain ⟨rfl, hm⟩ := hnew
    obtain ⟨hids, hany⟩ := (hmem cveId).mp hm
    obtain ⟨r, hr, hflag⟩ := (Option.any_eq_true _ _).mp hany
    have hold : value (db.rows cveId) g = .flag false := by
      simpa [hr, value, h.rowValue] using hflag
    have hval : value (db'.rows cveId) g = .flag true := by
      rw [hrow, if_pos hids, hr]
      simp [value, h.rowValue, h.flag_set]
    refine .inr ⟨⟨_, hch, hlast, .inr ⟨_, if_pos ⟨rfl, hm⟩, ?_, ?_, ?_⟩⟩, hold, hval⟩
    · rw [hold]
      rfl
    · rw [hval]
      rfl
    · rw [hold, hval]
      simp
  · rw [if_neg hnew, List.append_nil] at hch
    refine .inl ⟨hlast, hch, ?_⟩
    rw [hrow]
    split
    · rename_i hids
      apply value_map
      intro r hr
      by_cases hg : f = g
      · subst hg
        have hflag : flag r = true := by
          by_contra hf
          exact hnew ⟨rfl, (hmem cveId).mpr ⟨hids, by simpa [hr] using hf⟩⟩
        rw [h.rowValue, h.rowValue, h.flag_set, hflag]
      · exact h.others r f hg
    · rfl

end

theorem Steps.markCvesAsKev (cveId : Text) (f : Field) (db : Store Score) (cveIds : List Text) :
    Steps cveId f db (Cve.markCvesAsKev db cveIds) := by
  -- once a chunk has switched the flag on, the later chunks find it on
  have hchunks : ∀ (chunks : List (List Text)) db', (Still cveId f db db' ∨
      Steps cveId f db db' ∧ value (db'.rows cveId) f = .flag true) →
      Steps cveId f db (chunks.foldl markKevChunk db') := by
    intro chunks
    induction chunks with
    | nil =>
      intro db' h
      rcases h with h | ⟨h, -⟩
      · exact h.steps
      · exact h
    | cons chunk chunks ih =>
      intro db' h
      apply ih
      have hnodup : (chunk.dedup.filter fun c ↦ (db'.rows c).any fun r ↦ !r.isKev).Nodup := chunk.nodup_dedup.filter _
      have hmem : ∀ c, (c ∈ chunk.dedup.filter fun c ↦ (db'.rows c).any fun r ↦ !r.isKev) ↔
          c ∈ chunk ∧ (db'.rows c).any (fun r ↦ !r.isKev) = true :=
        fun c ↦ by rw [List.mem_filter, List.mem_dedup]
      have ho := switch_kev.outcome db' hnodup hmem cveId f
      rcases ho with ho | ⟨ho, hold, hv⟩
      · rcases h with h | ⟨h, hv⟩
        · exact .inl (h.trans ho)
        · exact .inr ⟨h.trans_still ho, ho.value.trans hv⟩
      · rcases h with h | ⟨-, hv'⟩
        · exact .inr ⟨h.trans_steps ho, hv⟩
        · rw [hold] at hv'
          simp at hv'
  exact hchunks _ db (.inl (.refl cveId f db))

theorem Steps.switchPocOn (cveId : Text) (f : Field) {db : Store Score} {ids : List Text} (hn : ids.Nodup)
    (hl : ∀ c ∈ ids, lacksPoc db c = true) : Steps cveId f db (Cve.switchPocOn db ids) := by
  have hmem : ∀ c, c ∈ ids ↔ c ∈ ids ∧ (db.rows c).any (fun r ↦ !r.hasPoc) = true :=
    fun c ↦ ⟨fun hc ↦ ⟨hc, hl c hc⟩, And.left⟩
  rcases switch_poc.outcome db hn hmem cveId f with h | ⟨h, -⟩
  · exact h.steps
  · exact h

omit [Dumps] [Analysis Score] [Tracking Score] in
theorem nodup_normalizeScores (scores : List (Text × Feed Score)) : ((normalizeScores scores).map Prod.fst).Nodup := by
  have hfold : ∀ (l acc : List (Text × Feed Score)), (acc.map Prod.fst).Nodup →
      ((l.foldl (fun acc s ↦ if upper s.1 ∈ acc.map Prod.fst then acc.map fun a ↦ if a.1 = upper s.1 then (a.1, s.2) else a
        else acc ++ [(upper s.1, s.2)]) acc).map Prod.fst).Nodup := by
    intro l
    induction l with
    | nil => exact fun _ h ↦ h
    | cons s l ih =>
      intro acc h
      apply ih
      dsimp only
      split
      · have hfst : (acc.map fun a ↦ if a.1 = upper s.1 then (a.1, s.2) else a).map Prod.fst = acc.map Prod.fst := by
          rw [List.map_map]
          refine List.map_congr_left fun a _ ↦ ?_
          simp only [Function.comp_apply]
          split <;> rfl
        rwa [hfst]
      · rename_i hs
        rw [List.map_append]
        exact h.append (List.nodup_singleton _) (by simpa using hs)
  exact hfold scores [] List.nodup_nil

omit [Interp] [Dumps] [Analysis Score] in
theorem epssUpdate_keys (db : Store Score) (s : Text × Feed Score) :
    (∀ ch ∈ (epssUpdate db s).1, ch.cveId = s.1 ∧ ch.fieldName = .epssScore) ∧ ∀ w ∈ (epssUpdate db s).2, w.1 = s.1 := by
  rcases epssUpdate_cases db s with ⟨he, -⟩ | ⟨r, -, -, he⟩
  · simp [he]
  · rw [he]
    constructor
    · intro ch hch
      dsimp only at hch
      split at hch
      · rw [List.mem_singleton.mp hch]
        exact ⟨rfl, rfl⟩
      · cases hch
    · intro w hw
      rw [List.mem_singleton.mp hw]

omit [Interp] [Dumps] [Analysis Score] in
theorem epss_cell (cveId : Text) (f : Field) (r : Row Score) (x : Score) (percentile : Option Score) :
    Cell f (some r) (some { r with epss := ⟨some x, percentile⟩ })
      ((if epssScoresDiffer r.epss.score (some x) then
        [⟨cveId, .epssScore, changeValueStr r.epss.score, changeValueStr (some x)⟩] else []).filter
          fun ch ↦ decide (ch.fieldName = f)) := by
  by_cases hf : f = .epssScore
  · subst hf
    refine ⟨by simp, ?_⟩
    by_cases hd : epssScoresDiffer r.epss.score (some x) = true
    · rw [if_pos hd]
      refine .inr ⟨_, rfl, rfl, rfl, ?_⟩
      intro he
      injection he with he
      rw [he, epssScoresDiffer, Bool.not_eq_true', ← Bool.not_eq_true, Tracking.same_iff] at hd
      exact hd rfl
    · rw [if_neg hd]
      exact .inl ⟨rfl, .inl (.single (.epss (by simpa using hd)))⟩
  · have hnil : (if epssScoresDiffer r.epss.score (some x) then
        [Change.mk cveId .epssScore (changeValueStr r.epss.score) (changeValueStr (some x))] else []).filter
          (fun ch ↦ decide (ch.fieldName = f)) = [] := by
      split
      · simp [Ne.symm hf]
      · rfl
    rw [hnil]
    apply Cell.of_value_eq (by simp)
    cases f with
    | epssScore => exact absurd rfl hf
    | _ => rfl

theorem Steps.updateEpssScores (cveId : Text) (f : Field) (db : Store Score) (scores : List (Text × Feed Score)) :
    Steps cveId f db (Cve.updateEpssScores db scores) := by
  have hkeys : ∀ s, (∀ ch ∈ (epssUpdate db s).1, ch.cveId = s.1) ∧ ∀ w ∈ (epssUpdate db s).2, w.1 = s.1 :=
    fun s ↦ ⟨fun ch hch ↦ ((epssUpdate_keys db s).1 ch hch).1, (epssUpdate_keys db s).2⟩
  have hrow : (Cve.updateEpssScores db scores).rows cveId =
      (((normalizeScores scores).filter fun s ↦ decide (s.1 = cveId)).flatMap fun s ↦ (epssUpdate db s).2).foldl
        (fun old w ↦ w.2.apply old) (db.rows cveId) := by
    rw [← filter_flatMap_key Prod.fst Prod.fst fun s ↦ (hkeys s).2]
    exact writeAll_rows _ _ cveId
  have hch : changesOf cveId f (Cve.updateEpssScores db scores).history = changesOf cveId f db.history ++
      (((normalizeScores scores).filter fun s ↦ decide (s.1 = cveId)).flatMap fun s ↦ (epssUpdate db s).1).filter
        fun ch ↦ decide (ch.fieldName = f) := by
    rw [← filter_flatMap_key Prod.fst Change.cveId fun s ↦ (hkeys s).1]
    simp only [Cve.updateEpssScores, writeAll_history, Store.record, changesOf, List.filter_append]
  refine ⟨_, hch, ?_⟩
  rw [hrow]
  have h1 := length_filter_key (nodup_normalizeScores scores) cveId
  match hl : (normalizeScores scores).filter fun s ↦ decide (s.1 = cveId) with
  | [] =>
    rw [hl]
    exact .of_value_eq (fun h ↦ h) rfl
  | s :: t :: l => simp [hl] at h1
  | [s] =>
    rw [hl]
    obtain rfl : s.1 = cveId := by
      have hs : s ∈ (normalizeScores scores).filter fun s ↦ decide (s.1 = cveId) := by simp [hl]
      simpa using (List.mem_filter.mp hs).2
    rw [List.flatMap_singleton, List.flatMap_singleton]
    rcases epssUpdate_cases db s with ⟨he, -⟩ | ⟨r, hr, -, he⟩
    · rw [he]
      exact .of_value_eq (fun h ↦ h) rfl
    · rw [he, hr]
      exact epss_cell s.1 f r s.2.score s.2.percentile

omit [Tracking Score] in
theorem Still.display {cveId : Text} {f : Field} {db : Store Score} {scope : List Text}
    (h : f = .hasPoc → cveId ∈ scope → ∀ r, db.rows cveId = some r → r.hasPoc = false →
      Analysis.hasPublicPoc Score r.sourceUrls = false) : Still cveId f db (backfillDisplayFields db scope) := by
  apply Still.writeAll
  intro w hw
  obtain ⟨c, hc, hw⟩ := List.mem_flatMap.mp hw
  obtain ⟨mitre, r, hr, rfl⟩ := mem_displayUpdate hw
  refine ⟨_, fun _ ↦ rfl, ?_⟩
  intro hid r' hv
  subst hid
  cases f with
  | hasPoc =>
    have heq : r'.hasPoc = r.hasPoc := by
      rw [hr] at hv
      injection hv
    have hp := h rfl (by simpa using hc) r hr
    simp only [rowValue, heq]
    cases hb : r.hasPoc with
    | true => simp
    | false => simp [hp hb]
  | _ => rfl

/-- The event changes the field of the CVE where it also records the change: an upsert or an enrichment has at
most one record for the CVE, an upsert takes no patch back, an enrichment scores no stored CVE, and the
display backfill finds no exploit. EPSS scores need nothing. -/
def Recorded (cveId : Text) (f : Field) (db : Store Score) : Event Score → Prop
  | .upsert _ cves => f ≠ .epssScore → (recordsOf cveId cves).length ≤ 1 ∧
      (f = .patchAvailable → ∀ c ∈ recordsOf cveId cves, ∀ r, db.rows cveId = some r → r.patchAvailable = true →
        c.patchAvailable = true)
  | .additive _ _ enrichments => f ≠ .epssScore → (mine cveId enrichments).length ≤ 1 ∧
      (f = .cvssScore → ∀ c ∈ enrichments, NoScore cveId db c)
  | .backfillDisplay scope => f = .hasPoc → cveId ∈ scope → ∀ r, db.rows cveId = some r → r.hasPoc = false →
      Analysis.hasPublicPoc Score r.sourceUrls = false
  | _ => True

theorem Steps.step {cveId : Text} {f : Field} {db : Store Score} {e : Event Score} (h : Recorded cveId f db e) :
    Steps cveId f db (step db e) := by
  cases e with
  | upsert now cves =>
    by_cases hf : f = .epssScore
    · subst hf
      exact (Quiet.upsertCves cveId now db cves).steps
    · obtain ⟨h1, hp⟩ := h hf
      exact Steps.upsertCves h1 hp
  | additive now commitEvery enrichments =>
    by_cases hf : f = .epssScore
    · subst hf
      apply Quiet.steps
      exact applyAdditive_induction (fun db' batch _ hq ↦ hq.trans (.upsertCves cveId now db' batch)) (.refl cveId db)
        (fun _ hc ↦ hc) fun db' cve _ changes _ hq _ _ ↦ hq.trans (.additive cveId _ now db' changes)
    · obtain ⟨h1, hs⟩ := h hf
      exact Steps.additive h1 hs
  | llm now cveId' products =>
    change Steps cveId f db (setLlmAffectedProducts now db cveId' products)
    rw [setLlmAffectedProducts]
    split
    · exact (Still.refl cveId f db).steps
    · apply Still.steps
      apply Still.writeAll db [(upper cveId', .llmProducts now products)]
      intro w hw
      obtain rfl := List.mem_singleton.mp hw
      refine ⟨llmRow now products, fun _ ↦ rfl, ?_⟩
      intro _ r _
      rw [llmRow]
      split
      · cases f <;> rfl
      · rfl
  | epss scores => exact Steps.updateEpssScores cveId f db scores
  | kev cveIds => exact Steps.markCvesAsKev cveId f db cveIds
  | poc cveIds =>
    apply Steps.switchPocOn cveId f
    · exact ((List.perm_insertionSort _ _).nodup_iff.mpr (List.nodup_dedup _)).filter _
    · exact fun c hc ↦ (List.mem_filter.mp hc).2
  | backfillPoc scope =>
    apply Steps.switchPocOn cveId f
    · exact (List.nodup_dedup _).filter _
    · intro c hc
      exact (Bool.and_eq_true_iff.mp (List.mem_filter.mp hc).2).1
  | backfillDisplay scope => exact (Still.display h).steps

omit [Interp] [Dumps] [Analysis Score] in
theorem inv_empty (cveId : Text) (f : Field) : Inv cveId f (Store.empty : Store Score) :=
  ⟨⟨unset f, fun _ ↦ rfl, .refl f _⟩, fun _ ↦ rfl⟩

/-- The history of every field of every CVE leads, change by change, to the stored value, and a step that
leaves the value of the field records nothing for it. -/
theorem history_faithful (cveId : Text) (f : Field) {events : List (Event Score)}
    (h : Along step (Recorded cveId f) Store.empty events) :
    Faithful cveId f (run step Store.empty events) ∧
      (f ≠ .cvssScore → f ≠ .epssScore →
        Chain (changesOf cveId f (run step Store.empty events).history)
          (render (value ((run step Store.empty events).rows cveId) f))) ∧
      ∀ before e after, events = before ++ e :: after →
        value ((run step Store.empty (before ++ [e])).rows cveId) f = value ((run step Store.empty before).rows cveId) f →
        changesOf cveId f (run step Store.empty (before ++ [e])).history =
          changesOf cveId f (run step Store.empty before).history := by
  have hinv : Inv cveId f (run step Store.empty events) :=
    run_induction (fun _ _ hi he ↦ hi.steps (Steps.step he)) (inv_empty cveId f) h
  refine ⟨hinv.faithful, ?_, ?_⟩
  · obtain ⟨v, -, hl⟩ := hinv.faithful
    exact hl.chain
  · intro before e after he hv
    subst he
    obtain ⟨-, hr, -⟩ := along_append.mp h
    rw [run_append] at hv ⊢
    exact (Steps.step hr).no_change hv

end

section
local instance : Interp := asciiJson

local instance : Dumps := asciiDumps

local instance : Analysis ℕ := plainAnalysis

local instance : Tracking ℕ := micro

/-- A CVE gets an EPSS score, then one that reads the same to a tenth of a percent. -/
def epssRun : List (Event ℕ) :=
  [.upsert [] [nvdRecord "CVE-2026-1" none [] []],
    .epss [("CVE-2026-1".toList, ⟨50000, none⟩)],
    .epss [("CVE-2026-1".toList, ⟨50100, some 900000⟩)],
    .kev ["CVE-2026-1".toList]]

theorem epss_run_faithful :
    Along step (Recorded "CVE-2026-1".toList .isKev) Store.empty epssRun ∧
      Faithful "CVE-2026-1".toList .isKev (run step Store.empty epssRun) :=
  have h : Along step (Recorded "CVE-2026-1".toList .isKev) Store.empty epssRun :=
    ⟨fun _ ↦ ⟨by decide, fun h ↦ by cases h⟩, trivial, trivial, trivial, trivial⟩
  ⟨h, (history_faithful "CVE-2026-1".toList .isKev h).1⟩

theorem epss_drift_unrecorded :
    ¬Chain (changesOf "CVE-2026-1".toList .epssScore (run step Store.empty epssRun).history)
      (render (value ((run step Store.empty epssRun).rows "CVE-2026-1".toList) .epssScore)) := by
  intro h
  have hl : "0.05".toList = "0.0501".toList := h
  exact absurd hl (by decide)

end

end Briefr.Db.ChangeHistory
