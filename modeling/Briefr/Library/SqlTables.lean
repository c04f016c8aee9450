import Briefr.Library.Dict
import Mathlib.Data.List.Pairwise

namespace Briefr.Library.Sql

/-- The columns of a row; `none` is NULL. -/
abbrev Row (γ ν : Type) := γ → Option ν

structure ForeignKey (τ γ : Type) where
  columns : List γ
  table : τ
  references : List γ

/-- What a table declares, with the value of a column that an `INSERT` leaves out. -/
structure TableDef (τ γ ν : Type) where
  columns : List γ
  primaryKey : List γ
  uniques : List (List γ)
  foreignKeys : List (ForeignKey τ γ)
  notNull : List γ
  checks : List (γ × (Option ν → Bool))
  default : Row γ ν
  covered : primaryKey ++ uniques.flatten ++ (foreignKeys.flatMap ForeignKey.columns ++ (notNull ++ checks.map Prod.fst)) ⊆
    columns

variable {τ γ ν : Type}

def values (cols : List γ) (r : Row γ ν) : List (Option ν) := cols.map r

def Agree (cols : List γ) (r s : Row γ ν) : Prop := ∀ c ∈ cols, r c = s c

theorem Agree.symm {cols : List γ} {r s : Row γ ν} (h : Agree cols r s) : Agree cols s r := fun c hc ↦ (h c hc).symm

theorem Agree.values_eq {cols sub : List γ} {r s : Row γ ν} (h : Agree cols r s) (hsub : sub ⊆ cols) :
    values sub r = values sub s := List.map_congr_left fun c hc ↦ h c (hsub hc)

theorem agree_of_values_eq {cols : List γ} {r s : Row γ ν} (h : values cols r = values cols s) : Agree cols r s :=
  List.map_inj_left.mp h

/-- Two rows that a unique key does not let stand together: NULL is equal to nothing. -/
def Clash (cols : List γ) (r s : Row γ ν) : Prop := values cols r = values cols s ∧ none ∉ values cols s

theorem Clash.symm {cols : List γ} {r s : Row γ ν} (h : Clash cols r s) : Clash cols s r := ⟨h.1.symm, h.1 ▸ h.2⟩

theorem clash_comm {cols : List γ} {r s : Row γ ν} : Clash cols r s ↔ Clash cols s r := ⟨Clash.symm, Clash.symm⟩

theorem clash_congr_left {cols : List γ} {r r' : Row γ ν} (h : values cols r = values cols r') (s : Row γ ν) :
    Clash cols r s ↔ Clash cols r' s := by rw [Clash, Clash, h]

theorem clash_congr_right {cols : List γ} {s s' : Row γ ν} (h : values cols s = values cols s') (r : Row γ ν) :
    Clash cols r s ↔ Clash cols r s' := by rw [Clash, Clash, h]

instance [DecidableEq ν] (cols : List γ) (r s : Row γ ν) : Decidable (Clash cols r s) :=
  inferInstanceAs (Decidable (_ ∧ _))

def Distinct (keys : List (List γ)) (rows : List (Row γ ν)) : Prop :=
  ∀ cols ∈ keys, rows.Pairwise fun r s ↦ ¬Clash cols r s

instance [DecidableEq ν] (keys : List (List γ)) (rows : List (Row γ ν)) : Decidable (Distinct keys rows) :=
  inferInstanceAs (Decidable (∀ cols ∈ keys, rows.Pairwise fun r s ↦ ¬Clash cols r s))

namespace TableDef

def keys [DecidableEq γ] (d : TableDef τ γ ν) : List (List γ) :=
  if d.primaryKey = [] then d.uniques else d.primaryKey :: d.uniques

/-- The constraints on a row by itself. -/
def Accepts (d : TableDef τ γ ν) (r : Row γ ν) : Prop :=
  (∀ c ∈ d.primaryKey ++ d.notNull, r c ≠ none) ∧ ∀ p ∈ d.checks, p.2 (r p.1) = true

instance [DecidableEq ν] (d : TableDef τ γ ν) (r : Row γ ν) : Decidable (d.Accepts r) :=
  inferInstanceAs (Decidable (_ ∧ _))

theorem primaryKey_subset (d : TableDef τ γ ν) : d.primaryKey ⊆ d.columns := fun _ hc ↦
  d.covered (List.mem_append_left _ (List.mem_append_left _ hc))

theorem unique_subset (d : TableDef τ γ ν) {cols : List γ} (h : cols ∈ d.uniques) : cols ⊆ d.columns := fun _ hc ↦
  d.covered (List.mem_append_left _ (List.mem_append_right _ (List.mem_flatten.mpr ⟨cols, h, hc⟩)))

theorem foreignKey_subset (d : TableDef τ γ ν) {fk : ForeignKey τ γ} (h : fk ∈ d.foreignKeys) :
    fk.columns ⊆ d.columns := fun _ hc ↦
  d.covered (List.mem_append_right _ (List.mem_append_left _ (List.mem_flatMap.mpr ⟨fk, h, hc⟩)))

theorem notNull_subset (d : TableDef τ γ ν) : d.notNull ⊆ d.columns := fun _ hc ↦
  d.covered (List.mem_append_right _ (List.mem_append_right _ (List.mem_append_left _ hc)))

theorem check_subset (d : TableDef τ γ ν) {p : γ × (Option ν → Bool)} (h : p ∈ d.checks) : p.1 ∈ d.columns :=
  d.covered (List.mem_append_right _ (List.mem_append_right _ (List.mem_append_right _ (List.mem_map_of_mem h))))

theorem accepts_congr {d : TableDef τ γ ν} {r s : Row γ ν} (h : Agree d.columns r s) : d.Accepts r ↔ d.Accepts s := by
  refine and_congr (forall₂_congr fun c hc ↦ ?_) (forall₂_congr fun p hp ↦ ?_)
  · have hsub : c ∈ d.columns := (List.mem_append.mp hc).elim (d.primaryKey_subset ·) (d.notNull_subset ·)
    rw [h c hsub]
  · rw [h p.1 (d.check_subset hp)]

theorem values_primaryKey_ne {d : TableDef τ γ ν} {r : Row γ ν} (h : d.Accepts r) : none ∉ values d.primaryKey r := by
  intro hn
  obtain ⟨c, hc, hr⟩ := List.mem_map.mp hn
  exact h.1 c (List.mem_append_left _ hc) hr

/-- Primary keys are never NULL, so that two rows clash there as soon as their keys are equal. -/
theorem clash_primaryKey {d : TableDef τ γ ν} {r s : Row γ ν} (h : d.Accepts s) :
    Clash d.primaryKey r s ↔ values d.primaryKey r = values d.primaryKey s := and_iff_left (values_primaryKey_ne h)

theorem clash_notNull {d : TableDef τ γ ν} {cols : List γ} {r s : Row γ ν} (hcols : cols ⊆ d.notNull) (h : d.Accepts s) :
    Clash cols r s ↔ values cols r = values cols s := by
  refine and_iff_left fun hn ↦ ?_
  obtain ⟨c, hc, hs⟩ := List.mem_map.mp hn
  exact h.1 c (List.mem_append_right _ (hcols hc)) hs

variable [DecidableEq γ]

theorem key_subset (d : TableDef τ γ ν) {cols : List γ} (h : cols ∈ d.keys) : cols ⊆ d.columns := by
  rw [keys] at h
  split at h
  · exact d.unique_subset h
  · rcases List.mem_cons.mp h with rfl | h
    · exact d.primaryKey_subset
    · exact d.unique_subset h

theorem primaryKey_mem_keys {d : TableDef τ γ ν} (h : d.primaryKey ≠ []) : d.primaryKey ∈ d.keys := by
  rw [keys, if_neg h]
  exact .head _

theorem unique_mem_keys {d : TableDef τ γ ν} {cols : List γ} (h : cols ∈ d.uniques) : cols ∈ d.keys := by
  rw [keys]
  split
  · exact h
  · exact .tail _ h

theorem mem_keys {d : TableDef τ γ ν} {cols : List γ} (h : cols ∈ d.keys) : cols = d.primaryKey ∨ cols ∈ d.uniques := by
  rw [keys] at h
  split at h
  · exact .inr h
  · exact List.mem_cons.mp h

end TableDef

variable (τ γ ν) in
/-- A table whose rows keep what it declares. -/
structure Table [DecidableEq γ] where
  decl : TableDef τ γ ν
  rows : List (Row γ ν)
  accepted : ∀ r ∈ rows, decl.Accepts r
  distinct : Distinct decl.keys rows

inductive SqlError
  | undefinedColumn
  | invalidConflictTarget
  | checkViolation
  | uniqueViolation
  | foreignKeyViolation
  deriving DecidableEq

inductive OnConflict (γ : Type)
  | doNothing
  | doUpdate (set : List γ)
  deriving DecidableEq

/-- The row that an `INSERT` of these columns proposes. -/
def proposed [DecidableEq γ] (cols : List γ) (default s : Row γ ν) : Row γ ν := fun c ↦ if c ∈ cols then s c else default c

def overwrite [DecidableEq γ] (set : List γ) (old new : Row γ ν) : Row γ ν := fun c ↦ if c ∈ set then new c else old c

variable [DecidableEq γ]

theorem agree_proposed (cols : List γ) (default s : Row γ ν) : Agree cols (proposed cols default s) s :=
  fun _ hc ↦ if_pos hc

namespace Table

theorem ext {t t' : Table τ γ ν} (hd : t.decl = t'.decl) (hr : t.rows = t'.rows) : t = t' := by
  cases t
  cases t'
  subst hd
  subst hr
  rfl

theorem eq_of_key {t : Table τ γ ν} {cols : List γ} (hcols : cols ∈ t.decl.keys) {r s : Row γ ν} (hr : r ∈ t.rows)
    (hs : s ∈ t.rows) (h : Clash cols r s) : r = s := by
  by_contra hne
  have : Std.Symm fun r s : Row γ ν ↦ ¬Clash cols r s := ⟨fun _ _ h h' ↦ h h'.symm⟩
  exact (t.distinct cols hcols).forall hr hs hne h

variable [DecidableEq ν]

/-- The constraints are checked as soon as a row is written. -/
def put (t : Table τ γ ν) (rows : List (Row γ ν)) : Except SqlError (Table τ γ ν) :=
  if ha : ∀ r ∈ rows, t.decl.Accepts r then
    if hd : Distinct t.decl.keys rows then .ok ⟨t.decl, rows, ha, hd⟩ else .error .uniqueViolation
  else .error .checkViolation

/-- One row of `INSERT INTO t (cols) … ON CONFLICT (conflict) …`, with the count of the rows written. -/
def upsertRow (t : Table τ γ ν) (cols conflict : List γ) (action : OnConflict γ) (s : Row γ ν) :
    Except SqlError (Table τ γ ν × ℕ) :=
  let new := proposed cols t.decl.default s
  if t.decl.Accepts new then
    if ∃ r ∈ t.rows, Clash conflict r new then
      match action with
      | .doNothing => .ok (t, 0)
      | .doUpdate set =>
        (t.put (t.rows.map fun r ↦ if Clash conflict r new then overwrite set r new else r)).map (·, 1)
    else (t.put (t.rows ++ [new])).map (·, 1)
  else .error .checkViolation

def insertRows (cols conflict : List γ) (action : OnConflict γ) :
    List (Row γ ν) → Table τ γ ν × ℕ → Except SqlError (Table τ γ ν × ℕ)
  | [], acc => .ok acc
  | s :: rows, acc =>
    match acc.1.upsertRow cols conflict action s with
    | .error e => .error e
    | .ok (t, n) => insertRows cols conflict action rows (t, acc.2 + n)

/-- `INSERT INTO t (cols) SELECT cols FROM … ON CONFLICT (conflict) …`: an error leaves no row written. -/
def insertSelect (t : Table τ γ ν) (cols conflict : List γ) (action : OnConflict γ) (rows : List (Row γ ν)) :
    Except SqlError (Table τ γ ν × ℕ) :=
  if cols ⊆ t.decl.columns then
    if ∃ key ∈ t.decl.keys, key ⊆ conflict ∧ conflict ⊆ key then insertRows cols conflict action rows (t, 0)
    else .error .invalidConflictTarget
  else .error .undefinedColumn

theorem put_eq_ok {t t' : Table τ γ ν} {rows : List (Row γ ν)} :
    t.put rows = .ok t' ↔ t'.decl = t.decl ∧ t'.rows = rows := by
  constructor
  · intro h
    rw [put] at h
    split at h
    · split at h
      · cases h
        exact ⟨rfl, rfl⟩
      · cases h
    · cases h
  · intro ⟨hd, hr⟩
    have ha : ∀ r ∈ rows, t.decl.Accepts r := hd ▸ hr ▸ t'.accepted
    have hk : Distinct t.decl.keys rows := hd ▸ hr ▸ t'.distinct
    rw [put, dif_pos ha, dif_pos hk]
    exact congrArg Except.ok (ext hd.symm hr.symm)

end Table

variable [DecidableEq τ] [DecidableEq ν]

/-- Every row finds the row that its foreign keys name. -/
def References (tables : Dict τ (Table τ γ ν)) : Prop :=
  ∀ e ∈ tables.items, ∀ fk ∈ e.2.decl.foreignKeys, ∀ r ∈ e.2.rows, none ∈ values fk.columns r ∨
    ∃ parent ∈ tables.get? fk.table, ∃ q ∈ parent.rows, values fk.references q = values fk.columns r

instance (tables : Dict τ (Table τ γ ν)) : Decidable (References tables) :=
  inferInstanceAs (Decidable (∀ e ∈ tables.items, _))

variable (τ γ ν) in
structure Schema where
  tables : Dict τ (Table τ γ ν)
  references : References tables

namespace Schema

def table? (s : Schema τ γ ν) (name : τ) : Option (Table τ γ ν) := s.tables.get? name

def rowsOf (s : Schema τ γ ν) (name : τ) : List (Row γ ν) := (s.table? name).elim [] Table.rows

/-- Foreign keys are checked at the end of the statement that wrote the table. -/
def write (s : Schema τ γ ν) (name : τ) (t : Table τ γ ν) : Except SqlError (Schema τ γ ν) :=
  if h : References (s.tables.set name t) then .ok ⟨s.tables.set name t, h⟩ else .error .foreignKeyViolation

omit [DecidableEq ν] in
theorem finds_parent (s : Schema τ γ ν) {name : τ} {t : Table τ γ ν} (h : s.table? name = some t) {fk : ForeignKey τ γ}
    (hfk : fk ∈ t.decl.foreignKeys) {r : Row γ ν} (hr : r ∈ t.rows) : none ∈ values fk.columns r ∨
      ∃ parent, s.table? fk.table = some parent ∧ ∃ q ∈ parent.rows, values fk.references q = values fk.columns r :=
  s.references (name, t) (Dict.mem_items_iff.mpr h) fk hfk r hr

theorem write_eq_ok {s s' : Schema τ γ ν} {name : τ} {t : Table τ γ ν} :
    s.write name t = .ok s' ↔ s'.tables = s.tables.set name t := by
  obtain ⟨tables', h'⟩ := s'
  rw [write]
  split
  · next h =>
    rw [Except.ok.injEq, Schema.mk.injEq]
    exact eq_comm
  · next h => exact iff_of_false nofun fun he ↦ h (he ▸ h')

theorem table?_of_write {s s' : Schema τ γ ν} {name : τ} {t : Table τ γ ν} (h : s.write name t = .ok s') (other : τ) :
    s'.table? other = if other = name then some t else s.table? other := by
  rw [table?, write_eq_ok.mp h, Dict.get?_set, table?]

theorem write_isOk {s : Schema τ γ ν} {name : τ} {t : Table τ γ ν} (h : References (s.tables.set name t)) :
    ∃ s', s.write name t = .ok s' := ⟨_, dif_pos h⟩

theorem write_same {s : Schema τ γ ν} {name : τ} {t : Table τ γ ν} (h : s.table? name = some t) :
    s.write name t = .ok s := write_eq_ok.mpr (Dict.set_get? h).symm

end Schema

end Briefr.Library.Sql
