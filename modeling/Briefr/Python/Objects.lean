import Briefr.Library.Dict
import Briefr.Python.Value

namespace Briefr.Python

/-- What the code builds before it hands it to `json.dumps`; the keys of a `dict` are strings. -/
inductive Obj (F : Type)
  | none
  | bool (b : Bool)
  | int (n : ℤ)
  | float (x : F)
  | str (s : Text)
  | list (items : List (Obj F))
  | tuple (items : List (Obj F))
  | dict (fields : List (Text × Obj F))

namespace Obj

variable {F : Type}

mutual

/-- `json.loads(json.dumps(value))`: a tuple comes back as a list. -/
def reload : Obj F → Obj F
  | .none => .none
  | .bool b => .bool b
  | .int n => .int n
  | .float x => .float x
  | .str s => .str s
  | .list items => .list (reloadItems items)
  | .tuple items => .list (reloadItems items)
  | .dict fields => .dict (reloadFields fields)

def reloadItems : List (Obj F) → List (Obj F)
  | [] => []
  | o :: items => o.reload :: reloadItems items

def reloadFields : List (Text × Obj F) → List (Text × Obj F)
  | [] => []
  | (k, o) :: fields => (k, o.reload) :: reloadFields fields

end

mutual

/-- No tuple in it. -/
def Plain : Obj F → Prop
  | .none | .bool _ | .int _ | .float _ | .str _ => True
  | .list items => PlainItems items
  | .tuple _ => False
  | .dict fields => PlainFields fields

def PlainItems : List (Obj F) → Prop
  | [] => True
  | o :: items => o.Plain ∧ PlainItems items

def PlainFields : List (Text × Obj F) → Prop
  | [] => True
  | (_, o) :: fields => o.Plain ∧ PlainFields fields

end

mutual

theorem reload_of_plain : (o : Obj F) → o.Plain → o.reload = o
  | .none, _ | .bool _, _ | .int _, _ | .float _, _ | .str _, _ => by rw [reload]
  | .list items, h => by rw [reload, reloadItems_of_plain items (by rwa [Plain] at h)]
  | .tuple _, h => absurd h (by rw [Plain]; exact not_false)
  | .dict fields, h => by rw [reload, reloadFields_of_plain fields (by rwa [Plain] at h)]

theorem reloadItems_of_plain : (items : List (Obj F)) → PlainItems items → reloadItems items = items
  | [], _ => by rw [reloadItems]
  | o :: items, h => by
    rw [PlainItems] at h
    rw [reloadItems, reload_of_plain o h.1, reloadItems_of_plain items h.2]

theorem reloadFields_of_plain : (fields : List (Text × Obj F)) → PlainFields fields → reloadFields fields = fields
  | [], _ => by rw [reloadFields]
  | (k, o) :: fields, h => by
    rw [PlainFields] at h
    rw [reloadFields, reload_of_plain o h.1, reloadFields_of_plain fields h.2]

end

theorem plainItems_iff {items : List (Obj F)} : PlainItems items ↔ ∀ o ∈ items, o.Plain := by
  induction items with
  | nil => simp [PlainItems]
  | cons o items ih => simp [PlainItems, ih]

theorem plainFields_iff {fields : List (Text × Obj F)} : PlainFields fields ↔ ∀ e ∈ fields, e.2.Plain := by
  induction fields with
  | nil => simp [PlainFields]
  | cons e fields ih => simp [PlainFields, ih]

@[simp] theorem plain_none : (none : Obj F).Plain := by simp [Plain]

@[simp] theorem plain_bool (b : Bool) : (bool b : Obj F).Plain := by simp [Plain]

@[simp] theorem plain_int (n : ℤ) : (int n : Obj F).Plain := by simp [Plain]

@[simp] theorem plain_float (x : F) : (float x).Plain := by simp [Plain]

@[simp] theorem plain_str (s : Text) : (str s : Obj F).Plain := by simp [Plain]

@[simp] theorem plain_list {items : List (Obj F)} : (list items).Plain ↔ ∀ o ∈ items, o.Plain := by
  rw [Plain, plainItems_iff]

@[simp] theorem plain_dict {fields : List (Text × Obj F)} : (dict fields).Plain ↔ ∀ e ∈ fields, e.2.Plain := by
  rw [Plain, plainFields_iff]

/-- `d.get(key)`; only dictionaries are asked. -/
def get (o : Obj F) (key : Text) : Obj F :=
  match o with
  | .dict fields => (fields.lookup key).getD .none
  | _ => .none

/-- A key that is there, `d.get(key, default)`. -/
def getD (o : Obj F) (key : Text) (default : Obj F) : Obj F :=
  match o with
  | .dict fields => (fields.lookup key).getD default
  | _ => default

/-- `value or []`. -/
def items : Obj F → List (Obj F)
  | .list items | .tuple items => items
  | _ => []

/-- `value or ""`. -/
def text : Obj F → Text
  | .str s => s
  | _ => []

end Obj

/-- A value that `json` gives back as it was. -/
abbrev Json (F : Type) := { o : Obj F // o.Plain }

namespace Json

variable {F : Type}

def none : Json F := ⟨.none, Obj.plain_none⟩

def bool (b : Bool) : Json F := ⟨.bool b, Obj.plain_bool b⟩

def int (n : ℤ) : Json F := ⟨.int n, Obj.plain_int n⟩

def float (x : F) : Json F := ⟨.float x, Obj.plain_float x⟩

def str (s : Text) : Json F := ⟨.str s, Obj.plain_str s⟩

def strOrNone : Option Text → Json F
  | some s => str s
  | .none => none

def list (items : List (Json F)) : Json F := ⟨.list (items.map Subtype.val), by
  rw [Obj.plain_list, List.forall_mem_map]
  exact fun j _ ↦ j.2⟩

def dict (fields : List (Text × Json F)) : Json F := ⟨.dict (fields.map fun e ↦ (e.1, e.2.1)), by
  rw [Obj.plain_dict, List.forall_mem_map]
  exact fun e _ ↦ e.2.2⟩

def texts (l : List Text) : Json F := list (l.map str)

end Json

/-- The arithmetic of `float` and the texts of numbers, none of which is computed here. -/
class FloatOps (F : Type) where
  ofInt : ℤ → F
  /-- The literal `n * 10 ** -k`. -/
  lit : ℕ → ℕ → F
  add : F → F → F
  mul : F → F → F
  div : F → F → F
  lt : F → F → Bool
  isZero : F → Bool
  /-- `round(x, digits)`. -/
  round : F → ℕ → F
  /-- `f"{x:.1f}"`. -/
  fixed : F → Text
  /-- `str` of what is not a string. -/
  strOther : Obj F → Text

namespace Obj

variable {F : Type} [FloatOps F]

def truthy : Obj F → Bool
  | .none => false
  | .bool b => b
  | .int n => n ≠ 0
  | .float x => !FloatOps.isZero x
  | .str s => !s.isEmpty
  | .list items | .tuple items => !items.isEmpty
  | .dict fields => !fields.isEmpty

/-- `value or 0` in arithmetic. -/
def number : Obj F → F
  | .float x => x
  | .int n => FloatOps.ofInt n
  | .bool b => FloatOps.ofInt (if b then 1 else 0)
  | _ => FloatOps.ofInt 0

/-- The value in an f-string. -/
def shown : Obj F → Text
  | .str s => s
  | o => FloatOps.strOther o

end Obj

end Briefr.Python
