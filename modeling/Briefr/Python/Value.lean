import Mathlib.Data.List.DropRight
import Mathlib.Data.List.Infix
import Mathlib.Order.Lex
import Mathlib.Data.Char

namespace Briefr.Python

abbrev Text := List Char

instance : Coe String Text := ⟨String.toList⟩

-- named, so that membership in a list of texts is decided by the same term in every module
instance : LawfulBEq Text := inferInstance

instance : LawfulBEq (Text × Text) := inferInstance

instance : LawfulBEq (Text × Text × Text) := inferInstance

/-- The exceptions that the modelled code lets escape. -/
inductive Exc
  | attributeError
  | typeError
  | valueError
  | overflowError
  deriving DecidableEq, Repr

abbrev Py := Except Exc

/-- What `json.loads` builds. A number is kept as the text `str` shows for it,
since nothing here computes with one. The keys of a `dict` are distinct. -/
inductive Value
  | none
  | bool (b : Bool)
  | num (shown : Text) (zero : Bool)
  | str (s : Text)
  | list (l : List Value)
  | dict (fields : List (Text × Value))

def isKeyChar (c : Char) : Bool := (97 ≤ c.toNat && c.toNat ≤ 122) || (48 ≤ c.toNat && c.toNat ≤ 57)

def sigma : Char := Char.ofNat 0x3C3

def finalSigma : Char := Char.ofNat 0x3C2

/-- Equal, or the two lower-case forms of a sigma. -/
def SameLower (c d : Char) : Prop := c = d ∨ (c = sigma ∧ d = finalSigma)

/-- The ASCII characters that `str.isspace` accepts. -/
def isAsciiSpace (c : Char) : Bool :=
  c.toNat == 32 || (9 ≤ c.toNat && c.toNat ≤ 13) || (28 ≤ c.toNat && c.toNat ≤ 31)

/-- The parts of the interpreter that are tables or parsers of its own: case
mapping, character classes, `str` of a value that is no string, and `json.loads`,
whose `none` is a `JSONDecodeError`. Upper-cased text stays as it is. Lower-casing maps character by character,
except that it chooses the form of a sigma by its context. -/
class Interp where
  lower : Text → Text
  upper : Text → Text
  lowerChar : Char → Text
  isSpace : Char → Bool
  isDecimal : Char → Bool
  isDigit : Char → Bool
  decimalValue : Char → ℕ
  strOther : Value → Text
  loads : Text → Option Value
  upper_idem : ∀ s, upper (upper s) = upper s
  upper_eq_nil : ∀ s, upper s = [] → s = []
  lower_spec : ∀ s : Text, List.Forall₂ SameLower (s.flatMap lowerChar) (lower s)
  lowerChar_ascii : ∀ c, c.toNat < 128 → lowerChar c = [c.toLower]
  lowerChar_idem : ∀ c, ∀ d ∈ lowerChar c, lowerChar d = [d]
  lowerChar_finalSigma : lowerChar finalSigma = [finalSigma]
  lowerChar_colon : ∀ c, ':' ∈ lowerChar c → c = ':'
  lowerChar_space : ∀ c, isSpace c = true → lowerChar c = [c]
  isSpace_ascii : ∀ c, c.toNat < 128 → isSpace c = isAsciiSpace c
  isSpace_other : ∀ c, isSpace c = true → isKeyChar c = false ∧ c ≠ sigma ∧ c ≠ ':'

export Interp (lower upper lowerChar isSpace isDecimal isDigit decimalValue strOther loads)

/-- What `float(value)` does. -/
inductive FloatCall (Score : Type)
  | value (score : Score)
  | valueError
  | overflowError

theorem FloatCall.valueError_ne {Score : Type} (_ : Text) : (valueError : FloatCall Score) ≠ overflowError := nofun

/-- `float`; a string is never too large for it. -/
class Floats (Score : outParam Type) where
  float : Value → FloatCall Score
  float_str : ∀ s, float (.str s) ≠ .overflowError

export Floats (float)

/-- A Python `dict` with string keys. -/
abbrev Dict := List (Text × Value)

def Dict.get (d : Dict) (key : Text) : Value := (d.lookup key).getD .none

namespace Value

def truthy : Value → Bool
  | none => false
  | bool b => b
  | num _ zero => !zero
  | str s => !s.isEmpty
  | list l => !l.isEmpty
  | dict fields => !fields.isEmpty

def isNone : Value → Bool
  | none => true
  | _ => false

def isStr : Value → Bool
  | str _ => true
  | _ => false

def isDict : Value → Bool
  | dict _ => true
  | _ => false

/-- `d.get(key)`, which only a `dict` has. -/
def get (key : Text) : Value → Py Value
  | dict fields => .ok ((fields.lookup key).getD none)
  | _ => .error .attributeError

/-- Iteration in a `for`: characters of a string, keys of a `dict`. -/
def iter : Value → Py (List Value)
  | list l => .ok l
  | str s => .ok (s.map fun c ↦ str [c])
  | dict fields => .ok (fields.map fun p ↦ str p.1)
  | _ => .error .typeError

/-- `value or default`. -/
def orElse (v d : Value) : Value := if v.truthy then v else d

/-- `value or ""` on which a string method is then called. -/
def orText (v : Value) : Py Text :=
  if v.truthy then
    match v with
    | str s => .ok s
    | _ => .error .attributeError
  else .ok []

@[simp] theorem orText_none : none.orText = .ok [] := rfl

@[simp] theorem orText_str (s : Text) : (str s).orText = .ok s := by
  cases s <;> rfl

@[simp] theorem iter_list (l : List Value) : (list l).iter = .ok l := rfl

@[simp] theorem isDict_dict (f : List (Text × Value)) : (dict f).isDict = true := rfl

end Value

section Text
variable [Interp]

/-- `str(value)`. -/
def str : Value → Text
  | .str s => s
  | v => strOther v

@[simp] theorem str_str (s : Text) : str (.str s) = s := rfl

/-- `str(value or "")`. -/
def strOr (v : Value) : Text := if v.truthy then str v else []

/-- `s.strip()`. -/
def strip (s : Text) : Text := (s.dropWhile isSpace).rdropWhile isSpace

/-- `needle in hay` on strings. -/
def isIn (needle hay : Text) : Bool := decide (needle <:+: hay)

/-- `vendor, product = entry.split(":", 1)` for an entry that holds a colon. -/
def splitColon (entry : Text) : Text × Text :=
  (entry.takeWhile (· != ':'), (entry.dropWhile (· != ':')).tail)

/-- The longest digit string `int` accepts. -/
def maxIntDigits : ℕ := 4300

/-- `int(chunk)` for a chunk that `str.isdigit` accepts. -/
def int (chunk : Text) : Py ℕ :=
  if chunk.all isDecimal && decide (chunk.length ≤ maxIntDigits) then
    .ok (chunk.foldl (fun n c ↦ 10 * n + decimalValue c) 0)
  else .error .valueError

end Text

end Briefr.Python
