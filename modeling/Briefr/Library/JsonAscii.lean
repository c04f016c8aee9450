import Mathlib.Data.List.Basic
import Mathlib.Data.Char

namespace Briefr.Library.JsonAscii

def hexChar (n : ℕ) : Char := if n < 10 then Char.ofNat (48 + n) else Char.ofNat (87 + n)

def hexValue (c : Char) : Option ℕ :=
  if '0' ≤ c ∧ c ≤ '9' then some (c.toNat - 48)
  else if 'a' ≤ c ∧ c ≤ 'f' then some (c.toNat - 87)
  else if 'A' ≤ c ∧ c ≤ 'F' then some (c.toNat - 55)
  else none

/-- A UTF-16 code unit. -/
def unit (n : ℕ) : List Char := [hexChar (n / 4096), hexChar (n / 256 % 16), hexChar (n / 16 % 16), hexChar (n % 16)]

/-- The letter after the backslash of a character that has one. -/
def shortCode (c : Char) : Option Char :=
  if c = '"' ∨ c = '\\' then some c
  else if c = '\n' then some 'n'
  else if c = '\r' then some 'r'
  else if c = '\t' then some 't'
  else if c = Char.ofNat 8 then some 'b'
  else if c = Char.ofNat 12 then some 'f'
  else none

/-- A character inside a JSON string that holds ASCII characters only. -/
def escape (c : Char) : List Char :=
  match shortCode c with
  | some l => ['\\', l]
  | none =>
    if 32 ≤ c.toNat ∧ c.toNat < 127 then [c]
    else if c.toNat < 65536 then '\\' :: 'u' :: unit c.toNat
    else
      '\\' :: 'u' :: unit (55296 + (c.toNat - 65536) / 1024) ++
        '\\' :: 'u' :: unit (56320 + (c.toNat - 65536) % 1024)

def printString (s : List Char) : List Char := '"' :: s.flatMap escape ++ ['"']

/-- An object with one member, without spaces. -/
def printMember (key value : List Char) : List Char := '{' :: printString key ++ ':' :: printString value ++ ['}']

def shortEscape (c : Char) : Option Char :=
  if c = '"' ∨ c = '\\' ∨ c = '/' then some c
  else if c = 'n' then some '\n'
  else if c = 'r' then some '\r'
  else if c = 't' then some '\t'
  else if c = 'b' then some (Char.ofNat 8)
  else if c = 'f' then some (Char.ofNat 12)
  else none

def readUnit : List Char → Option (ℕ × List Char)
  | a :: b :: c :: d :: rest => do
    let a ← hexValue a
    let b ← hexValue b
    let c ← hexValue c
    let d ← hexValue d
    return (a * 4096 + b * 256 + c * 16 + d, rest)
  | _ => none

/-- The code unit after `\u`, or the pair of them that stands for one character. -/
def readCode (s : List Char) : Option (Char × List Char) :=
  (readUnit s).bind fun p ↦
    if 55296 ≤ p.1 ∧ p.1 < 56320 then
      match p.2 with
      | '\\' :: 'u' :: rest =>
        (readUnit rest).map fun q ↦ (Char.ofNat (65536 + (p.1 - 55296) * 1024 + (q.1 - 56320)), q.2)
      | _ => none
    else some (Char.ofNat p.1, p.2)

def readEscape : List Char → Option (Char × List Char)
  | [] => none
  | c :: rest => if c = 'u' then readCode rest else (shortEscape c).map fun c ↦ (c, rest)

/-- The rest of a string after its opening quote, and what follows it; `fuel` bounds its length. -/
def readString : ℕ → List Char → Option (List Char × List Char)
  | 0, _ => none
  | _ + 1, [] => none
  | fuel + 1, c :: rest =>
    if c = '"' then some ([], rest)
    else if c = '\\' then (readEscape rest).bind fun p ↦ (readString fuel p.2).map fun q ↦ (p.1 :: q.1, q.2)
    else (readString fuel rest).map fun q ↦ (c :: q.1, q.2)

def readMember : List Char → Option (List Char × List Char)
  | '{' :: '"' :: s =>
    (readString s.length s).bind fun p ↦
      match p.2 with
      | ':' :: '"' :: t => (readString t.length t).bind fun q ↦ if q.2 = ['}'] then some (p.1, q.1) else none
      | _ => none
  | _ => none

theorem hexValue_hexChar {n : ℕ} (h : n < 16) : hexValue (hexChar n) = some n := by
  have hall : ∀ n < 16, hexValue (hexChar n) = some n := by decide
  exact hall n h

theorem readUnit_unit {n : ℕ} (h : n < 65536) (rest : List Char) : readUnit (unit n ++ rest) = some (n, rest) := by
  simp only [unit, List.cons_append, List.nil_append, readUnit, hexValue_hexChar (show n / 4096 < 16 by omega),
    hexValue_hexChar (Nat.mod_lt _ (by decide : 0 < 16)), Option.bind_eq_bind, Option.bind_some]
  have hn : n / 4096 * 4096 + n / 256 % 16 * 256 + n / 16 % 16 * 16 + n % 16 = n := by omega
  rw [hn]
  rfl

/-- No character is a surrogate. -/
theorem toNat_cases (c : Char) : c.toNat < 55296 ∨ (57344 ≤ c.toNat ∧ c.toNat < 1114112) := by
  have h := c.valid
  simp only [UInt32.isValidChar, Nat.isValidChar] at h
  simp only [Char.toNat]
  omega

theorem readCode_unit {c : Char} (h : c.toNat < 65536) (rest : List Char) :
    readCode (unit c.toNat ++ rest) = some (c, rest) := by
  have hc := toNat_cases c
  rw [readCode, readUnit_unit h, Option.bind_some, if_neg (by omega), Char.ofNat_toNat]

theorem readCode_pair {c : Char} (h : 65536 ≤ c.toNat) (rest : List Char) :
    readCode (unit (55296 + (c.toNat - 65536) / 1024) ++
      '\\' :: 'u' :: (unit (56320 + (c.toNat - 65536) % 1024) ++ rest)) = some (c, rest) := by
  have hc := toNat_cases c
  rw [readCode, readUnit_unit (by omega), Option.bind_some, if_pos (by omega)]
  simp only [readUnit_unit (show 56320 + (c.toNat - 65536) % 1024 < 65536 by omega), Option.map_some]
  have hn : 65536 + (55296 + (c.toNat - 65536) / 1024 - 55296) * 1024 + (56320 + (c.toNat - 65536) % 1024 - 56320) =
      c.toNat := by omega
  rw [hn, Char.ofNat_toNat]

/-- An escape sequence goes through `readEscape`. -/
theorem readString_backslash (fuel : ℕ) {s rest : List Char} {c : Char} (h : readEscape s = some (c, rest)) :
    readString (fuel + 1) ('\\' :: s) = (readString fuel rest).map fun q ↦ (c :: q.1, q.2) := by
  rw [readString, if_neg (by decide), if_pos rfl, h, Option.bind_some]

theorem readEscape_shortCode {c l : Char} (h : shortCode c = some l) (rest : List Char) :
    readEscape (l :: rest) = some (c, rest) := by
  rw [shortCode] at h
  split_ifs at h with hq hn hr ht hb hf
  · obtain rfl := Option.some.inj h
    rcases hq with rfl | rfl <;> rfl
  · obtain rfl := Option.some.inj h
    rw [hn]
    rfl
  · obtain rfl := Option.some.inj h
    rw [hr]
    rfl
  · obtain rfl := Option.some.inj h
    rw [ht]
    rfl
  · obtain rfl := Option.some.inj h
    rw [hb]
    rfl
  · obtain rfl := Option.some.inj h
    rw [hf]
    rfl

theorem readString_escape (fuel : ℕ) (c : Char) (rest : List Char) :
    readString (fuel + 1) (escape c ++ rest) = (readString fuel rest).map fun q ↦ (c :: q.1, q.2) := by
  rw [escape]
  cases hl : shortCode c with
  | some l => exact readString_backslash fuel (readEscape_shortCode hl rest)
  | none =>
    have hq : c ≠ '"' ∧ c ≠ '\\' := by
      rw [← not_or]
      intro hq
      rw [shortCode, if_pos hq] at hl
      cases hl
    simp only
    split
    · rw [List.singleton_append, readString, if_neg hq.1, if_neg hq.2]
    · split
      · next hc =>
        rw [List.cons_append, List.cons_append]
        refine readString_backslash fuel ?_
        rw [readEscape, if_pos rfl]
        exact readCode_unit hc rest
      · next hc =>
        simp only [List.cons_append, List.append_assoc]
        refine readString_backslash fuel ?_
        rw [readEscape, if_pos rfl]
        exact readCode_pair (Nat.not_lt.mp hc) rest

theorem readString_print {s : List Char} {fuel : ℕ} (h : s.length < fuel) (rest : List Char) :
    readString fuel (s.flatMap escape ++ '"' :: rest) = some (s, rest) := by
  induction s generalizing fuel with
  | nil =>
    obtain ⟨fuel, rfl⟩ : ∃ n, fuel = n + 1 := ⟨fuel - 1, by simp at h; omega⟩
    rfl
  | cons c s ih =>
    obtain ⟨fuel, rfl⟩ : ∃ n, fuel = n + 1 := ⟨fuel - 1, by omega⟩
    rw [List.flatMap_cons, List.append_assoc, readString_escape, ih (by simpa using h)]
    rfl

theorem length_pos_escape (c : Char) : 0 < (escape c).length := by
  rw [escape]
  split
  · simp
  · split
    · simp
    · split <;> simp

theorem length_le_flatMap_escape (s : List Char) : s.length ≤ (s.flatMap escape).length := by
  induction s with
  | nil => exact Nat.zero_le _
  | cons c s ih =>
    have hc := length_pos_escape c
    rw [List.flatMap_cons, List.length_append, List.length_cons]
    omega

theorem readMember_print (key value : List Char) : readMember (printMember key value) = some (key, value) := by
  have hp : printMember key value = '{' :: '"' :: (key.flatMap escape ++ '"' ::
      (':' :: '"' :: (value.flatMap escape ++ '"' :: ['}']))) := by
    simp [printMember, printString]
  have hk := length_le_flatMap_escape key
  have hv := length_le_flatMap_escape value
  rw [hp, readMember, readString_print (by rw [List.length_append, List.length_cons]; omega), Option.bind_some]
  simp only
  rw [readString_print (by rw [List.length_append, List.length_cons]; omega), Option.bind_some, if_pos rfl]

end Briefr.Library.JsonAscii

namespace Briefr.Library.JsonStrings

/-- A character inside a JSON string. -/
def escape (c : Char) : List Char := if c = '"' ∨ c = '\\' then ['\\', c] else [c]

def printString (s : List Char) : List Char := '"' :: s.flatMap escape ++ ['"']

def printItems : List (List Char) → List Char
  | [] => []
  | s :: l => ", ".toList ++ printString s ++ printItems l

/-- A list of strings with Python's separators. -/
def print : List (List Char) → List Char
  | [] => "[]".toList
  | s :: l => '[' :: printString s ++ printItems l ++ [']']

/-- The rest of a string after its opening quote, and what follows it. -/
def readString : List Char → Option (List Char × List Char)
  | [] => none
  | '"' :: rest => some ([], rest)
  | '\\' :: c :: rest => (readString rest).map fun p ↦ (c :: p.1, p.2)
  | c :: rest => (readString rest).map fun p ↦ (c :: p.1, p.2)

/-- The items after the first one; `fuel` bounds their number. -/
def readItems : ℕ → List Char → Option (List (List Char))
  | 0, _ => none
  | _ + 1, [']'] => some []
  | fuel + 1, ',' :: ' ' :: '"' :: rest =>
    (readString rest).bind fun p ↦ (readItems fuel p.2).map fun l ↦ p.1 :: l
  | _ + 1, _ => none

def read : List Char → Option (List (List Char))
  | ['[', ']'] => some []
  | '[' :: '"' :: rest => (readString rest).bind fun p ↦ (readItems rest.length p.2).map fun l ↦ p.1 :: l
  | _ => none

theorem readString_print (s rest : List Char) : readString (s.flatMap escape ++ '"' :: rest) = some (s, rest) := by
  induction s with
  | nil => rfl
  | cons c s ih =>
    rw [List.flatMap_cons, escape]
    by_cases hc : c = '"' ∨ c = '\\'
    · rw [if_pos hc]
      simp only [List.cons_append, List.nil_append, readString, ih, Option.map_some]
    · rw [if_neg hc, not_or] at *
      simp only [List.cons_append, List.nil_append]
      rw [readString.eq_4 _ _ (by simpa using hc.1) (by simp [hc.2]), ih]
      rfl

theorem readItems_print {l : List (List Char)} {fuel : ℕ} (h : l.length < fuel) :
    readItems fuel (printItems l ++ [']']) = some l := by
  induction l generalizing fuel with
  | nil =>
    obtain ⟨fuel, rfl⟩ : ∃ n, fuel = n + 1 := ⟨fuel - 1, by simp at h; omega⟩
    rfl
  | cons s l ih =>
    obtain ⟨fuel, rfl⟩ : ∃ n, fuel = n + 1 := ⟨fuel - 1, by omega⟩
    have hp : printItems (s :: l) ++ [']'] =
        ',' :: ' ' :: '"' :: (s.flatMap escape ++ '"' :: (printItems l ++ [']'])) := by
      simp [printItems, printString]
    rw [hp, readItems, readString_print, Option.bind_some, ih (by simpa using h)]
    rfl

theorem length_le_printItems (l : List (List Char)) : l.length ≤ (printItems l).length := by
  induction l with
  | nil => exact Nat.zero_le _
  | cons s l ih =>
    simp only [printItems, printString, List.length_append, List.length_cons]
    omega

theorem read_print (l : List (List Char)) : read (print l) = some l := by
  cases l with
  | nil => rfl
  | cons s l =>
    have hp : print (s :: l) = '[' :: '"' :: (s.flatMap escape ++ '"' :: (printItems l ++ [']'])) := by
      simp [print, printString]
    have hl := length_le_printItems l
    rw [hp, read, readString_print, Option.bind_some, readItems_print]
    · rfl
    · simp only [List.length_append, List.length_cons]
      omega

end Briefr.Library.JsonStrings
