import Mathlib.Algebra.GroupWithZero.Nat
import Mathlib.Data.List.Lex
import Briefr.Python.Value

namespace Briefr.Python

structure Date where
  year : ℕ
  month : ℕ
  day : ℕ
  year_le : year ≤ 9999
  month_le : month ≤ 12
  day_le : day ≤ 31
  deriving DecidableEq

/-- A UTC time, to the hour. -/
structure Utc where
  date : Date
  hour : ℕ
  hour_le : hour ≤ 23
  deriving DecidableEq

def digit (n : ℕ) : Char := Char.ofNat (48 + n % 10)

def twoDigits (n : ℕ) : Text := [digit (n / 10), digit n]

/-- `strftime("%Y-%m")`. -/
def monthText (d : Date) : Text := twoDigits (d.year / 100) ++ (twoDigits (d.year % 100) ++ '-' :: twoDigits d.month)

/-- `strftime("%Y-%m-%d")`. -/
def dateText (d : Date) : Text := monthText d ++ '-' :: twoDigits d.day

/-- `strftime("%Y-%m-%dT%H")`. -/
def hourText (t : Utc) : Text := dateText t.date ++ 'T' :: twoDigits t.hour

def isLeap (year : ℕ) : Bool := year % 4 == 0 && (year % 100 != 0 || year % 400 == 0)

def daysInMonth (year month : ℕ) : ℕ :=
  if month = 2 then if isLeap year then 29 else 28
  else if month ∈ [4, 6, 9, 11] then 30
  else 31

theorem daysInMonth_le (year month : ℕ) : daysInMonth year month ≤ 31 := by
  rw [daysInMonth]
  split
  · split <;> omega
  · split <;> omega

/-- `date.toordinal()`: the days since the year 1 began, the day itself counted. -/
def Date.toOrdinal (d : Date) : ℕ :=
  let y := d.year - 1
  y * 365 + y / 4 - y / 100 + y / 400 + ((List.range d.month).map fun m ↦ if m = 0 then 0 else daysInMonth d.year m).sum + d.day

/-- Monday is 0. -/
def Date.weekday (d : Date) : ℕ := (d.toOrdinal + 6) % 7

def Date.dayBefore (d : Date) : Date :=
  if 1 < d.day then ⟨d.year, d.month, d.day - 1, d.year_le, d.month_le, (Nat.sub_le _ _).trans d.day_le⟩
  else if 1 < d.month then
    ⟨d.year, d.month - 1, daysInMonth d.year (d.month - 1), d.year_le, (Nat.sub_le _ _).trans d.month_le, daysInMonth_le _ _⟩
  else ⟨d.year - 1, 12, 31, (Nat.sub_le _ _).trans d.year_le, le_rfl, le_rfl⟩

/-- `d - timedelta(days=d.weekday())`. -/
def Date.weekStart (d : Date) : Date := Date.dayBefore^[d.weekday] d

def Date.before (a b : Date) : Prop :=
  a.year < b.year ∨ a.year = b.year ∧ (a.month < b.month ∨ a.month = b.month ∧ a.day < b.day)

instance (a b : Date) : Decidable (a.before b) := inferInstanceAs (Decidable (_ ∨ _))

theorem toNat_digit (n : ℕ) : (digit n).toNat = 48 + n % 10 := by
  have hdigits : ∀ k < 10, (Char.ofNat (48 + k)).toNat = 48 + k := by decide
  exact hdigits (n % 10) (Nat.mod_lt n (by omega))

theorem digit_lt_iff {m n : ℕ} : digit m < digit n ↔ m % 10 < n % 10 := by
  have h : digit m < digit n ↔ (digit m).toNat < (digit n).toNat := Iff.rfl
  rw [h, toNat_digit, toNat_digit]
  omega

theorem digit_inj {m n : ℕ} : digit m = digit n ↔ m % 10 = n % 10 := by
  rw [← Char.toNat_inj, toNat_digit, toNat_digit]
  omega

theorem twoDigits_lt_iff {m n : ℕ} (hm : m < 100) (hn : n < 100) (s t : Text) :
    twoDigits m ++ s < twoDigits n ++ t ↔ m < n ∨ m = n ∧ s < t := by
  simp only [twoDigits, List.cons_append, List.nil_append, List.cons_lt_cons_iff, digit_lt_iff, digit_inj]
  by_cases hst : s < t
  · simp only [hst, and_true]
    omega
  · simp only [hst, and_false, or_false]
    omega

/-- Texts of dates are in the order of the dates, whatever follows. -/
theorem dateText_lt_iff (a b : Date) (s t : Text) :
    dateText a ++ s < dateText b ++ t ↔ a.before b ∨ (a = b ∧ s < t) := by
  have := a.year_le
  have := a.month_le
  have := a.day_le
  have := b.year_le
  have := b.month_le
  have := b.day_le
  have heq : a = b ↔ a.year = b.year ∧ a.month = b.month ∧ a.day = b.day := by
    cases a
    cases b
    simp
  simp only [dateText, monthText, List.append_assoc, List.cons_append]
  rw [twoDigits_lt_iff (by omega) (by omega), twoDigits_lt_iff (by omega) (by omega), List.cons_lt_cons_iff,
    twoDigits_lt_iff (by omega) (by omega), List.cons_lt_cons_iff, twoDigits_lt_iff (by omega) (by omega), heq,
    Date.before]
  simp only [lt_irrefl, false_or, true_and]
  by_cases hst : s < t
  · simp only [hst, and_true]
    omega
  · simp only [hst, and_false, or_false]
    omega

theorem dateText_le {a b : Date} (h : ¬b.before a) (s : Text) : dateText a ≤ dateText b ++ s := by
  rw [← not_lt]
  intro hlt
  have hlt : dateText b ++ s < dateText a ++ [] := by rwa [List.append_nil]
  rcases (dateText_lt_iff b a s []).mp hlt with hba | ⟨-, hs⟩
  · exact h hba
  · exact absurd hs (List.not_lt_nil s)

end Briefr.Python
