import Briefr.Outbound.Pacing
import Briefr.Python.Digits
import Briefr.Python.Loop

namespace Briefr.Outbound.Durations

open Briefr.Python Briefr.Outbound.Pacing

/-- A `float`. Its range is kept, its rounding is not. -/
inductive PyFloat
  | finite (x : ℚ)
  | posInf
  | negInf
  | nan
  deriving DecidableEq

/-- The least number that is nearer to `2 ^ 1024` than to any float. -/
def floatLimit : ℕ := 2 ^ 1024 - 2 ^ 970

theorem floatLimit_pos : 0 < floatLimit := by
  have hpow : ∀ {m n : ℕ}, m < n → 0 < 2 ^ n - 2 ^ m :=
    fun h ↦ Nat.sub_pos_of_lt (Nat.pow_lt_pow_right Nat.one_lt_two h)
  exact hpow (by decide)

namespace PyFloat

def of (x : ℚ) : PyFloat := if floatLimit ≤ x then .posInf else if x ≤ -floatLimit then .negInf else .finite x

/-- What an integer becomes in the arithmetic of floats. -/
def ofInt (n : ℕ) : Py PyFloat := if floatLimit ≤ n then .error .overflowError else .ok (.finite n)

/-- `x * q` for a positive constant. -/
def times (x : PyFloat) (q : ℚ) : PyFloat :=
  match x with
  | .finite x => of (x * q)
  | x => x

def add (x y : PyFloat) : PyFloat :=
  match x, y with
  | .finite x, .finite y => of (x + y)
  | .nan, _ | _, .nan | .posInf, .negInf | .negInf, .posInf => .nan
  | .posInf, _ | _, .posInf => .posInf
  | .negInf, _ | _, .negInf => .negInf

/-- `x - q`. -/
def minus (x : PyFloat) (q : ℚ) : PyFloat :=
  match x with
  | .finite x => of (x - q)
  | x => x

/-- `max(floor, x)`, which keeps its first argument unless the second one is greater. -/
def atLeast (floor : ℚ) (x : PyFloat) : PyFloat :=
  match x with
  | .finite x => .finite (max floor x)
  | .posInf => .posInf
  | .negInf | .nan => .finite floor

/-- `q <= x`. -/
def reaches (q : ℚ) (x : PyFloat) : Bool :=
  match x with
  | .finite x => decide (q ≤ x)
  | .posInf => true
  | .negInf | .nan => false

end PyFloat

/-- The readers of header texts outside the module: `float` and `int`, whose `none` is a `ValueError`, and
`parsedate_to_datetime` in seconds of the epoch, whose `none` is an exception. -/
class HeaderReaders where
  float : Text → Option PyFloat
  int : Text → Option ℤ
  date : Text → Option Time

def unixSecondsFloor : ℚ := 1000000000

def unixMsFloor : ℚ := 1000000000000

def isHour (c : Char) : Bool := c == 'h' || c == 'H'

def isMinute (c : Char) : Bool := c == 'm' || c == 'M'

/-- Without regard to case, `s` also stands for the long one. -/
def isSecond (c : Char) : Bool := c == 's' || c == 'S' || c == 'ſ'

/-- The seconds of a duration: the digits before and after the point, and whether they count milliseconds. -/
structure Seconds where
  whole : Text
  fraction : Text
  milli : Bool

/-- The groups of a duration with units. -/
structure Units where
  hours : Option Text
  mins : Option Text
  secs : Option Seconds

section
variable [Interp]

/-- Digits with their unit at the start of a text, and what follows. -/
def takeUnit (isUnit : Char → Bool) (follows : Text → Bool) (text : Text) : Option Text × Text :=
  match text.dropWhile isDecimal with
  | c :: rest =>
    if text.takeWhile isDecimal ≠ [] ∧ isUnit c ∧ follows rest then (some (text.takeWhile isDecimal), rest)
    else (none, text)
  | [] => (none, text)

/-- The fraction after a point, if there is one. -/
def takeFraction : Text → Text × Text
  | '.' :: rest =>
    if rest.takeWhile isDecimal = [] then ([], '.' :: rest) else (rest.takeWhile isDecimal, rest.dropWhile isDecimal)
  | rest => ([], rest)

def takeSeconds (text : Text) : Option Seconds :=
  let whole := text.takeWhile isDecimal
  let tail := takeFraction (text.dropWhile isDecimal)
  if whole = [] then none
  else
    match tail.2 with
    | [s] => if isSecond s then some ⟨whole, tail.1, false⟩ else none
    -- the long s is no part of the lower-cased `ms`
    | [m, s] => if isMinute m && isSecond s then some ⟨whole, tail.1, s != 'ſ'⟩ else none
    | _ => none

/-- The match of a stripped text with the pattern of unit durations. -/
def unitDuration (text : Text) : Option Units :=
  let hours := takeUnit isHour (fun _ ↦ true) text
  let mins := takeUnit isMinute (fun rest ↦ !rest.head?.any isSecond) hours.2
  if mins.2 = [] then some ⟨hours.1, mins.1, none⟩
  else (takeSeconds mins.2).map fun secs ↦ ⟨hours.1, mins.1, some secs⟩

/-- `float` of digits with a fraction. -/
def Seconds.value (s : Seconds) : PyFloat :=
  let number := PyFloat.of (digitsValue s.whole + digitsValue s.fraction / 10 ^ s.fraction.length)
  if s.milli then number.times (1 / 1000) else number

/-- `int(group or 0)`. -/
def groupInt : Option Text → Py ℕ
  | some digits => int digits
  | none => .ok 0

def Units.seconds (u : Units) : Py PyFloat := do
  let hours ← groupInt u.hours
  let mins ← groupInt u.mins
  let secs := (u.secs.map Seconds.value).getD (.finite 0)
  let h ← PyFloat.ofInt hours
  let m ← PyFloat.ofInt mins
  return ((h.times 3600).add (m.times 60)).add secs

variable [HeaderReaders]

/-- A bare number: the time of an epoch in milliseconds or seconds, or a number of seconds. -/
def bareSeconds (wall : Time) (x : PyFloat) : PyFloat :=
  if x.reaches unixMsFloor then ((x.times (1 / 1000)).minus wall).atLeast 0
  else if x.reaches unixSecondsFloor then (x.minus wall).atLeast 0
  else x.atLeast 0

def dateSeconds (wall : Time) (text : Text) : PyFloat :=
  match HeaderReaders.date text with
  | some t => .finite (max 0 (t - wall))
  | none => .finite 0

def parseDurationSeconds (wall : Time) (value : Text) : Py PyFloat :=
  let text := strip value
  if text = [] then .ok (.finite 0)
  else
    match unitDuration text with
    | some u => u.seconds
    | none =>
      match HeaderReaders.float text with
      | some .nan | none => .ok (dateSeconds wall text)
      | some x => .ok (bareSeconds wall x)

end

section
variable [Interp]

/-- Digits that `int` accepts and whose number a float can hold. -/
structure Fits (digits : Text) : Prop where
  length : digits.length ≤ maxIntDigits
  value : digitsValue digits < floatLimit

instance (digits : Text) : Decidable (Fits digits) :=
  decidable_of_iff (digits.length ≤ maxIntDigits ∧ digitsValue digits < floatLimit)
    ⟨fun h ↦ ⟨h.1, h.2⟩, fun h ↦ ⟨h.length, h.value⟩⟩

/-- The hours and the minutes fit. -/
structure Units.Fits (u : Units) : Prop where
  hours : ∀ digits ∈ u.hours, Durations.Fits digits
  mins : ∀ digits ∈ u.mins, Durations.Fits digits

/-- `int` refuses the hours or the minutes. -/
def Units.Refused (u : Units) : Prop :=
  ∃ digits, (digits ∈ u.hours ∨ digits ∈ u.mins) ∧ maxIntDigits < digits.length

theorem takeUnit_decimal {isUnit : Char → Bool} {follows : Text → Bool} {text digits : Text}
    (h : digits ∈ (takeUnit isUnit follows text).1) : digits.all isDecimal = true := by
  rw [takeUnit] at h
  split at h
  · split at h
    · obtain rfl := Option.mem_some_iff.mp h
      exact List.all_takeWhile
    · cases h
  · cases h

theorem unitDuration_decimal {text : Text} {u : Units} (h : unitDuration text = some u) :
    (∀ digits ∈ u.hours, digits.all isDecimal = true) ∧ ∀ digits ∈ u.mins, digits.all isDecimal = true := by
  rw [unitDuration] at h
  split at h
  · obtain rfl := Option.some.inj h
    exact ⟨fun d hd ↦ takeUnit_decimal hd, fun d hd ↦ takeUnit_decimal hd⟩
  · obtain ⟨secs, -, rfl⟩ := Option.map_eq_some_iff.mp h
    exact ⟨fun d hd ↦ takeUnit_decimal hd, fun d hd ↦ takeUnit_decimal hd⟩

theorem int_eq {digits : Text} (hd : digits.all isDecimal = true) :
    int digits = if digits.length ≤ maxIntDigits then .ok (digitsValue digits) else .error .valueError := by
  rw [int, hd, Bool.true_and]
  simp only [decide_eq_true_eq]
  rfl

/-- What the group of a unit comes to, unless it cannot be read. -/
theorem groupFloat_ok_iff {group : Option Text} (hd : ∀ digits ∈ group, digits.all isDecimal = true) :
    (∃ n x, groupInt group = .ok n ∧ PyFloat.ofInt n = .ok x) ↔ ∀ digits ∈ group, Fits digits := by
  cases group with
  | none => exact ⟨fun _ _ h ↦ (by cases h), fun _ ↦ ⟨0, .finite 0, rfl, if_neg (not_le.mpr floatLimit_pos)⟩⟩
  | some digits =>
    rw [groupInt, int_eq (hd digits rfl)]
    constructor
    · rintro ⟨n, x, hn, hx⟩ d hmem
      obtain rfl := Option.mem_some_iff.mp hmem
      split at hn
      next hlen =>
        obtain rfl := Except.ok.inj hn
        refine ⟨hlen, ?_⟩
        rw [PyFloat.ofInt] at hx
        split at hx
        next => cases hx
        next h => exact not_le.mp h
      next => cases hn
    · intro h
      have hfits := h digits rfl
      exact ⟨digitsValue digits, .finite (digitsValue digits), if_pos hfits.length, if_neg (not_le.mpr hfits.value)⟩

theorem groupInt_cases {group : Option Text} (hd : ∀ digits ∈ group, digits.all isDecimal = true) :
    ((∃ n, groupInt group = .ok n) ∧ ∀ digits ∈ group, digits.length ≤ maxIntDigits) ∨
      groupInt group = .error .valueError ∧ ∃ digits ∈ group, maxIntDigits < digits.length := by
  cases group with
  | none => exact .inl ⟨⟨0, rfl⟩, fun _ h ↦ by cases h⟩
  | some digits =>
    rw [groupInt, int_eq (hd digits rfl)]
    by_cases hlen : digits.length ≤ maxIntDigits
    · refine .inl ⟨⟨_, if_pos hlen⟩, fun d hmem ↦ ?_⟩
      obtain rfl := Option.mem_some_iff.mp hmem
      exact hlen
    · exact .inr ⟨if_neg hlen, digits, rfl, Nat.lt_of_not_le hlen⟩

theorem Units.seconds_ok_iff {u : Units} (hh : ∀ digits ∈ u.hours, digits.all isDecimal = true)
    (hm : ∀ digits ∈ u.mins, digits.all isDecimal = true) : (∃ x, u.seconds = .ok x) ↔ u.Fits := by
  have hhours := groupFloat_ok_iff hh
  have hmins := groupFloat_ok_iff hm
  constructor
  · rintro ⟨x, hx⟩
    rw [seconds] at hx
    cases hgh : groupInt u.hours with
    | error e => rw [hgh] at hx; cases hx
    | ok h =>
      rw [hgh, ok_bind] at hx
      cases hgm : groupInt u.mins with
      | error e => rw [hgm] at hx; cases hx
      | ok m =>
        rw [hgm, ok_bind] at hx
        cases hfh : PyFloat.ofInt h with
        | error e => simp only [hfh] at hx; cases hx
        | ok fh =>
          simp only [hfh, ok_bind] at hx
          cases hfm : PyFloat.ofInt m with
          | error e => simp only [hfm] at hx; cases hx
          | ok fm => exact ⟨hhours.mp ⟨h, fh, hgh, hfh⟩, hmins.mp ⟨m, fm, hgm, hfm⟩⟩
  · rintro ⟨hfh, hfm⟩
    obtain ⟨h, fh, hgh, hfh⟩ := hhours.mpr hfh
    obtain ⟨m, fm, hgm, hfm⟩ := hmins.mpr hfm
    refine ⟨((fh.times 3600).add (fm.times 60)).add ((u.secs.map Seconds.value).getD (.finite 0)), ?_⟩
    rw [seconds, hgh, ok_bind, hgm, ok_bind]
    simp only [hfh, hfm, ok_bind]
    rfl

/-- Hours or minutes that `int` accepts and a float cannot hold are the ones that raise an `OverflowError`. -/
theorem Units.seconds_caught_iff {u : Units} (hh : ∀ digits ∈ u.hours, digits.all isDecimal = true)
    (hm : ∀ digits ∈ u.mins, digits.all isDecimal = true) :
    (∃ x, u.seconds = .ok x) ∨ u.seconds = .error .valueError ↔ u.Fits ∨ u.Refused := by
  rcases groupInt_cases hh with ⟨⟨h, hgh⟩, hlenh⟩ | ⟨hgh, digits, hmem, hlong⟩
  · rcases groupInt_cases hm with ⟨⟨m, hgm⟩, hlenm⟩ | ⟨hgm, digits, hmem, hlong⟩
    · have hrefused : ¬u.Refused := by
        rintro ⟨digits, hmem | hmem, hlong⟩
        · exact absurd (hlenh digits hmem) (Nat.not_le_of_lt hlong)
        · exact absurd (hlenm digits hmem) (Nat.not_le_of_lt hlong)
      have hofInt : ∀ n, PyFloat.ofInt n = .error .overflowError ∨ ∃ x, PyFloat.ofInt n = .ok x := by
        intro n
        rw [PyFloat.ofInt]
        split
        · exact .inl rfl
        · exact .inr ⟨_, rfl⟩
      have hvalue : u.seconds ≠ .error .valueError := by
        rw [Units.seconds, hgh, ok_bind, hgm, ok_bind]
        rcases hofInt h with hfh | ⟨fh, hfh⟩
        · simp [hfh]
        · rcases hofInt m with hfm | ⟨fm, hfm⟩
          · simp [hfh, hfm]
          · simp [hfh, hfm]
      rw [or_iff_left hrefused, or_iff_left hvalue, Units.seconds_ok_iff hh hm]
    · refine ⟨fun _ ↦ .inr ⟨digits, .inr hmem, hlong⟩, fun _ ↦ .inr ?_⟩
      rw [Units.seconds, hgh, ok_bind, hgm, error_bind]
  · refine ⟨fun _ ↦ .inr ⟨digits, .inl hmem, hlong⟩, fun _ ↦ .inr ?_⟩
    rw [Units.seconds, hgh, error_bind]

variable [HeaderReaders]

/-- The text is no duration whose hours or minutes are too large. -/
def Parses (value : Text) : Prop := ∀ u, unitDuration (strip value) = some u → u.Fits

theorem parseDurationSeconds_ok_iff (wall : Time) (value : Text) :
    (∃ x, parseDurationSeconds wall value = .ok x) ↔ Parses value := by
  rw [parseDurationSeconds]
  split
  next hnil =>
    refine ⟨fun _ u hu ↦ ?_, fun _ ↦ ⟨_, rfl⟩⟩
    rw [hnil] at hu
    obtain rfl := Option.some.inj hu
    exact ⟨fun _ h ↦ (by cases h), fun _ h ↦ by cases h⟩
  next =>
    cases hu : unitDuration (strip value) with
    | none =>
      refine ⟨fun _ u h ↦ ?_, fun _ ↦ ?_⟩
      · rw [hu] at h
        cases h
      · dsimp only
        split
        · exact ⟨_, rfl⟩
        · exact ⟨_, rfl⟩
        · exact ⟨_, rfl⟩
    | some u =>
      obtain ⟨hh, hm⟩ := unitDuration_decimal hu
      have hok := Units.seconds_ok_iff hh hm
      dsimp only
      rw [hok]
      constructor
      · intro h u' hu'
        rw [hu] at hu'
        exact Option.some.inj hu' ▸ h
      · intro h
        exact h u hu

/-- The text is no duration whose hours or minutes `int` accepts and a float cannot hold. -/
def Caught (value : Text) : Prop := ∀ u, unitDuration (strip value) = some u → u.Fits ∨ u.Refused

theorem parseDurationSeconds_caught_iff (wall : Time) (value : Text) :
    (∃ x, parseDurationSeconds wall value = .ok x) ∨ parseDurationSeconds wall value = .error .valueError ↔
      Caught value := by
  rw [parseDurationSeconds]
  split
  next hnil =>
    refine ⟨fun _ u hu ↦ ?_, fun _ ↦ .inl ⟨_, rfl⟩⟩
    rw [hnil] at hu
    obtain rfl := Option.some.inj hu
    exact .inl ⟨fun _ h ↦ (by cases h), fun _ h ↦ by cases h⟩
  next =>
    cases hu : unitDuration (strip value) with
    | none =>
      refine ⟨fun _ u h ↦ ?_, fun _ ↦ .inl ?_⟩
      · rw [hu] at h
        cases h
      · dsimp only
        split
        · exact ⟨_, rfl⟩
        · exact ⟨_, rfl⟩
        · exact ⟨_, rfl⟩
    | some u =>
      obtain ⟨hh, hm⟩ := unitDuration_decimal hu
      have hok := Units.seconds_caught_iff hh hm
      dsimp only
      rw [hok]
      constructor
      · intro h u' hu'
        rw [hu] at hu'
        exact Option.some.inj hu' ▸ h
      · intro h
        exact h u hu

end

end Briefr.Outbound.Durations
