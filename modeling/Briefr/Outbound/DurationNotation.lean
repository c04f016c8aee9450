import Mathlib.Tactic.Linarith
import Mathlib.Tactic.NormNum
import Mathlib.Tactic.Positivity
import Mathlib.Tactic.Ring
import Briefr.Outbound.Durations

namespace Briefr.Outbound.Durations

open Briefr.Python Briefr.Outbound.Pacing

/-- A number with its unit, or nothing. -/
def part (shown : Bool) (n : ℕ) (unit : Char) : Text := if shown then Nat.toDigits 10 n ++ [unit] else []

/-- Hours, minutes and seconds with their units. -/
def unitText (h m s : ℕ) (showH showM showS : Bool) : Text := part showH h 'h' ++ (part showM m 'm' ++ part showS s 's')

def milliText (n : ℕ) : Text := Nat.toDigits 10 n ++ ['m', 's']

namespace PyFloat

theorem of_eq {x : ℚ} (h0 : 0 ≤ x) (h : x < floatLimit) : of x = .finite x := by
  have hpos : (0 : ℚ) < floatLimit := Nat.cast_pos.mpr floatLimit_pos
  rw [of, if_neg (not_le.mpr h), if_neg (by linarith)]

theorem lt_of_of_eq {x y : ℚ} (h : of x = .finite y) : y < floatLimit := by
  rw [of] at h
  split at h
  next => cases h
  next hx =>
    split at h
    next => cases h
    next =>
      obtain rfl := PyFloat.finite.inj h
      exact not_le.mp hx

theorem lt_of_add_eq {x y : PyFloat} {z : ℚ} (h : x.add y = .finite z) : z < floatLimit := by
  cases x <;> cases y <;> first | exact lt_of_of_eq h | cases h

/-- Nothing takes an infinity back. -/
theorem add_posInf_ne (x : PyFloat) (z : ℚ) : x.add .posInf ≠ .finite z := by
  intro h
  cases x <;> cases h

end PyFloat

section
variable [Decimals]

theorem not_decimal_unit {c : Char} (hc : c = 'h' ∨ c = 'm' ∨ c = 's') : isDecimal c = false := by
  have hascii : c.toNat < 128 := by rcases hc with rfl | rfl | rfl <;> decide
  rw [Digits.isDecimal_ascii c hascii]
  rcases hc with rfl | rfl | rfl <;> decide

theorem takeWhile_digits (n : ℕ) {c : Char} (hc : isDecimal c = false) (rest : Text) :
    (Nat.toDigits 10 n ++ c :: rest).takeWhile isDecimal = Nat.toDigits 10 n := by
  rw [List.takeWhile_append_of_pos fun d hd ↦ isDecimal_of_mem_toDigits hd, List.takeWhile_cons_of_neg (by rw [hc]; decide),
    List.append_nil]

theorem dropWhile_digits (n : ℕ) {c : Char} (hc : isDecimal c = false) (rest : Text) :
    (Nat.toDigits 10 n ++ c :: rest).dropWhile isDecimal = c :: rest := by
  rw [List.dropWhile_append_of_pos fun d hd ↦ isDecimal_of_mem_toDigits hd, List.dropWhile_cons_of_neg (by rw [hc]; decide)]

theorem takeUnit_digits (isUnit : Char → Bool) (follows : Text → Bool) (n : ℕ) {c : Char} (hc : isDecimal c = false)
    (rest : Text) : takeUnit isUnit follows (Nat.toDigits 10 n ++ c :: rest) =
      if isUnit c = true ∧ follows rest = true then (some (Nat.toDigits 10 n), rest)
      else (none, Nat.toDigits 10 n ++ c :: rest) := by
  rw [takeUnit, takeWhile_digits n hc, dropWhile_digits n hc]
  dsimp only
  refine if_congr ?_ rfl rfl
  exact and_iff_right Nat.toDigits_ne_nil

/-- A part is read where it is shown, and left alone otherwise. -/
theorem takeUnit_part {isUnit : Char → Bool} {follows : Text → Bool} {shown : Bool} {n : ℕ} {unit : Char} {rest : Text}
    (hu : isDecimal unit = false) (hunit : isUnit unit = true) (hfollows : follows rest = true)
    (hrest : rest = [] ∨ ∃ n c rest', rest = Nat.toDigits 10 n ++ c :: rest' ∧ isDecimal c = false ∧ isUnit c = false) :
    takeUnit isUnit follows (part shown n unit ++ rest) =
      (if shown then some (Nat.toDigits 10 n) else none, rest) := by
  cases shown with
  | true =>
    rw [part, if_pos rfl, List.append_assoc, List.singleton_append, takeUnit_digits isUnit follows n hu,
      if_pos ⟨hunit, hfollows⟩, if_pos rfl]
  | false =>
    rw [part, if_neg Bool.false_ne_true, List.nil_append, if_neg Bool.false_ne_true]
    rcases hrest with rfl | ⟨k, c, rest', rfl, hc, hcu⟩
    · rfl
    · rw [takeUnit_digits isUnit follows k hc, if_neg (by rw [hcu]; exact fun h ↦ Bool.false_ne_true h.1)]

/-- The digits of a part that is shown. -/
def group (shown : Bool) (n : ℕ) : Option Text := if shown then some (Nat.toDigits 10 n) else none

theorem takeSeconds_digits (n : ℕ) : takeSeconds (Nat.toDigits 10 n ++ ['s']) = some ⟨Nat.toDigits 10 n, [], false⟩ := by
  have hs : isDecimal 's' = false := not_decimal_unit (by decide)
  rw [takeSeconds, takeWhile_digits n hs, dropWhile_digits n hs, if_neg Nat.toDigits_ne_nil]
  rfl

theorem takeSeconds_milli (n : ℕ) : takeSeconds (milliText n) = some ⟨Nat.toDigits 10 n, [], true⟩ := by
  have hm : isDecimal 'm' = false := not_decimal_unit (by decide)
  rw [takeSeconds, milliText, takeWhile_digits n hm, dropWhile_digits n hm, if_neg Nat.toDigits_ne_nil]
  rfl

theorem unitDuration_unitText (h m s : ℕ) (showH showM showS : Bool) :
    unitDuration (unitText h m s showH showM showS) = some ⟨group showH h, group showM m,
      (group showS s).map fun digits ↦ ⟨digits, [], false⟩⟩ := by
  have hdh : isDecimal 'h' = false := not_decimal_unit (by decide)
  have hdm : isDecimal 'm' = false := not_decimal_unit (by decide)
  have hds : isDecimal 's' = false := not_decimal_unit (by decide)
  have hsecs : part showS s 's' = [] ∨ ∃ n c rest', part showS s 's' = Nat.toDigits 10 n ++ c :: rest' ∧
      isDecimal c = false ∧ isMinute c = false := by
    cases showS with
    | false => exact .inl rfl
    | true => exact .inr ⟨s, 's', [], rfl, hds, by decide⟩
  have hmins : part showM m 'm' ++ part showS s 's' = [] ∨ ∃ n c rest',
      part showM m 'm' ++ part showS s 's' = Nat.toDigits 10 n ++ c :: rest' ∧ isDecimal c = false ∧ isHour c = false := by
    cases showM with
    | true => exact .inr ⟨m, 'm', part showS s 's', by rw [part, if_pos rfl, List.append_assoc]; rfl, hdm, by decide⟩
    | false =>
      cases showS with
      | false => exact .inl rfl
      | true => exact .inr ⟨s, 's', [], rfl, hds, by decide⟩
  have hfollows : (!(part showS s 's').head?.any isSecond) = true := by
    cases showS with
    | false => rfl
    | true =>
      have hne : Nat.toDigits 10 s ≠ [] := Nat.toDigits_ne_nil
      obtain ⟨c, digits, hdigits⟩ := List.exists_cons_of_ne_nil hne
      have hc : c.isDigit = true :=
        Nat.isDigit_of_mem_toDigits (b := 10) (n := s) (by decide) (by decide) (hdigits ▸ .head _)
      have hlong : isSecond c = false := by
        have hrange := isDigit_iff.mp hc
        simp only [isSecond, Bool.or_eq_false_iff, beq_eq_false_iff_ne]
        refine ⟨⟨?_, ?_⟩, ?_⟩ <;> rintro rfl <;> exact absurd hrange (by decide)
      rw [part, if_pos rfl, hdigits, List.cons_append, List.head?_cons, Option.any_some, hlong]
      rfl
  rw [unitDuration, unitText, takeUnit_part hdh (by decide) rfl hmins]
  dsimp only
  rw [takeUnit_part hdm (by decide) hfollows hsecs]
  cases showS with
  | false => rfl
  | true =>
    have hne : part true s 's' ≠ [] := by
      rw [part, if_pos rfl]
      exact List.append_ne_nil_of_right_ne_nil _ (List.cons_ne_nil _ _)
    rw [if_neg hne, part, if_pos rfl, takeSeconds_digits]
    rfl

theorem unitDuration_milliText (n : ℕ) : unitDuration (milliText n) = some ⟨none, none, some ⟨Nat.toDigits 10 n, [], true⟩⟩ := by
  have hm : isDecimal 'm' = false := not_decimal_unit (by decide)
  have hhours : takeUnit isHour (fun _ ↦ true) (milliText n) = (none, milliText n) := by
    rw [milliText, takeUnit_digits _ _ n hm]
    rfl
  have hmins : takeUnit isMinute (fun rest ↦ !rest.head?.any isSecond) (milliText n) = (none, milliText n) := by
    rw [milliText, takeUnit_digits _ _ n hm]
    rfl
  have hne : milliText n ≠ [] := List.append_ne_nil_of_right_ne_nil _ (List.cons_ne_nil _ _)
  rw [unitDuration, hhours]
  dsimp only
  rw [hmins]
  dsimp only
  rw [if_neg hne, takeSeconds_milli]
  rfl

theorem isSpace_unit {c : Char} (hc : c = 'h' ∨ c = 'm' ∨ c = 's') : isSpace c = false := by
  have hascii : c.toNat < 128 := by rcases hc with rfl | rfl | rfl <;> decide
  rw [Interp.isSpace_ascii c hascii]
  rcases hc with rfl | rfl | rfl <;> decide

theorem isSpace_of_mem_part {shown : Bool} {n : ℕ} {unit c : Char} (hu : unit = 'h' ∨ unit = 'm' ∨ unit = 's')
    (h : c ∈ part shown n unit) : isSpace c = false := by
  rw [part] at h
  split at h
  · rcases List.mem_append.mp h with h | h
    · exact Digits.isSpace_of_isDecimal c (isDecimal_of_mem_toDigits h)
    · obtain rfl := List.mem_singleton.mp h
      exact isSpace_unit hu
  · cases h

theorem strip_unitText (h m s : ℕ) (showH showM showS : Bool) :
    strip (unitText h m s showH showM showS) = unitText h m s showH showM showS := by
  apply strip_eq_self
  intro c hc
  rcases List.mem_append.mp hc with hc | hc
  · exact isSpace_of_mem_part (by decide) hc
  · rcases List.mem_append.mp hc with hc | hc
    · exact isSpace_of_mem_part (by decide) hc
    · exact isSpace_of_mem_part (by decide) hc

theorem strip_milliText (n : ℕ) : strip (milliText n) = milliText n := by
  apply strip_eq_self
  intro c hc
  rcases List.mem_append.mp hc with hc | hc
  · exact Digits.isSpace_of_isDecimal c (isDecimal_of_mem_toDigits hc)
  · simp only [List.mem_cons, List.not_mem_nil, or_false] at hc
    exact isSpace_unit (.inr hc)

omit [Decimals] in
theorem length_toDigits_of_lt {n : ℕ} (h : n < floatLimit) : (Nat.toDigits 10 n).length ≤ maxIntDigits := by
  have hlimit : floatLimit ≤ 2 ^ maxIntDigits := by
    have hpow : ∀ {a b c : ℕ}, a ≤ c → 2 ^ a - b ≤ 2 ^ c :=
      fun hac ↦ (Nat.sub_le _ _).trans (Nat.pow_le_pow_right (by decide) hac)
    exact hpow (by decide)
  have hten : 2 ^ maxIntDigits ≤ 10 ^ maxIntDigits := Nat.pow_le_pow_left (by decide) _
  exact (Nat.length_toDigits_le_iff (by decide) (by decide)).mpr (h.trans_le (hlimit.trans hten))

theorem groupInt_of_lt {shown : Bool} {n : ℕ} (hshown : shown = false → n = 0) (h : n < floatLimit) :
    groupInt (group shown n) = .ok n := by
  cases shown with
  | false => rw [hshown rfl]; rfl
  | true =>
    have hdecimal : (Nat.toDigits 10 n).all isDecimal = true :=
      List.all_eq_true.mpr fun c hc ↦ isDecimal_of_mem_toDigits hc
    rw [group, if_pos rfl, groupInt, int_eq hdecimal, if_pos (length_toDigits_of_lt h), digitsValue_toDigits]

theorem value_whole (n : ℕ) : Seconds.value ⟨Nat.toDigits 10 n, [], false⟩ = PyFloat.of n := by
  have hzero : (digitsValue [] : ℚ) / 10 ^ ([] : Text).length = 0 := by
    rw [digitsValue, List.foldl_nil, Nat.cast_zero, zero_div]
  simp only [Seconds.value, digitsValue_toDigits, hzero, add_zero]
  rfl

/-- Below the greatest float, hours, minutes and seconds come to what they write. -/
theorem seconds_eq (h m s : ℕ) {showH showM showS : Bool} (hh : showH = false → h = 0) (hm : showM = false → m = 0)
    (hs : showS = false → s = 0) (hlt : 3600 * h + 60 * m + s < floatLimit) :
    Units.seconds ⟨group showH h, group showM m, (group showS s).map fun digits ↦ ⟨digits, [], false⟩⟩ =
      .ok (.finite (3600 * h + 60 * m + s)) := by
  have hltQ : (3600 * h + 60 * m + s : ℚ) < floatLimit := by exact_mod_cast hlt
  have hh0 : (0 : ℚ) ≤ h := Nat.cast_nonneg h
  have hm0 : (0 : ℚ) ≤ m := Nat.cast_nonneg m
  have hs0 : (0 : ℚ) ≤ s := Nat.cast_nonneg s
  have hsecs : (((group showS s).map fun digits ↦ (⟨digits, [], false⟩ : Seconds)).map Seconds.value).getD (.finite 0) =
      PyFloat.finite s := by
    cases showS with
    | false => rw [hs rfl, Nat.cast_zero]; rfl
    | true =>
      rw [group, if_pos rfl, Option.map_some, Option.map_some, Option.getD_some, value_whole]
      exact PyFloat.of_eq hs0 (by linarith)
  have hofH : PyFloat.ofInt h = .ok (.finite h) := if_neg (by omega)
  have hofM : PyFloat.ofInt m = .ok (.finite m) := if_neg (by omega)
  have htimesH : (PyFloat.finite h).times 3600 = .finite (h * 3600) :=
    PyFloat.of_eq (by linarith) (by linarith)
  have htimesM : (PyFloat.finite m).times 60 = .finite (m * 60) :=
    PyFloat.of_eq (by linarith) (by linarith)
  have hadd : (PyFloat.finite (h * 3600)).add (.finite (m * 60)) = .finite (h * 3600 + m * 60) :=
    PyFloat.of_eq (by linarith) (by linarith)
  have htotal : (PyFloat.finite (h * 3600 + m * 60)).add (.finite s) = .finite (3600 * h + 60 * m + s) := by
    have hsum : (h * 3600 + m * 60 + s : ℚ) = 3600 * h + 60 * m + s := by ring
    rw [← hsum]
    exact PyFloat.of_eq (by linarith) (by linarith)
  rw [Units.seconds, groupInt_of_lt hh (by omega), ok_bind, groupInt_of_lt hm (by omega), ok_bind, hsecs]
  simp only [hofH, hofM, ok_bind, htimesH, htimesM, hadd, htotal]
  rfl

/-- A duration that is read as a finite number of seconds is below the greatest float. -/
theorem Units.lt_of_seconds {u : Units} {x : ℚ} (h : u.seconds = .ok (.finite x)) : x < floatLimit := by
  rw [seconds] at h
  cases hgh : groupInt u.hours with
  | error e => rw [hgh] at h; cases h
  | ok a =>
    rw [hgh, ok_bind] at h
    cases hgm : groupInt u.mins with
    | error e => rw [hgm] at h; cases h
    | ok b =>
      rw [hgm, ok_bind] at h
      cases hfh : PyFloat.ofInt a with
      | error e => simp only [hfh] at h; cases h
      | ok fa =>
        simp only [hfh, ok_bind] at h
        cases hfm : PyFloat.ofInt b with
        | error e => simp only [hfm] at h; cases h
        | ok fb =>
          simp only [hfm, ok_bind] at h
          exact PyFloat.lt_of_add_eq (Except.ok.inj h)

variable [HeaderReaders]

theorem parse_of_units {wall : Time} {text : Text} {u : Units} (hstrip : strip text = text) (hne : text ≠ [])
    (hu : unitDuration text = some u) : parseDurationSeconds wall text = u.seconds := by
  rw [parseDurationSeconds, hstrip, if_neg hne, hu]

/-- The notation with units is inverted as long as the number of seconds is below the greatest float. -/
theorem parse_unitText_iff (wall : Time) (h m s : ℕ) {showH showM showS : Bool} (hh : showH = false → h = 0)
    (hm : showM = false → m = 0) (hs : showS = false → s = 0) :
    parseDurationSeconds wall (unitText h m s showH showM showS) = .ok (.finite (3600 * h + 60 * m + s)) ↔
      3600 * h + 60 * m + s < floatLimit := by
  by_cases hne : unitText h m s showH showM showS = []
  · have hzero : 3600 * h + 60 * m + s = 0 := by
      have hpart : ∀ {shown n unit}, part shown n unit = [] → shown = false := by
        intro shown n unit hnil
        cases shown with
        | false => rfl
        | true => exact absurd hnil (List.append_ne_nil_of_right_ne_nil _ (List.cons_ne_nil _ _))
      obtain ⟨hnh, hrest⟩ := List.append_eq_nil_iff.mp hne
      obtain ⟨hnm, hns⟩ := List.append_eq_nil_iff.mp hrest
      rw [hh (hpart hnh), hm (hpart hnm), hs (hpart hns)]
    have hzeroQ : (3600 * h + 60 * m + s : ℚ) = 0 := by exact_mod_cast hzero
    rw [hne, hzero, hzeroQ]
    exact ⟨fun _ ↦ floatLimit_pos, fun _ ↦ rfl⟩
  · rw [parse_of_units (strip_unitText h m s showH showM showS) hne (unitDuration_unitText h m s showH showM showS)]
    constructor
    · intro heq
      have hlt := Units.lt_of_seconds heq
      exact_mod_cast hlt
    · exact seconds_eq h m s hh hm hs

theorem parse_milliText_iff (wall : Time) (n : ℕ) :
    parseDurationSeconds wall (milliText n) = .ok (.finite (n / 1000)) ↔ n < floatLimit := by
  have hne : milliText n ≠ [] := List.append_ne_nil_of_right_ne_nil _ (List.cons_ne_nil _ _)
  have hn0 : (0 : ℚ) ≤ n := Nat.cast_nonneg n
  have hvalue : Seconds.value ⟨Nat.toDigits 10 n, [], true⟩ = (PyFloat.of n).times (1 / 1000) := by
    rw [← value_whole]
    rfl
  have hofInt : PyFloat.ofInt 0 = .ok (.finite 0) := if_neg (not_le.mpr floatLimit_pos)
  have hpos : (0 : ℚ) < floatLimit := Nat.cast_pos.mpr floatLimit_pos
  have hof : PyFloat.of 0 = .finite 0 := PyFloat.of_eq (le_refl _) hpos
  have hsum : ((PyFloat.finite 0).times 3600).add ((PyFloat.finite 0).times 60) = .finite 0 := by
    rw [PyFloat.times, PyFloat.times, zero_mul, zero_mul, hof, PyFloat.add, add_zero, hof]
  have hseconds : Units.seconds ⟨none, none, some ⟨Nat.toDigits 10 n, [], true⟩⟩ =
      .ok ((PyFloat.finite 0).add ((PyFloat.of n).times (1 / 1000))) := by
    rw [Units.seconds, groupInt, ok_bind, ok_bind]
    simp only [hofInt, ok_bind, Option.map_some, Option.getD_some, hvalue, hsum]
    rfl
  rw [parse_of_units (strip_milliText n) hne (unitDuration_milliText n), hseconds, Except.ok.injEq]
  by_cases hlt : n < floatLimit
  · have hltQ : (n : ℚ) < floatLimit := by exact_mod_cast hlt
    have hdiv : (n : ℚ) * (1 / 1000) = n / 1000 := by ring
    have hnonneg : (0 : ℚ) ≤ n / 1000 := div_nonneg hn0 (by norm_num)
    have hbelow : (n : ℚ) / 1000 < floatLimit := lt_of_le_of_lt (div_le_self hn0 (by norm_num)) hltQ
    have htimes : (PyFloat.finite n).times (1 / 1000) = .finite (n / 1000) := by
      rw [PyFloat.times, hdiv, PyFloat.of_eq hnonneg hbelow]
    have hadd : (PyFloat.finite 0).add (.finite (n / 1000)) = .finite (n / 1000) := by
      rw [PyFloat.add, zero_add, PyFloat.of_eq hnonneg hbelow]
    rw [PyFloat.of_eq hn0 hltQ, htimes, hadd]
    exact ⟨fun _ ↦ hlt, fun _ ↦ rfl⟩
  · have hgeQ : (floatLimit : ℚ) ≤ n := by exact_mod_cast not_lt.mp hlt
    have hinf : PyFloat.of n = .posInf := if_pos hgeQ
    have htimes : PyFloat.posInf.times (1 / 1000) = .posInf := by simp only [PyFloat.times]
    rw [hinf, htimes]
    exact ⟨fun h ↦ absurd h (PyFloat.add_posInf_ne _ _), fun h ↦ absurd h hlt⟩

end

end Briefr.Outbound.Durations
