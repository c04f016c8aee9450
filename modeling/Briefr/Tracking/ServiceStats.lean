import Mathlib.Algebra.Group.Int.Defs
import Mathlib.Data.Rat.Floor
import Briefr.Enrichment.IocQuota
import Briefr.Library.RoundHalfEven

namespace Briefr.Tracking.ServiceStats

open Briefr.Python Briefr.Library.RoundHalfEven
open Briefr.Enrichment.IocQuota (getOtxHourlyLimit)

/-- An entry of `API_LIMITS`. -/
structure ServiceLimits where
  name : Text
  dailyLimit : Option ℤ
  hourlyLimit : Option ℤ
  weeklyLimit : Option ℤ
  monthlyLimit : Option ℤ
  rateLimit : Text
  notes : Text
  docsUrl : Text
  cacheHours : Option ℤ

/-- `API_LIMITS`, and the setting `OTX_HOURLY_LIMIT` that `int` reads. -/
structure Config where
  apiLimits : Text → Option ServiceLimits
  otxHourlyLimit : ℤ

def effectiveHourlyLimit (config : Config) (service : Text) : Option ℤ :=
  ((config.apiLimits service).bind ServiceLimits.hourlyLimit).map fun hourly ↦
    if service = "otx".toList then getOtxHourlyLimit config.otxHourlyLimit else hourly

inductive Period
  | hourly
  | daily
  | weekly
  | monthly

inductive Warning
  | quotaExceeded (period : Period)
  | quotaNearLimit (period : Period)

/-- What is reported of a period. -/
structure Usage where
  used : ℤ
  limit : Option ℤ
  remaining : Option ℤ
  percentUsed : Option ℚ

/-- `round(used / limit * 100, 1)`, for a limit that is there and not 0. -/
def percentUsed (used : ℤ) (limit : Option ℤ) : Option ℚ :=
  limit.bind fun l ↦ if l = 0 then none else some (roundTo 10 ((used : ℚ) / l * 100))

def usage (used : ℤ) (limit : Option ℤ) : Usage := ⟨used, limit, limit.map fun l ↦ l - used, percentUsed used limit⟩

/-- The warning of `_usage_bucket`. -/
def bucketWarning (period : Period) (used : ℤ) (limit : Option ℤ) : Option Warning :=
  limit.bind fun l ↦
    if l - used ≤ 0 then some (.quotaExceeded period)
    else if (percentUsed used limit).any fun pct ↦ decide (80 ≤ pct) then some (.quotaNearLimit period)
    else none

/-- A map from services to counts. -/
abbrev UsageMap := Text → Option ℤ

def total (m : UsageMap) (sources : List Text) : ℤ := (sources.map fun s ↦ (m s).getD 0).sum

structure ServiceStat where
  service : Text
  name : Text
  rateLimit : Text
  notes : Text
  docsUrl : Text
  cacheHours : Option ℤ
  sourceServices : List Text
  today : Usage
  thisMonth : Usage
  warning : Option Warning
  thisHour : Option Usage
  thisWeek : Option Usage

/-- The arguments of `_build_service_stat` after the service and its limits. -/
structure Maps where
  today : UsageMap
  month : UsageMap
  week : Option UsageMap
  sourceServices : Option (List Text)
  hour : Option UsageMap

/-- `source_services or [service]`. -/
def Maps.sources (m : Maps) (service : Text) : List Text :=
  match m.sourceServices with
  | some (s :: sources) => s :: sources
  | some [] | none => [service]

def buildServiceStat (config : Config) (service : Text) (limits : ServiceLimits) (m : Maps) : ServiceStat :=
  let sources := m.sources service
  let dailyUsed := total m.today sources
  let monthlyUsed := total m.month sources
  let weeklyUsed := total (m.week.getD fun _ ↦ none) sources
  let hourUsed := total (m.hour.getD fun _ ↦ none) sources
  let warning := bucketWarning .daily dailyUsed limits.dailyLimit
  let warning := if warning.isNone then bucketWarning .weekly weeklyUsed limits.weeklyLimit else warning
  let warning :=
    -- a monthly limit of 0 is false
    if warning.isNone ∧ limits.monthlyLimit ≠ some 0 then bucketWarning .monthly monthlyUsed limits.monthlyLimit
    else warning
  { service
    name := limits.name
    rateLimit := limits.rateLimit
    notes := limits.notes
    docsUrl := limits.docsUrl
    cacheHours := limits.cacheHours
    sourceServices := sources
    today := usage dailyUsed limits.dailyLimit
    thisMonth := usage monthlyUsed limits.monthlyLimit
    -- the hourly warning comes after the record is built and is not put into it
    warning
    thisHour := (effectiveHourlyLimit config service).map fun l ↦ usage hourUsed (some l)
    thisWeek := limits.weeklyLimit.map fun l ↦ usage weeklyUsed (some l) }

def Usage.Exceeded (u : Usage) : Prop := ∃ remaining ∈ u.remaining, remaining ≤ 0

def Usage.NearLimit (u : Usage) : Prop := ∃ pct ∈ u.percentUsed, 80 ≤ pct

def ServiceStat.usages (s : ServiceStat) : List Usage := s.thisHour.toList ++ s.today :: s.thisWeek.toList ++ [s.thisMonth]

/-- The warning is there exactly when a limit is near or exceeded, and it says so when one is exceeded. -/
structure ServiceStat.Complete (s : ServiceStat) : Prop where
  warns : s.warning.isSome = true ↔ ∃ u ∈ s.usages, u.Exceeded ∨ u.NearLimit
  exceeded : (∃ u ∈ s.usages, u.Exceeded) → ∃ period, s.warning = some (.quotaExceeded period)

/-- How a usage stands to its limit. -/
inductive Level
  | calm
  | near
  | exceeded
  deriving DecidableEq

def level (used : ℤ) (limit : Option ℤ) : Level :=
  match limit with
  | none => .calm
  | some l =>
    if l ≤ used then .exceeded
    else if (percentUsed used limit).any fun pct ↦ decide (80 ≤ pct) then .near
    else .calm

/-- Rounding to a tenth of a percent lets 79.95 percent count as 80. -/
theorem level_near_iff {l : ℤ} (hl : 0 < l) (used : ℤ) :
    level used (some l) = .near ↔ used < l ∧ 1599 * l ≤ 2000 * used := by
  have hlQ : (0 : ℚ) < l := Int.cast_pos.mpr hl
  have hpct : (percentUsed used (some l)).any (fun pct ↦ decide (80 ≤ pct)) = true ↔ 1599 * l ≤ 2000 * used := by
    rw [percentUsed, Option.bind_some, if_neg (ne_of_gt hl), Option.any_some, decide_eq_true_iff, roundTo]
    have hround : (80 : ℚ) ≤ roundHalfEven ((used : ℚ) / l * 100 * (10 : ℕ)) / (10 : ℕ) ↔
        800 ≤ roundHalfEven ((used : ℚ) / l * 100 * (10 : ℕ)) := by
      rw [le_div_iff₀ (by norm_num)]
      norm_num
      exact_mod_cast Iff.rfl
    rw [hround, le_roundHalfEven_iff (by decide)]
    have hscale : (used : ℚ) / l * 100 * (10 : ℕ) = used * 1000 / l := by
      push_cast
      ring
    rw [hscale, le_div_iff₀ hlQ]
    push_cast
    constructor
    · intro h
      have hcast : (1599 * l : ℚ) ≤ 2000 * used := by linarith
      exact_mod_cast hcast
    · intro h
      have hcast : (1599 * l : ℚ) ≤ 2000 * used := by exact_mod_cast h
      linarith
  rw [level]
  split
  next hle => exact ⟨fun h ↦ (by cases h), fun h ↦ absurd hle (not_le.mpr h.1)⟩
  next hlt =>
    rw [← hpct, and_iff_right (not_le.mp hlt)]
    split
    next hnear => exact ⟨fun _ ↦ hnear, fun _ ↦ rfl⟩
    next hcalm => exact ⟨fun h ↦ (by cases h), fun h ↦ absurd h hcalm⟩

structure Levels where
  hour : Level
  day : Level
  week : Level
  month : Level

def levels (config : Config) (service : Text) (limits : ServiceLimits) (m : Maps) : Levels :=
  let sources := m.sources service
  ⟨level (total (m.hour.getD fun _ ↦ none) sources) (effectiveHourlyLimit config service),
    level (total m.today sources) limits.dailyLimit,
    level (total (m.week.getD fun _ ↦ none) sources) limits.weeklyLimit,
    level (total m.month sources) limits.monthlyLimit⟩

/-- No limit that is near hides one that is exceeded, and neither the hourly limit nor a monthly limit of 0 stands
alone. -/
structure Levels.Covered (l : Levels) (monthlyLimit : Option ℤ) : Prop where
  hourly : l.hour ≠ .calm → l.day ≠ .calm ∨ l.week ≠ .calm ∨ l.month ≠ .calm ∧ monthlyLimit ≠ some 0
  zeroMonthly : monthlyLimit = some 0 → l.month ≠ .calm → l.day ≠ .calm ∨ l.week ≠ .calm
  daily : l.day = .near → l.week ≠ .exceeded ∧ l.month ≠ .exceeded ∧ l.hour ≠ .exceeded
  weekly : l.day = .calm → l.week = .near → l.month ≠ .exceeded ∧ l.hour ≠ .exceeded
  monthly : l.day = .calm → l.week = .calm → l.month = .near → l.hour ≠ .exceeded

theorem usage_exceeded_iff (used : ℤ) (limit : Option ℤ) : (usage used limit).Exceeded ↔ level used limit = .exceeded := by
  cases limit with
  | none => exact ⟨fun ⟨_, h, _⟩ ↦ (by cases h), fun h ↦ by cases h⟩
  | some l =>
    rw [level]
    constructor
    · rintro ⟨remaining, hmem, hle⟩
      have hremaining : l - used = remaining := Option.mem_some_iff.mp hmem
      exact if_pos (by omega)
    · intro h
      split at h
      next hle => exact ⟨l - used, rfl, by omega⟩
      next => split at h <;> cases h

theorem usage_near_iff (used : ℤ) (limit : Option ℤ) :
    (usage used limit).NearLimit ↔ (percentUsed used limit).any (fun pct ↦ decide (80 ≤ pct)) = true := by
  rw [Option.any_eq_true]
  constructor
  · rintro ⟨pct, hmem, hle⟩
    exact ⟨pct, hmem, decide_eq_true hle⟩
  · rintro ⟨pct, hmem, hle⟩
    exact ⟨pct, hmem, of_decide_eq_true hle⟩

/-- A usage at or near its limit. -/
theorem usage_strained_iff (used : ℤ) (limit : Option ℤ) :
    (usage used limit).Exceeded ∨ (usage used limit).NearLimit ↔ level used limit ≠ .calm := by
  rw [usage_exceeded_iff, usage_near_iff]
  cases limit with
  | none => exact ⟨fun h ↦ (by rcases h with h | h <;> cases h), fun h ↦ absurd rfl h⟩
  | some l =>
    rw [level]
    split
    next => exact ⟨fun _ h ↦ (by cases h), fun _ ↦ .inl rfl⟩
    next =>
      split
      next hnear => exact ⟨fun _ h ↦ (by cases h), fun _ ↦ .inr hnear⟩
      next hcalm => exact ⟨fun h ↦ (by rcases h with h | h; cases h; exact absurd h hcalm), fun h ↦ absurd rfl h⟩

/-- The warning of a level. -/
def Level.warning (period : Period) : Level → Option Warning
  | .calm => none
  | .near => some (.quotaNearLimit period)
  | .exceeded => some (.quotaExceeded period)

theorem bucketWarning_eq (period : Period) (used : ℤ) (limit : Option ℤ) :
    bucketWarning period used limit = (level used limit).warning period := by
  cases limit with
  | none => rfl
  | some l =>
    rw [bucketWarning, level, Option.bind_some]
    by_cases hle : l ≤ used
    · rw [if_pos hle, if_pos (by omega)]
      rfl
    · rw [if_neg hle, if_neg (by omega)]
      split <;> rfl

section
variable (config : Config) (service : Text) (limits : ServiceLimits) (m : Maps)

/-- The warning is the first one of the daily, the weekly and the monthly limit. -/
theorem warning_eq :
    (buildServiceStat config service limits m).warning =
      (((levels config service limits m).day.warning .daily).or ((levels config service limits m).week.warning .weekly)).or
        (if limits.monthlyLimit = some 0 then none else (levels config service limits m).month.warning .monthly) := by
  dsimp only [buildServiceStat, levels]
  simp only [bucketWarning_eq]
  cases level (total m.today (m.sources service)) limits.dailyLimit with
  | near => rfl
  | exceeded => rfl
  | calm =>
    cases level (total (m.week.getD fun _ ↦ none) (m.sources service)) limits.weeklyLimit with
    | near => rfl
    | exceeded => rfl
    | calm =>
      by_cases hzero : limits.monthlyLimit = some 0
      · rw [if_pos hzero, if_neg fun h ↦ h.2 hzero]
        rfl
      · rw [if_neg hzero, if_pos ⟨rfl, hzero⟩]
        rfl

theorem exists_reported {P : Usage → Prop} (hnone : ∀ used, ¬P (usage used none)) (used : ℤ) (limit : Option ℤ) :
    (∃ u ∈ (limit.map fun l ↦ usage used (some l)).toList, P u) ↔ P (usage used limit) := by
  cases limit with
  | none => exact ⟨fun ⟨_, hmem, _⟩ ↦ (by cases hmem), fun h ↦ absurd h (hnone used)⟩
  | some l =>
    rw [Option.map_some, Option.toList_some]
    exact ⟨fun ⟨u, hmem, h⟩ ↦ List.mem_singleton.mp hmem ▸ h, fun h ↦ ⟨_, .head _, h⟩⟩

theorem exists_usages {P : Usage → Prop} (hnone : ∀ used, ¬P (usage used none)) :
    (∃ u ∈ (buildServiceStat config service limits m).usages, P u) ↔
      P (usage (total (m.hour.getD fun _ ↦ none) (m.sources service)) (effectiveHourlyLimit config service)) ∨
      P (usage (total m.today (m.sources service)) limits.dailyLimit) ∨
      P (usage (total (m.week.getD fun _ ↦ none) (m.sources service)) limits.weeklyLimit) ∨
      P (usage (total m.month (m.sources service)) limits.monthlyLimit) := by
  simp only [ServiceStat.usages, buildServiceStat, List.mem_append, List.mem_cons, List.not_mem_nil, or_false,
    or_and_right, exists_or, exists_eq_left, exists_reported hnone, or_assoc]

theorem exceeded_iff :
    (∃ u ∈ (buildServiceStat config service limits m).usages, u.Exceeded) ↔
      (levels config service limits m).hour = .exceeded ∨ (levels config service limits m).day = .exceeded ∨
      (levels config service limits m).week = .exceeded ∨ (levels config service limits m).month = .exceeded := by
  have hnone : ∀ used, ¬(usage used none).Exceeded := fun used h ↦ by cases (usage_exceeded_iff used none).mp h
  rw [exists_usages config service limits m hnone]
  simp only [usage_exceeded_iff]
  rfl

theorem strained_iff :
    (∃ u ∈ (buildServiceStat config service limits m).usages, u.Exceeded ∨ u.NearLimit) ↔
      (levels config service limits m).hour ≠ .calm ∨ (levels config service limits m).day ≠ .calm ∨
      (levels config service limits m).week ≠ .calm ∨ (levels config service limits m).month ≠ .calm := by
  have hnone : ∀ used, ¬((usage used none).Exceeded ∨ (usage used none).NearLimit) :=
    fun used h ↦ (usage_strained_iff used none).mp h rfl
  rw [exists_usages config service limits m hnone]
  simp only [usage_strained_iff]
  rfl

end

/-- The warning of the levels, when the monthly limit is 0 or not. -/
def Levels.warning (l : Levels) (monthlyLimit : Option ℤ) : Option Warning :=
  ((l.day.warning .daily).or (l.week.warning .weekly)).or
    (if monthlyLimit = some 0 then none else l.month.warning .monthly)

theorem level_warning_isSome (period : Period) (l : Level) : (l.warning period).isSome = true ↔ l ≠ .calm := by
  cases l with
  | calm => exact ⟨fun h ↦ (by cases h), fun h ↦ absurd rfl h⟩
  | near => exact ⟨fun _ h ↦ (by cases h), fun _ ↦ rfl⟩
  | exceeded => exact ⟨fun _ h ↦ (by cases h), fun _ ↦ rfl⟩

section
variable {l : Levels} {monthlyLimit : Option ℤ}

theorem warning_isSome_iff :
    (l.warning monthlyLimit).isSome = true ↔ l.day ≠ .calm ∨ l.week ≠ .calm ∨ l.month ≠ .calm ∧ monthlyLimit ≠ some 0 := by
  rw [Levels.warning, Option.isSome_or, Option.isSome_or, Bool.or_eq_true, Bool.or_eq_true, level_warning_isSome,
    level_warning_isSome, or_assoc]
  by_cases hzero : monthlyLimit = some 0
  · rw [if_pos hzero]
    simp [hzero]
  · rw [if_neg hzero, level_warning_isSome]
    simp [hzero]

theorem warning_of_day (h : l.day ≠ .calm) : l.warning monthlyLimit = l.day.warning .daily := by
  rw [Levels.warning]
  cases hday : l.day with
  | calm => exact absurd hday h
  | near => rfl
  | exceeded => rfl

theorem warning_of_week (hday : l.day = .calm) (h : l.week ≠ .calm) :
    l.warning monthlyLimit = l.week.warning .weekly := by
  rw [Levels.warning, hday]
  cases hweek : l.week with
  | calm => exact absurd hweek h
  | near => rfl
  | exceeded => rfl

theorem warning_of_month (hday : l.day = .calm) (hweek : l.week = .calm) (hzero : monthlyLimit ≠ some 0) :
    l.warning monthlyLimit = l.month.warning .monthly := by
  rw [Levels.warning, hday, hweek, if_neg hzero]
  rfl

/-- A warning that only says near says nothing of a limit that is exceeded. -/
theorem near_ne_exceeded {period : Period} {lv : Level} {w : Option Warning} (hw : w = lv.warning period)
    (hnear : lv = .near) : ¬∃ p, w = some (.quotaExceeded p) := by
  rintro ⟨p, hp⟩
  rw [hw, hnear] at hp
  cases hp

theorem covered_of_complete
    (hwarns : l.hour ≠ .calm ∨ l.day ≠ .calm ∨ l.week ≠ .calm ∨ l.month ≠ .calm →
      (l.warning monthlyLimit).isSome = true)
    (hexceeded : l.hour = .exceeded ∨ l.day = .exceeded ∨ l.week = .exceeded ∨ l.month = .exceeded →
      ∃ p, l.warning monthlyLimit = some (.quotaExceeded p)) : l.Covered monthlyLimit := by
  have hzeroMonthly : monthlyLimit = some 0 → l.month ≠ .calm → l.day ≠ .calm ∨ l.week ≠ .calm := by
    intro hzero hmonth
    rcases warning_isSome_iff.mp (hwarns (.inr (.inr (.inr hmonth)))) with h | h | h
    · exact .inl h
    · exact .inr h
    · exact absurd hzero h.2
  refine ⟨fun h ↦ warning_isSome_iff.mp (hwarns (.inl h)), hzeroMonthly, ?_, ?_, ?_⟩
  · intro hnear
    have hwarning : l.warning monthlyLimit = l.day.warning .daily := warning_of_day (by rw [hnear]; decide)
    have hnot := near_ne_exceeded hwarning hnear
    refine ⟨fun h ↦ hnot (hexceeded ?_), fun h ↦ hnot (hexceeded ?_), fun h ↦ hnot (hexceeded (.inl h))⟩
    · exact .inr (.inr (.inl h))
    · exact .inr (.inr (.inr h))
  · intro hday hnear
    have hwarning : l.warning monthlyLimit = l.week.warning .weekly := warning_of_week hday (by rw [hnear]; decide)
    have hnot := near_ne_exceeded hwarning hnear
    exact ⟨fun h ↦ hnot (hexceeded (.inr (.inr (.inr h)))), fun h ↦ hnot (hexceeded (.inl h))⟩
  · intro hday hweek hnear h
    have hzero : monthlyLimit ≠ some 0 := by
      intro hzero
      rcases hzeroMonthly hzero (by rw [hnear]; decide) with h | h
      · exact h hday
      · exact h hweek
    exact near_ne_exceeded (warning_of_month hday hweek hzero) hnear (hexceeded (.inl h))

theorem warns_of_covered (h : l.Covered monthlyLimit) :
    (l.warning monthlyLimit).isSome = true ↔ l.hour ≠ .calm ∨ l.day ≠ .calm ∨ l.week ≠ .calm ∨ l.month ≠ .calm := by
  rw [warning_isSome_iff]
  constructor
  · rintro (hday | hweek | hmonth)
    · exact .inr (.inl hday)
    · exact .inr (.inr (.inl hweek))
    · exact .inr (.inr (.inr hmonth.1))
  · rintro (hhour | hday | hweek | hmonth)
    · exact h.hourly hhour
    · exact .inl hday
    · exact .inr (.inl hweek)
    · by_cases hzero : monthlyLimit = some 0
      · exact (h.zeroMonthly hzero hmonth).imp_right .inl
      · exact .inr (.inr ⟨hmonth, hzero⟩)

theorem exceeded_of_covered (h : l.Covered monthlyLimit)
    (hexceeded : l.hour = .exceeded ∨ l.day = .exceeded ∨ l.week = .exceeded ∨ l.month = .exceeded) :
    ∃ p, l.warning monthlyLimit = some (.quotaExceeded p) := by
  cases hday : l.day with
  | exceeded => exact ⟨.daily, by rw [warning_of_day (by rw [hday]; decide), hday]; rfl⟩
  | near =>
    obtain ⟨hweek, hmonth, hhour⟩ := h.daily hday
    rw [hday] at hexceeded
    rcases hexceeded with h | h | h | h
    · exact absurd h hhour
    · cases h
    · exact absurd h hweek
    · exact absurd h hmonth
  | calm =>
    rw [hday] at hexceeded
    cases hweek : l.week with
    | exceeded => exact ⟨.weekly, by rw [warning_of_week hday (by rw [hweek]; decide), hweek]; rfl⟩
    | near =>
      obtain ⟨hmonth, hhour⟩ := h.weekly hday hweek
      rw [hweek] at hexceeded
      rcases hexceeded with h | h | h | h
      · exact absurd h hhour
      · cases h
      · cases h
      · exact absurd h hmonth
    | calm =>
      rw [hweek] at hexceeded
      -- only the month and the hour are left
      have hleft : l.hour = .exceeded ∨ l.month = .exceeded := by
        rcases hexceeded with h | h | h | h
        · exact .inl h
        · cases h
        · cases h
        · exact .inr h
      have hmonth : l.month ≠ .calm ∧ monthlyLimit ≠ some 0 := by
        rcases hleft with hhour | hmonth
        · rcases h.hourly (by rw [hhour]; decide) with h | h | h
          · exact absurd hday h
          · exact absurd hweek h
          · exact h
        · refine ⟨by rw [hmonth]; decide, fun hzero ↦ ?_⟩
          rcases h.zeroMonthly hzero (by rw [hmonth]; decide) with h | h
          · exact h hday
          · exact h hweek
      cases hlevel : l.month with
      | calm => exact absurd hlevel hmonth.1
      | exceeded => exact ⟨.monthly, by rw [warning_of_month hday hweek hmonth.2, hlevel]; rfl⟩
      | near =>
        rcases hleft with hhour | hmonth
        · exact absurd hhour (h.monthly hday hweek hlevel)
        · rw [hlevel] at hmonth
          cases hmonth

end

/-- The warning is complete exactly when the levels are covered. -/
theorem complete_iff (config : Config) (service : Text) (limits : ServiceLimits) (m : Maps) :
    (buildServiceStat config service limits m).Complete ↔
      (levels config service limits m).Covered limits.monthlyLimit := by
  have hwarning : (buildServiceStat config service limits m).warning =
      (levels config service limits m).warning limits.monthlyLimit := warning_eq config service limits m
  have hstrained := strained_iff config service limits m
  have hexceeded := exceeded_iff config service limits m
  constructor
  · intro hcomplete
    apply covered_of_complete
    · rw [← hwarning, ← hstrained]
      exact hcomplete.warns.mpr
    · rw [← hwarning, ← hexceeded]
      exact hcomplete.exceeded
  · intro hcovered
    refine ⟨?_, ?_⟩
    · rw [hwarning, hstrained]
      exact warns_of_covered hcovered
    · rw [hwarning, hexceeded]
      exact exceeded_of_covered hcovered

/-- The entry of `otx` in `API_LIMITS`. -/
def otxLimits : ServiceLimits where
  name := "AlienVault OTX".toList
  dailyLimit := none
  hourlyLimit := some 10000
  weeklyLimit := none
  monthlyLimit := none
  rateLimit := "10,000 req/hour (API key) · BRIEFR paces 2 req/sec".toList
  notes :=
    ("Campaign correlation via community pulses. Hourly quota with API key. " ++
      "BRIEFR caches 6h per CVE/pulse/IOC.").toList
  docsUrl := "https://otx.alienvault.com/api".toList
  cacheHours := some 6

def otxConfig : Config := ⟨fun service ↦ if service = "otx".toList then some otxLimits else none, 10000⟩

def tenThousandThisHour : Maps := ⟨fun _ ↦ none, fun _ ↦ none, none, none, some fun _ ↦ some 10000⟩

/-- A quota of the hour that is used up leaves no warning. -/
theorem otx_hour_unreported :
    (buildServiceStat otxConfig "otx".toList otxLimits tenThousandThisHour).warning = none ∧
      ∃ u ∈ (buildServiceStat otxConfig "otx".toList otxLimits tenThousandThisHour).usages, u.Exceeded :=
  ⟨rfl, _, .head _, 0, rfl, by decide⟩

end Briefr.Tracking.ServiceStats
