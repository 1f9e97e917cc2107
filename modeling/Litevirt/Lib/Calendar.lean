import Mathlib

/-!
# The Gregorian calendar

Days counted from 1970-01-01 and dates of the proleptic Gregorian calendar.  Years
are counted from March inside a cycle of 400 years, so that the leap day is the
last day of such a year.
-/

namespace Litevirt.Lib

structure Date where
  year : Int
  month : Nat
  day : Nat
  deriving DecidableEq, Repr

namespace Date

def leap (year : Int) : Bool := year % 4 = 0 && (year % 100 ≠ 0 || year % 400 = 0)

def daysIn (month : Nat) (year : Int) : Nat :=
  if month = 2 then (if leap year then 29 else 28)
  else if month = 4 ∨ month = 6 ∨ month = 9 ∨ month = 11 then 30
  else 31

theorem daysIn_le (month : Nat) (year : Int) : daysIn month year ≤ 31 := by
  unfold daysIn
  repeat' split
  all_goals omega

structure Valid (d : Date) : Prop where
  month : 1 ≤ d.month ∧ d.month ≤ 12
  day : 1 ≤ d.day ∧ d.day ≤ daysIn d.month d.year

def marchYear (d : Date) : Int := if d.month ≤ 2 then d.year - 1 else d.year

def marchMonth (d : Date) : Int := if d.month ≤ 2 then d.month + 9 else d.month - 3

def toDays (d : Date) : Int :=
  let era := d.marchYear / 400
  let yearOfEra := d.marchYear % 400
  let dayOfYear := (153 * d.marchMonth + 2) / 5 + d.day - 1
  era * 146097 + (yearOfEra * 365 + yearOfEra / 4 - yearOfEra / 100 + dayOfYear) - 719468

/-- The full centuries, four-year spans and years before a day of a 400-year cycle. -/
def century (dayOfEra : Int) : Int := min (dayOfEra / 36524) 3

def span (dayOfEra : Int) : Int := (dayOfEra - 36524 * century dayOfEra) / 1461

def yearOfSpan (dayOfEra : Int) : Int :=
  min ((dayOfEra - 36524 * century dayOfEra - 1461 * span dayOfEra) / 365) 3

def yearOfEra (dayOfEra : Int) : Int :=
  100 * century dayOfEra + 4 * span dayOfEra + yearOfSpan dayOfEra

def dayOfYear (dayOfEra : Int) : Int :=
  dayOfEra - 36524 * century dayOfEra - 1461 * span dayOfEra - 365 * yearOfSpan dayOfEra

/-- The months since March of a day of the year. -/
def monthOfYear (inYear : Int) : Int := (5 * inYear + 2) / 153

def ofDays (days : Int) : Date :=
  let era := (days + 719468) / 146097
  let dayOfEra := (days + 719468) % 146097
  let inYear := dayOfYear dayOfEra
  let fromMarch := monthOfYear inYear
  ⟨yearOfEra dayOfEra + era * 400 + (if fromMarch < 10 then 0 else 1),
    (if fromMarch < 10 then fromMarch + 3 else fromMarch - 9).toNat,
    (inYear - (153 * fromMarch + 2) / 5 + 1).toNat⟩

/-- The parts of a day of a 400-year cycle.  Only the last year of a span has 366
days, and the last span of a century only when the cycle ends with it. -/
theorem cycle_bounds {day : Int} (lower : 0 ≤ day) (upper : day < 146097) :
    (0 ≤ century day ∧ century day ≤ 3) ∧ (0 ≤ span day ∧ span day ≤ 24) ∧
      (0 ≤ yearOfSpan day ∧ yearOfSpan day ≤ 3) ∧
      (0 ≤ dayOfYear day ∧ dayOfYear day ≤ 365) ∧
      (dayOfYear day = 365 →
        yearOfSpan day = 3 ∧ (span day = 24 → century day = 3)) := by
  have centuries : 0 ≤ century day ∧ century day ≤ 3 ∧
      0 ≤ day - 36524 * century day ∧ day - 36524 * century day ≤ 36524 ∧
      (century day < 3 → day - 36524 * century day < 36524) := by
    unfold century
    omega
  have spans : 0 ≤ span day ∧ span day ≤ 24 ∧
      0 ≤ day - 36524 * century day - 1461 * span day ∧
      day - 36524 * century day - 1461 * span day ≤ 1460 := by
    unfold span
    omega
  have years : 0 ≤ yearOfSpan day ∧ yearOfSpan day ≤ 3 ∧ 0 ≤ dayOfYear day ∧
      dayOfYear day ≤ 365 ∧ (dayOfYear day = 365 → yearOfSpan day = 3) := by
    unfold dayOfYear yearOfSpan
    omega
  refine ⟨⟨centuries.1, centuries.2.1⟩, ⟨spans.1, spans.2.1⟩, ⟨years.1, years.2.1⟩,
    ⟨years.2.2.1, years.2.2.2.1⟩, fun last => ⟨years.2.2.2.2 last, fun lastSpan => ?_⟩⟩
  have := years.2.2.2.2 last
  unfold dayOfYear at last
  omega

theorem monthOfYear_bounds {inYear : Int} (lower : 0 ≤ inYear) (upper : inYear ≤ 365) :
    0 ≤ monthOfYear inYear ∧ monthOfYear inYear < 12 ∧
      (153 * monthOfYear inYear + 2) / 5 ≤ inYear := by
  unfold monthOfYear
  omega

theorem day_le_of_monthOfYear {inYear : Int} (lower : 0 ≤ inYear) (upper : inYear ≤ 365)
    (notLast : monthOfYear inYear < 11) (year : Int) :
    (inYear - (153 * monthOfYear inYear + 2) / 5 + 1).toNat ≤
      daysIn (if monthOfYear inYear < 10 then monthOfYear inYear + 3
        else monthOfYear inYear - 9).toNat year := by
  have months : monthOfYear inYear = 0 ∨ monthOfYear inYear = 1 ∨ monthOfYear inYear = 2 ∨
      monthOfYear inYear = 3 ∨ monthOfYear inYear = 4 ∨ monthOfYear inYear = 5 ∨
      monthOfYear inYear = 6 ∨ monthOfYear inYear = 7 ∨ monthOfYear inYear = 8 ∨
      monthOfYear inYear = 9 ∨ monthOfYear inYear = 10 := by
    have := monthOfYear_bounds lower upper
    omega
  rcases months with m | m | m | m | m | m | m | m | m | m | m
  all_goals
    rw [m]
    simp only [daysIn]
    unfold monthOfYear at m
    simp
    omega

theorem ofDays_valid (days : Int) : (ofDays days).Valid := by
  have lower : 0 ≤ (days + 719468) % 146097 := Int.emod_nonneg _ (by decide)
  have upper : (days + 719468) % 146097 < 146097 := Int.emod_lt_of_pos _ (by decide)
  obtain ⟨centuries, spans, years, ⟨yearLower, yearUpper⟩, leapDay⟩ := cycle_bounds lower upper
  obtain ⟨monthLower, monthUpper, within⟩ := monthOfYear_bounds yearLower yearUpper
  refine ⟨?_, ?_, ?_⟩
  · simp only [ofDays]
    split <;> omega
  · simp only [ofDays]
    omega
  by_cases last : monthOfYear (dayOfYear ((days + 719468) % 146097)) < 11
  · exact day_le_of_monthOfYear yearLower yearUpper last _
  -- February, whose last day is there only before a leap year's March.
  have february : monthOfYear (dayOfYear ((days + 719468) % 146097)) = 11 := by omega
  simp only [ofDays, february, daysIn]
  by_cases isLast : dayOfYear ((days + 719468) % 146097) = 365
  · obtain ⟨lastYear, lastSpan⟩ := leapDay isLast
    have isLeap : leap (yearOfEra ((days + 719468) % 146097) +
        (days + 719468) / 146097 * 400 + 1) = true := by
      simp only [leap, yearOfEra, lastYear, ne_eq, Bool.and_eq_true, decide_eq_true_eq,
        Bool.or_eq_true, decide_not, Bool.not_eq_true', decide_eq_false_iff_not]
      omega
    simp [isLast, isLeap]
  · simp
    split <;> omega

theorem toDays_ofDays (days : Int) : (ofDays days).toDays = days := by
  have lower : 0 ≤ (days + 719468) % 146097 := Int.emod_nonneg _ (by decide)
  have upper : (days + 719468) % 146097 < 146097 := Int.emod_lt_of_pos _ (by decide)
  have whole := Int.mul_ediv_add_emod (days + 719468) 146097
  simp only [ofDays]
  generalize (days + 719468) % 146097 = day at *
  generalize (days + 719468) / 146097 = era at *
  obtain ⟨centuries, spans, years, ⟨yearLower, yearUpper⟩, -⟩ := cycle_bounds lower upper
  obtain ⟨monthLower, monthUpper, within⟩ := monthOfYear_bounds yearLower yearUpper
  have cycle : (yearOfEra day + era * 400) / 400 = era ∧
      (yearOfEra day + era * 400) % 400 = yearOfEra day := by
    unfold yearOfEra
    omega
  have inEra : yearOfEra day * 365 + yearOfEra day / 4 - yearOfEra day / 100 +
      dayOfYear day = day := by
    unfold yearOfEra dayOfYear
    omega
  simp only [toDays, marchYear, marchMonth]
  split <;> split
  all_goals first | omega | (simp only [Int.add_zero, Int.add_sub_cancel, cycle]; omega)

theorem ofDays_fourDigits {days : Int} (lower : -719528 ≤ days) (upper : days < 2932897) :
    0 ≤ (ofDays days).year ∧ (ofDays days).year ≤ 9999 := by
  have valid := ofDays_valid days
  have counted := toDays_ofDays days
  have monthBound := valid.month
  have dayBound := valid.day
  have short : daysIn (ofDays days).month (ofDays days).year ≤ 31 := daysIn_le _ _
  simp only [toDays, marchYear, marchMonth] at counted
  have cycle : ∀ year : Int, 365 * (year % 400) ≤
      year % 400 * 365 + year % 400 / 4 - year % 400 / 100 ∧
      year % 400 * 365 + year % 400 / 4 - year % 400 / 100 ≤ 145731 := by
    omega
  -- March starts the counted year, so January and February belong to the one before
  split at counted
  · omega
  · have := cycle (ofDays days).year
    omega

end Date

end Litevirt.Lib
