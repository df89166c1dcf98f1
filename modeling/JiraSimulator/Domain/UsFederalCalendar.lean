import JiraSimulator.Domain.BusinessCalendar
import JiraSimulator.Library.Gregorian

/-!
# The holidays of the US federal profile

The holidays of a year are five fixed dates, observed on a neighbouring weekday when they fall on a
weekend, and six weekdays of a month.  A horizon holds the holidays between two dates and is
extended in steps of ten years.
-/

namespace JiraSimulator

open Library Library.Gregorian

def usFederalProfile : String := "US_FEDERAL_V1"

def usFederalVersion : String := "1"

def startYearOffset : ℤ := 1

def initialEndYearOffset : ℤ := 10

def extensionYears : ℤ := 10

/-- `date(year, month, day)` of a day that the month has. -/
def calendarDate (year : ℤ) (month : ℕ) (day : ℤ) : Result ℤ := do
  require (1 ≤ year ∧ year ≤ 9999) "year is out of range"
  return dayOf year month day

/-- `day.weekday()`, from Monday on. -/
def weekdayOf (day : ℤ) : ℤ :=
  BusinessCalendar.weekday day

/-- `_observed`. -/
def observed (day : ℤ) : ℤ :=
  if weekdayOf day = 5 then day - 1
  else if weekdayOf day = 6 then day + 1
  else day

/-- `_nth_weekday`. -/
def nthWeekday (year : ℤ) (month : ℕ) (weekday ordinal : ℤ) : Result ℤ := do
  let first ← calendarDate year month 1
  let offset := (weekday - weekdayOf first) % 7
  return first + (offset + (ordinal - 1) * 7)

/-- `_last_weekday`. -/
def lastWeekday (year : ℤ) (month : ℕ) (weekday : ℤ) : Result ℤ := do
  let last ← calendarDate year month (daysInMonth year month)
  return last - (weekdayOf last - weekday) % 7

/-- New Year, Juneteenth, Independence Day, Veterans Day and Christmas. -/
def fixedDates : List (ℕ × ℤ) :=
  [(1, 1), (6, 19), (7, 4), (11, 11), (12, 25)]

/-- `_fixed_holidays`. -/
def fixedHolidays (year : ℤ) : Result (List ℤ) :=
  fixedDates.mapM fun rule => observed <$> calendarDate year rule.1 rule.2

/-- `_holidays_for_year`. -/
def holidaysForYear (year : ℤ) : Result (List ℤ) := do
  let fixed ← fixedHolidays year
  let mlkDay ← nthWeekday year 1 0 3
  let washingtonBirthday ← nthWeekday year 2 0 3
  let memorialDay ← lastWeekday year 5 0
  let laborDay ← nthWeekday year 9 0 1
  let columbusDay ← nthWeekday year 10 0 2
  let thanksgiving ← nthWeekday year 11 3 4
  return fixed ++ [mlkDay, washingtonBirthday, memorialDay, laborDay, columbusDay, thanksgiving]

/-- `tuple(sorted(set(days)))`. -/
def sortedSet (days : List ℤ) : List ℤ :=
  Ordering.sortOn (fun day => [day]) days.dedup

/-- `_holidays_between`. -/
def holidaysBetween (startsOn endsOn : ℤ) : Result (List ℤ) := do
  let years ← (daysFrom (yearOf startsOn - 1) (yearOf endsOn + 1)).mapM holidaysForYear
  return sortedSet (years.flatten.filter fun holiday => startsOn ≤ holiday && holiday ≤ endsOn)

structure HolidayHorizon where
  profile : String
  version : String
  startsOn : ℤ
  endsOn : ℤ
  holidays : List ℤ
  deriving DecidableEq, Repr

def HolidayHorizon.validate (horizon : HolidayHorizon) : Result Unit := do
  require (isCanonicalText horizon.profile) "profile must be a non-empty identifier"
  require (isCanonicalText horizon.version) "version must be a non-empty identifier"
  require (horizon.startsOn ≤ horizon.endsOn) "holiday horizon must be ordered"
  require (horizon.holidays = sortedSet horizon.holidays) "holidays must be unique and ordered"
  require (∀ day ∈ horizon.holidays, horizon.startsOn ≤ day ∧ day ≤ horizon.endsOn)
    "holiday falls outside its horizon"

/-- `materialize_us_federal_horizon`. -/
def materializeUsFederalHorizon (firstStart : ℤ) (timezone : TimeZone) :
    Result HolidayHorizon := do
  let wall ← toLocal timezone firstStart
  let firstYear := yearOf (dateOf wall.1)
  let startsOn ← calendarDate (firstYear - startYearOffset) 1 1
  let endsOn ← calendarDate (firstYear + initialEndYearOffset) 12 31
  let holidays ← holidaysBetween startsOn endsOn
  let horizon : HolidayHorizon :=
    { profile := usFederalProfile, version := usFederalVersion, startsOn, endsOn, holidays }
  horizon.validate
  return horizon

/-- `_authenticate_us_federal_horizon`. -/
def HolidayHorizon.authenticate (horizon : HolidayHorizon) : Result Unit := do
  require (horizon.profile = usFederalProfile ∧ horizon.version = usFederalVersion)
    "horizon must use US_FEDERAL_V1 version 1"
  let expected ← holidaysBetween horizon.startsOn horizon.endsOn
  require (horizon.startsOn = dayOf (yearOf horizon.startsOn) 1 1 ∧
      horizon.endsOn = dayOf (yearOf horizon.endsOn) 12 31 ∧ horizon.holidays = expected)
    "horizon must be a canonical US_FEDERAL_V1 horizon"

/-- `_requires_extension`. -/
def requiresExtension (endsOn asOf : ℤ) : Bool :=
  yearOf endsOn = 1 || dayOf (yearOf endsOn - 1) 1 1 < asOf

/-- `_catch_up_end`. -/
def catchUpEnd (endsOn asOf : ℤ) : Result ℤ :=
  if requiresExtension endsOn asOf then
    if 9999 - extensionYears < yearOf endsOn then
      .error (.valueError "holiday horizon cannot extend beyond the supported date range")
    else catchUpEnd (dayOf (yearOf endsOn + extensionYears) 12 31) asOf
  else .ok endsOn
termination_by (9999 - yearOf endsOn).toNat
decreasing_by
  rw [yearOf_last]
  unfold extensionYears at *
  omega

/-- `extend_us_federal_horizon`. -/
def extendUsFederalHorizon (horizon : HolidayHorizon) (asOf : ℤ) : Result HolidayHorizon := do
  horizon.authenticate
  let endsOn ← catchUpEnd horizon.endsOn asOf
  if endsOn = horizon.endsOn then
    return horizon
  else
    let holidays ← holidaysBetween horizon.startsOn endsOn
    let extended : HolidayHorizon := { horizon with endsOn, holidays }
    extended.validate
    return extended

end JiraSimulator
