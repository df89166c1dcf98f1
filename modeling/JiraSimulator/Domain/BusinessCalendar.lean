import JiraSimulator.Domain.TeamBlueprint

/-!
# Business calendar and fixed cadence

The working interval of a date, the calendar and business time elapsed over an interval, the instant
after some business time, and the cadence boundaries of the sprints, over the wall-clock times of
one time zone.
-/

namespace JiraSimulator

/-- `DATETIME_RANGE_ERROR`. -/
def datetimeRangeError : PyError :=
  .valueError "calendar operation exceeds the supported datetime range"

structure UtcInterval where
  start : ℤ
  finish : ℤ
  deriving DecidableEq, Repr

/-- `UtcInterval(start, end)` with its validation. -/
def UtcInterval.create (start finish : ℤ) : Result UtcInterval := do
  require (start ≤ finish) "UTC interval must not be reversed"
  return { start, finish }

/-- The instant from which a working interval is left at an instant, if any of it is. -/
def UtcInterval.workFrom (working : UtcInterval) (instant : ℤ) : Option ℤ :=
  if instant < working.start then some working.start
  else if instant < working.finish then some instant
  else none

structure DualElapsed where
  calendar : ℤ
  business : ℤ

/-- `DualElapsed(calendar, business)` with its validation. -/
def DualElapsed.create (calendar business : ℤ) : Result DualElapsed := do
  require (0 ≤ calendar ∧ 0 ≤ business ∧ business ≤ calendar)
    "elapsed clocks must be non-negative and ordered"
  return { calendar, business }

structure BusinessTimeAddition where
  start : ℤ
  duration : ℤ

/-- `BusinessTimeAddition(start, duration)` with its validation. -/
def BusinessTimeAddition.create (start duration : ℤ) : Result BusinessTimeAddition := do
  require (0 ≤ duration) "business duration must be non-negative"
  return { start, duration }

structure CadenceRule where
  anchor : ℤ
  cadenceDays : ℕ

/-- `CadenceRule(anchor, cadence_days)` with its validation. -/
def CadenceRule.create (anchor : ℤ) (cadenceDays : ℕ) : Result CadenceRule := do
  require (0 < cadenceDays) "cadence_days must be a positive integer"
  return { anchor, cadenceDays }

structure BusinessCalendar where
  timezone : TimeZone
  weekdayIndices : List ℕ
  workdayStart : ℕ
  workdayEnd : ℕ
  holidayHorizonEnd : ℤ
  holidays : List ℤ

/-! ### Time zones -/

/-- `_convert_timezone` to wall-clock time. -/
def toLocal (zone : TimeZone) (instant : ℤ) : Result (ℤ × Bool) :=
  let wall := zone.fromUtc instant
  if minInstant ≤ wall.1 ∧ wall.1 ≤ maxInstant then .ok wall else .error datetimeRangeError

/-- `_convert_timezone` from wall-clock time. -/
def toUtc (zone : TimeZone) (naive : ℤ) (fold : Bool) : Result ℤ :=
  let instant := naive - zone.utcOffset naive fold
  if minInstant ≤ instant ∧ instant ≤ maxInstant then .ok instant else .error datetimeRangeError

def roundtripCandidate (naive : ℤ) (zone : TimeZone) (fold : Bool) : Result (Option ℤ) := do
  let candidate ← toUtc zone naive fold
  let roundtrip ← toLocal zone candidate
  return if roundtrip.1 ≠ naive ∨ roundtrip.2 ≠ fold then none else some candidate

/-- The instant of a wall-clock time that names exactly one. -/
def resolveLocal (zone : TimeZone) (naive : ℤ) : Result ℤ := do
  let first ← roundtripCandidate naive zone false
  let second ← roundtripCandidate naive zone true
  match first, second with
  | none, none => .error (.valueError "local boundary is nonexistent")
  | some instant, none => .ok instant
  | none, some instant => .ok instant
  | some a, some b =>
    if a = b then .ok a else .error (.valueError "local boundary is ambiguous")

/-! ### The calendar -/

def resolveIanaTimezone (p : Platform) (name : String) : Result TimeZone :=
  match p.timeZone name with
  | some zone =>
    if isCanonicalText name then .ok zone
    else .error (.valueError "timezone_name must name an available IANA timezone")
  | none => .error (.valueError "timezone_name must name an available IANA timezone")

def requireIdentifier (value label : String) : Result Unit :=
  require (isCanonicalText value) (label ++ " must be a non-empty identifier")

/-- The calendar of a blueprint, which checks its configuration again. -/
def BusinessCalendar.fromBlueprint (p : Platform) (timezoneName : String)
    (blueprint : CalendarBlueprint) : Result BusinessCalendar := do
  require (blueprint.workdayStart < blueprint.workdayEnd) "workday interval must be ordered"
  requireIdentifier timezoneName "timezone_name"
  let timezone ← resolveIanaTimezone p timezoneName
  let weekdayIndices := blueprint.workingWeekdays.map Weekday.index
  require (weekdayIndices ≠ []) "working weekdays must be a non-empty ordered tuple"
  require (weekdayIndices.Pairwise (· < ·)) "working weekdays must be unique and ordered"
  requireIdentifier blueprint.holidayCalendarProfile "holiday profile"
  requireIdentifier blueprint.holidayCalendarVersion "holiday version"
  require (blueprint.holidays.Pairwise (· < ·)) "holidays must be unique and ordered"
  require (∀ day ∈ blueprint.holidays, day ≤ blueprint.holidayHorizonEnd)
    "holiday exceeds configured horizon"
  return {
    timezone, weekdayIndices
    workdayStart := blueprint.workdayStart
    workdayEnd := blueprint.workdayEnd
    holidayHorizonEnd := blueprint.holidayHorizonEnd
    holidays := blueprint.holidays }

namespace BusinessCalendar

variable (calendar : BusinessCalendar)

def businessDate (instant : ℤ) : Result ℤ := do
  let wall ← toLocal calendar.timezone instant
  return dateOf wall.1

/-- `day.weekday()`; the epoch was a Thursday. -/
def weekday (day : ℤ) : ℕ :=
  ((day + 3) % 7).toNat

/-- The wall-clock time of a minute of a date. -/
def atMinute (day : ℤ) (minute : ℕ) : ℤ :=
  day * microsecondsPerDay + minute * 60000000

def workingInterval (day : ℤ) : Result (Option UtcInterval) := do
  require (day ≤ calendar.holidayHorizonEnd) "day exceeds the holiday horizon"
  if weekday day ∉ calendar.weekdayIndices ∨ day ∈ calendar.holidays then
    return none
  else
    let start ← resolveLocal calendar.timezone (atMinute day calendar.workdayStart)
    let finish ← resolveLocal calendar.timezone (atMinute day calendar.workdayEnd)
    let interval ← UtcInterval.create start finish
    return some interval

/-- The loop of `next_working_instant` from a day on, of which as many more follow up to the holiday
horizon. -/
def nextWorkingFrom (instant : ℤ) : ℕ → ℤ → Result ℤ
  | more, day => do
    let interval ← calendar.workingInterval day
    match interval.bind (·.workFrom instant) with
    | some next => return next
    | none =>
      match more with
      | 0 => .error (.valueError "no working instant exists within the holiday horizon")
      | more + 1 => nextWorkingFrom instant more (day + 1)

def nextWorkingInstant (instant : ℤ) : Result ℤ := do
  let day ← calendar.businessDate instant
  calendar.nextWorkingFrom instant (calendar.holidayHorizonEnd - day).toNat day

/-- The length of the overlap of two intervals. -/
def intersection (left right : UtcInterval) : ℤ :=
  max 0 (min left.finish right.finish - max left.start right.start)

/-- The working time of a date inside an interval. -/
def workingOverlap (interval : UtcInterval) (day : ℤ) : Result ℤ := do
  match ← calendar.workingInterval day with
  | none => return 0
  | some working => return intersection interval working

def elapsed (interval : UtcInterval) : Result DualElapsed := do
  let calendarElapsed := interval.finish - interval.start
  if calendarElapsed = 0 then DualElapsed.create 0 0
  else
    let day ← calendar.businessDate interval.start
    let finalDay ← calendar.businessDate (interval.finish - 1)
    let overlaps ← (daysFrom day finalDay).mapM (calendar.workingOverlap interval)
    DualElapsed.create calendarElapsed overlaps.sum

/-- The business time elapsed between two instants. -/
def businessElapsed (start finish : ℤ) : Result ℤ := do
  let interval ← UtcInterval.create start finish
  let elapsed ← calendar.elapsed interval
  return elapsed.business

/-- One round of the loop of `add`: the result, or the duration that remains after the working
interval of the cursor and the next working instant. -/
def addRound (remaining cursor : ℤ) : Result (ℤ ⊕ ℤ × ℤ) := do
  let day ← calendar.businessDate cursor
  match ← calendar.workingInterval day with
  | none => .error (.runtimeError "next working instant has no working interval")
  | some working =>
    let available := working.finish - cursor
    if remaining ≤ available then return .inl (cursor + remaining)
    else
      let next ← calendar.nextWorkingInstant working.finish
      return .inr (remaining - available, next)

/-- The loop of `add`; without a result it still runs after the given number of rounds. -/
def addLoop : ℕ → ℤ → ℤ → Option (Result ℤ)
  | 0, _, _ => none
  | rounds + 1, remaining, cursor =>
    match calendar.addRound remaining cursor with
    | .error e => some (.error e)
    | .ok (.inl result) => some (.ok result)
    | .ok (.inr (remaining, cursor)) => addLoop rounds remaining cursor

def add (rounds : ℕ) (request : BusinessTimeAddition) : Option (Result ℤ) :=
  if request.duration = 0 then some (.ok request.start)
  else
    match calendar.nextWorkingInstant request.start with
    | .error e => some (.error e)
    | .ok cursor => calendar.addLoop rounds request.duration cursor

end BusinessCalendar

/-- `cadence_boundary`: the wall-clock time of the anchor, a number of cadences later. -/
def cadenceBoundary (calendar : BusinessCalendar) (rule : CadenceRule) (ordinal : ℕ) : Result ℤ :=
  if ordinal = 0 then .ok rule.anchor
  else do
    let wall ← toLocal calendar.timezone rule.anchor
    let target := wall.1 + (rule.cadenceDays * ordinal : ℕ) * microsecondsPerDay
    if minInstant ≤ target ∧ target ≤ maxInstant then resolveLocal calendar.timezone target
    else .error datetimeRangeError

end JiraSimulator
