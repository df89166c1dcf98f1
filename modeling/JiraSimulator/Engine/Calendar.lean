import JiraSimulator.Domain.BusinessCalendar

/-!
# Working hours of the classic engine

Working moments and the end of a sprint, over the wall-clock times of the team's zone, and the tick
schedule of a sprint.  The clock of the process runs in UTC.
-/

namespace JiraSimulator.Engine

open Library

/-! ### Instants -/

/-- A `datetime`: an instant, and whether it carries its zone.  A row gives it back without one. -/
structure Moment where
  instant : ℤ
  aware : Bool
  deriving DecidableEq, Repr

/-- A `datetime` in UTC. -/
def Moment.utc (instant : ℤ) : Moment :=
  { instant, aware := true }

/-- `a < b`, which raises for a `datetime` with a zone and one without. -/
def Moment.before (a b : Moment) : Result Bool :=
  if a.aware = b.aware then .ok (a.instant < b.instant)
  else .error (.typeError "can't compare offset-naive and offset-aware datetimes")

/-- `moment + delta`. -/
def Moment.add (moment : Moment) (delta : ℤ) : Result Moment := do
  let instant ← addDuration moment.instant delta
  return { moment with instant }

/-- `date.max`. -/
def maxDate : ℤ := 2932896

/-- `day + timedelta(days=1)`. -/
def nextDay (day : ℤ) : Result ℤ :=
  if day + 1 ≤ maxDate then .ok (day + 1) else .error .overflowError

/-- `_to_local`: the wall-clock time with its fold. -/
def localTime (zone : TimeZone) (instant : ℤ) : Result (ℤ × Bool) :=
  let wall := zone.fromUtc instant
  if minInstant ≤ wall.1 ∧ wall.1 ≤ maxInstant then .ok wall else .error .overflowError

/-- `candidate.astimezone(UTC)` of a wall-clock time. -/
def fromLocal (zone : TimeZone) (naive : ℤ) (fold : Bool) : Result Moment :=
  let instant := naive - zone.utcOffset naive fold
  if minInstant ≤ instant ∧ instant ≤ maxInstant then .ok (.utc instant)
  else .error .overflowError

/-- The hour of a wall-clock time. -/
def hourOf (naive : ℤ) : ℤ :=
  naive % microsecondsPerDay / microsecondsPerHour

/-- The wall-clock time of a full hour of a day. -/
def atHour (day hour : ℤ) : Result ℤ := do
  require (0 ≤ hour ∧ hour ≤ 23) "hour must be in 0..23"
  return day * microsecondsPerDay + hour * microsecondsPerHour

/-! ### Working time -/

/-- `DEFAULT_WORKING_DAYS`, Monday to Friday. -/
def defaultWorkingDays : List ℕ := [0, 1, 2, 3, 4]

/-- What the functions of the calendar are told about a team. -/
structure WorkingHours where
  zone : TimeZone
  startHour : ℤ
  endHour : ℤ
  holidays : List ℤ
  workingDays : List ℕ := defaultWorkingDays

/-- `MAX_LOOKAHEAD_DAYS`. -/
def maxLookaheadDays : ℕ := 30

variable (hours : WorkingHours)

def isWorkingDay (day : ℤ) : Bool :=
  BusinessCalendar.weekday day ∈ hours.workingDays && day ∉ hours.holidays

/-- `_is_working_local`. -/
def isWorkingLocal (naive : ℤ) : Bool :=
  isWorkingDay hours (dateOf naive) &&
    decide (hours.startHour ≤ hourOf naive ∧ hourOf naive < hours.endHour)

/-- `is_working_time`. -/
def isWorkingTime (instant : ℤ) : Result Bool := do
  let (naive, _) ← localTime hours.zone instant
  return isWorkingLocal hours naive

/-- The first working day of some days in a row. -/
def scanWorkingDay : ℕ → ℤ → Result (Option ℤ)
  | 0, _ => return none
  | days + 1, day =>
    if isWorkingDay hours day then return some day
    else do
      let day ← nextDay day
      scanWorkingDay days day

def nextWorkingMoment (after : Moment) : Result Moment := do
  let (naive, fold) ← localTime hours.zone after.instant
  if isWorkingLocal hours naive then return after
  else if isWorkingDay hours (dateOf naive) ∧ hourOf naive < hours.startHour then
    let candidate ← atHour (dateOf naive) hours.startHour
    fromLocal hours.zone candidate fold
  else
    let tomorrow ← nextDay (dateOf naive)
    match ← scanWorkingDay hours maxLookaheadDays tomorrow with
    | some day =>
      let candidate ← atHour day hours.startHour
      fromLocal hours.zone candidate false
    | none => return after

/-! ### Sprints -/

/-- The loop of `_compute_sprint_end`; it leaves the calendar before its fuel is used up. -/
def countWorkingDays (target : ℤ) : ℕ → ℤ → ℤ → Result ℤ
  | 0, _, _ => .error .overflowError
  | fuel + 1, day, counted =>
    if counted < target then do
      let day ← nextDay day
      countWorkingDays target fuel day (if isWorkingDay hours day then counted + 1 else counted)
    else return day

/-- `_compute_sprint_end`. -/
def computeSprintEnd (sprintStart : Moment) (sprintLengthDays : ℤ) : Result Moment := do
  if sprintLengthDays ≤ 0 then return sprintStart
  else
    let (naive, _) ← localTime hours.zone sprintStart.instant
    let day := dateOf naive
    let last ← countWorkingDays hours sprintLengthDays ((maxDate - day).toNat + 1) day
      (if isWorkingDay hours day then 1 else 0)
    let finish ← atHour last hours.endHour
    fromLocal hours.zone finish false

/-- `timedelta(hours=value)` in microseconds: the whole hours exactly, and the fraction as a double.
-/
def timedeltaHours (value : ℚ) : Result ℤ :=
  let whole := pyInt value
  let fraction := fmul (value - whole) (floatOfInt microsecondsPerHour)
  let duration := Rounding.roundHalfEven (whole * microsecondsPerHour + fraction)
  let days := duration / microsecondsPerDay
  if -999999999 ≤ days ∧ days ≤ 999999999 then .ok duration else .error .overflowError

/-- The loop of `_compute_tick_wall_times`; `none` while it still runs. -/
def tickTimesFrom (sprintEnd : Moment) (tickDelta : ℤ) : ℕ → Moment → Result (Option (List Moment))
  | 0, _ => return none
  | fuel + 1, current => do
    if ← current.before sprintEnd then
      let drifted ← current.add tickDelta
      let next ← nextWorkingMoment hours drifted
      let rest ← tickTimesFrom sprintEnd tickDelta fuel next
      return rest.map fun times => current :: times
    else return some []

/-- `_compute_tick_wall_times`, with a bound on the rounds of its loop. -/
def computeTickWallTimes (fuel : ℕ) (sprintStart : Moment) (sprintLengthDays : ℤ)
    (tickDurationHours : ℚ) : Result (Option (List Moment)) := do
  let sprintEnd ← computeSprintEnd hours sprintStart sprintLengthDays
  let tickDelta ← timedeltaHours tickDurationHours
  let current ← nextWorkingMoment hours sprintStart
  tickTimesFrom hours sprintEnd tickDelta fuel current

end JiraSimulator.Engine
