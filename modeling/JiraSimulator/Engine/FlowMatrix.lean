import JiraSimulator.Domain.CanonicalJson
import JiraSimulator.Engine.EventDispatcher
import JiraSimulator.Integrations.JiraWriteQueue
import JiraSimulator.Library.Gregorian

/-!
# The flow matrix of a sprint

The matrix shows for each working day of a sprint how many of its issues stand in each status at the
end of the day, and their story points.  The statuses are followed through the transition events of
the sprint, from the first status that the planning gives an issue.
-/

namespace JiraSimulator.Engine

open Library

/-! ### Statuses -/

/-- A target status as the key of a dictionary, where `True` and 1 are one key. -/
inductive StatusKey where
  | null
  | number (value : ℚ)
  | text (value : String)
  deriving DecidableEq, Repr

/-- The key of a target status; a list or a dictionary cannot be one. -/
def statusKey : Json → Result StatusKey
  | .null => .ok .null
  | .bool value => .ok (.number (if value then 1 else 0))
  | .number value => .ok (.number value)
  | .string value => .ok (.text value)
  | .array _ => .error (.typeError "unhashable type: 'list'")
  | .object _ => .error (.typeError "unhashable type: 'dict'")

def StatusKey.number? : StatusKey → Option ℚ
  | .number value => some value
  | .null | .text _ => none

def StatusKey.text? : StatusKey → Option String
  | .text value => some value
  | .null | .number _ => none

/-- `sorted` of a set of statuses: texts and numbers are not compared with one another. -/
def sortedStatuses (statuses : List StatusKey) : Result (List StatusKey) :=
  match statuses.mapM StatusKey.text?, statuses.mapM StatusKey.number? with
  | some texts, _ => .ok ((Ordering.sortOn codePoints texts).map .text)
  | none, some numbers => .ok ((numbers.insertionSort (· ≤ ·)).map .number)
  | none, none =>
    if statuses.length ≤ 1 then .ok statuses else .error (.typeError "'<' not supported")

/-! ### The states of the issues -/

/-- The dictionary `issue_state`, with the status of each issue. -/
abbrev IssueStates : Type := List (ℤ × Json)

/-- The issue that an event moves, and the status that it moves it to. -/
def ScheduledEventRow.move (event : ScheduledEventRow) : Option (ℤ × Json) :=
  let target := JsonObject.get event.payload "target_status"
  match given event.issueId with
  | some issueId => if WriteQueue.truthy target then some (issueId, target) else none
  | none => none

/-- An entry for an issue that has none. -/
def setDefault (states : IssueStates) (entry : ℤ × Json) : IssueStates :=
  if entry.1 ∈ states.map Prod.fst then states else states ++ [entry]

/-- The first statuses: of the events at tick 0, and the default. -/
def initialStates (events : List ScheduledEventRow) (defaultStatus : String)
    (issues : List IssueRow) : IssueStates :=
  let planned := events.filterMap fun event => if event.simTick = 0 then event.move else none
  let defaults := issues.map fun issue => (issue.id, Json.string defaultStatus)
  defaults.foldl setDefault (planned.foldl setDefault [])

/-- The status of one event is entered. -/
def applyEvent (states : IssueStates) (event : ScheduledEventRow) : IssueStates :=
  match event.move with
  | some entry => Keyed.assign Prod.fst states entry
  | none => states

/-- The events before a boundary are applied; the others are left. -/
def applyBefore (boundary : ℤ) :
    List ScheduledEventRow → IssueStates → IssueStates × List ScheduledEventRow
  | [], states => (states, [])
  | event :: events, states =>
    if event.scheduledAt < boundary then applyBefore boundary events (applyEvent states event)
    else (states, event :: events)

/-! ### Columns -/

/-- What a column counts for a status. -/
structure StatusCount where
  status : StatusKey
  items : ℕ
  points : ℤ
  deriving DecidableEq, Repr

/-- `status_counts[status]`. -/
def countOf (counts : List StatusCount) (status : StatusKey) : StatusCount :=
  (Keyed.lookup StatusCount.status counts status).getD { status, items := 0, points := 0 }

/-- One issue is counted in its status. -/
def countIssue (pointsOf : ℤ → ℤ) (counts : List StatusCount) (entry : ℤ × Json) :
    Result (List StatusCount) := do
  let status ← statusKey entry.2
  let count := countOf counts status
  return Keyed.assign StatusCount.status counts
    { count with items := count.items + 1, points := count.points + pointsOf entry.1 }

/-- The walk over the days: the states, the events that are left, all statuses, and the columns. -/
structure FlowWalk where
  states : IssueStates
  events : List ScheduledEventRow
  statuses : List StatusKey
  columns : List (List StatusCount)

/-- The start of the next day. -/
def endOfDay (day : ℤ) : ℤ :=
  (day + 1) * microsecondsPerDay

/-- One day of the walk. -/
def flowDay (pointsOf : ℤ → ℤ) (walk : FlowWalk) (day : ℤ) : Result FlowWalk := do
  let (states, events) := applyBefore (endOfDay day) walk.events walk.states
  let counts ← states.foldlM (countIssue pointsOf) []
  return {
    states, events
    statuses := Keyed.update id walk.statuses (counts.map (·.status))
    columns := walk.columns ++ [counts] }

/-! ### Days -/

/-- The working days among some days in a row. -/
def workingDaysFrom : ℕ → ℤ → Result (List ℤ)
  | 0, _ => return []
  | days + 1, day => do
    let next ← nextDay day
    let rest ← workingDaysFrom days next
    return if BusinessCalendar.weekday day ∈ defaultWorkingDays then day :: rest else rest

def monthNames : List String :=
  ["Jan", "Feb", "Mar", "Apr", "May", "Jun", "Jul", "Aug", "Sep", "Oct", "Nov", "Dec"]

/-- `day.strftime("%b %d")`. -/
def dayLabel (day : ℤ) : String :=
  let year := Gregorian.yearOf day
  let ordinal := day - Gregorian.newYearsDay year
  let months := (List.range 12).filter fun m => Gregorian.daysBeforeMonth year (m + 1) ≤ ordinal
  let dayOfMonth := ordinal - Gregorian.daysBeforeMonth year months.length + 1
  monthNames.getD (months.length - 1) "" ++ (if dayOfMonth < 10 then " 0" else " ") ++
    toString dayOfMonth

/-! ### The matrix -/

/-- The response: the shown dates, the statuses, and a row of cells for each status. -/
structure FlowMatrix where
  dates : List ℤ
  statuses : List StatusKey
  items : List (List ℕ)
  points : List (List ℤ)
  deriving DecidableEq, Repr

/-- The labels of the days, as the response shows them. -/
def FlowMatrix.days (matrix : FlowMatrix) : List String :=
  matrix.dates.map dayLabel

def FlowMatrix.empty : FlowMatrix where
  dates := []
  statuses := []
  items := []
  points := []

namespace Database

variable (db : Database) (teamId sprintId : ℤ)

/-- The issues of a sprint. -/
def sprintIssues : List IssueRow :=
  db.issues.rows.filter fun issue => issue.teamId = teamId && issue.sprintId = some sprintId

/-- The transition events of a sprint in their order. -/
def transitionEvents : List ScheduledEventRow :=
  Ordering.sortOn dispatchOrder (db.events.rows.filter fun event =>
    event.teamId = teamId && event.sprintId = sprintId && event.eventType = "TRANSITION_ISSUE")

/-- The workflow of a team. -/
def workflow : Option (List WorkflowStepSnapshot) :=
  (db.team teamId).bind (·.workflowSteps)

/-- The status of an issue without a planning event. -/
def defaultStatus : String :=
  match (db.workflow teamId).bind (·.head?) with
  | some firstStep => firstStep.jiraStatus
  | none => "Backlog"

/-- `issue_points.get(issue_id, 0)`. -/
def issuePoints (issueId : ℤ) : ℤ :=
  ((db.sprintIssues teamId sprintId).find? fun issue => issue.id = issueId).elim 0 (·.points)

/-- The first and the last day of the matrix. -/
def flowBounds (sprint : SprintRow) (first : ScheduledEventRow) : ℤ × ℤ :=
  (dateOf first.scheduledAt, max (dateOf sprint.endDate) (dateOf first.scheduledAt))

end Database

/-- `get_flow_matrix`. -/
def getFlowMatrix (db : Database) (teamId sprintId : ℤ) : Response FlowMatrix := do
  match db.sprints.get? sprintId with
  | none => throw (.http 404 "Sprint not found")
  | some sprint =>
    match db.sprintIssues teamId sprintId, db.transitionEvents teamId sprintId with
    | [], _ => return .empty
    | _, [] => return .empty
    | issues, first :: events =>
      let (start, last) := Database.flowBounds sprint first
      let dates ← orRaise (workingDaysFrom (last - start + 1).toNat start)
      let walk ← orRaise (dates.foldlM (flowDay (db.issuePoints teamId sprintId)) {
        states := initialStates (first :: events) (db.defaultStatus teamId) issues
        events := first :: events
        statuses := []
        columns := [] })
      let statuses ←
        match db.workflow teamId with
        | some steps => pure (steps.map fun step => .text step.jiraStatus)
        | none => orRaise (sortedStatuses walk.statuses)
      return {
        dates, statuses
        items := statuses.map fun status => walk.columns.map fun counts =>
          (countOf counts status).items
        points := statuses.map fun status => walk.columns.map fun counts =>
          (countOf counts status).points }

end JiraSimulator.Engine
