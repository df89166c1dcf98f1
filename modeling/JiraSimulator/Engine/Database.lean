import JiraSimulator.Engine.Precompute
import JiraSimulator.Library.Table

/-!
# The database of the classic engine

The rows of teams, sprints, issues and scheduled events, and the rows that the dispatcher writes to
the write queue.  A `DateTime` column gives an instant back without its zone.
-/

namespace JiraSimulator.Engine

open Library

/-! ### Failures -/

/-- How a request fails: with an HTTP status, with `StaleDataError` on a row that is gone, or with
another exception. -/
inductive Failure where
  | http (status : ℕ) (detail : String)
  | staleData
  | raised (error : PyError)
  deriving DecidableEq, Repr

/-- What a request of the engine gives. -/
abbrev Response (α : Type) := Except Failure α

/-- An exception fails the request. -/
def orRaise {α : Type} (result : Result α) : Response α :=
  result.mapError .raised

theorem orRaise_eq_ok {α : Type} {result : Result α} {a : α} :
    orRaise result = .ok a ↔ result = .ok a := by
  cases result with
  | error e =>
    constructor
    · intro h
      cases h
    · intro h
      cases h
  | ok b =>
    constructor
    · intro h
      cases h
      rfl
    · intro h
      cases h
      rfl

/-! ### Rows -/

/-- `SprintPhase`. -/
inductive SprintPhase where
  | planning
  | simulated
  | active
  | completed
  deriving DecidableEq, Repr

def SprintPhase.text : SprintPhase → String
  | .planning => "PLANNING"
  | .simulated => "SIMULATED"
  | .active => "ACTIVE"
  | .completed => "COMPLETED"

structure SprintRow where
  id : ℤ
  teamId : ℤ
  jiraSprintId : Option ℤ
  name : String
  goal : Option String
  startDate : ℤ
  endDate : ℤ
  phase : SprintPhase
  sprintNumber : ℤ
  committedPoints : ℤ
  capacityTarget : Option ℤ
  deriving DecidableEq, Repr

structure IssueRow extends IssueSnapshot where
  teamId : ℤ
  carriedOver : Bool
  epicId : Option ℤ
  deriving DecidableEq, Repr

inductive EventStatus where
  | pending
  | modified
  | dispatched
  deriving DecidableEq, Repr

def EventStatus.text : EventStatus → String
  | .pending => "PENDING"
  | .modified => "MODIFIED"
  | .dispatched => "DISPATCHED"

structure ScheduledEventRow where
  id : ℤ
  teamId : ℤ
  sprintId : ℤ
  issueId : Option ℤ
  eventType : String
  scheduledAt : ℤ
  simTick : ℕ
  payload : JsonObject
  status : EventStatus
  dispatchedAt : Option ℤ
  modifiedAt : Option ℤ
  originalPayload : Option JsonObject
  originalScheduledAt : Option ℤ
  sequenceOrder : ℕ

/-- A row of the write queue, as `enqueue` adds it. -/
structure QueueRow where
  teamId : ℤ
  operationType : String
  payload : JsonObject
  issueId : Option ℤ
  scheduledEventId : Option ℤ

/-- A team with its workflow, its members and its configuration.  The steps are in their order. -/
structure TeamRow extends TeamSnapshot where
  name : String
  jiraBoardId : Option ℤ
  sprintLengthDays : ℤ
  firstSprintStartDate : Option ℤ
  backlogDepthTarget : ℤ
  workflowSteps : Option (List WorkflowStepSnapshot)
  touchTimeConfigs : List TouchTimeConfigSnapshot
  moveLeftConfigs : List MoveLeftConfigSnapshot
  members : List MemberSnapshot

structure Database where
  teams : List TeamRow
  sprints : Table SprintRow.id
  issues : Table fun row : IssueRow => row.id
  events : Table ScheduledEventRow.id
  queue : List QueueRow

namespace Database

variable (db : Database)

/-- A database with teams and their backlogs, before the first sprint. -/
def fresh (teams : List TeamRow) (issues : Table fun row : IssueRow => row.id) : Database where
  teams
  sprints := .empty _
  issues := issues.map (fun row => { row with sprintId := none }) fun _ => rfl
  events := .empty _
  queue := []

/-- `session.get(Team, team_id)`. -/
def team (teamId : ℤ) : Option TeamRow :=
  db.teams.find? fun team => team.id = teamId

/-- The sprints of a team. -/
def sprintsOf (teamId : ℤ) : List SprintRow :=
  db.sprints.rows.filter fun sprint => sprint.teamId = teamId

/-- A change of one sprint. -/
def updateSprint (sprintId : ℤ) (change : SprintRow → SprintRow)
    (hchange : ∀ row, (change row).id = row.id) : Database :=
  { db with sprints := db.sprints.update sprintId change hchange }

/-! ### Scheduled events -/

end Database

/-- The status is one of those that the dispatcher selects. -/
def ScheduledEventRow.waits (event : ScheduledEventRow) : Bool :=
  event.status = .pending || event.status = .modified

/-- The events of a sprint that the dispatcher has not taken yet. -/
def ScheduledEventRow.waitsFor (teamId sprintId : ℤ) (event : ScheduledEventRow) : Bool :=
  event.teamId = teamId && event.sprintId = sprintId && event.waits

namespace Database

variable (db : Database)

/-- A row of the write queue refers to the event. -/
def isQueued (eventId : ℤ) : Bool :=
  db.queue.any fun row => row.scheduledEventId = some eventId

/-- The events of a query are deleted; a reference from the write queue forbids it. -/
def deleteEvents (selects : ScheduledEventRow → Bool) : Response Database :=
  if db.events.rows.any fun event => selects event && db.isQueued event.id then
    .error (.raised (.integrityError "scheduled_event_id"))
  else .ok { db with events := db.events.filter fun event => !selects event }

/-! ### The backlog -/

/-- The order of a backlog query: carried-over issues first, then by priority. -/
def backlogOrder (issue : IssueRow) : List ℤ :=
  [if issue.carriedOver then 0 else 1, if issue.backlogPriority.isSome then 0 else 1,
    issue.backlogPriority.getD 0]

/-- The issues of a team that may be planned: those without a sprint, and those of the given one. -/
def plannable (teamId : ℤ) (finalStatus : String) (sprintId : Option ℤ) (issue : IssueRow) : Bool :=
  issue.teamId = teamId && issue.completedAt.isNone && issue.issueType != "Epic" &&
    issue.status != finalStatus && (issue.sprintId.isNone || issue.sprintId = sprintId)

/-- The query for a backlog. -/
def backlog (teamId : ℤ) (finalStatus : String) (sprintId : Option ℤ) : List IssueRow :=
  Ordering.sortOn backlogOrder (db.issues.rows.filter (plannable teamId finalStatus sprintId))

theorem backlog_perm (teamId : ℤ) (finalStatus : String) (sprintId : Option ℤ) :
    (db.backlog teamId finalStatus sprintId).Perm
      (db.issues.rows.filter (plannable teamId finalStatus sprintId)) :=
  Ordering.sortOn_perm backlogOrder _

theorem backlog_distinct (teamId : ℤ) (finalStatus : String) (sprintId : Option ℤ) :
    (((db.backlog teamId finalStatus sprintId).map (·.toIssueSnapshot)).map (·.id)).Nodup := by
  rw [List.map_map, ((db.backlog_perm teamId finalStatus sprintId).map _).nodup_iff]
  exact db.issues.distinct.sublist (List.filter_sublist.map _)

end Database

end JiraSimulator.Engine
