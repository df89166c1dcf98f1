import JiraSimulator.Engine.EventDispatcher
import JiraSimulator.Engine.SprintRequests
import JiraSimulator.Library.Transition

/-!
# The running service

The transactions of the scheduler's jobs and of the API's requests follow one another in any order.
Most requests are one transaction.  A dispatch, the cancelling and the modifying of an event and the
creation of a sprint read first and write later, and other transactions come between.
-/

namespace JiraSimulator.Engine

open Library

/-- What is read, before it is written. -/
inductive Request where
  | dispatch (now : ℤ)
  | cancel (eventId : ℤ)
  | modify (eventId : ℤ) (body : ScheduledEventUpdate) (now : ℤ)
  | createSprint (teamId now : ℤ) (body : SprintCreateRequest)

/-- A request between its two transactions, with what it has read. -/
inductive InFlight where
  | dispatch (now : ℤ) (due : List ScheduledEventRow)
  | cancel (eventId : ℤ)
  | modify (read : ScheduledEventRow) (body : ScheduledEventUpdate) (now : ℤ)
  | createSprint (teamId now : ℤ) (body : SprintCreateRequest) (start finish : ℤ)

/-- A transaction of the service. -/
inductive Action where
  | precompute (teamId rngSeed now : ℤ)
  | recompute (teamId sprintId rngSeed : ℤ)
  | activate (teamId sprintId : ℤ)
  | edit (teamId sprintId : ℤ) (body : SprintEditRequest)
  | delete (teamId sprintId : ℤ)
  | createBatch (teamId now : ℤ) (startDate : Option ℤ) (count : ℤ)
  | cancelAll (teamId sprintId : ℤ)
  | tick (teamId : ℤ) (draws : TickDraws)
  | cadence (teamId rngSeed now : ℤ) (nextStart : Option ℤ)
  | read (request : Request)
  | commit (place : ℕ)

/-- The service: the database, the requests in flight, and the events that were cancelled. -/
structure Service where
  db : Database
  inFlight : List InFlight
  cancelled : List ℤ

variable (library : StandardLibrary) (fuel : ℕ)

/-- `_should_trigger`: no sprint of the team is planned or active, and the next start of the team's
cadence has come. -/
def shouldTrigger (db : Database) (teamId now : ℤ) (nextStart : Option ℤ) : Bool :=
  !(db.sprintsOf teamId).any (fun s => s.phase = .planning || s.phase = .active) &&
    nextStart.any (fun start => decide (start ≤ now))

/-- The first transaction of a request. -/
def readRequest (db : Database) : Request → Response InFlight
  | .dispatch now => .ok (.dispatch now (db.dueEvents now))
  | .cancel eventId => do
    readForCancel db eventId
    return .cancel eventId
  | .modify eventId body now => do
    let event ← readForModify db eventId
    return .modify event body now
  | .createSprint teamId now body => do
    let (start, finish) ← checkCreate db teamId now body
    return .createSprint teamId now body start finish

/-- The second transaction of a request. -/
def commitRequest (db : Database) : InFlight → Response (Option Database)
  | .dispatch now due => do
    let db ← commitDispatch db now due
    return some db
  | .cancel eventId => do
    let db ← commitCancel db eventId
    return some db
  | .modify event body now => do
    let db ← commitModify db event body now
    return some db
  | .createSprint teamId now body start finish =>
    commitCreate library fuel db teamId now body start finish

/-- The database after a request that is one transaction. -/
def runAction (db : Database) : Action → Response (Option Database)
  | .precompute teamId rngSeed now =>
    orRaise (computeAndScheduleSprint library fuel db teamId rngSeed now none none)
  | .recompute teamId sprintId rngSeed =>
    recomputeSprintSchedule library fuel db teamId sprintId rngSeed
  | .activate teamId sprintId => some <$> activateSprint db teamId sprintId
  | .edit teamId sprintId body => some <$> editSprint db teamId sprintId body
  | .delete teamId sprintId => some <$> deleteSprint db teamId sprintId
  | .createBatch teamId now startDate count =>
    some <$> createSprintBatch db teamId now startDate count
  | .cancelAll teamId sprintId => some <$> cancelAllPendingEvents db teamId sprintId
  | .tick teamId draws => some <$> orRaise (tickTeam library fuel db teamId draws)
  | .cadence teamId rngSeed now nextStart =>
    if shouldTrigger db teamId now nextStart then
      orRaise (computeAndScheduleSprint library fuel db teamId rngSeed now none none)
    else .ok (some db)
  | .read _ | .commit _ => .ok (some db)

/-- The events that a transaction cancels. -/
def cancelledBy (s : Service) : Action → List ℤ
  | .cancelAll teamId sprintId =>
    (s.db.events.rows.filter (·.waitsFor teamId sprintId)).map (·.id)
  | .commit place =>
    match s.inFlight[place]? with
    | some (.cancel eventId) => [eventId]
    | _ => []
  | _ => []

/-- A transaction that fails, or that does not end, leaves the database as it is. -/
def commits : Response (Option Database) → Option Database
  | .ok db => db
  | .error _ => none

/-- One transaction of the service. -/
def Service.step (s : Service) : Action → Service
  | .read request =>
    match readRequest s.db request with
    | .ok inFlight => { s with inFlight := s.inFlight ++ [inFlight] }
    | .error _ => s
  | .commit place =>
    match s.inFlight[place]? with
    | none => s
    | some inFlight =>
      let rest := s.inFlight.eraseIdx place
      match commits (commitRequest library fuel s.db inFlight) with
      | some db => {
          db, inFlight := rest, cancelled := s.cancelled ++ cancelledBy s (.commit place) }
      | none => { s with inFlight := rest }
  | action =>
    match commits (runAction library fuel s.db action) with
    | some db => { s with db, cancelled := s.cancelled ++ cancelledBy s action }
    | none => s

/-- The service with teams and their backlogs, before the first sprint. -/
def Service.start (teams : List TeamRow) (issues : Table fun row : IssueRow => row.id) :
    Service where
  db := .fresh teams issues
  inFlight := []
  cancelled := []

/-- The runs of the service. -/
def serviceRuns : Library.Transition.System
    (List TeamRow × Table fun row : IssueRow => row.id) Service Action where
  start init s := s = .start init.1 init.2
  step s action s' := s.step library fuel action = s'

end JiraSimulator.Engine
