import JiraSimulator.Engine.Simulation

/-!
# Requests about sprints and scheduled events

The requests of the API: cancelling and modifying events, activating, creating, editing and deleting
sprints.  Some of them read in one transaction and write in another, or read a row and write it back
at their commit; their two parts are two definitions.
-/

namespace JiraSimulator.Engine

open Library

variable (library : StandardLibrary) (fuel : ℕ)

/-! ### Events -/

/-- `cancel_scheduled_event` up to its commit. -/
def readForCancel (db : Database) (eventId : ℤ) : Response Unit :=
  match db.events.get? eventId with
  | none => .error (.http 404 "Event not found")
  | some event =>
    if event.waits then .ok ()
    else .error (.http 400 s!"Cannot cancel event in {event.status.text} status")

/-- The commit of `cancel_scheduled_event`; a row that is gone already is no failure. -/
def commitCancel (db : Database) (eventId : ℤ) : Response Database :=
  db.deleteEvents fun event => event.id = eventId

structure ScheduledEventUpdate where
  scheduledAt : Option ℤ
  payload : Option JsonObject

/-- `modify_scheduled_event` up to its commit: the event as it was read. -/
def readForModify (db : Database) (eventId : ℤ) : Response ScheduledEventRow :=
  match db.events.get? eventId with
  | none => .error (.http 404 "Event not found")
  | some event =>
    if event.status = .pending then .ok event
    else .error (.http 400 s!"Cannot modify event in {event.status.text} status")

/-- The columns that `modify_scheduled_event` writes, from the event as it was read. -/
def modifyRow (read : ScheduledEventRow) (body : ScheduledEventUpdate) (now : ℤ)
    (row : ScheduledEventRow) : ScheduledEventRow :=
  { row with
    scheduledAt := body.scheduledAt.getD row.scheduledAt
    originalScheduledAt :=
      if body.scheduledAt.isSome && read.originalScheduledAt.isNone then some read.scheduledAt
      else row.originalScheduledAt
    payload := body.payload.getD row.payload
    originalPayload :=
      if body.payload.isSome && read.originalPayload.isNone then some read.payload
      else row.originalPayload
    modifiedAt := some now
    status := .modified }

/-- The commit of `modify_scheduled_event`. -/
def commitModify (db : Database) (read : ScheduledEventRow) (body : ScheduledEventUpdate)
    (now : ℤ) : Response Database :=
  if (db.events.get? read.id).isSome then
    .ok { db with events := db.events.update read.id (modifyRow read body now) fun _ => rfl }
  else .error .staleData

/-- `cancel_all_pending_events`. -/
def cancelAllPendingEvents (db : Database) (teamId sprintId : ℤ) : Response Database :=
  db.deleteEvents (·.waitsFor teamId sprintId)

/-! ### Activation -/

/-- The sprint of a request for a team. -/
def sprintOf (db : Database) (teamId sprintId : ℤ) : Response SprintRow :=
  match db.sprints.get? sprintId with
  | none => .error (.http 404 "Sprint not found")
  | some sprint =>
    if sprint.teamId = teamId then .ok sprint
    else .error (.http 400 "Sprint/team mismatch")

/-- The phases in which a sprint is edited and activated. -/
def SprintPhase.beforeStart (phase : SprintPhase) : Bool :=
  phase = .simulated || phase = .planning

/-- `activate_sprint`. -/
def activateSprint (db : Database) (teamId sprintId : ℤ) : Response Database := do
  let sprint ← sprintOf db teamId sprintId
  if sprint.phase.beforeStart then
    return db.updateSprint sprintId (fun row => { row with phase := .active }) fun _ => rfl
  else throw (.http 400 s!"Cannot activate sprint in {sprint.phase.text} phase")

/-! ### Windows -/

/-- `check_sprint_overlap`: the first sprint of the team whose window overlaps. -/
def checkSprintOverlap (db : Database) (teamId start finish : ℤ) (excludeId : Option ℤ) :
    Option SprintRow :=
  (db.sprintsOf teamId).find? fun sprint =>
    decide (sprint.startDate < finish) && decide (start < sprint.endDate) &&
      some sprint.id != excludeId

/-- Raise the conflict that `check_sprint_overlap` finds; its text begins as given. -/
def refuseOverlap (db : Database) (teamId start finish : ℤ) (excludeId : Option ℤ)
    (overlaps : String) : Response Unit :=
  match checkSprintOverlap db teamId start finish excludeId with
  | some sprint => .error (.http 409 s!"{overlaps} '{sprint.name}'")
  | none => .ok ()

/-- The start that `suggest_next_start` suggests. -/
def suggestNextStart (db : Database) (team : TeamRow) (now : ℤ) : Result ℤ := do
  let start ←
    match db.sprintsOf team.id with
    | sprint :: sprints => do
      let last := Ordering.maxBy (fun a b => decide (b.endDate < a.endDate)) sprint sprints
      let start ← nextWorkingMoment team.workingHours (.utc last.endDate)
      pure start.instant
    | [] =>
      match team.firstSprintStartDate with
      | some start => pure start
      | none => do
        let start ← nextWorkingMoment team.workingHours (.utc now)
        pure start.instant
  -- the suggested end is computed too, and may raise
  let _ ← computeSprintEnd team.workingHours (.utc start) team.sprintLengthDays
  return start

structure SprintCreateRequest where
  startDate : Option ℤ
  endDate : Option ℤ
  rngSeed : ℤ
  simulate : Bool

/-- The dates that `create_sprint` fills in. -/
def defaultDates (db : Database) (team : TeamRow) (now : ℤ) (body : SprintCreateRequest) :
    Result (ℤ × ℤ) := do
  match body.startDate, body.endDate with
  | some start, some finish => return (start, finish)
  | startDate, endDate =>
    let suggested ← suggestNextStart db team now
    let start := startDate.getD suggested
    match endDate with
    | some finish => return (start, finish)
    | none =>
      let finish ← computeSprintEnd team.workingHours (.utc start) team.sprintLengthDays
      return (start, finish.instant)

/-- The first transaction of `create_sprint`: the dates, which overlap no sprint. -/
def checkCreate (db : Database) (teamId now : ℤ) (body : SprintCreateRequest) :
    Response (ℤ × ℤ) := do
  match db.team teamId with
  | none => throw (.http 404 "Team not found")
  | some team =>
    let (start, finish) ← orRaise (defaultDates db team now body)
    refuseOverlap db teamId start finish none "Overlaps with sprint"
    return (start, finish)

/-- The second transaction of `create_sprint`; `none` while the loop of the tick schedule runs. -/
def commitCreate (db : Database) (teamId now : ℤ) (body : SprintCreateRequest)
    (start finish : ℤ) : Response (Option Database) := do
  if body.simulate then
    orRaise (computeAndScheduleSprint library fuel db teamId body.rngSeed now (some start)
      (some finish))
  else
    match db.team teamId with
    | none => throw (.raised .attributeError)
    | some team =>
      let (created, _) ← orRaise (createNextSprint db team now (some start) (some finish))
      return some created

/-- The loop of `create_sprint_batch`, with the place of the next sprint in the batch. -/
def createSprints (team : TeamRow) : ℕ → ℕ → ℤ → Database → Response Database
  | 0, _, _, db => return db
  | count + 1, place, start, db => do
    let finish ← orRaise (computeSprintEnd team.workingHours (.utc start) team.sprintLengthDays)
    refuseOverlap db team.id start finish.instant none s!"Sprint {place} overlaps with"
    let (db, _) ← orRaise (createNextSprint db team start (some start) (some finish.instant))
    let next ← orRaise (nextWorkingMoment team.workingHours finish)
    createSprints team count (place + 1) next.instant db

/-- `create_sprint_batch`. -/
def createSprintBatch (db : Database) (teamId now : ℤ) (startDate : Option ℤ) (count : ℤ) :
    Response Database := do
  if count < 1 ∨ 12 < count then throw (.http 400 "count must be between 1 and 12")
  else
    match db.team teamId with
    | none => throw (.http 404 "Team not found")
    | some team =>
      let start ←
        match startDate with
        | some start => pure start
        | none => orRaise (suggestNextStart db team now)
      createSprints team count.toNat 1 start db

/-! ### Editing and deleting -/

structure SprintEditRequest where
  startDate : Option ℤ
  endDate : Option ℤ
  name : Option String
  goal : Option String

/-- The columns that `edit_sprint` writes first. -/
def editRow (body : SprintEditRequest) (row : SprintRow) : SprintRow :=
  { row with
    startDate := body.startDate.getD row.startDate
    endDate := body.endDate.getD row.endDate
    name := body.name.getD row.name
    goal := body.goal.orElse fun _ => row.goal }

/-- The issues leave the sprint. -/
def Database.unassignIssues (db : Database) (sprintId : ℤ) : Database :=
  { db with
    issues := db.issues.map
      (fun issue => { issue with
        sprintId := if issue.sprintId = some sprintId then none else issue.sprintId })
      fun _ => rfl }

/-- What changed dates do to a sprint: its schedule goes, and it is planned again. -/
def resetSchedule (db : Database) (teamId sprintId : ℤ) : Response Database := do
  match db.sprints.get? sprintId with
  | none => return db
  | some sprint =>
    refuseOverlap db teamId sprint.startDate sprint.endDate (some sprintId)
      "Overlaps with sprint"
    let cleared ← db.deleteEvents fun event => event.sprintId = sprintId && event.waits
    return (cleared.unassignIssues sprintId).updateSprint sprintId
      (fun row => { row with phase := .planning, committedPoints := 0 }) fun _ => rfl

/-- `edit_sprint`.  The application has no attribute `jira_write_queue`, so that the edit of a
sprint that Jira knows fails. -/
def editSprint (db : Database) (teamId sprintId : ℤ) (body : SprintEditRequest) :
    Response Database := do
  let sprint ← sprintOf db teamId sprintId
  if sprint.phase.beforeStart then
    let edited := db.updateSprint sprintId (editRow body) fun _ => rfl
    let db ←
      if body.startDate.isSome || body.endDate.isSome then resetSchedule edited teamId sprintId
      else pure edited
    if (given sprint.jiraSprintId).isSome then throw (.raised .attributeError)
    else return db
  else throw (.http 400 s!"Cannot edit sprint in {sprint.phase.text} phase")

/-- `delete_sprint`; like an edit it fails for a sprint that Jira knows. -/
def deleteSprint (db : Database) (teamId sprintId : ℤ) : Response Database := do
  let sprint ← sprintOf db teamId sprintId
  if (given sprint.jiraSprintId).isSome then throw (.raised .attributeError)
  else
    let cleared ← db.deleteEvents fun event => event.sprintId = sprintId
    let unassigned := cleared.unassignIssues sprintId
    return { unassigned with sprints := unassigned.sprints.filter fun row => row.id != sprintId }

end JiraSimulator.Engine
