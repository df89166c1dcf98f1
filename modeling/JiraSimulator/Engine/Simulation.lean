import JiraSimulator.Engine.Database

/-!
# The simulation engine

A sprint is precomputed and stored as scheduled events, and a sprint with a schedule can be computed
again.  A tick looks after the latest sprint of a team: it closes an active sprint, carries the
issues of a completed one over and precomputes the next one, and it keeps the backlog filled.
-/

namespace JiraSimulator.Engine

open Library

variable (library : StandardLibrary) (fuel : ℕ)

/-! ### Sprints -/

/-- The number after the highest one of the team. -/
def Database.nextSprintNumber (db : Database) (teamId : ℤ) : ℤ :=
  match db.sprintsOf teamId with
  | [] => 1
  | sprint :: sprints =>
    sprints.foldl (fun number s => max number s.sprintNumber) sprint.sprintNumber + 1

/-- The start and the end that `_create_next_sprint` gives a sprint. -/
def Database.nextWindow (db : Database) (team : TeamRow) (now : ℤ) (startDate endDate : Option ℤ) :
    Result (ℤ × ℤ) := do
  let start :=
    match startDate with
    | some start => start
    | none => if db.nextSprintNumber team.id = 1 then team.firstSprintStartDate.getD now else now
  match endDate with
  | some finish => return (start, finish)
  | none =>
    let finish ← computeSprintEnd team.workingHours (.utc start) team.sprintLengthDays
    return (start, finish.instant)

/-- `_create_next_sprint`: the database with the new row, and the row. -/
def createNextSprint (db : Database) (team : TeamRow) (now : ℤ) (startDate endDate : Option ℤ) :
    Result (Database × SprintRow) := do
  let (start, finish) ← db.nextWindow team now startDate endDate
  let number := db.nextSprintNumber team.id
  let sprint (id : ℤ) : SprintRow :=
    { id
      teamId := team.id
      jiraSprintId := none
      name := team.name ++ " Sprint " ++ toString number
      goal := none
      startDate := start
      endDate := finish
      phase := .planning
      sprintNumber := number
      committedPoints := 0
      capacityTarget := none }
  return ({ db with sprints := db.sprints.insert sprint fun _ => rfl }, sprint db.sprints.next)

/-! ### Schedules -/

/-- The arguments of `precompute_sprint` for a sprint of the team. -/
def Database.sprintInput (db : Database) (team : TeamRow) (steps : List WorkflowStepSnapshot)
    (finalStep : WorkflowStepSnapshot) (sprint : SprintRow) (sprintStart : Moment)
    (reused : Option ℤ) : SprintInput where
  team := team.toTeamSnapshot
  backlogIssues := (db.backlog team.id finalStep.jiraStatus reused).map (·.toIssueSnapshot)
  workflowSteps := steps
  touchTimeConfigs := team.touchTimeConfigs
  moveLeftConfigs := team.moveLeftConfigs
  members := team.members
  sprintStart := sprintStart
  sprintLengthDays := team.sprintLengthDays
  jiraSprintId := sprint.jiraSprintId
  jiraBoardId := team.jiraBoardId
  sprintName := sprint.name
  sprintDbId := some sprint.id
  distinct := db.backlog_distinct team.id finalStep.jiraStatus reused

/-- The row of a precomputed event. -/
def eventRow (teamId sprintId : ℤ) (data : ScheduledEventData) (id : ℤ) : ScheduledEventRow where
  id
  teamId
  sprintId
  issueId := data.issueId
  eventType := data.eventType
  scheduledAt := data.wallClockTime.instant
  simTick := data.simTick
  payload := data.payload
  status := .pending
  dispatchedAt := none
  modifiedAt := none
  originalPayload := none
  originalScheduledAt := none
  sequenceOrder := data.sequenceOrder

/-- The selected issues join the sprint. -/
def joinSprint (sprintId : ℤ) (selected : List ℤ) (issue : IssueRow) : IssueRow :=
  { issue with sprintId := if issue.id ∈ selected then some sprintId else issue.sprintId }

/-- The result of a precomputation is stored: its events, the sprint of its issues and its points.
-/
def Database.storeSchedule (db : Database) (teamId sprintId : ℤ) (result : PrecomputeResult) :
    Database :=
  { db with
    events := db.events.insertAll (eventRow teamId sprintId) (fun _ _ => rfl) result.events
    issues := db.issues.map (joinSprint sprintId result.selectedIssueIds) fun _ => rfl
    sprints := db.sprints.update sprintId
      (fun row => { row with
        committedPoints := result.committedPoints, capacityTarget := some result.capacityTarget })
      fun _ => rfl }

/-- The workflow steps of a team, and the last of them. -/
def TeamRow.steps (team : TeamRow) : Result (List WorkflowStepSnapshot × WorkflowStepSnapshot) :=
  match team.workflowSteps with
  | none => .error (.valueError s!"No workflow configured for team {team.id}")
  | some steps =>
    match steps.getLast? with
    | none => .error (.valueError s!"No workflow steps for team {team.id}")
    | some finalStep => .ok (steps, finalStep)

/-- `compute_and_schedule_sprint`; `none` while the loop of the tick schedule still runs. -/
def computeAndScheduleSprint (db : Database) (teamId rngSeed now : ℤ)
    (startDate endDate : Option ℤ) : Result (Option Database) := do
  match db.team teamId with
  | none => throw (.valueError s!"Team {teamId} not found")
  | some team =>
    let (steps, finalStep) ← team.steps
    if (db.backlog team.id finalStep.jiraStatus none).isEmpty then
      throw (.valueError s!"No backlog issues available for team {teamId}. All issues may already be assigned to sprints.")
    else
      let (created, sprint) ← createNextSprint db team now startDate endDate
      let input := db.sprintInput team steps finalStep sprint (.utc sprint.startDate) none
      match ← precomputeSprint library input fuel rngSeed with
      | none => return none
      | some result =>
        let stored := created.storeSchedule team.id sprint.id result
        return some (stored.updateSprint sprint.id (fun row => { row with phase := .simulated })
          fun _ => rfl)

/-- `recompute_sprint_schedule`; `none` while the loop of the tick schedule still runs. -/
def recomputeSprintSchedule (db : Database) (teamId sprintId rngSeed : ℤ) :
    Response (Option Database) := do
  match db.team teamId, db.sprints.get? sprintId with
  | none, _ => throw (.raised (.valueError s!"Team {teamId} not found"))
  | some _, none => throw (.raised (.valueError s!"Sprint {sprintId} not found"))
  | some team, some sprint =>
    let cleared ← db.deleteEvents (·.waitsFor teamId sprintId)
    let (steps, finalStep) ← orRaise team.steps
    -- the row gives the start back without its zone
    let start : Moment := { instant := sprint.startDate, aware := false }
    let input := cleared.sprintInput team steps finalStep sprint start (some sprintId)
    match ← orRaise (precomputeSprint library input fuel rngSeed) with
    | none => return none
    | some result => return some (cleared.storeSchedule team.id sprint.id result)

/-! ### Ticks -/

/-- The time that carry-over adds to a sampled time. -/
def extendTime (sampled elapsed : ℚ) : ℚ :=
  let remaining := fsub sampled elapsed
  if 0 < remaining then fadd elapsed (fmul remaining (5 / 4)) else sampled

/-- `handle_carryover` for one issue, which leaves its sprint. -/
def IssueRow.carryOver (issue : IssueRow) : IssueRow :=
  { issue with
    sampledWorkTime := extendTime issue.sampledWorkTime issue.elapsedWorkTime
    sampledFullTime := extendTime issue.sampledFullTime issue.elapsedFullTime
    workStarted := false
    currentWorkerId := none
    carriedOver := true
    sprintId := none }

/-- The issues of a sprint that its end finds incomplete. -/
def IssueRow.incompleteIn (sprintId : ℤ) (finalStatus : String) (issue : IssueRow) : Bool :=
  issue.sprintId = some sprintId && issue.completedAt.isNone && issue.status != finalStatus

/-- `_get_active_or_planning_sprint`: the sprint of the team that starts last. -/
def Database.latestSprint (db : Database) (teamId : ℤ) : Option SprintRow :=
  match db.sprintsOf teamId with
  | [] => none
  | sprint :: sprints =>
    some (Ordering.maxBy (fun a b => decide (b.startDate < a.startDate)) sprint sprints)

/-- The end of a sprint for one issue. -/
def IssueRow.endSprint (sprintId : ℤ) (finalStatus : String) (issue : IssueRow) : IssueRow :=
  if issue.incompleteIn sprintId finalStatus then issue.carryOver else issue

theorem IssueRow.endSprint_id (sprintId : ℤ) (finalStatus : String) (issue : IssueRow) :
    (issue.endSprint sprintId finalStatus).id = issue.id := by
  unfold IssueRow.endSprint
  split_ifs <;> rfl

/-- The carry-over at the end of a sprint. -/
def Database.carryOver (db : Database) (sprintId : ℤ) (finalStatus : String) : Database :=
  { db with
    issues := db.issues.map (IssueRow.endSprint sprintId finalStatus)
      (IssueRow.endSprint_id sprintId finalStatus) }

/-- An active sprint is completed once all of its events are dispatched, and there are some. -/
def Database.closeSprint (db : Database) (teamId : ℤ) (sprint : SprintRow) : Database :=
  let events := db.events.rows.filter fun e => e.teamId = teamId && e.sprintId = sprint.id
  if events.any (·.waits) then db
  else if events.any (·.status = .dispatched) then
    db.updateSprint sprint.id (fun row => { row with phase := .completed }) fun _ => rfl
  else db

/-- An issue that the content generator writes, with its payload for Jira. -/
structure GeneratedIssue where
  issueType : String
  storyPoints : ℤ
  payload : JsonObject

/-- What a tick draws for a team: the time, the seed of a new sprint, new issues, and a new epic. -/
structure TickDraws where
  now : ℤ
  rngSeed : ℤ
  issues : List GeneratedIssue
  epic : JsonObject

/-- `check_backlog_depth`. -/
def checkBacklogDepth (currentDepth targetDepth : ℤ) : ℤ :=
  max 0 (targetDepth - currentDepth)

/-- `EPIC_STORIES_THRESHOLD`. -/
def epicStoriesThreshold : ℕ := 5

/-- A new issue of the backlog. -/
def newBacklogIssue (teamId : ℤ) (issueType : String) (storyPoints priority : ℤ)
    (epicId : Option ℤ) (id : ℤ) : IssueRow where
  id
  teamId
  issueType
  storyPoints := some storyPoints
  jiraIssueKey := none
  status := "backlog"
  currentWorkflowStepId := none
  currentWorkerId := none
  sampledFullTime := 0
  sampledWorkTime := 0
  elapsedFullTime := 0
  elapsedWorkTime := 0
  workStarted := false
  completedAt := none
  sprintId := none
  backlogPriority := some priority
  carriedOver := false
  epicId

/-- A `CREATE_ISSUE` entry of the write queue. -/
def createIssueEntry (teamId issueId : ℤ) (payload : JsonObject) : QueueRow where
  teamId
  operationType := "CREATE_ISSUE"
  payload
  issueId := some issueId
  scheduledEventId := none

/-- A new issue is stored, and its creation is enqueued. -/
def Database.addIssue (db : Database) (teamId : ℤ) (issueType : String)
    (storyPoints priority : ℤ) (epicId : Option ℤ) (payload : JsonObject) : Database :=
  { db with
    issues := db.issues.insert (newBacklogIssue teamId issueType storyPoints priority epicId)
      fun _ => rfl
    queue := db.queue ++ [createIssueEntry teamId db.issues.next payload] }

/-- `_get_or_create_epic`: the newest epic of the team while it has room, or a new one. -/
def Database.openEpic (db : Database) (teamId : ℤ) (payload : JsonObject) : Database × ℤ :=
  let epics := db.issues.rows.filter fun i => i.teamId = teamId && i.issueType = "Epic"
  let fallback := (db.addIssue teamId "Epic" 0 0 none payload, db.issues.next)
  match epics with
  | [] => fallback
  | epic :: epics =>
    let newest := Ordering.maxBy (fun a b => decide (b.id < a.id)) epic epics
    let children := db.issues.rows.filter fun i => i.epicId = some newest.id
    if children.length < epicStoriesThreshold then (db, newest.id) else fallback

/-- The backlog maintenance of a tick. -/
def Database.maintainBacklog (db : Database) (team : TeamRow) (draws : TickDraws) : Database :=
  let depth : ℤ := (db.issues.rows.filter fun i =>
    i.teamId = team.id && i.sprintId.isNone && i.completedAt.isNone && i.issueType != "Epic").length
  let deficit := checkBacklogDepth depth team.backlogDepthTarget
  if 0 < deficit then
    let (db, epicId) := db.openEpic team.id draws.epic
    (draws.issues.take (min deficit 5).toNat).foldl
      (fun db issue => db.addIssue team.id issue.issueType issue.storyPoints (depth + 1)
        (some epicId) issue.payload) db
  else db

/-- `_tick_team` up to the backlog maintenance; a precomputation that fails leaves no trace. -/
def Database.tickSprint (db : Database) (team : TeamRow) (finalStep : WorkflowStepSnapshot)
    (draws : TickDraws) : Database :=
  let precompute (db : Database) : Database :=
    if (db.backlog team.id finalStep.jiraStatus none).isEmpty then db
    else
      match computeAndScheduleSprint library fuel db team.id draws.rngSeed draws.now none none with
      | .ok (some next) => next
      | _ => db
  match db.latestSprint team.id with
  | none => precompute db
  | some sprint =>
    match sprint.phase with
    | .completed => precompute (db.carryOver sprint.id finalStep.jiraStatus)
    | .active => db.closeSprint team.id sprint
    | .planning | .simulated => db

/-- `_tick_team`. -/
def tickTeam (db : Database) (teamId : ℤ) (draws : TickDraws) : Result Database := do
  match db.team teamId with
  | none => throw (.valueError s!"Team {teamId} not found")
  | some team =>
    let (_, finalStep) ← team.steps
    return (db.tickSprint library fuel team finalStep draws).maintainBacklog team draws

end JiraSimulator.Engine
