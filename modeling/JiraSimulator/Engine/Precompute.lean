import JiraSimulator.Engine.WorkflowEngine

/-!
# Precomputation of a sprint

The whole sprint is simulated in memory on snapshots: the planning at the first tick, one pass over
the issues of the sprint at each further tick, and the end of the sprint.  The result is the stream
of events with their times.
-/

namespace JiraSimulator.Engine

open Library

/-! ### Planning -/

structure BacklogItem where
  id : ℤ
  storyPoints : ℤ
  backlogPriority : Option ℤ
  deriving DecidableEq, Repr

/-- `issue.get("backlog_priority") or 999`. -/
def BacklogItem.rank (item : BacklogItem) : ℤ :=
  match item.backlogPriority with
  | some priority => if priority = 0 then 999 else priority
  | none => 999

/-- The loop of `plan_sprint`: items in order, until the next one would exceed the target when the
minimum is reached. -/
def selectItems (capacityMin target : ℤ) : ℤ → List BacklogItem → List BacklogItem
  | _, [] => []
  | total, item :: items =>
    if target < total + item.storyPoints ∧ capacityMin ≤ total then []
    else item :: selectItems capacityMin target (total + item.storyPoints) items

/-- `plan_sprint`: the selected items, the capacity target, and the generator. -/
def planSprint (source : RandomSource) (backlog : List BacklogItem) (capacityMin capacityMax : ℤ)
    (priorityRandomization : Bool) (rng : source.State) :
    Result (List BacklogItem × ℤ × source.State) := do
  if backlog.isEmpty then
    if capacityMin ≤ capacityMax then
      let (target, rng) ← source.randint capacityMin capacityMax rng
      return ([], target, rng)
    else return ([], capacityMin, rng)
  else
    let (ordered, rng) :=
      if priorityRandomization then source.shuffle backlog rng
      else (Ordering.sortOn (fun item => [item.rank, item.id]) backlog, rng)
    let (target, rng) ← source.randint capacityMin capacityMax rng
    return (selectItems capacityMin target 0 ordered, target, rng)

/-! ### Events -/

structure ScheduledEventData where
  simTick : ℕ
  wallClockTime : Moment
  eventType : String
  payload : JsonObject
  issueId : Option ℤ
  sequenceOrder : ℕ

/-- The list of events and the sequence counter. -/
structure EventStream where
  events : List ScheduledEventData
  seq : ℕ

/-- `_add_event`. -/
def EventStream.add (stream : EventStream) (tick : ℕ) (wallTime : Moment)
    (action : JiraWriteAction) : EventStream where
  events := stream.events ++ [{
    simTick := tick, wallClockTime := wallTime, eventType := action.operationType
    payload := action.payload, issueId := action.issueId, sequenceOrder := stream.seq }]
  seq := stream.seq + 1

/-- `_add_event` of some actions in order. -/
def EventStream.addAll (stream : EventStream) (tick : ℕ) (wallTime : Moment)
    (actions : List JiraWriteAction) : EventStream :=
  actions.foldl (fun stream action => stream.add tick wallTime action) stream

/-! ### Inputs -/

/-- `TeamSnapshot`, with the time zone that its name gives and the days that its holidays hold. -/
structure TeamSnapshot where
  id : ℤ
  sprintCapacityMin : ℤ
  sprintCapacityMax : ℤ
  priorityRandomization : Bool
  tickDurationHours : ℚ
  workingHours : WorkingHours

/-- The arguments of `precompute_sprint` apart from the seed.  The issues of a backlog are rows of a
table, so their identifiers are distinct. -/
structure SprintInput where
  team : TeamSnapshot
  backlogIssues : List IssueSnapshot
  workflowSteps : List WorkflowStepSnapshot
  touchTimeConfigs : List TouchTimeConfigSnapshot
  moveLeftConfigs : List MoveLeftConfigSnapshot
  members : List MemberSnapshot
  sprintStart : Moment
  sprintLengthDays : ℤ
  jiraSprintId : Option ℤ
  jiraBoardId : Option ℤ
  sprintName : String
  sprintDbId : Option ℤ
  distinct : (backlogIssues.map (·.id)).Nodup

/-- `team.tick_duration_hours or 1.0`. -/
def SprintInput.tickHours (input : SprintInput) : ℚ :=
  if input.team.tickDurationHours = 0 then 1 else input.team.tickDurationHours

def SprintInput.workflow (input : SprintInput) : WorkflowConfig where
  workflowSteps := input.workflowSteps
  touchTimeConfigs := input.touchTimeConfigs
  moveLeftConfigs := input.moveLeftConfigs
  tickHours := input.tickHours

/-- A number that is given, as the code tests it: `None` and zero are not. -/
def given : Option ℤ → Option ℤ
  | some value => if value = 0 then none else some value
  | none => none

structure PrecomputeResult where
  events : List ScheduledEventData
  totalTicks : ℕ
  rngSeed : ℤ
  issueFinalStates : List IssueSnapshot
  committedPoints : ℤ
  selectedIssueIds : List ℤ
  capacityTarget : ℤ

/-- The result without a tick or without a step. -/
def PrecomputeResult.empty (rngSeed : ℤ) : PrecomputeResult where
  events := []
  totalTicks := 0
  rngSeed := rngSeed
  issueFinalStates := []
  committedPoints := 0
  selectedIssueIds := []
  capacityTarget := 0

/-! ### Tick 0 -/

variable (library : StandardLibrary) (input : SprintInput)

/-- The stream, the issues and the generator of a running precomputation. -/
structure SprintRun where
  stream : EventStream
  issues : List IssueSnapshot
  committedPoints : ℤ
  rng : library.State

/-- The `CREATE_SPRINT` event. -/
def createSprintEvent (planningTime : Moment) (stream : EventStream) : Result EventStream := do
  match given input.jiraBoardId with
  -- a board id of zero counts as missing
  | none => return stream
  | some boardId =>
    let sprintEnd ← computeSprintEnd input.team.workingHours input.sprintStart
      input.sprintLengthDays
    return stream.add 0 planningTime {
      operationType := "CREATE_SPRINT"
      payload := [("board_id", .number boardId), ("name", .string input.sprintName),
        ("start_date", .string (library.isoFormat input.sprintStart)),
        ("end_date", .string (library.isoFormat sprintEnd)),
        ("_sprint_db_id", Json.ofOption input.sprintDbId)]
      issueId := none }

/-- The event of a sprint that Jira knows, when it knows it. -/
def sprintEvent (operationType : String) (tick : ℕ) (wallTime : Moment) (stream : EventStream) :
    EventStream :=
  match given input.jiraSprintId with
  | none => stream
  | some sprintId =>
    stream.add tick wallTime {
      operationType, payload := [("sprint_id", .number sprintId)], issueId := none }

/-- The `ADD_TO_SPRINT` event of an issue with a key. -/
def addToSprintEvent (planningTime : Moment) (issue : IssueSnapshot) (stream : EventStream) :
    EventStream :=
  match issue.jiraIssueKey, given input.jiraSprintId with
  | some key, some sprintId =>
    -- an empty key counts as missing
    if key = "" then stream
    else stream.add 0 planningTime {
      operationType := "ADD_TO_SPRINT"
      payload := [("sprint_id", .number sprintId), ("issue_keys", .array [.string key])]
      issueId := some issue.id }
  | _, _ => stream

/-- The planning of one selected item: its issue enters the first step. -/
def planItem (firstStep : WorkflowStepSnapshot) (planningTime : Moment) (run : SprintRun library)
    (item : BacklogItem) : Result (SprintRun library) := do
  match input.backlogIssues.find? fun issue => issue.id = item.id with
  | none => return run
  | some issue =>
    let issue := { issue with sprintId := input.sprintDbId }
    let touchTime := getTouchTimeConfig input.touchTimeConfigs firstStep.id issue.issueType
      issue.points
    let (issue, action, rng) ← enterStatus library issue firstStep touchTime run.rng
    let stream := run.stream.add 0 planningTime action
    return {
      stream := addToSprintEvent input planningTime issue stream
      issues := run.issues ++ [issue]
      committedPoints := run.committedPoints + issue.points
      rng }

def SprintInput.backlog : List BacklogItem :=
  input.backlogIssues.map fun issue =>
    { id := issue.id, storyPoints := issue.points, backlogPriority := issue.backlogPriority }

/-- Tick 0: the sprint is created, its issues are selected and enter the first step, and the sprint
is started. -/
def planningTick (firstStep : WorkflowStepSnapshot) (planningTime : Moment) (rng : library.State) :
    Result (SprintRun library × ℤ) := do
  let stream ← createSprintEvent library input planningTime { events := [], seq := 0 }
  let (selected, capacityTarget, rng) ← planSprint library.toRandomSource input.backlog
    input.team.sprintCapacityMin input.team.sprintCapacityMax input.team.priorityRandomization rng
  let run ← selected.foldlM (planItem library input firstStep planningTime)
    { stream, issues := [], committedPoints := 0, rng }
  return ({ run with stream := sprintEvent input "UPDATE_SPRINT" 0 planningTime run.stream },
    capacityTarget)

/-! ### Ticks 1 to N -/

/-- The pass over the issues of one tick: the issues already passed, the members, the stream and the
generator. -/
structure Pass where
  stream : EventStream
  passed : List IssueSnapshot
  memberStates : MemberStates
  rng : library.State

/-- One issue of a pass; a completed issue is left alone. -/
def passIssue (tick : ℕ) (wallTime : Moment) (finalStep : WorkflowStepSnapshot)
    (pass : Pass library) (issue : IssueSnapshot) : Result (Pass library) := do
  if issue.completedAt.isSome then return { pass with passed := pass.passed ++ [issue] }
  else
    let result ← processItemTick library input.workflow
      { issue, memberStates := pass.memberStates, rng := pass.rng }
    let issue :=
      if result.completed then
        { result.issue with
          completedAt := some (.at wallTime), status := finalStep.jiraStatus }
      else result.issue
    return {
      stream := pass.stream.addAll tick wallTime result.jiraActions
      passed := pass.passed ++ [issue]
      memberStates := result.memberStates
      rng := result.rng }

/-- The pass of one tick over the issues of the sprint. -/
def passTick (tick : ℕ) (wallTime : Moment) (finalStep : WorkflowStepSnapshot)
    (run : SprintRun library) : Result (SprintRun library) := do
  let pass ← run.issues.foldlM (passIssue library input tick wallTime finalStep)
    { stream := run.stream, passed := []
      -- every tick starts with idle members
      memberStates := buildMemberStates input.members, rng := run.rng }
  return { run with stream := pass.stream, issues := pass.passed, rng := pass.rng }

/-- The loop over the further ticks; it ends early when every issue is complete. -/
def activeTicks (finalStep : WorkflowStepSnapshot) :
    ℕ → List Moment → SprintRun library → Result (SprintRun library)
  | _, [], run => return run
  | tick, wallTime :: times, run => do
    let run ← passTick library input tick wallTime finalStep run
    if run.issues.all (·.completedAt.isSome) then
      return { run with stream := sprintEvent input "COMPLETE_SPRINT" tick wallTime run.stream }
    else activeTicks finalStep (tick + 1) times run

/-- The `COMPLETE_SPRINT` event at the end, when there is none yet. -/
def completeAtEnd (lastTick : ℕ) (lastTime : Moment) (stream : EventStream) : EventStream :=
  if stream.events.any fun e => e.eventType = "COMPLETE_SPRINT" then stream
  else sprintEvent input "COMPLETE_SPRINT" lastTick lastTime stream

/-- `precompute_sprint` after the tick schedule. -/
def precomputeTicks (rngSeed : ℤ) (tickTimes : List Moment) : Result PrecomputeResult := do
  match tickTimes, input.workflowSteps.head?, input.workflowSteps.getLast? with
  | planningTime :: times, some firstStep, some finalStep =>
    let (run, capacityTarget) ← planningTick library input firstStep planningTime
      (library.seeded rngSeed)
    let run ← activeTicks library input finalStep 1 times run
    let lastTime := (planningTime :: times).getLast (List.cons_ne_nil _ _)
    return {
      events := (completeAtEnd input times.length lastTime run.stream).events
      totalTicks := times.length + 1
      rngSeed
      issueFinalStates := run.issues
      committedPoints := run.committedPoints
      selectedIssueIds := run.issues.map (·.id)
      capacityTarget }
  | _, _, _ => return PrecomputeResult.empty rngSeed

/-- The tick schedule of a sprint, with a bound on the rounds of its loop. -/
def tickSchedule (fuel : ℕ) : Result (Option (List Moment)) :=
  computeTickWallTimes input.team.workingHours fuel input.sprintStart input.sprintLengthDays
    input.tickHours

/-- `precompute_sprint`; `none` while the loop of the tick schedule still runs. -/
def precomputeSprint (fuel : ℕ) (rngSeed : ℤ) : Result (Option PrecomputeResult) := do
  match ← tickSchedule input fuel with
  | none => return none
  | some tickTimes =>
    let result ← precomputeTicks library input rngSeed tickTimes
    return some result

end JiraSimulator.Engine
