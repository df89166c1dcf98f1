import JiraSimulator.Engine.Calendar
import JiraSimulator.Engine.Capacity
import JiraSimulator.Integrations.JiraIntentAdapter

/-!
# The workflow engine

One tick of one issue of a sprint: it takes a worker, accumulates time, and once its sampled times
have passed it moves to the next step of the workflow, or to an earlier one.
-/

namespace JiraSimulator.Engine

open Library

/-- What a precomputation takes from the standard library. -/
structure StandardLibrary extends RandomSource where
  log : ℚ → ℚ
  /-- `math.exp`, which raises `OverflowError` on large arguments. -/
  exp : ℚ → Option ℚ
  /-- The built-in `sum` of floats. -/
  floatSum : List ℚ → ℚ
  /-- `moment.isoformat()`. -/
  isoFormat : Moment → String

/-! ### Snapshots -/

/-- What `completed_at` holds: the workflow engine writes `True`, and its caller the time. -/
inductive Completion where
  | marked
  | at (time : Moment)
  deriving DecidableEq, Repr

structure IssueSnapshot where
  id : ℤ
  issueType : String
  storyPoints : Option ℤ
  jiraIssueKey : Option String
  status : String
  currentWorkflowStepId : Option ℤ
  currentWorkerId : Option ℤ
  sampledFullTime : ℚ
  sampledWorkTime : ℚ
  elapsedFullTime : ℚ
  elapsedWorkTime : ℚ
  workStarted : Bool
  completedAt : Option Completion
  sprintId : Option ℤ
  backlogPriority : Option ℤ
  deriving DecidableEq, Repr

structure WorkflowStepSnapshot where
  id : ℤ
  jiraStatus : String
  order : ℤ
  roleRequired : Option String
  /-- The list that the column `roles_json` holds, when it is not empty. -/
  rolesJson : Option (List String)
  deriving DecidableEq, Repr

/-- The property `roles`. -/
def WorkflowStepSnapshot.roles (step : WorkflowStepSnapshot) : List String :=
  match step.rolesJson, step.roleRequired with
  | some roles, _ => roles
  | none, some role => if role = "" then [] else [role]
  | none, none => []

structure TouchTimeConfigSnapshot where
  workflowStepId : ℤ
  issueType : String
  storyPoints : ℤ
  minHours : ℚ
  maxHours : ℚ
  fullTimeP25 : Option ℚ
  fullTimeP50 : Option ℚ
  fullTimeP99 : Option ℚ
  deriving DecidableEq, Repr

structure MoveLeftTargetSnapshot where
  toStepId : ℤ
  weight : ℚ
  deriving DecidableEq, Repr

structure MoveLeftConfigSnapshot where
  fromStepId : ℤ
  issueType : Option String
  baseProbability : ℚ
  targets : List MoveLeftTargetSnapshot
  deriving DecidableEq, Repr

structure JiraWriteAction where
  operationType : String
  payload : JsonObject
  issueId : Option ℤ

/-- A number that may be missing, in a dictionary. -/
def Json.ofOption : Option ℤ → Json
  | some value => .number value
  | none => .null

/-- A text that may be missing, in a dictionary. -/
def Json.ofText : Option String → Json
  | some text => .string text
  | none => .null

/-! ### Distributions -/

variable (library : StandardLibrary)

/-- `_Z_25`. -/
def z25 : ℚ := toDouble (-6745 / 10000)

/-- `_Z_99`. -/
def z99 : ℚ := toDouble (23263 / 10000)

/-- `_MIN_FULL_TIME`. -/
def minFullTime : ℚ := toDouble (1 / 10)

def fitLognormal (p25 p50 p99 : ℚ) : Result (ℚ × ℚ) := do
  require (0 < p25 ∧ 0 < p50 ∧ 0 < p99) "All percentiles must be positive"
  require (p25 ≤ p50 ∧ p50 ≤ p99) "Percentiles must be ordered"
  let mu := library.log p50
  let sigmaFromP25 ← fdiv (fsub mu (library.log p25)) |z25|
  let sigmaFromP99 ← fdiv (fsub (library.log p99) mu) z99
  let sigma ← fdiv (fadd sigmaFromP25 sigmaFromP99) 2
  return (mu, max sigma 0)

/-- `math.exp(value)`. -/
def expOf (value : ℚ) : Result ℚ :=
  match library.exp value with
  | some result => .ok result
  | none => .error .overflowError

def sampleFullTime (p25 p50 p99 : ℚ) (rng : library.State) : Result (ℚ × library.State) := do
  let (mu, sigma) ← fitLognormal library p25 p50 p99
  if sigma = 0 then
    -- without a spread no draw is taken
    let value ← expOf library mu
    return (max value minFullTime, rng)
  else
    let (z, rng) := library.gauss rng
    let value ← expOf library (fadd mu (fmul sigma z))
    return (max value minFullTime, rng)

def sampleWorkTime (minHours maxHours : ℚ) (rng : library.State) :
    Result (ℚ × library.State) := do
  if minHours = 0 ∧ maxHours = 0 then return (0, rng)
  else
    require (0 ≤ minHours ∧ minHours ≤ maxHours) "Invalid work time range"
    return library.uniform minHours maxHours rng

/-! ### Helpers -/

/-- `configs.get((step_id, issue_type, story_points))`. -/
def configAt (configs : List TouchTimeConfigSnapshot) (stepId : ℤ) (issueType : String)
    (storyPoints : ℤ) : Option TouchTimeConfigSnapshot :=
  configs.find? fun c =>
    c.workflowStepId = stepId && c.issueType = issueType && c.storyPoints = storyPoints

def getTouchTimeConfig (configs : List TouchTimeConfigSnapshot) (stepId : ℤ) (issueType : String)
    (storyPoints : ℤ) : Option TouchTimeConfigSnapshot :=
  match configAt configs stepId issueType storyPoints with
  | some config => some config
  -- the configuration for zero points is the fallback
  | none => configAt configs stepId issueType 0

def findStepById (workflowSteps : List WorkflowStepSnapshot) (stepId : Option ℤ) :
    Option WorkflowStepSnapshot :=
  workflowSteps.find? fun step => some step.id = stepId

/-- The first of the steps with the smallest order. -/
def minByOrder : List WorkflowStepSnapshot → Option WorkflowStepSnapshot
  | [] => none
  | step :: steps =>
    match minByOrder steps with
    | none => some step
    | some least => if least.order < step.order then some least else some step

def nextStep (workflowSteps : List WorkflowStepSnapshot) (currentOrder : ℤ) :
    Option WorkflowStepSnapshot :=
  minByOrder (workflowSteps.filter fun s => decide (currentOrder < s.order))

/-- `_is_final_step`: no step of the workflow has a higher order. -/
def isFinalStep (workflowSteps : List WorkflowStepSnapshot) (step : WorkflowStepSnapshot) : Bool :=
  workflowSteps.any (fun s => s.order = step.order) &&
    workflowSteps.all fun s => decide (s.order ≤ step.order)

/-- `issue.story_points or 0`. -/
def IssueSnapshot.points (issue : IssueSnapshot) : ℤ :=
  issue.storyPoints.getD 0

/-! ### One tick of an issue -/

/-- The times that `enter_status` samples. -/
def sampleTimes (config : Option TouchTimeConfigSnapshot) (rng : library.State) :
    Result (ℚ × ℚ × library.State) := do
  match config with
  | none => return (0, 0, rng)
  | some config =>
    let (full, rng) ←
      match config.fullTimeP25, config.fullTimeP50, config.fullTimeP99 with
      | some p25, some p50, some p99 =>
        -- a percentile of zero counts as missing
        if p25 ≠ 0 ∧ p50 ≠ 0 ∧ p99 ≠ 0 then sampleFullTime library p25 p50 p99 rng
        else pure (0, rng)
      | _, _, _ => pure (0, rng)
    let (work, rng) ← sampleWorkTime library config.minHours config.maxHours rng
    return (full, work, rng)

def transitionAction (issue : IssueSnapshot) (targetStatus : String) : JiraWriteAction where
  operationType := "TRANSITION_ISSUE"
  payload := [("issue_key", Json.ofText issue.jiraIssueKey), ("target_status", .string targetStatus)]
  issueId := some issue.id

/-- `enter_status`: the issue in its new status, and its one action. -/
def enterStatus (issue : IssueSnapshot) (step : WorkflowStepSnapshot)
    (config : Option TouchTimeConfigSnapshot) (rng : library.State) :
    Result (IssueSnapshot × JiraWriteAction × library.State) := do
  let (full, work, rng) ← sampleTimes library config rng
  let entered :=
    { issue with
      currentWorkflowStepId := some step.id
      status := step.jiraStatus
      sampledFullTime := full
      sampledWorkTime := work
      elapsedFullTime := 0
      elapsedWorkTime := 0
      workStarted := false
      currentWorkerId := none }
  return (entered, transitionAction entered step.jiraStatus, rng)

def checkTransitionReady (issue : IssueSnapshot) : Bool :=
  (issue.sampledWorkTime = 0 || decide (issue.sampledWorkTime ≤ issue.elapsedWorkTime)) &&
    decide (issue.sampledFullTime ≤ issue.elapsedFullTime)

inductive Direction where
  | forward
  | left (targetStepId : ℤ)
  deriving DecidableEq, Repr

/-- The last configuration for the step and the type, or the last one for the step and every type.
-/
def moveLeftConfig (configs : List MoveLeftConfigSnapshot) (issueType : String)
    (step : WorkflowStepSnapshot) : Option MoveLeftConfigSnapshot :=
  let here := configs.filter fun c => c.fromStepId = step.id
  match (here.filter fun c => c.issueType = some issueType).getLast? with
  | some config => some config
  | none => (here.filter fun c => c.issueType = none).getLast?

/-- The first target whose cumulative weight reaches the roll, and else the last one. -/
def targetAt (roll : ℚ) (last : ℤ) : ℚ → List MoveLeftTargetSnapshot → ℤ
  | _, [] => last
  | cumulative, target :: targets =>
    let cumulative := fadd cumulative target.weight
    if roll ≤ cumulative then target.toStepId else targetAt roll last cumulative targets

def rollDirection (issueType : String) (step : WorkflowStepSnapshot)
    (configs : List MoveLeftConfigSnapshot) (rng : library.State) : Direction × library.State :=
  match moveLeftConfig configs issueType step with
  | none => (.forward, rng)
  | some config =>
    let (draw, rng) := library.random rng
    -- the second draw is taken only when the first one moves left
    if config.baseProbability ≤ draw then (.forward, rng)
    else
      match config.targets.getLast? with
      | none => (.forward, rng)
      | some last =>
        let total := library.floatSum (config.targets.map (·.weight))
        if total ≤ 0 then (.forward, rng)
        else
          let (draw, rng) := library.random rng
          (.left (targetAt (fmul draw total) last.toStepId 0 config.targets), rng)

/-- The configuration that `process_item_tick` reads. -/
structure WorkflowConfig where
  workflowSteps : List WorkflowStepSnapshot
  touchTimeConfigs : List TouchTimeConfigSnapshot
  moveLeftConfigs : List MoveLeftConfigSnapshot
  tickHours : ℚ

/-- The issue, the members and the generator while an issue is processed. -/
structure ItemState where
  issue : IssueSnapshot
  memberStates : MemberStates
  rng : library.State

structure ItemTickResult extends ItemState library where
  jiraActions : List JiraWriteAction
  completed : Bool

/-- Step 1: an issue that needs work and has not started takes an available member. -/
def assignWorker (step : WorkflowStepSnapshot) (s : ItemState library) :
    Result (ItemState library) := do
  if 0 < s.issue.sampledWorkTime ∧ !s.issue.workStarted then
    let (worker, rng) ← findAvailableMember library.toRandomSource s.memberStates step.roles
      s.issue.id s.rng
    match worker with
    | none => return { s with rng }
    | some worker =>
      let memberStates ← markBusy s.memberStates worker.memberId s.issue.id
      return {
        issue := { s.issue with workStarted := true, currentWorkerId := some worker.memberId }
        memberStates, rng }
  else return s

/-- The member for whom step 2 lets an issue accumulate work time. -/
def IssueSnapshot.worker (issue : IssueSnapshot) : Option ℤ :=
  if issue.workStarted then issue.currentWorkerId else none

/-- Step 2: work in progress advances, and its member is busy. -/
def advanceWork (tickHours : ℚ) (s : ItemState library) : Result (ItemState library) := do
  match s.issue.worker with
  | none => return s
  | some memberId =>
    let issue :=
      { s.issue with elapsedWorkTime := fadd s.issue.elapsedWorkTime tickHours }
    let current ← getItem (·.memberId) s.memberStates memberId
    -- the member took the issue in step 1
    if current.busyThisTick then return { s with issue }
    else
      let memberStates ← markBusy s.memberStates memberId issue.id
      return { s with issue, memberStates }

/-- Step 3: full time always advances. -/
def advanceFullTime (tickHours : ℚ) (s : ItemState library) : ItemState library :=
  { s with issue :=
      { s.issue with elapsedFullTime := fadd s.issue.elapsedFullTime tickHours } }

/-- The release of the worker in step 6. -/
def releaseWorker (s : ItemState library) : Result (ItemState library) := do
  match s.issue.currentWorkerId with
  | none => return s
  | some memberId =>
    let memberStates ← releaseAssignment s.memberStates memberId
    return { s with memberStates }

/-- The entry of a step in step 6, with its action. -/
def enterStep (config : WorkflowConfig) (step : WorkflowStepSnapshot) (completed : Bool)
    (s : ItemState library) : Result (ItemTickResult library) := do
  let touchTime := getTouchTimeConfig config.touchTimeConfigs step.id s.issue.issueType
    s.issue.points
  let (issue, action, rng) ← enterStatus library s.issue step touchTime s.rng
  return { issue, rng, memberStates := s.memberStates, jiraActions := [action], completed }

/-- Step 6. -/
def executeTransition (config : WorkflowConfig) (step : WorkflowStepSnapshot)
    (direction : Direction) (s : ItemState library) : Result (ItemTickResult library) := do
  match direction with
  | .forward =>
    match nextStep config.workflowSteps step.order with
    | some next =>
      if isFinalStep config.workflowSteps step then
        return { s with
          issue := { s.issue with completedAt := some .marked }, jiraActions := [], completed := true }
      else enterStep library config next (isFinalStep config.workflowSteps next) s
    | none =>
      return { s with
        issue := { s.issue with completedAt := some .marked }, jiraActions := [], completed := true }
  | .left targetStepId =>
    match findStepById config.workflowSteps (some targetStepId) with
    | some target => enterStep library config target false s
    -- the worker is released all the same
    | none => return { s with jiraActions := [], completed := false }

def processItemTick (config : WorkflowConfig) (s : ItemState library) :
    Result (ItemTickResult library) := do
  match findStepById config.workflowSteps s.issue.currentWorkflowStepId with
  | none => return { s with jiraActions := [], completed := false }
  | some step =>
    let s ← assignWorker library step s
    let s ← advanceWork library config.tickHours s
    let s := advanceFullTime library config.tickHours s
    if checkTransitionReady s.issue then
      let (direction, rng) := rollDirection library s.issue.issueType step
        config.moveLeftConfigs s.rng
      let s ← releaseWorker library { s with rng }
      executeTransition library config step direction s
    else return { s with jiraActions := [], completed := false }

end JiraSimulator.Engine
