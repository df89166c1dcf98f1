import JiraSimulator.Domain.DeterministicRng

/-!
# The resolved team blueprint

The parts of the Scrum blueprint that the simulator reads, with the validation of each part and of
the whole.  `ResolvedTeamBlueprint` is a document together with the proof that it was accepted.

The bounds of single fields (`Field(gt=0)`, …) are checked where the models declare them; the local
work times are read as minutes of the day, and the story point weights by their integer keys.
-/

namespace JiraSimulator

/-- The kinds of work items, each with a route of its own. -/
inductive IssueType where
  | STORY
  | BUG
  | TASK
  | SPIKE
  | ENABLER
  deriving DecidableEq, Repr

/-- The values of `StoryPoints`. -/
def STORY_POINTS : List ℕ := [1, 2, 3, 5, 8, 13]

/-- The values of `WEEKDAYS`. -/
inductive Weekday where
  | MON
  | TUE
  | WED
  | THU
  | FRI
  | SAT
  | SUN
  deriving DecidableEq, Repr

/-- `WEEKDAYS.index(day)`. -/
def Weekday.index : Weekday → ℕ
  | .MON => 0
  | .TUE => 1
  | .WED => 2
  | .THU => 3
  | .FRI => 4
  | .SAT => 5
  | .SUN => 6

/-- A scalar of a JSON document, as the parameters of a rule hold it. -/
inductive JsonScalar where
  | null
  | bool (value : Bool)
  | int (value : ℤ)
  | float (value : ℚ)
  | str (value : String)
  deriving DecidableEq, Repr

/-- The `team` part: who the team is, and the IANA name of its zone. -/
structure TeamBlueprintTeam where
  name : String
  methodology : String
  timezone : String

/-- The `jira` part: the project that the team gets. -/
structure JiraBlueprint where
  projectName : String
  projectKey : String

/-- The `calendar` part.  The work times are minutes of the local day. -/
structure CalendarBlueprint where
  workingWeekdays : List Weekday
  workdayStart : ℕ
  workdayEnd : ℕ
  holidayCalendarProfile : String
  holidayCalendarVersion : String
  holidayHorizonEnd : ℤ
  holidays : List ℤ
  deriving DecidableEq

/-- A planned absence, or a reduced presence, of a member. -/
structure AvailabilityInterval where
  startsAt : ℤ
  endsAt : ℤ
  availabilityFraction : ℚ
  dailyCapacityHoursOverride : ℚ

/-- An activity that a member carries, with the proficiency for it. -/
structure Responsibility where
  activity : String
  proficiency : ℚ

/-- A member of the team. -/
structure MemberBlueprint where
  name : String
  roles : List String
  dailyCapacityHours : ℚ
  maxConcurrentWip : ℕ
  responsibilities : List Responsibility
  availability : List AvailabilityInterval

/-- The Jira category of a status. -/
inductive StatusCategory where
  | TODO
  | IN_PROGRESS
  | DONE
  deriving DecidableEq, Repr

/-- A status of the workflow, with the activities that are done in it. -/
structure WorkflowStatus where
  key : String
  jiraName : String
  category : StatusCategory
  activities : List String
  consumesCapacity : Bool
  pausesServiceClock : Bool

/-- A step of a route; an activity makes it one that needs a member. -/
structure WorkflowRouteStep where
  statusKey : String
  requiredActivity : Option String
  deriving DecidableEq, Repr

/-- The statuses that the items of one type pass. -/
structure WorkflowRoute where
  issueType : IssueType
  steps : List WorkflowRouteStep

/-- The `workflow` part. -/
structure WorkflowBlueprint where
  statuses : List WorkflowStatus
  routes : List WorkflowRoute

/-- The dwell anchors and the touch bounds, in hours, of one timing cell. -/
structure TimingEntry where
  statusKey : String
  issueType : IssueType
  storyPoints : ℕ
  min : ℚ
  p25 : ℚ
  p50 : ℚ
  p99 : ℚ
  max : ℚ
  touchMin : ℚ
  touchMax : ℚ

/-- The `timing` part. -/
structure TimingBlueprint where
  profileName : String
  profileVersion : ℤ
  algorithmVersion : String
  entries : List TimingEntry

/-- The `backlog` part: its depth, and the weights by which items are drawn. -/
structure BacklogBlueprint where
  targetDepth : ℕ
  issueTypeWeights : List (IssueType × ℚ)
  storyPointWeights : List (ℕ × ℚ)
  priorityWeights : List (String × ℚ)

/-- The bounds of the probability of a rule. -/
structure ProbabilityClamp where
  min : ℚ
  max : ℚ
  deriving DecidableEq, Repr

/-- A risk rule: when it is evaluated, how likely it is, and what it then does. -/
structure RiskRule where
  key : String
  trigger : String
  baseProbability : ℚ
  coefficients : List (String × JsonScalar)
  clamp : ProbabilityClamp
  mechanicalParameters : List (String × JsonScalar)
  deriving DecidableEq, Repr

/-- The `risks` part.  The rules are evaluated in this order. -/
structure RisksBlueprint where
  profileName : String
  profileVersion : ℤ
  algorithmVersion : String
  rules : List RiskRule

/-- The `scrum` part: the cadence of the sprints and their capacity range. -/
structure ScrumBlueprint where
  cadenceDays : ℕ
  firstBoundary : ℤ
  capacityMinPoints : ℕ
  capacityMaxPoints : ℕ
  carryoverPolicyVersion : String

/-- A resolved blueprint document before its cross-field validation. -/
structure BlueprintDocument where
  canonicalDocument : String
  team : TeamBlueprintTeam
  jira : JiraBlueprint
  calendar : CalendarBlueprint
  members : List MemberBlueprint
  workflow : WorkflowBlueprint
  timing : TimingBlueprint
  backlog : BacklogBlueprint
  risks : RisksBlueprint
  scrum : ScrumBlueprint
  seed : String

/-! ### Validation of the parts -/

/-- A bound that a field declares. -/
def requireField (condition : Prop) [Decidable condition] (field : String) : Result Unit :=
  Library.Outcome.check condition (.validationError field)

/-- `Probability`, a number between zero and one. -/
def requireProbability (value : ℚ) (field : String) : Result Unit :=
  requireField (0 ≤ value ∧ value ≤ 1) field

/-- The field bounds and the model validator of a calendar. -/
def CalendarBlueprint.validate (calendar : CalendarBlueprint) : Result Unit := do
  requireField (calendar.workdayStart < 1440 ∧ calendar.workdayEnd < 1440) "workday"
  require (calendar.workingWeekdays ≠ [] ∧
      (calendar.workingWeekdays.map Weekday.index).Pairwise (· < ·))
    "working weekdays must be unique and ordered"
  require (calendar.workdayStart < calendar.workdayEnd) "workday interval must be ordered"
  require (calendar.holidays.Pairwise (· < ·)) "holidays must be unique and ordered"
  require (∀ holiday ∈ calendar.holidays, holiday ≤ calendar.holidayHorizonEnd)
    "holiday exceeds configured horizon"

/-- The field bounds and the model validator of an availability interval. -/
def AvailabilityInterval.validate (interval : AvailabilityInterval) : Result Unit := do
  requireProbability interval.availabilityFraction "availability_fraction"
  requireField (0 < interval.dailyCapacityHoursOverride) "daily_capacity_hours_override"
  require (interval.startsAt < interval.endsAt) "availability interval must have positive duration"

/-- The field bounds of a member with its intervals, and the model validator. -/
def MemberBlueprint.validate (member : MemberBlueprint) : Result Unit := do
  requireField (0 < member.dailyCapacityHours ∧ member.dailyCapacityHours ≤ 24)
    "daily_capacity_hours"
  requireField (1 ≤ member.maxConcurrentWip ∧ member.maxConcurrentWip ≤ 10) "max_concurrent_wip"
  requireField (∀ item ∈ member.responsibilities, 1 / 4 ≤ item.proficiency ∧ item.proficiency ≤ 2)
    "proficiency"
  forM member.availability AvailabilityInterval.validate
  require (member.roles ≠ [] ∧ member.roles.Nodup) "member roles must be non-empty and unique"
  require (member.responsibilities ≠ [] ∧ (member.responsibilities.map (·.activity)).Nodup)
    "responsibilities must be non-empty and unique"
  require (∀ pair ∈ member.availability.zip member.availability.tail, pair.1.endsAt ≤ pair.2.startsAt)
    "availability intervals must be ordered and non-overlapping"

/-- The field bounds of a timing cell, and the order of its anchors. -/
def TimingEntry.validate (entry : TimingEntry) : Result Unit := do
  requireField (entry.storyPoints ∈ STORY_POINTS) "story_points"
  requireField (0 ≤ entry.min ∧ 0 ≤ entry.p25 ∧ 0 ≤ entry.p50 ∧ 0 ≤ entry.p99 ∧ 0 ≤ entry.max ∧
    0 ≤ entry.touchMin ∧ 0 ≤ entry.touchMax) "timing"
  require (entry.min ≤ entry.p25 ∧ entry.p25 ≤ entry.p50 ∧ entry.p50 ≤ entry.p99 ∧
    entry.p99 ≤ entry.max) "timing anchors must be ordered"
  require (entry.touchMin ≤ entry.touchMax) "touch bounds must be ordered"

/-- The field bounds of a backlog; no weight map is empty. -/
def BacklogBlueprint.validate (backlog : BacklogBlueprint) : Result Unit := do
  requireField (1 ≤ backlog.targetDepth ∧ backlog.targetDepth ≤ 1000) "target_depth"
  requireField (∀ weight ∈ backlog.issueTypeWeights, 0 < weight.2) "issue_type_weights"
  requireField (∀ weight ∈ backlog.storyPointWeights, 0 < weight.2) "story_point_weights"
  requireField (∀ weight ∈ backlog.priorityWeights, 0 < weight.2) "priority_weights"
  require (backlog.issueTypeWeights ≠ [] ∧ backlog.storyPointWeights ≠ [] ∧
    backlog.priorityWeights ≠ []) "weight map must not be empty"

/-- The field bounds of a rule, and the order of its clamp. -/
def RiskRule.validate (rule : RiskRule) : Result Unit := do
  requireProbability rule.baseProbability "base_probability"
  requireProbability rule.clamp.min "clamp"
  requireProbability rule.clamp.max "clamp"
  require (rule.clamp.min ≤ rule.clamp.max) "probability clamp must be ordered"
  require (rule.mechanicalParameters ≠ []) "risk mechanical parameters must be materialized"

/-- The field bounds of a sprint cadence, and the order of its capacity range. -/
def ScrumBlueprint.validate (scrum : ScrumBlueprint) : Result Unit := do
  requireField (0 < scrum.cadenceDays) "cadence_days"
  require (scrum.capacityMinPoints ≤ scrum.capacityMaxPoints) "Scrum capacity range must be ordered"

/-! ### Validation of the whole -/

/-- Values that must be non-empty and unique under one label. -/
def requireNonEmptyUnique {α : Type} [DecidableEq α] (values : List α) (label : String) :
    Result Unit :=
  require (values ≠ [] ∧ values.Nodup) (label ++ " must be non-empty and unique")

/-- `_validate_unique_identity`. -/
def validateUniqueIdentity (blueprint : BlueprintDocument) : Result Unit := do
  requireNonEmptyUnique (blueprint.members.map (·.name)) "member names"
  requireNonEmptyUnique (blueprint.workflow.statuses.map (·.key)) "status keys"
  requireNonEmptyUnique (blueprint.workflow.statuses.map (·.jiraName)) "Jira status names"
  requireNonEmptyUnique (blueprint.workflow.routes.map (·.issueType)) "route issue types"

/-- The activities that some member carries. -/
def staffedActivities (blueprint : BlueprintDocument) : List String :=
  blueprint.members.flatMap fun member => member.responsibilities.map (·.activity)

/-- A step names a status, and an activity of it that some member carries. -/
def validateRouteStep (blueprint : BlueprintDocument) (step : WorkflowRouteStep) : Result Unit :=
  match blueprint.workflow.statuses.find? (fun status => status.key = step.statusKey) with
  | none => .error (.valueError "route references an unknown status")
  | some status =>
    match step.requiredActivity with
    | none => .ok ()
    | some activity => do
      require (activity ∈ status.activities) "route activity is not mapped by its status"
      require (activity ∈ staffedActivities blueprint) "route activity has no proficient member"

/-- `_validate_routes`. -/
def validateRoutes (blueprint : BlueprintDocument) : Result Unit :=
  forM blueprint.workflow.routes fun route => do
    require (2 ≤ route.steps.length) "workflow routes require at least two steps"
    forM route.steps (validateRouteStep blueprint)

/-- Does the status of the step consume capacity? -/
def consumesCapacity (blueprint : BlueprintDocument) (step : WorkflowRouteStep) : Bool :=
  blueprint.workflow.statuses.any fun status =>
    status.key = step.statusKey && status.consumesCapacity

/-- The timing cells that a blueprint must materialize. -/
def expectedTimingCells (blueprint : BlueprintDocument) : List (String × IssueType × ℕ) :=
  blueprint.workflow.routes.flatMap fun route =>
    (route.steps.filter (consumesCapacity blueprint)).flatMap fun step =>
      blueprint.backlog.storyPointWeights.map fun weight =>
        (step.statusKey, route.issueType, weight.1)

/-- The coordinates of a timing cell. -/
def TimingEntry.cell (entry : TimingEntry) : String × IssueType × ℕ :=
  (entry.statusKey, entry.issueType, entry.storyPoints)

/-- `_validate_timing_grid`. -/
def validateTimingGrid (blueprint : BlueprintDocument) : Result Unit := do
  let actual := blueprint.timing.entries.map TimingEntry.cell
  let expected := expectedTimingCells blueprint
  require actual.Nodup "timing grid cells must be unique"
  require (expected ≠ [] ∧ ∀ cell ∈ expected, cell ∈ actual) "timing grid is not fully materialized"
  require (∀ cell ∈ actual, cell.1 ∈ blueprint.workflow.statuses.map (·.key) ∧
      cell.2.1 ∈ blueprint.workflow.routes.map (·.issueType))
    "timing cell references unknown workflow data"

/-- `_validate_risks`, with the route that every weighted issue type needs. -/
def validateRisks (blueprint : BlueprintDocument) : Result Unit := do
  let keys := blueprint.risks.rules.map (·.key)
  require (keys ≠ [] ∧ keys.Nodup) "risk rules must be materialized and unique"
  require (∀ weight ∈ blueprint.backlog.issueTypeWeights,
      weight.1 ∈ blueprint.workflow.routes.map (·.issueType))
    "weighted issue type has no workflow route"

/-- The validation of every part and of the cross-field rules. -/
def BlueprintDocument.validate (blueprint : BlueprintDocument) : Result Unit := do
  blueprint.calendar.validate
  forM blueprint.members MemberBlueprint.validate
  forM blueprint.timing.entries TimingEntry.validate
  blueprint.backlog.validate
  forM blueprint.risks.rules RiskRule.validate
  blueprint.scrum.validate
  validateUniqueIdentity blueprint
  validateRoutes blueprint
  validateTimingGrid blueprint
  validateRisks blueprint

/-- An accepted blueprint. -/
structure ResolvedTeamBlueprint extends BlueprintDocument where
  accepted : toBlueprintDocument.validate = .ok ()

/-- The digest of the canonical document. -/
def ResolvedTeamBlueprint.sha256 (blueprint : ResolvedTeamBlueprint) : Sha256 :=
  ⟨blueprint.canonicalDocument⟩

end JiraSimulator
