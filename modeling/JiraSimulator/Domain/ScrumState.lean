import JiraSimulator.Domain.Sampling

/-!
# The rows of the authoritative Scrum state

Every row type has a `validate` with the checks of its constructor, and `validated` returns the row
when they pass; the code builds and replaces rows only through it.  Rows are identified by semantic
coordinates, so a row with the identifier of other coordinates is rejected.

A sample keeps its draws and its parameters as values; their JSON texts and digests are functions of
these.
-/

namespace JiraSimulator

/-- The life of a work item. -/
inductive WorkItemLifecycle where
  | BACKLOG
  | ACTIVE
  | DONE
  | CANCELLED
  deriving DecidableEq, Repr

/-- The life of a sprint. -/
inductive SprintLifecycle where
  | PLANNED
  | ACTIVE
  | COMPLETED
  deriving DecidableEq, Repr

/-- The life of a visit. -/
inductive StatusVisitLifecycle where
  | OPEN
  | CLOSED
  deriving DecidableEq, Repr

/-- The priorities of work items, the highest first. -/
inductive WorkPriority where
  | HIGHEST
  | HIGH
  | MEDIUM
  | LOW
  | LOWEST
  deriving DecidableEq, Repr

/-- `WORK_PRIORITY_ORDER.index(priority)`. -/
def WorkPriority.order : WorkPriority → ℤ
  | .HIGHEST => 0
  | .HIGH => 1
  | .MEDIUM => 2
  | .LOW => 3
  | .LOWEST => 4

/-- `WorkPriority(text)`. -/
def WorkPriority.ofText (text : String) : Result WorkPriority :=
  if text = "HIGHEST" then .ok .HIGHEST
  else if text = "HIGH" then .ok .HIGH
  else if text = "MEDIUM" then .ok .MEDIUM
  else if text = "LOW" then .ok .LOW
  else if text = "LOWEST" then .ok .LOWEST
  else .error (.valueError (text ++ " is not a valid WorkPriority"))

/-- `NATURAL_OWNER_DECISIONS`. -/
def naturalOwnerDecisions : List DecisionType :=
  [.RISK_CANCELLATION_OUTCOME, .RISK_MEMBER_UNAVAILABLE_OUTCOME]

/-- The row when its validation passes. -/
def validated {α : Type} (validate : α → Result Unit) (row : α) : Result α := do
  validate row
  return row

theorem validated_eq_ok {α : Type} {validate : α → Result Unit} {row row' : α} :
    validated validate row = .ok row' ↔ validate row = .ok () ∧ row = row' := by
  simp [validated]

/-! ### Members -/

/-- A member of a team run, by the place in the blueprint. -/
structure MemberIdentity where
  id : Uuid
  teamId : Uuid
  blueprintIndex : ℕ
  deriving DecidableEq, Repr

/-- `MemberIdentity.validate`. -/
def MemberIdentity.validate (identity : MemberIdentity) : Result Unit := do
  requireSafeInteger identity.blueprintIndex "blueprint_index"
  let expected ← memberRngId identity.teamId identity.blueprintIndex
  requireSemanticId identity.id expected "semantic member id"

/-- The provenance document of an overlay. -/
structure OverlayProvenance where
  risk : String
  profile : String
  profileVersion : ℤ
  deriving DecidableEq, Repr

/-- A risk that lowers the presence of a member for some time. -/
structure MemberAvailabilityOverlay where
  id : Uuid
  teamId : Uuid
  runId : Uuid
  memberId : Uuid
  source : String
  startsAt : ℤ
  endsAt : ℤ
  availabilityFraction : ℚ
  dailyCapacityCeilingMicroseconds : Option ℤ
  reason : String
  provenance : OverlayProvenance
  createdAt : ℤ
  deriving DecidableEq, Repr

/-- `MemberAvailabilityOverlay.validate`. -/
def MemberAvailabilityOverlay.validate (overlay : MemberAvailabilityOverlay) : Result Unit := do
  requireText overlay.source "source"
  require (overlay.startsAt < overlay.endsAt)
    "overlay interval must be half-open with starts_at before ends_at"
  requireFraction overlay.availabilityFraction "availability_fraction"
  forM overlay.dailyCapacityCeilingMicroseconds.toList fun ceiling =>
    requireMicroseconds ceiling "capacity ceiling"
  requireText overlay.reason "reason"

/-- The labor of a member that one business date has used. -/
structure MemberBusinessDateConsumption where
  teamId : Uuid
  runId : Uuid
  memberId : Uuid
  businessDate : ℤ
  consumedLaborMicroseconds : ℤ
  deriving DecidableEq, Repr

/-- `MemberBusinessDateConsumption.validate`. -/
def MemberBusinessDateConsumption.validate (row : MemberBusinessDateConsumption) : Result Unit :=
  requireMicroseconds row.consumedLaborMicroseconds "consumed_labor_microseconds"

/-! ### Work items -/

/-- A work item, from its creation to the end of its life. -/
structure WorkItemState where
  id : Uuid
  teamId : Uuid
  runId : Uuid
  creationKind : CreationKind
  creationSequence : ℕ
  issueType : IssueType
  storyPoints : ℕ
  priority : WorkPriority
  relativeRank : ℕ
  lifecycle : WorkItemLifecycle
  currentStatusKey : String
  createdAt : ℤ
  updatedAt : ℤ
  deriving DecidableEq, Repr

/-- `WorkItemState.validate`. -/
def WorkItemState.validate (work : WorkItemState) : Result Unit := do
  requireSafeInteger work.creationSequence "creation_sequence"
  let expected ← itemRngId work.teamId work.creationKind work.creationSequence
  requireSemanticId work.id expected "semantic work item id"
  require (work.storyPoints ∈ STORY_POINTS) "story_points must use the supported Fibonacci scale"
  requireSafeInteger work.relativeRank "relative_rank"
  requireText work.currentStatusKey "current_status_key"
  require (work.createdAt ≤ work.updatedAt) "updated_at must not precede created_at"

/-- The sort key of `SimulatorRank`. -/
def simulatorRank (p : Platform) (work : WorkItemState) : List ℤ :=
  [work.priority.order, work.relativeRank, p.uuidInt work.id]

/-- A sampled factor of a work item, which the risks read. -/
structure WorkItemFactor where
  id : Uuid
  teamId : Uuid
  runId : Uuid
  workItemId : Uuid
  kind : FactorKind
  value : ℚ
  recordedAt : ℤ
  deriving DecidableEq, Repr

/-- `WorkItemFactor.validate`. -/
def WorkItemFactor.validate (factor : WorkItemFactor) : Result Unit := do
  requireSemanticId factor.id (.factor factor.workItemId factor.kind) "semantic factor id"
  requireFraction factor.value "factor value"

/-! ### Sprints -/

/-- A sprint with its planned and its observed times. -/
structure SprintState where
  id : Uuid
  teamId : Uuid
  runId : Uuid
  ordinal : ℕ
  lifecycle : SprintLifecycle
  plannedStartAt : ℤ
  plannedEndAt : ℤ
  observedStartAt : Option ℤ
  observedEndAt : Option ℤ
  createdAt : ℤ
  updatedAt : ℤ
  deriving DecidableEq, Repr

/-- The presence of the observed times that a lifecycle expects. -/
def SprintLifecycle.expectedPresence : SprintLifecycle → Bool × Bool
  | .PLANNED => (false, false)
  | .ACTIVE => (true, false)
  | .COMPLETED => (true, true)

/-- `start is not None and end is not None` implies that they are ordered. -/
def orderedTimes : Option ℤ → Option ℤ → Bool
  | some start, some finish => start ≤ finish
  | _, _ => true

/-- `SprintState.validate`. -/
def SprintState.validate (sprint : SprintState) : Result Unit := do
  requireSafeInteger sprint.ordinal "ordinal"
  let expected ← sprintRngId sprint.teamId sprint.ordinal
  requireSemanticId sprint.id expected "semantic sprint id"
  require (sprint.plannedStartAt < sprint.plannedEndAt) "planned sprint interval must be positive"
  require ((sprint.observedStartAt.isSome, sprint.observedEndAt.isSome) =
      sprint.lifecycle.expectedPresence)
    "observed_start_at/observed_end_at do not match sprint lifecycle"
  require (orderedTimes sprint.observedStartAt sprint.observedEndAt)
    "observed_end_at must not precede observed_start_at"
  require (sprint.createdAt ≤ sprint.updatedAt) "updated_at must not precede created_at"

/-- A work item in the scope of a sprint, current while it is not removed. -/
structure SprintScopeEntry where
  id : Uuid
  teamId : Uuid
  runId : Uuid
  sprintId : Uuid
  workItemId : Uuid
  addedAt : ℤ
  removedAt : Option ℤ
  deriving DecidableEq, Repr

/-- `SprintScopeEntry.validate`. -/
def SprintScopeEntry.validate (entry : SprintScopeEntry) : Result Unit := do
  requireSemanticId entry.id (.sprintScope entry.sprintId entry.workItemId)
    "semantic sprint scope id"
  require (orderedTimes (some entry.addedAt) entry.removedAt) "removed_at must not precede added_at"

/-! ### Status visits -/

/-- A stay of a work item in a status, with its clocks in microseconds. -/
structure StatusVisitState where
  id : Uuid
  teamId : Uuid
  runId : Uuid
  workItemId : Uuid
  ordinal : ℕ
  lifecycle : StatusVisitLifecycle
  statusKey : String
  activityKey : Option String
  memberId : Option Uuid
  enteredAt : ℤ
  closedAt : Option ℤ
  requiredWorkMicroseconds : ℤ
  elapsedWorkMicroseconds : ℤ
  remainingWorkMicroseconds : ℤ
  queueMicroseconds : ℤ
  pauseMicroseconds : ℤ
  creditedLaborMicroseconds : ℤ
  deriving DecidableEq, Repr

/-- A visit without an activity has no owner and no work. -/
def StatusVisitState.validateZeroTouch (visit : StatusVisitState) : Result Unit := do
  if visit.activityKey.isNone then
    require visit.memberId.isNone "zero-touch visit must not have a member owner"
    require (visit.requiredWorkMicroseconds = 0 ∧ visit.elapsedWorkMicroseconds = 0 ∧
        visit.remainingWorkMicroseconds = 0 ∧ visit.creditedLaborMicroseconds = 0)
      "zero-touch visit must have zero touch and labor clocks"
  else
    return ()

/-- A visit has a closing time when it is closed, and not before it was entered. -/
def StatusVisitState.validateTimes (visit : StatusVisitState) : Result Unit := do
  require (visit.lifecycle = .OPEN → visit.closedAt = none) "open visit must not have closed_at"
  require (visit.lifecycle = .CLOSED → visit.closedAt ≠ none) "closed visit must have closed_at"
  require (orderedTimes (some visit.enteredAt) visit.closedAt)
    "closed_at must not precede entered_at"

/-- The clocks of a visit: elapsed and remaining work make up the required work. -/
def StatusVisitState.validateMicroseconds (visit : StatusVisitState) : Result Unit := do
  requireMicroseconds visit.requiredWorkMicroseconds "required_work_microseconds"
  requireMicroseconds visit.elapsedWorkMicroseconds "elapsed_work_microseconds"
  requireMicroseconds visit.remainingWorkMicroseconds "remaining_work_microseconds"
  requireMicroseconds visit.queueMicroseconds "queue_microseconds"
  requireMicroseconds visit.pauseMicroseconds "pause_microseconds"
  requireMicroseconds visit.creditedLaborMicroseconds "credited_labor_microseconds"
  require (visit.requiredWorkMicroseconds =
      visit.elapsedWorkMicroseconds + visit.remainingWorkMicroseconds)
    "required work must equal elapsed plus remaining"
  require (visit.lifecycle = .CLOSED → visit.remainingWorkMicroseconds = 0)
    "closed visit must have no remaining work"

/-- `StatusVisitState.validate`. -/
def StatusVisitState.validate (visit : StatusVisitState) : Result Unit := do
  requireSafeInteger visit.ordinal "ordinal"
  let expected ← visitRngId visit.workItemId visit.ordinal
  requireSemanticId visit.id expected "semantic visit id"
  requireText visit.statusKey "status_key"
  forM visit.activityKey.toList fun activity => requireText activity "activity_key"
  visit.validateZeroTouch
  visit.validateTimes
  visit.validateMicroseconds

/-! ### Samples -/

/-- The draws of a visit, with the parameters and the hours sampled from them. -/
structure StatusVisitSample where
  visitId : Uuid
  teamId : Uuid
  runId : Uuid
  timingProfile : String
  timingProfileVersion : String
  dwellSamplerVersion : String
  touchSamplerVersion : String
  dwellParameters : DwellAnchors
  touchParameters : TouchBounds
  dwellDraw : UniformDraw
  touchDraw : UniformDraw
  dwellUnitValue : ℚ
  touchUnitValue : ℚ
  dwellSampledHours : ℚ
  touchSampledHours : ℚ
  requiredWorkMicroseconds : ℤ
  deriving DecidableEq, Repr

/-- `_hours_to_microseconds`: the exact product, rounded half to even. -/
def hoursToMicroseconds (hours : ℚ) : Result ℤ := do
  requireNonNegative hours "touch sampled hours"
  let whole := Library.Rounding.roundHalfEven (hours * microsecondsPerHour)
  requireMicroseconds whole "required_work_microseconds"
  return whole

/-- `_validate_draw_coordinate`: the draw is about this visit in this team run. -/
def validateDrawCoordinate (sample : StatusVisitSample) (draw : UniformDraw)
    (expectedType : DecisionType) : Result Unit := do
  requireSafeInteger draw.u53Integer "u53_integer"
  require (draw.decision.entityId = sample.visitId) "draw entity_id must match visit_id"
  require (draw.decision.occurrence = 0 ∧ draw.decision.decisionType = expectedType)
    "draw decision coordinate does not match the status sample"
  require (draw.stream.teamId = sample.teamId ∧ draw.stream.runId = sample.runId)
    "canonical message does not match the status sample coordinate"

/-- The draws are those of the visit, and the sampled hours follow from them. -/
def StatusVisitSample.validateSamples (p : Platform) (sample : StatusVisitSample) :
    Result Unit := do
  validateDrawCoordinate sample sample.dwellDraw .STATUS_DWELL
  validateDrawCoordinate sample sample.touchDraw .STATUS_TOUCH
  requireFraction sample.dwellUnitValue "dwell_unit_value"
  requireFraction sample.touchUnitValue "touch_unit_value"
  require (sample.dwellDraw.unitValue = sample.dwellUnitValue)
    "dwell unit value does not match draw provenance"
  require (sample.touchDraw.unitValue = sample.touchUnitValue)
    "touch unit value does not match draw provenance"
  sample.dwellParameters.validate
  let expectedDwell ← sampleDwell p sample.dwellParameters sample.dwellUnitValue
  sample.touchParameters.validate
  let expectedTouch ← sampleTouch sample.touchParameters sample.touchUnitValue
  require (sample.dwellSampledHours = expectedDwell)
    "dwell sampled hours do not match parameters and unit draw"
  require (sample.touchSampledHours = expectedTouch)
    "touch sampled hours do not match parameters and unit draw"

/-- The required work is the sampled touch time. -/
def StatusVisitSample.validateRequiredWork (sample : StatusVisitSample) : Result Unit := do
  requireMicroseconds sample.requiredWorkMicroseconds "required_work_microseconds"
  let required ← hoursToMicroseconds sample.touchSampledHours
  require (sample.requiredWorkMicroseconds = required)
    "required work must equal retained touch sampled hours"

/-- `StatusVisitSample.validate`. -/
def StatusVisitSample.validate (p : Platform) (sample : StatusVisitSample) : Result Unit := do
  requireText sample.timingProfile "timing_profile"
  requireText sample.timingProfileVersion "timing_profile_version"
  requireText sample.dwellSamplerVersion "dwell_sampler_version"
  requireText sample.touchSamplerVersion "touch_sampler_version"
  sample.validateSamples p
  sample.validateRequiredWork

/-- What a sample is made from. -/
structure StatusVisitSampleInput where
  blueprint : ResolvedTeamBlueprint
  workItem : WorkItemState
  visit : StatusVisitState
  dwellDraw : UniformDraw
  touchDraw : UniformDraw

/-- `_timing_entry`: the one cell of a status, an issue type and a point value. -/
def timingEntry (blueprint : ResolvedTeamBlueprint) (work : WorkItemState)
    (visit : StatusVisitState) : Result TimingEntry :=
  match blueprint.timing.entries.filter
      (fun entry => entry.cell = (visit.statusKey, work.issueType, work.storyPoints)) with
  | [entry] => .ok entry
  | _ => .error (.valueError "status sample must resolve one exact blueprint timing cell")

/-- The work item, the visit and the blueprint of the input belong together. -/
def validateSampleInputLinks (input : StatusVisitSampleInput) : Result Unit := do
  let work := input.workItem
  let visit := input.visit
  require (visit.teamId = work.teamId ∧ visit.runId = work.runId ∧ visit.workItemId = work.id)
    "sample input work item and visit coordinates must match"
  require (visit.lifecycle = .OPEN → visit.statusKey = work.currentStatusKey)
    "open visit status must match current work status"
  require (work.teamId = .team input.blueprint.sha256)
    "sample input team must match the canonical blueprint"
  let _ ← timingEntry input.blueprint work visit

/-- The draw is the one that the seed of the blueprint gives. -/
def authenticateDraw (p : Platform) (input : StatusVisitSampleInput) (draw : UniformDraw)
    (decisionType : DecisionType) : Result Unit := do
  let stream ← DeterministicRandomStream.create input.blueprint.seed input.workItem.teamId
    input.workItem.runId
  require (draw = stream.draw p (.first input.visit.id decisionType))
    "draw is not authenticated by the persisted blueprint seed"

/-- `StatusVisitSampleInput.validate`. -/
def StatusVisitSampleInput.validate (p : Platform) (input : StatusVisitSampleInput) :
    Result Unit := do
  input.workItem.validate
  input.visit.validate
  validateSampleInputLinks input
  authenticateDraw p input input.dwellDraw .STATUS_DWELL
  authenticateDraw p input input.touchDraw .STATUS_TOUCH

/-- `TOUCH_SAMPLER_VERSION`. -/
def touchSamplerVersion : String := "LINEAR_UNIFORM_TOUCH_V1"

/-- `_status_sample_values`: the sample that the inputs determine. -/
def statusSampleValues (p : Platform) (input : StatusVisitSampleInput) :
    Result StatusVisitSample := do
  input.validate p
  let entry ← timingEntry input.blueprint input.workItem input.visit
  let dwellParameters ← dwellAnchors entry
  let dwellHours ← sampleDwell p dwellParameters input.dwellDraw.unitValue
  let touchParameters ← touchBounds entry
  let touchHours ← sampleTouch touchParameters input.touchDraw.unitValue
  let required ← hoursToMicroseconds touchHours
  require (input.visit.requiredWorkMicroseconds = required)
    "visit required work must equal the retained touch sample"
  return {
    visitId := input.visit.id
    teamId := input.workItem.teamId
    runId := input.workItem.runId
    timingProfile := input.blueprint.timing.profileName
    timingProfileVersion := toString input.blueprint.timing.profileVersion
    dwellSamplerVersion := input.blueprint.timing.algorithmVersion
    touchSamplerVersion
    dwellParameters, touchParameters
    dwellDraw := input.dwellDraw
    touchDraw := input.touchDraw
    dwellUnitValue := input.dwellDraw.unitValue
    touchUnitValue := input.touchDraw.unitValue
    dwellSampledHours := dwellHours
    touchSampledHours := touchHours
    requiredWorkMicroseconds := required }

/-- `StatusVisitSample.create`. -/
def StatusVisitSample.create (p : Platform) (input : StatusVisitSampleInput) :
    Result StatusVisitSample := do
  let sample ← statusSampleValues p input
  sample.validate p
  return sample

/-- `StatusVisitSample.authenticate`: the sample is the one its inputs determine. -/
def StatusVisitSample.authenticate (p : Platform) (sample : StatusVisitSample)
    (input : StatusVisitSampleInput) : Result Unit := do
  sample.validate p
  let expected ← statusSampleValues p input
  require (sample = expected) "persisted status sample does not match authenticated provenance"

/-! ### Counters and evaluations -/

/-- The scope of a counter; its key fits its kind by construction. -/
inductive SemanticCounterScope where
  | sprintOrdinal (team : Uuid)
  | itemSequence (team : Uuid) (kind : CreationKind)
  | visitOrdinal (item : Uuid)
  | naturalDecision (entity : Uuid) (decision : DecisionType)
  deriving DecidableEq, Repr

/-- The next free number of a scope. -/
structure SemanticCounter where
  teamId : Uuid
  runId : Uuid
  scope : SemanticCounterScope
  nextValue : ℕ
  deriving DecidableEq, Repr

/-- `SemanticCounter.validate`. -/
def SemanticCounter.validate (counter : SemanticCounter) : Result Unit := do
  require (counter.nextValue ≤ maxSafeInteger + 1)
    "next_value must be safe or the exact exhausted sentinel"
  match counter.scope with
  | .sprintOrdinal team =>
    require (team = counter.teamId) "team-scoped counter must use team_id as scope_id"
  | .itemSequence team _ =>
    require (team = counter.teamId) "team-scoped counter must use team_id as scope_id"
  | .visitOrdinal _ => return ()
  | .naturalDecision _ decision =>
    require (decision ∈ naturalOwnerDecisions)
      "counter decision type has no supported natural owner"

/-- A decision that was taken for an entity on a business date. -/
structure NaturalDecisionEvaluation where
  id : Uuid
  teamId : Uuid
  runId : Uuid
  decisionType : DecisionType
  semanticEntityId : Uuid
  businessDate : ℤ
  occurrence : ℕ
  commitId : Uuid
  recordedAt : ℤ
  deriving DecidableEq, Repr

/-- `NaturalDecisionEvaluation.validate`. -/
def NaturalDecisionEvaluation.validate (evaluation : NaturalDecisionEvaluation) : Result Unit := do
  require (evaluation.decisionType ∈ naturalOwnerDecisions)
    "decision type has no supported natural owner"
  requireSafeInteger evaluation.occurrence "occurrence"
  requireSemanticId evaluation.id
    (.evaluation evaluation.teamId evaluation.runId evaluation.decisionType
      evaluation.semanticEntityId evaluation.businessDate)
    "semantic evaluation id"

end JiraSimulator
