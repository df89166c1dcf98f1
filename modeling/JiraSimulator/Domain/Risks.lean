import JiraSimulator.Domain.AuthoritativeSlice
import JiraSimulator.Domain.ScrumBootstrap

/-!
# Risk decisions of one tick

The configured risk rules are evaluated in blueprint order over a working state: each handler reads
the state with the rows that the rules before it wrote.  The records of all rules are merged.
-/

namespace JiraSimulator

open Library Library.Binary64

variable {p : Platform}

/-- The records of one handler, of one decision, or of a whole evaluation. -/
structure RiskRecords (p : Platform) where
  state : ScrumStateWriteSet p := .empty
  activity : List ActivityEventDraft := []
  groundTruth : List GroundTruthRecordDraft := []
  projectionIntents : List ProjectionIntentDraft := []
  counterClaims : List SemanticCounterClaim := []
  naturalDecisionClaims : List EligibleNaturalDecisionClaim := []

/-- `_merge_records`. -/
def RiskRecords.merge (left right : RiskRecords p) : Result (RiskRecords p) := do
  let state ← mergeWriteSets left.state right.state
  return {
    state
    activity := left.activity ++ right.activity
    groundTruth := left.groundTruth ++ right.groundTruth
    projectionIntents := left.projectionIntents ++ right.projectionIntents
    counterClaims := left.counterClaims ++ right.counterClaims
    naturalDecisionClaims := left.naturalDecisionClaims ++ right.naturalDecisionClaims }

/-- The loop of every handler: the records of each element, merged in order. -/
def collectRecords {α : Type} (record : α → Result (RiskRecords p)) (items : List α) :
    Result (RiskRecords p) :=
  items.foldlM (fun records item => do records.merge (← record item)) {}

structure RiskContext (p : Platform) where
  state : LiveTeamState p
  asOf : ℤ
  draws : DrawSource
  rule : RiskRule

structure DecisionEvidence where
  rule : RiskRule
  entityId : Uuid
  occurredAt : ℤ
  factors : List (String × ℚ)
  probability : ℚ
  draw : Option ℚ
  outcome : Bool
  eligiblePeople : List Uuid
  waitDeltaMicroseconds : ℤ
  progressDeltaMicroseconds : ℤ
  cause : String
  jiraIntent : Option ProjectionPayload

structure EvidenceBatch (p : Platform) where
  evidence : DecisionEvidence
  eventType : EventType
  projection : Option ProjectionIntentDraft := none
  state : ScrumStateWriteSet p := .empty
  counterClaims : List SemanticCounterClaim := []
  naturalClaims : List EligibleNaturalDecisionClaim := []

/-! ### Parameters of a rule -/

/-- `root.get(key)`. -/
def RiskRule.parameter (rule : RiskRule) (key : String) : Option JsonScalar :=
  (rule.mechanicalParameters.find? fun entry => entry.1 = key).map (·.2)

def number (rule : RiskRule) (key : String) (default : Option ℚ) : Result ℚ :=
  let failure : PyError := .valueError (key ++ " must be a non-negative number")
  match rule.parameter key, default with
  | some (.int value), _ => if value < 0 then .error failure else .ok (floatOfInt value)
  | some (.float value), _ => if value < 0 then .error failure else .ok value
  | some _, _ => .error failure
  | none, some value => if value < 0 then .error failure else .ok value
  | none, none => .error failure

def text (rule : RiskRule) (key : String) : Result String :=
  match rule.parameter key with
  | some (.str value) =>
    if value = "" then .error (.valueError (key ++ " must be configured")) else .ok value
  | _ => .error (.valueError (key ++ " must be configured"))

/-- `float(value)` of a coefficient. -/
def floatOfScalar (p : Platform) : JsonScalar → Result Double
  | .null => .error (.typeError "float() argument must be a string or a real number, not 'NoneType'")
  | .bool value => .ok (.finite (if value then 1 else 0))
  | .int value =>
    match nearest value with
    | .finite number => .ok (.finite number)
    | _ => .error .overflowError
  | .float value => .ok (.finite value)
  | .str value =>
    match p.floatOfText value with
    | some number => .ok number
    | none => .error (.valueError "could not convert string to float")

/-! ### Queries of the state -/

def openVisits (state : LiveTeamState p) : List StatusVisitState :=
  state.scrum.openVisits

def workOf (state : LiveTeamState p) (workId : Uuid) : Result WorkItemState :=
  next (fun item => item.id = workId) state.scrum.workItems

/-- `_work_visit`: the first open visit of a work item. -/
def workVisit (state : LiveTeamState p) (workId : Uuid) : Result StatusVisitState :=
  next (fun visit => visit.workItemId = workId && visit.lifecycle = .OPEN) state.scrum.statusVisits

def closedVisitCount (state : LiveTeamState p) (workId : Uuid) : ℕ :=
  state.scrum.statusVisits.countP fun visit =>
    visit.workItemId = workId && visit.lifecycle = .CLOSED

/-- The members of the team that carry an activity. -/
def eligiblePeopleForActivity (state : LiveTeamState p) (activity : Option String) :
    Result (List Uuid) :=
  match activity with
  | none => .ok []
  | some activity => do
    let pairs ← state.scrum.memberIdentities.mapM fun identity => do
      let member ← getIndex state.aggregate.blueprint.members identity.blueprintIndex
      return (identity.id, member.carries activity)
    return (pairs.filter (·.2)).map (·.1)

def eligiblePeople (state : LiveTeamState p) (visit : StatusVisitState) : Result (List Uuid) :=
  eligiblePeopleForActivity state visit.activityKey

def routeStep (state : LiveTeamState p) (work : WorkItemState) (statusKey : String) :
    Result WorkflowRouteStep := do
  let route ← routeForIssueType state.aggregate.blueprint work.issueType
  next (fun step => step.statusKey = statusKey) route.steps

/-- The position of the last step with a status, as `{step.status_key: index}` keeps it. -/
def lastPosition (steps : List WorkflowRouteStep) (statusKey : String) : Option ℕ :=
  ((steps.zipIdx.filter fun entry => entry.1.statusKey = statusKey).map (·.2)).getLast?

def requireEarlierStep (state : LiveTeamState p) (work : WorkItemState) (source target : String) :
    Result Unit := do
  let route ← routeForIssueType state.aggregate.blueprint work.issueType
  let failure : PyError :=
    .valueError "review return status must be an earlier configured route step"
  match lastPosition route.steps target with
  | none => .error failure
  | some targetPosition =>
    match lastPosition route.steps source with
    | none => .error .keyError
    | some sourcePosition =>
      if sourcePosition ≤ targetPosition then .error failure else .ok ()

/-! ### Clocks -/

/-- `round(value.total_seconds() * 1_000_000)`. -/
def roundedMicroseconds (duration : ℤ) : ℤ :=
  pyRound (fmul (toDouble ((duration : ℚ) / 1000000)) (floatOfInt 1000000))

def cursor (state : LiveTeamState p) : ℤ :=
  state.aggregate.runtime.simulationTime

/-- `_business_elapsed`: the service time of a visit until an instant. -/
def visitBusinessElapsed (calendar : BusinessCalendar) (visit : StatusVisitState) (finish : ℤ) :
    Result ℤ :=
  if finish ≤ visit.enteredAt then .ok 0
  else do
    let business ← calendar.businessElapsed visit.enteredAt finish
    return max 0 (roundedMicroseconds business - visit.pauseMicroseconds)

def thresholdCrossed (context : RiskContext p) (visit : StatusVisitState) (threshold : ℤ) :
    Result Bool := do
  let calendar ← context.state.calendar
  let before ← visitBusinessElapsed calendar visit (cursor context.state)
  let after ← visitBusinessElapsed calendar visit context.asOf
  return before < threshold && threshold ≤ after

/-- The first workday start of the dates, at `cursor` or later and before `asOf`.  The loop steps to
the next date after each one that it passes. -/
def firstWorkdayStart (calendar : BusinessCalendar) (cursor asOf : ℤ) :
    List ℤ → Result (Option ℤ)
  | [] => .ok none
  | day :: days => do
    match ← calendar.workingInterval day with
    | none => do
      stepDay day
      firstWorkdayStart calendar cursor asOf days
    | some interval =>
      -- a start at the cursor counts, one at the end of the window does not
      if cursor ≤ interval.start ∧ interval.start < asOf then return some interval.start
      else do
        stepDay day
        firstWorkdayStart calendar cursor asOf days

def workdayBoundary (state : LiveTeamState p) (asOf : ℤ) : Result (Option ℤ) :=
  if asOf ≤ cursor state then .ok none
  else do
    let calendar ← state.calendar
    let day ← calendar.businessDate (cursor state)
    let final ← calendar.businessDate (asOf - 1)
    firstWorkdayStart calendar (cursor state) asOf (daysFrom day final)

/-! ### Factors and probability -/

def factorValue (state : LiveTeamState p) (work : Uuid) (kind : FactorKind) (default : ℚ) : ℚ :=
  match (state.scrum.workItemFactors.filter fun item =>
      item.workItemId = work && item.kind = kind).getLast? with
  | some factor => factor.value
  | none => default

def factorsOf (state : LiveTeamState p) (work : WorkItemState) (visit : StatusVisitState) :
    List (String × ℚ) :=
  let quality := factorValue state work.id .DESCRIPTION_QUALITY 1
  let complexity := factorValue state work.id .LATENT_COMPLEXITY 0
  -- the first closed visit is no rework, and the subtraction stops at zero
  let priorRework := closedVisitCount state work.id - 1
  let size := min 1 (toDouble ((work.storyPoints : ℚ) / 13))
  [("size", size), ("story_points", size), ("poor_description", fsub 1 quality),
    ("complexity", complexity), ("dependency", if visit.pauseMicroseconds ≠ 0 then 1 else 0),
    ("prior_rework", min 1 (toDouble ((priorRework : ℚ) / 3))),
    ("availability", if visit.memberId.isSome then 1 else 0)]

def memberFactors (state : LiveTeamState p) (memberId : Uuid) : Result (List (String × ℚ)) := do
  let identity ← next (fun item => item.id = memberId) state.scrum.memberIdentities
  let member ← getIndex state.aggregate.blueprint.members identity.blueprintIndex
  let owned := state.scrum.statusVisits.countP fun visit =>
    visit.memberId = some memberId && visit.lifecycle = .OPEN
  let ratio := min 1 (toDouble ((owned : ℚ) / member.maxConcurrentWip))
  return [("availability", 1), ("utilization", ratio), ("wip_ratio", ratio)]

/-- `factors.get(key, 0.0)`. -/
def factor (factors : List (String × ℚ)) (key : String) : ℚ :=
  match factors.find? (fun entry => entry.1 = key) with
  | some entry => entry.2
  | none => 0

/-- `math.exp(value)`, which raises only for a finite value. -/
def mathExp (p : Platform) : Double → Result Double
  | .finite value =>
    match p.exp value with
    | some power => .ok (.finite power)
    | none => .error .overflowError
  | .infinity true => .ok (.finite 0)
  | .infinity false => .ok (.infinity false)
  | .nan => .ok .nan

/-- `a / b` of two doubles. -/
def floatDiv (a b : Double) : Result Double :=
  if b = .finite 0 then .error .zeroDivisionError else .ok (a.div b)

/-- `logit` of a base strictly between zero and one. -/
def logitOf (p : Platform) (rule : RiskRule) (factors : List (String × ℚ)) : Result Double := do
  let base := rule.baseProbability
  let odds ← fdiv base (fsub 1 base)
  let terms ← rule.coefficients.mapM fun entry => do
    let value ← floatOfScalar p entry.2
    return value.mul (.finite (factor factors entry.1))
  return (Double.finite (p.log odds)).add (Double.sum terms)

/-- The logistic probability of a base strictly between zero and one. -/
def logisticProbability (p : Platform) (rule : RiskRule) (factors : List (String × ℚ)) :
    Result Double := do
  let logit ← logitOf p rule factors
  let power ← mathExp p logit.neg
  floatDiv (.finite 1) ((Double.finite 1).add power)

/-- `min(clamp.max, max(clamp.min, probability))`; `max` and `min` keep their first argument when
the second does not compare. -/
def clampProbability (clamp : ProbabilityClamp) : Double → ℚ
  | .finite probability => min clamp.max (max clamp.min probability)
  | .infinity true => min clamp.max clamp.min
  | .infinity false => clamp.max
  | .nan => min clamp.max clamp.min

def probabilityOf (p : Platform) (rule : RiskRule) (factors : List (String × ℚ)) : Result ℚ := do
  let probability ←
    if rule.baseProbability ≤ 0 then pure (.finite 0)
    else if 1 ≤ rule.baseProbability then pure (.finite 1)
    else logisticProbability p rule factors
  return clampProbability rule.clamp probability

/-! ### Records of a decision -/

def aggregateVersion (state : LiveTeamState p) : ℕ :=
  state.aggregate.runtime.version + 1

def riskKey (state : LiveTeamState p) (evidence : DecisionEvidence) : SemanticKey :=
  .risk state.aggregate.runtime.teamId state.aggregate.runtime.runId
    state.aggregate.runtime.version evidence.rule.key evidence.entityId evidence.occurredAt

def evidencePayload (state : LiveTeamState p) (evidence : DecisionEvidence) :
    RiskEvaluationRecord :=
  let risks := state.aggregate.blueprint.risks
  { rule := evidence.rule
    algorithm := risks.algorithmVersion
    profile := risks.profileName
    profileVersion := risks.profileVersion
    factors := evidence.factors
    probability := evidence.probability
    draw := evidence.draw
    outcome := evidence.outcome
    eligiblePeople := evidence.eligiblePeople
    waitDeltaMicroseconds := evidence.waitDeltaMicroseconds
    progressDeltaMicroseconds := evidence.progressDeltaMicroseconds
    cause := evidence.cause
    jiraIntent := evidence.jiraIntent }

def evidenceRecords (state : LiveTeamState p) (batch : EvidenceBatch p) : RiskRecords p :=
  let evidence := batch.evidence
  let key := riskKey state evidence
  let activity : ActivityEventDraft := {
    semanticKey := key
    occurredAt := evidence.occurredAt
    payload := .risk evidence.rule.key evidence.outcome evidence.cause
    eventType := batch.eventType
    aggregateType := .RISK
    aggregateId := evidence.entityId
    aggregateVersion := aggregateVersion state }
  { state := batch.state
    -- an evaluation without an outcome is recorded in the ground truth only
    activity := if batch.eventType = .RISK_EVALUATED then [] else [activity]
    groundTruth := [{
      semanticKey := key
      occurredAt := evidence.occurredAt
      payload := .riskEvaluation (evidencePayload state evidence) }]
    projectionIntents := batch.projection.toList
    counterClaims := batch.counterClaims
    naturalDecisionClaims := batch.naturalClaims }

/-- `_transition_intent`: the Jira transition of a risk decision. -/
def transitionIntent (context : RiskContext p) (workId : Uuid) (statusKey : String) :
    Result ProjectionIntentDraft := do
  let state := context.state
  let status ← next (fun item => item.key = statusKey) state.aggregate.blueprint.workflow.statuses
  return {
    semanticKey := .riskTransition state.aggregate.runtime.runId workId statusKey context.asOf
    occurredAt := context.asOf
    payload := .transitionIssue workId status.jiraName
    dependsOn := []
    operationType := .TRANSITION_ISSUE
    aggregateId := workId
    aggregateVersion := aggregateVersion state }

/-- The intent of an outcome that happens. -/
def outcomeIntent (context : RiskContext p) (workId : Uuid) (statusKey : String)
    (outcome : Bool) : Result (Option ProjectionIntentDraft) := do
  if outcome then return some (← transitionIntent context workId statusKey) else return none

/-- `_natural_claim`: the next occurrence of a natural decision on a date. -/
def naturalClaim (state : LiveTeamState p) (entityId : Uuid) (decisionType : DecisionType)
    (businessDate : ℤ) : Result (SemanticCounterClaim × EligibleNaturalDecisionClaim) := do
  let scope := SemanticCounterScope.naturalDecision entityId decisionType
  let counter ← next (fun item => item.scope = scope) state.scrum.semanticCounters
  let decision ← DecisionOccurrence.create entityId decisionType counter.nextValue
  let claim ← SemanticCounterClaim.one scope counter.nextValue
  let eligible ← validated EligibleNaturalDecisionClaim.validate { decision, businessDate }
  return (claim, eligible)

/-! ### Long stays -/

def longStayRecord (context : RiskContext p) (visit : StatusVisitState) :
    Result (RiskRecords p) := do
  let sample ← getItem (·.visitId) context.state.scrum.statusVisitSamples visit.id
  let multiplier ← number context.rule "threshold_multiplier" (some 1)
  let threshold := pyRound
    (fmul (fmul sample.dwellSampledHours multiplier) (floatOfInt microsecondsPerHour))
  if ← thresholdCrossed context visit threshold then
    let people ← eligiblePeople context.state visit
    return evidenceRecords context.state {
      evidence := {
        rule := context.rule, entityId := visit.workItemId, occurredAt := context.asOf
        factors := [], probability := 1, draw := none, outcome := true, eligiblePeople := people
        waitDeltaMicroseconds := 0, progressDeltaMicroseconds := 0
        cause := "sampled dwell threshold crossed", jiraIntent := none }
      eventType := .LONG_STAY_DETECTED }
  else
    return {}

def longStay (context : RiskContext p) : Result (RiskRecords p) :=
  if context.rule.trigger ≠ "STATUS_AGED" then .ok {}
  else collectRecords (longStayRecord context) (openVisits context.state)

/-! ### Review rejections -/

/-- `SUPPORTED_REVIEW_STATUSES`. -/
def supportedReviewStatuses : List String := ["CODE_REVIEW", "QA", "PO_REVIEW"]

def reviewDue (state : LiveTeamState p) (asOf : ℤ) (visit : StatusVisitState) : Bool :=
  visit.lifecycle = .CLOSED && visit.statusKey ∈ supportedReviewStatuses &&
    visit.closedAt = some (cursor state) && cursor state ≤ asOf

structure ReviewDecision where
  evidence : DecisionEvidence
  target : String
  projection : Option ProjectionIntentDraft

def reviewDecision (context : RiskContext p) (work : WorkItemState) (review : StatusVisitState) :
    Result ReviewDecision := do
  let state := context.state
  let draw := drawUnit context.draws review.id .RISK_REVIEW_REJECTION_OUTCOME
  let factors := factorsOf state work review
  let probability ← probabilityOf p context.rule factors
  -- the draw is below the probability
  let outcome : Bool := draw < probability
  let target ← text context.rule "return_status"
  requireEarlierStep state work review.statusKey target
  let step ← routeStep state work target
  let people ← eligiblePeopleForActivity state step.requiredActivity
  let projection ← outcomeIntent context work.id target outcome
  return {
    evidence := {
      rule := context.rule, entityId := review.id, occurredAt := context.asOf, factors, probability
      draw := some draw, outcome, eligiblePeople := people
      waitDeltaMicroseconds := 0, progressDeltaMicroseconds := 0
      cause := "configured review rejection decision"
      jiraIntent := projection.map (·.payload) }
    target, projection }

/-- The required work of a new visit: the sampled touch hours in rounded microseconds. -/
def sampledTouchMicroseconds (blueprint : ResolvedTeamBlueprint) (work : WorkItemState)
    (statusKey : String) (draw : UniformDraw) : Result ℤ := do
  let entry ← timingCell blueprint work statusKey
  let bounds ← touchBounds entry
  let hours ← sampleTouch bounds draw.unitValue
  return hoursToRoundedMicroseconds hours

/-- The visit that a work item enters at a step, with its sample. -/
def newSampledVisit (p : Platform) (blueprint : ResolvedTeamBlueprint) (work : WorkItemState)
    (step : WorkflowRouteStep) (ordinal : ℕ) (enteredAt : ℤ) (draws : DrawSource) :
    Result (StatusVisitState × StatusVisitSample) := do
  let id ← visitRngId work.id ordinal
  let touchDraw := draws (.first id .STATUS_TOUCH)
  let required ← sampledTouchMicroseconds blueprint work step.statusKey touchDraw
  let visit ← validated StatusVisitState.validate
    (enteredVisit id work ordinal step none enteredAt required)
  let input : StatusVisitSampleInput :=
    { blueprint, workItem := work, visit, dwellDraw := draws (.first id .STATUS_DWELL), touchDraw }
  input.validate p
  let sample ← StatusVisitSample.create p input
  return (visit, sample)

/-- The counter of the visits of a work item. -/
def visitCounter (state : LiveTeamState p) (workId : Uuid) : Result SemanticCounter :=
  next (fun item => item.scope = .visitOrdinal workId) state.scrum.semanticCounters

def returnedVisit (context : RiskContext p) (work : WorkItemState) :
    Result (StatusVisitState × StatusVisitSample × SemanticCounterClaim) := do
  let state := context.state
  let counter ← visitCounter state work.id
  let step ← routeStep state work work.currentStatusKey
  let (visit, sample) ← newSampledVisit p state.aggregate.blueprint work step counter.nextValue
    context.asOf context.draws
  let claim ← SemanticCounterClaim.one counter.scope counter.nextValue
  return (visit, sample, claim)

def reviewRecords (context : RiskContext p) (work : WorkItemState) (review : StatusVisitState) :
    Result (RiskRecords p) := do
  let decision ← reviewDecision context work review
  if decision.evidence.outcome then
    -- also a finished or cancelled item becomes active again
    let returnedWork ← validated WorkItemState.validate
      { work with
        lifecycle := .ACTIVE, currentStatusKey := decision.target, updatedAt := context.asOf }
    let (visit, sample, claim) ← returnedVisit context returnedWork
    let riskState ← ScrumStateWriteSet.create
      { workItems := [returnedWork], statusVisits := [visit], statusVisitSamples := [sample] }
    return evidenceRecords context.state {
      evidence := decision.evidence, eventType := .REVIEW_REJECTED
      projection := decision.projection, state := riskState, counterClaims := [claim] }
  else
    return evidenceRecords context.state
      { evidence := decision.evidence, eventType := .RISK_EVALUATED }

/-- The records of one review visit that is due, decided when it was closed. -/
def dueReviewRecords (context : RiskContext p) (review : StatusVisitState) :
    Result (RiskRecords p) := do
  let work ← workOf context.state review.workItemId
  reviewRecords { context with asOf := cursor context.state } work review

def reviewRejection (context : RiskContext p) : Result (RiskRecords p) :=
  if context.rule.trigger ≠ "STATUS_EXITED" then .ok {}
  else
    collectRecords (dueReviewRecords context)
      (context.state.scrum.statusVisits.filter (reviewDue context.state context.asOf))

/-! ### Cancellations -/

structure CancellationDecision where
  evidence : DecisionEvidence
  target : String
  projection : Option ProjectionIntentDraft
  claim : SemanticCounterClaim
  eligible : EligibleNaturalDecisionClaim
  visit : StatusVisitState

def cancellationDecision (context : RiskContext p) (work : WorkItemState) :
    Result CancellationDecision := do
  let state := context.state
  let boundary := context.asOf
  -- the UTC date of the boundary
  let (claim, eligible) ← naturalClaim state work.id .RISK_CANCELLATION_OUTCOME (dateOf boundary)
  let draw := (context.draws eligible.decision).unitValue
  let visit ← workVisit state work.id
  let factors := factorsOf state work visit
  let probability ← probabilityOf p context.rule factors
  let outcome : Bool := draw < probability
  let target ← text context.rule "target_status"
  let projection ← outcomeIntent context work.id target outcome
  let people ← eligiblePeople state visit
  return {
    evidence := {
      rule := context.rule, entityId := work.id, occurredAt := boundary, factors, probability
      draw := some draw, outcome, eligiblePeople := people
      waitDeltaMicroseconds := 0, progressDeltaMicroseconds := 0
      cause := "workday cancellation decision"
      jiraIntent := projection.map (·.payload) }
    target, projection, claim, eligible, visit }

def cancelledState (context : RiskContext p) (work : WorkItemState)
    (decision : CancellationDecision) : Result (ScrumStateWriteSet p) := do
  let cancelled ← validated WorkItemState.validate
    { work with
      lifecycle := .CANCELLED, currentStatusKey := decision.target, updatedAt := context.asOf }
  let closed ← validated StatusVisitState.validate
    { decision.visit with
      lifecycle := .CLOSED, memberId := none, closedAt := some context.asOf
      -- the work that is left counts as done
      elapsedWorkMicroseconds := decision.visit.requiredWorkMicroseconds
      remainingWorkMicroseconds := 0 }
  ScrumStateWriteSet.create { workItems := [cancelled], statusVisits := [closed] }

def cancellationRecords (context : RiskContext p) (work : WorkItemState) :
    Result (RiskRecords p) := do
  let decision ← cancellationDecision context work
  if decision.evidence.outcome then
    let riskState ← cancelledState context work decision
    return evidenceRecords context.state {
      evidence := decision.evidence, eventType := .ISSUE_CANCELLED
      projection := decision.projection, state := riskState
      counterClaims := [decision.claim], naturalClaims := [decision.eligible] }
  else
    return evidenceRecords context.state {
      evidence := decision.evidence, eventType := .RISK_EVALUATED
      counterClaims := [decision.claim], naturalClaims := [decision.eligible] }

/-- The active work items of a state. -/
def activeWork (state : LiveTeamState p) : List WorkItemState :=
  state.scrum.workItems.filter fun work => work.lifecycle = .ACTIVE

def cancellation (context : RiskContext p) : Result (RiskRecords p) := do
  match ← workdayBoundary context.state context.asOf with
  | none => return {}
  | some boundary =>
    -- the boundary is looked for before the trigger is read
    if context.rule.trigger ≠ "WORKDAY_STARTED" then return {}
    else
      collectRecords (cancellationRecords { context with asOf := boundary })
        (activeWork context.state)

/-! ### External dependencies -/

def pausedVisit (visit : StatusVisitState) (delta : ℤ) : Result StatusVisitState :=
  validated StatusVisitState.validate
    { visit with
      memberId := none
      queueMicroseconds := visit.queueMicroseconds + delta
      pauseMicroseconds := visit.pauseMicroseconds + delta }

/-- `_intrinsically_paused`. -/
def intrinsicallyPaused (state : LiveTeamState p) (visit : StatusVisitState) : Result Bool := do
  let status ← next (fun item => item.key = visit.statusKey)
    state.aggregate.blueprint.workflow.statuses
  return status.pausesServiceClock

/-- The pause that fits between the cursor and the evaluation. -/
def pauseWithin (context : RiskContext p) (remaining : ℤ) : ℤ :=
  min remaining (roundedMicroseconds (context.asOf - cursor context.state))

structure DependencyDecision where
  evidence : DecisionEvidence
  delta : ℤ

def dependencyDecision (context : RiskContext p) (visit : StatusVisitState) (remaining : ℤ) :
    Result DependencyDecision := do
  let state := context.state
  let draw := drawUnit context.draws visit.id .RISK_EXTERNAL_DEPENDENCY_OUTCOME
  let work ← workOf state visit.workItemId
  let factors := factorsOf state work visit
  let probability ← probabilityOf p context.rule factors
  let outcome : Bool := draw < probability
  let delta := if outcome then pauseWithin context remaining else 0
  let people ← eligiblePeople state visit
  return {
    evidence := {
      rule := context.rule, entityId := visit.id, occurredAt := cursor state, factors, probability
      draw := some draw, outcome, eligiblePeople := people
      waitDeltaMicroseconds := delta, progressDeltaMicroseconds := 0
      cause := "external dependency paused visit progress", jiraIntent := none }
    delta }

def dependencyEntry (context : RiskContext p) (visit : StatusVisitState) (remaining : ℤ) :
    Result (RiskRecords p) := do
  let decision ← dependencyDecision context visit remaining
  if decision.evidence.outcome ∧ decision.delta ≠ 0 then
    let blocked ← pausedVisit visit decision.delta
    let riskState ← ScrumStateWriteSet.create { statusVisits := [blocked] }
    return evidenceRecords context.state {
      evidence := decision.evidence, eventType := .EXTERNAL_DEPENDENCY_STARTED
      state := riskState }
  else
    return evidenceRecords context.state
      { evidence := decision.evidence, eventType := .RISK_EVALUATED }

def dependencyContinuation (context : RiskContext p) (visit : StatusVisitState)
    (remaining : ℤ) : Result (RiskRecords p) :=
  let delta := pauseWithin context remaining
  if delta = 0 then .ok {}
  else do
    let blocked ← pausedVisit visit delta
    let work ← workOf context.state visit.workItemId
    let people ← eligiblePeople context.state visit
    let riskState ← ScrumStateWriteSet.create { statusVisits := [blocked] }
    return evidenceRecords context.state {
      evidence := {
        rule := context.rule, entityId := visit.id, occurredAt := cursor context.state
        factors := factorsOf context.state work visit, probability := 1, draw := none
        outcome := true, eligiblePeople := people, waitDeltaMicroseconds := delta
        progressDeltaMicroseconds := 0, cause := "external dependency pause continuation"
        jiraIntent := none }
      eventType := .RISK_EVALUATED, state := riskState }

def dependencyRecords (context : RiskContext p) (visit : StatusVisitState) :
    Result (RiskRecords p) := do
  if ← intrinsicallyPaused context.state visit then return {}
  else
    let waitHours ← number context.rule "wait_hours" none
    let remaining := max 0 (hoursToRoundedMicroseconds waitHours - visit.pauseMicroseconds)
    if remaining = 0 ∨ context.asOf ≤ cursor context.state then return {}
    -- a pause that has begun goes on, without a draw
    else if visit.pauseMicroseconds ≠ 0 then dependencyContinuation context visit remaining
    -- a visit draws once, in the tick that starts where it was entered
    else if visit.enteredAt ≠ cursor context.state then return {}
    else dependencyEntry context visit remaining

def externalDependency (context : RiskContext p) : Result (RiskRecords p) :=
  if context.rule.trigger ≠ "STATUS_ENTERED" then .ok {}
  else collectRecords (dependencyRecords context) (openVisits context.state)

/-! ### Member unavailability -/

/-- `_duration_days`: the configured days, or one to three days by a draw. -/
def durationDays (context : RiskContext p) (memberId : Uuid) (occurrence : ℕ) : Result ℤ :=
  match context.rule.parameter "duration_days" with
  | some (.int configured) => if 0 < configured then .ok configured else drawnDays
  | _ => drawnDays
where
  drawnDays : Result ℤ := do
    let decision ← DecisionOccurrence.create memberId .RISK_MEMBER_UNAVAILABLE_DURATION occurrence
    return 1 + min 2 (pyInt (fmul (context.draws decision).unitValue 3))

def unavailabilityOverlay (context : RiskContext p) (memberId : Uuid) (duration : ℤ) :
    Result MemberAvailabilityOverlay := do
  let runtime := context.state.aggregate.runtime
  let boundary := context.asOf
  let endsAt ← addDuration boundary (duration * microsecondsPerDay)
  validated MemberAvailabilityOverlay.validate {
    id := .riskOverlay runtime.teamId runtime.runId memberId (dateOf boundary)
    teamId := runtime.teamId
    runId := runtime.runId
    memberId
    source := "RISK"
    startsAt := boundary
    endsAt
    availabilityFraction := 0
    dailyCapacityCeilingMicroseconds := some 0
    reason := "Simulated teammate unavailability"
    provenance := {
      risk := context.rule.key
      profile := context.state.aggregate.blueprint.risks.profileName
      profileVersion := context.state.aggregate.blueprint.risks.profileVersion }
    createdAt := boundary }

structure UnavailabilityDecision where
  evidence : DecisionEvidence
  overlay : Option MemberAvailabilityOverlay
  claim : SemanticCounterClaim
  eligible : EligibleNaturalDecisionClaim

def unavailabilityDecision (context : RiskContext p) (memberId : Uuid) :
    Result UnavailabilityDecision := do
  let state := context.state
  let boundary := context.asOf
  let (claim, eligible) ←
    -- the UTC date of the boundary
    naturalClaim state memberId .RISK_MEMBER_UNAVAILABLE_OUTCOME (dateOf boundary)
  let draw := (context.draws eligible.decision).unitValue
  let factors ← memberFactors state memberId
  let probability ← probabilityOf p context.rule factors
  let outcome : Bool := draw < probability
  -- the duration is drawn also when the outcome is false
  let duration ← durationDays context memberId eligible.decision.occurrence
  let overlay ←
    if outcome then some <$> unavailabilityOverlay context memberId duration else pure none
  return {
    evidence := {
      rule := context.rule, entityId := memberId, occurredAt := boundary, factors, probability
      draw := some draw, outcome, eligiblePeople := [memberId]
      waitDeltaMicroseconds := 0, progressDeltaMicroseconds := 0
      cause := "member availability decision", jiraIntent := none }
    overlay, claim, eligible }

def unavailabilityRecords (context : RiskContext p) (memberId : Uuid) :
    Result (RiskRecords p) := do
  let decision ← unavailabilityDecision context memberId
  let riskState ←
    ScrumStateWriteSet.create { memberAvailabilityOverlays := decision.overlay.toList }
  return evidenceRecords context.state {
    evidence := decision.evidence
    eventType := if decision.evidence.outcome then .MEMBER_BECAME_UNAVAILABLE else .RISK_EVALUATED
    state := riskState
    counterClaims := [decision.claim], naturalClaims := [decision.eligible] }

/-- The owners of the open visits, in the order of their identifiers. -/
def visitOwners (state : LiveTeamState p) : List Uuid :=
  Ordering.sortOn (fun id => [(p.uuidInt id : ℤ)])
    ((openVisits state).filterMap (·.memberId)).dedup

def memberUnavailability (context : RiskContext p) : Result (RiskRecords p) := do
  match ← workdayBoundary context.state context.asOf with
  | none => return {}
  | some boundary =>
    if context.rule.trigger ≠ "WORKDAY_STARTED" then return {}
    else
      collectRecords (unavailabilityRecords { context with asOf := boundary })
        (visitOwners context.state)

/-! ### Evaluation -/

/-- The handler of a rule key. -/
def handlerFor (key : String) : Option (RiskContext p → Result (RiskRecords p)) :=
  if key = "LONG_STAY" then some longStay
  else if key = "REVIEW_REJECTION" then some reviewRejection
  else if key = "CANCELLATION" then some cancellation
  else if key = "EXTERNAL_DEPENDENCY" then some externalDependency
  else if key = "MEMBER_UNAVAILABLE" then some memberUnavailability
  else none

/-- The working state and the records after the rules evaluated so far. -/
structure RiskProgress (p : Platform) where
  working : LiveTeamState p
  records : RiskRecords p

/-- One step of the loop of `evaluate_due_risks`. -/
def applyRule (asOf : ℤ) (draws : DrawSource) (progress : RiskProgress p) (rule : RiskRule) :
    Result (RiskProgress p) :=
  match handlerFor rule.key with
  | none => .ok progress
  | some handler => do
    let outcome ← handler { state := progress.working, asOf, draws, rule }
    let records ← progress.records.merge outcome
    let working ← progress.working.withWriteSet outcome.state
    return { working, records }

/-- The loop of `evaluate_due_risks` over a list of rules. -/
def applyRules (asOf : ℤ) (draws : DrawSource) (progress : RiskProgress p)
    (rules : List RiskRule) : Result (RiskProgress p) :=
  rules.foldlM (applyRule asOf draws) progress

/-- `evaluate_due_risks`. -/
def evaluateDueRisks (state : LiveTeamState p) (asOf : ℤ) (draws : DrawSource) :
    Result (RiskRecords p) := do
  let progress ← applyRules asOf draws { working := state, records := {} }
    state.aggregate.blueprint.risks.rules
  return progress.records

end JiraSimulator
