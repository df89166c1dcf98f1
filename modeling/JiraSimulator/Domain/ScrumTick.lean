import JiraSimulator.Domain.Risks
import JiraSimulator.Domain.SprintLifecycle

/-!
# One tick of a Scrum team

A tick crosses a sprint boundary, or evaluates the due risks and advances the open visits over the
business segments up to the first completion.  Labor is allocated segment by segment: owners are
kept or assigned, and each owner credits labor within the segment and the day.
-/

namespace JiraSimulator

open Library

variable {p : Platform}

structure TickRequest where
  teamId : Uuid
  endsAt : ℤ
  recordedAt : ℤ

structure BusinessSegment where
  businessDate : ℤ
  start : ℤ
  finish : ℤ
  deriving DecidableEq, Repr

def BusinessSegment.microseconds (segment : BusinessSegment) : ℤ :=
  segment.finish - segment.start

structure QueueCause where
  visitId : Uuid
  reason : QueueReason
  deltaMicroseconds : ℤ
  deriving DecidableEq, Repr

structure TickResult where
  endsAt : ℤ
  visits : List StatusVisitState
  workItems : List WorkItemState
  samples : List StatusVisitSample
  consumption : List MemberBusinessDateConsumption
  claims : List SemanticCounterClaim
  queueCauses : List QueueCause

structure AssignedVisit where
  visit : StatusVisitState
  deniedReason : Option QueueReason

/-- The labor consumed by member and business date, in insertion order. -/
abbrev Consumption := List ((Uuid × ℤ) × ℤ)

/-- `consumption.get(key, 0)`. -/
def Consumption.get (consumption : Consumption) (key : Uuid × ℤ) : ℤ :=
  match Keyed.lookup Prod.fst consumption key with
  | some entry => entry.2
  | none => 0

/-- `consumption[key] = consumption.get(key, 0) + credited`. -/
def Consumption.credit (consumption : Consumption) (key : Uuid × ℤ) (credited : ℤ) :
    Consumption :=
  Keyed.assign Prod.fst consumption (key, consumption.get key + credited)

/-- `_consumption_map`. -/
def consumptionMap (state : LiveTeamState p) : Consumption :=
  state.scrum.memberBusinessDateConsumption.map fun row => (row.key, row.consumedLaborMicroseconds)

/-! ### Requests and the end of a tick -/

def validateRequest (state : LiveTeamState p) (request : TickRequest) : Result Unit := do
  require (request.teamId = state.aggregate.runtime.teamId)
    "tick request must identify the loaded team"
  require (state.aggregate.runtime.simulationTime ≤ request.endsAt)
    "tick end must not precede persisted simulation time"

/-- The first workday start strictly between two instants. -/
def workdayStartBetween (calendar : BusinessCalendar) (cursor endsAt : ℤ) :
    List ℤ → Result ℤ
  | [] => .ok endsAt
  | day :: days => do
    match ← calendar.workingInterval day with
    | none => do
      stepDay day
      workdayStartBetween calendar cursor endsAt days
    | some interval =>
      -- a start at the cursor was met by the tick before
      if cursor < interval.start ∧ interval.start < endsAt then return interval.start
      else do
        stepDay day
        workdayStartBetween calendar cursor endsAt days

def nextWorkdayRiskBoundary (state : LiveTeamState p) (endsAt : ℤ) : Result ℤ :=
  let hasTrigger :=
    state.aggregate.blueprint.risks.rules.any fun rule => rule.trigger = "WORKDAY_STARTED"
  let hasActiveWork := state.scrum.workItems.any fun work => work.lifecycle = .ACTIVE
  if !hasTrigger || !hasActiveWork then .ok endsAt
  else do
    let calendar ← state.calendar
    let day ← calendar.businessDate (cursor state)
    let final ← calendar.businessDate endsAt
    workdayStartBetween calendar (cursor state) endsAt (daysFrom day final)

def effectiveEnd (state : LiveTeamState p) (requestedEnd : ℤ) : Result ℤ :=
  let planned := state.scrum.sprints.find? fun sprint =>
    sprint.lifecycle = .PLANNED && cursor state < sprint.plannedStartAt
  let bounded :=
    match planned with
    | some sprint => min requestedEnd sprint.plannedStartAt
    | none =>
      -- the first active sprint in the order of the rows
      match state.scrum.activeSprints with
      | [] => requestedEnd
      | sprint :: _ => min requestedEnd sprint.plannedEndAt
  -- a boundary that has passed leaves the cursor itself
  nextWorkdayRiskBoundary state (max (cursor state) bounded)

/-! ### Business segments -/

/-- The instants at which an availability can change strictly inside an interval, with its ends. -/
def availabilityBoundaries (state : LiveTeamState p) (startsAt endsAt : ℤ) : List ℤ :=
  let configured := state.aggregate.blueprint.members.flatMap fun member =>
    member.availability.flatMap fun interval => [interval.startsAt, interval.endsAt]
  let overlays := state.scrum.memberAvailabilityOverlays.flatMap fun overlay =>
    [overlay.startsAt, overlay.endsAt]
  let inside := (configured ++ overlays).filter fun instant => startsAt < instant && instant < endsAt
  (startsAt :: endsAt :: inside).dedup.insertionSort (· ≤ ·)

/-- The segments of one day between consecutive boundaries. -/
def daySegments (state : LiveTeamState p) (calendar : BusinessCalendar) (startsAt endsAt day : ℤ) :
    Result (List BusinessSegment) := do
  match ← calendar.workingInterval day with
  | none => return []
  | some working =>
    let start := max startsAt working.start
    let finish := min endsAt working.finish
    if start < finish then
      let boundaries := availabilityBoundaries state start finish
      return (boundaries.zip boundaries.tail).map fun pair =>
        { businessDate := day, start := pair.1, finish := pair.2 }
    else
      return []

/-- The loop steps to the date after the last one, also where there is none. -/
def businessSegments (state : LiveTeamState p) (calendar : BusinessCalendar)
    (startsAt endsAt : ℤ) : Result (List BusinessSegment) :=
  if startsAt = endsAt then .ok []
  else do
    let firstDay ← calendar.businessDate startsAt
    let finalDay ← calendar.businessDate (endsAt - 1)
    let segments ← (daysFrom firstDay finalDay).mapM (daySegments state calendar startsAt endsAt)
    -- the loop adds a day also after the last date
    Outcome.check (¬ (firstDay ≤ finalDay ∧ finalDay = maxDate)) .overflowError
    return segments.flatten

/-! ### Availability and capacity -/

/-- Does the interval cover the start of the segment? -/
def activeIn (startsAt endsAt : ℤ) (segment : BusinessSegment) : Bool :=
  startsAt ≤ segment.start && segment.start < endsAt

def memberOverlays (state : LiveTeamState p) (memberId : Uuid) : List MemberAvailabilityOverlay :=
  state.scrum.memberAvailabilityOverlays.filter fun overlay => overlay.memberId = memberId

/-- The configured intervals and the overlays of a member that cover the start of a segment. -/
def activeFractions (state : LiveTeamState p) (member : MemberBlueprint) (memberId : Uuid)
    (segment : BusinessSegment) : List ℚ :=
  (member.availability.filter fun interval => activeIn interval.startsAt interval.endsAt segment).map
      (·.availabilityFraction) ++
    ((memberOverlays state memberId).filter fun overlay =>
      activeIn overlay.startsAt overlay.endsAt segment).map (·.availabilityFraction)

/-- The blueprint of a member. -/
def memberBlueprint (state : LiveTeamState p) (identity : MemberIdentity) :
    Result MemberBlueprint :=
  getIndex state.aggregate.blueprint.members identity.blueprintIndex

def effectiveFraction (state : LiveTeamState p) (identity : MemberIdentity)
    (segment : BusinessSegment) : Result ℚ := do
  let member ← memberBlueprint state identity
  return (activeFractions state member identity.id segment).foldl min 1

def availableMicroseconds (state : LiveTeamState p) (identity : MemberIdentity)
    (segment : BusinessSegment) : Result ℤ := do
  let fraction ← effectiveFraction state identity segment
  return pyRound (fmul (floatOfInt segment.microseconds) fraction)

/-- The daily ceilings that apply in a segment besides the daily capacity itself. -/
def activeCeilings (state : LiveTeamState p) (member : MemberBlueprint) (memberId : Uuid)
    (segment : BusinessSegment) : List ℤ :=
  (member.availability.filter fun interval => activeIn interval.startsAt interval.endsAt segment).map
      (fun interval => hoursToRoundedMicroseconds interval.dailyCapacityHoursOverride) ++
    ((memberOverlays state memberId).filter fun overlay =>
      activeIn overlay.startsAt overlay.endsAt segment).filterMap
      (·.dailyCapacityCeilingMicroseconds)

def dailyCeiling (state : LiveTeamState p) (identity : MemberIdentity)
    (segment : BusinessSegment) : Result ℤ := do
  let member ← memberBlueprint state identity
  let ceiling := (activeCeilings state member identity.id segment).foldl min
    (hoursToRoundedMicroseconds member.dailyCapacityHours)
  let fraction ← effectiveFraction state identity segment
  return pyRound (fmul (floatOfInt ceiling) fraction)

def remainingCapacity (state : LiveTeamState p) (identity : MemberIdentity)
    (segment : BusinessSegment) (consumption : Consumption) : Result ℤ := do
  let available ← availableMicroseconds state identity segment
  let ceiling ← dailyCeiling state identity segment
  return max 0 (min available (ceiling - consumption.get (identity.id, segment.businessDate)))

structure Capacity where
  microseconds : ℤ
  limitingConstraint : QueueReason

def segmentCapacity (state : LiveTeamState p) (identity : MemberIdentity)
    (segment : BusinessSegment) (starting consumption : Consumption) : Result Capacity := do
  let key := (identity.id, segment.businessDate)
  let consumed := consumption.get key
  let used := consumed - starting.get key
  let available ← availableMicroseconds state identity segment
  let ceiling ← dailyCeiling state identity segment
  let segmentRemaining := max 0 (available - used)
  let dailyRemaining := max 0 (ceiling - consumed)
  if segmentRemaining ≤ dailyRemaining then
    return { microseconds := segmentRemaining
             -- a member that already works in this segment is contended for
             limitingConstraint := if used ≠ 0 then .CONTENTION else .UNAVAILABLE }
  else
    return { microseconds := dailyRemaining, limitingConstraint := .DAILY_CAPACITY }

/-! ### Owners -/

/-- `_proficiency`: the proficiency of a member in the activity of a visit. -/
def proficiency (member : MemberBlueprint) (activity : Option String) : Option ℚ :=
  (member.responsibilities.find? fun responsibility =>
    some responsibility.activity = activity).map (·.proficiency)

/-- `_can_retain`; `retained` lists the owners kept so far, once for each visit. -/
def canRetain (state : LiveTeamState p) (identity : MemberIdentity) (visit : StatusVisitState)
    (segment : BusinessSegment) (retained : List Uuid) : Result Bool := do
  let member ← memberBlueprint state identity
  let available ← availableMicroseconds state identity segment
  return (proficiency member visit.activityKey).isSome && 0 < available &&
    retained.count identity.id < member.maxConcurrentWip

/-- The owners kept so far, and the visits with the owners that they keep. -/
structure Retention where
  retained : List Uuid
  visits : List StatusVisitState

/-- The first loop of `_assign_owners`. -/
def retainOwner (state : LiveTeamState p) (segment : BusinessSegment) (retention : Retention)
    (visit : StatusVisitState) : Result Retention := do
  let keeps ←
    match visit.memberId with
    | none => pure false
    | some owner => do
      let identity ← getItem (·.id) state.scrum.memberIdentities owner
      canRetain state identity visit segment retention.retained
  if keeps then
    return { retained := retention.retained ++ visit.memberId.toList
             visits := retention.visits ++ [visit] }
  else
    -- the visit looks for an owner again
    let released ← validated StatusVisitState.validate { visit with memberId := none }
    return { retention with visits := retention.visits ++ [released] }

/-- What the search for an owner finds about one member. -/
inductive Assessment where
  | incapable
  | unavailable
  | exhausted
  | full
  | candidate (proficiency : ℚ) (identity : MemberIdentity)

def assessMember (state : LiveTeamState p) (visit : StatusVisitState) (segment : BusinessSegment)
    (consumption : Consumption) (retained : List Uuid) (identity : MemberIdentity) :
    Result Assessment := do
  let member ← memberBlueprint state identity
  match proficiency member visit.activityKey with
  | none => return .incapable
  | some value =>
    let fraction ← effectiveFraction state identity segment
    if fraction = 0 then return .unavailable
    else
      let remaining ← remainingCapacity state identity segment consumption
      if remaining = 0 then return .exhausted
      else if retained.count identity.id < member.maxConcurrentWip then
        return .candidate value identity
      else return .full

def assignmentDenialReason (assessments : List Assessment) : QueueReason :=
  let capable := assessments.any fun | .incapable => false | _ => true
  let available := assessments.any fun | .incapable => false | .unavailable => false | _ => true
  let hasCapacity := assessments.any fun | .full => true | .candidate .. => true | _ => false
  if !capable then .NO_CAPABLE_MEMBER
  else if !available then .UNAVAILABLE
  else if !hasCapacity then .DAILY_CAPACITY
  else .WIP_LIMIT

/-- The candidates among the assessments. -/
def candidates (assessments : List Assessment) : List (ℚ × MemberIdentity) :=
  assessments.filterMap fun
    | .candidate value identity => some (value, identity)
    | _ => none

/-- The order of `max(candidates, key=...)`: by proficiency, then by the smaller index. -/
def betterCandidate (a b : ℚ × MemberIdentity) : Bool :=
  b.1 < a.1 || (a.1 = b.1 && a.2.blueprintIndex < b.2.blueprintIndex)

/-- The owners kept so far, and the visits assigned so far. -/
structure Assignment where
  retained : List Uuid
  results : List AssignedVisit

/-- `_assign_owner` for a visit without an owner. -/
def assignOwner (state : LiveTeamState p) (segment : BusinessSegment) (consumption : Consumption)
    (assignment : Assignment) (visit : StatusVisitState) : Result Assignment := do
  let assessments ← state.scrum.memberIdentities.mapM
    (assessMember state visit segment consumption assignment.retained)
  match candidates assessments with
  | [] =>
    return { assignment with
      results := assignment.results ++ [⟨visit, some (assignmentDenialReason assessments)⟩] }
  | first :: rest =>
    let identity := (Ordering.maxBy betterCandidate first rest).2
    let assigned ← validated StatusVisitState.validate { visit with memberId := some identity.id }
    return { retained := assignment.retained ++ [identity.id]
             results := assignment.results ++ [⟨assigned, none⟩] }

/-- The second loop of `_assign_owners`. -/
def assignVisit (state : LiveTeamState p) (segment : BusinessSegment) (consumption : Consumption)
    (assignment : Assignment) (visit : StatusVisitState) : Result Assignment :=
  match visit.memberId with
  | none => assignOwner state segment consumption assignment visit
  -- a kept owner has no reason to wait
  | some _ => .ok { assignment with results := assignment.results ++ [⟨visit, none⟩] }

def assignOwners (state : LiveTeamState p) (visits : List StatusVisitState)
    (segment : BusinessSegment) (consumption : Consumption) : Result (List AssignedVisit) := do
  let retention ← visits.foldlM (retainOwner state segment) { retained := [], visits := [] }
  let assignment ← retention.visits.foldlM (assignVisit state segment consumption)
    { retained := retention.retained, results := [] }
  return assignment.results

/-! ### Advancing over a segment -/

def queueCause (visitId : Uuid) (reason : Option QueueReason) (delta : ℤ) :
    Result (List QueueCause) :=
  if delta = 0 then .ok []
  else
    match reason with
    | none => .error (.runtimeError "queued labor must have a limiting constraint")
    | some reason => .ok [{ visitId, reason, deltaMicroseconds := delta }]

/-- The visits advanced so far, the consumption after them and the causes of their queues. -/
structure SegmentAdvance where
  visits : List StatusVisitState
  consumption : Consumption
  queueCauses : List QueueCause

/-- The visit after a credit of labor. -/
def creditedVisit (visit : StatusVisitState) (segment : BusinessSegment) (credited : ℤ) :
    StatusVisitState :=
  let remaining := visit.remainingWorkMicroseconds - credited
  -- a visit whose work ends does not wait for the rest of the segment
  let queue := if remaining = 0 then 0 else segment.microseconds - credited
  { visit with
    elapsedWorkMicroseconds := visit.elapsedWorkMicroseconds + credited
    remainingWorkMicroseconds := remaining
    queueMicroseconds := visit.queueMicroseconds + max 0 queue
    creditedLaborMicroseconds := visit.creditedLaborMicroseconds + credited }

/-- `_advance_visit`, appended to the visits of the segment advanced before. -/
def advanceVisit (state : LiveTeamState p) (segment : BusinessSegment) (starting : Consumption)
    (advance : SegmentAdvance) (assignment : AssignedVisit) : Result SegmentAdvance := do
  let visit := assignment.visit
  let status ← next (fun item => item.key = visit.statusKey)
    state.aggregate.blueprint.workflow.statuses
  if status.pausesServiceClock then
    -- the status stops the clock, so the whole segment is a pause
    let updated ← validated StatusVisitState.validate
      { visit with pauseMicroseconds := visit.pauseMicroseconds + segment.microseconds }
    return { advance with visits := advance.visits ++ [updated] }
  else
    match visit.memberId with
    | some member =>
      -- the work is done and the dwell time is not
      if visit.remainingWorkMicroseconds = 0 then waiting visit 0
      else
        let identity ← next (fun item => item.id = member) state.scrum.memberIdentities
        let capacity ← segmentCapacity state identity segment starting advance.consumption
        let credited := min capacity.microseconds visit.remainingWorkMicroseconds
        let remaining := visit.remainingWorkMicroseconds - credited
        let queue := if remaining = 0 then 0 else segment.microseconds - credited
        let updated ← validated StatusVisitState.validate (creditedVisit visit segment credited)
        let cause ← queueCause visit.id (some capacity.limitingConstraint) queue
        return {
          visits := advance.visits ++ [updated]
          consumption := advance.consumption.credit (identity.id, segment.businessDate) credited
          queueCauses := advance.queueCauses ++ cause }
    | none =>
      waiting visit (if visit.remainingWorkMicroseconds ≠ 0 then segment.microseconds else 0)
where
  /-- A visit that receives no labor waits for `queue` microseconds. -/
  waiting (visit : StatusVisitState) (queue : ℤ) : Result SegmentAdvance := do
    let updated ← validated StatusVisitState.validate
      { visit with queueMicroseconds := visit.queueMicroseconds + queue }
    let cause ← queueCause visit.id assignment.deniedReason queue
    return { advance with
      visits := advance.visits ++ [updated], queueCauses := advance.queueCauses ++ cause }

/-- The visits in the order of the ranks of their work items. -/
def rankedVisits (state : LiveTeamState p) (visits : List StatusVisitState) :
    Result (List StatusVisitState) := do
  let pairs ← visits.mapM fun visit => do
    let work ← getItem (·.id) state.scrum.workItems visit.workItemId
    return (simulatorRank p work, visit)
  return (Ordering.sortOn (·.1) pairs).map (·.2)

/-- `_advance_segment`: the blocked visits stay as they are and come first. -/
def advanceSegment (state : LiveTeamState p) (visits : List StatusVisitState)
    (consumption : Consumption) (segment : BusinessSegment) (blocked : List Uuid) :
    Result SegmentAdvance := do
  let ordered ← rankedVisits state (visits.filter fun visit => visit.id ∉ blocked)
  let assignments ← assignOwners state ordered segment consumption
  assignments.foldlM (advanceVisit state segment consumption)
    { visits := visits.filter fun visit => visit.id ∈ blocked
      consumption, queueCauses := [] }

/-! ### Completions -/

/-- The labor credited to each member so far in a segment. -/
abbrev UsedByMember := List (Uuid × ℤ)

def UsedByMember.get (used : UsedByMember) (member : Uuid) : ℤ :=
  ((used.filter fun entry => entry.1 = member).map (·.2)).sum

def touchCompletion (state : LiveTeamState p) (segment : BusinessSegment)
    (before after : StatusVisitState) (used : UsedByMember) : Result (Option ℤ) :=
  if after.remainingWorkMicroseconds ≠ 0 then .ok none
  else if before.remainingWorkMicroseconds = 0 then .ok (some segment.start)
  else
    match after.memberId with
    | none => .ok none
    | some member => do
      let identity ← next (fun item => item.id = member) state.scrum.memberIdentities
      let fraction ← effectiveFraction state identity segment
      -- the member first works on the visits ranked before
      let labor := used.get identity.id + before.remainingWorkMicroseconds
      let elapsed ← fdiv (floatOfInt labor) fraction
      let instant ← addDuration segment.start ⌈elapsed⌉
      return some instant

def dwellCompletion (calendar : BusinessCalendar) (segment : BusinessSegment)
    (visit : StatusVisitState) (sample : StatusVisitSample) : Result ℤ := do
  let elapsed ← calendar.businessElapsed visit.enteredAt segment.start
  let service := max 0 (elapsed - visit.pauseMicroseconds)
  let required := hoursToRoundedMicroseconds sample.dwellSampledHours
  addDuration segment.start (max 0 (required - service))

/-- The labor used and the completions found so far. -/
structure CompletionSearch where
  used : UsedByMember
  candidates : List ℤ

/-- One step of the loop of `_completion_boundary`. -/
def searchCompletion (state : LiveTeamState p) (calendar : BusinessCalendar)
    (segment : BusinessSegment) (after : List StatusVisitState) (search : CompletionSearch)
    (visit : StatusVisitState) : Result CompletionSearch := do
  let updated ← getItem (·.id) after visit.id
  let touchAt ← touchCompletion state segment visit updated search.used
  let credited := updated.creditedLaborMicroseconds - visit.creditedLaborMicroseconds
  let used := search.used ++ updated.memberId.toList.map fun member => (member, credited)
  match touchAt with
  | none => return { search with used }
  | some touchAt =>
    let sample ← getItem (·.visitId) state.scrum.statusVisitSamples visit.id
    let dwellAt ← dwellCompletion calendar segment visit sample
    let completion := max touchAt dwellAt
    if completion ≤ segment.finish then
      return { used, candidates := search.candidates ++ [completion] }
    else
      return { search with used }

/-- `_completion_boundary`: the first completion inside the segment. -/
def completionBoundary (state : LiveTeamState p) (calendar : BusinessCalendar)
    (segment : BusinessSegment) (before after : List StatusVisitState) : Result (Option ℤ) := do
  let ordered ← rankedVisits state before
  let search ← ordered.foldlM (searchCompletion state calendar segment after)
    { used := [], candidates := [] }
  return search.candidates.min?

/-! ### Transitions of completed visits -/

def isComplete (visit : StatusVisitState) (sample : StatusVisitSample) (effectiveEnd : ℤ)
    (calendar : BusinessCalendar) : Result Bool :=
  if visit.remainingWorkMicroseconds ≠ 0 then .ok false
  else do
    let business ← calendar.businessElapsed visit.enteredAt effectiveEnd
    let service := max 0 (business - visit.pauseMicroseconds)
    return hoursToRoundedMicroseconds sample.dwellSampledHours ≤ service

/-- The visit that a completed item enters next, with its sample and its claim. -/
structure NextVisit where
  visit : StatusVisitState
  sample : StatusVisitSample
  claim : SemanticCounterClaim

structure Transition where
  work : WorkItemState
  next : Option NextVisit

/-- The steps after the first one with the status of the closed visit. -/
def laterSteps (steps : List WorkflowRouteStep) (statusKey : String) :
    Result (List WorkflowRouteStep) :=
  match steps.dropWhile fun step => step.statusKey ≠ statusKey with
  | [] => .error .stopIteration
  | _ :: later => .ok later

def transition (state : LiveTeamState p) (work : WorkItemState) (closed : StatusVisitState)
    (closedAt : ℤ) (draws : DrawSource) : Result Transition := do
  let route ← routeForIssueType state.aggregate.blueprint work.issueType
  let later ← laterSteps route.steps closed.statusKey
  match ← firstTimedStep state.aggregate.blueprint later with
  | none =>
    match later.getLast? with
    | none => .error .indexError
    | some terminal =>
      -- no timed step is left
      let done ← validated WorkItemState.validate
        { work with
          lifecycle := .DONE, currentStatusKey := terminal.statusKey, updatedAt := closedAt }
      return { work := done, next := none }
  | some timed =>
    let counter ← visitCounter state work.id
    let nextWork ← validated WorkItemState.validate
      { work with currentStatusKey := timed.statusKey, updatedAt := closedAt }
    let (visit, sample) ← newSampledVisit p state.aggregate.blueprint nextWork timed
      counter.nextValue nextWork.updatedAt draws
    let claim ← SemanticCounterClaim.one counter.scope counter.nextValue
    return { work := nextWork, next := some { visit, sample, claim } }

/-- The rows that one visit of the tick changes. -/
structure FinishedVisit where
  visits : List StatusVisitState := []
  workItems : List WorkItemState := []
  samples : List StatusVisitSample := []
  claims : List SemanticCounterClaim := []
  deriving Inhabited

/-- One step of the loop of `_finish_visits`. -/
def finishVisit (state : LiveTeamState p) (calendar : BusinessCalendar)
    (original : List StatusVisitState) (effectiveEnd : ℤ) (draws : DrawSource)
    (visit : StatusVisitState) : Result FinishedVisit := do
  let sample ← getItem (·.visitId) state.scrum.statusVisitSamples visit.id
  if ← isComplete visit sample effectiveEnd calendar then
    let closed ← validated StatusVisitState.validate
      { visit with lifecycle := .CLOSED, closedAt := some effectiveEnd }
    let work ← getItem (·.id) state.scrum.workItems visit.workItemId
    let transition ← transition state work closed effectiveEnd draws
    return {
      visits := closed :: transition.next.toList.map (·.visit)
      workItems := [transition.work]
      samples := transition.next.toList.map (·.sample)
      claims := transition.next.toList.map (·.claim) }
  else
    let before ← getItem (·.id) original visit.id
    -- a visit that did not change is not written
    return { visits := if visit ≠ before then [visit] else [] }

/-- `_consumption_changes`: the rows whose labor differs, in the order of dates and members. -/
def consumptionChanges (state : LiveTeamState p) (consumption : Consumption) :
    Result (List MemberBusinessDateConsumption) :=
  let ordered :=
    Ordering.sortOn (fun entry => [entry.1.2, (p.uuidInt entry.1.1 : ℤ)]) consumption
  (ordered.filter fun entry => entry ∉ consumptionMap state).mapM fun entry =>
    validated MemberBusinessDateConsumption.validate {
      teamId := state.aggregate.runtime.teamId
      runId := state.aggregate.runtime.runId
      memberId := entry.1.1
      businessDate := entry.1.2
      consumedLaborMicroseconds := entry.2 }

def finishVisits (state : LiveTeamState p) (calendar : BusinessCalendar)
    (original visits : List StatusVisitState) (consumption : Consumption) (effectiveEnd : ℤ)
    (draws : DrawSource) : Result TickResult := do
  let finished ← visits.mapM (finishVisit state calendar original effectiveEnd draws)
  let changes ← consumptionChanges state consumption
  return {
    endsAt := effectiveEnd
    visits := finished.flatMap (·.visits)
    workItems := finished.flatMap (·.workItems)
    samples := finished.flatMap (·.samples)
    consumption := changes
    claims := finished.flatMap (·.claims)
    queueCauses := [] }

/-! ### Advancing over the segments -/

/-- The visits and the consumption after the segments, the causes of the queues and the end of the
tick; `played` records the advance over each segment, with the state before it. -/
structure SegmentsOutcome where
  visits : List StatusVisitState
  consumption : Consumption
  queueCauses : List QueueCause
  committedEnd : ℤ
  played : List (BusinessSegment × List StatusVisitState × Consumption × SegmentAdvance)

/-- The loop of `_advance_visits`: a segment is probed, and played again up to its first completion
when it has one. -/
def runSegments (state : LiveTeamState p) (calendar : BusinessCalendar) (blocked : List Uuid)
    (effectiveEnd : ℤ) :
    List BusinessSegment → List StatusVisitState → Consumption → Result SegmentsOutcome
  | [], visits, consumption =>
    .ok { visits, consumption, queueCauses := [], committedEnd := effectiveEnd, played := [] }
  | segment :: segments, visits, consumption => do
    let probe ← advanceSegment state visits consumption segment blocked
    match ← completionBoundary state calendar segment visits probe.visits with
    | none =>
      let outcome ← runSegments state calendar blocked effectiveEnd segments probe.visits
        probe.consumption
      return { outcome with
        queueCauses := probe.queueCauses ++ outcome.queueCauses
        played := (segment, visits, consumption, probe) :: outcome.played }
    | some boundary =>
      -- the causes of the probe are dropped, those up to the completion are kept
      let shortened := { segment with finish := boundary }
      let advanced ← advanceSegment state visits consumption shortened blocked
      return {
        visits := advanced.visits
        consumption := advanced.consumption
        queueCauses := advanced.queueCauses
        committedEnd := boundary
        played := [(shortened, visits, consumption, advanced)] }

/-- `_aggregate_queue_causes`: one total for each visit and reason. -/
def aggregateQueueCauses (p : Platform) (causes : List QueueCause) : List QueueCause :=
  let keys := (causes.map fun cause => (cause.visitId, cause.reason)).dedup
  let totals := keys.map fun key : Uuid × QueueReason =>
    { visitId := key.1, reason := key.2
      deltaMicroseconds := ((causes.filter fun cause =>
        cause.visitId = key.1 && cause.reason = key.2).map (·.deltaMicroseconds)).sum : QueueCause }
  Ordering.sortOn (fun cause => [(p.uuidInt cause.visitId : ℤ), cause.reason.order]) totals

/-- `_advance_visits`. -/
def advanceVisits (state : LiveTeamState p) (effectiveEnd : ℤ) (segments : List BusinessSegment)
    (calendar : BusinessCalendar) (draws : DrawSource) (blocked : List Uuid) :
    Result TickResult := do
  let original := openVisits state
  let outcome ← runSegments state calendar blocked effectiveEnd segments original
    (consumptionMap state)
  let result ← finishVisits state calendar original outcome.visits outcome.consumption
    outcome.committedEnd draws
  return { result with queueCauses := aggregateQueueCauses p outcome.queueCauses }

/-! ### Risks and progress -/

structure RiskAdvance (p : Platform) where
  state : LiveTeamState p
  risks : RiskRecords p
  result : TickResult

/-- `_risk_blocked_visits`: the visits of the state whose pause the risks extended. -/
def riskBlockedVisits (state : LiveTeamState p) (risks : RiskRecords p) : List Uuid :=
  (risks.state.statusVisits.filter fun visit =>
    state.scrum.statusVisits.any fun original =>
      original.id = visit.id && original.pauseMicroseconds < visit.pauseMicroseconds).map (·.id)

def advanceForRisks (state : LiveTeamState p) (calendar : BusinessCalendar) (draws : DrawSource)
    (endsAt : ℤ) : Result (RiskAdvance p) := do
  let risks ← evaluateDueRisks state endsAt draws
  let working ← state.withWriteSet risks.state
  -- the overlays that the risks wrote are in the working state
  let segments ← businessSegments working calendar (cursor state) endsAt
  let blocked := riskBlockedVisits state risks
  let result ← advanceVisits working endsAt segments calendar draws blocked
  return { state := working, risks, result }

/-- The loop of `_risk_aware_advance`; the ends of the advances decrease towards the cursor. -/
def riskAwareAdvanceFrom (state : LiveTeamState p) (calendar : BusinessCalendar)
    (draws : DrawSource) : ℕ → ℤ → Result (RiskAdvance p)
  | 0, _ => .error (.runtimeError "out of fuel")
  | fuel + 1, endsAt => do
    let advance ← advanceForRisks state calendar draws endsAt
    -- a completion ends the tick earlier, so the risks are evaluated for the shorter window
    if advance.result.endsAt < endsAt then
      riskAwareAdvanceFrom state calendar draws fuel advance.result.endsAt
    else
      return advance

def riskAwareAdvance (state : LiveTeamState p) (calendar : BusinessCalendar) (draws : DrawSource)
    (endsAt : ℤ) : Result (RiskAdvance p) :=
  riskAwareAdvanceFrom state calendar draws ((endsAt - cursor state).toNat + 1) endsAt

end JiraSimulator
