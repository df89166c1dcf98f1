import JiraSimulator.Correctness.NewVisits
import JiraSimulator.Correctness.RiskRecords

/-!
# What each risk handler writes

One specification for each handler: the rows that a decision writes, the claims that it makes and
the Jira intents that it emits.

* A rejected review makes its item active again in a new open visit (`ReviewReturn`).
* A cancellation closes the open visit of its item (`ItemCancellation`).
* A dependency pauses an open visit and drops its owner (`pausedBy`).
* An absence writes an availability overlay.
* A long stay writes nothing.
-/

namespace JiraSimulator

open Library Library.Outcome ScrumCollections

variable {p : Platform}

@[simp] theorem evidenceRecords_state (state : LiveTeamState p) (batch : EvidenceBatch p) :
    (evidenceRecords state batch).state = batch.state := rfl

@[simp] theorem evidenceRecords_counterClaims (state : LiveTeamState p) (batch : EvidenceBatch p) :
    (evidenceRecords state batch).counterClaims = batch.counterClaims := rfl

@[simp] theorem evidenceRecords_naturalDecisionClaims (state : LiveTeamState p)
    (batch : EvidenceBatch p) :
    (evidenceRecords state batch).naturalDecisionClaims = batch.naturalClaims := rfl

@[simp] theorem evidenceRecords_projectionIntents (state : LiveTeamState p)
    (batch : EvidenceBatch p) :
    (evidenceRecords state batch).projectionIntents = batch.projection.toList := rfl

@[simp] theorem ScrumStateWriteSet.empty_collections :
    (ScrumStateWriteSet.empty : ScrumStateWriteSet p).toScrumCollections = {} := rfl

/-- Records without rows, claims and intents. -/
structure RiskRecords.Silent (r : RiskRecords p) : Prop where
  state : r.state.toScrumCollections = {}
  counterClaims : r.counterClaims = []
  naturalDecisionClaims : r.naturalDecisionClaims = []
  projectionIntents : r.projectionIntents = []

theorem RiskRecords.silent_default : ({} : RiskRecords p).Silent :=
  ⟨rfl, rfl, rfl, rfl⟩

/-! ### Long stays -/

theorem longStayRecord_silent {context : RiskContext p} {visit : StatusVisitState}
    {r : RiskRecords p} (h : longStayRecord context visit = .ok r) : r.Silent := by
  simp only [longStayRecord, bind_eq_ok] at h
  obtain ⟨sample, -, multiplier, -, crossed, -, h⟩ := h
  cases crossed with
  | false =>
    simp only [Bool.false_eq_true, if_false, pure_eq_ok] at h
    exact h ▸ RiskRecords.silent_default
  | true =>
    simp only [if_true, bind_eq_ok, pure_eq_ok] at h
    obtain ⟨people, -, rfl⟩ := h
    exact ⟨rfl, rfl, rfl, rfl⟩

/-! ### Review rejections -/

theorem workOf_eq_ok {state : LiveTeamState p} {workId : Uuid} {work : WorkItemState}
    (h : workOf state workId = .ok work) : work ∈ state.scrum.workItems ∧ work.id = workId := by
  obtain ⟨hmem, hid⟩ := mem_of_next h
  exact ⟨hmem, of_decide_eq_true hid⟩

theorem routeStep_eq_ok {state : LiveTeamState p} {work : WorkItemState} {statusKey : String}
    {step : WorkflowRouteStep} (h : routeStep state work statusKey = .ok step) :
    ∃ route, routeForIssueType state.aggregate.blueprint work.issueType = .ok route ∧
      step ∈ route.steps ∧ step.statusKey = statusKey := by
  simp only [routeStep, bind_eq_ok] at h
  obtain ⟨route, hroute, h⟩ := h
  obtain ⟨hmem, hkey⟩ := mem_of_next h
  exact ⟨route, hroute, hmem, of_decide_eq_true hkey⟩

/-- The item that a rejected review sends back. -/
def returnedWork (work : WorkItemState) (target : String) (instant : ℤ) : WorkItemState :=
  { work with lifecycle := .ACTIVE, currentStatusKey := target, updatedAt := instant }

/-- The context in which the due reviews are decided. -/
def RiskContext.atCursor (context : RiskContext p) : RiskContext p :=
  { context with asOf := cursor context.state }

/-- The decision about a due review. -/
structure ReviewVerdict (context : RiskContext p) (review : StatusVisitState)
    (work : WorkItemState) (decision : ReviewDecision) : Prop where
  mem : review ∈ context.state.scrum.statusVisits
  due : reviewDue context.state context.asOf review = true
  work_eq : workOf context.state review.workItemId = .ok work
  decided : reviewDecision context.atCursor work review = .ok decision

/-- A due review that is rejected: the item returns to the target in a new visit. -/
structure ReviewReturn (context : RiskContext p) (review : StatusVisitState)
    (work : WorkItemState) (decision : ReviewDecision) (step : WorkflowRouteStep)
    (counter : SemanticCounter) (visit : StatusVisitState) (sample : StatusVisitSample) : Prop
    extends ReviewVerdict context review work decision where
  rejected : decision.evidence.outcome = true
  step_eq : routeStep context.state work decision.target = .ok step
  counter_eq : visitCounter context.state work.id = .ok counter
  workValid : (returnedWork work decision.target (cursor context.state)).Valid
  enters : EntersVisit p context.state.aggregate.blueprint context.draws
    (returnedWork work decision.target (cursor context.state)) step counter.nextValue none
    (cursor context.state) visit sample
  returned : returnedVisit context.atCursor
      (returnedWork work decision.target (cursor context.state)) =
    .ok (visit, sample, { scope := counter.scope, expectedNext := counter.nextValue, count := 1 })

theorem reviewDecision_eq_ok {context : RiskContext p} {work : WorkItemState}
    {review : StatusVisitState} {decision : ReviewDecision}
    (h : reviewDecision context work review = .ok decision) :
    text context.rule "return_status" = .ok decision.target ∧
      requireEarlierStep context.state work review.statusKey decision.target = .ok () ∧
      (∃ step, routeStep context.state work decision.target = .ok step) ∧
      outcomeIntent context work.id decision.target decision.evidence.outcome =
        .ok decision.projection := by
  simp only [reviewDecision, bind_eq_ok, exists_unit, pure_eq_ok] at h
  obtain ⟨probability, -, target, htarget, hearlier, step, hstep, people, -, projection,
    hprojection, rfl⟩ := h
  exact ⟨htarget, hearlier, ⟨step, hstep⟩, hprojection⟩

theorem dueReviewRecords_eq_ok {context : RiskContext p} {review : StatusVisitState}
    {r : RiskRecords p} (hmem : review ∈ context.state.scrum.statusVisits)
    (hdue : reviewDue context.state context.asOf review = true)
    (h : dueReviewRecords context review = .ok r) :
    ∃ work decision, ReviewVerdict context review work decision ∧ r.naturalDecisionClaims = [] ∧
      ((decision.evidence.outcome = false ∧ r.Silent) ∨
        ∃ step counter visit sample,
          ReviewReturn context review work decision step counter visit sample ∧
          r.state.toScrumCollections = {
            workItems := [returnedWork work decision.target (cursor context.state)]
            statusVisits := [visit]
            statusVisitSamples := [sample] } ∧
          r.counterClaims =
            [{ scope := counter.scope, expectedNext := counter.nextValue, count := 1 }] ∧
          r.projectionIntents = decision.projection.toList) := by
  simp only [dueReviewRecords, reviewRecords, bind_eq_ok] at h
  obtain ⟨work, hwork, decision, hdecision, h⟩ := h
  have hverdict : ReviewVerdict context review work decision := ⟨hmem, hdue, hwork, hdecision⟩
  refine ⟨work, decision, hverdict, ?_⟩
  cases houtcome : decision.evidence.outcome with
  -- an accepted review writes its decision only
  | false =>
    simp only [houtcome, Bool.false_eq_true, if_false, pure_eq_ok] at h
    subst h
    exact ⟨rfl, .inl ⟨rfl, rfl, rfl, rfl, rfl⟩⟩
  -- a rejected one returns the item with a new visit
  | true =>
    simp only [houtcome, if_true, bind_eq_ok, validated_eq_ok, WorkItemState.validate_eq_ok,
      ScrumStateWriteSet.create_eq_ok, pure_eq_ok] at h
    obtain ⟨returned, ⟨hvalid, rfl⟩, triple, htriple, state, hstate, rfl⟩ := h
    have hreturned := htriple
    simp only [returnedVisit, bind_eq_ok, SemanticCounterClaim.one, validated_eq_ok,
      pure_eq_ok] at htriple
    obtain ⟨counter, hcounter, step, hstep, pair, hpair, claim, ⟨-, rfl⟩, rfl⟩ := htriple
    exact ⟨rfl, .inr ⟨step, counter, pair.1, pair.2, ⟨hverdict, houtcome, hstep, hcounter, hvalid,
      newSampledVisit_eq_ok hpair, hreturned⟩, hstate, rfl, rfl⟩⟩

/-- An item has one return, whichever of its reviews is rejected. -/
theorem ReviewReturn.unique {context : RiskContext p} {review review' : StatusVisitState}
    {work work' : WorkItemState} {decision decision' : ReviewDecision}
    {step step' : WorkflowRouteStep} {counter counter' : SemanticCounter}
    {visit visit' : StatusVisitState} {sample sample' : StatusVisitSample}
    (h : ReviewReturn context review work decision step counter visit sample)
    (h' : ReviewReturn context review' work' decision' step' counter' visit' sample')
    (hwork : work = work') :
    decision.target = decision'.target ∧ visit = visit' ∧ sample = sample' := by
  subst hwork
  have htarget : decision.target = decision'.target := by
    have ht := (reviewDecision_eq_ok h.decided).1
    rw [(reviewDecision_eq_ok h'.decided).1] at ht
    exact (Except.ok.inj ht).symm
  have hreturned := h.returned
  rw [htarget, h'.returned, Except.ok.injEq, Prod.mk.injEq, Prod.mk.injEq] at hreturned
  exact ⟨htarget, hreturned.1.symm, hreturned.2.1.symm⟩

theorem reviewRejection_eq_ok {context : RiskContext p} {out : RiskRecords p}
    (h : reviewRejection context = .ok out) :
    out = {} ∨ (context.rule.trigger = "STATUS_EXITED" ∧
      collectRecords (dueReviewRecords context)
        (context.state.scrum.statusVisits.filter (reviewDue context.state context.asOf)) =
          .ok out) := by
  unfold reviewRejection at h
  split_ifs at h with htrigger
  · exact .inl (Except.ok.inj h).symm
  · exact .inr ⟨not_not.mp htrigger, h⟩

/-! ### Cancellations -/

/-- The item that a cancellation stops. -/
def cancelledWork (work : WorkItemState) (target : String) (instant : ℤ) : WorkItemState :=
  { work with lifecycle := .CANCELLED, currentStatusKey := target, updatedAt := instant }

/-- The visit that a cancellation closes. -/
def cancelledVisit (visit : StatusVisitState) (instant : ℤ) : StatusVisitState :=
  { visit with
    lifecycle := .CLOSED, memberId := none, closedAt := some instant
    elapsedWorkMicroseconds := visit.requiredWorkMicroseconds
    remainingWorkMicroseconds := 0 }

/-- The decision about an active item at a workday start. -/
structure CancellationVerdict (context : RiskContext p) (boundary : ℤ) (work : WorkItemState)
    (decision : CancellationDecision) : Prop where
  trigger : context.rule.trigger = "WORKDAY_STARTED"
  boundary_eq : workdayBoundary context.state context.asOf = .ok (some boundary)
  mem : work ∈ context.state.scrum.workItems
  active : work.lifecycle = .ACTIVE
  decided : cancellationDecision { context with asOf := boundary } work = .ok decision
  visit_eq : workVisit context.state work.id = .ok decision.visit
  claim_scope : decision.claim.scope = .naturalDecision work.id .RISK_CANCELLATION_OUTCOME

/-- A cancelled item, with the visit that is closed. -/
structure ItemCancellation (context : RiskContext p) (boundary : ℤ) (work : WorkItemState)
    (decision : CancellationDecision) : Prop
    extends CancellationVerdict context boundary work decision where
  outcome : decision.evidence.outcome = true
  workValid : (cancelledWork work decision.target boundary).Valid
  visitValid : (cancelledVisit decision.visit boundary).Valid

theorem naturalClaim_eq_ok {state : LiveTeamState p} {entityId : Uuid} {decisionType : DecisionType}
    {businessDate : ℤ} {claim : SemanticCounterClaim} {eligible : EligibleNaturalDecisionClaim}
    (h : naturalClaim state entityId decisionType businessDate = .ok (claim, eligible)) :
    ∃ counter ∈ state.scrum.semanticCounters,
      counter.scope = .naturalDecision entityId decisionType ∧
      claim = { scope := .naturalDecision entityId decisionType,
                expectedNext := counter.nextValue, count := 1 } ∧
      claim.validate = .ok () ∧
      eligible = { decision := ⟨entityId, decisionType, counter.nextValue⟩, businessDate } ∧
      eligible.validate = .ok () := by
  simp only [naturalClaim, DecisionOccurrence.create, SemanticCounterClaim.one, bind_eq_ok,
    exists_unit, requireSafeInteger_eq_ok, require_eq_ok, validated_eq_ok, pure_eq_ok,
    Prod.mk.injEq] at h
  obtain ⟨counter, hcounter, decision, ⟨-, -, rfl⟩, claim', ⟨hclaim, rfl⟩, eligible',
    ⟨heligible, rfl⟩, rfl, rfl⟩ := h
  obtain ⟨hmem, hscope⟩ := mem_of_next hcounter
  exact ⟨counter, hmem, by simpa using hscope, rfl, hclaim, rfl, heligible⟩

theorem cancellationDecision_eq_ok {context : RiskContext p} {work : WorkItemState}
    {decision : CancellationDecision} (h : cancellationDecision context work = .ok decision) :
    naturalClaim context.state work.id .RISK_CANCELLATION_OUTCOME (dateOf context.asOf) =
        .ok (decision.claim, decision.eligible) ∧
      workVisit context.state work.id = .ok decision.visit ∧
      text context.rule "target_status" = .ok decision.target ∧
      outcomeIntent context work.id decision.target decision.evidence.outcome =
        .ok decision.projection := by
  simp only [cancellationDecision, bind_eq_ok, pure_eq_ok] at h
  obtain ⟨pair, hpair, visit, hvisit, probability, -, target, htarget, projection, hprojection,
    people, -, rfl⟩ := h
  exact ⟨hpair, hvisit, htarget, hprojection⟩

theorem cancellationRecords_eq_ok {context : RiskContext p} {boundary : ℤ} {work : WorkItemState}
    {r : RiskRecords p} (htrigger : context.rule.trigger = "WORKDAY_STARTED")
    (hboundary : workdayBoundary context.state context.asOf = .ok (some boundary))
    (hmem : work ∈ activeWork context.state)
    (h : cancellationRecords { context with asOf := boundary } work = .ok r) :
    ∃ decision, CancellationVerdict context boundary work decision ∧
      r.counterClaims = [decision.claim] ∧ r.naturalDecisionClaims = [decision.eligible] ∧
      ((decision.evidence.outcome = false ∧ r.state.toScrumCollections = {} ∧
          r.projectionIntents = []) ∨
        (ItemCancellation context boundary work decision ∧
          r.state.toScrumCollections = {
            workItems := [cancelledWork work decision.target boundary]
            statusVisits := [cancelledVisit decision.visit boundary] } ∧
          r.projectionIntents = decision.projection.toList)) := by
  simp only [cancellationRecords, bind_eq_ok] at h
  obtain ⟨decision, hdecision, h⟩ := h
  obtain ⟨hmem, hactive⟩ := List.mem_filter.mp hmem
  obtain ⟨hclaim, hvisit, -, -⟩ := cancellationDecision_eq_ok hdecision
  obtain ⟨counter, -, -, hscope, -⟩ := naturalClaim_eq_ok hclaim
  have hverdict : CancellationVerdict context boundary work decision :=
    ⟨htrigger, hboundary, hmem, by simpa using hactive, hdecision, hvisit, by rw [hscope]⟩
  refine ⟨decision, hverdict, ?_⟩
  cases houtcome : decision.evidence.outcome with
  | false =>
    simp only [houtcome, Bool.false_eq_true, if_false, pure_eq_ok] at h
    subst h
    exact ⟨rfl, rfl, .inl ⟨rfl, rfl, rfl⟩⟩
  | true =>
    simp only [houtcome, if_true, cancelledState, bind_eq_ok, validated_eq_ok,
      WorkItemState.validate_eq_ok, StatusVisitState.validate_eq_ok,
      ScrumStateWriteSet.create_eq_ok, pure_eq_ok] at h
    obtain ⟨state, ⟨cancelled, ⟨hcancelled, rfl⟩, closed, ⟨hclosed, rfl⟩, hstate⟩, rfl⟩ := h
    exact ⟨rfl, rfl, .inr ⟨⟨hverdict, houtcome, hcancelled, hclosed⟩, hstate, rfl⟩⟩

theorem cancellation_eq_ok {context : RiskContext p} {out : RiskRecords p}
    (h : cancellation context = .ok out) :
    out = {} ∨ ∃ boundary, workdayBoundary context.state context.asOf = .ok (some boundary) ∧
      context.rule.trigger = "WORKDAY_STARTED" ∧
      collectRecords (cancellationRecords { context with asOf := boundary })
        (activeWork context.state) = .ok out := by
  simp only [cancellation, bind_eq_ok] at h
  obtain ⟨boundary, hboundary, h⟩ := h
  cases boundary with
  | none => exact .inl (pure_eq_ok.mp h).symm
  | some boundary =>
    simp only at h
    split_ifs at h with htrigger
    · exact .inl (pure_eq_ok.mp h).symm
    · exact .inr ⟨boundary, hboundary, not_not.mp htrigger, h⟩

/-! ### External dependencies -/

/-- The visit paused for a duration, without its owner. -/
def pausedBy (visit : StatusVisitState) (delta : ℤ) : StatusVisitState :=
  { visit with
    memberId := none
    queueMicroseconds := visit.queueMicroseconds + delta
    pauseMicroseconds := visit.pauseMicroseconds + delta }

theorem pausedVisit_eq_ok {visit paused : StatusVisitState} {delta : ℤ}
    (h : pausedVisit visit delta = .ok paused) : paused = pausedBy visit delta ∧ paused.Valid := by
  simp only [pausedVisit, validated_eq_ok, StatusVisitState.validate_eq_ok] at h
  obtain ⟨hvalid, rfl⟩ := h
  exact ⟨rfl, hvalid⟩

/-- A dependency that is decided pauses the visit for what fits before the evaluation. -/
theorem dependencyDecision_delta {context : RiskContext p} {visit : StatusVisitState}
    {remaining : ℤ} {decision : DependencyDecision}
    (h : dependencyDecision context visit remaining = .ok decision)
    (houtcome : decision.evidence.outcome = true) :
    decision.delta = pauseWithin context remaining ∧
      ∃ work probability, workOf context.state visit.workItemId = .ok work ∧
        probabilityOf p context.rule (factorsOf context.state work visit) = .ok probability ∧
        drawUnit context.draws visit.id .RISK_EXTERNAL_DEPENDENCY_OUTCOME < probability := by
  simp only [dependencyDecision, bind_eq_ok, pure_eq_ok] at h
  obtain ⟨work, hwork, probability, hprobability, people, -, rfl⟩ := h
  exact ⟨if_pos houtcome, work, probability, hwork, hprobability, of_decide_eq_true houtcome⟩

/-- The pause that a dependency rule leaves for a visit, cut at the instant of the evaluation. -/
structure DependencyPause (context : RiskContext p) (visit : StatusVisitState) (delta : ℤ) :
    Prop where
  valid : (pausedBy visit delta).Valid
  ne_zero : delta ≠ 0
  begun : cursor context.state < context.asOf
  wait : ∃ waitHours, number context.rule "wait_hours" none = .ok waitHours ∧
    delta = pauseWithin context
      (max 0 (hoursToRoundedMicroseconds waitHours - visit.pauseMicroseconds))

/-- A dependency pauses the visit: its clock runs, and it waits already or has just been entered and
draws a dependency. -/
structure DependencyWait (context : RiskContext p) (visit : StatusVisitState) (delta : ℤ) : Prop
    extends DependencyPause context visit delta where
  running : intrinsicallyPaused context.state visit = .ok false
  chosen : visit.pauseMicroseconds ≠ 0 ∨ (visit.enteredAt = cursor context.state ∧
    ∃ work probability, workOf context.state visit.workItemId = .ok work ∧
      probabilityOf p context.rule (factorsOf context.state work visit) = .ok probability ∧
      drawUnit context.draws visit.id .RISK_EXTERNAL_DEPENDENCY_OUTCOME < probability)

theorem dependencyRecords_wait {context : RiskContext p} {visit : StatusVisitState}
    {r : RiskRecords p} (h : dependencyRecords context visit = .ok r) :
    r.counterClaims = [] ∧ r.naturalDecisionClaims = [] ∧ r.projectionIntents = [] ∧
      (r.state.toScrumCollections = {} ∨ ∃ delta, DependencyWait context visit delta ∧
        r.state.toScrumCollections = { statusVisits := [pausedBy visit delta] }) := by
  have hdefault : ({} : RiskRecords p).counterClaims = [] ∧
      ({} : RiskRecords p).naturalDecisionClaims = [] ∧
      ({} : RiskRecords p).projectionIntents = [] ∧
      (({} : RiskRecords p).state.toScrumCollections = {} ∨
        ∃ delta, DependencyWait context visit delta ∧
          ({} : RiskRecords p).state.toScrumCollections =
            { statusVisits := [pausedBy visit delta] }) :=
    ⟨rfl, rfl, rfl, .inl rfl⟩
  simp only [dependencyRecords, bind_eq_ok] at h
  obtain ⟨paused, hpaused, h⟩ := h
  cases paused with
  | true =>
    simp only [if_true, pure_eq_ok] at h
    exact h ▸ hdefault
  | false =>
    simp only [Bool.false_eq_true, if_false, bind_eq_ok] at h
    obtain ⟨wait, hwait, h⟩ := h
    -- nothing of the wait is left, or the window is empty
    by_cases hnone : max 0 (hoursToRoundedMicroseconds wait - visit.pauseMicroseconds) = 0 ∨
        context.asOf ≤ cursor context.state
    · rw [if_pos hnone, pure_eq_ok] at h
      exact h ▸ hdefault
    rw [if_neg hnone] at h
    obtain ⟨-, hbegun⟩ := not_or.mp hnone
    by_cases hcontinue : visit.pauseMicroseconds ≠ 0
    · -- the pause of an earlier tick continues
      rw [if_pos hcontinue, dependencyContinuation] at h
      split_ifs at h with hdelta
      · exact Except.ok.inj h ▸ hdefault
      · simp only [bind_eq_ok, pure_eq_ok, ScrumStateWriteSet.create_eq_ok] at h
        obtain ⟨blocked, hblocked, work, -, people, -, state, hstate, rfl⟩ := h
        obtain ⟨rfl, hvalid⟩ := pausedVisit_eq_ok hblocked
        exact ⟨rfl, rfl, rfl, .inr ⟨_, ⟨⟨hvalid, hdelta, not_le.mp hbegun, wait, hwait, rfl⟩,
          hpaused, .inl hcontinue⟩, hstate⟩⟩
    rw [if_neg hcontinue] at h
    by_cases hentered : visit.enteredAt ≠ cursor context.state
    · rw [if_pos hentered, pure_eq_ok] at h
      exact h ▸ hdefault
    · -- the visit was entered at the cursor, so the dependency is decided
      simp only [if_neg hentered, dependencyEntry, bind_eq_ok] at h
      obtain ⟨decision, hdecision, h⟩ := h
      split_ifs at h with houtcome
      · simp only [bind_eq_ok, pure_eq_ok, ScrumStateWriteSet.create_eq_ok] at h
        obtain ⟨blocked, hblocked, state, hstate, rfl⟩ := h
        obtain ⟨rfl, hvalid⟩ := pausedVisit_eq_ok hblocked
        obtain ⟨hdelta, hdrawn⟩ := dependencyDecision_delta hdecision houtcome.1
        exact ⟨rfl, rfl, rfl, .inr ⟨_, ⟨⟨hvalid, houtcome.2, not_le.mp hbegun, wait, hwait, hdelta⟩,
          hpaused, .inr ⟨not_not.mp hentered, hdrawn⟩⟩, hstate⟩⟩
      · rw [pure_eq_ok] at h
        subst h
        exact ⟨rfl, rfl, rfl, .inl rfl⟩

theorem dependencyRecords_eq_ok {context : RiskContext p} {visit : StatusVisitState}
    {r : RiskRecords p} (h : dependencyRecords context visit = .ok r) :
    r.counterClaims = [] ∧ r.naturalDecisionClaims = [] ∧ r.projectionIntents = [] ∧
      (r.state.toScrumCollections = {} ∨ ∃ delta, DependencyPause context visit delta ∧
        r.state.toScrumCollections = { statusVisits := [pausedBy visit delta] }) := by
  obtain ⟨hclaims, hnatural, hintents, hrows | ⟨delta, hwait, hrows⟩⟩ := dependencyRecords_wait h
  · exact ⟨hclaims, hnatural, hintents, .inl hrows⟩
  · exact ⟨hclaims, hnatural, hintents, .inr ⟨delta, hwait.toDependencyPause, hrows⟩⟩

theorem externalDependency_eq_ok {context : RiskContext p} {out : RiskRecords p}
    (h : externalDependency context = .ok out) :
    out = {} ∨ collectRecords (dependencyRecords context) (openVisits context.state) = .ok out := by
  unfold externalDependency at h
  split_ifs at h
  · exact .inl (Except.ok.inj h).symm
  · exact .inr h

/-! ### Member unavailability -/

theorem unavailabilityRecords_eq_ok {context : RiskContext p} {memberId : Uuid}
    {r : RiskRecords p} (h : unavailabilityRecords context memberId = .ok r) :
    ∃ (overlays : List MemberAvailabilityOverlay) (claim : SemanticCounterClaim)
      (eligible : EligibleNaturalDecisionClaim),
      r.state.toScrumCollections = { memberAvailabilityOverlays := overlays } ∧
      (∀ overlay ∈ overlays, overlay.memberId = memberId ∧
        overlay.teamId = context.state.aggregate.runtime.teamId ∧
        overlay.runId = context.state.aggregate.runtime.runId ∧ overlay.validate = .ok ()) ∧
      naturalClaim context.state memberId .RISK_MEMBER_UNAVAILABLE_OUTCOME (dateOf context.asOf) =
        .ok (claim, eligible) ∧
      r.counterClaims = [claim] ∧ r.naturalDecisionClaims = [eligible] ∧
      r.projectionIntents = [] := by
  simp only [unavailabilityRecords, bind_eq_ok, pure_eq_ok, ScrumStateWriteSet.create_eq_ok] at h
  obtain ⟨decision, hdecision, state, hstate, rfl⟩ := h
  simp only [unavailabilityDecision, bind_eq_ok] at hdecision
  obtain ⟨pair, hpair, factors, -, probability, -, duration, -, hdecision⟩ := hdecision
  split at hdecision
  · simp only [bind_eq_ok, map_eq_ok, unavailabilityOverlay, validated_eq_ok, pure_eq_ok]
      at hdecision
    obtain ⟨_, ⟨overlay, ⟨endsAt, -, hvalid, rfl⟩, rfl⟩, rfl⟩ := hdecision
    refine ⟨_, pair.1, pair.2, hstate, ?_, hpair, rfl, rfl, rfl⟩
    intro row hrow
    rw [Option.mem_toList, Option.some.injEq] at hrow
    subst hrow
    exact ⟨rfl, rfl, rfl, hvalid⟩
  · simp only [bind_eq_ok, pure_eq_ok] at hdecision
    obtain ⟨_, rfl, rfl⟩ := hdecision
    exact ⟨_, pair.1, pair.2, hstate, by simp, hpair, rfl, rfl, rfl⟩

theorem memberUnavailability_eq_ok {context : RiskContext p} {out : RiskRecords p}
    (h : memberUnavailability context = .ok out) :
    out = {} ∨ ∃ boundary, workdayBoundary context.state context.asOf = .ok (some boundary) ∧
      context.rule.trigger = "WORKDAY_STARTED" ∧
      collectRecords (unavailabilityRecords { context with asOf := boundary })
        (visitOwners context.state) = .ok out := by
  simp only [memberUnavailability, bind_eq_ok] at h
  obtain ⟨boundary, hboundary, h⟩ := h
  cases boundary with
  | none => exact .inl (pure_eq_ok.mp h).symm
  | some boundary =>
    simp only at h
    split_ifs at h with htrigger
    · exact .inl (pure_eq_ok.mp h).symm
    · exact .inr ⟨boundary, hboundary, not_not.mp htrigger, h⟩

end JiraSimulator
