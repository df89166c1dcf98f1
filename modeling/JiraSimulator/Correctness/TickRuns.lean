import JiraSimulator.Correctness.NewVisits
import JiraSimulator.Correctness.RiskRecords
import JiraSimulator.Correctness.SegmentRuns
import JiraSimulator.Domain.TickSlice

/-!
# The advance of one tick

`VisitFinish` says what becomes of one visit at the end of a tick, and `TickRun` collects what the
final advance of a tick consists of: the risks, the run over the segments, and the finished visits.

* `tickAdvance_eq_ok`: every advance of a tick is such a run, and ends where its risks end.
* `TickRun.rows`: the rows after a tick are the working rows updated with the progress.
-/

namespace JiraSimulator

open Library Library.Outcome ScrumCollections

variable {p : Platform}

/-! ### Finished visits -/

/-- The visit closed at the end of a tick. -/
def closedVisit (visit : StatusVisitState) (instant : ℤ) : StatusVisitState :=
  { visit with lifecycle := .CLOSED, closedAt := some instant }

/-- The item after its last timed step. -/
def doneWork (work : WorkItemState) (status : String) (instant : ℤ) : WorkItemState :=
  { work with lifecycle := .DONE, currentStatusKey := status, updatedAt := instant }

/-- The item in its next timed step. -/
def movedWork (work : WorkItemState) (status : String) (instant : ℤ) : WorkItemState :=
  { work with currentStatusKey := status, updatedAt := instant }

/-- A completed visit is closed; `later` are the steps of the route after it. -/
structure Completion (state : LiveTeamState p) (instant : ℤ) (visit : StatusVisitState)
    (work : WorkItemState) (later : List WorkflowRouteStep) : Prop where
  remaining : visit.remainingWorkMicroseconds = 0
  closedValid : (closedVisit visit instant).Valid
  work_mem : work ∈ state.scrum.workItems
  work_id : work.id = visit.workItemId
  route : ∃ route, routeForIssueType state.aggregate.blueprint work.issueType = .ok route ∧
    laterSteps route.steps visit.statusKey = .ok later

/-- What the end of a tick writes for one visit. -/
inductive VisitFinish (state : LiveTeamState p) (instant : ℤ) (draws : DrawSource)
    (visit : StatusVisitState) (finished : FinishedVisit) : Prop
  | kept (hmem : visit ∈ openVisits state) (h : finished = {})
  | advanced (before : StatusVisitState) (hmem : before ∈ openVisits state)
      (hid : before.id = visit.id) (hne : visit ≠ before) (h : finished = { visits := [visit] })
  | done (work : WorkItemState) (later : List WorkflowRouteStep) (terminal : WorkflowRouteStep)
      (completion : Completion state instant visit work later)
      (hfirst : firstTimedStep state.aggregate.blueprint later = .ok none)
      (hterminal : later.getLast? = some terminal)
      (hvalid : (doneWork work terminal.statusKey instant).Valid)
      (h : finished = {
        visits := [closedVisit visit instant]
        workItems := [doneWork work terminal.statusKey instant] })
  | moved (work : WorkItemState) (later : List WorkflowRouteStep) (step : WorkflowRouteStep)
      (counter : SemanticCounter) (next : StatusVisitState) (sample : StatusVisitSample)
      (completion : Completion state instant visit work later)
      (hfirst : firstTimedStep state.aggregate.blueprint later = .ok (some step))
      (hcounter : visitCounter state work.id = .ok counter)
      (hvalid : (movedWork work step.statusKey instant).Valid)
      (enters : EntersVisit p state.aggregate.blueprint draws
        (movedWork work step.statusKey instant) step counter.nextValue none instant next sample)
      (hclaim : ({ scope := counter.scope, expectedNext := counter.nextValue, count := 1 } :
        SemanticCounterClaim).validate = .ok ())
      (h : finished = {
        visits := [closedVisit visit instant, next]
        workItems := [movedWork work step.statusKey instant]
        samples := [sample]
        claims := [{ scope := counter.scope, expectedNext := counter.nextValue, count := 1 }] })

theorem finishVisit_eq_ok {state : LiveTeamState p} {calendar : BusinessCalendar} {instant : ℤ}
    {draws : DrawSource} {visit : StatusVisitState} {finished : FinishedVisit}
    (h : finishVisit state calendar (openVisits state) instant draws visit = .ok finished) :
    VisitFinish state instant draws visit finished := by
  simp only [finishVisit, bind_eq_ok] at h
  obtain ⟨sample, -, complete, hcomplete, h⟩ := h
  cases complete with
  | false =>
    simp only [Bool.false_eq_true, if_false, bind_eq_ok, pure_eq_ok] at h
    obtain ⟨before, hbefore, rfl⟩ := h
    obtain ⟨hmem, hid⟩ := getItem_eq_ok hbefore
    by_cases hne : visit ≠ before
    · exact .advanced before hmem hid hne (by rw [if_pos hne])
    · rw [not_not] at hne
      subst hne
      exact .kept hmem (by rw [if_neg (fun h => h rfl)])
  | true =>
    have hremaining : visit.remainingWorkMicroseconds = 0 := by
      unfold isComplete at hcomplete
      split_ifs at hcomplete with hzero
      · cases hcomplete
      · exact not_not.mp hzero
    simp only [if_true, bind_eq_ok, validated_eq_ok, StatusVisitState.validate_eq_ok,
      pure_eq_ok] at h
    obtain ⟨closed, ⟨hclosed, rfl⟩, work, hwork, moved, hmoved, rfl⟩ := h
    obtain ⟨hmem, hid⟩ := getItem_eq_ok hwork
    simp only [transition, bind_eq_ok] at hmoved
    obtain ⟨route, hroute, later, hlater, first, hfirst, hmoved⟩ := hmoved
    -- the visit is complete, so the item ends or goes on to its next timed step
    have completion : Completion state instant visit work later :=
      ⟨hremaining, hclosed, hmem, hid, route, hroute, hlater⟩
    cases first with
    | none =>
      cases hlast : later.getLast? with
      | none => simp [hlast] at hmoved
      | some terminal =>
        simp only [hlast, bind_eq_ok, validated_eq_ok, WorkItemState.validate_eq_ok,
          pure_eq_ok] at hmoved
        obtain ⟨done, ⟨hvalid, rfl⟩, rfl⟩ := hmoved
        exact .done work later terminal completion hfirst hlast hvalid rfl
    | some step =>
      simp only [bind_eq_ok, validated_eq_ok, WorkItemState.validate_eq_ok,
        SemanticCounterClaim.one, pure_eq_ok] at hmoved
      obtain ⟨counter, hcounter, next, ⟨hvalid, rfl⟩, pair, hpair, claim, ⟨hclaim, rfl⟩, rfl⟩ :=
        hmoved
      exact .moved work later step counter pair.1 pair.2 completion hfirst hcounter hvalid
        (newSampledVisit_eq_ok hpair) hclaim rfl

/-! ### The end of a tick -/

theorem workdayStartBetween_eq_ok {calendar : BusinessCalendar} {cursor endsAt instant : ℤ}
    {days : List ℤ} (h : workdayStartBetween calendar cursor endsAt days = .ok instant)
    (hle : cursor ≤ endsAt) : cursor ≤ instant := by
  induction days with
  | nil =>
    cases h
    exact hle
  | cons day days ih =>
    simp only [workdayStartBetween, bind_eq_ok] at h
    obtain ⟨working, -, h⟩ := h
    cases working with
    | none =>
      simp only [bind_eq_ok, exists_unit] at h
      exact ih h.2
    | some interval =>
      simp only at h
      split_ifs at h with hinside
      · rw [pure_eq_ok] at h
        omega
      · simp only [bind_eq_ok, exists_unit] at h
        exact ih h.2

theorem effectiveEnd_eq_ok {state : LiveTeamState p} {requested instant : ℤ}
    (h : effectiveEnd state requested = .ok instant) : cursor state ≤ instant := by
  unfold effectiveEnd at h
  extract_lets planned bounded at h
  unfold nextWorkdayRiskBoundary at h
  simp only at h
  split_ifs at h
  · cases h
    exact le_max_left _ _
  · simp only [bind_eq_ok] at h
    obtain ⟨calendar, -, day, -, final, -, h⟩ := h
    exact workdayStartBetween_eq_ok h (le_max_left _ _)

/-! ### One advance -/

/-- The calls that compute the final advance of a tick. -/
structure TickCalls (state : LiveTeamState p) (draws : DrawSource) (advance : RiskAdvance p)
    (outcome : SegmentsOutcome) (finish : StatusVisitState → FinishedVisit)
    (calendar : BusinessCalendar) (segments : List BusinessSegment) : Prop where
  calendar_eq : state.calendar = .ok calendar
  segments_eq : businessSegments advance.state calendar (cursor state) advance.result.endsAt =
    .ok segments
  outcome_eq : runSegments advance.state calendar (riskBlockedVisits state advance.risks)
    advance.result.endsAt segments (openVisits advance.state) (consumptionMap advance.state) =
      .ok outcome
  committedEnd : outcome.committedEnd = advance.result.endsAt
  finish_eq : ∀ visit ∈ outcome.visits, finishVisit advance.state calendar (openVisits advance.state)
    advance.result.endsAt draws visit = .ok (finish visit)

/-- The final advance of a tick. -/
structure TickRun (state : LiveTeamState p) (draws : DrawSource) (advance : RiskAdvance p)
    (outcome : SegmentsOutcome) (finish : StatusVisitState → FinishedVisit) : Prop where
  calls : ∃ calendar segments, TickCalls state draws advance outcome finish calendar segments
  cursor_le : cursor state ≤ advance.result.endsAt
  risks : evaluateDueRisks state advance.result.endsAt draws = .ok advance.risks
  working : state.withWriteSet advance.risks.state = .ok advance.state
  plays : Plays advance.state (riskBlockedVisits state advance.risks) (openVisits advance.state)
    (consumptionMap advance.state) outcome.played outcome.visits outcome.consumption
  within : ∀ entry ∈ outcome.played, entry.1.Within (cursor state) advance.result.endsAt
  finishes : ∀ visit ∈ outcome.visits,
    VisitFinish advance.state advance.result.endsAt draws visit (finish visit)
  visits : advance.result.visits = outcome.visits.flatMap fun visit => (finish visit).visits
  workItems : advance.result.workItems =
    outcome.visits.flatMap fun visit => (finish visit).workItems
  samples : advance.result.samples = outcome.visits.flatMap fun visit => (finish visit).samples
  claims : advance.result.claims = outcome.visits.flatMap fun visit => (finish visit).claims
  consumption : consumptionChanges advance.state outcome.consumption =
    .ok advance.result.consumption
  queueCauses : advance.result.queueCauses = aggregateQueueCauses p outcome.queueCauses

theorem advanceForRisks_eq_ok {state : LiveTeamState p} {calendar : BusinessCalendar}
    {draws : DrawSource} {endsAt : ℤ} {advance : RiskAdvance p}
    (hcalendar : state.calendar = .ok calendar)
    (h : advanceForRisks state calendar draws endsAt = .ok advance)
    (hcursor : cursor state ≤ endsAt) :
    cursor state ≤ advance.result.endsAt ∧ advance.result.endsAt ≤ endsAt ∧
      (advance.result.endsAt = endsAt → ∃ outcome finish,
        TickRun state draws advance outcome finish) := by
  simp only [advanceForRisks, advanceVisits, finishVisits, bind_eq_ok, pure_eq_ok] at h
  obtain ⟨risks, hrisks, working, hworking, segments, hsegments, result, ⟨outcome, houtcome, finish,
    ⟨finished, hfinished, changes, hchanges, rfl⟩, rfl⟩, rfl⟩ := h
  obtain ⟨hplays, hplayed, hstart, hend⟩ :=
    runSegments_eq_ok houtcome (businessSegments_eq_ok hsegments) hcursor
  refine ⟨hstart, hend, fun hsame => ?_⟩
  have hsame : outcome.committedEnd = endsAt := hsame
  obtain ⟨finishOf, rfl, hfinish⟩ := exists_eq_map_of_mapM hfinished
  subst hsame
  refine ⟨outcome, finishOf, ⟨calendar, segments, hcalendar, hsegments, houtcome, rfl, hfinish⟩,
    hstart, hrisks, hworking, hplays, ?_, ?_, ?_, ?_, ?_, ?_, hchanges, rfl⟩
  · exact hplayed
  · exact fun visit hvisit => finishVisit_eq_ok (hfinish visit hvisit)
  all_goals exact List.flatMap_map _ _ _

theorem riskAwareAdvanceFrom_eq_ok {state : LiveTeamState p} {calendar : BusinessCalendar}
    {draws : DrawSource} {fuel : ℕ} {endsAt : ℤ} {advance : RiskAdvance p}
    (hcalendar : state.calendar = .ok calendar)
    (h : riskAwareAdvanceFrom state calendar draws fuel endsAt = .ok advance)
    (hcursor : cursor state ≤ endsAt) :
    ∃ outcome finish, TickRun state draws advance outcome finish := by
  induction fuel generalizing endsAt with
  | zero => cases h
  | succ fuel ih =>
    simp only [riskAwareAdvanceFrom, bind_eq_ok] at h
    obtain ⟨first, hfirst, h⟩ := h
    obtain ⟨hstart, hend, hrun⟩ := advanceForRisks_eq_ok hcalendar hfirst hcursor
    split_ifs at h with hshorter
    · exact ih h hstart
    · rw [pure_eq_ok] at h
      subst h
      exact hrun (le_antisymm hend (not_lt.mp hshorter))

theorem tickAdvance_eq_ok {state : LiveTeamState p} {request : TickRequest} {draws : DrawSource}
    {advance : RiskAdvance p} (h : tickAdvance state request draws = .ok advance) :
    ∃ outcome finish, TickRun state draws advance outcome finish := by
  simp only [tickAdvance, riskAwareAdvance, bind_eq_ok] at h
  obtain ⟨calendar, hcalendar, endsAt, hendsAt, h⟩ := h
  exact riskAwareAdvanceFrom_eq_ok hcalendar h (effectiveEnd_eq_ok hendsAt)

end JiraSimulator
