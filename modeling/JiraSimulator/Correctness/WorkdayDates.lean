import JiraSimulator.Correctness.CommitAttempts
import JiraSimulator.Correctness.TimePartition

/-!
# The dates of workday decisions

The decisions at a workday start are keyed by the date of the start in UTC.  It is the local date as
long as the UTC offset at the start moves it to no other date; otherwise the starts of two working
days can lie on one date in UTC, and the second decision has the key of the first.

* `claim_dated_iff`: when the decisions of a tick are keyed by the local date.
* `workday_decisions_keyed`: in runs that decide at workday starts on their dates in UTC.
* `workday_decisions_collide`: a change of the clocks between two working days.
-/

namespace JiraSimulator

open Library Library.Outcome Library.Transition ScrumCollections

variable {p : Platform}

/-! ### The local date of a workday start -/

theorem roundtripCandidate_eq_ok {zone : TimeZone} {naive candidate : ℤ} {fold : Bool}
    (h : roundtripCandidate naive zone fold = .ok (some candidate)) :
    toLocal zone candidate = .ok (naive, fold) := by
  simp only [roundtripCandidate, bind_eq_ok] at h
  obtain ⟨utc, -, wall, hwall, h⟩ := h
  split_ifs at h with hne
  · cases h
  · rw [not_or, not_not, not_not] at hne
    obtain ⟨rfl, rfl⟩ := hne
    obtain rfl := Option.some.inj (Except.ok.inj h)
    exact hwall

/-- A resolved instant has the wall-clock time that it was resolved from. -/
theorem resolveLocal_eq_ok {zone : TimeZone} {naive instant : ℤ}
    (h : resolveLocal zone naive = .ok instant) :
    ∃ fold, toLocal zone instant = .ok (naive, fold) := by
  simp only [resolveLocal, bind_eq_ok] at h
  obtain ⟨first, hfirst, second, hsecond, h⟩ := h
  cases first with
  | none =>
    cases second with
    | none => cases h
    | some b =>
      cases h
      exact ⟨true, roundtripCandidate_eq_ok hsecond⟩
  | some a =>
    have hlocal := roundtripCandidate_eq_ok hfirst
    cases second with
    | none =>
      cases h
      exact ⟨false, hlocal⟩
    | some b =>
      simp only at h
      split_ifs at h
      cases h
      exact ⟨false, hlocal⟩

/-- Work begins inside a date. -/
theorem workdayStart_lt {state : LiveTeamState p} {calendar : BusinessCalendar}
    (h : state.calendar = .ok calendar) : calendar.workdayStart < 1440 := by
  have hlt := workday_lt state.aggregate.blueprint
  simp only [LiveTeamState.calendar, BusinessCalendar.fromBlueprint, bind_eq_ok, exists_unit,
    require_eq_ok, pure_eq_ok] at h
  obtain ⟨hordered, -, zone, -, -, -, -, -, -, -, rfl⟩ := h
  show state.aggregate.blueprint.calendar.workdayStart < 1440
  omega

/-- The instant is the start of work of a date. -/
def BusinessCalendar.StartsAt (calendar : BusinessCalendar) (day boundary : ℤ) : Prop :=
  ∃ interval, calendar.workingInterval day = .ok (some interval) ∧ interval.start = boundary

/-- The UTC offset at a workday start moves the start to no other date. -/
def BusinessCalendar.StartsOnDate (calendar : BusinessCalendar) (boundary : ℤ) : Prop :=
  ∀ wall, toLocal calendar.timezone boundary = .ok wall →
    0 ≤ calendar.workdayStart * 60000000 - (wall.1 - boundary) ∧
      calendar.workdayStart * 60000000 - (wall.1 - boundary) < microsecondsPerDay

section start

variable {calendar : BusinessCalendar} {day boundary : ℤ}

theorem BusinessCalendar.StartsAt.wall (h : calendar.StartsAt day boundary) :
    ∃ fold, toLocal calendar.timezone boundary =
      .ok (BusinessCalendar.atMinute day calendar.workdayStart, fold) := by
  obtain ⟨interval, hinterval, rfl⟩ := h
  exact resolveLocal_eq_ok (workingInterval_eq_ok hinterval).1

/-- The business date of a workday start is its local date. -/
theorem BusinessCalendar.StartsAt.businessDate (h : calendar.StartsAt day boundary)
    (hstart : calendar.workdayStart < 1440) : calendar.businessDate boundary = .ok day := by
  obtain ⟨fold, hwall⟩ := h.wall
  rw [BusinessCalendar.businessDate, hwall, ok_bind]
  show Except.ok (dateOf (BusinessCalendar.atMinute day calendar.workdayStart)) = .ok day
  have hdate : dateOf (BusinessCalendar.atMinute day calendar.workdayStart) = day := by
    unfold dateOf BusinessCalendar.atMinute microsecondsPerDay
    omega
  rw [hdate]

/-- A date starts work once. -/
theorem BusinessCalendar.StartsAt.unique {boundary' : ℤ} (h : calendar.StartsAt day boundary)
    (h' : calendar.StartsAt day boundary') : boundary = boundary' := by
  obtain ⟨interval, hinterval, rfl⟩ := h
  obtain ⟨interval', hinterval', rfl⟩ := h'
  rw [hinterval] at hinterval'
  obtain rfl := Option.some.inj (Except.ok.inj hinterval')
  rfl

/-- The date of a workday start in UTC is its local date when the offset moves it to no other
date. -/
theorem BusinessCalendar.StartsAt.dateOf_iff (h : calendar.StartsAt day boundary) :
    dateOf boundary = day ↔ calendar.StartsOnDate boundary := by
  obtain ⟨fold, hwall⟩ := h.wall
  have hoffset : calendar.StartsOnDate boundary ↔
      day * microsecondsPerDay ≤ boundary ∧ boundary < (day + 1) * microsecondsPerDay := by
    unfold BusinessCalendar.StartsOnDate
    simp only [hwall, Except.ok.injEq, forall_eq', BusinessCalendar.atMinute, microsecondsPerDay]
    omega
  rw [hoffset]
  unfold dateOf microsecondsPerDay
  omega

end start

/-! ### The decisions of a tick -/

theorem firstWorkdayStart_startsAt {calendar : BusinessCalendar} {startsAt asOf boundary : ℤ}
    {days : List ℤ} (h : firstWorkdayStart calendar startsAt asOf days = .ok (some boundary)) :
    ∃ day, calendar.StartsAt day boundary := by
  induction days with
  | nil => cases h
  | cons day days ih =>
    simp only [firstWorkdayStart, bind_eq_ok] at h
    obtain ⟨working, hworking, h⟩ := h
    cases working with
    | none =>
      simp only [bind_eq_ok, exists_unit] at h
      exact ih h.2
    | some interval =>
      simp only at h
      split_ifs at h
      · obtain rfl := Option.some.inj (Except.ok.inj h)
        exact ⟨day, interval, hworking, rfl⟩
      · simp only [bind_eq_ok, exists_unit] at h
        exact ih h.2

theorem workdayBoundary_startsAt {state : LiveTeamState p} {asOf boundary : ℤ}
    (h : workdayBoundary state asOf = .ok (some boundary)) :
    ∃ calendar day, state.calendar = .ok calendar ∧ calendar.StartsAt day boundary := by
  simp only [workdayBoundary] at h
  split_ifs at h
  · cases h
  · simp only [bind_eq_ok] at h
    obtain ⟨calendar, hcalendar, day, -, final, -, h⟩ := h
    obtain ⟨day, hday⟩ := firstWorkdayStart_startsAt h
    exact ⟨calendar, day, hcalendar, hday⟩

theorem workdayBoundary_congr {state working : LiveTeamState p}
    (h : working.aggregate = state.aggregate) (asOf : ℤ) :
    workdayBoundary working asOf = workdayBoundary state asOf := by
  unfold workdayBoundary cursor LiveTeamState.calendar
  rw [h]

/-- A natural decision at a workday start: its claim is keyed by the date of the start in UTC and
takes its occurrence from a counter. -/
structure DecidedAt (state : LiveTeamState p) (boundary : ℤ)
    (claim : EligibleNaturalDecisionClaim) : Prop where
  date : claim.businessDate = dateOf boundary
  counter : ∃ counter ∈ state.scrum.semanticCounters, counter.scope = claim.scope ∧
    claim.decision.occurrence = counter.nextValue

theorem decidedAt_of_naturalClaim {state : LiveTeamState p} {entityId : Uuid}
    {decisionType : DecisionType} {boundary : ℤ} {claim : SemanticCounterClaim}
    {eligible : EligibleNaturalDecisionClaim}
    (h : naturalClaim state entityId decisionType (dateOf boundary) = .ok (claim, eligible)) :
    DecidedAt state boundary eligible := by
  obtain ⟨counter, hmem, hscope, -, -, rfl, -⟩ := naturalClaim_eq_ok h
  exact ⟨rfl, counter, hmem, hscope, rfl⟩

/-- The rule decides at a workday start: about the cancellation of an active item, or about the
absence of a member who owns a visit. -/
def DecidesAtStart (context : RiskContext p) : Prop :=
  context.rule.trigger = "WORKDAY_STARTED" ∧
    (context.rule.key = "CANCELLATION" ∧ activeWork context.state ≠ [] ∨
      context.rule.key = "MEMBER_UNAVAILABLE" ∧ visitOwners context.state ≠ [])

/-- The natural decisions of a rule are taken at the workday start of the evaluation. -/
theorem handler_natural {context : RiskContext p} {out : RiskRecords p}
    {handler : RiskContext p → Result (RiskRecords p)}
    (hhandler : handlerFor context.rule.key = some handler) (hout : handler context = .ok out)
    {claim : EligibleNaturalDecisionClaim} (hclaim : claim ∈ out.naturalDecisionClaims) :
    DecidesAtStart context ∧
      ∃ boundary, workdayBoundary context.state context.asOf = .ok (some boundary) ∧
        DecidedAt context.state boundary claim := by
  -- the other rules make no natural decision
  have hnone : ∀ {α : Type} {record : α → Result (RiskRecords p)} {items : List α},
      collectRecords record items = .ok out →
      (∀ x ∈ items, ∀ r, record x = .ok r → r.naturalDecisionClaims = []) → False := by
    intro α record items hcollect hrecord
    obtain ⟨rs, hall, hmerged⟩ := collectRecords_eq_ok hcollect
    rw [hmerged.naturalDecisionClaims, List.mem_flatMap] at hclaim
    obtain ⟨r, hr, hclaim⟩ := hclaim
    obtain ⟨x, hx, hxr⟩ := forall₂_exists_left hall hr
    rw [hrecord x hx r hxr] at hclaim
    cases hclaim
  obtain ⟨hkey, rfl⟩ | ⟨hkey, rfl⟩ | ⟨hkey, rfl⟩ | ⟨hkey, rfl⟩ | ⟨hkey, rfl⟩ :=
    handlerFor_eq_some hhandler
  · unfold longStay at hout
    split_ifs at hout
    · cases hout
      cases hclaim
    · exact (hnone hout fun visit _ r hr => (longStayRecord_silent hr).naturalDecisionClaims).elim
  · rcases reviewRejection_eq_ok hout with rfl | ⟨-, hcollect⟩
    · cases hclaim
    · refine (hnone hcollect fun review hreview r hr => ?_).elim
      obtain ⟨hmem, hdue⟩ := List.mem_filter.mp hreview
      obtain ⟨work, decision, -, hnatural, -⟩ := dueReviewRecords_eq_ok hmem hdue hr
      exact hnatural
  · rcases cancellation_eq_ok hout with rfl | ⟨boundary, hboundary, htrigger, hcollect⟩
    · cases hclaim
    · obtain ⟨rs, hall, hmerged⟩ := collectRecords_eq_ok hcollect
      rw [hmerged.naturalDecisionClaims, List.mem_flatMap] at hclaim
      obtain ⟨r, hr, hclaim⟩ := hclaim
      obtain ⟨work, hwork, hxr⟩ := forall₂_exists_left hall hr
      obtain ⟨decision, hverdict, -, hnatural, -⟩ :=
        cancellationRecords_eq_ok htrigger hboundary hwork hxr
      rw [hnatural, List.mem_singleton] at hclaim
      rw [hclaim]
      exact ⟨⟨htrigger, .inl ⟨hkey, List.ne_nil_of_mem hwork⟩⟩, boundary, hboundary,
        decidedAt_of_naturalClaim (cancellationDecision_eq_ok hverdict.decided).1⟩
  · rcases externalDependency_eq_ok hout with rfl | hcollect
    · cases hclaim
    · exact (hnone hcollect fun visit _ r hr => (dependencyRecords_eq_ok hr).2.1).elim
  · rcases memberUnavailability_eq_ok hout with rfl | ⟨boundary, hboundary, htrigger, hcollect⟩
    · cases hclaim
    · obtain ⟨rs, hall, hmerged⟩ := collectRecords_eq_ok hcollect
      rw [hmerged.naturalDecisionClaims, List.mem_flatMap] at hclaim
      obtain ⟨r, hr, hclaim⟩ := hclaim
      obtain ⟨member, hmember, hxr⟩ := forall₂_exists_left hall hr
      obtain ⟨overlays, counterClaim, eligible, -, -, hnatural, -, hclaims, -⟩ :=
        unavailabilityRecords_eq_ok hxr
      rw [hclaims, List.mem_singleton] at hclaim
      rw [hclaim]
      exact ⟨⟨htrigger, .inr ⟨hkey, List.ne_nil_of_mem hmember⟩⟩, boundary, hboundary,
        decidedAt_of_naturalClaim hnatural⟩

/-- The event decides at this workday start. -/
def DecidesAt (state : LiveTeamState p) (event : TeamEvent) (asOf boundary : ℤ) : Prop :=
  workdayBoundary state asOf = .ok (some boundary) ∧
    ∃ context, Evaluates state event context ∧ DecidesAtStart context ∧ context.asOf = asOf

theorem evaluateDueRisks_natural {state : LiveTeamState p} {event : TeamEvent} {draws : DrawSource}
    {advance : RiskAdvance p} (hadvances : TickAdvances state event draws advance)
    (h : evaluateDueRisks state advance.result.endsAt draws = .ok advance.risks)
    {claim : EligibleNaturalDecisionClaim}
    (hclaim : claim ∈ advance.risks.naturalDecisionClaims) :
    ∃ boundary, DecidesAt state event advance.result.endsAt boundary ∧
      DecidedAt state boundary claim := by
  simp only [evaluateDueRisks, bind_eq_ok, pure_eq_ok] at h
  obtain ⟨progress, hprogress, hrisks⟩ := h
  rw [← hrisks] at hclaim
  revert hclaim
  refine (hadvances.rules_induction (motive := fun progress : RiskProgress p =>
    (progress.working.aggregate = state.aggregate ∧
      progress.working.scrum.semanticCounters = state.scrum.semanticCounters) ∧
    (claim ∈ progress.records.naturalDecisionClaims →
      ∃ boundary, DecidesAt state event advance.result.endsAt boundary ∧
        DecidedAt state boundary claim)) hprogress ⟨⟨rfl, rfl⟩, by simp⟩ ?_).2
  rintro rule progress next _ hevaluates ⟨⟨haggregate, hcounters⟩, ih⟩ hstep
  obtain ⟨haggregate', hframe, -⟩ := applyRule_riskStep hstep
  refine ⟨⟨haggregate'.trans haggregate, hframe.semanticCounters.trans hcounters⟩, fun hmem => ?_⟩
  rcases applyRule_eq_ok hstep with rfl | ⟨handler, outcome, hhandler, hout, hmerge, -⟩
  · exact ih hmem
  · rw [(RiskRecords.merge_eq_ok hmerge).2.2.2.2.2, List.mem_append] at hmem
    rcases hmem with hold | hnew
    · exact ih hold
    · obtain ⟨hdecides, boundary, hboundary, hdate, hcounter⟩ := @handler_natural p
        { state := progress.working, asOf := advance.result.endsAt, draws, rule } _ _ hhandler hout
        _ hnew
      rw [workdayBoundary_congr haggregate] at hboundary
      rw [hcounters] at hcounter
      exact ⟨boundary, ⟨hboundary, _, hevaluates, hdecides, rfl⟩, hdate, hcounter⟩

theorem BoundaryStep.no_natural {state : LiveTeamState p} {boundary : ℤ}
    {transition : SprintTransition p} (h : BoundaryStep state boundary transition) :
    transition.naturalDecisionClaims = [] := by
  cases h with
  | quiet h =>
    subst h
    rfl
  | activates =>
    rename_i h
    subst h
    rfl
  | rolls =>
    rename_i h
    subst h
    rfl

/-- The natural decisions of a command are taken by a tick, at the first workday start that it
covers. -/
theorem commandFor_natural {state : LiveTeamState p} {event : TeamEvent}
    {command : AuthoritativeTickSliceCommit p} (h : commandFor state event = .ok (some command))
    {claim : EligibleNaturalDecisionClaim} (hclaim : claim ∈ command.naturalDecisionClaims) :
    ∃ boundary, DecidesAt state event command.liveSlice.runtimeAfter.simulationTime boundary ∧
      DecidedAt state boundary claim := by
  cases event with
  | tick request draws =>
    simp only [commandFor, map_eq_ok, Option.some.injEq] at h
    obtain ⟨command', hcommand, rfl⟩ := h
    simp only [calculateScrumTick, bind_eq_ok, exists_unit] at hcommand
    obtain ⟨-, transition, hcross, hcommand⟩ := hcommand
    by_cases hactivity : transition.activity ≠ []
    · -- the tick crosses a boundary of the sprint and evaluates no rule
      rw [if_pos hactivity] at hcommand
      simp only [lifecycleCommit, AuthoritativeTickSliceCommit.create, bind_eq_ok,
        validated_eq_ok] at hcommand
      obtain ⟨slice, -, -, rfl⟩ := hcommand
      have hnone := (crossSprintBoundary_eq_ok hcross).no_natural
      rw [hnone] at hclaim
      cases hclaim
    · rw [if_neg hactivity, bind_eq_ok] at hcommand
      -- the claims are those of the rules at the end of the advance
      obtain ⟨advance, hadvance, hfinal⟩ := hcommand
      obtain ⟨outcome, finish, hrun⟩ := tickAdvance_eq_ok hadvance
      simp only [finalizeTick, bind_eq_ok] at hfinal
      obtain ⟨slice, hslice, hassemble⟩ := hfinal
      have hassembled := assembleTick_eq_ok hassemble
      have hends : command'.liveSlice.runtimeAfter.simulationTime = advance.result.endsAt := by
        rw [hassembled.slice_eq]
        exact (tickSlice_runtimeAfter hslice).2
      have hadvances : TickAdvances state (.tick request draws) draws advance :=
        .intro request rfl ⟨transition, hcross, not_not.mp hactivity⟩ hadvance
      rw [hends]
      rw [hassembled.natural_eq] at hclaim
      exact evaluateDueRisks_natural hadvances hrun.risks hclaim
  | downtimeEvidence asOf =>
    simp only [commandFor] at h
    split_ifs at h
    · simp only [map_eq_ok, Option.some.injEq, downtimeEvidenceCommand, downtimeCommand,
        AuthoritativeTickSliceCommit.create, bind_eq_ok, validated_eq_ok] at h
      obtain ⟨command', ⟨slice, -, -, rfl⟩, rfl⟩ := h
      cases hclaim
    · cases h
  | skipDowntime asOf =>
    simp only [commandFor] at h
    split_ifs at h
    · simp only [map_eq_ok, Option.some.injEq, skipDowntimeCommand, downtimeCommand,
        AuthoritativeTickSliceCommit.create, bind_eq_ok, validated_eq_ok] at h
      obtain ⟨command', ⟨slice, -, -, rfl⟩, rfl⟩ := h
      cases hclaim
    · cases h
  | lifecycleBoundary asOf =>
    simp only [commandFor] at h
    split at h
    · split_ifs at h
      · simp only [map_eq_ok, Option.some.injEq, lifecycleBoundaryCommand,
          AuthoritativeTickSliceCommit.create, bind_eq_ok, validated_eq_ok] at h
        obtain ⟨command', ⟨transition, hcross, slice, -, -, rfl⟩, rfl⟩ := h
        have hnone := (crossSprintBoundary_eq_ok hcross).no_natural
        rw [hnone] at hclaim
        cases hclaim
      · cases h
    · cases h
  | bootstrap startedAt => simp [commandFor] at h

/-- The claim of a decision of a tick is keyed by the business date of its workday start if and only
if the UTC offset moves this start to no other date. -/
theorem claim_dated_iff {state : LiveTeamState p} {request : TickRequest} {draws : DrawSource}
    {command : AuthoritativeTickSliceCommit p}
    (h : calculateScrumTick state request draws = .ok command)
    {claim : EligibleNaturalDecisionClaim} (hclaim : claim ∈ command.naturalDecisionClaims) :
    ∃ calendar boundary, state.calendar = .ok calendar ∧
      workdayBoundary state command.liveSlice.runtimeAfter.simulationTime = .ok (some boundary) ∧
      (calendar.businessDate boundary = .ok claim.businessDate ↔
        calendar.StartsOnDate boundary) := by
  have hcommand : commandFor state (.tick request draws) = .ok (some command) := by
    rw [commandFor, h]
    rfl
  obtain ⟨boundary, ⟨hboundary, -⟩, hdecided⟩ := commandFor_natural hcommand hclaim
  obtain ⟨calendar, day, hcalendar, hstarts⟩ := workdayBoundary_startsAt hboundary
  refine ⟨calendar, boundary, hcalendar, hboundary, ?_⟩
  rw [hstarts.businessDate (workdayStart_lt hcalendar), Except.ok.injEq, hdecided.date,
    ← hstarts.dateOf_iff]
  exact eq_comm

/-! ### Runs -/

/-- The workday start at which a tick decides, if it does, lies on its own date in UTC. -/
def DecidesOnDate (store : TeamStore p) (event : TeamEvent) : Prop :=
  ∀ asOf boundary calendar, DecidesAt store.state event asOf boundary →
    store.state.calendar = .ok calendar → calendar.StartsOnDate boundary

/-- The decisions of a command are keyed by the local dates of their workday starts, and the commit
finds neither their keys nor their occurrences taken. -/
structure KeyedByWorkday (store : TeamStore p) (command : AuthoritativeTickSliceCommit p) : Prop
    where
  dated : ∀ claim ∈ command.naturalDecisionClaims, ∃ calendar boundary,
    store.state.calendar = .ok calendar ∧
    workdayBoundary store.state command.liveSlice.runtimeAfter.simulationTime =
      .ok (some boundary) ∧
    calendar.businessDate boundary = .ok claim.businessDate
  apart : ∀ claim ∈ command.naturalDecisionClaims,
    ∀ row ∈ store.scrum.naturalDecisionEvaluations, row.decisionType = claim.decision.decisionType →
      row.semanticEntityId = claim.decision.entityId → row.businessDate ≠ claim.businessDate
  preflight : ∀ evaluations : List NaturalDecisionEvaluation,
    (∀ row, row ∈ evaluations ↔ row ∈ store.scrum.naturalDecisionEvaluations) →
      forM command.naturalDecisionClaims (preflightNaturalClaim evaluations) = .ok ()
  resolved : ∀ evaluations : List NaturalDecisionEvaluation,
    (∀ row, row ∈ evaluations ↔ row ∈ store.scrum.naturalDecisionEvaluations) →
      ∃ evaluations', resolveNaturalClaims command evaluations = .ok evaluations'

/-- The evaluations of a run are keyed by working days that started before the cursor. -/
def EvaluationsBehind (store : TeamStore p) : Prop :=
  ∀ row ∈ store.scrum.naturalDecisionEvaluations, ∃ calendar boundary,
    store.state.calendar = .ok calendar ∧ calendar.StartsAt row.businessDate boundary ∧
      boundary < cursor store.state

theorem calendar_of_commit {store store' : TeamStore p} {command : AuthoritativeTickSliceCommit p}
    (h : Committed store command store') : store'.state.calendar = store.state.calendar := by
  unfold LiveTeamState.calendar TeamStore.state
  rw [h.blueprint_eq]

/-- The working day of a decision, at the cursor or later and before the end of its tick. -/
theorem decision_day {store : TeamStore p} {event : TeamEvent}
    {command : AuthoritativeTickSliceCommit p}
    (hcommand : commandFor store.state event = .ok (some command))
    (hok : DecidesOnDate store event) {claim : EligibleNaturalDecisionClaim}
    (hclaim : claim ∈ command.naturalDecisionClaims) :
    ∃ calendar boundary, store.state.calendar = .ok calendar ∧
      workdayBoundary store.state command.liveSlice.runtimeAfter.simulationTime =
        .ok (some boundary) ∧
      calendar.StartsAt claim.businessDate boundary ∧ DecidedAt store.state boundary claim := by
  obtain ⟨boundary, hdecides, hdecided⟩ := commandFor_natural hcommand hclaim
  have hboundary := hdecides.1
  obtain ⟨calendar, day, hcalendar, hstarts⟩ := workdayBoundary_startsAt hboundary
  have hday : dateOf boundary = day :=
    hstarts.dateOf_iff.mpr (hok _ boundary calendar hdecides hcalendar)
  refine ⟨calendar, boundary, hcalendar, hboundary, ?_, hdecided⟩
  rw [hdecided.date, hday]
  exact hstarts

/-- The evaluations of a run whose decisions are taken at workday starts on their dates. -/
structure EvaluationsDated (store : TeamStore p) : Prop where
  behind : EvaluationsBehind store
  counted : CoordinatesCounted store.scrum.toScrumCollections

theorem evaluationsDated_of_reachableBy {store : TeamStore p}
    (h : (teamRuns p).ReachableBy (fun _ => True) DecidesOnDate store) :
    EvaluationsDated store := by
  refine h.invariant ?_ ?_
  · intro start store hstart _
    obtain ⟨draws, context, picked, initial, hboot⟩ := bootstrap_eq_ok hstart
    refine ⟨fun row hrow => ?_, hboot.coordinatesCounted⟩
    have hrow := (hboot.mem_rows Collection.evaluations).mp hrow
    change row ∈ initial.naturalDecisionEvaluations at hrow
    rw [hboot.initialRows.evaluations] at hrow
    cases hrow
  · intro store event store' hreach hdated hok hstep
    have hbased := Based.of_reachable hreach
    rcases stepTeam_command hbased hstep with hsame | ⟨command, hcommand, hcommit⟩
    · rw [hsame]
      exact ⟨hdated.behind, hdated.counted⟩
    have hcommitted := commit_eq_ok hcommit
    obtain ⟨images, counters, evaluations, hsteps⟩ := commit_steps hcommit
    have hcursor : cursor store'.state = command.liveSlice.runtimeAfter.simulationTime :=
      hcommitted.runtime_eq.2.2.2.2
    have hle := (commandFor_eq_ok hcommand).1.cursor_le
    refine ⟨fun row hrow => ?_, hsteps.coordinatesCounted hcommitted hdated.counted⟩
    rw [calendar_of_commit hcommitted, hcursor]
    rcases hsteps.evaluation_source hrow with hold | ⟨claim, hclaim, rfl⟩
    · obtain ⟨calendar, boundary, hcalendar, hstarts, hlt⟩ := hdated.behind row hold
      exact ⟨calendar, boundary, hcalendar, hstarts, hlt.trans_le hle⟩
    · obtain ⟨calendar, boundary, hcalendar, hboundary, hstarts, -⟩ :=
        decision_day hcommand hok hclaim
      exact ⟨calendar, boundary, hcalendar, hstarts, (workdayBoundary_eq_ok hboundary).2⟩

/-! ### Commits -/

section commit

variable {evaluations : List NaturalDecisionEvaluation} {claim : EligibleNaturalDecisionClaim}

theorem eligibilityRow_eq_none (h : ∀ row ∈ evaluations,
    row.decisionType = claim.decision.decisionType →
      row.semanticEntityId = claim.decision.entityId → row.businessDate ≠ claim.businessDate) :
    eligibilityRow evaluations claim = none := by
  refine List.find?_eq_none.mpr fun row hrow hsame => ?_
  simp only [Bool.and_eq_true, decide_eq_true_eq] at hsame
  exact h row hrow hsame.1.1 hsame.1.2 hsame.2

theorem occurrenceRow_eq_none (h : ∀ row ∈ evaluations,
    row.decisionType = claim.decision.decisionType →
      row.semanticEntityId = claim.decision.entityId →
        row.occurrence ≠ claim.decision.occurrence) : occurrenceRow evaluations claim = none := by
  refine List.find?_eq_none.mpr fun row hrow hsame => ?_
  simp only [Bool.and_eq_true, decide_eq_true_eq] at hsame
  exact h row hrow hsame.1.1 hsame.1.2 hsame.2

/-- The key and the occurrence of the claim are taken by no evaluation. -/
structure Untaken (evaluations : List NaturalDecisionEvaluation)
    (claim : EligibleNaturalDecisionClaim) : Prop where
  date : ∀ row ∈ evaluations, row.decisionType = claim.decision.decisionType →
    row.semanticEntityId = claim.decision.entityId → row.businessDate ≠ claim.businessDate
  occurrence : ∀ row ∈ evaluations, row.decisionType = claim.decision.decisionType →
    row.semanticEntityId = claim.decision.entityId → row.occurrence ≠ claim.decision.occurrence

theorem Untaken.preflight (h : Untaken evaluations claim) :
    preflightNaturalClaim evaluations claim = .ok () := by
  rw [preflightNaturalClaim, eligibilityRow_eq_none h.date, occurrenceRow_eq_none h.occurrence]
  rfl

/-- A valid claim that is not taken gets its evaluation. -/
theorem Untaken.resolve (h : Untaken evaluations claim) {slice : TickSliceCommit}
    (hvalid : claim.validate = .ok ()) : resolveNaturalClaim slice evaluations claim =
      .ok (evaluations ++ [evaluationFromClaim slice claim]) := by
  have hrow : (evaluationFromClaim slice claim).validate = .ok () := by
    simp only [EligibleNaturalDecisionClaim.validate, bind_eq_ok, exists_unit,
      require_eq_ok] at hvalid
    simp only [NaturalDecisionEvaluation.validate, bind_eq_ok, exists_unit, require_eq_ok,
      requireSafeInteger_eq_ok, requireSemanticId, evaluationFromClaim]
    exact ⟨require_eq_ok.mpr hvalid.2, hvalid.1, trivial⟩
  have hvalidated : validated NaturalDecisionEvaluation.validate (evaluationFromClaim slice claim) =
      .ok (evaluationFromClaim slice claim) := validated_eq_ok.mpr ⟨hrow, rfl⟩
  rw [resolveNaturalClaim, eligibilityRow_eq_none h.date, occurrenceRow_eq_none h.occurrence,
    hvalidated]
  rfl

/-- Claims of one command on different counters do not take each other's evaluations. -/
theorem resolveNaturalClaims_of_untaken {slice : TickSliceCommit}
    {claims : List EligibleNaturalDecisionClaim}
    (hvalid : ∀ claim ∈ claims, claim.validate = .ok ())
    (hscopes : (claims.map (·.scope)).Nodup) (h : ∀ claim ∈ claims, Untaken evaluations claim) :
    ∃ evaluations', claims.foldlM (resolveNaturalClaim slice) evaluations = .ok evaluations' := by
  induction claims generalizing evaluations with
  | nil => exact ⟨evaluations, rfl⟩
  | cons claim claims ih =>
    rw [List.foldlM_cons, (h claim List.mem_cons_self).resolve (hvalid claim List.mem_cons_self),
      ok_bind]
    rw [List.map_cons, List.nodup_cons] at hscopes
    refine ih (fun other hother => hvalid other (List.mem_cons_of_mem _ hother)) hscopes.2 ?_
    intro other hother
    have huntaken := h other (List.mem_cons_of_mem _ hother)
    -- the new evaluation is one of another entity or of another type
    have hdifferent : ∀ row ∈ evaluations ++ [evaluationFromClaim slice claim],
        row.decisionType = other.decision.decisionType →
          row.semanticEntityId = other.decision.entityId → row ∈ evaluations := by
      intro row hrow htype hentity
      rcases List.mem_append.mp hrow with hold | hnew
      · exact hold
      · rw [List.mem_singleton.mp hnew] at htype hentity
        refine absurd (List.mem_map.mpr ⟨other, hother, ?_⟩) hscopes.1
        show SemanticCounterScope.naturalDecision _ _ = .naturalDecision _ _
        rw [← htype, ← hentity]
        rfl
    exact ⟨fun row hrow htype hentity =>
        huntaken.date row (hdifferent row hrow htype hentity) htype hentity,
      fun row hrow htype hentity =>
        huntaken.occurrence row (hdifferent row hrow htype hentity) htype hentity⟩

end commit

theorem calculateScrumTick_valid {state : LiveTeamState p} {request : TickRequest}
    {draws : DrawSource} {command : AuthoritativeTickSliceCommit p}
    (h : calculateScrumTick state request draws = .ok command) : command.validate = .ok () := by
  simp only [calculateScrumTick, bind_eq_ok, exists_unit] at h
  obtain ⟨-, transition, -, h⟩ := h
  by_cases hactivity : transition.activity ≠ []
  · rw [if_pos hactivity] at h
    simp only [lifecycleCommit, AuthoritativeTickSliceCommit.create, bind_eq_ok,
      validated_eq_ok] at h
    obtain ⟨slice, -, hvalid, rfl⟩ := h
    exact hvalid
  · rw [if_neg hactivity] at h
    simp only [finalizeTick, bind_eq_ok] at h
    obtain ⟨advance, -, slice, -, hassemble⟩ := h
    exact (assembleTick_eq_ok hassemble).valid

/-- In every run that decides only at workday starts on their own dates in UTC, the decisions of a
tick are keyed by the local working day, and no earlier decision has taken their keys. -/
theorem workday_decisions_keyed {store : TeamStore p}
    (h : (teamRuns p).ReachableBy (fun _ => True) DecidesOnDate store) {request : TickRequest}
    {draws : DrawSource} (hok : DecidesOnDate store (.tick request draws))
    {command : AuthoritativeTickSliceCommit p}
    (hcommand : calculateScrumTick store.state request draws = .ok command) :
    KeyedByWorkday store command := by
  have hdated := evaluationsDated_of_reachableBy h
  have hcommandFor : commandFor store.state (.tick request draws) = .ok (some command) := by
    rw [commandFor, hcommand]
    rfl
  have hday := fun claim (hclaim : claim ∈ command.naturalDecisionClaims) =>
    decision_day hcommandFor hok hclaim
  have huntaken : ∀ claim ∈ command.naturalDecisionClaims,
      Untaken store.scrum.naturalDecisionEvaluations claim := by
    intro claim hclaim
    obtain ⟨calendar, boundary, hcalendar, hboundary, hstarts, hdecided⟩ := hday claim hclaim
    refine ⟨fun row hrow _ _ hsame => ?_, fun row hrow htype hentity hsame => ?_⟩
    · -- the day of an evaluation started before the cursor, and the day of the claim did not
      obtain ⟨calendar', boundary', hcalendar', hstarts', hlt⟩ := hdated.behind row hrow
      rw [hcalendar] at hcalendar'
      obtain rfl := Except.ok.inj hcalendar'
      rw [hsame] at hstarts'
      have hboundaries := hstarts.unique hstarts'
      have hle := (workdayBoundary_eq_ok hboundary).1
      omega
    · -- the counter has passed the occurrence of an evaluation
      obtain ⟨counter, hcounter, hscope, hoccurrence⟩ := hdecided.counter
      obtain ⟨value, hvalue, hlt⟩ := hdated.counted.evaluations row hrow
      have hat := counterAt_of_mem store.scrum.complete.toConsistent hcounter
      rw [hscope, show claim.scope = .naturalDecision row.semanticEntityId row.decisionType by
        rw [htype, hentity]; rfl, hvalue, Option.some.injEq] at hat
      omega
  -- the table may list the evaluations in another order
  have hcongr : ∀ {evaluations : List NaturalDecisionEvaluation},
      (∀ row, row ∈ evaluations ↔ row ∈ store.scrum.naturalDecisionEvaluations) →
      ∀ claim ∈ command.naturalDecisionClaims, Untaken evaluations claim :=
    fun hsame claim hclaim =>
      ⟨fun row hrow => (huntaken claim hclaim).date row ((hsame row).mp hrow),
        fun row hrow => (huntaken claim hclaim).occurrence row ((hsame row).mp hrow)⟩
  have hvalid := calculateScrumTick_valid hcommand
  simp only [AuthoritativeTickSliceCommit.validate, validateClaimBindings, bind_eq_ok, exists_unit,
    forM_eq_ok, require_eq_ok] at hvalid
  obtain ⟨-, -, hclaims, -, -, -, -, hscopes, -⟩ := hvalid
  refine ⟨fun claim hclaim => ?_, fun claim hclaim => (huntaken claim hclaim).date,
    fun evaluations hsame => ?_, fun evaluations hsame => ?_⟩
  · obtain ⟨calendar, boundary, hcalendar, hboundary, hstarts, -⟩ := hday claim hclaim
    exact ⟨calendar, boundary, hcalendar, hboundary,
      hstarts.businessDate (workdayStart_lt hcalendar)⟩
  · exact forM_eq_ok.mpr fun claim hclaim => (hcongr hsame claim hclaim).preflight
  · unfold resolveNaturalClaims
    refine resolveNaturalClaims_of_untaken
      (fun claim hclaim => hclaims claim (Ordering.mem_sortOn.mp hclaim)) ?_
      (fun claim hclaim => hcongr hsame claim (Ordering.mem_sortOn.mp hclaim))
    exact ((Ordering.sortOn_perm _ _).map _).nodup_iff.mpr hscopes

/-! ### A change of the clocks between two working days -/

theorem utcPlatform_startsOnDate (store : TeamStore utcPlatform) (event : TeamEvent) :
    DecidesOnDate store event := by
  intro asOf boundary calendar _ hcalendar wall hwall
  have hlt := workdayStart_lt hcalendar
  simp only [LiveTeamState.calendar, BusinessCalendar.fromBlueprint, bind_eq_ok, exists_unit,
    require_eq_ok, pure_eq_ok] at hcalendar
  obtain ⟨-, -, zone, hzone, -, -, -, -, -, -, rfl⟩ := hcalendar
  cases resolveIanaTimezone_eq_ok hzone
  have hsame : wall.1 = boundary := by
    simp only [toLocal] at hwall
    split_ifs at hwall
    cases hwall
    rfl
  unfold microsecondsPerDay
  dsimp only at hlt ⊢
  omega

/-- The small team, whose items are active on every workday and never cancelled. -/
def steadyDocument : BlueprintDocument :=
  smallDocument [{ cancellationRule with baseProbability := 0 }] 20 0 0

theorem steadyDocument_accepted : steadyDocument.validate = .ok () := by
  decide +kernel

def steadyBlueprint : ResolvedTeamBlueprint where
  toBlueprintDocument := steadyDocument
  accepted := steadyDocument_accepted

/-- In UTC the second workday start of the small team is decided with a key of its own. -/
theorem workday_decisions_keyed_smallTeam :
    ∃ store command, (teamRuns utcPlatform).Reachable store ∧
      store.scrum.naturalDecisionEvaluations ≠ [] ∧
      calculateScrumTick store.state (requestUntil steadyBlueprint 25)
        (teamDraws utcPlatform steadyBlueprint) = .ok command ∧
      command.naturalDecisionClaims ≠ [] ∧ KeyedByWorkday store command := by
  obtain ⟨⟨store, command⟩, hplayed, hholds⟩ := @exists_of_any _ (commandOfTick utcPlatform
    (startAfter steadyBlueprint 0) [tickUntil utcPlatform steadyBlueprint 1,
      tickUntil utcPlatform steadyBlueprint 24]
    (requestUntil steadyBlueprint 25) (teamDraws utcPlatform steadyBlueprint))
    (fun played => played.1.scrum.naturalDecisionEvaluations ≠ [] ∧
      played.2.naturalDecisionClaims ≠ []) (by decide +kernel)
  obtain ⟨hevaluated, hclaimed⟩ := of_decide_eq_true hholds
  simp only [commandOfTick, runTeam, bind_eq_ok, pure_eq_ok] at hplayed
  obtain ⟨_, ⟨first, hfirst, hevents⟩, _, hcommand, hpair⟩ := hplayed
  cases hpair
  have hmeets : scriptMeets DecidesOnDate first [tickUntil utcPlatform steadyBlueprint 1,
      tickUntil utcPlatform steadyBlueprint 24] :=
    ⟨utcPlatform_startsOnDate _ _, fun _ _ => ⟨utcPlatform_startsOnDate _ _, fun _ _ => trivial⟩⟩
  have hreach : (teamRuns utcPlatform).ReachableBy (fun _ => True) DecidesOnDate store :=
    reachableBy_of_foldlM hevents hmeets (.start hfirst trivial)
  exact ⟨store, command, hreach.reachable, hevaluated, hcommand, hclaimed,
    workday_decisions_keyed hreach (utcPlatform_startsOnDate _ _) hcommand⟩

/-- Clocks that go forward at an instant, from one hour ahead of UTC to two. -/
def springZone (change : ℤ) : TimeZone where
  utcOffset naive fold :=
    if naive < change + microsecondsPerHour then microsecondsPerHour
    else if naive < change + 2 * microsecondsPerHour then
      if fold then 2 * microsecondsPerHour else microsecondsPerHour
    else 2 * microsecondsPerHour
  fromUtc instant :=
    if instant < change then (instant + microsecondsPerHour, false)
    else (instant + 2 * microsecondsPerHour, false)

/-- The Sunday, the last one of March 2024, on which the clocks go forward. -/
def springSunday : ℤ := 19813 * microsecondsPerDay

/-- The platform in the central European time of 2024. -/
def springPlatform : Platform :=
  { utcPlatform with timeZone := fun _ => some (springZone (springSunday + microsecondsPerHour)) }

/-- The team works from one in the morning on Mondays and Sundays. -/
def springDocument : BlueprintDocument :=
  { steadyDocument with
    team := { steadyDocument.team with timezone := "Europe/Berlin" }
    calendar := { steadyDocument.calendar with
      workingWeekdays := [.MON, .SUN], workdayStart := 60, workdayEnd := 540 }
    scrum := { steadyDocument.scrum with firstBoundary := springSunday } }

theorem springDocument_accepted : springDocument.validate = .ok () := by
  decide +kernel

def springBlueprint : ResolvedTeamBlueprint where
  toBlueprintDocument := springDocument
  accepted := springDocument_accepted

/-- Work on Sunday starts at midnight in UTC and work on Monday at eleven on the same evening; the
decision on Monday has the key of the one on Sunday, and its tick is refused. -/
theorem workday_decisions_collide :
    ∃ store command, (teamRuns springPlatform).Reachable store ∧
      calculateScrumTick store.state (requestUntil springBlueprint 2175)
        (teamDraws springPlatform springBlueprint) = .ok command ∧
      (∃ claim ∈ command.naturalDecisionClaims,
        (∃ row ∈ store.scrum.naturalDecisionEvaluations,
          row.decisionType = claim.decision.decisionType ∧
          row.semanticEntityId = claim.decision.entityId ∧
          row.businessDate = claim.businessDate) ∧
        ∃ calendar boundary, store.state.calendar = .ok calendar ∧
          workdayBoundary store.state command.liveSlice.runtimeAfter.simulationTime =
            .ok (some boundary) ∧
          calendar.businessDate boundary = .ok (claim.businessDate + 1)) ∧
      stepTeam store (tickUntil springPlatform springBlueprint 2175) =
        .error (.naturalClaimConflict "eligibility already has a different occurrence") := by
  -- the tick ends at the shifted start, whose UTC date is the day before
  obtain ⟨⟨store, command⟩, hplayed, hholds⟩ := @exists_of_any _ (commandOfTick springPlatform
    (startAfter springBlueprint 2151) [tickUntil springPlatform springBlueprint 2174]
    (requestUntil springBlueprint 2175) (teamDraws springPlatform springBlueprint))
    (fun played =>
      (∃ claim ∈ played.2.naturalDecisionClaims,
        (∃ row ∈ played.1.scrum.naturalDecisionEvaluations,
          row.decisionType = claim.decision.decisionType ∧
          row.semanticEntityId = claim.decision.entityId ∧
          row.businessDate = claim.businessDate) ∧
        (do
          let calendar ← played.1.state.calendar
          let boundary ← workdayBoundary played.1.state
            played.2.liveSlice.runtimeAfter.simulationTime
          let boundary ← next (fun _ => true) boundary.toList
          calendar.businessDate boundary) = .ok (claim.businessDate + 1)) ∧
      errorOf (stepTeam played.1 (tickUntil springPlatform springBlueprint 2175)) =
        some (.naturalClaimConflict "eligibility already has a different occurrence"))
    (by decide +kernel)
  obtain ⟨⟨claim, hclaim, hrow, hdate⟩, hrefused⟩ := of_decide_eq_true hholds
  simp only [commandOfTick, bind_eq_ok, pure_eq_ok] at hplayed
  obtain ⟨_, hrun, _, hcommand, hpair⟩ := hplayed
  cases hpair
  simp only [bind_eq_ok] at hdate
  obtain ⟨calendar, hcalendar, found, hfound, boundary, hnext, hdate⟩ := hdate
  have hsome : found = some boundary :=
    Option.mem_toList.mp (mem_of_next hnext).1
  exact ⟨store, command, reachable_of_runTeam hrun, hcommand,
    ⟨claim, hclaim, hrow, calendar, boundary, hcalendar, hsome ▸ hfound, hdate⟩,
    errorOf_eq_some.mp hrefused⟩

end JiraSimulator
