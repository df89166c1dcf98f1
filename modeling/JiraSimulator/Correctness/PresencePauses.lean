import JiraSimulator.Correctness.ServiceTime
import JiraSimulator.Correctness.VisitPauses
import JiraSimulator.Correctness.WorkdayDates

/-!
# Pause and presence

The service clock of a visit is the business time of its presence less its pause.  Segments pause a
visit for business time, but an external dependency pauses it for the raw length of the tick, nights
included, and a cancellation later in the same evaluation ends a visit that already waits.

* `pauses_within_presence`: in runs whose waits fit into the presence of their visits, the pause
  never exceeds the presence and the service clock is not clipped.
* `pause_exceeds_presence`: a wait over a night.
-/

namespace JiraSimulator

open Library Library.Outcome Library.Transition ScrumCollections

variable {p : Platform}

/-! ### Presence -/

/-- The working time of the team's calendar. -/
def workingTime (state : LiveTeamState p) : Set ℤ :=
  { instant | ∃ calendar, state.calendar = .ok calendar ∧ instant ∈ calendar.workingTime }

theorem workingTime_eq {state : LiveTeamState p} {calendar : BusinessCalendar}
    (h : state.calendar = .ok calendar) : workingTime state = calendar.workingTime := by
  ext instant
  constructor
  · rintro ⟨calendar', hcalendar', hinstant⟩
    rw [h] at hcalendar'
    cases hcalendar'
    exact hinstant
  · exact fun hinstant => ⟨calendar, h, hinstant⟩

/-- Business times of the team are times spent in its working time. -/
theorem businessTime_eq_elapsedIn (hzones : p.DividedZones) {state : LiveTeamState p}
    {start finish business : ℤ} (h : businessTime state start finish = .ok business) :
    start ≤ finish ∧ business = elapsedIn (workingTime state) start finish := by
  simp only [businessTime, bind_eq_ok] at h
  obtain ⟨calendar, hcalendar, h⟩ := h
  rw [workingTime_eq hcalendar]
  exact (calendar_divided hzones hcalendar).businessElapsed_eq h

/-- The end of the stay of a visit until an instant. -/
def StatusVisitState.stayUntil (visit : StatusVisitState) (instant : ℤ) : ℤ :=
  match visit.closedAt with
  | none => instant
  | some closedAt => min instant closedAt

/-- The business time of the presence of a visit up to the cursor, measured as the service clock
measures it. -/
def presence (state : LiveTeamState p) (visit : StatusVisitState) : Result ℤ :=
  if visit.stayUntil (cursor state) ≤ visit.enteredAt then .ok 0
  else businessTime state visit.enteredAt (visit.stayUntil (cursor state))

/-- The pause of the visit fits into the working time of its stay until an instant. -/
def StatusVisitState.PauseFits (visit : StatusVisitState) (working : Set ℤ) (instant : ℤ) : Prop :=
  visit.pauseMicroseconds ≤ elapsedIn working visit.enteredAt (visit.stayUntil instant)

section visit

variable {visit : StatusVisitState} {working : Set ℤ} {instant later : ℤ}

theorem StatusVisitState.stayUntil_mono (h : instant ≤ later) :
    visit.stayUntil instant ≤ visit.stayUntil later := by
  unfold stayUntil
  cases visit.closedAt with
  | none => exact h
  | some closedAt => exact min_le_min_right closedAt h

theorem StatusVisitState.PauseFits.mono (h : visit.PauseFits working instant)
    (hle : instant ≤ later) : visit.PauseFits working later :=
  le_trans h (elapsedIn_mono (stayUntil_mono hle))

theorem StatusVisitState.pauseFits_of_eq_zero (h : visit.pauseMicroseconds = 0) :
    visit.PauseFits working instant := by
  unfold PauseFits
  rw [h]
  exact elapsedIn_nonneg

/-- The pause of a visit that has not closed. -/
theorem StatusVisitState.PauseFits.of_open (h : visit.PauseFits working instant)
    (hclosed : visit.closedAt = none) :
    visit.pauseMicroseconds ≤ elapsedIn working visit.enteredAt instant := by
  unfold PauseFits stayUntil at h
  rwa [hclosed] at h

end visit

/-! ### The waits of a tick -/

/-- The waits of an evaluation fit into the presence of their visits: none is longer than the
business time from the cursor to the end of the tick, or to the cancellation of the visit. -/
structure WaitsFit (state : LiveTeamState p) (endsAt : ℤ) (draws : DrawSource) : Prop where
  ends : ∀ context visit delta, EvaluatedIn state endsAt draws context →
    Waits context visit delta →
    ∃ business, businessTime state (cursor state) endsAt = .ok business ∧ delta ≤ business
  cancelled : ∀ waiting visit delta context boundary work decision,
    EvaluatedIn state endsAt draws waiting → Waits waiting visit delta →
    EvaluatedIn state endsAt draws context → context.rule.key = "CANCELLATION" →
    ItemCancellation context boundary work decision → decision.visit = pausedBy visit delta →
    ∃ business, businessTime state (cursor state) boundary = .ok business ∧ delta ≤ business

/-- The waits of a tick fit, and no visit whose status pauses the service clock was entered ahead of
the cursor. -/
def PausesFit (store : TeamStore p) : TeamEvent → Prop
  | .tick request draws =>
    (∀ advance, tickAdvance store.state request draws = .ok advance →
      WaitsFit store.state advance.result.endsAt draws) ∧
    ∀ visit ∈ openVisits store.state, intrinsicallyPaused store.state visit = .ok true →
      visit.enteredAt ≤ cursor store.state
  | _ => True

theorem EvaluatedIn.aggregate {state : LiveTeamState p} {asOf : ℤ} {draws : DrawSource}
    {context : RiskContext p} (h : EvaluatedIn state asOf draws context) :
    context.state.aggregate = state.aggregate := by
  obtain ⟨before, hcontext⟩ := h
  obtain ⟨records, hreached⟩ := hcontext.reached
  exact ((workingState_init state).applyRules hreached).1

theorem EvaluatedIn.asOf {state : LiveTeamState p} {asOf : ℤ} {draws : DrawSource}
    {context : RiskContext p} (h : EvaluatedIn state asOf draws context) :
    context.asOf = asOf := by
  obtain ⟨before, hcontext⟩ := h
  exact hcontext.asOf_eq

/-- A workday start of an evaluation lies between the cursor and its end. -/
theorem EvaluatedIn.boundary {state : LiveTeamState p} {asOf boundary : ℤ} {draws : DrawSource}
    {context : RiskContext p} (h : EvaluatedIn state asOf draws context)
    (hboundary : workdayBoundary context.state context.asOf = .ok (some boundary)) :
    cursor state ≤ boundary ∧ boundary < asOf := by
  have hwithin := workdayBoundary_eq_ok hboundary
  rwa [h.asOf, cursor, h.aggregate] at hwithin

section tick

variable {state : LiveTeamState p} {endsAt : ℤ} {draws : DrawSource}
  (hzones : p.DividedZones) (hle : cursor state ≤ endsAt)
  (hfits : ∀ visit ∈ state.scrum.statusVisits, visit.PauseFits (workingTime state) (cursor state))

include hfits in
theorem Begins.pauseFits {visit : StatusVisitState} (h : Begins state visit) :
    visit.PauseFits (workingTime state) (cursor state) := by
  cases h with
  | kept hmem => exact hfits visit hmem
  | returned _ _ _ _ hpause => exact StatusVisitState.pauseFits_of_eq_zero hpause

include hzones hfits in
/-- A wait that is no longer than the business time up to an instant fits into the presence there.
-/
theorem Waits.fits {context : RiskContext p} {visit : StatusVisitState} {delta instant business : ℤ}
    (h : Waits context visit delta) (hcontext : EvaluatedIn state endsAt draws context)
    (hbegins : Begins state visit)
    (hbusiness : businessTime state (cursor state) instant = .ok business)
    (hdelta : delta ≤ business) :
    visit.pauseMicroseconds + delta ≤ elapsedIn (workingTime state) visit.enteredAt instant := by
  obtain ⟨hmem, hopen⟩ := mem_openVisits.mp h.mem
  have hvalid := context.state.scrum.complete.toConsistent.visit_valid hmem
  have hpause := (hbegins.pauseFits hfits).of_open (hvalid.openTimes hopen)
  obtain ⟨hinstant, rfl⟩ := businessTime_eq_elapsedIn hzones hbusiness
  have hcursor : cursor context.state = cursor state := by
    rw [cursor, cursor, hcontext.aggregate]
  -- a visit waits from its entry on, so it has been entered
  have hentered : visit.enteredAt ≤ cursor state := by
    rcases h.chosen with hwaited | ⟨hentered, -⟩
    · by_contra hahead
      rw [elapsedIn_of_le (by omega)] at hpause
      have hnonneg := hvalid.pause.1
      omega
    · exact (hentered.trans hcursor).le
  rw [elapsedIn_add hentered hinstant]
  omega

include hzones hle hfits in
/-- After an evaluation whose waits fit, the pauses fit into the presence at its end. -/
theorem RiskRow.pauseFits (hwaits : WaitsFit state endsAt draws) {row : StatusVisitState}
    (h : RiskRow state endsAt draws row) : row.PauseFits (workingTime state) endsAt := by
  cases h with
  | begins hbegins => exact (hbegins.pauseFits hfits).mono hle
  | waits visit delta context hbegins hcontext hwait hrow =>
    obtain ⟨business, hbusiness, hdelta⟩ := hwaits.ends context visit delta hcontext hwait
    have hfit := hwait.fits hzones hfits hcontext hbegins hbusiness hdelta
    obtain ⟨hmem, hopen⟩ := mem_openVisits.mp hwait.mem
    have hclosed := (context.state.scrum.complete.toConsistent.visit_valid hmem).openTimes hopen
    subst hrow
    unfold StatusVisitState.PauseFits StatusVisitState.stayUntil pausedBy
    rw [hclosed]
    exact hfit
  | cancelled visit boundary work decision context hbegins hcontext _ hcancels hvisit hrow =>
    have hwithin := hcontext.boundary hcancels.boundary_eq
    obtain ⟨hmem, -, hopen⟩ := hcancels.visit_mem
    have hclosed := (context.state.scrum.complete.toConsistent.visit_valid hmem).openTimes hopen
    have hpause := (hbegins.pauseFits hfits).of_open (hvisit ▸ hclosed)
    have hlater := elapsedIn_mono (S := workingTime state) (a := visit.enteredAt) hwithin.1
    subst hrow
    show visit.pauseMicroseconds ≤ elapsedIn _ visit.enteredAt (min endsAt boundary)
    rw [min_eq_right hwithin.2.le]
    omega
  | cancelledWaiting visit delta boundary work decision waiting context hbegins hwaiting hwait
      hcontext hkey hcancels hvisit hrow =>
    have hwithin := hcontext.boundary hcancels.boundary_eq
    obtain ⟨business, hbusiness, hdelta⟩ := hwaits.cancelled waiting visit delta context boundary
      work decision hwaiting hwait hcontext hkey hcancels hvisit
    have hfit := hwait.fits hzones hfits hwaiting hbegins hbusiness hdelta
    subst hrow
    show visit.pauseMicroseconds + delta ≤ elapsedIn _ visit.enteredAt (min endsAt boundary)
    rw [min_eq_right hwithin.2.le]
    exact hfit

/-- The status of a visit pauses the service clock in every state of the team. -/
theorem intrinsicallyPaused_of_aggregate {state state' : LiveTeamState p}
    (h : state'.aggregate = state.aggregate) (visit : StatusVisitState) :
    intrinsicallyPaused state' visit = intrinsicallyPaused state visit := by
  rw [intrinsicallyPaused, intrinsicallyPaused, h]

include hzones hfits in
/-- After a tick whose waits fit, the pauses fit into the presence at its end. -/
theorem TickRun.pauseFits {advance : RiskAdvance p} {outcome : SegmentsOutcome}
    {finish : StatusVisitState → FinishedVisit} {c' : ScrumCollections}
    (h : TickRun state draws advance outcome finish) (hafter : AfterTick advance c')
    (hcounted : OrdinalsCounted state.scrum.toScrumCollections)
    (hwaits : WaitsFit state advance.result.endsAt draws)
    (hpausing : ∀ visit ∈ openVisits state, intrinsicallyPaused state visit = .ok true →
      visit.enteredAt ≤ cursor state) :
    ∀ row ∈ c'.statusVisits, row.PauseFits (workingTime state) advance.result.endsAt := by
  have hrows := evaluateDueRisks_rows hcounted h.risks h.working
  have hrisks := fun row hrow => (hrows row hrow).pauseFits hzones h.cursor_le hfits hwaits
  have hclock := intrinsicallyPaused_of_aggregate (LiveTeamState.withWriteSet_eq_ok.mp h.working).1
  have hvalid := advance.state.scrum.complete.toConsistent
  obtain ⟨-, hplayed⟩ := businessTime_eq_elapsedIn hzones (h.businessTime_eq hzones.orderly)
  -- the rows that the segments leave
  have hprogress : ∀ x, PausedFrom advance.state (riskBlockedVisits state advance.risks)
      (playedTime outcome.played) (openVisits advance.state) x → x.closedAt = none ∧
        x.pauseMicroseconds ≤
          elapsedIn (workingTime state) x.enteredAt advance.result.endsAt := by
    rintro x (⟨hopen, -⟩ | ⟨visit, hvisit, -, hpaused⟩)
    · obtain ⟨hmem, hopen⟩ := mem_openVisits.mp hopen
      have hclosed := (hvalid.visit_valid hmem).openTimes hopen
      exact ⟨hclosed, (hrisks x hmem).of_open hclosed⟩
    obtain ⟨hmem, hopen⟩ := mem_openVisits.mp hvisit
    have hclosed := (hvalid.visit_valid hmem).openTimes hopen
    refine ⟨hpaused.closedAt.trans hclosed, ?_⟩
    rw [hpaused.enteredAt]
    by_cases hpauses : intrinsicallyPaused advance.state visit = .ok true
    · rw [hpaused.pausing hpauses, hplayed]
      rw [hclock] at hpauses
      -- the risks have not touched a visit whose status pauses the clock
      have hbegins : Begins state visit := by
        cases hrows visit hmem with
        | begins hbegins => exact hbegins
        | waits old delta context hbegins hcontext hwait hrow =>
          have hrunning := hwait.running
          rw [intrinsicallyPaused_of_aggregate hcontext.aggregate] at hrunning
          have hsame : intrinsicallyPaused state visit = intrinsicallyPaused state old := by
            rw [hrow]
            rfl
          rw [hsame, hrunning] at hpauses
          cases hpauses
        | cancelled _ _ _ _ _ _ _ _ _ _ hrow =>
          rw [hrow] at hopen
          cases hopen
        | cancelledWaiting _ _ _ _ _ _ _ _ _ _ _ _ _ _ hrow =>
          rw [hrow] at hopen
          cases hopen
      have hentered : visit.enteredAt ≤ cursor state := by
        cases hbegins with
        | kept hold => exact hpausing visit (mem_openVisits.mpr ⟨hold, hopen⟩) hpauses
        | returned _ _ hentered => exact hentered.le
      have hpause := (hbegins.pauseFits hfits).of_open hclosed
      rw [elapsedIn_add hentered h.cursor_le]
      omega
    · rw [hpaused.running hpauses]
      exact (hrisks visit hmem).of_open hclosed
  intro row hrow
  cases h.pauses hafter hcounted row hrow with
  | closed hstays => exact hrisks row hstays
  | progresses x hx hrow =>
    obtain ⟨hclosed, hfit⟩ := hprogress x hx
    rcases hrow with rfl | rfl
    · unfold StatusVisitState.PauseFits StatusVisitState.stayUntil
      rw [hclosed]
      exact hfit
    · show x.pauseMicroseconds ≤ elapsedIn _ x.enteredAt (min _ _)
      rw [min_self]
      exact hfit
  | enters _ _ _ _ hpause => exact StatusVisitState.pauseFits_of_eq_zero hpause

end tick

/-! ### Runs -/

/-- Every pause of the store fits into the presence of its visit. -/
def PausesFitIn (store : TeamStore p) : Prop :=
  ∀ visit ∈ store.scrum.statusVisits,
    visit.PauseFits (workingTime store.state) (cursor store.state)

theorem workingTime_of_commit {store store' : TeamStore p} {command : AuthoritativeTickSliceCommit p}
    (h : Committed store command store') : workingTime store'.state = workingTime store.state := by
  unfold workingTime
  rw [calendar_of_commit h]

theorem pausesFitIn_of_reachableBy (hzones : p.DividedZones) {store : TeamStore p}
    (h : (teamRuns p).ReachableBy (fun _ => True) PausesFit store) : PausesFitIn store := by
  refine run_induction h ?_ ?_ ?_
  · -- a first visit has no pause
    intro start draws context picked initial store _ hboot visit hvisit
    obtain ⟨item, -, -, activated, hactivated, hmem⟩ := (hboot.initialRows.visits visit).mp
      ((hboot.mem_rows Collection.statusVisits).mp hvisit)
    exact StatusVisitState.pauseFits_of_eq_zero (activateItem_first hactivated visit hmem).2.2.2.2
  · intro store store' _ hfits hprovision
    rw [hprovision.same]
    exact hfits
  · intro store event command store' hreach hfits hok hkept hof hcommitted
    have hcursor : cursor store'.state = command.liveSlice.runtimeAfter.simulationTime :=
      hcommitted.runtime_eq.2.2.2.2
    unfold PausesFitIn
    rw [workingTime_of_commit hcommitted, hcursor]
    cases hof with
    | tick request draws advance hevent _ hadvance _ htime hassembled =>
      subst hevent
      obtain ⟨outcome, finish, hrun⟩ := tickAdvance_eq_ok hadvance
      rw [htime]
      have hfits : ∀ visit ∈ store.state.scrum.statusVisits,
        visit.PauseFits (workingTime store.state) (cursor store.state) := hfits
      exact hrun.pauseFits hzones hfits (hcommitted.afterTick hrun.working hassembled)
        (ordinalsCounted_of_reachable hreach) (hok.1 advance hadvance) hok.2
    | boundary instant transition _ hstep htime hstate =>
      intro visit hvisit
      rw [htime]
      -- nor has a visit that a boundary enters
      rcases boundary_visits hreach hcommitted hstep hstate hvisit with
        hold | ⟨-, -, -, -, hpause⟩
      · exact hfits visit hold
      · exact StatusVisitState.pauseFits_of_eq_zero hpause
    | downtime hempty =>
      intro visit hvisit
      exact (hfits visit ((hcommitted.mem_of_empty Collection.statusVisits (fun _ _ _ => rfl)
        hempty).mp hvisit)).mono hkept.cursor_le

/-- The pause of a visit never exceeds its presence, so that its service clock is not clipped from
the cursor on. -/
structure PauseWithinPresence (state : LiveTeamState p) (visit : StatusVisitState) : Prop where
  fits : visit.PauseFits (workingTime state) (cursor state)
  measured : ∀ business, presence state visit = .ok business → visit.pauseMicroseconds ≤ business
  unclipped : visit.lifecycle = .OPEN → ∀ instant business, cursor state ≤ instant →
    businessTime state visit.enteredAt instant = .ok business →
    max 0 (business - visit.pauseMicroseconds) = business - visit.pauseMicroseconds
  service : visit.lifecycle = .OPEN → visit.pauseMicroseconds ≤ 2 ^ 50 →
    ∀ calendar instant elapsed, state.calendar = .ok calendar → cursor state ≤ instant →
    visit.enteredAt < instant → visitBusinessElapsed calendar visit instant = .ok elapsed →
    ∃ business, businessTime state visit.enteredAt instant = .ok business ∧
      elapsed = roundedMicroseconds business - visit.pauseMicroseconds

theorem PausesFitIn.within (hzones : p.DividedZones) {store : TeamStore p} (h : PausesFitIn store)
    {visit : StatusVisitState} (hvisit : visit ∈ store.scrum.statusVisits) :
    PauseWithinPresence store.state visit := by
  have hfits := h visit hvisit
  have hvalid := store.scrum.complete.toConsistent.visit_valid hvisit
  have hlater : visit.lifecycle = .OPEN → ∀ instant business, cursor store.state ≤ instant →
      businessTime store.state visit.enteredAt instant = .ok business →
      visit.pauseMicroseconds ≤ business := by
    intro hopen instant business hle hbusiness
    obtain ⟨-, rfl⟩ := businessTime_eq_elapsedIn hzones hbusiness
    exact (hfits.mono hle).of_open (hvalid.openTimes hopen)
  refine ⟨hfits, fun business hpresence => ?_, fun hopen instant business hle hbusiness => ?_,
    fun hopen hbound calendar instant elapsed hcalendar hle hentered helapsed => ?_⟩
  · unfold StatusVisitState.PauseFits at hfits
    unfold presence at hpresence
    split_ifs at hpresence with hahead
    · cases hpresence
      rwa [elapsedIn_of_le hahead] at hfits
    · obtain ⟨-, rfl⟩ := businessTime_eq_elapsedIn hzones hpresence
      exact hfits
  · have hpause := hlater hopen instant business hle hbusiness
    exact max_eq_right (by omega)
  · rw [visitBusinessElapsed, if_neg (by omega)] at helapsed
    simp only [bind_eq_ok, pure_eq_ok] at helapsed
    obtain ⟨business, hbusiness, rfl⟩ := helapsed
    have hbusiness : businessTime store.state visit.enteredAt instant = .ok business := by
      rw [businessTime, hcalendar, ok_bind]
      exact hbusiness
    have hpause := hlater hopen instant business hle hbusiness
    have hrounded := roundedMicroseconds_mono hvalid.pause.1 hpause
    rw [roundedMicroseconds_eq hvalid.pause.1 hbound] at hrounded
    exact ⟨business, hbusiness, max_eq_right (by omega)⟩

/-- In runs whose waits fit into the presence of their visits, the pause of every visit fits into
its presence, and the service clock of the open ones is not clipped. -/
theorem pauses_within_presence (hzones : p.DividedZones) {store : TeamStore p}
    (h : (teamRuns p).ReachableBy (fun _ => True) PausesFit store) :
    ∀ visit ∈ store.scrum.statusVisits, PauseWithinPresence store.state visit :=
  fun _ hvisit => (pausesFitIn_of_reachableBy hzones h).within hzones hvisit

/-! ### A wait over a night -/

theorem utcPlatform_divided : utcPlatform.DividedZones := by
  intro name zone hzone naive instant hinstant other
  cases hzone
  rw [resolveLocal_utc hinstant]
  exact ⟨id, id⟩

/-- The tick lies inside the working time, and no open visit has a status that pauses the clock. -/
def fitsTick (store : TeamStore p) (request : TickRequest) (draws : DrawSource) : Bool :=
  match tickAdvance store.state request draws with
  | .error _ => false
  | .ok advance =>
    let length := advance.result.endsAt - cursor store.state
    businessTime store.state (cursor store.state) advance.result.endsAt = .ok length &&
      decide (length ≤ 2 ^ 50) &&
      (openVisits store.state).all fun visit =>
        intrinsicallyPaused store.state visit ≠ .ok true

/-- A team without cancellations lets its visits wait no longer than a tick inside the working
time. -/
theorem pausesFit_of_fitsTick {store : TeamStore p} {request : TickRequest} {draws : DrawSource}
    (hrules : ∀ rule ∈ store.state.aggregate.blueprint.risks.rules, rule.key ≠ "CANCELLATION")
    (h : fitsTick store request draws = true) : PausesFit store (.tick request draws) := by
  unfold fitsTick at h
  cases htick : tickAdvance store.state request draws with
  | error e => simp [htick] at h
  | ok advance =>
    simp only [htick, Bool.and_eq_true, decide_eq_true_eq, List.all_eq_true] at h
    obtain ⟨⟨hbusiness, hlength⟩, hclock⟩ := h
    refine ⟨fun advance' hadvance => ?_, fun visit hvisit hpauses => ?_⟩
    · rw [htick, Except.ok.injEq] at hadvance
      subst hadvance
      constructor
      · intro context visit delta hcontext hwaits
        obtain ⟨waitHours, -, rfl⟩ := hwaits.wait
        refine ⟨_, hbusiness, ?_⟩
        have hbegun := hwaits.begun
        unfold pauseWithin
        rw [hcontext.asOf, cursor, hcontext.aggregate] at hbegun
        rw [hcontext.asOf, cursor, hcontext.aggregate, ← cursor,
          roundedMicroseconds_eq (by unfold cursor; omega) hlength]
        exact min_le_right _ _
      · rintro _ _ _ context _ _ _ - - ⟨before, hcontext⟩ hkey
        obtain ⟨after, hafter⟩ := hcontext.rules
        refine absurd hkey (hrules context.rule ?_)
        rw [hafter]
        exact List.mem_append_right _ List.mem_cons_self
    · exact absurd hpauses (hclock visit hvisit)

/-- A visit that has waited for its hour, after two ticks inside the working time. -/
theorem pauses_within_presence_smallTeam :
    ∃ store, runTeam utcPlatform (startAfter waitingBlueprint 0)
        [tickUntil utcPlatform waitingBlueprint 1, tickUntil utcPlatform waitingBlueprint 3] =
          .ok store ∧
      ∃ visit ∈ store.scrum.statusVisits, visit.pauseMicroseconds = microsecondsPerHour ∧
        PauseWithinPresence store.state visit := by
  obtain ⟨store, hplayed⟩ := exists_of_succeeds (do
    let first ← ensureBootstrapped (createdStore utcPlatform (startAfter waitingBlueprint 0))
      (startAfter waitingBlueprint 0).startedAt
    require (fitsTick first (requestUntil waitingBlueprint 1)
      (teamDraws utcPlatform waitingBlueprint)) ""
    let second ← stepTeam first (tickUntil utcPlatform waitingBlueprint 1)
    require (fitsTick second (requestUntil waitingBlueprint 3)
      (teamDraws utcPlatform waitingBlueprint)) ""
    require (second.state.aggregate.blueprint.risks.rules = [dependencyRule] ∧
      first.state.aggregate.blueprint.risks.rules = [dependencyRule]) ""
    let store ← stepTeam second (tickUntil utcPlatform waitingBlueprint 3)
    require (∃ visit ∈ store.scrum.statusVisits,
      visit.pauseMicroseconds = microsecondsPerHour) ""
    return store) (by decide +kernel)
  simp only [bind_eq_ok, exists_unit, require_eq_ok, pure_eq_ok] at hplayed
  obtain ⟨first, hfirst, hfits, second, hsecond, hfits', ⟨hrules', hrules⟩, store', hstore,
    ⟨visit, hvisit, hpause⟩, rfl⟩ := hplayed
  -- the team has no rule that cancels
  have hnone : ∀ rules : List RiskRule, rules = [dependencyRule] →
      ∀ rule ∈ rules, rule.key ≠ "CANCELLATION" := by
    rintro rules rfl rule hrule
    rw [List.mem_singleton.mp hrule]
    decide
  have hreach : (teamRuns utcPlatform).ReachableBy (fun _ => True) PausesFit store' :=
    .step (.step (.start hfirst trivial) (pausesFit_of_fitsTick (hnone _ hrules) hfits) hsecond)
      (pausesFit_of_fitsTick (hnone _ hrules') hfits') hstore
  refine ⟨store', ?_, visit, hvisit, hpause,
    pauses_within_presence utcPlatform_divided hreach visit hvisit⟩
  rw [runTeam, hfirst, ok_bind, List.foldlM_cons, hsecond, ok_bind, List.foldlM_cons, hstore, ok_bind]
  rfl

/-- The small team whose visits wait for twenty hours. -/
def nightDocument : BlueprintDocument :=
  { waitingDocument with
    risks := { waitingDocument.risks with
      rules := [{ dependencyRule with mechanicalParameters := [("wait_hours", .int 20)] }] } }

theorem nightDocument_accepted : nightDocument.validate = .ok () := by
  decide +kernel

def nightBlueprint : ResolvedTeamBlueprint where
  toBlueprintDocument := nightDocument
  accepted := nightDocument_accepted

/-- A visit entered an hour before the end of the workday waits over the night: it is paused for
seventeen hours and has been present for one, so its clock is clipped. -/
theorem pause_exceeds_presence :
    ∃ store, runTeam utcPlatform (startAfter nightBlueprint 7)
        [tickUntil utcPlatform nightBlueprint 24] = .ok store ∧
      ∃ visit ∈ store.scrum.statusVisits, visit.lifecycle = .OPEN ∧
        visit.pauseMicroseconds = 17 * microsecondsPerHour ∧
        presence store.state visit = .ok microsecondsPerHour ∧
        ¬ PauseWithinPresence store.state visit := by
  obtain ⟨store, hrun, hholds⟩ := @exists_of_any _ (runTeam utcPlatform
    (startAfter nightBlueprint 7) [tickUntil utcPlatform nightBlueprint 24])
    (fun store => ∃ visit ∈ store.scrum.statusVisits, visit.lifecycle = .OPEN ∧
      visit.pauseMicroseconds = 17 * microsecondsPerHour ∧
      presence store.state visit = .ok microsecondsPerHour) (by decide +kernel)
  obtain ⟨visit, hvisit, hopen, hpause, hpresence⟩ := of_decide_eq_true hholds
  refine ⟨store, hrun, visit, hvisit, hopen, hpause, hpresence, fun hwithin => ?_⟩
  have hle := hwithin.measured _ hpresence
  rw [hpause] at hle
  unfold microsecondsPerHour at hle
  omega

end JiraSimulator
