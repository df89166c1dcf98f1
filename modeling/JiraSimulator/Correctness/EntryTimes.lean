import JiraSimulator.Correctness.ScopeCover

/-!
# Entry times of the open visits

Service is measured from the entry of a visit to the cursor, so no open visit may be entered after
the cursor.  A restart commits the sprint boundaries of its downtime before it moves the cursor, and
the items that a sprint takes over at such a boundary are entered ahead of the cursor.
* `openVisits_entered`: in runs whose restarts take over no items ahead of the cursor, every open
  visit was entered by the cursor, and no tick measures a reversed interval.
* `resumed_tick_reversed`: a restart that stops after a boundary leaves a team that cannot tick.
-/

namespace JiraSimulator

open Library Library.Outcome Library.Transition ScrumCollections

variable {p : Platform}

/-! ### Items taken over at a boundary -/

/-- The item is one that a sprint takes over from the backlog at the boundary. -/
inductive TakesOver (state : LiveTeamState p) (boundary : ℤ) (item : Uuid) : Prop
  | planned (sprint : SprintState) (draws : DrawSource) (hmem : sprint ∈ state.scrum.sprints)
      (hplanned : sprint.lifecycle = .PLANNED) (hstart : sprint.plannedStartAt = boundary)
      (hdraws : seededDrawSource p state.aggregate = .ok draws)
      (hitem : item ∈ rankedSelection p state.scrum.workItems
        (selectedScopeIds p state.aggregate sprint.id state.scrum.workItems draws))
  | rolled (sprint next : SprintState) (claim : SemanticCounterClaim) (draws : DrawSource)
      (carryIds backlogIds : List Uuid) (hmem : sprint ∈ state.scrum.sprints)
      (hactive : sprint.lifecycle = .ACTIVE) (hend : sprint.plannedEndAt = boundary)
      (hnext : successor state sprint boundary = .ok (next, claim))
      (hdraws : seededDrawSource p state.aggregate = .ok draws)
      (hcarry : carryoverIds state sprint.id = .ok carryIds)
      (hbacklog : rankedBacklogIds state next.id carryIds draws = .ok backlogIds)
      (hitem : item ∈ backlogIds)

/-- The item enters the first timed step of its route when a sprint takes it over. -/
def Enters (state : LiveTeamState p) (boundary : ℤ) (item : WorkItemState) : Prop :=
  TakesOver state boundary item.id ∧ ∃ route step,
    routeForIssueType state.aggregate.blueprint item.issueType = .ok route ∧
    firstTimedStep state.aggregate.blueprint route.steps = .ok (some step)

/-- The visits that a boundary writes are those of the items that enter at it. -/
theorem Activation.enters {blueprint : ResolvedTeamBlueprint} {startedAt : ℤ}
    {members : List MemberIdentity} {draws : DrawSource} {items : List WorkItemState}
    {selected : List Uuid} {workItems : List WorkItemState} {visits : List StatusVisitState}
    {samples : List StatusVisitSample}
    (h : Activation p blueprint startedAt members draws items selected workItems visits samples)
    {visit : StatusVisitState} (hvisit : visit ∈ visits) :
    ∃ item ∈ items, item.id ∈ selected ∧ visit.enteredAt = startedAt ∧ ∃ route step,
      routeForIssueType blueprint item.issueType = .ok route ∧
      firstTimedStep blueprint route.steps = .ok (some step) := by
  obtain ⟨item, hitem, hselected, activated, hactivated, hmem⟩ := (h.visits visit).mp hvisit
  obtain ⟨-, -, -, hentered, -⟩ := activateItem_first hactivated visit hmem
  refine ⟨item, hitem, hselected, hentered, ?_⟩
  obtain ⟨route, hroute, ⟨_, _, _, _, _, hdone⟩ | ⟨step, _, _, _, hstep, _⟩⟩ :=
    activateItem_eq_ok hactivated
  · rw [hdone] at hmem
    cases hmem
  · exact ⟨route, step, hroute, hstep⟩

theorem BoundaryStep.visit_enters {state : LiveTeamState p} {boundary : ℤ}
    {transition : SprintTransition p} (h : BoundaryStep state boundary transition)
    {visit : StatusVisitState} (hvisit : visit ∈ transition.state.statusVisits) :
    visit.enteredAt = boundary ∧ ∃ item ∈ state.scrum.workItems, Enters state boundary item := by
  cases h with
  | quiet h =>
    subst h
    cases hvisit
  | activates sprint draws selected context hmem hlifecycle hstart hdraws hselected hactivation
      _ _ _ _ _ h =>
    subst h
    obtain ⟨item, hitem, hid, hentered, hroute⟩ := hactivation.enters hvisit
    rw [hselected] at hid
    exact ⟨hentered, item, hitem, .planned sprint draws hmem hlifecycle hstart hdraws hid, hroute⟩
  | rolls sprint next draws carryIds backlogIds context counter hmem hlifecycle hend hdraws hcarry
      hbacklog hactivation _ _ _ _ hcall _ _ _ h =>
    subst h
    obtain ⟨item, hitem, hid, hentered, hroute⟩ := hactivation.enters hvisit
    obtain ⟨claim, hnext⟩ := hcall
    exact ⟨hentered, item, hitem, .rolled sprint next claim draws carryIds backlogIds hmem
      hlifecycle hend hnext hdraws hcarry hbacklog hid, hroute⟩

/-! ### Entry times of one item -/

/-- The open visits of the item were entered by the instant. -/
def ItemView.EnteredBy (item : ItemView) (instant : ℤ) : Prop :=
  ∀ visit ∈ item.visits, visit.lifecycle = .OPEN → visit.enteredAt ≤ instant

theorem ItemView.EnteredBy.mono {item : ItemView} {instant instant' : ℤ}
    (h : item.EnteredBy instant) (hle : instant ≤ instant') : item.EnteredBy instant' :=
  fun visit hvisit hopen => (h visit hvisit hopen).trans hle

/-- A visit that is entered by the instant, or is not open, may be written. -/
theorem ItemView.EnteredBy.put {item : ItemView} {instant : ℤ} (h : item.EnteredBy instant)
    {visit : StatusVisitState} (hvisit : visit.lifecycle = .OPEN → visit.enteredAt ≤ instant)
    (work : WorkItemState) :
    ItemView.EnteredBy { work, visits := putVisit item.visits visit } instant := by
  rintro v (rfl | ⟨hv, -⟩) hopen
  · exact hvisit hopen
  · exact h v hv hopen

theorem RiskMove.enteredBy {blueprint : ResolvedTeamBlueprint} {startsAt endsAt : ℤ}
    {item item' : ItemView} (h : RiskMove p blueprint startsAt endsAt item item')
    (hitem : item.EnteredBy startsAt) : item'.EnteredBy startsAt := by
  cases h with
  | pauses visit paused hvisit hopen same _ =>
    exact hitem.put (fun _ => same.enteredAt ▸ hitem visit hvisit hopen) _
  | returns review visit step draws ordinal sample _ _ _ enters =>
    exact hitem.put (fun _ => enters.enteredAt_eq.le) _
  | cancels visit target boundary _ hvisit hopen _ _ =>
    exact hitem.put (by rintro ⟨⟩) _

theorem RiskMoves.enteredBy {blueprint : ResolvedTeamBlueprint} {startsAt endsAt : ℤ}
    {item item' : ItemView} (h : RiskMoves p blueprint startsAt endsAt item item')
    (hitem : item.EnteredBy startsAt) : item'.EnteredBy startsAt := by
  induction h with
  | refl => exact hitem
  | tail _ hmove ih => exact hmove.1.enteredBy ih

theorem ProgressMove.enteredBy {blueprint : ResolvedTeamBlueprint} {endsAt : ℤ}
    {item item' : ItemView} (h : ProgressMove p blueprint endsAt item item')
    (hitem : item.EnteredBy endsAt) : item'.EnteredBy endsAt := by
  cases h with
  | idles => exact hitem
  | continues visit updated hvisit hopen same =>
    exact hitem.put (fun _ => same.enteredAt ▸ hitem visit hvisit hopen) _
  | finishes visit updated status hvisit hopen same =>
    exact hitem.put (by rintro ⟨⟩) _
  | advances visit updated next step draws ordinal sample hvisit hopen same enters =>
    have hclosed : ItemView.EnteredBy
        { item with visits := putVisit item.visits (closedVisit updated endsAt) } endsAt :=
      hitem.put (by rintro ⟨⟩) _
    exact hclosed.put (fun _ => enters.enteredAt_eq.le) _

/-! ### Runs -/

/-- Every item of the store has entered its open visits by the cursor. -/
def EnteredByCursor (store : TeamStore p) : Prop :=
  ∀ work ∈ store.scrum.workItems, (store.scrum.viewOf work).EnteredBy (cursor store.state)

/-- A restart commits a sprint boundary ahead of the cursor only when no item enters at it. -/
def EntersNoneAhead (store : TeamStore p) (event : TeamEvent) : Prop :=
  ∀ asOf boundary, event = .lifecycleBoundary asOf → nextBoundary store.state asOf = some boundary →
    cursor store.state < boundary → ∀ item ∈ store.scrum.workItems,
      ¬ Enters store.state boundary item

theorem Bootstrapped.enteredByCursor {start : TeamStart} {draws : DrawSource}
    {context : BootstrapContext} {picked : List Uuid} {initial : ScrumStateWriteSet p}
    {store : TeamStore p} (h : Bootstrapped start draws context picked initial store) :
    EnteredByCursor store := by
  intro work _ visit hvisit hopen
  have hcursor : cursor store.state = start.startedAt := by
    show store.aggregate.runtime.simulationTime = start.startedAt
    rw [h.aggregate]
    rfl
  have hmem : visit ∈ initial.statusVisits := (h.mem_rows Collection.statusVisits).mp hvisit.1
  obtain ⟨item, -, -, activated, hactivated, hmem⟩ := (h.initialRows.visits visit).mp hmem
  rw [hcursor, (activateItem_first hactivated visit hmem).2.2.2.1]

theorem Committed.enteredByCursor_of_tick {store store' : TeamStore p} {request : TickRequest}
    {draws : DrawSource} {advance : RiskAdvance p} {command : AuthoritativeTickSliceCommit p}
    (h : Committed store command store') (hkept : RuntimeKept store.state command)
    (hadvance : tickAdvance store.state request draws = .ok advance)
    (htime : command.liveSlice.runtimeAfter.simulationTime = advance.result.endsAt)
    (hassembled : Assembled command.liveSlice advance command) (hentered : EnteredByCursor store) :
    EnteredByCursor store' := by
  intro work' hwork'
  obtain ⟨outcome, finish, hrun⟩ := tickAdvance_eq_ok hadvance
  obtain ⟨work, hwork, -, mid, hmoves, hmove⟩ := tick_itemMoves h hrun hassembled hwork'
  have hcursor' : cursor store'.state = advance.result.endsAt := h.runtime_eq.2.2.2.2.trans htime
  have hle : cursor store.state ≤ advance.result.endsAt := htime ▸ hkept.cursor_le
  rw [hcursor']
  exact hmove.enteredBy ((hmoves.enteredBy (hentered work hwork)).mono hle)

theorem Committed.enteredByCursor_of_boundary {store store' : TeamStore p} {event : TeamEvent}
    {command : AuthoritativeTickSliceCommit p} {instant : ℤ} {transition : SprintTransition p}
    (h : Committed store command store')
    (hstep : BoundaryStep store.state instant transition)
    (htime : command.liveSlice.runtimeAfter.simulationTime = cursor store.state)
    (hstate : command.state = transition.state)
    (hdue : (instant = cursor store.state ∧ transition.activity ≠ []) ∨
      ∃ asOf, event = .lifecycleBoundary asOf ∧ nextBoundary store.state asOf = some instant)
    (hok : EntersNoneAhead store event) (hentered : EnteredByCursor store) :
    EnteredByCursor store' := by
  intro work' _ visit hvisit hopen
  have hcursor' : cursor store'.state = cursor store.state := h.runtime_eq.2.2.2.2.trans htime
  rw [hcursor']
  rcases (h.mem_rows Collection.statusVisits (fun _ _ _ => rfl)).mp hvisit.1 with hnew | ⟨hold, -⟩
  · -- a visit that the boundary writes was entered at it, so the boundary is not ahead
    have hnew : visit ∈ transition.state.statusVisits := hstate ▸ hnew
    obtain ⟨hat, item, hitem, henters⟩ := hstep.visit_enters hnew
    rw [hat]
    rcases hdue with ⟨hinstant, -⟩ | ⟨asOf, hevent, hnext⟩
    · exact hinstant.le
    · by_contra hlt
      exact hok asOf instant hevent hnext (not_le.mp hlt) item hitem henters
  · obtain ⟨work, hwork, hid⟩ := List.mem_map.mp (store.scrum.complete.visitWork visit hold)
    exact hentered work hwork visit ⟨hold, hid.symm⟩ hopen

theorem enteredByCursor_of_reachableBy {store : TeamStore p}
    (h : (teamRuns p).ReachableBy (fun _ => True) EntersNoneAhead store) :
    EnteredByCursor store := by
  refine run_induction h ?_ ?_ ?_
  · exact fun _ _ _ _ _ _ _ hboot => hboot.enteredByCursor
  · intro store store' _ hentered hprovision
    rw [hprovision.same]
    exact hentered
  · intro store event command store' _ hentered hok hkept hof hcommitted
    cases hof with
    | tick request draws advance _ _ hadvance _ htime hassembled =>
      exact hcommitted.enteredByCursor_of_tick hkept hadvance htime hassembled hentered
    | boundary instant transition _ hstep htime hstate _ _ _ _ hdue =>
      exact hcommitted.enteredByCursor_of_boundary hstep htime hstate hdue hok hentered
    | downtime hempty =>
      intro work' hwork'
      have hwork := (hcommitted.mem_of_empty Collection.workItems (fun _ _ _ => rfl) hempty).mp
        hwork'
      have hle : cursor store.state ≤ cursor store'.state :=
        hkept.cursor_le.trans hcommitted.runtime_eq.2.2.2.2.ge
      rw [hcommitted.viewOf_of_empty hempty]
      exact (hentered work' hwork).mono hle

/-- The open visits of a store whose items are entered by the cursor. -/
theorem EnteredByCursor.openVisits {store : TeamStore p} (h : EnteredByCursor store) :
    ∀ visit ∈ openVisits store.state, visit.enteredAt ≤ cursor store.state := by
  intro visit hvisit
  obtain ⟨hmem, hopen⟩ := mem_openVisits.mp hvisit
  obtain ⟨work, hwork, hid⟩ := List.mem_map.mp (store.scrum.complete.visitWork visit hmem)
  exact h work hwork visit ⟨hmem, hid.symm⟩ hopen

/-- The risks of a tick enter visits at the cursor only. -/
theorem EnteredByCursor.risks {store : TeamStore p} (h : EnteredByCursor store) {endsAt : ℤ}
    {draws : DrawSource} {risks : RiskRecords p} {working : LiveTeamState p}
    (hrisks : evaluateDueRisks store.state endsAt draws = .ok risks)
    (hworking : store.state.withWriteSet risks.state = .ok working) :
    ∀ visit ∈ JiraSimulator.openVisits working, visit.enteredAt ≤ cursor store.state := by
  intro visit hvisit
  obtain ⟨hmem, hopen⟩ := mem_openVisits.mp hvisit
  obtain ⟨work', hwork', hid⟩ := List.mem_map.mp (working.scrum.complete.visitWork visit hmem)
  obtain ⟨work, hwork, -, hmoves⟩ :=
    applyRules_itemMoves (evaluateDueRisks_working hrisks hworking) hwork'
  exact hmoves.enteredBy (h work hwork) visit ⟨hmem, hid.symm⟩ hopen

theorem UtcInterval.create_of_le {start finish : ℤ} (h : start ≤ finish) :
    UtcInterval.create start finish = .ok { start, finish } := by
  simp only [UtcInterval.create, bind_eq_ok, exists_unit, require_eq_ok, pure_eq_ok]
  exact ⟨h, trivial⟩

/-- In runs whose restarts take over no items ahead of the cursor, every open visit was entered by
the cursor.  So every interval that a tick measures from the entry of an open visit, to the start of
a segment or to an end of the tick, is in order. -/
theorem openVisits_entered {store : TeamStore p}
    (h : (teamRuns p).ReachableBy (fun _ => True) EntersNoneAhead store) :
    (∀ visit ∈ store.scrum.statusVisits, visit.lifecycle = .OPEN →
      visit.enteredAt ≤ store.aggregate.runtime.simulationTime) ∧
    ∀ draws endsAt risks working, evaluateDueRisks store.state endsAt draws = .ok risks →
      store.state.withWriteSet risks.state = .ok working → ∀ visit ∈ openVisits working,
        (∀ calendar segments,
          businessSegments working calendar (cursor store.state) endsAt = .ok segments →
          ∀ segment ∈ segments, UtcInterval.create visit.enteredAt segment.start =
            .ok { start := visit.enteredAt, finish := segment.start }) ∧
        ∀ instant, cursor store.state ≤ instant →
          UtcInterval.create visit.enteredAt instant =
            .ok { start := visit.enteredAt, finish := instant } := by
  have hentered := enteredByCursor_of_reachableBy h
  refine ⟨fun visit hvisit hopen => hentered.openVisits visit (mem_openVisits.mpr ⟨hvisit, hopen⟩),
    fun draws endsAt risks working hrisks hworking visit hvisit => ?_⟩
  have hle := hentered.risks hrisks hworking visit hvisit
  constructor
  · intro calendar segments hsegments segment hsegment
    have hstart := (businessSegments_eq_ok hsegments segment hsegment).startsAt_le
    exact UtcInterval.create_of_le (hle.trans hstart)
  · exact fun instant hinstant => UtcInterval.create_of_le (hle.trans hinstant)

/-- Some hours after the first Monday at nine. -/
def mondayAt (hours : ℤ) : ℤ :=
  firstMonday + hours * microsecondsPerHour

/-- A sprint that takes over nothing from the backlog lets no item enter. -/
theorem entersNoneAhead_of_carried {store : TeamStore p} {event : TeamEvent}
    {sprint next : SprintState} {claim : SemanticCounterClaim} {draws : DrawSource}
    {carryIds : List Uuid} (honly : store.scrum.sprints = [sprint])
    (hactive : sprint.lifecycle = .ACTIVE)
    (hnext : successor store.state sprint sprint.plannedEndAt = .ok (next, claim))
    (hdraws : seededDrawSource p store.aggregate = .ok draws)
    (hcarry : carryoverIds store.state sprint.id = .ok carryIds)
    (hbacklog : rankedBacklogIds store.state next.id carryIds draws = .ok []) :
    EntersNoneAhead store event := by
  have honly' : ∀ other ∈ store.state.scrum.sprints, other = sprint := by
    intro other hother
    rw [show store.state.scrum.sprints = [sprint] from honly, List.mem_singleton] at hother
    exact hother
  rintro asOf boundary - - - item - ⟨htakes, -⟩
  cases htakes with
  | planned other _ hmem hplanned =>
    rw [honly' other hmem, hactive] at hplanned
    cases hplanned
  | rolled other next' claim' draws' carryIds' backlogIds hmem _ hend hnext' hdraws' hcarry'
      hbacklog' hitem =>
    obtain rfl := honly' other hmem
    subst hend
    rw [hnext] at hnext'
    obtain ⟨rfl, rfl⟩ := Prod.mk.inj (Except.ok.inj hnext')
    obtain rfl : draws = draws' := Except.ok.inj (hdraws.symm.trans hdraws')
    obtain rfl : carryIds = carryIds' := Except.ok.inj (hcarry.symm.trans hcarry')
    obtain rfl : [] = backlogIds := Except.ok.inj (hbacklog.symm.trans hbacklog')
    cases hitem

/-- A tick, after which the process is down. -/
def beforeRestart : List TeamEvent :=
  [tickUntil utcPlatform noonBlueprint 4, .downtimeEvidence (mondayAt 30)]

/-- The restart of the day after crosses the boundary at noon. -/
def restartOverNoon : List TeamEvent :=
  [.lifecycleBoundary (mondayAt 30), .skipDowntime (mondayAt 30)]

/-- A restart that stops after the boundary at noon. -/
def restartToBoundary : List TeamEvent :=
  [.downtimeEvidence (mondayAt 5), .lifecycleBoundary (mondayAt 5)]

/-- The restart of the small team carries its item over the boundary ahead of the cursor, and takes
over no other. -/
theorem openVisits_entered_smallTeam :
    ∃ down store, runTeam utcPlatform (startAfter noonBlueprint 3) beforeRestart = .ok down ∧
      nextBoundary down.state (mondayAt 30) = some (mondayAt 27) ∧
      cursor down.state < mondayAt 27 ∧ restartOverNoon.foldlM stepTeam down = .ok store ∧
      ∀ visit ∈ store.scrum.statusVisits, visit.lifecycle = .OPEN →
        visit.enteredAt ≤ store.aggregate.runtime.simulationTime := by
  obtain ⟨store, h⟩ := exists_of_succeeds (do
    let down ← runTeam utcPlatform (startAfter noonBlueprint 3) beforeRestart
    require (nextBoundary down.state (mondayAt 30) = some (mondayAt 27) ∧
      cursor down.state < mondayAt 27) ""
    let sprint ← next (fun sprint => sprint.lifecycle = .ACTIVE) down.scrum.sprints
    require (down.scrum.sprints = [sprint]) ""
    let rolled ← successor down.state sprint sprint.plannedEndAt
    let draws ← seededDrawSource utcPlatform down.aggregate
    let carryIds ← carryoverIds down.state sprint.id
    let backlogIds ← rankedBacklogIds down.state rolled.1.id carryIds draws
    require (backlogIds = []) ""
    restartOverNoon.foldlM stepTeam down) (by decide +kernel)
  simp only [bind_eq_ok, exists_unit, require_eq_ok] at h
  obtain ⟨down, hdown, ⟨hnextBoundary, hcursor⟩, sprint, hsprint, honly, ⟨rolled, claim⟩, hrolled,
    draws, hdraws, carryIds, hcarry, _, hbacklog, rfl, hrestart⟩ := h
  obtain ⟨-, hactive⟩ := mem_of_next hsprint
  have hdown' := hdown
  simp only [runTeam, bind_eq_ok] at hdown'
  obtain ⟨first, hfirst, hevents⟩ := hdown'
  have hbefore : scriptMeets EntersNoneAhead first beforeRestart := by
    refine ⟨?_, fun _ _ => ⟨?_, fun _ _ => trivial⟩⟩
    all_goals
      intro asOf boundary hevent
      cases hevent
  have hcrossing : EntersNoneAhead down (.lifecycleBoundary (mondayAt 30)) :=
    entersNoneAhead_of_carried honly (of_decide_eq_true hactive) hrolled hdraws hcarry hbacklog
  have hafter : scriptMeets EntersNoneAhead down restartOverNoon := by
    refine ⟨hcrossing, fun _ _ => ⟨?_, fun _ _ => trivial⟩⟩
    intro asOf boundary hevent
    cases hevent
  exact ⟨down, store, hdown, hnextBoundary, hcursor, hrestart,
    (openVisits_entered (reachableBy_of_foldlM hrestart hafter
      (reachableBy_of_foldlM hevents hbefore (.start hfirst trivial)))).1⟩

/-- A restart that stops after its first boundary: the items of the sprint are entered ahead of the
cursor, and the next tick raises. -/
theorem resumed_tick_reversed :
    ∃ store, runTeam utcPlatform (startAfter noonBlueprint 1) restartToBoundary = .ok store ∧
      (∃ visit ∈ store.scrum.statusVisits, visit.lifecycle = .OPEN ∧
        store.aggregate.runtime.simulationTime < visit.enteredAt) ∧
      stepTeam store (tickUntil utcPlatform noonBlueprint 6) =
        .error (.valueError "UTC interval must not be reversed") := by
  obtain ⟨visit, h⟩ := exists_of_succeeds (do
    let store ← runTeam utcPlatform (startAfter noonBlueprint 1) restartToBoundary
    require (errorOf (stepTeam store (tickUntil utcPlatform noonBlueprint 6)) =
      some (.valueError "UTC interval must not be reversed")) "the tick proceeds"
    next (fun visit => visit.lifecycle = .OPEN ∧
      store.aggregate.runtime.simulationTime < visit.enteredAt) store.scrum.statusVisits)
    (by decide +kernel)
  simp only [bind_eq_ok, exists_unit, require_eq_ok, errorOf_eq_some] at h
  obtain ⟨store, hrun, hraises, hvisit⟩ := h
  obtain ⟨hmem, hahead⟩ := mem_of_next hvisit
  exact ⟨store, hrun, ⟨visit, hmem, of_decide_eq_true hahead⟩, hraises⟩

end JiraSimulator
