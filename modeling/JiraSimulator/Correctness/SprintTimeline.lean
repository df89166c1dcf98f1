import JiraSimulator.Correctness.ProgressLedger

/-!
# The timeline of the sprints

The sprints of a team follow each other without a gap: each spans two consecutive boundaries of the
cadence, and only the last one is not completed.  The cursor does not pass its next boundary before
the boundary is crossed, by a tick at the cursor or by a restart ahead of it.
* `Timeline`: what holds of the sprints, of their counter and of the recorded crossings.
* `sprint_timeline`: the timeline of every state of every run.
-/

namespace JiraSimulator

open Library Library.Outcome Library.Transition ScrumCollections

variable {p : Platform}

/-! ### Windows -/

theorem CadenceWindow.tile {blueprint : ResolvedTeamBlueprint} {sprint next : SprintState}
    (h : CadenceWindow p blueprint sprint) (h' : CadenceWindow p blueprint next)
    (hordinal : next.ordinal = sprint.ordinal + 1) :
    next.plannedStartAt = sprint.plannedEndAt := by
  obtain ⟨calendar, rule, hcalendar, hrule, -, hend⟩ := h
  obtain ⟨calendar', rule', hcalendar', hrule', hstart, -⟩ := h'
  rw [hcalendar, Except.ok.injEq] at hcalendar'
  rw [hrule, Except.ok.injEq] at hrule'
  rw [← hcalendar', ← hrule', hordinal, hend, Except.ok.injEq] at hstart
  exact hstart.symm

theorem advanceSprintOrdinal_eq_ok {calendar : BusinessCalendar} {cadence : CadenceRule}
    {startedAt : ℤ} {fuel ordinal last : ℕ}
    (h : advanceSprintOrdinal calendar cadence startedAt fuel ordinal = .ok last) :
    ∃ boundary, cadenceBoundary calendar cadence (last + 1) = .ok boundary ∧
      startedAt < boundary := by
  induction fuel generalizing ordinal with
  | zero => cases h
  | succ fuel ih =>
    simp only [advanceSprintOrdinal, bind_eq_ok] at h
    obtain ⟨boundary, hboundary, h⟩ := h
    by_cases hpast : boundary ≤ startedAt
    · rw [if_pos hpast] at h
      exact ih h
    · rw [if_neg hpast, pure_eq_ok] at h
      subst h
      exact ⟨boundary, hboundary, not_le.mp hpast⟩

/-- The initial sprint spans its window of the cadence, and its next boundary is ahead. -/
theorem initialSprint_window {aggregate : PersistedTeamAggregate} {startedAt : ℤ}
    {sprint : SprintState} (h : initialSprint p aggregate startedAt = .ok sprint) :
    CadenceWindow p aggregate.blueprint sprint ∧
      ∀ boundary, boundaryFor sprint = some boundary → startedAt < boundary := by
  simp only [initialSprint, bind_eq_ok, sprintRngId_eq_ok, validated_eq_ok] at h
  obtain ⟨calendar, hcalendar, rule, hrule, ordinal, hordinal, start, hstart, finish, hfinish, id, -,
    -, rfl⟩ := h
  refine ⟨⟨calendar, rule, hcalendar, hrule, hstart, hfinish⟩, fun boundary hboundary => ?_⟩
  by_cases hbegun : start ≤ startedAt
  · simp only [boundaryFor, hbegun, decide_true, if_true, Option.some.injEq] at hboundary
    subst hboundary
    unfold containingSprintOrdinal at hordinal
    split_ifs at hordinal with hbefore
    · -- before the anchor the initial sprint is the first one, which starts at the anchor
      cases hordinal
      rw [cadenceBoundary, if_pos rfl, Except.ok.injEq] at hstart
      omega
    · obtain ⟨boundary, hboundary, hlt⟩ := advanceSprintOrdinal_eq_ok hordinal
      rw [hfinish, Except.ok.injEq] at hboundary
      omega
  · simp only [boundaryFor, hbegun, decide_false, Bool.false_eq_true, if_false,
      Option.some.injEq] at hboundary
    omega

/-! ### Crossings -/

/-- The ordinal and the boundary of a recorded crossing. -/
def crossingOf (draft : GroundTruthRecordDraft) : Option (ℕ × ℤ) :=
  match draft.semanticKey, draft.payload with
  | .sprintBoundary _ _ ordinal _, .sprintBoundary boundary _ _ _ => some (ordinal, boundary)
  | _, _ => none

/-- The crossings of a ledger: the ordinals of the sprints that began at them, and their instants.
-/
def crossings (groundTruth : List GroundTruthRecordDraft) : List (ℕ × ℤ) :=
  groundTruth.filterMap crossingOf

theorem crossingOf_eq_none {draft : GroundTruthRecordDraft}
    (h : ∀ boundary previous current policy,
      draft.payload ≠ .sprintBoundary boundary previous current policy) :
    crossingOf draft = none := by
  unfold crossingOf
  split
  · rename_i hpayload
    exact absurd hpayload (h _ _ _ _)
  · rfl

theorem tickSlice_crossings {state : LiveTeamState p} {request : TickRequest} {draws : DrawSource}
    {advance : RiskAdvance p} {outcome : SegmentsOutcome}
    {finish : StatusVisitState → FinishedVisit} {slice : TickSliceCommit}
    (h : tickSlice request advance = .ok slice)
    (hrun : TickRun state draws advance outcome finish) :
    ∀ draft ∈ slice.groundTruth, crossingOf draft = none := by
  intro draft hdraft
  obtain ⟨truths, htruths, hall⟩ := tickSlice_groundTruth h
  rw [htruths, List.mem_append] at hdraft
  refine crossingOf_eq_none fun boundary previous current policy hpayload => ?_
  rcases hdraft with hprogress | hrisk
  · obtain ⟨truth, htruth, hmem⟩ := List.mem_flatten.mp hprogress
    obtain ⟨visit, -, hvisit⟩ := forall₂_exists_left hall htruth
    by_cases hskip : 0 < visit.ordinal ∧ visit.lifecycle = .OPEN
    · rw [hvisit.skipped hskip] at hmem
      cases hmem
    · obtain ⟨-, -, -, draft', record, rfl, -, hrecord, -⟩ := hvisit.recorded hskip
      rw [List.mem_singleton.mp hmem, hrecord] at hpayload
      cases hpayload
  · obtain ⟨_, _, _, reached, evidence, -, -, -, htruth⟩ :=
      evaluateDueRisks_groundTruth hrun.risks hrisk
    rw [htruth] at hpayload
    cases hpayload

/-- Drafts that are no crossings leave the crossings of the ledger alone. -/
theorem crossings_appendDrafts {ledger ledger' drafts : List GroundTruthRecordDraft}
    (h : appendDrafts (·.semanticKey) ledger drafts = .ok ledger')
    (hnone : ∀ draft ∈ drafts, crossingOf draft = none) : crossings ledger' = crossings ledger := by
  obtain ⟨added, rfl, hsublist, -⟩ := appendDrafts_eq_ok h
  have hadded : added.filterMap crossingOf = [] :=
    List.filterMap_eq_nil_iff.mpr fun draft hdraft => hnone draft (hsublist.subset hdraft)
  rw [crossings, List.filterMap_append, hadded, List.append_nil, crossings]

/-- A crossing that the ledger does not hold is appended. -/
theorem crossings_append_of_new {ledger ledger' : List GroundTruthRecordDraft}
    {draft : GroundTruthRecordDraft} {crossing : ℕ × ℤ}
    (h : appendDrafts (·.semanticKey) ledger [draft] = .ok ledger')
    (hcrossing : crossingOf draft = some crossing) (hnew : crossing ∉ crossings ledger) :
    crossings ledger' = crossings ledger ++ [crossing] := by
  have hfresh : ∀ other ∈ [draft], other ∉ ledger := by
    intro other hother hmem
    rw [List.mem_singleton.mp hother] at hmem
    exact hnew (List.mem_filterMap.mpr ⟨draft, hmem, hcrossing⟩)
  rw [appendDrafts_of_fresh h (List.nodup_singleton _) hfresh, crossings, List.filterMap_append]
  simp [crossings, hcrossing]

/-! ### The counter of the sprints -/

/-- A claim on sprints is backed by the sprint with the last claimed ordinal. -/
theorem Committed.sprint_of_claim {store store' : TeamStore p}
    {command : AuthoritativeTickSliceCommit p} (h : Committed store command store')
    {claim : SemanticCounterClaim} (hclaim : claim ∈ command.counterClaims) {team : Uuid}
    (hscope : claim.scope = .sprintOrdinal team) :
    ∃ sprint ∈ store'.scrum.sprints, claim.expectedNext + claim.count = sprint.ordinal + 1 := by
  have hvalid := h.valid
  simp only [AuthoritativeTickSliceCommit.validate, validateClaimBindings, bind_eq_ok, exists_unit,
    forM_eq_ok] at hvalid
  obtain ⟨-, -, -, -, -, -, -, -, -, -, -, hranges⟩ := hvalid
  have hcount := count_ne_zero_of_validate h.valid hclaim
  have hrange := hranges claim hclaim
  simp only [validateAllocationRange, hscope, SemanticCounterScope.isNatural, Bool.false_eq_true,
    if_false, bind_eq_ok, exists_unit, require_eq_ok, coordinatesForScope] at hrange
  -- the last claimed ordinal is covered by a sprint of the write set
  have hlast : claim.expectedNext + claim.count - 1 ∈
      List.range' claim.expectedNext claim.count := by
    rw [List.mem_range'_1]
    omega
  rw [← hrange.1, List.mem_insertionSort, List.mem_filter, List.mem_map] at hlast
  obtain ⟨⟨sprint, hsprint, hordinal⟩, -⟩ := hlast
  refine ⟨sprint, ?_, by omega⟩
  exact (h.mem_rows Collection.sprints fun _ _ _ => rfl).mpr (.inl (List.mem_filter.mp hsprint).1)

/-- The counter of the sprints is advanced past a sprint, or stays. -/
theorem Committed.sprintCounter {store store' : TeamStore p}
    {command : AuthoritativeTickSliceCommit p} (h : Committed store command store') {team : Uuid}
    {value : ℕ} (hvalue : counterAt store.scrum.semanticCounters (.sprintOrdinal team) = some value) :
    ∃ value', counterAt store'.scrum.semanticCounters (.sprintOrdinal team) = some value' ∧
      value ≤ value' ∧
      (value' = value ∨ ∃ sprint ∈ store'.scrum.sprints, value' = sprint.ordinal + 1) := by
  obtain ⟨value', hvalue', hle, hsource⟩ := h.counters _ value hvalue
  refine ⟨value', hvalue', hle, hsource.imp id ?_⟩
  rintro ⟨claim, hclaim, hscope, rfl⟩
  exact h.sprint_of_claim hclaim hscope

/-! ### The timeline -/

/-- The ordinal of the next sprint to begin. -/
def nextOrdinal (sprint : SprintState) : ℕ :=
  if sprint.lifecycle = .PLANNED then sprint.ordinal else sprint.ordinal + 1

/-- The sprints of a store: from the initial one to the current one, the only one that is not
completed, each in its window; their counter; and the crossings recorded so far. -/
structure Timeline (store : TeamStore p) (initial current : SprintState) : Prop where
  mem : current ∈ store.scrum.sprints
  running : current.lifecycle ≠ .COMPLETED
  unique : ∀ sprint ∈ store.scrum.sprints, sprint.lifecycle ≠ .COMPLETED → sprint = current
  team : ∀ sprint ∈ store.scrum.sprints, sprint.teamId = store.aggregate.team.id
  ordinals : ∀ ordinal, (∃ sprint ∈ store.scrum.sprints, sprint.ordinal = ordinal) ↔
    initial.ordinal ≤ ordinal ∧ ordinal ≤ current.ordinal
  windows : ∀ sprint ∈ store.scrum.sprints, CadenceWindow p store.aggregate.blueprint sprint
  counter : counterAt store.scrum.semanticCounters (.sprintOrdinal store.aggregate.team.id) =
    some (current.ordinal + 1)
  clock : ∀ boundary, boundaryFor current = some boundary → cursor store.state ≤ boundary
  crossed : (crossings store.groundTruth).map Prod.fst =
    List.range' (nextOrdinal initial) (nextOrdinal current - nextOrdinal initial)
  started : nextOrdinal initial ≤ nextOrdinal current
  crossedAt : ∀ crossing ∈ crossings store.groundTruth, ∃ sprint ∈ store.scrum.sprints,
    sprint.ordinal = crossing.1 ∧ sprint.plannedStartAt = crossing.2

theorem Bootstrapped.timeline {start : TeamStart} {draws : DrawSource}
    {context : BootstrapContext} {picked : List Uuid} {initial : ScrumStateWriteSet p}
    {store : TeamStore p} (h : Bootstrapped start draws context picked initial store) :
    Timeline store context.sprint context.sprint := by
  have hrows := h.initialRows
  -- the first sprint is the only one
  have hmem : ∀ sprint, sprint ∈ store.scrum.sprints ↔ sprint = context.sprint := by
    intro sprint
    rw [h.mem_rows Collection.sprints]
    show sprint ∈ initial.sprints ↔ _
    rw [hrows.sprints, List.mem_singleton]
  have hcursor : cursor store.state = start.startedAt := by
    show store.aggregate.runtime.simulationTime = start.startedAt
    rw [h.aggregate]
    rfl
  have hteam : store.aggregate.team.id = start.aggregate.team.id := by rw [h.aggregate]
  have hblueprint : store.aggregate.blueprint = start.aggregate.blueprint := by rw [h.aggregate]
  obtain ⟨-, hsprintTeam, hlifecycle⟩ := initialSprint_eq_ok hrows.sprint_eq
  obtain ⟨hwindow, hahead⟩ := initialSprint_window hrows.sprint_eq
  have hnone : crossings store.groundTruth = [] := by
    rw [h.groundTruth]
    rfl
  refine ⟨(hmem _).mpr rfl, ?_, fun sprint hsprint _ => (hmem sprint).mp hsprint, ?_, ?_, ?_, ?_,
    ?_, ?_, le_rfl, ?_⟩
  · rcases hlifecycle with hplanned | ⟨hactive, -⟩
    · rw [hplanned]
      decide
    · rw [hactive]
      decide
  · intro sprint hsprint
    rw [(hmem sprint).mp hsprint, hsprintTeam, hteam]
  · intro ordinal
    constructor
    · rintro ⟨sprint, hsprint, rfl⟩
      rw [(hmem sprint).mp hsprint]
      exact ⟨le_rfl, le_rfl⟩
    · rintro ⟨hge, hle⟩
      exact ⟨context.sprint, (hmem _).mpr rfl, le_antisymm hge hle⟩
  · intro sprint hsprint
    rw [(hmem sprint).mp hsprint, hblueprint]
    exact hwindow
  · -- the counter stands after the first sprint
    obtain ⟨counter, hcounter, hscope, hvalue⟩ := hrows.sprintCounter
    have hstored : counter ∈ store.scrum.semanticCounters :=
      (h.mem_rows Collection.counters).mpr hcounter
    rw [hteam, ← hscope, counterAt_of_mem store.scrum.complete.toConsistent hstored, hvalue]
  · intro boundary hboundary
    rw [hcursor]
    exact (hahead boundary hboundary).le
  · rw [hnone, Nat.sub_self]
    rfl
  · rw [hnone]
    simp

/-! ### Commits that cross no boundary -/

section keep

variable {store store' : TeamStore p} {command : AuthoritativeTickSliceCommit p}
  {initial current : SprintState}

/-- A commit that leaves the sprints alone keeps the timeline while the cursor stays before the next
boundary. -/
theorem Timeline.keep (h : Timeline store initial current)
    (hcommitted : Committed store command store')
    (hsprints : ∀ sprint, sprint ∈ store'.scrum.sprints ↔ sprint ∈ store.scrum.sprints)
    (hclock : ∀ boundary, boundaryFor current = some boundary → cursor store'.state ≤ boundary)
    (hcrossings : crossings store'.groundTruth = crossings store.groundTruth) :
    Timeline store' initial current := by
  refine ⟨(hsprints current).mpr h.mem, h.running, fun sprint hsprint =>
    h.unique sprint ((hsprints sprint).mp hsprint), ?_, fun ordinal => ?_, ?_, ?_, hclock,
    hcrossings ▸ h.crossed, h.started, ?_⟩
  · intro sprint hsprint
    rw [hcommitted.team_eq]
    exact h.team sprint ((hsprints sprint).mp hsprint)
  · rw [← h.ordinals ordinal]
    exact exists_congr fun sprint => and_congr_left fun _ => hsprints sprint
  · intro sprint hsprint
    rw [hcommitted.blueprint_eq]
    exact h.windows sprint ((hsprints sprint).mp hsprint)
  · rw [hcommitted.team_eq]
    obtain ⟨value', hvalue', hle, hsource⟩ := hcommitted.sprintCounter h.counter
    rw [hvalue', Option.some.injEq]
    rcases hsource with heq | ⟨sprint, hsprint, heq⟩
    · exact heq
    · have hrange := (h.ordinals sprint.ordinal).mp ⟨sprint, (hsprints sprint).mp hsprint, rfl⟩
      omega
  · rw [hcrossings]
    intro crossing hcrossing
    obtain ⟨sprint, hsprint, hsame⟩ := h.crossedAt crossing hcrossing
    exact ⟨sprint, (hsprints sprint).mpr hsprint, hsame⟩

end keep

/-! ### The end of a tick -/

theorem workdayStartBetween_le {calendar : BusinessCalendar} {cursor endsAt instant : ℤ}
    {days : List ℤ} (h : workdayStartBetween calendar cursor endsAt days = .ok instant) :
    instant ≤ endsAt := by
  induction days with
  | nil =>
    cases h
    exact le_rfl
  | cons day days ih =>
    simp only [workdayStartBetween, bind_eq_ok] at h
    obtain ⟨working, -, h⟩ := h
    cases working with
    | none =>
      simp only [bind_eq_ok, exists_unit] at h
      exact ih h.2
    | some interval =>
      simp only at h
      split_ifs at h with hinside
      · rw [pure_eq_ok] at h
        exact h ▸ hinside.2.le
      · simp only [bind_eq_ok, exists_unit] at h
        exact ih h.2

theorem nextWorkdayRiskBoundary_le {state : LiveTeamState p} {endsAt instant : ℤ}
    (h : nextWorkdayRiskBoundary state endsAt = .ok instant) : instant ≤ endsAt := by
  simp only [nextWorkdayRiskBoundary] at h
  split_ifs at h with hquiet
  · cases h
    exact le_rfl
  · simp only [bind_eq_ok] at h
    obtain ⟨calendar, -, day, -, final, -, h⟩ := h
    exact workdayStartBetween_le h

/-- A tick does not end after the next boundary of the only running sprint. -/
theorem effectiveEnd_le_boundary {state : LiveTeamState p} {requested instant boundary : ℤ}
    {current : SprintState} (h : effectiveEnd state requested = .ok instant)
    (hmem : current ∈ state.scrum.sprints)
    (hunique : ∀ sprint ∈ state.scrum.sprints, sprint.lifecycle ≠ .COMPLETED → sprint = current)
    (hboundary : boundaryFor current = some boundary) (hahead : cursor state < boundary) :
    instant ≤ boundary := by
  have hle := nextWorkdayRiskBoundary_le h
  refine hle.trans (max_le hahead.le ?_)
  cases hplanned : state.scrum.sprints.find? fun sprint =>
      sprint.lifecycle = .PLANNED && cursor state < sprint.plannedStartAt with
  | some sprint =>
    have hfound := List.find?_some hplanned
    simp only [Bool.and_eq_true, decide_eq_true_eq] at hfound
    have hcurrent := hunique sprint (List.mem_of_find?_eq_some hplanned) (by rw [hfound.1]; decide)
    simp only [boundaryFor, ← hcurrent, hfound.1, Option.some.injEq] at hboundary
    exact (min_le_right _ _).trans hboundary.le
  | none =>
    -- a planned sprint ahead of the cursor would have been found
    have hactive : current.lifecycle = .ACTIVE := by
      cases hlifecycle : current.lifecycle with
      | ACTIVE => rfl
      | COMPLETED => simp [boundaryFor, hlifecycle] at hboundary
      | PLANNED =>
        simp only [boundaryFor, hlifecycle, Option.some.injEq] at hboundary
        have hnot := List.find?_eq_none.mp hplanned current hmem
        simp [hlifecycle, hboundary, hahead] at hnot
    simp only [boundaryFor, hactive, Option.some.injEq] at hboundary
    have hmem' : current ∈ state.scrum.activeSprints :=
      List.mem_filter.mpr ⟨hmem, decide_eq_true hactive⟩
    cases hsprints : state.scrum.activeSprints with
    | nil =>
      rw [hsprints] at hmem'
      cases hmem'
    | cons sprint rest =>
      have hhead : sprint ∈ state.scrum.activeSprints := hsprints ▸ List.mem_cons_self
      obtain ⟨hsprint, hlifecycle⟩ := List.mem_filter.mp hhead
      have hcurrent := hunique sprint hsprint (by rw [of_decide_eq_true hlifecycle]; decide)
      simp only [hcurrent]
      exact (min_le_right _ _).trans hboundary.le

theorem riskAwareAdvanceFrom_le {state : LiveTeamState p} {calendar : BusinessCalendar}
    {draws : DrawSource} {fuel : ℕ} {endsAt : ℤ} {advance : RiskAdvance p}
    (hcalendar : state.calendar = .ok calendar)
    (h : riskAwareAdvanceFrom state calendar draws fuel endsAt = .ok advance)
    (hcursor : cursor state ≤ endsAt) : advance.result.endsAt ≤ endsAt := by
  induction fuel generalizing endsAt with
  | zero => cases h
  | succ fuel ih =>
    simp only [riskAwareAdvanceFrom, bind_eq_ok] at h
    obtain ⟨first, hfirst, h⟩ := h
    obtain ⟨hstart, hend, -⟩ := advanceForRisks_eq_ok hcalendar hfirst hcursor
    split_ifs at h with hshorter
    · exact (ih h hstart).trans hend
    · rw [pure_eq_ok] at h
      exact h ▸ hend

theorem tickAdvance_le_effectiveEnd {state : LiveTeamState p} {request : TickRequest}
    {draws : DrawSource} {advance : RiskAdvance p}
    (h : tickAdvance state request draws = .ok advance) :
    ∃ endsAt, effectiveEnd state request.endsAt = .ok endsAt ∧ advance.result.endsAt ≤ endsAt := by
  simp only [tickAdvance, riskAwareAdvance, bind_eq_ok] at h
  obtain ⟨calendar, hcalendar, endsAt, hendsAt, h⟩ := h
  exact ⟨endsAt, hendsAt, riskAwareAdvanceFrom_le hcalendar h (effectiveEnd_eq_ok hendsAt)⟩

/-- A tick that crosses no boundary starts before the next one. -/
theorem not_boundary_of_quiet {state : LiveTeamState p} {boundary : ℤ}
    {transition : SprintTransition p} (h : crossSprintBoundary state boundary = .ok transition)
    (hquiet : transition.activity = []) {sprint : SprintState}
    (hsprint : sprint ∈ state.scrum.sprints) : boundaryFor sprint ≠ some boundary := by
  intro hboundary
  unfold crossSprintBoundary at h
  cases hplanned : state.scrum.sprints.find? fun sprint =>
      sprint.lifecycle = .PLANNED && sprint.plannedStartAt = boundary with
  | some planned =>
    simp only [hplanned, activatePlannedSprint, bind_eq_ok, pure_eq_ok] at h
    obtain ⟨draws, -, plan, -, activated, -, writeSet, -, rfl⟩ := h
    cases hquiet
  | none =>
    simp only [hplanned] at h
    cases hactive : state.scrum.sprints.find? fun sprint =>
        sprint.lifecycle = .ACTIVE && sprint.plannedEndAt = boundary with
    | some active =>
      simp only [hactive, rollActiveSprint, bind_eq_ok, pure_eq_ok] at h
      obtain ⟨pair, -, draws, -, carryIds, -, backlogIds, -, plan, -, completed, -, closed, -,
        scope, -, writeSet, -, rfl⟩ := h
      cases hquiet
    | none =>
      have hnotPlanned := List.find?_eq_none.mp hplanned sprint hsprint
      have hnotActive := List.find?_eq_none.mp hactive sprint hsprint
      cases hlifecycle : sprint.lifecycle with
      | PLANNED =>
        simp only [boundaryFor, hlifecycle, Option.some.injEq] at hboundary
        simp [hlifecycle, hboundary] at hnotPlanned
      | ACTIVE =>
        simp only [boundaryFor, hlifecycle, Option.some.injEq] at hboundary
        simp [hlifecycle, hboundary] at hnotActive
      | COMPLETED => simp [boundaryFor, hlifecycle] at hboundary

theorem Timeline.tick {store store' : TeamStore p} {request : TickRequest} {draws : DrawSource}
    {advance : RiskAdvance p} {command : AuthoritativeTickSliceCommit p}
    {initial current : SprintState} (h : Timeline store initial current)
    (hcommitted : Committed store command store')
    (hquiet : ∃ transition, crossSprintBoundary store.state (cursor store.state) = .ok transition ∧
      transition.activity = [])
    (hadvance : tickAdvance store.state request draws = .ok advance)
    (hslice : tickSlice request advance = .ok command.liveSlice)
    (htime : command.liveSlice.runtimeAfter.simulationTime = advance.result.endsAt)
    (hassembled : Assembled command.liveSlice advance command) :
    Timeline store' initial current := by
  obtain ⟨outcome, finish, hrun⟩ := tickAdvance_eq_ok hadvance
  obtain ⟨transition, hcross, hactivity⟩ := hquiet
  obtain ⟨endsAt, hendsAt, hle⟩ := tickAdvance_le_effectiveEnd hadvance
  have hcursor' : cursor store'.state = advance.result.endsAt :=
    hcommitted.runtime_eq.2.2.2.2.trans htime
  refine h.keep hcommitted (hcommitted.tick_frame hrun hassembled).1 ?_
    (crossings_appendDrafts hcommitted.groundTruth (tickSlice_crossings hslice hrun))
  intro boundary hboundary
  have hne : cursor store.state ≠ boundary := by
    rintro rfl
    exact not_boundary_of_quiet hcross hactivity h.mem hboundary
  have hahead : cursor store.state < boundary := lt_of_le_of_ne (h.clock boundary hboundary) hne
  rw [hcursor']
  exact hle.trans (effectiveEnd_le_boundary hendsAt h.mem h.unique hboundary hahead)

/-! ### Downtime -/

theorem lt_of_nextBoundary {state : LiveTeamState p} {asOf boundary : ℤ} {sprint : SprintState}
    (h : nextBoundary state asOf = none) (hsprint : sprint ∈ state.scrum.sprints)
    (hboundary : boundaryFor sprint = some boundary) (hcursor : cursor state ≤ boundary) :
    asOf < boundary := by
  by_contra hle
  rw [nextBoundary, List.min?_eq_none_iff, List.filter_eq_nil_iff] at h
  refine h boundary (List.mem_filterMap.mpr ⟨sprint, hsprint, hboundary⟩) ?_
  simp only [Bool.and_eq_true, decide_eq_true_eq]
  exact ⟨hcursor, not_lt.mp hle⟩

theorem Timeline.downtime {store store' : TeamStore p} {command : AuthoritativeTickSliceCommit p}
    {initial current : SprintState} (h : Timeline store initial current)
    (hcommitted : Committed store command store')
    (hstate : command.state.toScrumCollections = {})
    (hgroundTruth : ∀ draft ∈ command.liveSlice.groundTruth,
      ∃ startsAt endsAt, draft.payload = .downtime startsAt endsAt)
    (htime : command.liveSlice.runtimeAfter.simulationTime = cursor store.state ∨
      nextBoundary store.state command.liveSlice.runtimeAfter.simulationTime = none) :
    Timeline store' initial current := by
  have hcursor' : cursor store'.state = command.liveSlice.runtimeAfter.simulationTime :=
    hcommitted.runtime_eq.2.2.2.2
  refine h.keep hcommitted
    (fun _ => hcommitted.mem_of_empty Collection.sprints (fun _ _ _ => rfl) hstate) ?_ ?_
  · intro boundary hboundary
    rw [hcursor']
    rcases htime with hsame | hnone
    · rw [hsame]
      exact h.clock boundary hboundary
    · exact (lt_of_nextBoundary hnone h.mem hboundary (h.clock boundary hboundary)).le
  · refine crossings_appendDrafts hcommitted.groundTruth fun draft hdraft => ?_
    obtain ⟨startsAt, endsAt, hpayload⟩ := hgroundTruth draft hdraft
    refine crossingOf_eq_none fun boundary previous current policy hother => ?_
    rw [hpayload] at hother
    cases hother

/-! ### Crossing a boundary -/

/-- The row of a sprint at its place of the timeline. -/
structure SameWindow (old new : SprintState) : Prop where
  teamId : new.teamId = old.teamId
  ordinal : new.ordinal = old.ordinal
  plannedStartAt : new.plannedStartAt = old.plannedStartAt
  plannedEndAt : new.plannedEndAt = old.plannedEndAt

theorem sameWindow_refl (sprint : SprintState) : SameWindow sprint sprint :=
  ⟨rfl, rfl, rfl, rfl⟩

theorem SameWindow.cadenceWindow {blueprint : ResolvedTeamBlueprint} {old new : SprintState}
    (h : SameWindow old new) (hold : CadenceWindow p blueprint old) :
    CadenceWindow p blueprint new := by
  unfold CadenceWindow
  rw [h.ordinal, h.plannedStartAt, h.plannedEndAt]
  exact hold

theorem Timeline.nextOrdinal_cases {store : TeamStore p} {initial current : SprintState}
    (h : Timeline store initial current) :
    (current.lifecycle = .PLANNED ∧ nextOrdinal current = current.ordinal) ∨
      (current.lifecycle = .ACTIVE ∧ nextOrdinal current = current.ordinal + 1) := by
  unfold nextOrdinal
  cases hlifecycle : current.lifecycle with
  | PLANNED => exact .inl ⟨rfl, if_pos rfl⟩
  | ACTIVE => exact .inr ⟨rfl, if_neg (by decide)⟩
  | COMPLETED => exact absurd hlifecycle h.running

/-- The next sprint to begin has not been recorded. -/
theorem Timeline.not_crossed {store : TeamStore p} {initial current : SprintState}
    (h : Timeline store initial current) (boundary : ℤ) :
    (nextOrdinal current, boundary) ∉ crossings store.groundTruth := by
  intro hmem
  have hordinal : nextOrdinal current ∈ (crossings store.groundTruth).map Prod.fst :=
    List.mem_map.mpr ⟨_, hmem, rfl⟩
  have hstarted := h.started
  rw [h.crossed, List.mem_range'_1] at hordinal
  omega

/-- What a boundary makes of the sprints: the next sprint is active, and every other is completed.
-/
structure Crosses (store store' : TeamStore p) (current next : SprintState) : Prop where
  mem : next ∈ store'.scrum.sprints
  lifecycle : next.lifecycle = .ACTIVE
  ordinal : next.ordinal = nextOrdinal current
  teamId : next.teamId = store.aggregate.team.id
  window : CadenceWindow p store.aggregate.blueprint next
  others : ∀ sprint ∈ store'.scrum.sprints, sprint = next ∨
    (sprint.lifecycle = .COMPLETED ∧ ∃ old ∈ store.scrum.sprints, SameWindow old sprint)
  kept : ∀ old ∈ store.scrum.sprints, ∃ sprint ∈ store'.scrum.sprints, SameWindow old sprint
  counter : ∃ value, counterAt store'.scrum.semanticCounters
    (.sprintOrdinal store.aggregate.team.id) = some value ∧ next.ordinal < value

theorem Timeline.crosses {store store' : TeamStore p} {command : AuthoritativeTickSliceCommit p}
    {initial current next : SprintState} (h : Timeline store initial current)
    (hcommitted : Committed store command store') (hcrosses : Crosses store store' current next)
    (hclock : cursor store'.state ≤ next.plannedEndAt)
    (hcrossings : crossings store'.groundTruth =
      crossings store.groundTruth ++ [(next.ordinal, next.plannedStartAt)]) :
    Timeline store' initial next := by
  have hnext : nextOrdinal next = next.ordinal + 1 := by
    rw [nextOrdinal, hcrosses.lifecycle]
    exact if_neg (by decide)
  have hle : current.ordinal ≤ next.ordinal ∧ next.ordinal ≤ current.ordinal + 1 := by
    rw [hcrosses.ordinal]
    rcases h.nextOrdinal_cases with ⟨-, heq⟩ | ⟨-, heq⟩
    · omega
    · omega
  -- the ordinals reach from the initial sprint to the next one
  have hordinals : ∀ ordinal, (∃ sprint ∈ store'.scrum.sprints, sprint.ordinal = ordinal) ↔
      initial.ordinal ≤ ordinal ∧ ordinal ≤ next.ordinal := by
    intro ordinal
    constructor
    · rintro ⟨sprint, hsprint, rfl⟩
      rcases hcrosses.others sprint hsprint with rfl | ⟨-, old, hold, hsame⟩
      · have hfirst := ((h.ordinals current.ordinal).mp ⟨current, h.mem, rfl⟩).1
        omega
      · have hrange := (h.ordinals old.ordinal).mp ⟨old, hold, rfl⟩
        rw [hsame.ordinal]
        omega
    · rintro ⟨hge, hle'⟩
      by_cases hlast : ordinal = next.ordinal
      · exact ⟨next, hcrosses.mem, hlast.symm⟩
      · obtain ⟨old, hold, heq⟩ := (h.ordinals ordinal).mpr ⟨hge, by omega⟩
        obtain ⟨sprint, hsprint, hsame⟩ := hcrosses.kept old hold
        exact ⟨sprint, hsprint, hsame.ordinal.trans heq⟩
  refine ⟨hcrosses.mem, by rw [hcrosses.lifecycle]; decide, ?_, ?_, hordinals, ?_, ?_, ?_, ?_, ?_,
    ?_⟩
  · intro sprint hsprint hrunning
    exact (hcrosses.others sprint hsprint).resolve_right fun hcompleted => hrunning hcompleted.1
  · intro sprint hsprint
    rw [hcommitted.team_eq]
    rcases hcrosses.others sprint hsprint with rfl | ⟨-, old, hold, hsame⟩
    · exact hcrosses.teamId
    · rw [hsame.teamId, h.team old hold]
  · intro sprint hsprint
    rw [hcommitted.blueprint_eq]
    rcases hcrosses.others sprint hsprint with rfl | ⟨-, old, hold, hsame⟩
    · exact hcrosses.window
    · exact hsame.cadenceWindow (h.windows old hold)
  · rw [hcommitted.team_eq]
    obtain ⟨value', hvalue', -, hsource⟩ := hcommitted.sprintCounter h.counter
    obtain ⟨value, hvalue, hlt⟩ := hcrosses.counter
    rw [hvalue', Option.some.injEq] at hvalue
    rw [hvalue', Option.some.injEq]
    rcases hsource with heq | ⟨sprint, hsprint, heq⟩
    · omega
    · have hrange := (hordinals sprint.ordinal).mp ⟨sprint, hsprint, rfl⟩
      omega
  · intro boundary hboundary
    simp only [boundaryFor, hcrosses.lifecycle, Option.some.injEq] at hboundary
    exact hboundary ▸ hclock
  · have hstarted := h.started
    rw [hcrossings, List.map_append, h.crossed, hnext, List.map_singleton, hcrosses.ordinal,
      Nat.sub_add_comm hstarted, List.range'_concat]
    simp only [one_mul, List.append_cancel_left_eq, List.cons.injEq, and_true]
    omega
  · have hstarted := h.started
    rw [hnext, hcrosses.ordinal]
    omega
  · rw [hcrossings]
    intro crossing hcrossing
    rcases List.mem_append.mp hcrossing with hold | hnew
    · obtain ⟨old, hold, hordinal, hstart⟩ := h.crossedAt crossing hold
      obtain ⟨sprint, hsprint, hsame⟩ := hcrosses.kept old hold
      exact ⟨sprint, hsprint, hsame.ordinal.trans hordinal, hsame.plannedStartAt.trans hstart⟩
    · rw [List.mem_singleton.mp hnew]
      exact ⟨next, hcrosses.mem, rfl, rfl⟩

section boundary

variable {store store' : TeamStore p} {command : AuthoritativeTickSliceCommit p} {instant : ℤ}
  {initial current : SprintState}

/-- The activation of the planned sprint crosses its start. -/
theorem Timeline.crosses_activation (h : Timeline store initial current)
    (hcommitted : Committed store command store') {sprint : SprintState}
    (hmem : sprint ∈ store.scrum.sprints) (hplanned : sprint.lifecycle = .PLANNED)
    (hsprints : ∀ s, s ∈ store'.scrum.sprints ↔ s = activatedSprint sprint instant ∨
      (s ∈ store.scrum.sprints ∧ s.id ≠ sprint.id)) :
    Crosses store store' current (activatedSprint sprint instant) := by
  have hcurrent : sprint = current := h.unique sprint hmem (by rw [hplanned]; decide)
  have hsame : SameWindow sprint (activatedSprint sprint instant) := ⟨rfl, rfl, rfl, rfl⟩
  refine ⟨(hsprints _).mpr (.inl rfl), rfl, ?_, h.team sprint hmem,
    hsame.cadenceWindow (h.windows sprint hmem), ?_, ?_, ?_⟩
  · rw [← hcurrent, nextOrdinal, if_pos hplanned]
    rfl
  · intro s hs
    rcases (hsprints s).mp hs with hnew | ⟨hold, hid⟩
    · exact .inl hnew
    · refine .inr ⟨?_, s, hold, sameWindow_refl s⟩
      by_contra hrunning
      exact hid (by rw [h.unique s hold hrunning, hcurrent])
  · intro old hold
    by_cases hid : old.id = sprint.id
    · have heq : old = sprint :=
        Collection.sprints.eq_of_key_eq store.scrum.complete.toConsistent hold hmem hid
      exact ⟨_, (hsprints _).mpr (.inl rfl), heq ▸ hsame⟩
    · exact ⟨old, (hsprints old).mpr (.inr ⟨hold, hid⟩), sameWindow_refl old⟩
  · obtain ⟨value', hvalue', hle, -⟩ := hcommitted.sprintCounter h.counter
    refine ⟨value', hvalue', ?_⟩
    rw [hcurrent]
    exact hle

/-- The rollover of the active sprint crosses its end. -/
theorem Timeline.crosses_rollover (h : Timeline store initial current)
    (hcommitted : Committed store command store') {sprint successor : SprintState}
    {counter : SemanticCounter} (hmem : sprint ∈ store.scrum.sprints)
    (hactive : sprint.lifecycle = .ACTIVE)
    (hcounter : counter ∈ store.scrum.semanticCounters ∧
      counter.scope = .sprintOrdinal sprint.teamId)
    (hsuccessor : successor.Valid ∧ successor.lifecycle = .ACTIVE ∧
      successor.teamId = sprint.teamId ∧ successor.ordinal = counter.nextValue ∧
      successor.observedStartAt = some instant ∧
      CadenceWindow p store.aggregate.blueprint successor)
    (hwritten : command.state.sprints = [endedSprint sprint instant, successor]) :
    Crosses store store' current successor := by
  have hc := store.scrum.complete.toConsistent
  obtain ⟨hvalid, hlifecycle, hteam, hordinal, -, hwindow⟩ := hsuccessor
  have hsprints : ∀ s, s ∈ store'.scrum.sprints ↔
      (s = endedSprint sprint instant ∨ s = successor) ∨
        (s ∈ store.scrum.sprints ∧ s.id ∉ [sprint.id, successor.id]) := by
    intro s
    have hrows := hcommitted.mem_rows Collection.sprints (a := s) fun _ _ _ => rfl
    have hwritten' : Collection.sprints.rows command.state.toScrumCollections =
        [endedSprint sprint instant, successor] := hwritten
    rw [hwritten', List.mem_pair] at hrows
    exact hrows
  have hcurrent : sprint = current := h.unique sprint hmem (by rw [hactive]; decide)
  have hsame : SameWindow sprint (endedSprint sprint instant) := ⟨rfl, rfl, rfl, rfl⟩
  have hnext : successor.ordinal = current.ordinal + 1 := by
    have hvalue := counterAt_of_mem hc hcounter.1
    rw [hcounter.2, h.team sprint hmem, h.counter, Option.some.injEq] at hvalue
    rw [hordinal, ← hvalue]
  -- the successor is a new row, since its ordinal is
  have hnew : ∀ old ∈ store.scrum.sprints, old.id ≠ successor.id := by
    intro old hold hid
    rw [(hc.sprint_valid hold).id, hvalid.id, Uuid.sprint.injEq] at hid
    have hrange := (h.ordinals old.ordinal).mp ⟨old, hold, rfl⟩
    omega
  refine ⟨(hsprints _).mpr (.inl (.inr rfl)), hlifecycle, ?_, hteam.trans (h.team sprint hmem),
    hwindow, ?_, ?_, ?_⟩
  · rw [hnext, nextOrdinal, ← hcurrent, hactive]
    exact (if_neg (by decide)).symm
  · intro s hs
    rcases (hsprints s).mp hs with (rfl | rfl) | ⟨hold, hid⟩
    · exact .inr ⟨rfl, sprint, hmem, hsame⟩
    · exact .inl rfl
    · refine .inr ⟨?_, s, hold, sameWindow_refl s⟩
      by_contra hrunning
      rw [h.unique s hold hrunning, ← hcurrent] at hid
      exact hid List.mem_cons_self
  · intro old hold
    by_cases hid : old.id = sprint.id
    · have heq : old = sprint := Collection.sprints.eq_of_key_eq hc hold hmem hid
      exact ⟨_, (hsprints _).mpr (.inl (.inl rfl)), heq ▸ hsame⟩
    · refine ⟨old, (hsprints old).mpr (.inr ⟨hold, fun hpair => ?_⟩), sameWindow_refl old⟩
      rcases List.mem_pair.mp hpair with hsprint | hsucc
      · exact hid hsprint
      · exact hnew old hold hsucc
  · have hid : successor.id ∉ store.scrum.sprints.map (·.id) := by
      rintro hmap
      obtain ⟨old, hold, heq⟩ := List.mem_map.mp hmap
      exact hnew old hold heq
    have hwritten' : successor ∈ command.state.sprints := by
      rw [hwritten]
      simp
    have hlt := hcommitted.lt_sprintCounter hwritten' hid
    rwa [hteam, h.team sprint hmem] at hlt

theorem Timeline.boundary {transition : SprintTransition p} (h : Timeline store initial current)
    (hcommitted : Committed store command store')
    (hstep : BoundaryStep store.state instant transition)
    (htime : command.liveSlice.runtimeAfter.simulationTime = cursor store.state)
    (hstate : command.state = transition.state)
    (hgroundTruth : command.liveSlice.groundTruth = transition.groundTruth) :
    ∃ next, Timeline store' initial next := by
  have hc' := store'.scrum.complete.toConsistent
  have hcursor' : cursor store'.state = cursor store.state :=
    hcommitted.runtime_eq.2.2.2.2.trans htime
  have hledger := hcommitted.groundTruth
  rw [hgroundTruth] at hledger
  cases hstep with
  | quiet hquiet =>
    subst hquiet
    refine ⟨current, h.keep hcommitted
      (fun _ => hcommitted.mem_of_empty Collection.sprints (fun _ _ _ => rfl) (by rw [hstate]; rfl))
      (by rw [hcursor']; exact h.clock) (crossings_appendDrafts hledger (by rintro _ ⟨⟩))⟩
  | activates sprint draws selected context hmem hplanned hstart _ _ _ _ _ hsprints _ hcontext
      htransition =>
    subst htransition
    obtain ⟨hcontextState, -, hcurrentSprint, hboundary⟩ := hcontext
    have hrows : ∀ s, s ∈ store'.scrum.sprints ↔ s = activatedSprint sprint instant ∨
        (s ∈ store.scrum.sprints ∧ s.id ≠ sprint.id) := by
      intro s
      have hmem := hcommitted.mem_rows Collection.sprints (a := s) fun _ _ _ => rfl
      have hwritten : Collection.sprints.rows command.state.toScrumCollections =
          [activatedSprint sprint instant] := by
        rw [hstate]
        exact hsprints
      rw [hwritten, List.mem_singleton] at hmem
      simpa [activatedSprint] using hmem
    have hcrosses := h.crosses_activation hcommitted hmem hplanned hrows
    -- the sprint that starts is the current one, at or after the cursor
    have hcurrent : sprint = current := h.unique sprint hmem (by rw [hplanned]; decide)
    have hclock := h.clock instant (by simp [boundaryFor, ← hcurrent, hplanned, hstart])
    have hinterval := (hc'.sprint_valid hcrosses.mem).interval
    have hstart' : (activatedSprint sprint instant).plannedStartAt = instant := hstart
    refine ⟨_, h.crosses hcommitted hcrosses (by omega) ?_⟩
    refine crossings_append_of_new hledger ?_ (hcrosses.ordinal ▸ h.not_crossed _)
    simp only [crossingOf, TransitionContext.groundTruth, boundaryKey, hcurrentSprint, hboundary,
      hstart']
  | rolls sprint successor draws carryIds backlogIds context counter hmem hactive hend _ _ _ _ _ _
      hcounter hsuccessor _ hsprints _ hcontext htransition =>
    subst htransition
    obtain ⟨hcontextState, -, hcurrentSprint, hboundary⟩ := hcontext
    have hwritten : command.state.sprints = [endedSprint sprint instant, successor] := by
      rw [hstate]
      exact hsprints
    have hcrosses := h.crosses_rollover hcommitted hmem hactive hcounter hsuccessor hwritten
    have hcurrent : sprint = current := h.unique sprint hmem (by rw [hactive]; decide)
    have hclock := h.clock instant (by simp [boundaryFor, ← hcurrent, hactive, hend])
    have hinterval := (hc'.sprint_valid hcrosses.mem).interval
    -- the successor starts where the sprint that ends does
    have hordinal : successor.ordinal = sprint.ordinal + 1 := by
      rw [hcrosses.ordinal, ← hcurrent, nextOrdinal, hactive]
      exact if_neg (by decide)
    have hstart' : successor.plannedStartAt = instant :=
      ((h.windows sprint hmem).tile hcrosses.window hordinal).trans hend
    refine ⟨_, h.crosses hcommitted hcrosses (by omega) ?_⟩
    refine crossings_append_of_new hledger ?_ (hcrosses.ordinal ▸ h.not_crossed _)
    simp only [crossingOf, TransitionContext.groundTruth, boundaryKey, hcurrentSprint, hboundary,
      hstart']

end boundary

/-! ### Runs -/

theorem Timeline.of_reachableBy {start : TeamStart} {store : TeamStore p}
    (h : (teamRuns p).ReachableBy (fun other => other = start) (fun _ _ => True) store) :
    ∃ initial current, initialSprint p start.aggregate start.startedAt = .ok initial ∧
      Timeline store initial current := by
  refine run_induction (I := fun store => ∃ initial current,
    initialSprint p start.aggregate start.startedAt = .ok initial ∧
      Timeline store initial current) h ?_ ?_ ?_
  · rintro start' draws context picked initial store rfl hboot
    exact ⟨_, _, hboot.initialRows.sprint_eq, hboot.timeline⟩
  · rintro store store' - ⟨initial, current, hinitial, htimeline⟩ hprovision
    rw [hprovision.same]
    exact ⟨initial, current, hinitial, ⟨htimeline.mem, htimeline.running, htimeline.unique,
      htimeline.team, htimeline.ordinals, htimeline.windows, htimeline.counter, htimeline.clock,
      htimeline.crossed, htimeline.started, htimeline.crossedAt⟩⟩
  · rintro store event command store' - ⟨initial, current, hinitial, htimeline⟩ - - hof hcommitted
    cases hof with
    | tick request draws advance _ hquiet hadvance hslice htime hassembled =>
      exact ⟨initial, current, hinitial,
        htimeline.tick hcommitted hquiet hadvance hslice htime hassembled⟩
    | boundary instant transition _ hstep htime hstate _ _ _ hgroundTruth _ =>
      obtain ⟨next, hnext⟩ := htimeline.boundary hcommitted hstep htime hstate hgroundTruth
      exact ⟨initial, next, hinitial, hnext⟩
    | downtime hstate _ _ hgroundTruth htime =>
      exact ⟨initial, current, hinitial,
        htimeline.downtime hcommitted hstate hgroundTruth htime⟩

theorem Timeline.ordinal_injective {store : TeamStore p} {initial current : SprintState}
    (h : Timeline store initial current) {a b : SprintState} (ha : a ∈ store.scrum.sprints)
    (hb : b ∈ store.scrum.sprints) (hordinal : a.ordinal = b.ordinal) : a = b := by
  have hc := store.scrum.complete.toConsistent
  refine Collection.sprints.eq_of_key_eq hc ha hb ?_
  show a.id = b.id
  rw [(hc.sprint_valid ha).id, (hc.sprint_valid hb).id, h.team a ha, h.team b hb, hordinal]

/-- The end of every sprint but the current one was crossed. -/
theorem Timeline.crossed_of_ne {store : TeamStore p} {initial current : SprintState}
    (h : Timeline store initial current) (hplanned : PlannedFirst store.scrum.toScrumCollections)
    {sprint : SprintState} (hsprint : sprint ∈ store.scrum.sprints) (hne : sprint ≠ current) :
    (sprint.ordinal + 1, sprint.plannedEndAt) ∈ crossings store.groundTruth := by
  obtain ⟨hfirst, hlast⟩ := (h.ordinals sprint.ordinal).mp ⟨sprint, hsprint, rfl⟩
  have hlt : sprint.ordinal < current.ordinal :=
    lt_of_le_of_ne hlast fun heq => hne (h.ordinal_injective hsprint h.mem heq)
  have hnext : nextOrdinal current = current.ordinal + 1 := by
    rcases h.nextOrdinal_cases with ⟨hlifecycle, -⟩ | ⟨-, heq⟩
    · exact absurd ((hplanned current h.mem hlifecycle).1 sprint hsprint) hne
    · exact heq
  have hbegun : nextOrdinal initial ≤ initial.ordinal + 1 := by
    unfold nextOrdinal
    split_ifs <;> omega
  have hmem : sprint.ordinal + 1 ∈ (crossings store.groundTruth).map Prod.fst := by
    rw [h.crossed, List.mem_range'_1]
    omega
  obtain ⟨crossing, hcrossing, hordinal⟩ := List.mem_map.mp hmem
  obtain ⟨next, hnextMem, hnextOrdinal, hstart⟩ := h.crossedAt crossing hcrossing
  have htile := (h.windows sprint hsprint).tile (h.windows next hnextMem)
    (hnextOrdinal.trans hordinal)
  have heq : crossing = (sprint.ordinal + 1, sprint.plannedEndAt) :=
    Prod.ext hordinal (hstart.symm.trans htile)
  exact heq ▸ hcrossing

/-- The end of a sprint that the cursor has passed was crossed. -/
theorem Timeline.crossed_of_passed {store : TeamStore p} {initial current : SprintState}
    (h : Timeline store initial current) (hplanned : PlannedFirst store.scrum.toScrumCollections)
    {sprint : SprintState} (hsprint : sprint ∈ store.scrum.sprints)
    (hpassed : sprint.plannedEndAt < cursor store.state) :
    (sprint.ordinal + 1, sprint.plannedEndAt) ∈ crossings store.groundTruth := by
  have hinterval := (store.scrum.complete.toConsistent.sprint_valid h.mem).interval
  refine h.crossed_of_ne hplanned hsprint ?_
  -- the current sprint ends at the cursor or later, so the sprint is an earlier one
  rintro rfl
  rcases h.nextOrdinal_cases with ⟨hlifecycle, -⟩ | ⟨hlifecycle, -⟩
  · have hclock := h.clock sprint.plannedStartAt (by simp [boundaryFor, hlifecycle])
    omega
  · have hclock := h.clock sprint.plannedEndAt (by simp [boundaryFor, hlifecycle])
    omega

/-- In every state of every run one sprint is not completed, the sprints from the initial one on
follow each other through the windows of the cadence, their counter is past the last one, and the
cursor has not passed the next boundary.  The crossings are recorded once each, in order, and none
of a boundary that the cursor has passed is missing. -/
theorem sprint_timeline {start : TeamStart} {store : TeamStore p}
    (h : (teamRuns p).ReachableBy (fun other => other = start) (fun _ _ => True) store) :
    ∃ initial current, initialSprint p start.aggregate start.startedAt = .ok initial ∧
      Timeline store initial current ∧
      (∀ a ∈ store.scrum.sprints, ∀ b ∈ store.scrum.sprints, a.ordinal = b.ordinal → a = b) ∧
      (∀ a ∈ store.scrum.sprints, ∀ b ∈ store.scrum.sprints, b.ordinal = a.ordinal + 1 →
        b.plannedStartAt = a.plannedEndAt) ∧
      ∀ sprint ∈ store.scrum.sprints, sprint.plannedEndAt < cursor store.state →
        (sprint.ordinal + 1, sprint.plannedEndAt) ∈ crossings store.groundTruth := by
  obtain ⟨initial, current, hinitial, htimeline⟩ := Timeline.of_reachableBy h
  refine ⟨initial, current, hinitial, htimeline, ?_, ?_, ?_⟩
  · exact fun a ha b hb hordinal => htimeline.ordinal_injective ha hb hordinal
  · exact fun a ha b hb hordinal =>
      (htimeline.windows a ha).tile (htimeline.windows b hb) hordinal
  · exact fun sprint hsprint hpassed =>
      htimeline.crossed_of_passed (.of_reachable h.reachable) hsprint hpassed

/-- The timeline after two sprints of the small team, the first of which starts during a downtime.
-/
theorem sprint_timeline_smallTeam :
    ∃ store, runTeam utcPlatform (startAfter rejectingBlueprint (-1)) [
        .downtimeEvidence (firstMonday + 400 * microsecondsPerHour),
        .lifecycleBoundary (firstMonday + 400 * microsecondsPerHour),
        .lifecycleBoundary (firstMonday + 400 * microsecondsPerHour),
        .skipDowntime (firstMonday + 400 * microsecondsPerHour)] = .ok store ∧
      crossings store.groundTruth =
        [(0, firstMonday), (1, firstMonday + 14 * microsecondsPerDay)] ∧
      ∃ initial current, Timeline store initial current ∧
        ∀ sprint ∈ store.scrum.sprints, sprint.plannedEndAt < cursor store.state →
          (sprint.ordinal + 1, sprint.plannedEndAt) ∈ crossings store.groundTruth := by
  obtain ⟨_, h⟩ := exists_of_succeeds (do
    let store ← runTeam utcPlatform (startAfter rejectingBlueprint (-1)) [
      .downtimeEvidence (firstMonday + 400 * microsecondsPerHour),
      .lifecycleBoundary (firstMonday + 400 * microsecondsPerHour),
      .lifecycleBoundary (firstMonday + 400 * microsecondsPerHour),
      .skipDowntime (firstMonday + 400 * microsecondsPerHour)]
    require (crossings store.groundTruth =
      [(0, firstMonday), (1, firstMonday + 14 * microsecondsPerDay)]) "other crossings")
    (by decide +kernel)
  simp only [bind_eq_ok, require_eq_ok] at h
  obtain ⟨store, hrun, hcrossings⟩ := h
  have hrun' := hrun
  simp only [runTeam, bind_eq_ok] at hrun'
  obtain ⟨first, hfirst, hevents⟩ := hrun'
  obtain ⟨initial, current, -, htimeline, -, -, hpassed⟩ := sprint_timeline
    (reachableBy_of_foldlM hevents (scriptMeets_true first _) (.start hfirst rfl))
  exact ⟨store, hrun, hcrossings, initial, current, htimeline, hpassed⟩

end JiraSimulator
