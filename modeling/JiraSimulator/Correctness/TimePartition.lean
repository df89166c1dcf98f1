import JiraSimulator.Correctness.Scripts
import JiraSimulator.Correctness.SegmentClocks
import JiraSimulator.Correctness.VisitRows

/-!
# The division of time between labor and queue

Over a tick an open visit divides its business time between labor and queue, as long as work remains
and its status does not pause the service clock.  A visit that an external dependency pauses is left
out of the progress of the whole tick: its queue grows by the pause, which is measured on the wall
clock and may be shorter or longer than the business time.

* `applyRules_paused`: what a risk evaluation does to the row of an open visit.
* `time_partition`: the division is exact unless a pause differs from the business time of its tick.
* `pause_loses_time`: a pause of one hour in a tick of three.
-/

namespace JiraSimulator

open Library Library.Outcome ScrumCollections

variable {p : Platform}

/-! ### The visits that a rule writes -/

/-- A row of a visit that the handler of a rule writes. -/
inductive RuleWrites (context : RiskContext p) (row : StatusVisitState) : Prop
  | returned (work : WorkItemState) (decision : ReviewDecision) (sample : StatusVisitSample)
      (h : Returns context work decision row sample)
  | closed (h : row.lifecycle = .CLOSED)
  | paused (hkey : context.rule.key = "EXTERNAL_DEPENDENCY") (old : StatusVisitState)
      (hmem : old ∈ context.state.scrum.statusVisits) (delta : ℤ)
      (hpause : DependencyPause context old delta) (h : row = pausedBy old delta)

theorem handler_visits {context : RiskContext p} {out : RiskRecords p}
    {handler : RiskContext p → Result (RiskRecords p)}
    (hhandler : handlerFor context.rule.key = some handler) (hout : handler context = .ok out)
    {row : StatusVisitState} (hrow : row ∈ out.state.statusVisits) : RuleWrites context row := by
  -- one case for each kind of rule, two of which write no visit
  have hdefault : out = {} → RuleWrites context row := by
    rintro rfl
    exact absurd hrow List.not_mem_nil
  obtain ⟨-, rfl⟩ | ⟨-, rfl⟩ | ⟨-, rfl⟩ | ⟨hkey, rfl⟩ | ⟨-, rfl⟩ := handlerFor_eq_some hhandler
  · unfold longStay at hout
    split_ifs at hout
    · exact hdefault (Except.ok.inj hout).symm
    · obtain ⟨visit, -, r, hr, hmem⟩ :=
        collectRecords_exists_of_mem hout Collection.statusVisits hrow
      rw [(longStayRecord_silent hr).state] at hmem
      cases hmem
  · rcases reviewRejection_eq_ok hout with hempty | ⟨-, hcollect⟩
    · exact hdefault hempty
    · obtain ⟨work, decision, sample, hreturns⟩ := (mem_reviewRows_statusVisits hcollect).mp hrow
      exact .returned work decision sample hreturns
  · rcases cancellation_eq_ok hout with hempty | ⟨boundary, hboundary, htrigger, hcollect⟩
    · exact hdefault hempty
    · obtain ⟨work, decision, -, rfl⟩ :=
        (mem_cancellationRows_statusVisits htrigger hboundary hcollect).mp hrow
      exact .closed rfl
  · rcases externalDependency_eq_ok hout with hempty | hcollect
    · exact hdefault hempty
    · obtain ⟨visit, hvisit, r, hr, hmem⟩ :=
        collectRecords_exists_of_mem hcollect Collection.statusVisits hrow
      obtain ⟨-, -, -, hrows | ⟨delta, hpause, hrows⟩⟩ := dependencyRecords_eq_ok hr
      · rw [hrows] at hmem
        cases hmem
      · rw [hrows] at hmem
        exact .paused hkey visit (mem_openVisits.mp hvisit).1 delta hpause
          (List.mem_singleton.mp hmem)
  · rcases memberUnavailability_eq_ok hout with hempty | ⟨boundary, -, -, hcollect⟩
    · exact hdefault hempty
    · obtain ⟨owner, -, r, hr, hmem⟩ :=
        collectRecords_exists_of_mem hcollect Collection.statusVisits hrow
      obtain ⟨overlays, claim, eligible, hrows, -⟩ := unavailabilityRecords_eq_ok hr
      rw [hrows] at hmem
      cases hmem

/-! ### The row of an open visit -/

/-- The pause that the external dependency rule leaves for a visit, cut at the end of a tick. -/
def dependencyPause (state : LiveTeamState p) (endsAt : ℤ) (visit : StatusVisitState) :
    Result ℤ := do
  let rule ← next (fun rule => rule.key = "EXTERNAL_DEPENDENCY")
    state.aggregate.blueprint.risks.rules
  let waitHours ← number rule "wait_hours" none
  return min (max 0 (hoursToRoundedMicroseconds waitHours - visit.pauseMicroseconds))
    (roundedMicroseconds (endsAt - cursor state))

theorem roundedMicroseconds_nonneg {duration : ℤ} (h : 0 ≤ duration) :
    0 ≤ roundedMicroseconds duration := by
  have hduration : (0 : ℚ) ≤ duration := by exact_mod_cast h
  have hseconds : 0 ≤ toDouble ((duration : ℚ) / 1000000) :=
    Rounding.roundToPrecision_nonneg (by positivity)
  have hmillion : 0 ≤ floatOfInt 1000000 := Rounding.roundToPrecision_nonneg (by norm_num)
  exact Rounding.roundHalfEven_nonneg
    (Rounding.roundToPrecision_nonneg (mul_nonneg hseconds hmillion))

/-- The only rule with a key is what the lookup finds. -/
theorem next_rule_eq_ok (blueprint : ResolvedTeamBlueprint) {rule : RiskRule}
    (hrule : rule ∈ blueprint.risks.rules) :
    next (fun other => other.key = rule.key) blueprint.risks.rules = .ok rule := by
  rw [next_eq_ok]
  cases hfind : blueprint.risks.rules.find? (fun other => other.key = rule.key) with
  | none => simpa using List.find?_eq_none.mp hfind rule hrule
  | some found =>
    have hmem := List.mem_of_find?_eq_some hfind
    have hkey : found.key = rule.key := by simpa using List.find?_some hfind
    rw [List.inj_on_of_nodup_map blueprint.ruleKeys_nodup hmem hrule hkey]

theorem DependencyPause.nonneg {context : RiskContext p} {visit : StatusVisitState} {delta : ℤ}
    (h : DependencyPause context visit delta) : 0 ≤ delta := by
  obtain ⟨waitHours, -, rfl⟩ := h.wait
  have hbegun := h.begun
  exact le_min (le_max_left _ _) (roundedMicroseconds_nonneg (by omega))

section evaluation

variable {state : LiveTeamState p} (hcounted : OrdinalsCounted state.scrum.toScrumCollections)
  {visit : StatusVisitState} (hvisit : visit ∈ state.scrum.statusVisits) {asOf : ℤ}
  {draws : DrawSource}
include hcounted hvisit

/-- One rule keeps an open row of the visit, or pauses it. -/
theorem applyRule_paused {progress progress' : RiskProgress p} {rule : RiskRule}
    (h : applyRule asOf draws progress rule = .ok progress')
    (hcounters : progress.working.scrum.semanticCounters = state.scrum.semanticCounters)
    {row : StatusVisitState} (hrow : row ∈ progress'.working.scrum.statusVisits)
    (hid : row.id = visit.id) (hopen : row.lifecycle = .OPEN) :
    row ∈ progress.working.scrum.statusVisits ∨
      (rule.key = "EXTERNAL_DEPENDENCY" ∧ ∃ old ∈ progress.working.scrum.statusVisits, ∃ delta,
        DependencyPause { state := progress.working, asOf, draws, rule } old delta ∧
          row = pausedBy old delta) := by
  rcases applyRule_eq_ok h with rfl | ⟨handler, outcome, hhandler, hout, -, hworking⟩
  · exact .inl hrow
  rw [(LiveTeamState.withWriteSet_eq_ok.mp hworking).2] at hrow
  rcases (Collection.statusVisits.mem_updateWith progress.working.scrum.complete.toConsistent
    outcome.state.consistent).mp hrow with hwritten | ⟨hstays, -⟩
  · cases handler_visits hhandler hout hwritten with
    | returned work decision sample hreturns =>
      -- a returned item enters a visit that did not exist
      obtain ⟨review, step, counter, hreturn⟩ := hreturns
      obtain ⟨hcounter, hscope⟩ := visitCounter_eq_ok hreturn.counter_eq
      have hnew := hcounted.not_mem_of_counter state.scrum.complete.toConsistent
        (hcounters ▸ hcounter) hscope
      have hitem : row.id = .visit work.id counter.nextValue := hreturn.enters.id_eq
      exact absurd (List.mem_map.mpr ⟨visit, hvisit, hid.symm.trans hitem⟩) hnew
    | closed hclosed =>
      rw [hclosed] at hopen
      cases hopen
    | paused hkey old hmem delta hpause heq => exact .inr ⟨hkey, old, hmem, delta, hpause, heq⟩
  · exact .inl hstays

/-- The rules keep an open row of the visit, or one of them pauses it. -/
theorem applyRules_paused {progress progress' : RiskProgress p} {rules : List RiskRule}
    (h : applyRules asOf draws progress rules = .ok progress')
    (hnodup : (rules.map (·.key)).Nodup)
    (haggregate : progress.working.aggregate = state.aggregate)
    (hcounters : progress.working.scrum.semanticCounters = state.scrum.semanticCounters)
    {row : StatusVisitState} (hrow : row ∈ progress'.working.scrum.statusVisits)
    (hid : row.id = visit.id) (hopen : row.lifecycle = .OPEN) :
    row ∈ progress.working.scrum.statusVisits ∨
      ∃ rule ∈ rules, rule.key = "EXTERNAL_DEPENDENCY" ∧
        ∃ working : LiveTeamState p, working.aggregate = state.aggregate ∧
          ∃ old ∈ progress.working.scrum.statusVisits, ∃ delta,
            DependencyPause { state := working, asOf, draws, rule } old delta ∧
              row = pausedBy old delta := by
  induction rules generalizing progress with
  | nil =>
    rw [applyRules, List.foldlM_nil, pure_eq_ok] at h
    exact .inl (h ▸ hrow)
  | cons rule rules ih =>
    rw [List.map_cons, List.nodup_cons] at hnodup
    simp only [applyRules, List.foldlM_cons, bind_eq_ok] at h
    obtain ⟨next, hnext, hrest⟩ := h
    obtain ⟨hagg, hframe, -⟩ := applyRule_riskStep hnext
    rcases ih hrest hnodup.2 (hagg.trans haggregate) (hframe.semanticCounters.trans hcounters) with
      hmem | ⟨later, hlater, hkey, working, hworking, old, hold, delta, hpause, heq⟩
    · rcases applyRule_paused hcounted hvisit hnext hcounters hmem hid hopen with
        hmem | ⟨hkey, old, hold, delta, hpause, heq⟩
      · exact .inl hmem
      · exact .inr ⟨rule, List.mem_cons_self, hkey, _, haggregate, old, hold, delta, hpause, heq⟩
    · -- keys are unique, so this rule does not pause
      have hother : rule.key ≠ "EXTERNAL_DEPENDENCY" := fun hsame =>
        hnodup.1 (List.mem_map.mpr ⟨later, hlater, hkey.trans hsame.symm⟩)
      have hsame : old.id = visit.id ∧ old.lifecycle = .OPEN := by
        rw [heq] at hid hopen
        exact ⟨hid, hopen⟩
      rcases applyRule_paused hcounted hvisit hnext hcounters hold hsame.1 hsame.2 with
        hmem | ⟨hpauses, -⟩
      · exact .inr ⟨later, List.mem_cons_of_mem _ hlater, hkey, working, hworking, old, hmem, delta,
          hpause, heq⟩
      · exact absurd hpauses hother

/-- A risk evaluation keeps the row of an open visit, or pauses it for what its rule leaves. -/
theorem evaluateDueRisks_paused {risks : RiskRecords p} {working : LiveTeamState p}
    (hrisks : evaluateDueRisks state asOf draws = .ok risks)
    (hworking : state.withWriteSet risks.state = .ok working) {row : StatusVisitState}
    (hrow : row ∈ working.scrum.statusVisits) (hid : row.id = visit.id)
    (hopen : row.lifecycle = .OPEN) :
    row = visit ∨ ∃ delta, 0 < delta ∧ dependencyPause state asOf visit = .ok delta ∧
      row = pausedBy visit delta := by
  have hnodup := state.aggregate.blueprint.ruleKeys_nodup
  have hsame : ∀ old ∈ state.scrum.statusVisits, old.id = visit.id → old = visit :=
    fun old hold heq => Collection.statusVisits.eq_of_key_eq state.scrum.complete.toConsistent hold
      hvisit heq
  rcases applyRules_paused hcounted hvisit (evaluateDueRisks_working hrisks hworking) hnodup rfl rfl
    hrow hid hopen with
    hmem | ⟨rule, hrule, hkey, working', haggregate, old, hold, delta, hpause, heq⟩
  · exact .inl (hsame row hmem hid)
  · obtain rfl := hsame old hold (by rw [heq] at hid; exact hid)
    have hcursor : cursor working' = cursor state := by rw [cursor, cursor, haggregate]
    obtain ⟨waitHours, hwait, hdelta⟩ := hpause.wait
    have hcut : delta = min (max 0 (hoursToRoundedMicroseconds waitHours - old.pauseMicroseconds))
        (roundedMicroseconds (asOf - cursor state)) := hcursor ▸ hdelta
    have hnonneg := hpause.nonneg
    have hne : delta ≠ 0 := hpause.ne_zero
    refine .inr ⟨delta, by omega, ?_, heq⟩
    have hnext := next_rule_eq_ok state.aggregate.blueprint hrule
    rw [hkey] at hnext
    have hnumber : number rule "wait_hours" none = .ok waitHours := hwait
    rw [dependencyPause, hnext, ok_bind, hnumber, ok_bind, hcut]
    rfl

end evaluation

/-- The blocked visits are those whose rows the risks have paused. -/
theorem mem_riskBlockedVisits {state working : LiveTeamState p} {risks : RiskRecords p}
    (hworking : state.withWriteSet risks.state = .ok working) {visit row : StatusVisitState}
    (hvisit : visit ∈ state.scrum.statusVisits) (hrow : row ∈ working.scrum.statusVisits)
    (hid : row.id = visit.id) :
    visit.id ∈ riskBlockedVisits state risks ↔ visit.pauseMicroseconds < row.pauseMicroseconds := by
  have hstate := state.scrum.complete.toConsistent
  have hmem : ∀ v, v ∈ (state.scrum.updateWith risks.state.toScrumCollections).statusVisits ↔ _ :=
    fun _ => Collection.statusVisits.mem_updateWith hstate risks.state.consistent
  have hscrum := (LiveTeamState.withWriteSet_eq_ok.mp hworking).2
  simp only [riskBlockedVisits, List.mem_map, List.mem_filter, List.any_eq_true, Bool.and_eq_true,
    decide_eq_true_eq]
  constructor
  · rintro ⟨written, ⟨hwritten, original, horiginal, hsame, hlt⟩, hwid⟩
    obtain rfl : original = visit :=
      Collection.statusVisits.eq_of_key_eq hstate horiginal hvisit (hsame.trans hwid)
    have hworkingRow : written ∈ working.scrum.statusVisits := by
      rw [hscrum]
      exact (hmem written).mpr (.inl hwritten)
    obtain rfl : written = row := Collection.statusVisits.eq_of_key_eq
      working.scrum.complete.toConsistent hworkingRow hrow (hwid.trans hid.symm)
    exact hlt
  · intro hlt
    have hsplit := hrow
    rw [hscrum] at hsplit
    rcases (hmem row).mp hsplit with hwritten | ⟨hstays, -⟩
    · exact ⟨row, ⟨hwritten, visit, hvisit, hid.symm, hlt⟩, hid⟩
    · obtain rfl : row = visit :=
        Collection.statusVisits.eq_of_key_eq hstate hstays hvisit hid
      exact absurd hlt (lt_irrefl _)

/-! ### The end of a tick -/

/-- A visit from before the tick that still has work after it is written as the segments leave it.
-/
theorem TickRun.row_of_remaining {state : LiveTeamState p} {draws : DrawSource}
    {advance : RiskAdvance p} {outcome : SegmentsOutcome}
    {finish : StatusVisitState → FinishedVisit} {c' : ScrumCollections}
    (h : TickRun state draws advance outcome finish) (hafter : AfterTick advance c')
    (hcounted : OrdinalsCounted state.scrum.toScrumCollections) {visit row : StatusVisitState}
    (hvisit : visit ∈ state.scrum.statusVisits) (hrow : row ∈ c'.statusVisits)
    (hid : row.id = visit.id) (hremains : row.remainingWorkMicroseconds ≠ 0) :
    row ∈ outcome.visits := by
  cases h.tickRow hafter hcounted hrow with
  | closed hmem hclosed =>
    have hvalid := advance.state.scrum.complete.visit_valid hmem
    exact absurd (hvalid.closedWork hclosed) hremains
  | progresses x hx hrow =>
    rcases hrow with rfl | ⟨rfl, hzero⟩
    · exact hx
    · exact absurd hzero hremains
  | enters hnew => exact absurd (List.mem_map.mpr ⟨visit, hvisit, hid.symm⟩) hnew

/-! ### Committed ticks -/

/-- The business time between two instants, on the calendar of the team. -/
def businessTime (state : LiveTeamState p) (start finish : ℤ) : Result ℤ := do
  let calendar ← state.calendar
  calendar.businessElapsed start finish

/-- The labor credited and the queue between two rows of a visit are the business time between the
cursors of two states. -/
def TimeDivided (before after : LiveTeamState p) (visit row : StatusVisitState) : Prop :=
  ∃ business, businessTime before (cursor before) (cursor after) = .ok business ∧
    (row.creditedLaborMicroseconds - visit.creditedLaborMicroseconds) +
      (row.queueMicroseconds - visit.queueMicroseconds) = business

/-- The tick pauses the visit, for a time that is not the business time of the tick. -/
def PausedOtherwise (state : LiveTeamState p) (request : TickRequest) (draws : DrawSource)
    (visit : StatusVisitState) : Prop :=
  ∃ transition advance, crossSprintBoundary state (cursor state) = .ok transition ∧
    transition.activity = [] ∧ tickAdvance state request draws = .ok advance ∧
    visit.id ∈ riskBlockedVisits state advance.risks ∧
    dependencyPause state advance.result.endsAt visit ≠
      businessTime state (cursor state) advance.result.endsAt

theorem calendar_of_reachable {store : TeamStore p} (h : (teamRuns p).Reachable store) :
    ∃ calendar, store.state.calendar = .ok calendar := by
  refine rows_induction (I := fun aggregate _ => ∃ calendar, BusinessCalendar.fromBlueprint p
    aggregate.blueprint.team.timezone aggregate.blueprint.calendar = .ok calendar) h ?_ ?_
  · intro start draws context picked initial store hboot
    have hsprint := hboot.initialRows.sprint_eq
    simp only [initialSprint, bind_eq_ok] at hsprint
    obtain ⟨calendar, hcalendar, -⟩ := hsprint
    rw [hboot.aggregate]
    exact ⟨calendar, hcalendar⟩
  · intro store event command store' _ hcalendar _ _ hcommitted
    rw [hcommitted.blueprint_eq]
    exact hcalendar

/-- No business time passes at one instant. -/
theorem businessTime_self (hzones : p.OrderlyZones) {store : TeamStore p}
    (h : (teamRuns p).Reachable store) (instant : ℤ) :
    businessTime store.state instant instant = .ok 0 := by
  obtain ⟨calendar, hcalendar⟩ := calendar_of_reachable h
  have hnone : businessSegments store.state calendar instant instant = .ok [] := if_pos rfl
  have htime := (businessSegments_total (calendar_orderly hzones hcalendar) le_rfl hnone).2
  rw [businessTime, hcalendar, ok_bind]
  exact htime

theorem consumptionMap_nonneg (state : LiveTeamState p) (key : Uuid × ℤ) :
    0 ≤ (consumptionMap state).get key := by
  rw [Consumption.get]
  cases hlookup : Keyed.lookup Prod.fst (consumptionMap state) key with
  | none => exact le_rfl
  | some entry =>
    obtain ⟨hmem, -⟩ := Keyed.mem_of_lookup _ hlookup
    obtain ⟨row, hrow, rfl⟩ := List.mem_map.mp hmem
    have hvalid := state.scrum.complete.toConsistent.rowsValid.memberBusinessDateConsumption row hrow
    exact (require_eq_ok.mp hvalid).1

/-- The business time of a tick is what its segments have played. -/
theorem TickRun.businessTime_eq (hzones : p.OrderlyZones) {state : LiveTeamState p}
    {draws : DrawSource} {advance : RiskAdvance p} {outcome : SegmentsOutcome}
    {finish : StatusVisitState → FinishedVisit}
    (h : TickRun state draws advance outcome finish) :
    businessTime state (cursor state) advance.result.endsAt = .ok (playedTime outcome.played) := by
  obtain ⟨calendar, segments, hcalls⟩ := h.calls
  obtain ⟨hchain, htime⟩ := businessSegments_total (calendar_orderly hzones hcalls.calendar_eq)
    h.cursor_le hcalls.segments_eq
  rw [runSegments_total hcalls.outcome_eq hchain hcalls.committedEnd, businessTime,
    hcalls.calendar_eq, ok_bind]
  exact htime

/-- In a tick that crosses no boundary a visit divides the business time unless it is paused
otherwise. -/
theorem TickRun.time_divided (hzones : p.OrderlyZones) {state after : LiveTeamState p}
    {request : TickRequest} {draws : DrawSource} {advance : RiskAdvance p}
    {outcome : SegmentsOutcome} {finish : StatusVisitState → FinishedVisit}
    (h : TickRun state draws advance outcome finish)
    (hafter : AfterTick advance after.scrum.toScrumCollections)
    (hcursor : cursor after = advance.result.endsAt)
    (hquiet : ∃ transition, crossSprintBoundary state (cursor state) = .ok transition ∧
      transition.activity = [])
    (hadvance : tickAdvance state request draws = .ok advance)
    (hcounted : OrdinalsCounted state.scrum.toScrumCollections) {visit row : StatusVisitState}
    (hvisit : visit ∈ state.scrum.statusVisits)
    (hclock : intrinsicallyPaused state visit = .ok false) (hrow : row ∈ after.scrum.statusVisits)
    (hid : row.id = visit.id) (hremains : row.remainingWorkMicroseconds ≠ 0) :
    TimeDivided state after visit row ↔ ¬ PausedOtherwise state request draws visit := by
  have htime := h.businessTime_eq hzones
  have hmem := h.row_of_remaining hafter hcounted hvisit hrow hid hremains
  have hclocked := h.plays.clocked
    (fun visit hv => (advance.state.scrum.complete.visit_valid (mem_openVisits.mp hv).1).remaining.1)
    (fun entry he => (h.within entry he).ordered) (consumptionMap_nonneg advance.state) row hmem
  have haggregate := (LiveTeamState.withWriteSet_eq_ok.mp h.working).1
  have hpauses : PausedOtherwise state request draws visit ↔
      visit.id ∈ riskBlockedVisits state advance.risks ∧
        dependencyPause state advance.result.endsAt visit ≠ .ok (playedTime outcome.played) := by
    constructor
    · rintro ⟨transition, advance', -, -, hadvance', hblocked, hne⟩
      obtain rfl : advance' = advance := Except.ok.inj (hadvance'.symm.trans hadvance)
      exact ⟨hblocked, htime ▸ hne⟩
    · rintro ⟨hblocked, hne⟩
      obtain ⟨transition, hcross, hactivity⟩ := hquiet
      exact ⟨transition, advance, hcross, hactivity, hadvance, hblocked, htime ▸ hne⟩
  have hdivided : TimeDivided state after visit row ↔
      (row.creditedLaborMicroseconds - visit.creditedLaborMicroseconds) +
        (row.queueMicroseconds - visit.queueMicroseconds) = playedTime outcome.played := by
    rw [TimeDivided, hcursor, htime]
    constructor
    · rintro ⟨business, hbusiness, heq⟩
      rw [heq, Except.ok.inj hbusiness]
    · intro heq
      exact ⟨_, rfl, heq⟩
  rw [hdivided, hpauses, not_and, not_not]
  -- the row of the visit after the risks, and whether they paused it
  have hrisks : ∀ before ∈ openVisits advance.state, before.id = visit.id →
      (before = visit ∨ ∃ delta, 0 < delta ∧
        dependencyPause state advance.result.endsAt visit = .ok delta ∧
          before = pausedBy visit delta) ∧
      (visit.id ∈ riskBlockedVisits state advance.risks ↔
        visit.pauseMicroseconds < before.pauseMicroseconds) := by
    intro before hbefore hsame
    obtain ⟨hb, hopen⟩ := mem_openVisits.mp hbefore
    exact ⟨evaluateDueRisks_paused hcounted hvisit h.risks h.working hb hsame hopen,
      mem_riskBlockedVisits h.working hvisit hb hsame⟩
  rcases hclocked with ⟨hopen, hblocked⟩ | ⟨before, hbefore, hfree, hclocks⟩
  · -- a blocked visit stays as the risks have left it
    rw [hid] at hblocked
    obtain ⟨rfl | ⟨delta, -, hpause, rfl⟩, hiff⟩ := hrisks row hopen hid
    · exact absurd (hiff.mp hblocked) (lt_irrefl _)
    · rw [hpause, Except.ok.injEq]
      simp only [pausedBy, hblocked, true_implies]
      omega
  · -- the clocks of another visit advance over all segments
    have hsame : before.id = visit.id := hclocks.id.symm.trans hid
    rw [hsame] at hfree
    obtain ⟨rfl | ⟨delta, hpos, -, rfl⟩, hiff⟩ := hrisks before hbefore hsame
    · have hclock' : intrinsicallyPaused advance.state before = .ok false := by
        rw [intrinsicallyPaused, haggregate]
        exact hclock
      have hsum := hclocks.divided hclock' hremains
      simp only [hfree, false_implies, iff_true]
      omega
    · refine absurd (hiff.mpr ?_) hfree
      simp only [pausedBy]
      omega

/-- In every committed tick, an open visit in a status that keeps its clock running and with work
left at the end divides the business time of the tick between labor and queue, exactly unless an
external dependency pauses it for another time. -/
theorem time_partition (hzones : p.OrderlyZones) {store store' : TeamStore p} {request : TickRequest}
    {draws : DrawSource} (hreach : (teamRuns p).Reachable store)
    (hstep : stepTeam store (.tick request draws) = .ok store') {visit row : StatusVisitState}
    (hvisit : visit ∈ openVisits store.state)
    (hclock : intrinsicallyPaused store.state visit = .ok false)
    (hrow : row ∈ store'.scrum.statusVisits) (hid : row.id = visit.id)
    (hremains : row.remainingWorkMicroseconds ≠ 0) :
    TimeDivided store.state store'.state visit row ↔
      ¬ PausedOtherwise store.state request draws visit := by
  have hbased := Based.of_reachable hreach
  have hmem := (mem_openVisits.mp hvisit).1
  have hcommand := hstep
  simp only [stepTeam, hbased.loaded.load, ok_bind, commandFor, bind_eq_ok, map_eq_ok] at hcommand
  obtain ⟨command?, ⟨command, hcommand, rfl⟩, hcommit⟩ := hcommand
  have hcommitted := commit_eq_ok hcommit
  have hcursor : cursor store'.state = command.liveSlice.runtimeAfter.simulationTime :=
    hcommitted.runtime_eq.2.2.2.2
  have hcases := hcommand
  simp only [calculateScrumTick, bind_eq_ok, exists_unit] at hcases
  obtain ⟨-, transition, hcross, hcases⟩ := hcases
  by_cases hactivity : transition.activity ≠ []
  · -- a boundary takes no time and writes no visit that exists
    rw [if_pos hactivity] at hcases
    simp only [lifecycleCommit, AuthoritativeTickSliceCommit.create, bind_eq_ok,
      validated_eq_ok] at hcases
    obtain ⟨slice, ⟨-, rfl⟩, -, rfl⟩ := hcases
    have hsame : row = visit := by
      rcases boundary_visits hreach hcommitted (crossSprintBoundary_eq_ok hcross) rfl hrow with
        hold | ⟨hnew, -⟩
      · exact Collection.statusVisits.eq_of_key_eq store.scrum.complete.toConsistent hold hmem hid
      · exact absurd (List.mem_map.mpr ⟨visit, hmem, hid.symm⟩) hnew
    have hstill : cursor store'.state = cursor store.state := hcursor
    constructor
    · rintro - ⟨transition', -, hcross', hquiet, -⟩
      rw [hcross] at hcross'
      cases hcross'
      exact hactivity hquiet
    · intro _
      refine ⟨0, ?_, ?_⟩
      · rw [hstill]
        exact businessTime_self hzones hreach _
      · rw [hsame]
        omega
  · rw [if_neg hactivity, bind_eq_ok] at hcases
    -- otherwise the time passes from the cursor to the end of the advance
    obtain ⟨advance, hadvance, hfinal⟩ := hcases
    obtain ⟨outcome, finish, hrun⟩ := tickAdvance_eq_ok hadvance
    simp only [finalizeTick, bind_eq_ok] at hfinal
    obtain ⟨slice, hslice, hassemble⟩ := hfinal
    have hassembled := assembleTick_eq_ok hassemble
    have hends : command.liveSlice.runtimeAfter.simulationTime = advance.result.endsAt := by
      rw [hassembled.slice_eq]
      exact (tickSlice_runtimeAfter hslice).2
    exact hrun.time_divided hzones (hcommitted.afterTick hrun.working
      (hassembled.slice_eq ▸ hassembled)) (hcursor.trans hends)
      ⟨transition, hcross, not_not.mp hactivity⟩ hadvance
      (ordinalsCounted_of_reachable hreach) hmem hclock hrow hid hremains

/-! ### A pause of one hour -/

/-- In UTC the wall-clock time of an instant is the instant itself. -/
theorem resolveLocal_utc {naive instant : ℤ} (h : resolveLocal
    { utcOffset := fun _ _ => 0, fromUtc := fun instant => (instant, false) } naive =
      .ok instant) : instant = naive := by
  simp only [resolveLocal, roundtripCandidate, toUtc, toLocal, sub_zero, bind_eq_ok] at h
  obtain ⟨candidate, ⟨utc, hutc, wall, hwall, hroundtrip⟩, candidate', ⟨utc', hutc', wall', hwall',
    hroundtrip'⟩, h⟩ := h
  split_ifs at hutc hwall hutc' hwall'
  cases hutc
  cases hwall
  cases hutc'
  cases hwall'
  simp only [ne_eq, not_true_eq_false, or_false, if_false, pure_eq_ok, Bool.false_eq_true,
    not_false_eq_true, or_true, if_true] at hroundtrip hroundtrip'
  subst hroundtrip hroundtrip'
  exact (Except.ok.inj h).symm

theorem utcPlatform_orderly : utcPlatform.OrderlyZones := by
  intro name zone hzone early late first second hle hfirst hsecond
  cases hzone
  rw [resolveLocal_utc hfirst, resolveLocal_utc hsecond]
  exact hle

/-- The rule that lets every visit wait for one hour. -/
def dependencyRule : RiskRule where
  key := "EXTERNAL_DEPENDENCY"
  trigger := "STATUS_ENTERED"
  baseProbability := 1
  coefficients := []
  clamp := ⟨0, 1⟩
  mechanicalParameters := [("wait_hours", .int 1)]

/-- The small team with eight hours of development and an hour of waiting before it. -/
def waitingDocument : BlueprintDocument :=
  { smallDocument [dependencyRule] 0 0 0 with
    timing := {
      profileName := "timing", profileVersion := 1, algorithmVersion := "1"
      entries := [
        { dwellTiming "DEV" 0 with touchMin := 8, touchMax := 8 },
        dwellTiming "CODE_REVIEW" 0, dwellTiming "QA" 0] } }

theorem waitingDocument_accepted : waitingDocument.validate = .ok () := by
  decide +kernel

def waitingBlueprint : ResolvedTeamBlueprint where
  toBlueprintDocument := waitingDocument
  accepted := waitingDocument_accepted

/-- The stores around a tick that follows a script, and the rows of a visit in development that
divides some hours while other hours of business time pass. -/
def developmentTick (events : List TeamEvent) (hours business divided : ℤ) :
    Result (TeamStore utcPlatform × TeamStore utcPlatform × StatusVisitState × StatusVisitState) := do
  let store ← runTeam utcPlatform (startAfter waitingBlueprint 0) events
  let store' ← stepTeam store (tickUntil utcPlatform waitingBlueprint hours)
  let visit ← next (fun visit => visit.statusKey = "DEV") (openVisits store.state)
  let row ← next (fun row => row.id = visit.id) store'.scrum.statusVisits
  require (intrinsicallyPaused store.state visit = .ok false ∧ row.remainingWorkMicroseconds ≠ 0)
    "the visit is not in progress"
  require (businessTime store.state (cursor store.state) (cursor store'.state) =
      .ok (business * microsecondsPerHour) ∧
    (row.creditedLaborMicroseconds - visit.creditedLaborMicroseconds) +
      (row.queueMicroseconds - visit.queueMicroseconds) = divided * microsecondsPerHour)
    "the time is divided otherwise"
  return (store, store', visit, row)

/-- After the hour of waiting a tick divides its two hours. -/
theorem time_partition_smallTeam :
    ∃ store store' visit row, runTeam utcPlatform (startAfter waitingBlueprint 0)
        [tickUntil utcPlatform waitingBlueprint 1] = .ok store ∧
      stepTeam store (tickUntil utcPlatform waitingBlueprint 3) = .ok store' ∧
      visit ∈ openVisits store.state ∧ row ∈ store'.scrum.statusVisits ∧ row.id = visit.id ∧
      TimeDivided store.state store'.state visit row ∧
      ¬ PausedOtherwise store.state (requestUntil waitingBlueprint 3)
        (teamDraws utcPlatform waitingBlueprint) visit := by
  obtain ⟨⟨store, store', visit, row⟩, h⟩ := exists_of_succeeds
    (developmentTick [tickUntil utcPlatform waitingBlueprint 1] 3 2 2) (by decide +kernel)
  simp only [developmentTick, bind_eq_ok, exists_unit, require_eq_ok, pure_eq_ok] at h
  obtain ⟨_, hrun, _, hstep, _, hvisit, _, hrow, ⟨hclock, hremains⟩, ⟨htime, hsum⟩, heq⟩ := h
  cases heq
  obtain ⟨hmem, hid⟩ := mem_of_next hrow
  have hopen := (mem_of_next hvisit).1
  have hid := of_decide_eq_true hid
  have hdivided : TimeDivided store.state store'.state visit row := ⟨_, htime, hsum⟩
  exact ⟨store, store', visit, row, hrun, hstep, hopen, hmem, hid, hdivided,
    (time_partition utcPlatform_orderly (reachable_of_runTeam hrun) hstep hopen hclock hmem hid
      hremains).mp hdivided⟩

/-- A visit that waits for one hour loses the other two hours of its tick. -/
theorem pause_loses_time :
    ∃ store store' visit row,
      runTeam utcPlatform (startAfter waitingBlueprint 0) [] = .ok store ∧
      stepTeam store (tickUntil utcPlatform waitingBlueprint 3) = .ok store' ∧
      visit ∈ openVisits store.state ∧ intrinsicallyPaused store.state visit = .ok false ∧
      row ∈ store'.scrum.statusVisits ∧ row.id = visit.id ∧ row.remainingWorkMicroseconds ≠ 0 ∧
      businessTime store.state (cursor store.state) (cursor store'.state) =
        .ok (3 * microsecondsPerHour) ∧
      (row.creditedLaborMicroseconds - visit.creditedLaborMicroseconds) +
        (row.queueMicroseconds - visit.queueMicroseconds) = microsecondsPerHour ∧
      ¬ TimeDivided store.state store'.state visit row := by
  obtain ⟨⟨store, store', visit, row⟩, h⟩ :=
    exists_of_succeeds (developmentTick [] 3 3 1) (by decide +kernel)
  simp only [developmentTick, bind_eq_ok, exists_unit, require_eq_ok, pure_eq_ok] at h
  obtain ⟨_, hrun, _, hstep, _, hvisit, _, hrow, ⟨hclock, hremains⟩, ⟨htime, hsum⟩, heq⟩ := h
  cases heq
  obtain ⟨hmem, hid⟩ := mem_of_next hrow
  refine ⟨store, store', visit, row, hrun, hstep, (mem_of_next hvisit).1, hclock, hmem,
    of_decide_eq_true hid, hremains, htime, hsum.trans (one_mul _), ?_⟩
  rintro ⟨business, hbusiness, hdivided⟩
  rw [htime, Except.ok.injEq] at hbusiness
  unfold microsecondsPerHour at hbusiness hsum
  omega

end JiraSimulator
