import JiraSimulator.Correctness.Counters
import JiraSimulator.Correctness.OpenVisits

/-!
# The rows of the visits

What becomes of the row of a visit in each kind of commit.  Risks write new visits only for items
that have one, and never credit labor; a sprint boundary writes first visits only; the progress of a
tick writes the visits of its finishes.

* `applyRules_visits`: the visits during a risk evaluation.
* `boundary_visits`: the visits after a sprint boundary.
* `TickRun.tickRow`: the row of every visit after a tick.
-/

namespace JiraSimulator

open Library Library.Outcome Library.Transition ScrumCollections

variable {p : Platform}

/-! ### Risks -/

/-- The visit of a risk evaluation: one from before, with the labor that it had, or a new one of an
item that has a visit. -/
inductive RiskVisit (c : ScrumCollections) (visit : StatusVisitState) : Prop
  | kept (old : StatusVisitState) (hmem : old ∈ c.statusVisits) (hid : old.id = visit.id)
      (hwork : old.workItemId = visit.workItemId)
      (hcredited : visit.creditedLaborMicroseconds = old.creditedLaborMicroseconds)
      (hentered : visit.enteredAt = old.enteredAt)
      (hclosed : old.lifecycle = .CLOSED → visit = old)
  | returned (hnew : visit.id ∉ c.statusVisits.map (·.id))
      (hcredited : visit.creditedLaborMicroseconds = 0) (earlier : StatusVisitState)
      (hmem : earlier ∈ c.statusVisits) (hwork : earlier.workItemId = visit.workItemId)

theorem riskVisit_self {c : ScrumCollections} {visit : StatusVisitState}
    (h : visit ∈ c.statusVisits) : RiskVisit c visit :=
  .kept visit h rfl rfl rfl rfl fun _ => rfl

/-- The item of a visit of a risk evaluation had a visit before. -/
theorem RiskVisit.exists_earlier {c : ScrumCollections} {visit : StatusVisitState}
    (h : RiskVisit c visit) : ∃ earlier ∈ c.statusVisits, earlier.workItemId = visit.workItemId := by
  cases h with
  | kept old hmem hid hwork => exact ⟨old, hmem, hwork⟩
  | returned hnew hcredited earlier hmem hwork => exact ⟨earlier, hmem, hwork⟩

/-- Another row of an open visit, with the same labor. -/
theorem RiskVisit.update {c : ScrumCollections} {visit updated : StatusVisitState}
    (h : RiskVisit c visit) (hopen : visit.lifecycle = .OPEN) (hid : updated.id = visit.id)
    (hwork : updated.workItemId = visit.workItemId)
    (hcredited : updated.creditedLaborMicroseconds = visit.creditedLaborMicroseconds)
    (hentered : updated.enteredAt = visit.enteredAt) : RiskVisit c updated := by
  cases h with
  | kept old hmem hid' hwork' hcredited' hentered' hclosed =>
    refine .kept old hmem (hid'.trans hid.symm) (hwork'.trans hwork.symm)
      (hcredited.trans hcredited') (hentered.trans hentered') fun hold => ?_
    rw [hclosed hold, hold] at hopen
    cases hopen
  | returned hnew hcredited' earlier hmem hwork' =>
    exact .returned (hid ▸ hnew) (hcredited.trans hcredited') earlier hmem (hwork'.trans hwork.symm)

/-- A rule keeps what a risk evaluation may do to the visits. -/
theorem RiskStep.riskVisits {c : ScrumCollections} {context : RiskContext p} {c' : ScrumCollections}
    (hc : c.Consistent p) (hcounted : OrdinalsCounted c)
    (hcounters : context.state.scrum.semanticCounters = c.semanticCounters)
    (hbefore : ∀ visit ∈ context.state.scrum.statusVisits, RiskVisit c visit)
    (h : RiskStep context c') : ∀ visit ∈ c'.statusVisits, RiskVisit c visit := by
  intro visit hvisit
  cases h with
  | silent h => exact hbefore visit (h ▸ hvisit)
  | reviews hkey htrigger h =>
    rcases (h.statusVisits visit).mp hvisit with ⟨work, decision, sample, hreturns⟩ | ⟨hstays, -⟩
    · obtain ⟨review, step, counter, hreturn⟩ := hreturns
      obtain ⟨hcounter, hscope⟩ := visitCounter_eq_ok hreturn.counter_eq
      have hnew := hcounted.not_mem_of_counter hc (hcounters ▸ hcounter) hscope
      obtain ⟨earlier, hmem, hwork⟩ := (hbefore review hreturn.mem).exists_earlier
      refine .returned ?_ hreturn.enters.credited_eq earlier hmem ?_
      · rw [hreturn.enters.id_eq]
        exact hnew
      · rw [hwork, ← (workOf_eq_ok hreturn.work_eq).2, hreturn.enters.workItemId_eq]
        rfl
    · exact hbefore visit hstays
  | cancellations hkey boundary hboundary h =>
    rcases (h.statusVisits visit).mp hvisit with ⟨work, decision, hcancels, rfl⟩ | ⟨hstays, -⟩
    · exact (hbefore _ hcancels.visit_mem.1).update hcancels.visit_mem.2.2 rfl rfl rfl rfl
    · exact hbefore visit hstays
  | pauses h =>
    rcases h.mem_of_mem visit hvisit with hmem | ⟨old, hmem, hopen, delta, rfl, -⟩
    · exact hbefore visit hmem
    · exact (hbefore old hmem).update hopen rfl rfl rfl rfl
  | absences h =>
    rw [h.statusVisits] at hvisit
    exact hbefore visit hvisit

/-- The visits during a risk evaluation. -/
theorem applyRules_visits {state : LiveTeamState p} {asOf : ℤ} {draws : DrawSource}
    {records : RiskRecords p} {progress : RiskProgress p} {rules : List RiskRule}
    (h : applyRules asOf draws { working := state, records } rules = .ok progress)
    (hcounted : OrdinalsCounted state.scrum.toScrumCollections) :
    progress.working.scrum.semanticCounters = state.scrum.semanticCounters ∧
      ∀ visit ∈ progress.working.scrum.statusVisits,
        RiskVisit state.scrum.toScrumCollections visit := by
  refine riskSteps_induction (motive := fun working =>
    working.scrum.semanticCounters = state.scrum.semanticCounters ∧
      ∀ visit ∈ working.scrum.statusVisits, RiskVisit state.scrum.toScrumCollections visit) h
    ⟨rfl, fun visit => riskVisit_self⟩ ?_
  intro rule _ working working' hworking _ hframe hstep
  exact ⟨hframe.semanticCounters.trans hworking.1,
    hstep.riskVisits state.scrum.complete.toConsistent hcounted hworking.1 hworking.2⟩

/-! ### Sprint boundaries -/

/-- A sprint boundary writes the first visits of items from the backlog. -/
theorem boundary_visits {store store' : TeamStore p} {command : AuthoritativeTickSliceCommit p}
    {instant : ℤ} {transition : SprintTransition p} (hreach : (teamRuns p).Reachable store)
    (hcommitted : Committed store command store')
    (hstep : BoundaryStep store.state instant transition) (hstate : command.state = transition.state)
    {visit : StatusVisitState} (hvisit : visit ∈ store'.scrum.statusVisits) :
    visit ∈ store.scrum.statusVisits ∨ (visit.id ∉ store.scrum.statusVisits.map (·.id) ∧
      visit.creditedLaborMicroseconds = 0 ∧ visit.lifecycle = .OPEN ∧ visit.enteredAt = instant ∧
      visit.pauseMicroseconds = 0) := by
  have hcomplete := store'.scrum.complete
  obtain ⟨work', hwork', hid'⟩ := List.mem_map.mp (hcomplete.visitWork visit hvisit)
  have hview : visit ∈ (store'.scrum.viewOf work').visits := ⟨hvisit, hid'.symm⟩
  obtain ⟨work, hwork, hid, hmove⟩ :=
    boundary_itemMove hcommitted (.of_reachable hreach) hstep hstate hwork'
  rcases hmove with hsame | hmove
  · rw [hsame] at hview
    exact .inl hview.1
  · -- an item in the backlog has no visit yet
    have hempty : (store.scrum.viewOf work).visits = ∅ :=
      (matched_of_reachable hreach work hwork).backlog hmove.backlog
    generalize store'.scrum.viewOf work' = item' at hview hmove
    cases hmove with
    | finishes status =>
      rw [hempty] at hview
      exact absurd hview (Set.notMem_empty visit)
    | enters step draws member entered sample _ henters =>
      rw [hempty, mem_putVisit] at hview
      have hentered : visit = entered := hview.resolve_right fun h => h.1
      subst hentered
      refine .inr ⟨fun hmem => ?_, henters.credited_eq, henters.lifecycle_eq,
        henters.enteredAt_eq, henters.pause_eq⟩
      obtain ⟨old, hold, holdId⟩ := List.mem_map.mp hmem
      have hitem : old.workItemId = work.id :=
        (StatusVisitState.Valid.workItemId_eq
          (store.scrum.complete.toConsistent.visit_valid hold) henters.visitValid holdId).trans
          henters.workItemId_eq
      have hmem : old ∈ (store.scrum.viewOf work).visits := ⟨hold, hitem⟩
      rw [hempty] at hmem
      exact hmem

/-! ### Progress -/

section progress

variable {state : LiveTeamState p} {draws : DrawSource} {advance : RiskAdvance p}
  {outcome : SegmentsOutcome} {finish : StatusVisitState → FinishedVisit} {c' : ScrumCollections}
  (h : TickRun state draws advance outcome finish) (hafter : AfterTick advance c')

include hafter in
theorem AfterTick.visits_nodup : (advance.result.visits.map (·.id)).Nodup :=
  hafter.progress.keysUnique.statusVisits

include h in
/-- A visit after the segments is the open visit that it was before them. -/
theorem TickRun.exists_before {x : StatusVisitState} (hx : x ∈ outcome.visits) :
    ∃ before ∈ openVisits advance.state, SameVisit before x :=
  (h.sameVisits.same x hx).2

include h in
/-- An open visit that is not written is as the segments leave it. -/
theorem TickRun.mem_of_not_written {row : StatusVisitState} (hopen : row ∈ openVisits advance.state)
    (hnot : row.id ∉ advance.result.visits.map (·.id)) : row ∈ outcome.visits := by
  obtain ⟨x, hx, hsame⟩ := h.sameVisits.exists_after (openVisits_nodup advance.state) hopen
  have hwrites : ∀ v ∈ (finish x).visits, v.id ≠ row.id := by
    intro v hv heq
    exact hnot (List.mem_map.mpr ⟨v, h.mem_visits.mpr ⟨x, hx, hv⟩, heq⟩)
  have hkept : x = row := by
    cases h.finishes x hx with
    | kept hmem heq =>
      exact Collection.statusVisits.eq_of_key_eq advance.state.scrum.complete.toConsistent
        (mem_openVisits.mp hmem).1 (mem_openVisits.mp hopen).1 hsame.id
    | advanced _ _ _ _ heq => exact absurd hsame.id (hwrites x (by simp [heq]))
    | done _ _ _ _ _ _ _ heq =>
      exact absurd hsame.id (hwrites (closedVisit x advance.result.endsAt) (by simp [heq]))
    | moved _ _ _ _ _ _ _ _ _ _ _ _ heq =>
      exact absurd hsame.id (hwrites (closedVisit x advance.result.endsAt) (by simp [heq]))
  exact hkept ▸ hx

/-- The row of a visit after a tick: one that its risks closed or had found closed, one that its
segments played and perhaps completed, or one that is entered at its end. -/
inductive TickRow (state : LiveTeamState p) (draws : DrawSource) (advance : RiskAdvance p)
    (outcome : SegmentsOutcome) (row : StatusVisitState) : Prop
  | closed (h : row ∈ advance.state.scrum.statusVisits) (hclosed : row.lifecycle = .CLOSED)
  | progresses (x : StatusVisitState) (hx : x ∈ outcome.visits)
      (h : row = x ∨
        (row = closedVisit x advance.result.endsAt ∧ x.remainingWorkMicroseconds = 0))
  | enters (hnew : row.id ∉ state.scrum.statusVisits.map (·.id)) (work : WorkItemState)
      (step : WorkflowRouteStep) (ordinal : ℕ) (sample : StatusVisitSample)
      (henters : EntersVisit p advance.state.aggregate.blueprint draws work step ordinal none
        advance.result.endsAt row sample)

include h hafter in
/-- The row of every visit after a tick. -/
theorem TickRun.tickRow (hcounted : OrdinalsCounted state.scrum.toScrumCollections)
    {row : StatusVisitState} (hrow : row ∈ c'.statusVisits) :
    TickRow state draws advance outcome row := by
  have hcounters := (applyRules_visits (evaluateDueRisks_working h.risks h.working) hcounted).1
  rcases (hafter.visits row).mp hrow with hwritten | ⟨hstays, hnot⟩
  · obtain ⟨x, hx, hwritten⟩ := h.mem_visits.mp hwritten
    cases h.finishes x hx with
    | kept _ heq =>
      rw [heq] at hwritten
      cases hwritten
    | advanced _ _ _ _ heq =>
      rw [heq, List.mem_singleton] at hwritten
      exact .progresses x hx (.inl hwritten)
    | done _ _ _ completion _ _ _ heq =>
      rw [heq, List.mem_singleton] at hwritten
      exact .progresses x hx (.inr ⟨hwritten, completion.remaining⟩)
    | moved work later step counter next sample completion _ hcounter _ henters _ heq =>
      rw [heq, List.mem_cons, List.mem_singleton] at hwritten
      rcases hwritten with hwritten | rfl
      · exact .progresses x hx (.inr ⟨hwritten, completion.remaining⟩)
      · -- the next visit of an item is new
        obtain ⟨hmem, hscope⟩ := visitCounter_eq_ok hcounter
        have hnew := hcounted.not_mem_of_counter state.scrum.complete.toConsistent
          (hcounters ▸ hmem) hscope
        exact .enters (henters.id_eq ▸ hnew) _ step _ sample henters
  · cases hlifecycle : row.lifecycle with
    | CLOSED => exact .closed hstays hlifecycle
    | OPEN =>
      have hopen : row ∈ openVisits advance.state := mem_openVisits.mpr ⟨hstays, hlifecycle⟩
      exact .progresses row (h.mem_of_not_written hopen hnot) (.inl rfl)

end progress

end JiraSimulator
