import JiraSimulator.Correctness.RiskWindow
import JiraSimulator.Correctness.SprintTimeline

/-!
# The window of one tick

A tick takes the cursor forward to its end, at most to the requested one.  All that its command
records happens between the cursor and that end: the drafts of its ledgers, and the entries, closes
and moves that it writes.  The risks that it commits were evaluated for this very end, however often
the progress has shortened the tick.

* `TickRun.datedWithin`: the rows that the risks and the progress of a tick write.
* `tick_stays_in_window`: the command of every tick.
-/

namespace JiraSimulator

open Library Library.Outcome ScrumCollections

variable {p : Platform}

/-! ### Dated rows -/

/-- The visit is dated as before or within the window. -/
structure VisitDated (rows : ScrumCollections) (startsAt endsAt : ℤ) (visit : StatusVisitState) :
    Prop where
  entered : InWindow startsAt endsAt visit.enteredAt ∨
    ∃ old ∈ rows.statusVisits, old.id = visit.id ∧ old.enteredAt = visit.enteredAt
  closed : ∀ instant, visit.closedAt = some instant → InWindow startsAt endsAt instant ∨
    ∃ old ∈ rows.statusVisits, old.id = visit.id ∧ old.closedAt = some instant

/-- The item is as before or was updated within the window. -/
def WorkDated (rows : ScrumCollections) (startsAt endsAt : ℤ) (work : WorkItemState) : Prop :=
  InWindow startsAt endsAt work.updatedAt ∨ work ∈ rows.workItems

/-- The visits and the items are dated as in the rows before or within the window. -/
structure DatedWithin (rows changes : ScrumCollections) (startsAt endsAt : ℤ) : Prop where
  visits : ∀ visit ∈ changes.statusVisits, VisitDated rows startsAt endsAt visit
  work : ∀ work ∈ changes.workItems, WorkDated rows startsAt endsAt work

variable {rows : ScrumCollections} {startsAt endsAt : ℤ}

theorem datedWithin_refl (rows : ScrumCollections) : DatedWithin rows rows startsAt endsAt where
  visits visit hvisit :=
    ⟨.inr ⟨visit, hvisit, rfl, rfl⟩, fun _ hclosed => .inr ⟨visit, hvisit, rfl, hclosed⟩⟩
  work _ hwork := .inr hwork

/-- A visit that is entered in the window. -/
theorem EntersVisit.dated {blueprint : ResolvedTeamBlueprint} {draws : DrawSource}
    {work : WorkItemState} {step : WorkflowRouteStep} {ordinal : ℕ} {memberId : Option Uuid}
    {enteredAt : ℤ} {visit : StatusVisitState} {sample : StatusVisitSample}
    (h : EntersVisit p blueprint draws work step ordinal memberId enteredAt visit sample)
    (hentered : InWindow startsAt endsAt enteredAt) : VisitDated rows startsAt endsAt visit where
  entered := .inl (h.enteredAt_eq ▸ hentered)
  closed instant hclosed := by
    rw [h.closedAt_eq] at hclosed
    cases hclosed

/-- Another row of a dated visit, closed in the window or as before. -/
theorem VisitDated.update {visit updated : StatusVisitState}
    (h : VisitDated rows startsAt endsAt visit) (hid : updated.id = visit.id)
    (hentered : updated.enteredAt = visit.enteredAt)
    (hclosed : updated.closedAt = visit.closedAt ∨
      ∃ instant, updated.closedAt = some instant ∧ InWindow startsAt endsAt instant) :
    VisitDated rows startsAt endsAt updated where
  entered := by
    rw [hid, hentered]
    exact h.entered
  closed instant hinstant := by
    rw [hid]
    rcases hclosed with hsame | ⟨closedAt, hclosedAt, hwithin⟩
    · exact h.closed instant (hsame ▸ hinstant)
    · rw [hclosedAt, Option.some.injEq] at hinstant
      exact .inl (hinstant ▸ hwithin)

/-! ### Risks -/

/-- A rule dates its rows within the window of the evaluation. -/
theorem RiskStep.dated {context : RiskContext p} {c' : ScrumCollections} (h : RiskStep context c')
    (hle : cursor context.state ≤ context.asOf)
    (hbefore : DatedWithin rows context.state.scrum.toScrumCollections (cursor context.state)
      context.asOf) :
    DatedWithin rows c' (cursor context.state) context.asOf := by
  cases h with
  | silent h => exact h ▸ hbefore
  | reviews _ _ h =>
    refine ⟨fun visit hvisit => ?_, fun work hwork => ?_⟩
    · rcases (h.statusVisits visit).mp hvisit with ⟨work, decision, sample, hreturns⟩ | ⟨hold, -⟩
      · obtain ⟨review, step, counter, hreturn⟩ := hreturns
        exact hreturn.enters.dated ⟨le_rfl, hle⟩
      · exact hbefore.visits visit hold
    · rcases (h.workItems work).mp hwork with ⟨item, decision, _, _, -, rfl⟩ | ⟨hold, -⟩
      · exact .inl ⟨le_rfl, hle⟩
      · exact hbefore.work work hold
  | cancellations _ boundary hboundary h =>
    obtain ⟨hstart, hend⟩ := workdayBoundary_eq_ok hboundary
    refine ⟨fun visit hvisit => ?_, fun work hwork => ?_⟩
    · rcases (h.statusVisits visit).mp hvisit with ⟨work, decision, hcancels, rfl⟩ | ⟨hold, -⟩
      · exact (hbefore.visits decision.visit hcancels.visit_mem.1).update rfl rfl
          (.inr ⟨boundary, rfl, hstart, hend.le⟩)
      · exact hbefore.visits visit hold
    · rcases (h.workItems work).mp hwork with ⟨item, decision, -, rfl⟩ | ⟨hold, -⟩
      · exact .inl ⟨hstart, hend.le⟩
      · exact hbefore.work work hold
  | pauses h =>
    refine ⟨fun visit hvisit => ?_, fun work hwork => hbefore.work work (h.workItems ▸ hwork)⟩
    rcases h.mem_of_mem visit hvisit with hold | ⟨paused, hpaused, -, delta, rfl, -⟩
    · exact hbefore.visits visit hold
    · exact (hbefore.visits paused hpaused).update rfl rfl (.inl rfl)
  | absences h =>
    exact ⟨fun visit hvisit => hbefore.visits visit (h.statusVisits ▸ hvisit),
      fun work hwork => hbefore.work work (h.workItems ▸ hwork)⟩

theorem applyRules_dated {state : LiveTeamState p} {asOf : ℤ} {draws : DrawSource}
    {records : RiskRecords p} {progress : RiskProgress p} {rules : List RiskRule}
    (h : applyRules asOf draws { working := state, records } rules = .ok progress)
    (hle : cursor state ≤ asOf) :
    DatedWithin state.scrum.toScrumCollections progress.working.scrum.toScrumCollections
      (cursor state) asOf := by
  refine (riskSteps_induction (motive := fun working => cursor working = cursor state ∧
    DatedWithin state.scrum.toScrumCollections working.scrum.toScrumCollections (cursor state)
      asOf) h ⟨rfl, datedWithin_refl _⟩ ?_).2
  rintro rule - working working' ⟨hcursor, hdated⟩ hagg - hstep
  have hcursor' : cursor working' = cursor state := by
    rw [← hcursor, cursor, hagg, cursor]
  rw [← hcursor] at hdated hle ⊢
  exact ⟨hcursor'.trans hcursor.symm, hstep.dated hle hdated⟩

/-! ### Progress -/

section tick

variable {state : LiveTeamState p} {draws : DrawSource} {advance : RiskAdvance p}
  {outcome : SegmentsOutcome} {finish : StatusVisitState → FinishedVisit}
  (h : TickRun state draws advance outcome finish)

include h

/-- The working rows are dated within the window of the tick. -/
theorem TickRun.risks_dated : DatedWithin state.scrum.toScrumCollections
    advance.state.scrum.toScrumCollections (cursor state) advance.result.endsAt :=
  applyRules_dated (evaluateDueRisks_working h.risks h.working) h.cursor_le

/-- The progress of a tick dates its rows at the end of the tick. -/
theorem TickRun.progress_dated : DatedWithin state.scrum.toScrumCollections
    (progressRows advance.result) (cursor state) advance.result.endsAt := by
  have hend : InWindow (cursor state) advance.result.endsAt advance.result.endsAt :=
    ⟨h.cursor_le, le_rfl⟩
  -- a visit that the tick plays keeps its dates
  have hbefore : ∀ x ∈ outcome.visits, VisitDated state.scrum.toScrumCollections (cursor state)
      advance.result.endsAt x := by
    intro x hx
    obtain ⟨before, hmem, same⟩ := h.exists_before hx
    have hworking := h.risks_dated.visits before (List.mem_filter.mp hmem).1
    exact hworking.update same.id same.enteredAt (.inl same.closedAt)
  refine ⟨fun visit hvisit => ?_, fun work hwork => ?_⟩
  · obtain ⟨x, hx, hmem⟩ := h.mem_visits.mp hvisit
    -- a visit that it completes is closed at the end
    have hclosed : VisitDated state.scrum.toScrumCollections (cursor state) advance.result.endsAt
        (closedVisit x advance.result.endsAt) :=
      (hbefore x hx).update rfl rfl (.inr ⟨_, rfl, hend⟩)
    cases h.finishes x hx with
    | kept _ heq =>
      rw [heq] at hmem
      cases hmem
    | advanced _ _ _ _ heq =>
      rw [heq, List.mem_singleton] at hmem
      exact hmem ▸ hbefore x hx
    | done _ _ _ _ _ _ _ heq =>
      rw [heq, List.mem_singleton] at hmem
      exact hmem ▸ hclosed
    | moved _ _ _ _ next _ _ _ _ _ henters _ heq =>
      rw [heq] at hmem
      simp only [List.mem_cons, List.not_mem_nil, or_false] at hmem
      rcases hmem with rfl | rfl
      · exact hclosed
      · exact henters.dated hend
  · obtain ⟨x, hx, hmem⟩ := h.mem_workItems.mp hwork
    cases h.finishes x hx with
    | kept _ heq =>
      rw [heq] at hmem
      cases hmem
    | advanced _ _ _ _ heq =>
      rw [heq] at hmem
      cases hmem
    | done _ _ _ _ _ _ _ heq =>
      rw [heq, List.mem_singleton] at hmem
      exact .inl (hmem ▸ hend)
    | moved _ _ _ _ _ _ _ _ _ _ _ _ heq =>
      rw [heq, List.mem_singleton] at hmem
      exact .inl (hmem ▸ hend)

/-- The rows that a tick writes are dated within its window. -/
theorem TickRun.datedWithin {slice : TickSliceCommit} {command : AuthoritativeTickSliceCommit p}
    (hassembled : Assembled slice advance command) :
    DatedWithin state.scrum.toScrumCollections command.state.toScrumCollections (cursor state)
      advance.result.endsAt := by
  -- A row of the command stands in the state after it, so it is a working row or progress.
  have hrows : state.scrum.updateWith command.state.toScrumCollections =
      advance.state.scrum.updateWith (progressRows advance.result) :=
    progressRows_updateWith h.working hassembled
  have hmem : ∀ {α κ : Type} [DecidableEq κ] (col : Collection α κ) {a : α},
      a ∈ col.rows command.state.toScrumCollections →
        a ∈ col.rows (progressRows advance.result) ∨
          a ∈ col.rows advance.state.scrum.toScrumCollections := by
    intro α κ _ col a ha
    have hafter : a ∈ col.rows (state.scrum.updateWith command.state.toScrumCollections) :=
      (col.mem_updateWith state.scrum.complete.toConsistent command.state.consistent).mpr (.inl ha)
    rw [hrows, col.mem_updateWith advance.state.scrum.complete.toConsistent
      hassembled.progress] at hafter
    exact hafter.imp_right And.left
  refine ⟨fun visit hvisit => ?_, fun work hwork => ?_⟩
  · rcases hmem Collection.statusVisits hvisit with hprogress | hworking
    · exact h.progress_dated.visits visit hprogress
    · exact h.risks_dated.visits visit hworking
  · rcases hmem Collection.workItems hwork with hprogress | hworking
    · exact h.progress_dated.work work hprogress
    · exact h.risks_dated.work work hworking

end tick

/-! ### Sprint boundaries -/

/-- An item is activated at the boundary. -/
theorem activateItem_dated {blueprint : ResolvedTeamBlueprint} {startedAt : ℤ}
    {members : List MemberIdentity} {draws : DrawSource} {item : WorkItemState}
    {activated : ActivatedItem}
    (h : activateItem p blueprint startedAt members draws item = .ok activated)
    (hstart : InWindow startsAt endsAt startedAt) :
    WorkDated rows startsAt endsAt activated.item ∧
      ∀ visit ∈ activated.visits, VisitDated rows startsAt endsAt visit := by
  obtain ⟨route, -, ⟨terminal, -, -, -, -, rfl⟩ |
    ⟨step, member, visit, sample, -, -, -, henters, heq⟩⟩ := activateItem_eq_ok h
  · exact ⟨.inl hstart, by simp⟩
  · rw [heq]
    refine ⟨.inl hstart, fun v hv => ?_⟩
    rw [List.mem_singleton.mp hv]
    exact henters.dated hstart

theorem ActivatesIn.dated {state : LiveTeamState p} {draws : DrawSource} {boundary : ℤ}
    {selected : List Uuid} {w : ScrumCollections} (h : ActivatesIn state draws boundary selected w)
    (hstart : InWindow startsAt endsAt boundary) : DatedWithin rows w startsAt endsAt := by
  refine ⟨fun visit hvisit => ?_, fun work hwork => ?_⟩
  · obtain ⟨item, -, -, activated, hactivated, hmem⟩ := (h.visits visit).mp hvisit
    exact (activateItem_dated hactivated hstart).2 visit hmem
  · obtain ⟨item, -, -, activated, hactivated, rfl⟩ := (h.workItems work).mp hwork
    exact (activateItem_dated hactivated hstart).1

/-- A sprint boundary makes its drafts and dates its rows at its instant. -/
theorem BoundaryStep.dated {state : LiveTeamState p} {boundary : ℤ}
    {transition : SprintTransition p} (h : BoundaryStep state boundary transition)
    (hstart : InWindow startsAt endsAt boundary) :
    DatedWithin rows transition.state.toScrumCollections startsAt endsAt ∧
      (∀ draft ∈ transition.activity, InWindow startsAt endsAt draft.occurredAt) ∧
      (∀ draft ∈ transition.groundTruth, InWindow startsAt endsAt draft.occurredAt) ∧
      ∀ draft ∈ transition.projectionIntents, InWindow startsAt endsAt draft.occurredAt := by
  -- each intent is dated at the boundary
  have hintents : ∀ (context : TransitionContext p) operations dependency,
      context.boundary = boundary →
      ∀ draft ∈ buildProjectionIntents context dependency operations,
        InWindow startsAt endsAt draft.occurredAt := by
    intro context operations
    induction operations with
    | nil => exact fun _ _ draft hdraft => absurd hdraft List.not_mem_nil
    | cons operation operations ih =>
      intro dependency hboundary draft hdraft
      rcases List.mem_cons.mp hdraft with rfl | hdraft
      · exact (hboundary ▸ hstart : InWindow startsAt endsAt context.boundary)
      · exact ih _ hboundary draft hdraft
  cases h with
  | quiet h =>
    subst h
    exact ⟨⟨by simp [emptyTransition, ScrumStateWriteSet.empty],
      by simp [emptyTransition, ScrumStateWriteSet.empty]⟩, by simp [emptyTransition],
      by simp [emptyTransition], by simp [emptyTransition]⟩
  | activates sprint draws selected context _ _ _ _ _ hactivation _ _ _ _ hcontext h =>
    subst h
    have hboundary := hcontext.2.2.2
    refine ⟨hactivation.dated hstart, fun draft hdraft => ?_, fun draft hdraft => ?_,
      hintents context _ _ hboundary⟩
    · rw [List.mem_singleton.mp hdraft]
      exact (hboundary ▸ hstart : InWindow startsAt endsAt context.boundary)
    · rw [List.mem_singleton.mp hdraft]
      exact (hboundary ▸ hstart : InWindow startsAt endsAt context.boundary)
  | rolls sprint successor draws carryIds backlogIds context counter _ _ _ _ _ _ hactivation _ _ _
      _ _ _ _ hcontext h =>
    subst h
    have hboundary := hcontext.2.2.2
    refine ⟨hactivation.dated hstart, fun draft hdraft => ?_, fun draft hdraft => ?_,
      hintents context _ _ hboundary⟩
    · rw [List.mem_singleton.mp hdraft]
      exact (hboundary ▸ hstart : InWindow startsAt endsAt context.boundary)
    · rw [List.mem_singleton.mp hdraft]
      exact (hboundary ▸ hstart : InWindow startsAt endsAt context.boundary)

/-! ### The command of a tick -/

/-- A tick is not asked to end before the cursor, and does not end after the request. -/
theorem effectiveEnd_le {state : LiveTeamState p} {requested instant : ℤ}
    (h : effectiveEnd state requested = .ok instant) (hle : cursor state ≤ requested) :
    instant ≤ requested := by
  refine (nextWorkdayRiskBoundary_le h).trans (max_le hle ?_)
  split
  · exact min_le_left _ _
  · split
    · exact le_rfl
    · exact min_le_left _ _

/-- The command of a tick that crosses no sprint boundary commits the risks and the progress of one
advance, whose risks were evaluated for the end of the tick. -/
def CommitsAdvance (state : LiveTeamState p) (request : TickRequest) (draws : DrawSource)
    (command : AuthoritativeTickSliceCommit p) : Prop :=
  ∃ advance : RiskAdvance p,
    evaluateDueRisks state command.liveSlice.runtimeAfter.simulationTime draws = .ok advance.risks ∧
    advance.result.endsAt = command.liveSlice.runtimeAfter.simulationTime ∧
    tickSlice request advance = .ok command.liveSlice ∧
    assembleTick command.liveSlice advance = .ok command

/-- Every command that a tick computes moves the cursor forward, at most to the requested end; all
drafts and all written entries, closes and updates are dated between the old and the new cursor; and
a command that crosses no sprint boundary commits the risks that were evaluated for its very end. -/
theorem tick_stays_in_window {state : LiveTeamState p} {request : TickRequest} {draws : DrawSource}
    {command : AuthoritativeTickSliceCommit p}
    (h : calculateScrumTick state request draws = .ok command) :
    cursor state ≤ command.liveSlice.runtimeAfter.simulationTime ∧
    command.liveSlice.runtimeAfter.simulationTime ≤ request.endsAt ∧
    (∀ draft ∈ command.liveSlice.activity, InWindow (cursor state)
      command.liveSlice.runtimeAfter.simulationTime draft.occurredAt) ∧
    (∀ draft ∈ command.liveSlice.groundTruth, InWindow (cursor state)
      command.liveSlice.runtimeAfter.simulationTime draft.occurredAt) ∧
    (∀ draft ∈ command.liveSlice.projectionIntents, InWindow (cursor state)
      command.liveSlice.runtimeAfter.simulationTime draft.occurredAt) ∧
    DatedWithin state.scrum.toScrumCollections command.state.toScrumCollections (cursor state)
      command.liveSlice.runtimeAfter.simulationTime ∧
    ∃ transition, crossSprintBoundary state (cursor state) = .ok transition ∧
      ((transition.activity = [] ∧ CommitsAdvance state request draws command) ∨
        (transition.activity ≠ [] ∧ command.state = transition.state ∧
          command.liveSlice.runtimeAfter.simulationTime = cursor state)) := by
  simp only [calculateScrumTick, validateRequest, bind_eq_ok, exists_unit, require_eq_ok] at h
  obtain ⟨⟨-, hrequest⟩, transition, hcross, h⟩ := h
  by_cases hactivity : transition.activity ≠ []
  · -- a boundary is crossed at the cursor
    rw [if_pos hactivity] at h
    simp only [lifecycleCommit, AuthoritativeTickSliceCommit.create, bind_eq_ok,
      validated_eq_ok] at h
    obtain ⟨slice, ⟨-, rfl⟩, -, rfl⟩ := h
    have hstart : InWindow (cursor state) (cursor state) (cursor state) := ⟨le_rfl, le_rfl⟩
    obtain ⟨hrows, hevents, htruths, hintents⟩ :=
      @BoundaryStep.dated p state.scrum.toScrumCollections _ _ _ _ _
        (crossSprintBoundary_eq_ok hcross) hstart
    exact ⟨le_rfl, hrequest, hevents, htruths, hintents, hrows, transition, hcross,
      .inr ⟨hactivity, rfl, rfl⟩⟩
  · -- the advance ends inside the window that was asked for
    rw [if_neg hactivity, bind_eq_ok] at h
    obtain ⟨advance, hadvance, h⟩ := h
    simp only [finalizeTick, bind_eq_ok] at h
    obtain ⟨slice, hslice, hassemble⟩ := h
    have hassembled := assembleTick_eq_ok hassemble
    obtain rfl := hassembled.slice_eq
    have htime := (tickSlice_runtimeAfter hslice).2
    obtain ⟨outcome, finish, hrun⟩ := tickAdvance_eq_ok hadvance
    obtain ⟨endsAt, hendsAt, hle⟩ := tickAdvance_le_effectiveEnd hadvance
    have hwithin := tickSlice_within (evaluateDueRisks_within hrun.cursor_le hrun.risks)
      hrun.cursor_le hslice
    rw [htime]
    exact ⟨hrun.cursor_le, hle.trans (effectiveEnd_le hendsAt hrequest), hwithin.activity,
      hwithin.groundTruth, hwithin.intents, hrun.datedWithin hassembled, transition, hcross,
      .inl ⟨not_not.mp hactivity, advance, htime ▸ hrun.risks, htime.symm, hslice, hassemble⟩⟩

/-- A tick of the small team that its first completion shortens. -/
theorem tick_stays_in_window_smallTeam :
    ∃ store, runTeam utcPlatform (startAfter rejectingBlueprint 0) [] = .ok store ∧
      ∃ command, calculateScrumTick store.state (requestUntil rejectingBlueprint 1)
          (teamDraws utcPlatform rejectingBlueprint) = .ok command ∧
        cursor store.state ≤ command.liveSlice.runtimeAfter.simulationTime ∧
        command.liveSlice.runtimeAfter.simulationTime ≤
          (requestUntil rejectingBlueprint 1).endsAt ∧
        command.state.statusVisits ≠ [] ∧
        DatedWithin store.scrum.toScrumCollections command.state.toScrumCollections
          (cursor store.state) command.liveSlice.runtimeAfter.simulationTime := by
  have hsucceeds : (runTeam utcPlatform (startAfter rejectingBlueprint 0) []).toOption.any
      (fun store => (calculateScrumTick store.state (requestUntil rejectingBlueprint 1)
        (teamDraws utcPlatform rejectingBlueprint)).toOption.any fun command =>
          command.state.statusVisits ≠ []) = true := by
    decide +kernel
  obtain ⟨store, hrun⟩ := exists_of_succeeds (runTeam utcPlatform (startAfter rejectingBlueprint 0)
    []) (by decide +kernel)
  rw [hrun] at hsucceeds
  cases hcommand : calculateScrumTick store.state (requestUntil rejectingBlueprint 1)
      (teamDraws utcPlatform rejectingBlueprint) with
  | error e =>
    simp [Except.toOption, hcommand] at hsucceeds
  | ok command =>
    simp only [Except.toOption, Option.any_some, hcommand, decide_eq_true_eq] at hsucceeds
    obtain ⟨hstart, hend, -, -, -, hdated, -⟩ := tick_stays_in_window hcommand
    exact ⟨store, hrun, command, hcommand, hstart, hend, hsucceeds, hdated⟩

end JiraSimulator
