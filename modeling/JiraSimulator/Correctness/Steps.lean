import JiraSimulator.Correctness.Commits
import JiraSimulator.Correctness.Lifecycle
import JiraSimulator.Correctness.TickRuns

/-!
# The transactions of a team

Every transaction after the bootstrap provisions again, does nothing, or commits one of three kinds
of commands: a tick, a sprint boundary, or a downtime.

* `progressRows_updateWith`: the rows after a tick are its working rows with its progress.
* `stepTeam_eq_ok`: the cases of a transaction.
-/

namespace JiraSimulator

open Library Library.Outcome Library.Transition ScrumCollections

variable {p : Platform}

/-! ### The command of a tick -/

/-- The rows that the progress of a tick writes. -/
def progressRows (result : TickResult) : ScrumCollections where
  memberBusinessDateConsumption := result.consumption
  workItems := result.workItems
  statusVisits := result.visits
  statusVisitSamples := result.samples

structure Assembled (slice : TickSliceCommit) (advance : RiskAdvance p)
    (command : AuthoritativeTickSliceCommit p) : Prop where
  progress : (progressRows advance.result).Consistent p
  slice_eq : command.liveSlice = slice
  state_eq : command.state.toScrumCollections =
    advance.risks.state.updateWith (progressRows advance.result)
  claims_eq : command.counterClaims = advance.risks.counterClaims ++ advance.result.claims
  natural_eq : command.naturalDecisionClaims = advance.risks.naturalDecisionClaims
  valid : command.validate = .ok ()

theorem progressWriteSet_eq_ok {result : TickResult} {w : ScrumStateWriteSet p} :
    progressWriteSet result = .ok w ↔ w.toScrumCollections = progressRows result :=
  ScrumStateWriteSet.create_eq_ok

theorem assembleTick_eq_ok {slice : TickSliceCommit} {advance : RiskAdvance p}
    {command : AuthoritativeTickSliceCommit p} (h : assembleTick slice advance = .ok command) :
    Assembled slice advance command := by
  simp only [assembleTick, mergeWriteSets, AuthoritativeTickSliceCommit.create, bind_eq_ok,
    progressWriteSet_eq_ok, ScrumStateWriteSet.create_eq_ok, validated_eq_ok] at h
  obtain ⟨progress, hprogress, merged, hmerged, hvalid, rfl⟩ := h
  exact ⟨hprogress ▸ progress.consistent, rfl, by rw [hmerged, hprogress], rfl, rfl, hvalid⟩

/-- The rows after a tick are its working rows updated with its progress. -/
theorem progressRows_updateWith {state : LiveTeamState p} {slice : TickSliceCommit}
    {advance : RiskAdvance p} {command : AuthoritativeTickSliceCommit p}
    (hworking : state.withWriteSet advance.risks.state = .ok advance.state)
    (h : Assembled slice advance command) :
    state.scrum.updateWith command.state.toScrumCollections =
      advance.state.scrum.updateWith (progressRows advance.result) := by
  rw [(LiveTeamState.withWriteSet_eq_ok.mp hworking).2,
    updateWith_updateWith _ advance.risks.state.consistent, h.state_eq]

/-! ### Kinds of commands -/

/-- What every command promises about the runtime. -/
structure RuntimeKept (state : LiveTeamState p) (command : AuthoritativeTickSliceCommit p) : Prop
    where
  state_eq : command.liveSlice.runtimeAfter.state = state.aggregate.runtime.state
  cursor_le : cursor state ≤ command.liveSlice.runtimeAfter.simulationTime

/-- The command of an event. -/
inductive CommandOf (state : LiveTeamState p) (event : TeamEvent)
    (command : AuthoritativeTickSliceCommit p) : Prop
  | tick (request : TickRequest) (draws : DrawSource) (advance : RiskAdvance p)
      (hevent : event = .tick request draws)
      (hquiet : ∃ transition, crossSprintBoundary state (cursor state) = .ok transition ∧
        transition.activity = [])
      (hadvance : tickAdvance state request draws = .ok advance)
      (hslice : tickSlice request advance = .ok command.liveSlice)
      (htime : command.liveSlice.runtimeAfter.simulationTime = advance.result.endsAt)
      (hassembled : Assembled command.liveSlice advance command)
  | boundary (instant : ℤ) (transition : SprintTransition p) (hcursor : cursor state ≤ instant)
      (hstep : BoundaryStep state instant transition)
      (htime : command.liveSlice.runtimeAfter.simulationTime = cursor state)
      (hstate : command.state = transition.state)
      (hclaims : command.counterClaims = transition.counterClaims)
      (hactivity : command.liveSlice.activity = transition.activity)
      (hprojection : command.liveSlice.projectionIntents = transition.projectionIntents)
      (hgroundTruth : command.liveSlice.groundTruth = transition.groundTruth)
      (hdue : (instant = cursor state ∧ transition.activity ≠ []) ∨
        ∃ asOf, event = .lifecycleBoundary asOf ∧ nextBoundary state asOf = some instant)
  | downtime (hstate : command.state.toScrumCollections = {})
      (hclaims : command.counterClaims = [])
      (hprojection : command.liveSlice.projectionIntents = [])
      (hgroundTruth : ∀ draft ∈ command.liveSlice.groundTruth,
        ∃ startsAt endsAt, draft.payload = .downtime startsAt endsAt)
      (htime : command.liveSlice.runtimeAfter.simulationTime = cursor state ∨
        nextBoundary state command.liveSlice.runtimeAfter.simulationTime = none)
      (hactivity : ∀ draft ∈ command.liveSlice.activity, draft.eventType = .DOWNTIME_SKIPPED)
      (hevent : ∀ request draws, event ≠ .tick request draws)

/-- The runtime after a tick stands at its end. -/
theorem tickSlice_runtimeAfter {request : TickRequest} {advance : RiskAdvance p}
    {slice : TickSliceCommit} (h : tickSlice request advance = .ok slice) :
    slice.runtimeAfter.state = advance.state.aggregate.runtime.state ∧
      slice.runtimeAfter.simulationTime = advance.result.endsAt := by
  simp only [tickSlice, liveSlice, withRiskLedgers, bind_eq_ok, validated_eq_ok] at h
  obtain ⟨live, ⟨drafts, -, -, rfl⟩, -, rfl⟩ := h
  exact ⟨rfl, rfl⟩

theorem calculateScrumTick_eq_ok {state : LiveTeamState p} {request : TickRequest}
    {draws : DrawSource} {command : AuthoritativeTickSliceCommit p}
    (h : calculateScrumTick state request draws = .ok command) :
    RuntimeKept state command ∧ CommandOf state (.tick request draws) command := by
  simp only [calculateScrumTick, bind_eq_ok, exists_unit] at h
  obtain ⟨-, transition, hcross, h⟩ := h
  by_cases hactivity : transition.activity ≠ []
  · rw [if_pos hactivity] at h
    simp only [lifecycleCommit, AuthoritativeTickSliceCommit.create, bind_eq_ok,
      validated_eq_ok] at h
    obtain ⟨slice, ⟨-, rfl⟩, -, rfl⟩ := h
    exact ⟨⟨rfl, le_rfl⟩, .boundary _ transition le_rfl (crossSprintBoundary_eq_ok hcross) rfl rfl
      rfl rfl rfl rfl (.inl ⟨rfl, hactivity⟩)⟩
  · rw [if_neg hactivity, bind_eq_ok] at h
    obtain ⟨advance, hadvance, h⟩ := h
    simp only [finalizeTick, bind_eq_ok] at h
    obtain ⟨slice, hslice, hassemble⟩ := h
    have hassembled := assembleTick_eq_ok hassemble
    have hsame := hassembled.slice_eq
    subst hsame
    obtain ⟨outcome, finished, hrun⟩ := tickAdvance_eq_ok hadvance
    have hworking := (LiveTeamState.withWriteSet_eq_ok.mp hrun.working).1
    have hafter := tickSlice_runtimeAfter hslice
    refine ⟨⟨?_, ?_⟩, .tick request draws advance rfl ⟨transition, hcross, not_not.mp hactivity⟩
      hadvance hslice hafter.2 hassembled⟩
    · rw [hafter.1, hworking]
    · rw [hafter.2]
      exact hrun.cursor_le

theorem downtimeCommand_eq_ok {state : LiveTeamState p} {runtimeAfter : RuntimeAdvance}
    {recordedAt : ℤ} {activity : List ActivityEventDraft}
    {groundTruth : List GroundTruthRecordDraft} {command : AuthoritativeTickSliceCommit p}
    (h : downtimeCommand state runtimeAfter recordedAt activity groundTruth = .ok command)
    (hgroundTruth : ∀ draft ∈ groundTruth,
      ∃ startsAt endsAt, draft.payload = .downtime startsAt endsAt)
    (htime : runtimeAfter.simulationTime = cursor state ∨
      nextBoundary state runtimeAfter.simulationTime = none)
    (hactivity : ∀ draft ∈ activity, draft.eventType = .DOWNTIME_SKIPPED) (event : TeamEvent)
    (hevent : ∀ request draws, event ≠ .tick request draws) :
    command.liveSlice.runtimeAfter = runtimeAfter ∧ CommandOf state event command := by
  simp only [downtimeCommand, AuthoritativeTickSliceCommit.create, bind_eq_ok, validated_eq_ok] at h
  obtain ⟨slice, ⟨-, rfl⟩, -, rfl⟩ := h
  exact ⟨rfl, .downtime rfl rfl rfl hgroundTruth htime hactivity hevent⟩

theorem nextBoundary_le {state : LiveTeamState p} {asOf boundary : ℤ}
    (h : nextBoundary state asOf = some boundary) : cursor state ≤ boundary := by
  have hmem := List.min?_mem h
  simp only [List.mem_filter, Bool.and_eq_true, decide_eq_true_eq] at hmem
  exact hmem.2.1

theorem commandFor_eq_ok {state : LiveTeamState p} {event : TeamEvent}
    {command : AuthoritativeTickSliceCommit p} (h : commandFor state event = .ok (some command)) :
    RuntimeKept state command ∧ CommandOf state event command := by
  cases event with
  | tick request draws =>
    simp only [commandFor, map_eq_ok, Option.some.injEq] at h
    obtain ⟨command', hcommand, rfl⟩ := h
    exact calculateScrumTick_eq_ok hcommand
  | downtimeEvidence asOf =>
    simp only [commandFor] at h
    split_ifs at h with hlt
    · simp only [map_eq_ok, Option.some.injEq] at h
      obtain ⟨command', hcommand, rfl⟩ := h
      obtain ⟨hafter, hof⟩ := downtimeCommand_eq_ok hcommand (by simp [downtimeGroundTruth])
        (.inl rfl) (List.forall_mem_singleton.mpr rfl) (.downtimeEvidence asOf) (by simp)
      exact ⟨⟨by rw [hafter], by rw [hafter]; exact le_rfl⟩, hof⟩
    · cases h
  | lifecycleBoundary asOf =>
    simp only [commandFor] at h
    cases hnext : nextBoundary state asOf with
    | none => simp [hnext] at h
    | some boundary =>
      simp only [hnext] at h
      split_ifs at h with hlt
      · simp only [map_eq_ok, Option.some.injEq, lifecycleBoundaryCommand,
          AuthoritativeTickSliceCommit.create, bind_eq_ok, validated_eq_ok] at h
        obtain ⟨command', ⟨transition, hcross, slice, ⟨-, rfl⟩, -, rfl⟩, rfl⟩ := h
        exact ⟨⟨rfl, le_rfl⟩, .boundary boundary transition (nextBoundary_le hnext)
          (crossSprintBoundary_eq_ok hcross) rfl rfl rfl rfl rfl rfl (.inr ⟨asOf, rfl, hnext⟩)⟩
      · cases h
  | skipDowntime asOf =>
    simp only [commandFor] at h
    split_ifs at h with hskip
    · simp only [map_eq_ok, Option.some.injEq] at h
      obtain ⟨command', hcommand, rfl⟩ := h
      obtain ⟨hafter, hof⟩ := downtimeCommand_eq_ok hcommand (by simp) (.inr hskip.2) (by simp)
        (.skipDowntime asOf) (by simp)
      exact ⟨⟨by rw [hafter], by rw [hafter]; exact hskip.1.le⟩, hof⟩
    · cases h
  | bootstrap startedAt => simp [commandFor] at h

/-! ### Transactions -/

/-- A transaction that commits the command of its event, if it has one. -/
theorem commitCommand_eq_ok {store store' : TeamStore p} {event : TeamEvent}
    (hloaded : store.Loaded)
    (h : (do
      let state ← store.load
      match ← commandFor state event with
      | none => return store
      | some command => commitAuthoritativeSlice store command) = .ok store') :
    store' = store ∨ ∃ command, commandFor store.state event = .ok (some command) ∧
      commitAuthoritativeSlice store command = .ok store' := by
  simp only [hloaded.load, ok_bind, bind_eq_ok] at h
  obtain ⟨command, hcommand, h⟩ := h
  cases command with
  | none =>
    rw [pure_eq_ok] at h
    exact .inl h.symm
  | some command => exact .inr ⟨command, hcommand, h⟩

/-- The cases of a transaction on a loaded store. -/
theorem stepTeam_eq_ok {store store' : TeamStore p} {event : TeamEvent} (hloaded : store.Loaded)
    (h : stepTeam store event = .ok store') :
    (∃ startedAt, event = .bootstrap startedAt ∧
      ensureBootstrapped store startedAt = .ok store') ∨ store' = store ∨
    ∃ command, RuntimeKept store.state command ∧ CommandOf store.state event command ∧
      Committed store command store' := by
  have hcommit : ∀ event, (store' = store ∨ ∃ command,
      commandFor store.state event = .ok (some command) ∧
        commitAuthoritativeSlice store command = .ok store') →
      store' = store ∨ ∃ command, RuntimeKept store.state command ∧
        CommandOf store.state event command ∧ Committed store command store' := by
    rintro event (hsame | ⟨command, hcommand, h⟩)
    · exact .inl hsame
    · obtain ⟨hkept, hof⟩ := commandFor_eq_ok hcommand
      exact .inr ⟨command, hkept, hof, commit_eq_ok h⟩
  cases event with
  | bootstrap startedAt => exact .inl ⟨startedAt, rfl, h⟩
  | tick request draws => exact .inr (hcommit _ (commitCommand_eq_ok hloaded h))
  | downtimeEvidence asOf => exact .inr (hcommit _ (commitCommand_eq_ok hloaded h))
  | lifecycleBoundary asOf => exact .inr (hcommit _ (commitCommand_eq_ok hloaded h))
  | skipDowntime asOf => exact .inr (hcommit _ (commitCommand_eq_ok hloaded h))

end JiraSimulator
