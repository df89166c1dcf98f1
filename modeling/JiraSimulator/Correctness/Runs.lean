import JiraSimulator.Correctness.Bootstrap

/-!
# Runs of a team

The rule for invariants of the runs of a team, and the facts that every later one rests on.

* `run_induction`: an invariant holds after the bootstrap, and provisioning and commits keep it.
* `Based.of_reachable`: a reachable store is loaded, running and belongs to its blueprint.
* `stepTeam_command`: a transaction commits the command of its event, or leaves the rows alone.
* `TickAdvances.rules_induction`: the rule for the risk evaluation of a tick.
-/

namespace JiraSimulator

open Library Library.Outcome Library.Transition ScrumCollections

variable {p : Platform}

/-! ### The facts of every run -/

/-- The store is loaded, and its runtime row is the one of its team. -/
structure Based (store : TeamStore p) : Prop where
  loaded : store.Loaded
  running : store.aggregate.runtime.state = "RUNNING"
  team : store.aggregate.team.id = .team store.aggregate.blueprint.sha256
  runtimeTeam : store.aggregate.runtime.teamId = store.aggregate.team.id

theorem advanceRuntime_eq_ok {runtime runtime' : TeamRuntime} {slice : TickSliceCommit}
    (h : advanceRuntime runtime slice = .ok runtime') :
    runtime.teamId = slice.teamId ∧ runtime.runId = slice.runId ∧ runtime' = { runtime with
      version := runtime.version + 1
      state := slice.runtimeAfter.state
      simulationTime := slice.runtimeAfter.simulationTime
      nextWakeAt := slice.runtimeAfter.nextWakeAt
      updatedAt := slice.recordedAt } := by
  unfold advanceRuntime at h
  split_ifs at h with hsame
  obtain ⟨hteam, hrun, hversion⟩ := hsame
  cases h
  exact ⟨hteam, hrun, by rw [hversion]⟩

theorem Committed.runtime_eq {store store' : TeamStore p}
    {command : AuthoritativeTickSliceCommit p} (h : Committed store command store') :
    store'.aggregate.runtime.teamId = store.aggregate.runtime.teamId ∧
      store'.aggregate.runtime.runId = store.aggregate.runtime.runId ∧
      store'.aggregate.runtime.version = store.aggregate.runtime.version + 1 ∧
      store'.aggregate.runtime.state = command.liveSlice.runtimeAfter.state ∧
      store'.aggregate.runtime.simulationTime = command.liveSlice.runtimeAfter.simulationTime := by
  obtain ⟨-, -, hruntime⟩ := advanceRuntime_eq_ok h.runtime
  rw [hruntime]
  exact ⟨rfl, rfl, rfl, rfl, rfl⟩

theorem Committed.blueprint_eq {store store' : TeamStore p}
    {command : AuthoritativeTickSliceCommit p} (h : Committed store command store') :
    store'.aggregate.blueprint = store.aggregate.blueprint := by
  rw [h.aggregate]

theorem Committed.team_eq {store store' : TeamStore p}
    {command : AuthoritativeTickSliceCommit p} (h : Committed store command store') :
    store'.aggregate.team = store.aggregate.team := by
  rw [h.aggregate]

/-- A later bootstrap call appends the provisioning of the present state. -/
structure Provisioned (store store' : TeamStore p) : Prop where
  appended : ∃ provisioning, composeJiraProvisioning store.state = .ok provisioning ∧
    appendDrafts (·.semanticKey) store.projection provisioning.projectionIntents =
      .ok store'.projection
  same : store' = { store with projection := store'.projection }

theorem provision_eq_ok {store store' : TeamStore p} {startedAt : ℤ} (hbased : Based store)
    (h : ensureBootstrapped store startedAt = .ok store') : Provisioned store store' := by
  simp only [ensureBootstrapped, hbased.loaded.load, ok_bind] at h
  have hrunning : store.state.aggregate.runtime.state ≠ "CREATED" := by
    rw [show store.state.aggregate.runtime.state = "RUNNING" from hbased.running]
    decide
  rw [if_pos hrunning, bind_eq_ok] at h
  obtain ⟨provisioning, hprovisioning, h⟩ := h
  simp only [appendProjectionIntents, bind_eq_ok, exists_unit, pure_eq_ok] at h
  obtain ⟨-, -, projection, hprojection, rfl⟩ := h
  exact ⟨⟨provisioning, hprovisioning, hprojection⟩, rfl⟩

theorem Bootstrapped.based {start : TeamStart} {draws : DrawSource}
    {context : BootstrapContext} {picked : List Uuid} {initial : ScrumStateWriteSet p}
    {store : TeamStore p} (h : Bootstrapped start draws context picked initial store) :
    Based store := by
  refine ⟨h.loaded, ?_, ?_, ?_⟩ <;> rw [h.aggregate] <;> rfl

theorem Provisioned.based {store store' : TeamStore p} (h : Provisioned store store')
    (hbased : Based store) : Based store' := by
  rw [h.same]
  exact ⟨hbased.loaded, hbased.running, hbased.team, hbased.runtimeTeam⟩

theorem Committed.based {store store' : TeamStore p} {command : AuthoritativeTickSliceCommit p}
    (h : Committed store command store') (hkept : RuntimeKept store.state command)
    (hbased : Based store) : Based store' := by
  obtain ⟨hteam, -, -, hstate, -⟩ := h.runtime_eq
  refine ⟨h.loaded, ?_, ?_, ?_⟩
  · rw [hstate, hkept.state_eq]
    exact hbased.running
  · rw [h.team_eq, h.blueprint_eq]
    exact hbased.team
  · rw [hteam, h.team_eq]
    exact hbased.runtimeTeam

theorem Based.of_reachable {store : TeamStore p} (h : (teamRuns p).Reachable store) :
    Based store := by
  refine h.invariant ?_ ?_
  · intro start store hstart
    obtain ⟨draws, context, picked, initial, hboot⟩ := bootstrap_eq_ok hstart
    exact hboot.based
  · intro store event store' _ hbased hstep
    rcases stepTeam_eq_ok hbased.loaded hstep with ⟨startedAt, -, hprovision⟩ | rfl |
      ⟨command, hkept, -, hcommitted⟩
    · exact (provision_eq_ok hbased hprovision).based hbased
    · exact hbased
    · exact hcommitted.based hkept hbased

/-- A transaction on a based store commits the command of its event, or changes at most the intents.
-/
theorem stepTeam_command {store store' : TeamStore p} {event : TeamEvent} (hbased : Based store)
    (h : stepTeam store event = .ok store') :
    store' = { store with projection := store'.projection } ∨
    ∃ command, commandFor store.state event = .ok (some command) ∧
      commitAuthoritativeSlice store command = .ok store' := by
  -- only the first bootstrap commits nothing
  have hcommit : ∀ event, (store' = store ∨ ∃ command,
      commandFor store.state event = .ok (some command) ∧
        commitAuthoritativeSlice store command = .ok store') →
      store' = { store with projection := store'.projection } ∨
      ∃ command, commandFor store.state event = .ok (some command) ∧
        commitAuthoritativeSlice store command = .ok store' := by
    rintro event (hsame | hcommand)
    · subst hsame
      exact .inl rfl
    · exact .inr hcommand
  cases event with
  | bootstrap startedAt => exact .inl (provision_eq_ok hbased h).same
  | tick request draws => exact hcommit _ (commitCommand_eq_ok hbased.loaded h)
  | downtimeEvidence asOf => exact hcommit _ (commitCommand_eq_ok hbased.loaded h)
  | lifecycleBoundary asOf => exact hcommit _ (commitCommand_eq_ok hbased.loaded h)
  | skipDowntime asOf => exact hcommit _ (commitCommand_eq_ok hbased.loaded h)

/-! ### Ticks -/

/-- A tick that crosses no sprint boundary and commits its advance. -/
structure ProgressTick (store : TeamStore p) (request : TickRequest) (draws : DrawSource)
    (advance : RiskAdvance p) (store' : TeamStore p) : Prop where
  quiet : ∃ transition, crossSprintBoundary store.state (cursor store.state) = .ok transition ∧
    transition.activity = []
  advance_eq : tickAdvance store.state request draws = .ok advance
  step : (teamRuns p).step store (.tick request draws) store'

theorem ProgressTick.committed {store store' : TeamStore p} {request : TickRequest}
    {draws : DrawSource} {advance : RiskAdvance p}
    (h : ProgressTick store request draws advance store') (hbased : Based store) :
    ∃ command, Committed store command store' ∧
      tickSlice request advance = .ok command.liveSlice ∧
      Assembled command.liveSlice advance command := by
  obtain ⟨⟨transition, hcross, hactivity⟩, hadvance, hstep⟩ := h
  simp only [teamRuns, stepTeam, hbased.loaded.load, ok_bind, commandFor, calculateScrumTick, hcross,
    hadvance, finalizeTick, bind_eq_ok, map_eq_ok] at hstep
  obtain ⟨command?, ⟨command, ⟨-, -, hcommand⟩, rfl⟩, hcommit⟩ := hstep
  rw [if_neg (by simp [hactivity]), bind_eq_ok] at hcommand
  obtain ⟨slice, hslice, hassemble⟩ := hcommand
  have hassembled := assembleTick_eq_ok hassemble
  have hsame := hassembled.slice_eq
  subst hsame
  exact ⟨command, commit_eq_ok hcommit, hslice, hassembled⟩

/-- A tick that crosses no sprint boundary advances the state. -/
inductive TickAdvances (state : LiveTeamState p) (event : TeamEvent) (draws : DrawSource)
    (advance : RiskAdvance p) : Prop
  | intro (request : TickRequest) (hevent : event = .tick request draws)
      (hquiet : ∃ transition, crossSprintBoundary state (cursor state) = .ok transition ∧
        transition.activity = [])
      (hadvance : tickAdvance state request draws = .ok advance)

/-- A tick advances the state, and a rule of the blueprint is applied in this context: to the
working state that the rules before it leave. -/
inductive Evaluates (state : LiveTeamState p) (event : TeamEvent) (context : RiskContext p) : Prop
  | intro (advance : RiskAdvance p) (before after : List RiskRule) (records : RiskRecords p)
      (hadvances : TickAdvances state event context.draws advance)
      (hasOf : context.asOf = advance.result.endsAt)
      (hrules : state.aggregate.blueprint.risks.rules = before ++ context.rule :: after)
      (hbefore : applyRules context.asOf context.draws { working := state, records := {} } before =
        .ok { working := context.state, records })

theorem TickAdvances.tickRun {state : LiveTeamState p} {event : TeamEvent} {draws : DrawSource}
    {advance : RiskAdvance p} (h : TickAdvances state event draws advance) :
    ∃ outcome finish, TickRun state draws advance outcome finish := by
  obtain ⟨request, -, -, hadvance⟩ := h
  exact tickAdvance_eq_ok hadvance

/-- The rule for the risk evaluation of a tick that advances. -/
theorem TickAdvances.rules_induction {state : LiveTeamState p} {event : TeamEvent}
    {draws : DrawSource} {advance : RiskAdvance p} (hadvances : TickAdvances state event draws advance)
    {motive : RiskProgress p → Prop} {progress : RiskProgress p}
    (h : applyRules advance.result.endsAt draws { working := state, records := {} }
      state.aggregate.blueprint.risks.rules = .ok progress)
    (init : motive { working := state, records := {} })
    (step : ∀ rule t t', rule ∈ state.aggregate.blueprint.risks.rules →
      Evaluates state event { state := t.working, asOf := advance.result.endsAt, draws, rule } →
      motive t → applyRule advance.result.endsAt draws t rule = .ok t' → motive t') :
    motive progress := by
  refine foldlM_prefix_induction h init ?_
  intro before rule after t t' hrules hbefore ht hstep
  have hmem : rule ∈ state.aggregate.blueprint.risks.rules :=
    hrules ▸ List.mem_append_right _ List.mem_cons_self
  exact step rule t t' hmem (.intro advance before after t.records hadvances rfl hrules hbefore) ht
    hstep

/-- When one rule is evaluated, it is applied to the state of the tick. -/
theorem Evaluates.of_singleton {state : LiveTeamState p} {event : TeamEvent}
    {context : RiskContext p} (h : Evaluates state event context) {rule : RiskRule}
    (hrule : state.aggregate.blueprint.risks.rules = [rule]) :
    context.rule = rule ∧ context.state = state := by
  obtain ⟨advance, before, after, records, -, -, hrules, hbefore⟩ := h
  rw [hrule] at hrules
  cases before with
  | nil =>
    obtain ⟨rfl, -⟩ := List.cons.inj hrules
    cases hbefore
    exact ⟨rfl, rfl⟩
  | cons first rest =>
    obtain ⟨-, hrest⟩ := List.cons.inj hrules
    simp at hrest

/-! ### Invariants of runs -/

/-- The rule for an invariant of the runs of a team. -/
theorem run_induction {I : TeamStore p → Prop} {okStart : TeamStart → Prop}
    {okStep : TeamStore p → TeamEvent → Prop} {store : TeamStore p}
    (h : (teamRuns p).ReachableBy okStart okStep store)
    (start : ∀ start draws context picked initial store, okStart start →
      Bootstrapped start draws context picked initial store → I store)
    (provision : ∀ store store', (teamRuns p).Reachable store → I store →
      Provisioned store store' → I store')
    (commit : ∀ store event command store', (teamRuns p).Reachable store → I store →
      okStep store event → RuntimeKept store.state command →
      CommandOf store.state event command → Committed store command store' → I store') :
    I store := by
  refine h.invariant ?_ ?_
  · intro i s hstart hok
    obtain ⟨draws, context, picked, initial, hboot⟩ := bootstrap_eq_ok hstart
    exact start i draws context picked initial s hok hboot
  · intro s event s' hreach hI hok hstep
    have hbased := Based.of_reachable hreach
    -- a step provisions the team, does nothing, or commits a command
    rcases stepTeam_eq_ok hbased.loaded hstep with ⟨startedAt, -, hprovision⟩ | rfl |
      ⟨command, hkept, hof, hcommitted⟩
    · exact provision s s' hreach hI (provision_eq_ok hbased hprovision)
    · exact hI
    · exact commit s event command s' hreach hI hok hkept hof hcommitted

/-- The rule for an invariant of the rows and the runtime, which provisioning leaves alone. -/
theorem rows_induction {I : PersistedTeamAggregate → ScrumStateSnapshot p → Prop}
    {store : TeamStore p} (h : (teamRuns p).Reachable store)
    (start : ∀ start draws context picked initial store,
      Bootstrapped start draws context picked initial store → I store.aggregate store.scrum)
    (commit : ∀ store event command store', (teamRuns p).Reachable store →
      I store.aggregate store.scrum → RuntimeKept store.state command →
      CommandOf store.state event command → Committed store command store' →
      I store'.aggregate store'.scrum) : I store.aggregate store.scrum := by
  refine run_induction (I := fun store => I store.aggregate store.scrum) h ?_ ?_ ?_
  · intro i draws context picked initial s _ hboot
    exact start i draws context picked initial s hboot
  · intro s s' _ hI hprovision
    rw [hprovision.same]
    exact hI
  · intro s event command s' hreach hI _ hkept hof hcommitted
    exact commit s event command s' hreach hI hkept hof hcommitted

/-! ### The rows after a commit -/

section rows

variable {store store' : TeamStore p} {command : AuthoritativeTickSliceCommit p}
  {α κ : Type} [DecidableEq κ] (col : Collection α κ) {a : α}

/-- The rows after a tick: its progress, and the working rows that it leaves alone. -/
theorem Committed.mem_tick {advance : RiskAdvance p} (h : Committed store command store')
    (hworking : store.state.withWriteSet advance.risks.state = .ok advance.state)
    (hassembled : Assembled command.liveSlice advance command) (hcol : AfterImage col) :
    a ∈ col.rows store'.scrum.toScrumCollections ↔
      a ∈ col.rows (progressRows advance.result) ∨
        (a ∈ col.rows advance.state.scrum.toScrumCollections ∧
          col.key a ∉ (col.rows (progressRows advance.result)).map col.key) := by
  have hrows : store.scrum.updateWith command.state.toScrumCollections =
      advance.state.scrum.updateWith (progressRows advance.result) :=
    progressRows_updateWith hworking hassembled
  rw [h.rows col hcol, hrows,
    col.mem_updateWith advance.state.scrum.complete.toConsistent hassembled.progress]

/-- The rows after a command: its write set, and the rows that it leaves alone. -/
theorem Committed.mem_rows (h : Committed store command store') (hcol : AfterImage col) :
    a ∈ col.rows store'.scrum.toScrumCollections ↔
      a ∈ col.rows command.state.toScrumCollections ∨
        (a ∈ col.rows store.scrum.toScrumCollections ∧
          col.key a ∉ (col.rows command.state.toScrumCollections).map col.key) := by
  rw [h.rows col hcol, col.mem_updateWith store.scrum.complete.toConsistent
    command.state.consistent]

/-- No identity of a row is lost by a commit. -/
theorem Committed.mem_keys (h : Committed store command store') (hcol : AfterImage col)
    (ha : a ∈ col.rows store.scrum.toScrumCollections) :
    ∃ a' ∈ col.rows store'.scrum.toScrumCollections, col.key a' = col.key a := by
  by_cases hkey : col.key a ∈ (col.rows command.state.toScrumCollections).map col.key
  · obtain ⟨a', ha', hsame⟩ := List.mem_map.mp hkey
    exact ⟨a', (h.mem_rows col hcol).mpr (.inl ha'), hsame⟩
  · exact ⟨a, (h.mem_rows col hcol).mpr (.inr ⟨ha, hkey⟩), rfl⟩

theorem Committed.mem_of_empty (h : Committed store command store') (hcol : AfterImage col)
    (hempty : command.state.toScrumCollections = {}) :
    a ∈ col.rows store'.scrum.toScrumCollections ↔ a ∈ col.rows store.scrum.toScrumCollections := by
  rw [h.rows col hcol, hempty, col.rows_updateWith_empty store.scrum.complete.toConsistent]

end rows

end JiraSimulator
