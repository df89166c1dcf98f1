import JiraSimulator.Application.Callers
import JiraSimulator.Correctness.CommitAttempts

/-!
# Interleavings of callers

A command carries the version of the state that it was computed from, and a commit succeeds only at
that version, which it advances.  So between the load of a caller and its commit nobody else
committed, and the interleaving has the effect of its successful callers one after another, each
alone.
* `Caller.HeldBy`: the state that a caller holds is the present one, or its version is stale.
* `Serial`: the commits so far, run one after another, make the store.
* `interleavings_serialize`: every interleaving of callers is serial, and a failed or stale commit
  leaves everything as it was.
-/

namespace JiraSimulator

open Library Library.Outcome Library.Transition

variable {p : Platform}

/-! ### Versions of commands -/

/-- The version of the runtime row. -/
abbrev TeamStore.version (store : TeamStore p) : ℕ :=
  store.aggregate.runtime.version

/-- A command expects the version of the state that it was computed from. -/
theorem CallerTask.command_version {state : LiveTeamState p} {task : CallerTask}
    {command : AuthoritativeTickSliceCommit p} (h : task.command state = .ok command) :
    command.liveSlice.expectedRuntimeVersion = state.aggregate.runtime.version := by
  cases task with
  | tick request draws =>
    simp only [CallerTask.command, calculateScrumTick, bind_eq_ok, exists_unit] at h
    obtain ⟨-, transition, -, h⟩ := h
    split_ifs at h with hactivity
    · simp only [lifecycleCommit, AuthoritativeTickSliceCommit.create, bind_eq_ok,
        validated_eq_ok] at h
      obtain ⟨slice, ⟨-, rfl⟩, -, rfl⟩ := h
      rfl
    · simp only [bind_eq_ok, finalizeTick] at h
      obtain ⟨advance, hadvance, slice, hslice, hassemble⟩ := h
      obtain ⟨outcome, finish, hrun⟩ := tickAdvance_eq_ok hadvance
      have haggregate := (LiveTeamState.withWriteSet_eq_ok.mp hrun.working).1
      simp only [tickSlice, liveSlice, withRiskLedgers, bind_eq_ok, validated_eq_ok] at hslice
      obtain ⟨live, ⟨drafts, -, -, rfl⟩, -, rfl⟩ := hslice
      rw [(assembleTick_eq_ok hassemble).slice_eq, ← haggregate]
  | downtimeEvidence asOf =>
    simp only [CallerTask.command, downtimeEvidenceCommand, downtimeCommand,
      AuthoritativeTickSliceCommit.create, bind_eq_ok, validated_eq_ok] at h
    obtain ⟨slice, ⟨-, rfl⟩, -, rfl⟩ := h
    rfl
  | lifecycleBoundary boundary recordedAt =>
    simp only [CallerTask.command, lifecycleBoundaryCommand,
      AuthoritativeTickSliceCommit.create, bind_eq_ok, validated_eq_ok] at h
    obtain ⟨transition, -, slice, ⟨-, rfl⟩, -, rfl⟩ := h
    rfl
  | skipDowntime asOf =>
    simp only [CallerTask.command, skipDowntimeCommand, downtimeCommand,
      AuthoritativeTickSliceCommit.create, bind_eq_ok, validated_eq_ok] at h
    obtain ⟨slice, ⟨-, rfl⟩, -, rfl⟩ := h
    rfl

/-- A commit succeeds only at the version that the command expects, and advances it. -/
theorem Committed.versions {store store' : TeamStore p} {command : AuthoritativeTickSliceCommit p}
    (h : Committed store command store') :
    command.liveSlice.expectedRuntimeVersion = store.version ∧
      store'.version = store.version + 1 := by
  refine ⟨?_, h.runtime_eq.2.2.1⟩
  have hruntime := h.runtime
  unfold advanceRuntime at hruntime
  split_ifs at hruntime with hguard
  exact hguard.2.2.symm

/-- A command of another version fails. -/
theorem commit_of_stale {store : TeamStore p} {command : AuthoritativeTickSliceCommit p}
    (h : command.liveSlice.expectedRuntimeVersion ≠ store.version) :
    ∃ error, commitAuthoritativeSlice store command = .error error := by
  cases hcommit : commitAuthoritativeSlice store command with
  | ok store' => exact absurd (commit_eq_ok hcommit).versions.1 h
  | error error => exact ⟨error, rfl⟩

/-! ### What callers hold -/

/-- The state was loaded from this store: it is the present one, or of an earlier version. -/
def Held (store : TeamStore p) (state : LiveTeamState p) : Prop :=
  state.aggregate.runtime.version ≤ store.version ∧
    (state.aggregate.runtime.version = store.version → state = store.state)

/-- What a caller holds goes back to a load of this store. -/
def Caller.HeldBy (store : TeamStore p) : Caller p → Prop
  | .idle => True
  | .loaded state => Held store state
  | .computed state task command => Held store state ∧ task.command state = .ok command

theorem held_state (store : TeamStore p) : Held store store.state :=
  ⟨le_rfl, fun _ => rfl⟩

/-- A commit makes every held state stale. -/
theorem Held.of_commit {store store' : TeamStore p} {state : LiveTeamState p}
    (h : Held store state) (hversion : store'.version = store.version + 1) : Held store' state := by
  obtain ⟨hle, -⟩ := h
  refine ⟨by omega, fun hsame => ?_⟩
  omega

theorem Caller.HeldBy.of_commit {store store' : TeamStore p} {caller : Caller p}
    (h : caller.HeldBy store) (hversion : store'.version = store.version + 1) :
    caller.HeldBy store' := by
  cases caller with
  | idle => trivial
  | loaded state => exact Held.of_commit h hversion
  | computed state task command => exact ⟨h.1.of_commit hversion, h.2⟩

/-- A caller that commits holds the present state. -/
theorem Held.eq_of_commit {store store' : TeamStore p} {state : LiveTeamState p}
    {task : CallerTask} {command : AuthoritativeTickSliceCommit p} (h : Held store state)
    (hcommand : task.command state = .ok command)
    (hcommit : commitAuthoritativeSlice store command = .ok store') : state = store.state := by
  refine h.2 ?_
  rw [← CallerTask.command_version hcommand]
  exact (commit_eq_ok hcommit).versions.1

/-! ### Serial runs -/

/-- The commits so far, one after another from the first store, make the present store. -/
structure Serial (first : TeamStore p) (system : CallerSystem p) : Prop where
  loaded : system.store.Loaded
  tasks : (system.log.map (·.task)).foldlM serialStep first = .ok system.store
  commands : (system.log.map (·.command)).foldlM commitAuthoritativeSlice first = .ok system.store
  versions : system.log.map (·.command.liveSlice.expectedRuntimeVersion) =
    List.range' first.version system.log.length
  version : system.store.version = first.version + system.log.length
  callers : ∀ index, (system.callers index).HeldBy system.store

/-- Only what one caller holds changes. -/
theorem Serial.withCaller {first : TeamStore p} {system : CallerSystem p} (h : Serial first system)
    (index : ℕ) {caller : Caller p} (hcaller : caller.HeldBy system.store) :
    Serial first (system.withCaller index caller) where
  loaded := h.loaded
  tasks := h.tasks
  commands := h.commands
  versions := h.versions
  version := h.version
  callers other := by
    show (Function.update system.callers index caller other).HeldBy system.store
    by_cases hsame : other = index
    · rw [hsame, Function.update_self]
      exact hcaller
    · rw [Function.update_of_ne hsame]
      exact h.callers other

/-- A commit of what a caller computed extends the serial run. -/
theorem Serial.commit {first store' : TeamStore p} {system : CallerSystem p}
    (h : Serial first system) {index : ℕ} {state : LiveTeamState p} {task : CallerTask}
    {command : AuthoritativeTickSliceCommit p}
    (hcaller : system.callers index = .computed state task command)
    (hcommit : commitAuthoritativeSlice system.store command = .ok store') :
    Serial first { system with store := store', log := system.log ++ [{ task, command }] } := by
  have hheld := h.callers index
  rw [hcaller] at hheld
  have hstate := hheld.1.eq_of_commit hheld.2 hcommit
  obtain ⟨hexpected, hnext⟩ := (commit_eq_ok hcommit).versions
  refine ⟨(commit_eq_ok hcommit).loaded, ?_, ?_, ?_, ?_, fun other => (h.callers other).of_commit hnext⟩
  · rw [List.map_append, List.foldlM_append, h.tasks, ok_bind]
    simp only [List.map_cons, List.map_nil, List.foldlM_cons, List.foldlM_nil, serialStep,
      h.loaded.load, ok_bind, ← hstate, hheld.2, hcommit]
    rfl
  · rw [List.map_append, List.foldlM_append, h.commands, ok_bind]
    simp only [List.map_cons, List.map_nil, List.foldlM_cons, List.foldlM_nil, hcommit, ok_bind]
    rfl
  · rw [List.map_append, h.versions, List.length_append, List.length_singleton, List.range'_concat]
    simp [hexpected, h.version]
  · show store'.version = _
    rw [hnext, h.version, List.length_append, List.length_singleton, Nat.add_assoc]

/-! ### Steps -/

/-- What a step of a caller does to the store and the log. -/
inductive CallerStep (system : CallerSystem p) (index : ℕ) (event : CallerEvent)
    (system' : CallerSystem p) : Prop
  | quiet (hstore : system'.store = system.store) (hlog : system'.log = system.log)
  | committed (hevent : event = .commit) (task : CallerTask)
      (command : AuthoritativeTickSliceCommit p)
      (hcaller : system.callers index = .computed system.store.state task command)
      (hcommit : commitAuthoritativeSlice system.store command = .ok system'.store)
      (hlog : system'.log = system.log ++ [Submission.mk task command])

/-- A commit that fails changes nothing. -/
theorem CallerSystem.commit_of_error {system : CallerSystem p} {index : ℕ}
    {state : LiveTeamState p} {task : CallerTask} {command : AuthoritativeTickSliceCommit p}
    {error : PyError} (hcaller : system.callers index = .computed state task command)
    (herror : commitAuthoritativeSlice system.store command = .error error) :
    system.commit index = system := by
  unfold CallerSystem.commit
  rw [hcaller]
  simp only [commitTransaction_of_error herror]

theorem CallerSystem.commit_of_ok {system : CallerSystem p} {index : ℕ} {state : LiveTeamState p}
    {task : CallerTask} {command : AuthoritativeTickSliceCommit p} {store' : TeamStore p}
    (hcaller : system.callers index = .computed state task command)
    (hcommit : commitAuthoritativeSlice system.store command = .ok store') :
    system.commit index =
      { system with store := store', log := system.log ++ [{ task, command }] } := by
  unfold CallerSystem.commit
  rw [hcaller]
  simp only [commitTransaction_of_ok hcommit]

/-- Every step keeps a system serial, and is quiet or the commit of the present state. -/
theorem Serial.next {first : TeamStore p} {system : CallerSystem p} (h : Serial first system)
    (index : ℕ) (event : CallerEvent) :
    Serial first (system.next index event) ∧
      CallerStep system index event (system.next index event) := by
  cases event with
  | load =>
    simp only [CallerSystem.next, CallerSystem.load, h.loaded.load]
    exact ⟨h.withCaller index (held_state system.store), .quiet rfl rfl⟩
  | compute task =>
    simp only [CallerSystem.next, CallerSystem.compute]
    have hheld := h.callers index
    cases hcaller : system.callers index with
    | idle => exact ⟨h, .quiet rfl rfl⟩
    | computed state task command => exact ⟨h, .quiet rfl rfl⟩
    | loaded state =>
      rw [hcaller] at hheld
      dsimp only
      cases hcommand : task.command state with
      | error error => exact ⟨h.withCaller index trivial, .quiet rfl rfl⟩
      | ok command => exact ⟨h.withCaller index ⟨hheld, hcommand⟩, .quiet rfl rfl⟩
  | commit =>
    show Serial first (system.commit index) ∧ CallerStep system index .commit (system.commit index)
    cases hcaller : system.callers index with
    | idle =>
      simp only [CallerSystem.commit, hcaller]
      exact ⟨h, .quiet rfl rfl⟩
    | loaded state =>
      simp only [CallerSystem.commit, hcaller]
      exact ⟨h, .quiet rfl rfl⟩
    | computed state task command =>
      cases hcommit : commitAuthoritativeSlice system.store command with
      | error error =>
        rw [CallerSystem.commit_of_error hcaller hcommit]
        exact ⟨h, .quiet rfl rfl⟩
      | ok store' =>
        have hheld := h.callers index
        rw [hcaller] at hheld
        -- the commit succeeds only if the store is the one that was loaded
        obtain rfl := hheld.1.eq_of_commit hheld.2 hcommit
        rw [CallerSystem.commit_of_ok hcaller hcommit]
        exact ⟨h.commit hcaller hcommit, .committed rfl task command hcaller hcommit rfl⟩
  | drop => exact ⟨h.withCaller index trivial, .quiet rfl rfl⟩

theorem serial_of_reachable {start : TeamStart} {system : CallerSystem p}
    (h : (callerRuns p).ReachableBy (· = start) (fun _ _ => True) system) :
    ∃ first, ensureBootstrapped (createdStore p start) start.startedAt = .ok first ∧
      Serial first system := by
  refine h.invariant (I := fun system => ∃ first,
    ensureBootstrapped (createdStore p start) start.startedAt = .ok first ∧ Serial first system)
    ?_ ?_
  · rintro team system ⟨hboot, hidle, hlog⟩ rfl
    obtain ⟨draws, context, picked, initial, hbootstrapped⟩ := bootstrap_eq_ok hboot
    refine ⟨system.store, hboot, hbootstrapped.loaded, ?_, ?_, ?_, ?_, fun index => ?_⟩
    · rw [hlog]
      rfl
    · rw [hlog]
      rfl
    · rw [hlog]
      rfl
    · rw [hlog]
      rfl
    · rw [hidle index]
      trivial
  · rintro system ⟨index, event⟩ _ - ⟨first, hboot, hserial⟩ - rfl
    exact ⟨first, hboot, (hserial.next index event).1⟩

/-- In every interleaving of callers the store is the result of the successful commits in the order
of the versions that they made, each computed from the state that it was applied to; the next step
of any caller commits in this way or changes no row, and a stale commit fails. -/
theorem interleavings_serialize {start : TeamStart} {system : CallerSystem p}
    (h : (callerRuns p).ReachableBy (· = start) (fun _ _ => True) system) :
    (∃ first, ensureBootstrapped (createdStore p start) start.startedAt = .ok first ∧
      Serial first system) ∧
    (∀ index event, CallerStep system index event (system.next index event)) ∧
    ∀ index state task command, system.callers index = .computed state task command →
      state.aggregate.runtime.version ≠ system.store.version →
        (∃ error, commitTransaction system.store command = (system.store, some error)) ∧
          system.next index .commit = system := by
  obtain ⟨first, hboot, hserial⟩ := serial_of_reachable h
  refine ⟨⟨first, hboot, hserial⟩, fun index event => (hserial.next index event).2, ?_⟩
  intro index state task command hcaller hstale
  have hheld := hserial.callers index
  rw [hcaller] at hheld
  rw [← CallerTask.command_version hheld.2] at hstale
  obtain ⟨error, herror⟩ := commit_of_stale hstale
  exact ⟨⟨error, commitTransaction_of_error herror⟩,
    CallerSystem.commit_of_error hcaller herror⟩

/-- The callers after a list of steps. -/
def playCallers (system : CallerSystem p) (events : List (ℕ × CallerEvent)) : CallerSystem p :=
  events.foldl (fun system event => system.next event.1 event.2) system

theorem reachableBy_playCallers {okStart : TeamStart → Prop} {system : CallerSystem p}
    (h : (callerRuns p).ReachableBy okStart (fun _ _ => True) system)
    (events : List (ℕ × CallerEvent)) :
    (callerRuns p).ReachableBy okStart (fun _ _ => True) (playCallers system events) := by
  induction events generalizing system with
  | nil => exact h
  | cons event events ih => exact ih (.step h trivial rfl)

/-- Two callers load the small team and compute its first tick; the second one to commit is stale.
-/
def racedCallers (first : TeamStore utcPlatform) : CallerSystem utcPlatform :=
  let task := CallerTask.tick (requestUntil rejectingBlueprint 1)
    (teamDraws utcPlatform rejectingBlueprint)
  playCallers { store := first, callers := fun _ => .idle, log := [] }
    [(0, .load), (1, .load), (0, .compute task), (1, .compute task), (0, .commit)]

def Caller.isStale (caller : Caller p) (store : TeamStore p) : Bool :=
  match caller with
  | .computed state _ _ => state.aggregate.runtime.version ≠ store.version
  | _ => false

theorem interleavings_serialize_race :
    ∃ first, ensureBootstrapped (createdStore utcPlatform (startAfter rejectingBlueprint 0))
        (startAfter rejectingBlueprint 0).startedAt = .ok first ∧
      (racedCallers first).log.length = 1 ∧
      (racedCallers first).store.version = first.version + 1 ∧
      (racedCallers first).next 1 .commit = racedCallers first := by
  have hplayed : (ensureBootstrapped (createdStore utcPlatform (startAfter rejectingBlueprint 0))
      (startAfter rejectingBlueprint 0).startedAt).toOption.any (fun first =>
        (racedCallers first).log.length = 1 &&
          ((racedCallers first).callers 1).isStale (racedCallers first).store) = true := by
    decide +kernel
  obtain ⟨first, hboot, hplayed⟩ := exists_of_any hplayed
  simp only [Bool.and_eq_true, decide_eq_true_eq] at hplayed
  obtain ⟨hlength, hstale⟩ := hplayed
  have hstart : (callerRuns utcPlatform).ReachableBy (· = startAfter rejectingBlueprint 0)
      (fun _ _ => True) { store := first, callers := fun _ => .idle, log := [] } :=
    .start ⟨hboot, fun _ => rfl, rfl⟩ rfl
  have hreach : (callerRuns utcPlatform).ReachableBy (· = startAfter rejectingBlueprint 0)
      (fun _ _ => True) (racedCallers first) :=
    reachableBy_playCallers hstart _
  obtain ⟨⟨other, hother, hserial⟩, -, hfails⟩ := interleavings_serialize hreach
  rw [hboot, Except.ok.injEq] at hother
  subst hother
  refine ⟨first, hboot, hlength, hlength ▸ hserial.version, ?_⟩
  unfold Caller.isStale at hstale
  split at hstale
  · rename_i state task command hcaller
    exact (hfails 1 state task command hcaller (by simpa using hstale)).2
  · cases hstale

end JiraSimulator
