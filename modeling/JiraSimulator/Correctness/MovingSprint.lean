import JiraSimulator.Engine.Precompute

/-!
# A sprint that moves at every tick

A workflow without times, with one step for each tick of the schedule: the one issue of the sprint
enters the next step at every tick, so the stream has one event at each tick, whatever the random
source draws.

* `processItemTick_moving`: one tick of the issue.
* `precomputeSprint_moving`: the times of the events are the tick times.
-/

namespace JiraSimulator.Engine

open Library Library.Outcome

variable {library : StandardLibrary}

/-! ### The workflow -/

/-- A step without roles, in its place. -/
def stepAt (index : ℕ) : WorkflowStepSnapshot where
  id := index
  jiraStatus := ""
  order := index
  roleRequired := none
  rolesJson := none

/-- The steps of a workflow in order. -/
def stepsOf (length : ℕ) : List WorkflowStepSnapshot :=
  (List.range length).map stepAt

section steps

variable {length index : ℕ}

theorem findStepById_stepsOf (h : index < length) :
    findStepById (stepsOf length) (some (index : ℤ)) = some (stepAt index) := by
  unfold findStepById stepsOf
  rw [List.find?_map, Option.map_eq_some_iff]
  refine ⟨index, List.find?_range_eq_some.mpr ⟨?_, List.mem_range.mpr h, fun j hj => ?_⟩, rfl⟩
  · simp [stepAt]
  · simp only [Function.comp_apply, stepAt, Option.some.injEq, Nat.cast_inj, Bool.not_eq_true',
      decide_eq_false_iff_not]
    omega

/-- Among steps in order, the first one has the smallest order. -/
theorem minByOrder_of_sorted {steps : List WorkflowStepSnapshot}
    (h : steps.Pairwise fun a b => a.order < b.order) : minByOrder steps = steps.head? := by
  induction steps with
  | nil => rfl
  | cons step steps ih =>
    obtain ⟨hall, hsorted⟩ := List.pairwise_cons.mp h
    rw [minByOrder, ih hsorted]
    cases steps with
    | nil => rfl
    | cons next rest =>
      have hlt := hall next List.mem_cons_self
      show (if next.order < step.order then some next else some step) = some step
      rw [if_neg (by omega)]

theorem nextStep_stepsOf (h : index + 1 < length) :
    nextStep (stepsOf length) (stepAt index).order = some (stepAt (index + 1)) := by
  have hsorted : (stepsOf length).Pairwise fun a b => a.order < b.order := by
    refine List.pairwise_map.mpr (List.pairwise_lt_range.imp fun hlt => ?_)
    show ((_ : ℕ) : ℤ) < ((_ : ℕ) : ℤ)
    exact_mod_cast hlt
  unfold nextStep
  rw [minByOrder_of_sorted (hsorted.filter _), List.head?_filter, stepsOf, List.find?_map,
    Option.map_eq_some_iff]
  refine ⟨index + 1, List.find?_range_eq_some.mpr ⟨?_, List.mem_range.mpr h, fun j hj => ?_⟩, rfl⟩
  · simp [stepAt]
  · simp only [Function.comp_apply, stepAt, Nat.cast_lt, Bool.not_eq_true',
      decide_eq_false_iff_not]
    omega

theorem isFinalStep_stepsOf (h : index < length) :
    isFinalStep (stepsOf length) (stepAt index) = decide (index + 1 = length) := by
  have hany : (stepsOf length).any (fun s => s.order = (stepAt index).order) = true :=
    List.any_eq_true.mpr ⟨stepAt index, List.mem_map_of_mem (List.mem_range.mpr h), by simp⟩
  rw [isFinalStep, hany, Bool.true_and, Bool.eq_iff_iff, decide_eq_true_eq, List.all_eq_true]
  simp only [stepsOf, List.forall_mem_map, List.mem_range, decide_eq_true_eq, stepAt, Nat.cast_le]
  constructor
  · intro hall
    have := hall (length - 1) (by omega)
    omega
  · intro hlast j hj
    omega

end steps

/-! ### The issue -/

/-- The issue before the planning, which samples no times. -/
def movingIssue (sprintId : Option ℤ) (step : Option ℤ) : IssueSnapshot where
  id := 1
  issueType := "Story"
  storyPoints := none
  jiraIssueKey := none
  status := ""
  currentWorkflowStepId := step
  currentWorkerId := none
  sampledFullTime := 0
  sampledWorkTime := 0
  elapsedFullTime := 0
  elapsedWorkTime := 0
  workStarted := false
  completedAt := none
  sprintId := sprintId
  backlogPriority := none

/-- The sprint of this one issue in a workflow of some steps, with the schedule of another sprint.
-/
def movingSprint (input : SprintInput) (length : ℕ) : SprintInput where
  team := { input.team with
    sprintCapacityMin := 0, sprintCapacityMax := 0, priorityRandomization := false }
  backlogIssues := [movingIssue none none]
  workflowSteps := stepsOf length
  touchTimeConfigs := []
  moveLeftConfigs := []
  members := []
  sprintStart := input.sprintStart
  sprintLengthDays := input.sprintLengthDays
  jiraSprintId := none
  jiraBoardId := none
  sprintName := input.sprintName
  sprintDbId := input.sprintDbId
  distinct := by simp

section moving

variable {input : SprintInput} {length index : ℕ} {sprintId : Option ℤ}

/-- The issue after some time in its step. -/
def waitingIssue (sprintId : Option ℤ) (step : ℤ) (elapsed : ℚ) : IssueSnapshot :=
  { movingIssue sprintId (some step) with elapsedFullTime := elapsed }

/-- Without touch times an issue enters a step with no times to pass. -/
theorem enterStatus_moving {issue : IssueSnapshot} {rng : library.State}
    (hissue : { issue with elapsedFullTime := 0, currentWorkflowStepId := none } =
      movingIssue sprintId none) :
    enterStatus library issue (stepAt index) none rng =
      .ok (movingIssue sprintId (some index),
        transitionAction (movingIssue sprintId (some index)) "", rng) := by
  have hentered : { issue with
      currentWorkflowStepId := some (stepAt index).id, status := (stepAt index).jiraStatus
      sampledFullTime := 0, sampledWorkTime := 0, elapsedFullTime := 0, elapsedWorkTime := 0
      workStarted := false, currentWorkerId := none } = movingIssue sprintId (some index) := by
    cases issue
    cases hissue
    rfl
  simp only [enterStatus, sampleTimes, pure_bind, hentered]
  rfl

section tick

variable {memberStates : MemberStates} {rng : library.State}

/-- The issue needs no work, so it takes no member. -/
theorem assignWorker_moving (step : WorkflowStepSnapshot) :
    assignWorker library step { issue := movingIssue sprintId (some index), memberStates, rng } =
      .ok { issue := movingIssue sprintId (some index), memberStates, rng } := by
  have hwork : ¬ (0 < (movingIssue sprintId (some index)).sampledWorkTime ∧
      (!(movingIssue sprintId (some index)).workStarted) = true) :=
    fun h => lt_irrefl (0 : ℚ) h.1
  unfold assignWorker
  exact if_neg hwork

/-- The issue goes forward to the next step. -/
theorem executeTransition_moving (h : index + 1 < length) (elapsed : ℚ) :
    executeTransition library (movingSprint input length).workflow (stepAt index) .forward
        { issue := waitingIssue sprintId index elapsed, memberStates, rng } =
      .ok {
        issue := movingIssue sprintId (some (index + 1 : ℕ)), memberStates, rng
        jiraActions := [transitionAction (movingIssue sprintId (some (index + 1 : ℕ))) ""]
        completed := decide (index + 2 = length) } := by
  have hnext : nextStep (movingSprint input length).workflow.workflowSteps (stepAt index).order =
      some (stepAt (index + 1)) := nextStep_stepsOf h
  have hfinal : isFinalStep (movingSprint input length).workflow.workflowSteps (stepAt index) =
      false := by
    show isFinalStep (stepsOf length) (stepAt index) = false
    rw [isFinalStep_stepsOf (Nat.lt_of_succ_lt h)]
    exact decide_eq_false (by omega)
  have hlast : isFinalStep (movingSprint input length).workflow.workflowSteps
      (stepAt (index + 1)) = decide (index + 2 = length) := isFinalStep_stepsOf h
  have henter := @enterStatus_moving library (index + 1) sprintId
    (waitingIssue sprintId index elapsed) rng rfl
  have hconfig : ∀ issue : IssueSnapshot, getTouchTimeConfig
      (movingSprint input length).workflow.touchTimeConfigs (stepAt (index + 1)).id
        issue.issueType issue.points = none := fun _ => rfl
  simp only [executeTransition, hnext, hfinal, hlast, Bool.false_eq_true, if_false, enterStep,
    hconfig, henter, ok_bind]
  rfl

/-- One tick of the issue: it is ready at once, and goes to the next step. -/
theorem processItemTick_moving (hlength : 0 < input.tickHours) (h : index + 1 < length) :
    processItemTick library (movingSprint input length).workflow
        { issue := movingIssue sprintId (some index), memberStates, rng } =
      .ok {
        issue := movingIssue sprintId (some (index + 1 : ℕ)), memberStates, rng
        jiraActions := [transitionAction (movingIssue sprintId (some (index + 1 : ℕ))) ""]
        completed := decide (index + 2 = length) } := by
  have hfind : findStepById (movingSprint input length).workflow.workflowSteps
      (movingIssue sprintId (some index)).currentWorkflowStepId = some (stepAt index) :=
    findStepById_stepsOf (Nat.lt_of_succ_lt h)
  -- the full time of the step is zero, so one tick is enough
  have hready : checkTransitionReady (waitingIssue sprintId index
      (fadd 0 (movingSprint input length).workflow.tickHours)) = true := by
    have helapsed : 0 ≤ fadd 0 (movingSprint input length).workflow.tickHours := by
      refine Rounding.roundToPrecision_nonneg ?_
      rw [zero_add]
      exact hlength.le
    simp only [checkTransitionReady, waitingIssue, movingIssue, decide_true, Bool.true_or,
      Bool.true_and]
    exact decide_eq_true helapsed
  have hwork : advanceWork library (movingSprint input length).workflow.tickHours
      { issue := movingIssue sprintId (some index), memberStates, rng } =
      .ok { issue := movingIssue sprintId (some index), memberStates, rng } := rfl
  have hwaits : advanceFullTime library (movingSprint input length).workflow.tickHours
      { issue := movingIssue sprintId (some index), memberStates, rng } =
      { issue := waitingIssue sprintId index
          (fadd 0 (movingSprint input length).workflow.tickHours), memberStates, rng } := rfl
  have hrelease : ∀ elapsed : ℚ, releaseWorker library
      { issue := waitingIssue sprintId index elapsed, memberStates, rng } =
      .ok { issue := waitingIssue sprintId index elapsed, memberStates, rng } := fun _ => rfl
  have hroll : ∀ issueType : String, rollDirection library issueType (stepAt index)
      (movingSprint input length).workflow.moveLeftConfigs rng = (.forward, rng) := fun _ => rfl
  simp only [processItemTick, hfind, assignWorker_moving, hwork, ok_bind, hwaits, hready, if_true,
    hroll, hrelease]
  exact executeTransition_moving h _

end tick

/-! ### The stream -/

/-- The times of the events of a stream. -/
def EventStream.times (stream : EventStream) : List Moment :=
  stream.events.map (·.wallClockTime)

theorem EventStream.times_add (stream : EventStream) (tick : ℕ) (wallTime : Moment)
    (action : JiraWriteAction) :
    (stream.add tick wallTime action).times = stream.times ++ [wallTime] := by
  show (stream.events ++ [_]).map _ = _
  rw [List.map_append]
  rfl

/-- The pass of a tick moves the issue, with one event. -/
theorem passTick_moving (hlength : 0 < input.tickHours) (h : index + 1 < length) {tick : ℕ}
    {wallTime : Moment} {run : SprintRun library}
    (hissues : run.issues = [movingIssue sprintId (some index)]) :
    ∃ run', passTick library (movingSprint input length) tick wallTime (stepAt (length - 1)) run =
        .ok run' ∧ run'.stream.times = run.stream.times ++ [wallTime] ∧
      run'.issues = [{ movingIssue sprintId (some (index + 1 : ℕ)) with
        completedAt := if index + 2 = length then some (.at wallTime) else none }] := by
  have hmoves := @processItemTick_moving library input length index sprintId
    (buildMemberStates (movingSprint input length).members) run.rng hlength h
  have hopen : (movingIssue sprintId (some (index : ℤ))).completedAt.isSome = false := rfl
  simp only [passTick, hissues, List.foldlM_cons, List.foldlM_nil, passIssue, hopen,
    Bool.false_eq_true, if_false, hmoves, ok_bind, pure_bind, bind_pure]
  refine ⟨_, rfl, run.stream.times_add _ _ _, ?_⟩
  by_cases hlast : index + 2 = length
  · simp only [hlast, decide_true, if_true, List.nil_append]
    rfl
  · simp only [hlast, decide_false, Bool.false_eq_true, if_false, List.nil_append]
    rfl

/-- The ticks that are left have one event each. -/
theorem activeTicks_moving (hlength : 0 < input.tickHours) {rest : List Moment} {tick : ℕ}
    {run : SprintRun library} (hrest : index + rest.length + 1 = length)
    (hissues : run.issues = [movingIssue sprintId (some index)]) :
    ∃ run', activeTicks library (movingSprint input length) (stepAt (length - 1)) tick rest run =
      .ok run' ∧ run'.stream.times = run.stream.times ++ rest := by
  induction rest generalizing index tick run with
  | nil => exact ⟨run, rfl, (List.append_nil _).symm⟩
  | cons wallTime rest ih =>
    rw [List.length_cons] at hrest
    obtain ⟨next, hnext, htimes, hmoved⟩ :=
      @passTick_moving library input length index sprintId hlength (by omega) tick wallTime run
        hissues
    unfold activeTicks
    rw [hnext, ok_bind, hmoved]
    cases rest with
    | nil =>
      -- the issue has come to the last step, and the sprint ends without an event
      have hlast : index + 2 = length := by
        rw [List.length_nil] at hrest
        omega
      simp only [hlast, if_true]
      exact ⟨_, rfl, htimes⟩
    | cons later rest =>
      have hgoes : index + 2 ≠ length := by
        rw [List.length_cons] at hrest
        omega
      simp only [hgoes, if_false]
      rw [if_neg (by simp [movingIssue])]
      obtain ⟨run', hrun, hall⟩ := @ih (index + 1) (tick + 1) next (by omega)
        (by rw [hmoved, if_neg hgoes]; rfl)
      refine ⟨run', hrun, ?_⟩
      rw [hall, htimes, List.append_assoc, List.singleton_append]

/-- The planning selects the issue, which enters the first step. -/
theorem planningTick_moving (planningTime : Moment) (rng : library.State) :
    ∃ run target, planningTick library (movingSprint input length) (stepAt 0) planningTime rng =
        .ok (run, target) ∧
      run.issues = [movingIssue input.sprintDbId (some (0 : ℕ))] ∧
      run.stream.times = [planningTime] := by
  obtain ⟨draw, rng', hdraw⟩ : ∃ draw rng', library.randbelow 1 rng = (draw, rng') := ⟨_, _, rfl⟩
  -- the capacity is nothing and the one item has no points, so it is selected
  have hplan : planSprint library.toRandomSource (movingSprint input length).backlog
      (movingSprint input length).team.sprintCapacityMin
      (movingSprint input length).team.sprintCapacityMax
      (movingSprint input length).team.priorityRandomization rng =
      .ok ((movingSprint input length).backlog, (draw : ℤ), rng') := by
    have hselect : selectItems 0 (draw : ℤ) 0 [⟨1, 0, none⟩] = [⟨1, 0, none⟩] := by
      simp [selectItems]
    have hrandint : library.randint 0 0 rng = .ok ((draw : ℤ), rng') := by
      simp only [RandomSource.randint, le_refl, sub_self, zero_add]
      show Except.ok (((library.randbelow 1 rng).1 : ℤ), (library.randbelow 1 rng).2) = _
      rw [hdraw]
    have hsorted : Ordering.sortOn (fun item : BacklogItem => [item.rank, item.id])
        [⟨1, 0, none⟩] = [⟨1, 0, none⟩] := rfl
    have hcapacity : (movingSprint input length).team.sprintCapacityMin = 0 ∧
        (movingSprint input length).team.sprintCapacityMax = 0 ∧
        (movingSprint input length).team.priorityRandomization = false := ⟨rfl, rfl, rfl⟩
    have hbacklog : (movingSprint input length).backlog = [⟨1, 0, none⟩] := rfl
    rw [hcapacity.1, hcapacity.2.1, hcapacity.2.2, hbacklog]
    simp only [planSprint, List.isEmpty_cons, Bool.false_eq_true, if_false, hsorted, hrandint,
      ok_bind, hselect]
    rfl
  have henter := @enterStatus_moving library 0 input.sprintDbId
    (movingIssue input.sprintDbId none) rng' rfl
  have hitem : ∀ run : SprintRun library, run.rng = rng' →
      planItem library (movingSprint input length) (stepAt 0) planningTime run ⟨1, 0, none⟩ =
        .ok {
          stream := run.stream.add 0 planningTime
            (transitionAction (movingIssue input.sprintDbId (some (0 : ℕ))) "")
          issues := run.issues ++ [movingIssue input.sprintDbId (some (0 : ℕ))]
          committedPoints := run.committedPoints + 0
          rng := rng' } := by
    intro run hrng
    have hissue : (movingSprint input length).backlogIssues.find? (fun issue => issue.id = 1) =
        some (movingIssue none none) := rfl
    have htouch : ∀ step issueType points, getTouchTimeConfig
        (movingSprint input length).touchTimeConfigs step issueType points = none :=
      fun _ _ _ => rfl
    simp only [planItem, hissue, hrng, htouch]
    exact congrArg (fun entered => entered >>= _) henter
  -- the team has no board in Jira, so no sprint is created there
  have hcreate : createSprintEvent library (movingSprint input length) planningTime
      { events := [], seq := 0 } = .ok { events := [], seq := 0 } := rfl
  have hbacklog : (movingSprint input length).backlog = [⟨1, 0, none⟩] := rfl
  unfold planningTick
  rw [hcreate, ok_bind, hplan, ok_bind]
  simp only [hbacklog, List.foldlM_cons, List.foldlM_nil]
  rw [hitem _ rfl]
  exact ⟨_, _, rfl, rfl, rfl⟩

/-- The times of the events are the tick times. -/
theorem precomputeSprint_moving (hlength : 0 < input.tickHours) {fuel : ℕ} {times : List Moment}
    (hschedule : tickSchedule input fuel = .ok (some times)) (hne : times ≠ []) (rngSeed : ℤ) :
    ∃ result, precomputeSprint library (movingSprint input times.length) fuel rngSeed =
      .ok (some result) ∧ result.events.map (·.wallClockTime) = times := by
  have hsame : tickSchedule (movingSprint input times.length) fuel = .ok (some times) := hschedule
  obtain ⟨planningTime, rest, rfl⟩ := List.exists_cons_of_ne_nil hne
  obtain ⟨run, target, hplanning, hissues, hstart⟩ :=
    @planningTick_moving library input (rest.length + 1) planningTime (library.seeded rngSeed)
  obtain ⟨run', hticks, htimes⟩ := @activeTicks_moving library input (rest.length + 1) 0
    input.sprintDbId hlength rest 1 run (by omega) hissues
  -- a sprint that Jira does not know ends without an event
  have hend : ∀ tick wallTime stream, completeAtEnd (movingSprint input (rest.length + 1)) tick
      wallTime stream = stream := by
    intro tick wallTime stream
    exact ite_self stream
  have hfirst : (movingSprint input (rest.length + 1)).workflowSteps.head? = some (stepAt 0) := by
    show (stepsOf (rest.length + 1)).head? = _
    rw [stepsOf, List.range_succ_eq_map]
    rfl
  have hlast : (movingSprint input (rest.length + 1)).workflowSteps.getLast? =
      some (stepAt (rest.length + 1 - 1)) := by
    show (stepsOf (rest.length + 1)).getLast? = _
    rw [stepsOf, List.range_succ, List.map_append, List.map_singleton, List.getLast?_append,
      List.getLast?_singleton]
    rfl
  unfold precomputeSprint
  rw [hsame, ok_bind]
  simp only [precomputeTicks, List.length_cons, hfirst, hlast, hplanning, hticks, ok_bind, hend]
  refine ⟨_, rfl, ?_⟩
  show run'.stream.times = planningTime :: rest
  rw [htimes, hstart]
  rfl

end moving

end JiraSimulator.Engine
