import JiraSimulator.Correctness.EventStreams

/-!
# Which issues a member works on in a tick

The members' tick states are new in every tick, and an issue keeps its worker from one tick to the
next.  So an issue without a worker can take a member whom an issue later in the order still holds,
and then both accumulate work time.

* `issueVisit_spec`: what one visit does to the members and to the issue.
* `issueVisits_exclusive`: the visits of one tick.
* `members_exclusive`: each member works on one issue in a tick, in exactly the runs in which no
  visit takes a member from a waiting issue.
-/

namespace JiraSimulator.Engine

open Library Library.Outcome

variable {library : StandardLibrary} {input : SprintInput}

/-! ### Busy members -/

/-- The member has worked in this tick. -/
def Busy (states : MemberStates) (memberId : ℤ) : Prop :=
  ∃ s, Keyed.lookup (·.memberId) states memberId = some s ∧ s.busyThisTick = true

/-- The states are of the same members, and no busy member becomes free. -/
structure KeepsBusy (states states' : MemberStates) : Prop where
  distinct : (states.map (·.memberId)).Nodup → (states'.map (·.memberId)).Nodup
  busy : ∀ memberId, Busy states memberId → Busy states' memberId

theorem KeepsBusy.refl (states : MemberStates) : KeepsBusy states states :=
  ⟨id, fun _ => id⟩

theorem KeepsBusy.trans {a b c : MemberStates} (hab : KeepsBusy a b) (hbc : KeepsBusy b c) :
    KeepsBusy a c :=
  ⟨fun h => hbc.distinct (hab.distinct h), fun memberId h => hbc.busy memberId (hab.busy memberId h)⟩

section members

variable {states states' : MemberStates} {memberId issueId : ℤ}

theorem getItem_eq_lookup {current : MemberTickState}
    (h : getItem (·.memberId) states memberId = .ok current) :
    Keyed.lookup (·.memberId) states memberId = some current := by
  unfold getItem at h
  unfold Keyed.lookup
  cases hfind : states.find? fun s => s.memberId = memberId with
  | none =>
    rw [hfind] at h
    cases h
  | some found =>
    rw [hfind] at h
    cases h
    rfl

/-- A member's new state leaves the other members alone. -/
theorem assign_keepsBusy {entry current : MemberTickState}
    (hcurrent : Keyed.lookup (·.memberId) states entry.memberId = some current)
    (hbusy : current.busyThisTick = true → entry.busyThisTick = true) :
    KeepsBusy states (Keyed.assign (·.memberId) states entry) where
  distinct h := Keyed.nodup_assign _ h
  busy := by
    rintro k ⟨s, hlookup, hs⟩
    unfold Busy
    rw [Keyed.lookup_assign]
    by_cases hkey : entry.memberId = k
    · subst hkey
      rw [hcurrent] at hlookup
      cases hlookup
      rw [if_pos rfl]
      exact ⟨entry, rfl, hbusy hs⟩
    · rw [if_neg hkey]
      exact ⟨s, hlookup, hs⟩

theorem markBusy_spec (h : markBusy states memberId issueId = .ok states') :
    KeepsBusy states states' ∧ Busy states' memberId := by
  simp only [markBusy, bind_eq_ok, pure_eq_ok] at h
  obtain ⟨current, hcurrent, rfl⟩ := h
  obtain ⟨-, rfl⟩ := getItem_eq_ok hcurrent
  have hlookup := getItem_eq_lookup hcurrent
  refine ⟨assign_keepsBusy hlookup fun _ => rfl, ?_⟩
  unfold Busy
  rw [Keyed.lookup_assign, if_pos rfl]
  exact ⟨_, rfl, rfl⟩

theorem releaseAssignment_keepsBusy (h : releaseAssignment states memberId = .ok states') :
    KeepsBusy states states' := by
  simp only [releaseAssignment, bind_eq_ok, pure_eq_ok] at h
  obtain ⟨current, hcurrent, rfl⟩ := h
  obtain ⟨-, rfl⟩ := getItem_eq_ok hcurrent
  exact assign_keepsBusy (getItem_eq_lookup hcurrent) id

theorem not_busy_of_available (hdistinct : (states.map (·.memberId)).Nodup)
    {member : MemberTickState} {roles : List String}
    (h : member ∈ availableMembers states roles issueId) : ¬ Busy states member.memberId := by
  obtain ⟨hmem, havailable⟩ := List.mem_filter.mp h
  rintro ⟨s, hlookup, hbusy⟩
  rw [(Keyed.lookup_eq_some _ hdistinct).mpr ⟨hmem, rfl⟩] at hlookup
  cases hlookup
  simp [hbusy] at havailable

end members

/-- No member is busy when a tick begins. -/
theorem buildMemberStates_spec (members : List MemberSnapshot) :
    ((buildMemberStates members).map (·.memberId)).Nodup ∧
      ∀ memberId, ¬ Busy (buildMemberStates members) memberId := by
  refine ⟨Keyed.nodup_ofList _ _, ?_⟩
  rintro memberId ⟨s, hlookup, hbusy⟩
  have hmem := Keyed.mem_of_mem_ofList _ (Keyed.mem_of_lookup _ hlookup).1
  obtain ⟨member, -, rfl⟩ := List.mem_map.mp hmem
  cases hbusy

/-! ### Visits -/

/-- A visit of a tick: the pass before it, the issue, and the issues that still wait. -/
structure Visit (library : StandardLibrary) where
  pass : Pass library
  issue : IssueSnapshot
  waiting : List IssueSnapshot

/-- The visits of a tick, up to the first one that fails. -/
def issueVisits (library : StandardLibrary) (input : SprintInput) (tick : ℕ) (wallTime : Moment)
    (finalStep : WorkflowStepSnapshot) : Pass library → List IssueSnapshot → List (Visit library)
  | _, [] => []
  | pass, issue :: waiting =>
    { pass, issue, waiting } ::
      match passIssue library input tick wallTime finalStep pass issue with
      | .ok next => issueVisits library input tick wallTime finalStep next waiting
      | .error _ => []

/-- The pass at the start of a tick. -/
def startPass (input : SprintInput) (run : SprintRun library) : Pass library where
  stream := run.stream
  passed := []
  memberStates := buildMemberStates input.members
  rng := run.rng

/-- The visits of each tick of the active phase. -/
def activeVisits (library : StandardLibrary) (input : SprintInput)
    (finalStep : WorkflowStepSnapshot) :
    ℕ → List Moment → SprintRun library → List (List (Visit library))
  | _, [], _ => []
  | tick, wallTime :: times, run =>
    issueVisits library input tick wallTime finalStep (startPass input run) run.issues ::
      match passTick library input tick wallTime finalStep run with
      | .ok next =>
        if next.issues.all (·.completedAt.isSome) then []
        else activeVisits library input finalStep (tick + 1) times next
      | .error _ => []

/-- The visits of each tick of `precompute_sprint`. -/
def sprintVisits (library : StandardLibrary) (input : SprintInput) (fuel : ℕ) (rngSeed : ℤ) :
    List (List (Visit library)) :=
  match tickSchedule input fuel, input.workflowSteps.head?, input.workflowSteps.getLast? with
  | .ok (some (planningTime :: times)), some firstStep, some finalStep =>
    match planningTick library input firstStep planningTime (library.seeded rngSeed) with
    | .ok (run, _) => activeVisits library input finalStep 1 times run
    | .error _ => []
  | _, _, _ => []

namespace Visit

variable (input) (visit : Visit library)

/-- The step of the visited issue, unless the issue is complete. -/
def step : Option WorkflowStepSnapshot :=
  if visit.issue.completedAt.isSome then none
  else findStepById input.workflowSteps visit.issue.currentWorkflowStepId

/-- The visit before step 1. -/
def item : ItemState library where
  issue := visit.issue
  memberStates := visit.pass.memberStates
  rng := visit.pass.rng

/-- The member for whom the issue accumulates work time: its worker after step 1. -/
def credit : Option ℤ := do
  let step ← visit.step input
  let assigned ← (assignWorker library step visit.item).toOption
  assigned.issue.worker

/-- The member that the issue takes in step 1. -/
def taken : Option ℤ := do
  let step ← visit.step input
  if 0 < visit.issue.sampledWorkTime ∧ !visit.issue.workStarted then
    let (worker, _) ← (findAvailableMember library.toRandomSource visit.pass.memberStates
      step.roles visit.issue.id visit.pass.rng).toOption
    worker.map (·.memberId)
  else none

/-- The issue does not take a member whom a waiting issue holds. -/
def Free : Prop :=
  ∀ memberId, visit.taken input = some memberId → ∀ other ∈ visit.waiting,
    other.completedAt = none → other.worker ≠ some memberId

end Visit

/-- The members for whom work time is accumulated in the visits of a tick. -/
def credits (input : SprintInput) (visits : List (Visit library)) : List ℤ :=
  visits.filterMap (·.credit input)

/-! ### One visit -/

section visit

variable {config : WorkflowConfig} {step : WorkflowStepSnapshot} {memberId : ℤ}

/-- The step of the issue is one of the workflow. -/
def StepKnown (workflowSteps : List WorkflowStepSnapshot) (issue : IssueSnapshot) : Prop :=
  (findStepById workflowSteps issue.currentWorkflowStepId).isSome

theorem stepKnown_of_mem {workflowSteps : List WorkflowStepSnapshot} {issue : IssueSnapshot}
    (hmem : step ∈ workflowSteps) (hstep : issue.currentWorkflowStepId = some step.id) :
    StepKnown workflowSteps issue := by
  unfold StepKnown findStepById
  rw [List.find?_isSome]
  exact ⟨step, hmem, by simp [hstep]⟩

theorem minByOrder_mem {steps : List WorkflowStepSnapshot} (h : minByOrder steps = some step) :
    step ∈ steps := by
  induction steps generalizing step with
  | nil => cases h
  | cons first steps ih =>
    unfold minByOrder at h
    cases hleast : minByOrder steps with
    | none =>
      rw [hleast] at h
      cases h
      exact List.mem_cons_self
    | some least =>
      rw [hleast] at h
      dsimp only at h
      split_ifs at h
      · cases h
        exact List.mem_cons_of_mem _ (ih hleast)
      · cases h
        exact List.mem_cons_self

theorem nextStep_mem {workflowSteps : List WorkflowStepSnapshot} {order : ℤ}
    (h : nextStep workflowSteps order = some step) : step ∈ workflowSteps :=
  (List.mem_filter.mp (minByOrder_mem h)).1

theorem advanceWork_members {tickHours : ℚ} {s s' : ItemState library}
    (h : advanceWork library tickHours s = .ok s') :
    KeepsBusy s.memberStates s'.memberStates ∧ s'.issue.worker = s.issue.worker ∧
      s'.issue.currentWorkflowStepId = s.issue.currentWorkflowStepId ∧
      ∀ memberId, s.issue.worker = some memberId → Busy s'.memberStates memberId := by
  unfold advanceWork at h
  cases hworker : s.issue.worker with
  | none =>
    rw [hworker] at h
    cases h
    exact ⟨.refl _, hworker, rfl, nofun⟩
  | some memberId =>
    rw [hworker] at h
    simp only [bind_eq_ok] at h
    obtain ⟨current, hcurrent, h⟩ := h
    split_ifs at h with hbusy
    · cases h
      refine ⟨.refl _, hworker, rfl, ?_⟩
      rintro _ ⟨rfl⟩
      exact ⟨current, getItem_eq_lookup hcurrent, hbusy⟩
    · simp only [bind_eq_ok, pure_eq_ok] at h
      obtain ⟨states, hstates, rfl⟩ := h
      obtain ⟨hkeeps, hmarked⟩ := markBusy_spec hstates
      refine ⟨hkeeps, hworker, rfl, ?_⟩
      rintro _ ⟨rfl⟩
      exact hmarked

theorem releaseWorker_keepsBusy {s s' : ItemState library}
    (h : releaseWorker library s = .ok s') : KeepsBusy s.memberStates s'.memberStates := by
  unfold releaseWorker at h
  cases hworker : s.issue.currentWorkerId with
  | none =>
    rw [hworker] at h
    cases h
    exact .refl _
  | some memberId =>
    rw [hworker] at h
    simp only [bind_eq_ok, pure_eq_ok] at h
    obtain ⟨states, hstates, rfl⟩ := h
    exact releaseAssignment_keepsBusy hstates

theorem enterStep_members {completed : Bool} {s : ItemState library}
    {result : ItemTickResult library}
    (h : enterStep library config step completed s = .ok result) :
    result.memberStates = s.memberStates ∧ result.issue.worker = none ∧
      result.issue.currentWorkflowStepId = some step.id := by
  simp only [enterStep, bind_eq_ok, pure_eq_ok] at h
  obtain ⟨⟨issue, action, rng⟩, henter, rfl⟩ := h
  simp only [enterStatus, bind_eq_ok, pure_eq_ok, Prod.mk.injEq] at henter
  obtain ⟨⟨full, work, rng'⟩, -, rfl, -, -⟩ := henter
  exact ⟨rfl, rfl, rfl⟩

/-- A transition leaves the members alone; the issue keeps its worker, or is without one. -/
theorem executeTransition_members {direction : Direction} {s : ItemState library}
    {result : ItemTickResult library} (hknown : StepKnown config.workflowSteps s.issue)
    (h : executeTransition library config step direction s = .ok result) :
    result.memberStates = s.memberStates ∧ StepKnown config.workflowSteps result.issue ∧
      (result.issue.worker = none ∨ result.issue.worker = s.issue.worker) := by
  unfold executeTransition at h
  cases direction with
  | forward =>
    dsimp only at h
    cases hnext : nextStep config.workflowSteps step.order with
    | none =>
      rw [hnext] at h
      cases h
      exact ⟨rfl, hknown, .inr rfl⟩
    | some next =>
      rw [hnext] at h
      dsimp only at h
      split_ifs at h
      · cases h
        exact ⟨rfl, hknown, .inr rfl⟩
      · obtain ⟨hstates, hworker, hstep⟩ := enterStep_members h
        exact ⟨hstates, stepKnown_of_mem (nextStep_mem hnext) hstep, .inl hworker⟩
  | left targetStepId =>
    dsimp only at h
    cases htarget : findStepById config.workflowSteps (some targetStepId) with
    | none =>
      rw [htarget] at h
      cases h
      exact ⟨rfl, hknown, .inr rfl⟩
    | some target =>
      rw [htarget] at h
      obtain ⟨hstates, hworker, hstep⟩ := enterStep_members h
      exact ⟨hstates, stepKnown_of_mem (List.mem_of_find?_eq_some htarget) hstep, .inl hworker⟩

/-- What becomes of the members and of the issue after step 1. -/
structure AfterAssignment (workflowSteps : List WorkflowStepSnapshot)
    (assigned result : ItemState library) : Prop where
  keeps : KeepsBusy assigned.memberStates result.memberStates
  busy : ∀ memberId, assigned.issue.worker = some memberId → Busy result.memberStates memberId
  known : StepKnown workflowSteps result.issue
  worker : result.issue.worker = none ∨ result.issue.worker = assigned.issue.worker

theorem processItemTick_members {s assigned : ItemState library} {result : ItemTickResult library}
    (hstep : findStepById config.workflowSteps s.issue.currentWorkflowStepId = some step)
    (hassigned : assignWorker library step s = .ok assigned)
    (hsame : assigned.issue.currentWorkflowStepId = s.issue.currentWorkflowStepId)
    (h : processItemTick library config s = .ok result) :
    AfterAssignment config.workflowSteps assigned result.toItemState := by
  unfold processItemTick at h
  rw [hstep] at h
  simp only [bind_eq_ok] at h
  obtain ⟨assigned', hassigned', advanced, hadvanced, h⟩ := h
  rw [hassigned] at hassigned'
  cases hassigned'
  obtain ⟨hkeeps, hworker, hsame', hbusy⟩ := advanceWork_members hadvanced
  -- full time does not touch the worker, the step and the members
  have hknown : StepKnown config.workflowSteps
      (advanceFullTime library config.tickHours advanced).issue := by
    show (findStepById config.workflowSteps advanced.issue.currentWorkflowStepId).isSome
    rw [hsame', hsame, hstep]
    rfl
  split_ifs at h with hready
  · simp only [bind_eq_ok] at h
    obtain ⟨released, hreleased, h⟩ := h
    have hissue := releaseWorker_issue hreleased
    have hrelease := releaseWorker_keepsBusy hreleased
    rw [← hissue] at hknown
    obtain ⟨hstates, hknown', hworker'⟩ := executeTransition_members hknown h
    rw [hissue] at hworker'
    refine ⟨?_, ?_, hknown', hworker'.imp_right fun heq => heq.trans hworker⟩
    · rw [hstates]
      exact hkeeps.trans hrelease
    · intro memberId hmember
      rw [hstates]
      exact hrelease.busy memberId (hbusy memberId hmember)
  · cases h
    exact ⟨hkeeps, hbusy, hknown, .inr hworker⟩

end visit

/-- Step 1 leaves the visit alone, or the issue takes a member who is not busy. -/
inductive Assignment (input : SprintInput) (visit : Visit library)
    (assigned : ItemState library) : Prop where
  | kept (htaken : visit.taken input = none) (hissue : assigned.issue = visit.issue)
    (hstates : assigned.memberStates = visit.pass.memberStates)
  | took (memberId : ℤ) (htaken : visit.taken input = some memberId)
    (hidle : visit.issue.worker = none) (hworker : assigned.issue.worker = some memberId)
    (hstep : assigned.issue.currentWorkflowStepId = visit.issue.currentWorkflowStepId)
    (hkeeps : KeepsBusy visit.pass.memberStates assigned.memberStates)
    (hfree : (visit.pass.memberStates.map (·.memberId)).Nodup →
      ¬ Busy visit.pass.memberStates memberId)

section assignment

variable {visit : Visit library} {step : WorkflowStepSnapshot} {assigned : ItemState library}

theorem Assignment.step_eq (h : Assignment input visit assigned) :
    assigned.issue.currentWorkflowStepId = visit.issue.currentWorkflowStepId := by
  cases h with
  | kept _ hissue _ => rw [hissue]
  | took _ _ _ _ hstep _ _ => exact hstep

theorem Assignment.keepsBusy (h : Assignment input visit assigned) :
    KeepsBusy visit.pass.memberStates assigned.memberStates := by
  cases h with
  | kept _ _ hstates =>
    rw [hstates]
    exact .refl _
  | took _ _ _ _ _ hkeeps _ => exact hkeeps

theorem choice_mem {α : Type} {source : RandomSource} {items : List α} {rng rng' : source.State}
    {item : α} (h : source.choice items rng = .ok (item, rng')) : item ∈ items := by
  simp only [RandomSource.choice, bind_eq_ok, pure_eq_ok, Prod.mk.injEq] at h
  obtain ⟨found, hfound, rfl, -⟩ := h
  exact List.mem_of_getElem? (getIndex_eq_ok.mp hfound)

theorem findAvailableMember_mem {source : RandomSource} {states : MemberStates}
    {roles : List String} {issueId : ℤ} {rng rng' : source.State} {member : MemberTickState}
    (h : findAvailableMember source states roles issueId rng = .ok (some member, rng')) :
    member ∈ availableMembers states roles issueId := by
  unfold findAvailableMember at h
  dsimp only at h
  split_ifs at h
  · cases h
  · simp only [bind_eq_ok, pure_eq_ok, Prod.mk.injEq, Option.some.injEq] at h
    obtain ⟨⟨found, rng''⟩, hchoice, rfl, -⟩ := h
    exact choice_mem hchoice

theorem assignment_of_assignWorker (hstep : visit.step input = some step)
    (h : assignWorker library step visit.item = .ok assigned) :
    Assignment input visit assigned := by
  unfold assignWorker at h
  have htaken : visit.taken input =
      if 0 < visit.issue.sampledWorkTime ∧ !visit.issue.workStarted then
        (findAvailableMember library.toRandomSource visit.pass.memberStates step.roles
          visit.issue.id visit.pass.rng).toOption.bind fun found => found.1.map (·.memberId)
      else none := by
    unfold Visit.taken
    rw [hstep]
    rfl
  split_ifs at h with hneeds
  · change 0 < visit.issue.sampledWorkTime ∧ (!visit.issue.workStarted) = true at hneeds
    rw [if_pos hneeds] at htaken
    simp only [bind_eq_ok] at h
    obtain ⟨⟨found, rng⟩, hfound, h⟩ := h
    have hsearch : findAvailableMember library.toRandomSource visit.pass.memberStates step.roles
        visit.issue.id visit.pass.rng = .ok (found, rng) := hfound
    rw [hsearch] at htaken
    cases found with
    | none =>
      cases h
      exact .kept htaken rfl rfl
    | some member =>
      simp only [bind_eq_ok, pure_eq_ok] at h
      obtain ⟨states, hstates, rfl⟩ := h
      -- the work had not started, so the issue had no worker
      have hidle : visit.issue.workStarted = false := by simpa using hneeds.2
      refine .took member.memberId htaken ?_ rfl rfl (markBusy_spec hstates).1 fun hdistinct =>
        not_busy_of_available hdistinct (findAvailableMember_mem hfound)
      unfold IssueSnapshot.worker
      rw [hidle]
      rfl
  · change ¬ (0 < visit.issue.sampledWorkTime ∧ (!visit.issue.workStarted) = true) at hneeds
    rw [if_neg hneeds] at htaken
    cases h
    exact .kept htaken rfl rfl

/-- An issue with a worker keeps the worker in step 1. -/
theorem assignWorker_of_worker {memberId : ℤ} (hworker : visit.issue.worker = some memberId) :
    assignWorker library step visit.item = .ok visit.item := by
  have hstarted : visit.issue.workStarted = true := by
    by_contra hnot
    unfold IssueSnapshot.worker at hworker
    rw [if_neg hnot] at hworker
    cases hworker
  unfold assignWorker
  rw [if_neg]
  · rfl
  · rintro ⟨-, hidle⟩
    rw [show visit.item.issue.workStarted = true from hstarted] at hidle
    cases hidle

/-- A visited issue that is not complete is credited to its worker. -/
theorem Visit.credit_of_worker {memberId : ℤ} (hopen : visit.issue.completedAt = none)
    (hknown : StepKnown input.workflowSteps visit.issue)
    (hworker : visit.issue.worker = some memberId) : visit.credit input = some memberId := by
  obtain ⟨step, hstep⟩ := Option.isSome_iff_exists.mp hknown
  have hvisit : visit.step input = some step := by
    unfold Visit.step
    rw [hopen]
    exact hstep
  unfold Visit.credit
  rw [hvisit]
  show ((assignWorker library step visit.item).toOption.bind fun s => s.issue.worker) = _
  rw [assignWorker_of_worker hworker]
  exact hworker

/-- A credited member is the worker of the issue, or is taken by it. -/
theorem Visit.credit_cases {memberId : ℤ} (h : visit.credit input = some memberId) :
    visit.issue.completedAt = none ∧ (visit.issue.worker = some memberId ∨
      (visit.taken input = some memberId ∧
        ((visit.pass.memberStates.map (·.memberId)).Nodup →
          ¬ Busy visit.pass.memberStates memberId))) := by
  unfold Visit.credit at h
  obtain ⟨step, hstep, h⟩ := Option.bind_eq_some_iff.mp h
  obtain ⟨assigned, hassigned, hworker⟩ := Option.bind_eq_some_iff.mp h
  have hopen : visit.issue.completedAt = none := by
    by_contra hnot
    have hsome : visit.issue.completedAt.isSome = true := Option.isSome_iff_ne_none.mpr hnot
    unfold Visit.step at hstep
    rw [if_pos hsome] at hstep
    cases hstep
  refine ⟨hopen, ?_⟩
  cases hresult : assignWorker library step visit.item with
  | error e =>
    rw [hresult] at hassigned
    cases hassigned
  | ok assigned' =>
    rw [hresult] at hassigned
    cases hassigned
    cases assignment_of_assignWorker hstep hresult with
    | kept _ hissue _ =>
      rw [hissue] at hworker
      exact .inl hworker
    | took taken htaken _ hworker' _ _ hfree =>
      rw [hworker'] at hworker
      cases hworker
      exact .inr ⟨htaken, hfree⟩

/-- A member that is taken is credited. -/
theorem Visit.credit_of_taken {memberId : ℤ} (h : visit.taken input = some memberId)
    (hstep : visit.step input = some step)
    (hassigned : assignWorker library step visit.item = .ok assigned) :
    visit.credit input = some memberId := by
  unfold Visit.credit
  rw [hstep]
  show ((assignWorker library step visit.item).toOption.bind fun s => s.issue.worker) = _
  rw [hassigned]
  cases assignment_of_assignWorker hstep hassigned with
  | kept htaken _ _ =>
    rw [htaken] at h
    cases h
  | took taken htaken _ hworker _ _ _ =>
    rw [htaken] at h
    cases h
    exact hworker

end assignment

/-! ### The visits of a tick -/

section tick

variable {tick : ℕ} {wallTime : Moment} {finalStep : WorkflowStepSnapshot}
  {pass next : Pass library} {issue : IssueSnapshot} {waiting : List IssueSnapshot}

/-- What a visit leaves behind: its issue, with the worker it is credited to or without one. -/
structure VisitResult (input : SprintInput) (visit : Visit library) (next : Pass library)
    (issue' : IssueSnapshot) : Prop where
  passed : next.passed = visit.pass.passed ++ [issue']
  keeps : KeepsBusy visit.pass.memberStates next.memberStates
  busy : ∀ memberId, visit.credit input = some memberId → Busy next.memberStates memberId
  known : StepKnown input.workflowSteps issue'
  worker : issue'.completedAt = none → ∀ memberId, issue'.worker = some memberId →
    visit.credit input = some memberId
  taken : ∀ memberId, visit.taken input = some memberId → visit.credit input = some memberId

theorem issueVisit_spec (waiting : List IssueSnapshot)
    (hknown : StepKnown input.workflowSteps issue)
    (h : passIssue library input tick wallTime finalStep pass issue = .ok next) :
    ∃ issue', VisitResult input ⟨pass, issue, waiting⟩ next issue' := by
  unfold passIssue at h
  split_ifs at h with hdone
  · -- a finished issue is passed over
    cases h
    have hstep : (⟨pass, issue, waiting⟩ : Visit library).step input = none := if_pos hdone
    have hcredit : (⟨pass, issue, waiting⟩ : Visit library).credit input = none := by
      unfold Visit.credit
      rw [hstep]
      rfl
    have htaken : (⟨pass, issue, waiting⟩ : Visit library).taken input = none := by
      unfold Visit.taken
      rw [hstep]
      rfl
    refine ⟨issue, rfl, .refl _, ?_, hknown, ?_, ?_⟩
    · intro memberId hmember
      rw [hcredit] at hmember
      cases hmember
    · intro hopen
      rw [hopen] at hdone
      cases hdone
    · intro memberId hmember
      rw [htaken] at hmember
      cases hmember
  · simp only [bind_eq_ok, pure_eq_ok] at h
    obtain ⟨result, hresult, rfl⟩ := h
    obtain ⟨step, hfind⟩ := Option.isSome_iff_exists.mp hknown
    have hstep : (⟨pass, issue, waiting⟩ : Visit library).step input = some step := by
      unfold Visit.step
      rw [if_neg hdone]
      exact hfind
    have hassigned : ∃ assigned, assignWorker library step
        (⟨pass, issue, waiting⟩ : Visit library).item = .ok assigned := by
      unfold processItemTick at hresult
      rw [show findStepById input.workflow.workflowSteps _ = some step from hfind] at hresult
      simp only [bind_eq_ok] at hresult
      obtain ⟨assigned, hassigned, -⟩ := hresult
      exact ⟨assigned, hassigned⟩
    obtain ⟨assigned, hassigned⟩ := hassigned
    have hassignment := assignment_of_assignWorker hstep hassigned
    have hafter := processItemTick_members hfind hassigned hassignment.step_eq hresult
    -- the credit is the worker that the assignment found
    have hcredit : (⟨pass, issue, waiting⟩ : Visit library).credit input =
        assigned.issue.worker := by
      unfold Visit.credit
      rw [hstep]
      show ((assignWorker library step _).toOption.bind fun s => s.issue.worker) = _
      rw [hassigned]
      rfl
    refine ⟨_, rfl, hassignment.keepsBusy.trans hafter.keeps, ?_, ?_, ?_, ?_⟩
    · intro memberId hmember
      rw [hcredit] at hmember
      exact hafter.busy memberId hmember
    · split_ifs
      · exact hafter.known
      · exact hafter.known
    · intro hopen memberId hmember
      rw [hcredit]
      split_ifs at hopen hmember
      rcases hafter.worker with hnone | hsame
      · rw [hnone] at hmember
        cases hmember
      · rw [← hsame]
        exact hmember
    · exact fun memberId htaken => Visit.credit_of_taken htaken hstep hassigned

/-- The members whom issues that are not complete hold. -/
def holders (issues : List IssueSnapshot) : List ℤ :=
  (issues.filter (·.completedAt.isNone)).filterMap (·.worker)

theorem holders_cons (issue : IssueSnapshot) (issues : List IssueSnapshot) :
    holders (issue :: issues) = holders [issue] ++ holders issues := by
  unfold holders
  rw [← List.singleton_append, List.filter_append, List.filterMap_append]

theorem mem_holders {issues : List IssueSnapshot} {memberId : ℤ} :
    memberId ∈ holders issues ↔
      ∃ other ∈ issues, other.completedAt = none ∧ other.worker = some memberId := by
  simp [holders, and_assoc]

theorem credits_cons (visit : Visit library) (visits : List (Visit library)) :
    credits input (visit :: visits) = (visit.credit input).toList ++ credits input visits := by
  unfold credits
  rw [List.filterMap_cons]
  cases visit.credit input <;> rfl

theorem issueVisits_cons (hnext :
      passIssue library input tick wallTime finalStep pass issue = .ok next) :
    issueVisits library input tick wallTime finalStep pass (issue :: waiting) =
      ⟨pass, issue, waiting⟩ :: issueVisits library input tick wallTime finalStep next waiting := by
  rw [issueVisits, hnext]

/-- The issues that a tick leaves hold only members who are credited in it. -/
theorem holders_sublist_credits {issues : List IssueSnapshot}
    (hknown : ∀ issue ∈ issues, StepKnown input.workflowSteps issue)
    (h : issues.foldlM (passIssue library input tick wallTime finalStep) pass = .ok next) :
    ∃ issues', next.passed = pass.passed ++ issues' ∧
      (∀ issue ∈ issues', StepKnown input.workflowSteps issue) ∧
      (holders issues').Sublist
        (credits input (issueVisits library input tick wallTime finalStep pass issues)) := by
  induction issues generalizing pass with
  | nil =>
    cases h
    exact ⟨[], (List.append_nil _).symm, by simp, .slnil⟩
  | cons issue waiting ih =>
    rw [List.foldlM_cons, bind_eq_ok] at h
    obtain ⟨middle, hmiddle, h⟩ := h
    obtain ⟨issue', hvisit⟩ := issueVisit_spec waiting
      (hknown issue List.mem_cons_self) hmiddle
    obtain ⟨issues', hpassed, hknown', hsub⟩ :=
      ih (fun other hother => hknown other (List.mem_cons_of_mem _ hother)) h
    refine ⟨issue' :: issues', ?_, ?_, ?_⟩
    · rw [hpassed, hvisit.passed, List.append_assoc, List.singleton_append]
    · intro other hother
      rcases List.mem_cons.mp hother with rfl | hrest
      · exact hvisit.known
      · exact hknown' other hrest
    · rw [issueVisits_cons hmiddle, holders_cons, credits_cons]
      refine List.Sublist.append ?_ hsub
      -- the issue of the visit holds at most the member it is credited to
      cases hopen : issue'.completedAt with
      | some completion => simp [holders, hopen]
      | none =>
        cases hworker : issue'.worker with
        | none => simp [holders, hopen, hworker]
        | some memberId =>
          have hcredit := hvisit.worker hopen memberId hworker
          simp [holders, hopen, hworker, hcredit]

theorem holders_waiting_sublist (issue : IssueSnapshot) (waiting : List IssueSnapshot) :
    (holders waiting).Sublist (holders (issue :: waiting)) := by
  rw [holders_cons]
  exact List.sublist_append_right _ _

/-- A member who is credited in a visit is held by its issue, and else was not busy. -/
theorem Visit.credit_not_mem {visit : Visit library} {busy : List ℤ}
    (hmembers : (visit.pass.memberStates.map (·.memberId)).Nodup)
    (hbusy : ∀ memberId ∈ busy, Busy visit.pass.memberStates memberId)
    (hapart : ∀ memberId ∈ busy, memberId ∉ holders (visit.issue :: visit.waiting))
    {memberId : ℤ} (hmem : memberId ∈ busy) : visit.credit input ≠ some memberId := by
  intro hcredit
  obtain ⟨hopen, hworker | ⟨-, hidle⟩⟩ := Visit.credit_cases hcredit
  · exact hapart memberId hmem
      (mem_holders.mpr ⟨visit.issue, List.mem_cons_self, hopen, hworker⟩)
  · exact hidle hmembers (hbusy memberId hmem)

/-- A free visit credits no member whom a waiting issue holds. -/
theorem Visit.Free.not_mem_holders {visit : Visit library} (hfree : visit.Free input)
    (hholders : (holders (visit.issue :: visit.waiting)).Nodup) {memberId : ℤ}
    (hcredit : visit.credit input = some memberId) : memberId ∉ holders visit.waiting := by
  intro hmem
  obtain ⟨hopen, hworker | ⟨htaken, -⟩⟩ := Visit.credit_cases hcredit
  · rw [holders_cons, List.nodup_append] at hholders
    have hself : memberId ∈ holders [visit.issue] :=
      mem_holders.mpr ⟨visit.issue, List.mem_singleton_self _, hopen, hworker⟩
    exact hholders.2.2 memberId hself memberId hmem rfl
  · obtain ⟨other, hother, hopen', hworker⟩ := mem_holders.mp hmem
    exact hfree memberId htaken other hother hopen' hworker

/-- The visits of a tick that starts with distinct holders, when each of them is free: no member is
credited twice, and none who was busy before. -/
theorem issueVisits_exclusive {issues : List IssueSnapshot} (busy : List ℤ)
    (hknown : ∀ issue ∈ issues, StepKnown input.workflowSteps issue)
    (hmembers : (pass.memberStates.map (·.memberId)).Nodup)
    (hbusy : ∀ memberId ∈ busy, Busy pass.memberStates memberId)
    (hapart : ∀ memberId ∈ busy, memberId ∉ holders issues)
    (hholders : (holders issues).Nodup)
    (hfree : ∀ visit ∈ issueVisits library input tick wallTime finalStep pass issues,
      visit.Free input) :
    (credits input (issueVisits library input tick wallTime finalStep pass issues)).Nodup ∧
      ∀ memberId ∈ busy, memberId ∉
        credits input (issueVisits library input tick wallTime finalStep pass issues) := by
  -- the list `busy` holds the members credited so far in the pass
  induction issues generalizing pass busy with
  | nil => exact ⟨.nil, fun _ _ => List.not_mem_nil⟩
  | cons issue waiting ih =>
    unfold issueVisits at hfree ⊢
    rw [credits_cons]
    have hhead := hfree _ List.mem_cons_self
    have hnew : ∀ memberId ∈ busy,
        (⟨pass, issue, waiting⟩ : Visit library).credit input ≠ some memberId := fun memberId =>
      Visit.credit_not_mem hmembers hbusy hapart
    cases hnext : passIssue library input tick wallTime finalStep pass issue with
    | error e =>
      refine ⟨?_, fun memberId hmem hcredit => ?_⟩
      · cases Visit.credit input _ <;> simp [credits]
      · exact hnew memberId hmem (by simpa [credits] using hcredit)
    | ok next =>
      rw [hnext] at hfree
      obtain ⟨issue', hvisit⟩ := issueVisit_spec waiting
        (hknown issue List.mem_cons_self) hnext
      -- the member credited now is busy for the issues that wait
      have hrest := @ih next
        (((⟨pass, issue, waiting⟩ : Visit library).credit input).toList ++ busy)
        (fun other hother => hknown other (List.mem_cons_of_mem _ hother))
        (hvisit.keeps.distinct hmembers)
        (fun memberId hmem => by
          rcases List.mem_append.mp hmem with hcredit | hold
          · exact hvisit.busy memberId (Option.mem_toList.mp hcredit)
          · exact hvisit.keeps.busy memberId (hbusy memberId hold))
        (fun memberId hmem => by
          rcases List.mem_append.mp hmem with hcredit | hold
          · exact hhead.not_mem_holders hholders (Option.mem_toList.mp hcredit)
          · exact fun hheld =>
              hapart memberId hold ((holders_waiting_sublist issue waiting).subset hheld))
        (hholders.sublist (holders_waiting_sublist issue waiting))
        (fun visit hmem => hfree visit (List.mem_cons_of_mem _ hmem))
      refine ⟨?_, fun memberId hmem hcredit => ?_⟩
      · rw [List.nodup_append]
        refine ⟨by cases Visit.credit input _ <;> simp, hrest.1, ?_⟩
        rintro memberId hcredit _ hlater rfl
        exact hrest.2 memberId (List.mem_append_left _ hcredit) hlater
      · rcases List.mem_append.mp hcredit with hnow | hlater
        · exact hnew memberId hmem (Option.mem_toList.mp hnow)
        · exact hrest.2 memberId (List.mem_append_right _ hmem) hlater

/-- A member whom an issue holds when the visits begin is credited in them. -/
theorem holder_credited {issues : List IssueSnapshot}
    (hknown : ∀ issue ∈ issues, StepKnown input.workflowSteps issue)
    (h : issues.foldlM (passIssue library input tick wallTime finalStep) pass = .ok next)
    {memberId : ℤ} (hmem : memberId ∈ holders issues) :
    memberId ∈
      credits input (issueVisits library input tick wallTime finalStep pass issues) := by
  induction issues generalizing pass with
  | nil => cases hmem
  | cons issue waiting ih =>
    rw [List.foldlM_cons, bind_eq_ok] at h
    obtain ⟨middle, hmiddle, h⟩ := h
    rw [issueVisits_cons hmiddle, credits_cons, List.mem_append]
    rw [holders_cons, List.mem_append] at hmem
    rcases hmem with hself | hwaiting
    · obtain ⟨other, hother, hopen, hworker⟩ := mem_holders.mp hself
      rw [List.mem_singleton.mp hother] at hopen hworker
      exact .inl (Option.mem_toList.mpr
        (Visit.credit_of_worker hopen (hknown issue List.mem_cons_self) hworker))
    · exact .inr (ih (fun other hother => hknown other (List.mem_cons_of_mem _ hother)) h hwaiting)

/-- When no member is credited twice in a tick that succeeds, each of its visits is free. -/
theorem free_of_credits_nodup {issues : List IssueSnapshot}
    (hknown : ∀ issue ∈ issues, StepKnown input.workflowSteps issue)
    (h : issues.foldlM (passIssue library input tick wallTime finalStep) pass = .ok next)
    (hnodup : (credits input
      (issueVisits library input tick wallTime finalStep pass issues)).Nodup) :
    ∀ visit ∈ issueVisits library input tick wallTime finalStep pass issues,
      visit.Free input := by
  induction issues generalizing pass with
  | nil => exact fun visit hvisit => by cases hvisit
  | cons issue waiting ih =>
    rw [List.foldlM_cons, bind_eq_ok] at h
    obtain ⟨middle, hmiddle, h⟩ := h
    have hwaiting : ∀ other ∈ waiting, StepKnown input.workflowSteps other :=
      fun other hother => hknown other (List.mem_cons_of_mem _ hother)
    rw [issueVisits_cons hmiddle, credits_cons, List.nodup_append] at hnodup
    rw [issueVisits_cons hmiddle]
    intro visit hvisit
    rcases List.mem_cons.mp hvisit with rfl | hlater
    · intro memberId htaken other hother hopen hworker
      obtain ⟨issue', hresult⟩ := issueVisit_spec waiting
        (hknown issue List.mem_cons_self) hmiddle
      have hnow := Option.mem_toList.mpr (hresult.taken memberId htaken)
      have hagain := holder_credited hwaiting h (mem_holders.mpr ⟨other, hother, hopen, hworker⟩)
      exact hnodup.2.2 memberId hnow memberId hagain rfl
    · exact ih hwaiting h hnodup.2.1 visit hlater

end tick

/-! ### The ticks of a sprint -/

section sprint

variable {tick : ℕ} {wallTime : Moment} {firstStep finalStep : WorkflowStepSnapshot}
  {run next : SprintRun library}

/-- The issues of a sprint between two ticks: their steps are known, and no two hold one member. -/
structure TickStart (input : SprintInput) (issues : List IssueSnapshot) : Prop where
  known : ∀ issue ∈ issues, StepKnown input.workflowSteps issue
  distinct : (holders issues).Nodup

theorem passTick_eq_ok (h : passTick library input tick wallTime finalStep run = .ok next) :
    ∃ pass, run.issues.foldlM (passIssue library input tick wallTime finalStep)
      (startPass input run) = .ok pass ∧ next.issues = pass.passed := by
  simp only [passTick, bind_eq_ok, pure_eq_ok] at h
  obtain ⟨pass, hpass, rfl⟩ := h
  exact ⟨pass, hpass, rfl⟩

theorem tickVisits_exclusive (hstart : TickStart input run.issues)
    (hfree : ∀ visit ∈ issueVisits library input tick wallTime finalStep (startPass input run)
      run.issues, visit.Free input) :
    (credits input (issueVisits library input tick wallTime finalStep (startPass input run)
      run.issues)).Nodup :=
  (issueVisits_exclusive [] hstart.known (buildMemberStates_spec input.members).1
    (by simp) (by simp) hstart.distinct hfree).1

theorem passTick_start (hstart : TickStart input run.issues)
    (hnodup : (credits input (issueVisits library input tick wallTime finalStep
      (startPass input run) run.issues)).Nodup)
    (h : passTick library input tick wallTime finalStep run = .ok next) :
    TickStart input next.issues := by
  obtain ⟨pass, hpass, hissues⟩ := passTick_eq_ok h
  obtain ⟨issues', hpassed, hknown, hsub⟩ := holders_sublist_credits hstart.known hpass
  rw [hissues, hpassed]
  exact ⟨hknown, hnodup.sublist hsub⟩

theorem activeVisits_exclusive {times : List Moment} (hstart : TickStart input run.issues)
    (hfree : ∀ visits ∈ activeVisits library input finalStep tick times run,
      ∀ visit ∈ visits, visit.Free input) :
    ∀ visits ∈ activeVisits library input finalStep tick times run,
      (credits input visits).Nodup := by
  induction times generalizing tick run with
  | nil => exact fun visits hvisits => by cases hvisits
  | cons wallTime times ih =>
    unfold activeVisits at hfree ⊢
    have hnow := tickVisits_exclusive hstart (hfree _ List.mem_cons_self)
    intro visits hvisits
    rcases List.mem_cons.mp hvisits with rfl | hlater
    · exact hnow
    · cases hnext : passTick library input tick wallTime finalStep run with
      | error e =>
        rw [hnext] at hlater
        cases hlater
      | ok next =>
        rw [hnext] at hlater hfree
        dsimp only at hlater hfree
        split_ifs at hlater hfree with hall
        · cases hlater
        · exact ih (passTick_start hstart hnow hnext)
            (fun visits hmem => hfree visits (List.mem_cons_of_mem _ hmem)) visits hlater

theorem activeVisits_free {times : List Moment} (hstart : TickStart input run.issues)
    (h : activeTicks library input finalStep tick times run = .ok next)
    (hnodup : ∀ visits ∈ activeVisits library input finalStep tick times run,
      (credits input visits).Nodup) :
    ∀ visits ∈ activeVisits library input finalStep tick times run,
      ∀ visit ∈ visits, visit.Free input := by
  induction times generalizing tick run with
  | nil => exact fun visits hvisits => by cases hvisits
  | cons wallTime times ih =>
    unfold activeTicks at h
    rw [bind_eq_ok] at h
    obtain ⟨middle, hmiddle, h⟩ := h
    unfold activeVisits at hnodup ⊢
    rw [hmiddle] at hnodup ⊢
    have hnow := hnodup _ List.mem_cons_self
    obtain ⟨pass, hpass, -⟩ := passTick_eq_ok hmiddle
    intro visits hvisits
    rcases List.mem_cons.mp hvisits with rfl | hlater
    · exact free_of_credits_nodup hstart.known hpass hnow
    · dsimp only at hlater hnodup
      split_ifs at h hlater hnodup with hall
      · cases hlater
      · exact ih (passTick_start hstart hnow hmiddle) h
          (fun visits hmem => hnodup visits (List.mem_cons_of_mem _ hmem)) visits hlater

/-- The issues enter the sprint without workers. -/
theorem planItem_idle {planningTime : Moment} {item : BacklogItem}
    (hfirst : firstStep ∈ input.workflowSteps)
    (hrun : ∀ issue ∈ run.issues, StepKnown input.workflowSteps issue ∧ issue.worker = none)
    (h : planItem library input firstStep planningTime run item = .ok next) :
    ∀ issue ∈ next.issues, StepKnown input.workflowSteps issue ∧ issue.worker = none := by
  unfold planItem at h
  cases hfind : input.backlogIssues.find? fun issue => issue.id = item.id with
  | none =>
    rw [hfind] at h
    cases h
    exact hrun
  | some original =>
    rw [hfind] at h
    simp only [bind_eq_ok, pure_eq_ok] at h
    obtain ⟨⟨issue, action, rng⟩, henter, rfl⟩ := h
    simp only [enterStatus, bind_eq_ok, pure_eq_ok, Prod.mk.injEq] at henter
    obtain ⟨⟨full, work, rng'⟩, -, rfl, -, -⟩ := henter
    intro other hother
    rcases List.mem_append.mp hother with hold | hnew
    · exact hrun other hold
    · rw [List.mem_singleton.mp hnew]
      exact ⟨stepKnown_of_mem hfirst rfl, rfl⟩

theorem planningTick_start {planningTime : Moment} {rng : library.State} {capacityTarget : ℤ}
    (hfirst : firstStep ∈ input.workflowSteps)
    (h : planningTick library input firstStep planningTime rng = .ok (run, capacityTarget)) :
    TickStart input run.issues := by
  simp only [planningTick, bind_eq_ok, pure_eq_ok, Prod.mk.injEq] at h
  obtain ⟨stream, -, ⟨selected, target, rng'⟩, -, planned, hplanned, rfl, -⟩ := h
  have hidle : ∀ issue ∈ planned.issues,
      StepKnown input.workflowSteps issue ∧ issue.worker = none := by
    refine foldlM_induction (motive := fun run : SprintRun library => ∀ issue ∈ run.issues,
      StepKnown input.workflowSteps issue ∧ issue.worker = none) hplanned ?_ ?_
    · exact fun issue hissue => by cases hissue
    · exact fun run item next _ hrun hnext => planItem_idle hfirst hrun hnext
  refine ⟨fun issue hissue => (hidle issue hissue).1, ?_⟩
  have hnone : holders planned.issues = [] := by
    rw [List.eq_nil_iff_forall_not_mem]
    intro memberId hmem
    obtain ⟨issue, hissue, -, hworker⟩ := mem_holders.mp hmem
    rw [(hidle issue hissue).2] at hworker
    cases hworker
  show (holders planned.issues).Nodup
  rw [hnone]
  exact .nil

theorem sprintVisits_exclusive {fuel : ℕ} {rngSeed : ℤ}
    (hfree : ∀ visits ∈ sprintVisits library input fuel rngSeed, ∀ visit ∈ visits,
      visit.Free input) :
    ∀ visits ∈ sprintVisits library input fuel rngSeed, (credits input visits).Nodup := by
  unfold sprintVisits at hfree ⊢
  split at hfree
  · rename_i planningTime times firstStep finalStep hschedule hfirst hfinal
    split at hfree
    · rename_i run capacityTarget hplanning
      exact activeVisits_exclusive
        (planningTick_start (List.mem_of_head? hfirst) hplanning) hfree
    · exact fun visits hvisits => by cases hvisits
  · exact fun visits hvisits => by cases hvisits

theorem sprintVisits_free {fuel : ℕ} {rngSeed : ℤ} {result : PrecomputeResult}
    (h : precomputeSprint library input fuel rngSeed = .ok (some result))
    (hnodup : ∀ visits ∈ sprintVisits library input fuel rngSeed, (credits input visits).Nodup) :
    ∀ visits ∈ sprintVisits library input fuel rngSeed, ∀ visit ∈ visits, visit.Free input := by
  unfold sprintVisits at hnodup ⊢
  unfold precomputeSprint at h
  rw [bind_eq_ok] at h
  obtain ⟨schedule, hschedule, h⟩ := h
  split at hnodup
  · rename_i planningTime times firstStep finalStep hticks hfirst hfinal
    rw [hticks] at hschedule
    cases hschedule
    simp only [bind_eq_ok, pure_eq_ok, precomputeTicks, hfirst, hfinal] at h
    obtain ⟨result', ⟨⟨run, capacityTarget⟩, hplanning, run', hactive, -⟩, -⟩ := h
    rw [hplanning] at hnodup ⊢
    exact activeVisits_free
      (planningTick_start (List.mem_of_head? hfirst) hplanning) hactive hnodup
  · exact fun visits hvisits => by cases hvisits

/-- In a tick, each member works on one issue when no visit takes a member from a waiting issue; in
a precomputation that returns, only then. -/
theorem members_exclusive (library : StandardLibrary) (input : SprintInput) (fuel : ℕ)
    (rngSeed : ℤ) :
    ((∀ visits ∈ sprintVisits library input fuel rngSeed, ∀ visit ∈ visits, visit.Free input) →
      ∀ visits ∈ sprintVisits library input fuel rngSeed, (credits input visits).Nodup) ∧
    ((∃ result, precomputeSprint library input fuel rngSeed = .ok (some result)) →
      (∀ visits ∈ sprintVisits library input fuel rngSeed, (credits input visits).Nodup) →
      ∀ visits ∈ sprintVisits library input fuel rngSeed, ∀ visit ∈ visits,
        visit.Free input) :=
  ⟨sprintVisits_exclusive, fun ⟨_, h⟩ => sprintVisits_free h⟩

/-- Two issues with eight hours of work each, and a developer for each of them. -/
def twoDevelopers : SprintInput :=
  { dayOfWork with
    backlogIssues := [newIssue 1, newIssue 2]
    touchTimeConfigs := [
      { workflowStepId := 1, issueType := "Story", storyPoints := 3, minHours := 8, maxHours := 8
        fullTimeP25 := none, fullTimeP50 := none, fullTimeP99 := none }]
    members := [{ id := 1, role := "DEV" }, { id := 2, role := "DEV" }]
    team := { dayOfWork.team with sprintCapacityMin := 6, sprintCapacityMax := 6 }
    sprintLengthDays := 2
    distinct := by decide }

instance (input : SprintInput) (visit : Visit library) : Decidable (visit.Free input) :=
  match htaken : visit.taken input with
  | none => isTrue fun memberId hsome => by
      rw [htaken] at hsome
      cases hsome
  | some memberId =>
    decidable_of_iff (∀ other ∈ visit.waiting, other.completedAt = none →
      other.worker ≠ some memberId)
      ⟨fun h memberId' hsome => by
        rw [htaken] at hsome
        exact Option.some.inj hsome ▸ h, fun h => h memberId htaken⟩

/-- Both developers work in both ticks of the issues, each on one of them. -/
theorem members_exclusive_twoDevelopers :
    (sprintVisits leastDraws twoDevelopers 5 0).map (credits twoDevelopers) = [[1, 2], [1, 2]] ∧
      ∀ visits ∈ sprintVisits leastDraws twoDevelopers 5 0,
        (credits twoDevelopers visits).Nodup := by
  refine ⟨by decide +kernel, (members_exclusive leastDraws twoDevelopers 5 0).1 ?_⟩
  decide +kernel

/-- Two issues share one developer: the first one passes through a step without work, and then takes
the developer whom the second one holds. -/
def sharedDeveloper : SprintInput :=
  { dayOfWork with
    backlogIssues := [{ newIssue 1 with issueType := "Bug" }, newIssue 2]
    workflowSteps := [
      { id := 1, jiraStatus := "In Progress", order := 1, roleRequired := some "DEV"
        rolesJson := none },
      { id := 2, jiraStatus := "Review", order := 2, roleRequired := some "DEV"
        rolesJson := none },
      { id := 3, jiraStatus := "Done", order := 3, roleRequired := none, rolesJson := none }]
    touchTimeConfigs := [
      { workflowStepId := 1, issueType := "Story", storyPoints := 3, minHours := 8, maxHours := 8
        fullTimeP25 := none, fullTimeP50 := none, fullTimeP99 := none },
      { workflowStepId := 2, issueType := "Bug", storyPoints := 3, minHours := 8, maxHours := 8
        fullTimeP25 := none, fullTimeP50 := none, fullTimeP99 := none }]
    team := { dayOfWork.team with sprintCapacityMin := 6, sprintCapacityMax := 6 }
    sprintLengthDays := 2
    distinct := by decide }

theorem sharedDeveloper_credits :
    ((precomputeSprint leastDraws sharedDeveloper 5 0).toOption.bind id).isSome = true ∧
      ¬ ∀ visits ∈ sprintVisits leastDraws sharedDeveloper 5 0,
        (credits sharedDeveloper visits).Nodup := by
  refine ⟨by decide +kernel, fun h => ?_⟩
  have hall : ((sprintVisits leastDraws sharedDeveloper 5 0).map
      (credits sharedDeveloper)).all (fun members => decide members.Nodup) = false := by
    decide +kernel
  rw [List.all_map, List.all_eq_false] at hall
  obtain ⟨visits, hvisits, hnot⟩ := hall
  exact hnot (decide_eq_true (h visits hvisits))

end sprint

end JiraSimulator.Engine
