import JiraSimulator.Correctness.EventStreams

/-!
# The issues of a precomputed sprint

The result of a precomputation is about the items that the planning selects: they are its issues,
with their points, and only they have events; each of them enters the first step.  There is one
`CREATE_SPRINT` event, when there is a board.

* `precompute_plan`: the selected issues, their points and their events.
-/

namespace JiraSimulator.Engine

open Library Library.Outcome

variable {library : StandardLibrary} {input : SprintInput}

/-! ### Identifiers -/

section identifiers

variable {tick : ℕ} {wallTime : Moment} {finalStep : WorkflowStepSnapshot}

theorem ItemOutcome.id_eq {config : WorkflowConfig} {issue : IssueSnapshot}
    {result : ItemTickResult library} (h : ItemOutcome config issue result) :
    result.issue.id = issue.id := by
  cases h with
  | rests hsame _ _ => exact hsame.id
  | done hid _ _ => exact hid
  | moves _ hsame _ _ => exact hsame.id

/-- The events that are added to a stream all have a property. -/
def Extends (P : ScheduledEventData → Prop) (stream stream' : EventStream) : Prop :=
  ∃ extra, stream'.events = stream.events ++ extra ∧ ∀ event ∈ extra, P event

theorem Extends.refl (P : ScheduledEventData → Prop) (stream : EventStream) :
    Extends P stream stream :=
  ⟨[], (List.append_nil _).symm, by simp⟩

theorem Extends.trans {P : ScheduledEventData → Prop} {a b c : EventStream} (hab : Extends P a b)
    (hbc : Extends P b c) : Extends P a c := by
  obtain ⟨first, hfirst, hP⟩ := hab
  obtain ⟨second, hsecond, hP'⟩ := hbc
  refine ⟨first ++ second, ?_, fun event hevent => ?_⟩
  · rw [hsecond, hfirst, List.append_assoc]
  · rcases List.mem_append.mp hevent with h | h
    · exact hP event h
    · exact hP' event h

/-- An added event has the property that its action gives it. -/
theorem extends_add {P : ScheduledEventData → Prop} {stream : EventStream}
    {action : JiraWriteAction}
    (hP : ∀ seq, P ⟨tick, wallTime, action.operationType, action.payload, action.issueId, seq⟩) :
    Extends P stream (stream.add tick wallTime action) := by
  refine ⟨_, rfl, fun event hevent => ?_⟩
  rw [List.mem_singleton.mp hevent]
  exact hP _

/-- An event of the active phase or of the planning: it does not create a sprint, and it is of one
of the issues when it is of an issue. -/
def OfIssues (ids : List ℤ) (event : ScheduledEventData) : Prop :=
  event.eventType ≠ "CREATE_SPRINT" ∧ ∀ issueId, event.issueId = some issueId → issueId ∈ ids

theorem extends_sprintEvent {ids : List ℤ} {operationType : String} {stream : EventStream}
    (htype : operationType ≠ "CREATE_SPRINT") :
    Extends (OfIssues ids) stream (sprintEvent input operationType tick wallTime stream) := by
  unfold sprintEvent
  cases given input.jiraSprintId with
  | none => exact .refl _ _
  | some sprintId => exact extends_add fun _ => ⟨htype, nofun⟩

/-- What a visit of an active tick adds. -/
theorem passIssue_extends {pass next : Pass library} {issue : IssueSnapshot} {ids : List ℤ}
    (hid : issue.id ∈ ids)
    (h : passIssue library input tick wallTime finalStep pass issue = .ok next) :
    Extends (OfIssues ids) pass.stream next.stream ∧
      next.passed.map (·.id) = pass.passed.map (·.id) ++ [issue.id] := by
  unfold passIssue at h
  split_ifs at h
  · cases h
    exact ⟨.refl _ _, by simp⟩
  · simp only [bind_eq_ok, pure_eq_ok] at h
    obtain ⟨result, hresult, rfl⟩ := h
    have houtcome := processItemTick_outcome hresult
    refine ⟨?_, ?_⟩
    · cases houtcome with
      | rests _ hactions _ =>
        rw [hactions]
        exact .refl _ _
      | done _ hactions _ =>
        rw [hactions]
        exact .refl _ _
      | moves step hsame hactions _ =>
        rw [hactions]
        refine extends_add fun _ => ⟨show "TRANSITION_ISSUE" ≠ _ by decide, ?_⟩
        rintro issueId hissue
        cases hissue
        rw [hsame.id]
        exact hid
    · rw [List.map_append, List.map_singleton]
      split_ifs
      · exact congrArg (fun i => pass.passed.map (·.id) ++ [i]) houtcome.id_eq
      · rw [houtcome.id_eq]

theorem passIssues_extends {pass next : Pass library} {issues : List IssueSnapshot} {ids : List ℤ}
    (hids : ∀ issue ∈ issues, issue.id ∈ ids)
    (h : issues.foldlM (passIssue library input tick wallTime finalStep) pass = .ok next) :
    Extends (OfIssues ids) pass.stream next.stream ∧
      next.passed.map (·.id) = pass.passed.map (·.id) ++ issues.map (·.id) := by
  induction issues generalizing pass with
  | nil =>
    cases h
    exact ⟨.refl _ _, by simp⟩
  | cons issue issues ih =>
    rw [List.foldlM_cons, bind_eq_ok] at h
    obtain ⟨middle, hmiddle, hrest⟩ := h
    obtain ⟨hfirst, hpassed⟩ := passIssue_extends (hids issue List.mem_cons_self) hmiddle
    obtain ⟨hsecond, hpassed'⟩ :=
      ih (fun other hother => hids other (List.mem_cons_of_mem _ hother)) hrest
    refine ⟨hfirst.trans hsecond, ?_⟩
    rw [hpassed', hpassed, List.append_assoc, List.map_cons, List.singleton_append]

/-- The active phase leaves the issues and their points, and adds events of the issues. -/
structure Continues (run run' : SprintRun library) : Prop where
  stream : Extends (OfIssues (run.issues.map (·.id))) run.stream run'.stream
  ids : run'.issues.map (·.id) = run.issues.map (·.id)
  points : run'.committedPoints = run.committedPoints

theorem Continues.trans {a b c : SprintRun library} (hab : Continues a b) (hbc : Continues b c) :
    Continues a c := by
  refine ⟨hab.stream.trans ?_, hbc.ids.trans hab.ids, hbc.points.trans hab.points⟩
  rw [← hab.ids]
  exact hbc.stream

theorem passTick_continues {run run' : SprintRun library}
    (h : passTick library input tick wallTime finalStep run = .ok run') : Continues run run' := by
  simp only [passTick, bind_eq_ok, pure_eq_ok] at h
  obtain ⟨pass, hpass, rfl⟩ := h
  obtain ⟨hstream, hids⟩ := passIssues_extends
    (fun issue hissue => List.mem_map_of_mem hissue) hpass
  exact ⟨hstream, hids, rfl⟩

theorem activeTicks_continues {times : List Moment} {run run' : SprintRun library}
    (h : activeTicks library input finalStep tick times run = .ok run') : Continues run run' := by
  induction times generalizing tick run with
  | nil =>
    cases h
    exact ⟨.refl _ _, rfl, rfl⟩
  | cons wallTime times ih =>
    unfold activeTicks at h
    rw [bind_eq_ok] at h
    obtain ⟨next, hnext, h⟩ := h
    have hfirst := passTick_continues hnext
    split_ifs at h
    · cases h
      refine hfirst.trans ⟨?_, rfl, rfl⟩
      exact extends_sprintEvent (by decide)
    · exact hfirst.trans (ih h)

end identifiers

/-! ### Planning -/

section planning

variable {firstStep : WorkflowStepSnapshot} {planningTime : Moment} {run run' : SprintRun library}

/-- The items of a backlog stand for its issues. -/
theorem find_backlog {item : BacklogItem} (h : item ∈ input.backlog) :
    ∃ issue, input.backlogIssues.find? (fun issue => issue.id = item.id) = some issue ∧
      issue.id = item.id ∧ issue.points = item.storyPoints := by
  obtain ⟨original, horiginal, rfl⟩ := List.mem_map.mp h
  have hfind : input.backlogIssues.find? (fun issue => issue.id = original.id) = some original :=
    (Keyed.lookup_eq_some (fun issue : IssueSnapshot => issue.id) input.distinct).mpr
      ⟨horiginal, rfl⟩
  exact ⟨original, hfind, rfl, rfl⟩

/-- What the planning of some items gives. -/
structure Planned (items : List BacklogItem) (run run' : SprintRun library) : Prop where
  stream : Extends (OfIssues (items.map (·.id))) run.stream run'.stream
  ids : run'.issues.map (·.id) = run.issues.map (·.id) ++ items.map (·.id)
  points : run'.committedPoints = run.committedPoints + (items.map (·.storyPoints)).sum
  enters : ∀ item ∈ items, ∃ event ∈ run'.stream.events,
    event.issueId = some item.id ∧ event.eventType = "TRANSITION_ISSUE"

theorem Extends.mem {P : ScheduledEventData → Prop} {a b : EventStream} (h : Extends P a b)
    {event : ScheduledEventData} (hevent : event ∈ a.events) : event ∈ b.events := by
  obtain ⟨extra, hextra, -⟩ := h
  rw [hextra]
  exact List.mem_append_left _ hevent

theorem Extends.mono {P Q : ScheduledEventData → Prop} {a b : EventStream} (h : Extends P a b)
    (hPQ : ∀ event, P event → Q event) : Extends Q a b := by
  obtain ⟨extra, hextra, hP⟩ := h
  exact ⟨extra, hextra, fun event hevent => hPQ event (hP event hevent)⟩

theorem OfIssues.mono {ids ids' : List ℤ} (hsub : ids ⊆ ids') {event : ScheduledEventData}
    (h : OfIssues ids event) : OfIssues ids' event :=
  ⟨h.1, fun issueId hissue => hsub (h.2 issueId hissue)⟩

theorem addToSprintEvent_extends {issue : IssueSnapshot} {stream : EventStream} {ids : List ℤ}
    (hid : issue.id ∈ ids) :
    Extends (OfIssues ids) stream (addToSprintEvent input planningTime issue stream) := by
  unfold addToSprintEvent
  split
  · split_ifs
    · exact .refl _ _
    · refine extends_add fun _ => ⟨show "ADD_TO_SPRINT" ≠ _ by decide, ?_⟩
      rintro issueId hissue
      cases hissue
      exact hid
  · exact .refl _ _

theorem planItem_planned {item : BacklogItem} (hitem : item ∈ input.backlog)
    (h : planItem library input firstStep planningTime run item = .ok run') :
    Planned [item] run run' := by
  obtain ⟨original, hfind, hid, hpoints⟩ := find_backlog hitem
  unfold planItem at h
  rw [hfind] at h
  simp only [bind_eq_ok, pure_eq_ok] at h
  obtain ⟨⟨issue, action, rng⟩, henter, rfl⟩ := h
  obtain ⟨hsame, -, -, hstory, -, rfl⟩ := enterStatus_eq_ok henter
  have hissue : issue.id = item.id := hsame.id.trans hid
  have hmem : issue.id ∈ [item].map (·.id) := by simp [hissue]
  have hadd : Extends (OfIssues ([item].map (·.id))) run.stream
      (run.stream.add 0 planningTime (transitionAction issue firstStep.jiraStatus)) := by
    refine extends_add fun _ => ⟨show "TRANSITION_ISSUE" ≠ _ by decide, ?_⟩
    rintro issueId hissue'
    cases hissue'
    exact hmem
  let entered := run.stream.add 0 planningTime (transitionAction issue firstStep.jiraStatus)
  have hjoin : Extends (OfIssues ([item].map (·.id))) entered
      (addToSprintEvent input planningTime issue entered) := addToSprintEvent_extends hmem
  refine ⟨hadd.trans hjoin, ?_, ?_, ?_⟩
  · simp [hissue]
  · have hsamePoints : issue.points = item.storyPoints := by
      rw [← hpoints]
      unfold IssueSnapshot.points
      rw [hstory]
    simp [hsamePoints]
  · intro other hother
    rw [List.mem_singleton.mp hother]
    refine ⟨_, hjoin.mem (List.mem_append_right _ (List.mem_singleton_self _)), ?_, rfl⟩
    exact congrArg some hissue

theorem planItems_planned {items : List BacklogItem} (hitems : ∀ item ∈ items, item ∈ input.backlog)
    (h : items.foldlM (planItem library input firstStep planningTime) run = .ok run') :
    Planned items run run' := by
  induction items generalizing run with
  | nil =>
    cases h
    exact ⟨.refl _ _, by simp, by simp, by simp⟩
  | cons item items ih =>
    rw [List.foldlM_cons, bind_eq_ok] at h
    obtain ⟨middle, hmiddle, hrest⟩ := h
    have hfirst := planItem_planned (hitems item List.mem_cons_self) hmiddle
    have hlater := ih (fun other hother => hitems other (List.mem_cons_of_mem _ hother)) hrest
    refine ⟨?_, ?_, ?_, ?_⟩
    · refine (hfirst.stream.mono fun _ => OfIssues.mono ?_).trans
        (hlater.stream.mono fun _ => OfIssues.mono ?_)
      · simp
      · simp
    · rw [hlater.ids, hfirst.ids, List.append_assoc, List.map_cons, List.map_cons, List.map_nil,
        List.singleton_append]
    · rw [hlater.points, hfirst.points]
      simp
      omega
    · intro other hother
      rcases List.mem_cons.mp hother with rfl | hmem
      · obtain ⟨event, hevent, hissue, htype⟩ := hfirst.enters other (List.mem_singleton_self _)
        exact ⟨event, hlater.stream.mem hevent, hissue, htype⟩
      · exact hlater.enters other hmem

theorem planSprint_subset {source : RandomSource} {backlog selected : List BacklogItem}
    {capacityMin capacityMax target : ℤ} {randomized : Bool} {rng rng' : source.State}
    (h : planSprint source backlog capacityMin capacityMax randomized rng =
      .ok (selected, target, rng')) : ∀ item ∈ selected, item ∈ backlog := by
  obtain ⟨ordered, hperm, hinitial⟩ := planSprint_eq_ok h
  exact fun item hitem => hperm.mem_iff.mp (hinitial.subset hitem)

end planning

/-! ### The result -/

/-- The number of `CREATE_SPRINT` events. -/
def createCount (events : List ScheduledEventData) : ℕ :=
  events.countP fun event => event.eventType = "CREATE_SPRINT"

/-- The selected items, and the issues, points and events of the result. -/
structure PlanResult (input : SprintInput) (items : List BacklogItem)
    (result : PrecomputeResult) : Prop where
  selected : result.selectedIssueIds = items.map (·.id)
  points : result.committedPoints = (items.map (·.storyPoints)).sum
  enters : ∀ item ∈ items, ∃ event ∈ result.events,
    event.issueId = some item.id ∧ event.eventType = "TRANSITION_ISSUE"
  ofIssues : ∀ event ∈ result.events, ∀ issueId, event.issueId = some issueId →
    issueId ∈ items.map (·.id)
  creates : createCount result.events = if (given input.jiraBoardId).isSome then 1 else 0

theorem createSprintEvent_count {planningTime : Moment} {stream : EventStream}
    (h : createSprintEvent library input planningTime ⟨[], 0⟩ = .ok stream) :
    createCount stream.events = (if (given input.jiraBoardId).isSome then 1 else 0) ∧
      ∀ event ∈ stream.events, event.issueId = none := by
  unfold createSprintEvent at h
  cases hboard : given input.jiraBoardId with
  | none =>
    rw [hboard] at h
    cases h
    exact ⟨rfl, by simp⟩
  | some boardId =>
    rw [hboard] at h
    simp only [bind_eq_ok, pure_eq_ok] at h
    obtain ⟨sprintEnd, -, rfl⟩ := h
    refine ⟨rfl, fun event hevent => ?_⟩
    rw [List.mem_singleton.mp hevent]

theorem Extends.createCount {ids : List ℤ} {a b : EventStream} (h : Extends (OfIssues ids) a b) :
    Engine.createCount b.events = Engine.createCount a.events := by
  obtain ⟨extra, hextra, hP⟩ := h
  unfold Engine.createCount
  rw [hextra, List.countP_append]
  have hnone : extra.countP (fun event => event.eventType = "CREATE_SPRINT") = 0 := by
    rw [List.countP_eq_zero]
    intro event hevent
    simpa using (hP event hevent).1
  rw [hnone, Nat.add_zero]

theorem completeAtEnd_extends {ids : List ℤ} {tick : ℕ} {wallTime : Moment}
    (stream : EventStream) :
    Extends (OfIssues ids) stream (completeAtEnd input tick wallTime stream) := by
  unfold completeAtEnd
  split_ifs
  · exact .refl _ _
  · exact extends_sprintEvent (by decide)

/-- The plan of a precomputation with a tick and a step. -/
theorem precomputeTicks_plan {times : List Moment} {rngSeed : ℤ} {result : PrecomputeResult}
    (hne : times ≠ []) (hsteps : input.workflowSteps ≠ [])
    (h : precomputeTicks library input rngSeed times = .ok result) :
    ∃ items target rng, planSprint library.toRandomSource input.backlog
        input.team.sprintCapacityMin input.team.sprintCapacityMax input.team.priorityRandomization
        (library.seeded rngSeed) = .ok (items, target, rng) ∧ PlanResult input items result := by
  obtain ⟨planningTime, rest, rfl⟩ := List.exists_cons_of_ne_nil hne
  unfold precomputeTicks at h
  rw [List.head?_eq_some_head hsteps, List.getLast?_eq_some_getLast hsteps] at h
  simp only [bind_eq_ok, pure_eq_ok] at h
  obtain ⟨⟨run, capacityTarget⟩, hplanning, run', hticks, rfl⟩ := h
  simp only [planningTick, bind_eq_ok, pure_eq_ok, Prod.mk.injEq] at hplanning
  obtain ⟨stream, hstream, ⟨items, target, rng⟩, hselected, planned, hplanned, rfl, -⟩ := hplanning
  obtain ⟨hcount, hnone⟩ := createSprintEvent_count hstream
  have hplan := planItems_planned (planSprint_subset hselected) hplanned
  have hcontinues := activeTicks_continues hticks
  have hids : planned.issues.map (·.id) = items.map (·.id) := by
    rw [hplan.ids, List.map_nil, List.nil_append]
  -- from the stream with the first event on, every event is of the issues
  have hextends : Extends (OfIssues (items.map (·.id))) stream
      (completeAtEnd input rest.length
        ((planningTime :: rest).getLast (List.cons_ne_nil _ _)) run'.stream) := by
    have hactive := hcontinues.stream
    rw [hids] at hactive
    exact hplan.stream.trans ((extends_sprintEvent (by decide)).trans
      (hactive.trans (completeAtEnd_extends _)))
  refine ⟨items, target, rng, hselected, ?_, ?_, ?_, ?_, ?_⟩
  · exact hcontinues.ids.trans hids
  · rw [hcontinues.points, hplan.points, zero_add]
  · intro item hitem
    obtain ⟨event, hevent, hissue, htype⟩ := hplan.enters item hitem
    refine ⟨event, ?_, hissue, htype⟩
    have hstart : Extends (OfIssues (items.map (·.id))) planned.stream
        (sprintEvent input "UPDATE_SPRINT" 0 planningTime planned.stream) :=
      extends_sprintEvent (by decide)
    have hend : Extends (OfIssues (planned.issues.map (·.id))) run'.stream
        (completeAtEnd input rest.length
          ((planningTime :: rest).getLast (List.cons_ne_nil _ _)) run'.stream) :=
      completeAtEnd_extends _
    exact hend.mem (hcontinues.stream.mem (hstart.mem hevent))
  · intro event hevent issueId hissue
    obtain ⟨extra, hextra, hP⟩ := hextends
    rw [hextra] at hevent
    rcases List.mem_append.mp hevent with hold | hnew
    · rw [hnone event hold] at hissue
      cases hissue
    · exact (hP event hnew).2 issueId hissue
  · rw [hextends.createCount, hcount]

/-- The plan of a precomputation: of a draw of the planning, or of nothing without a tick. -/
theorem precompute_plan {fuel : ℕ} {rngSeed : ℤ} {result : PrecomputeResult}
    (hsteps : input.workflowSteps ≠ [])
    (h : precomputeSprint library input fuel rngSeed = .ok (some result)) :
    (tickSchedule input fuel = .ok (some []) ∧ result = .empty rngSeed) ∨
      (tickSchedule input fuel ≠ .ok (some []) ∧
        ∃ items target rng, planSprint library.toRandomSource input.backlog
            input.team.sprintCapacityMin input.team.sprintCapacityMax
            input.team.priorityRandomization (library.seeded rngSeed) =
              .ok (items, target, rng) ∧
          PlanResult input items result) := by
  unfold precomputeSprint at h
  rw [bind_eq_ok] at h
  obtain ⟨schedule, hschedule, h⟩ := h
  cases schedule with
  | none => cases h
  | some times =>
    simp only [bind_eq_ok, pure_eq_ok, Option.some.injEq] at h
    obtain ⟨result', hresult, rfl⟩ := h
    cases times with
    | nil =>
      cases hresult
      exact .inl ⟨hschedule, rfl⟩
    | cons first times =>
      refine .inr ⟨?_, precomputeTicks_plan (List.cons_ne_nil _ _) hsteps hresult⟩
      rw [hschedule]
      simp

end JiraSimulator.Engine
