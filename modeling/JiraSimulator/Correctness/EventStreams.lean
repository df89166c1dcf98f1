import JiraSimulator.Correctness.ItemTicks
import JiraSimulator.Correctness.MovingSprint
import JiraSimulator.Correctness.TickSchedule

/-!
# The event stream of a precomputed sprint

Events are added at one tick after another, each with the next number and the time of its tick, and
the passes over the issues leave a completed issue alone.  So the times of the events go forward as
far as the tick times do.

* `StreamOrder.add`: what one added event keeps.
* `passTick_ordered`: what the pass of a tick keeps.
* `precompute_stream`: the shape of the whole stream, and when the times of its events go forward.
* `precompute_stream_back`: a sprint whose second tick is before its first.
-/

namespace JiraSimulator.Engine

open Library Library.Outcome

variable {library : StandardLibrary} {input : SprintInput}

/-! ### Order -/

/-- The events of a stream are numbered in order, at ticks that do not decrease up to the given one,
each at the time of its tick. -/
structure StreamOrder (times : List Moment) (tick : ℕ) (stream : EventStream) : Prop where
  counted : stream.seq = stream.events.length
  numbered : stream.events.map (·.sequenceOrder) = List.range stream.events.length
  ascending : stream.events.Pairwise fun a b => a.simTick ≤ b.simTick
  bounded : ∀ event ∈ stream.events, event.simTick ≤ tick
  timed : ∀ event ∈ stream.events, times[event.simTick]? = some event.wallClockTime

namespace StreamOrder

variable {times : List Moment} {tick : ℕ} {stream : EventStream}

theorem empty (times : List Moment) (tick : ℕ) : StreamOrder times tick ⟨[], 0⟩ where
  counted := rfl
  numbered := rfl
  ascending := .nil
  bounded _ h := by cases h
  timed _ h := by cases h

theorem later (h : StreamOrder times tick stream) {tick' : ℕ} (hle : tick ≤ tick') :
    StreamOrder times tick' stream :=
  { h with bounded := fun event hevent => (h.bounded event hevent).trans hle }

theorem add (h : StreamOrder times tick stream) {wallTime : Moment}
    (htime : times[tick]? = some wallTime) (action : JiraWriteAction) :
    StreamOrder times tick (stream.add tick wallTime action) where
  counted := by
    show stream.seq + 1 = (stream.events ++ [_]).length
    rw [List.length_append, h.counted]
    rfl
  numbered := by
    show (stream.events ++ [_]).map _ = List.range (stream.events ++ [_]).length
    rw [List.map_append, h.numbered, List.length_append, List.length_singleton,
      List.range_succ, List.map_singleton, h.counted]
  ascending := by
    show (stream.events ++ [_]).Pairwise _
    rw [List.pairwise_append]
    refine ⟨h.ascending, List.pairwise_singleton _ _, fun a ha b hb => ?_⟩
    rw [List.mem_singleton.mp hb]
    exact h.bounded a ha
  bounded event hevent := by
    rcases List.mem_append.mp hevent with hold | hnew
    · exact h.bounded event hold
    · rw [List.mem_singleton.mp hnew]
  timed event hevent := by
    rcases List.mem_append.mp hevent with hold | hnew
    · exact h.timed event hold
    · rw [List.mem_singleton.mp hnew]
      exact htime

theorem addAll (h : StreamOrder times tick stream) {wallTime : Moment}
    (htime : times[tick]? = some wallTime) (actions : List JiraWriteAction) :
    StreamOrder times tick (stream.addAll tick wallTime actions) := by
  induction actions generalizing stream with
  | nil => exact h
  | cons action actions ih => exact ih (h.add htime action)

theorem sprintEvent (h : StreamOrder times tick stream) {wallTime : Moment}
    (htime : times[tick]? = some wallTime) (operationType : String) :
    StreamOrder times tick (Engine.sprintEvent input operationType tick wallTime stream) := by
  unfold Engine.sprintEvent
  cases given input.jiraSprintId with
  | none => exact h
  | some sprintId => exact h.add htime _

end StreamOrder

/-- The events of a stream do not include the end of the sprint. -/
def Unfinished (stream : EventStream) : Prop :=
  ∀ event ∈ stream.events, event.eventType ≠ "COMPLETE_SPRINT"

theorem Unfinished.add {stream : EventStream} (h : Unfinished stream) {tick : ℕ}
    {wallTime : Moment} {action : JiraWriteAction}
    (htype : action.operationType ≠ "COMPLETE_SPRINT") :
    Unfinished (stream.add tick wallTime action) := by
  intro event hevent
  rcases List.mem_append.mp hevent with hold | hnew
  · exact h event hold
  · rw [List.mem_singleton.mp hnew]
    exact htype

/-! ### Completed issues -/

/-- The tick holds the last events of an issue, and at most one of them. -/
structure LastTick (events : List ScheduledEventData) (issueId : ℤ) (tick : ℕ) : Prop where
  last : ∀ event ∈ events, event.issueId = some issueId → event.simTick ≤ tick
  single : events.Pairwise fun a b =>
    a.issueId = some issueId → a.simTick = tick → b.issueId ≠ some issueId

theorem LastTick.of_before {events : List ScheduledEventData} {issueId : ℤ} {tick : ℕ}
    (hbefore : ∀ event ∈ events, event.issueId = some issueId → event.simTick < tick) :
    LastTick events issueId tick where
  last event hevent hissue := (hbefore event hevent hissue).le
  single := List.Pairwise.imp_of_mem (fun ha _ _ hissue htick =>
    absurd htick (hbefore _ ha hissue).ne) (List.pairwise_of_forall fun _ _ => trivial)

variable {stream : EventStream} {issueId : ℤ} {tick tick' : ℕ} {wallTime : Moment}
  {action : JiraWriteAction}

/-- An event of another issue, or of none, leaves the last tick of an issue. -/
theorem LastTick.add (h : LastTick stream.events issueId tick)
    (hne : action.issueId ≠ some issueId) :
    LastTick (stream.add tick' wallTime action).events issueId tick where
  last event hevent hissue := by
    rcases List.mem_append.mp hevent with hold | hnew
    · exact h.last event hold hissue
    · rw [List.mem_singleton.mp hnew] at hissue
      exact absurd hissue hne
  single := by
    show (stream.events ++ [_]).Pairwise _
    rw [List.pairwise_append]
    refine ⟨h.single, List.pairwise_singleton _ _, fun a _ b hb _ _ => ?_⟩
    rw [List.mem_singleton.mp hb]
    exact hne

/-- The first event of an issue in a tick may be its last one. -/
theorem LastTick.of_add
    (hbefore : ∀ event ∈ stream.events, event.issueId = some issueId → event.simTick < tick) :
    LastTick (stream.add tick wallTime action).events issueId tick where
  last event hevent hissue := by
    rcases List.mem_append.mp hevent with hold | hnew
    · exact (hbefore event hold hissue).le
    · rw [List.mem_singleton.mp hnew]
  single := by
    show (stream.events ++ [_]).Pairwise _
    rw [List.pairwise_append]
    refine ⟨(LastTick.of_before hbefore).single, List.pairwise_singleton _ _, ?_⟩
    intro a ha b _ hissue htick
    exact absurd htick (hbefore a ha hissue).ne

/-- The event moves its issue to a final step of the workflow. -/
def EntersFinalStep (input : SprintInput) (event : ScheduledEventData) : Prop :=
  event.eventType = "TRANSITION_ISSUE" ∧ ∃ step, isFinalStep input.workflowSteps step = true ∧
    event.payload.lookup "target_status" = some (.string step.jiraStatus)

/-- A completed issue was completed before the sprint, or it was completed at a tick after the
planning: its events end with this tick, which holds at most one, and this one moves it to a final
step. -/
def CompletedOnce (input : SprintInput) (times : List Moment) (events : List ScheduledEventData)
    (issue : IssueSnapshot) : Prop :=
  ∀ completion, issue.completedAt = some completion →
    (∃ original ∈ input.backlogIssues, original.id = issue.id ∧
      original.completedAt = some completion) ∨
    ∃ tick time, completion = .at time ∧ times[tick]? = some time ∧ 1 ≤ tick ∧
      LastTick events issue.id tick ∧
      ∀ event ∈ events, event.issueId = some issue.id → event.simTick = tick →
        EntersFinalStep input event

theorem CompletedOnce.add {times : List Moment} {issue : IssueSnapshot}
    (h : CompletedOnce input times stream.events issue) (hne : action.issueId ≠ some issue.id) :
    CompletedOnce input times (stream.add tick' wallTime action).events issue := by
  intro completion hcompletion
  refine (h completion hcompletion).imp_right ?_
  rintro ⟨tick, time, rfl, htime, hpos, hlast, hfinal⟩
  refine ⟨tick, time, rfl, htime, hpos, hlast.add hne, fun event hevent hissue htick => ?_⟩
  rcases List.mem_append.mp hevent with hold | hnew
  · exact hfinal event hold hissue htick
  · rw [List.mem_singleton.mp hnew] at hissue
    exact absurd hissue hne

/-! ### One pass -/

/-- The run after a tick. -/
structure RunOrder (input : SprintInput) (times : List Moment) (tick : ℕ)
    (run : SprintRun library) : Prop where
  order : StreamOrder times tick run.stream
  unfinished : Unfinished run.stream
  distinct : (run.issues.map (·.id)).Nodup
  completed : ∀ issue ∈ run.issues, CompletedOnce input times run.stream.events issue

/-- The pass of a tick, with the issues that it has still to visit: none of them has an event in
this tick. -/
structure PassOrder (input : SprintInput) (times : List Moment) (tick : ℕ) (pass : Pass library)
    (remaining : List IssueSnapshot) : Prop where
  order : StreamOrder times tick pass.stream
  unfinished : Unfinished pass.stream
  distinct : ((pass.passed ++ remaining).map (·.id)).Nodup
  completed : ∀ issue ∈ pass.passed ++ remaining,
    CompletedOnce input times pass.stream.events issue
  waiting : ∀ issue ∈ remaining, ∀ event ∈ pass.stream.events, event.issueId = some issue.id →
    event.simTick < tick

section pass

variable {times : List Moment} {finalStep : WorkflowStepSnapshot} {pass pass' : Pass library}
  {issue : IssueSnapshot} {remaining : List IssueSnapshot}

/-- A visit without an event. -/
theorem PassOrder.rest (hpass : PassOrder input times tick pass (issue :: remaining))
    {issue' : IssueSnapshot} (hid : issue'.id = issue.id)
    (hcompleted : CompletedOnce input times pass.stream.events issue')
    (memberStates : MemberStates) (rng : library.State) :
    PassOrder input times tick
      { pass with passed := pass.passed ++ [issue'], memberStates, rng } remaining where
  order := hpass.order
  unfinished := hpass.unfinished
  distinct := by
    have hids := hpass.distinct
    simp only [List.map_append, List.map_cons, List.append_assoc, List.cons_append,
      List.nil_append, hid] at hids ⊢
    exact hids
  completed other hother := by
    rw [List.append_assoc] at hother
    rcases List.mem_append.mp hother with hpassed | hrest
    · exact hpass.completed other (List.mem_append_left _ hpassed)
    · rcases List.mem_cons.mp hrest with rfl | hremaining
      · exact hcompleted
      · exact hpass.completed other
          (List.mem_append_right _ (List.mem_cons_of_mem _ hremaining))
  waiting other hother := hpass.waiting other (List.mem_cons_of_mem _ hother)

/-- The issue of a visit is not one of the others. -/
theorem PassOrder.other_ne (hpass : PassOrder input times tick pass (issue :: remaining))
    {other : IssueSnapshot} (hother : other ∈ pass.passed ++ remaining) : other.id ≠ issue.id := by
  have hids := hpass.distinct
  rw [List.map_append, List.map_cons, List.nodup_middle, ← List.map_append] at hids
  intro heq
  exact (List.nodup_cons.mp hids).1 (List.mem_map.mpr ⟨other, hother, heq⟩)

/-- A visit with one event of its issue. -/
theorem PassOrder.move (htime : times[tick]? = some wallTime)
    (hpass : PassOrder input times tick pass (issue :: remaining))
    {issue' : IssueSnapshot} (hid : issue'.id = issue.id)
    (haction : action.issueId = some issue.id)
    (htype : action.operationType ≠ "COMPLETE_SPRINT")
    (hcompleted : CompletedOnce input times (pass.stream.add tick wallTime action).events issue')
    (memberStates : MemberStates) (rng : library.State) :
    PassOrder input times tick
      { stream := pass.stream.add tick wallTime action, passed := pass.passed ++ [issue']
        memberStates, rng } remaining := by
  -- the event is of no other issue of the sprint
  have hother : ∀ other ∈ pass.passed ++ remaining, action.issueId ≠ some other.id := by
    intro other hmem heq
    rw [haction] at heq
    exact hpass.other_ne hmem (Option.some.inj heq).symm
  refine ⟨hpass.order.add htime action, hpass.unfinished.add htype, ?_, ?_, ?_⟩
  · have hids := hpass.distinct
    simp only [List.map_append, List.map_cons, List.append_assoc, List.cons_append,
      List.nil_append, hid] at hids ⊢
    exact hids
  · intro other hmem
    rw [List.append_assoc] at hmem
    rcases List.mem_append.mp hmem with hpassed | hrest
    · exact (hpass.completed other (List.mem_append_left _ hpassed)).add
        (hother other (List.mem_append_left _ hpassed))
    · rcases List.mem_cons.mp hrest with rfl | hremaining
      · exact hcompleted
      · exact (hpass.completed other
          (List.mem_append_right _ (List.mem_cons_of_mem _ hremaining))).add
          (hother other (List.mem_append_right _ hremaining))
  · intro other hmem event hevent hissue
    rcases List.mem_append.mp hevent with hold | hnew
    · exact hpass.waiting other (List.mem_cons_of_mem _ hmem) event hold hissue
    · rw [List.mem_singleton.mp hnew] at hissue
      exact absurd hissue (hother other (List.mem_append_right _ hmem))

theorem completedOnce_of_open {events : List ScheduledEventData} (h : issue.completedAt = none) :
    CompletedOnce input times events issue := by
  intro completion hcompletion
  rw [h] at hcompletion
  cases hcompletion

/-- An issue that is found done without an event in the tick. -/
theorem PassOrder.completedNow (htime : times[tick]? = some wallTime) (hpos : 1 ≤ tick)
    (hpass : PassOrder input times tick pass (issue :: remaining)) {issue' : IssueSnapshot}
    (hid : issue'.id = issue.id) (hat : issue'.completedAt = some (.at wallTime)) :
    CompletedOnce input times pass.stream.events issue' := by
  intro completion hcompletion
  rw [hat] at hcompletion
  cases hcompletion
  have hbefore : ∀ event ∈ pass.stream.events, event.issueId = some issue'.id →
      event.simTick < tick := by
    rw [hid]
    exact hpass.waiting issue List.mem_cons_self
  refine .inr ⟨tick, wallTime, rfl, htime, hpos, .of_before hbefore, ?_⟩
  intro event hevent hissue htick
  exact absurd htick (hbefore event hevent hissue).ne

/-- An issue that moves to a final step in the tick. -/
theorem PassOrder.completedMove (htime : times[tick]? = some wallTime) (hpos : 1 ≤ tick)
    (hpass : PassOrder input times tick pass (issue :: remaining)) {issue' : IssueSnapshot}
    (hid : issue'.id = issue.id) (hat : issue'.completedAt = some (.at wallTime))
    {step : WorkflowStepSnapshot} (hfinal : isFinalStep input.workflowSteps step = true)
    (moved : IssueSnapshot) :
    CompletedOnce input times
      (pass.stream.add tick wallTime (transitionAction moved step.jiraStatus)).events issue' := by
  intro completion hcompletion
  rw [hat] at hcompletion
  cases hcompletion
  have hbefore : ∀ event ∈ pass.stream.events, event.issueId = some issue'.id →
      event.simTick < tick := by
    rw [hid]
    exact hpass.waiting issue List.mem_cons_self
  refine .inr ⟨tick, wallTime, rfl, htime, hpos, .of_add hbefore, ?_⟩
  intro event hevent hissue htick
  rcases List.mem_append.mp hevent with hold | hnew
  · exact absurd htick (hbefore event hold hissue).ne
  · rw [List.mem_singleton.mp hnew]
    exact ⟨rfl, step, hfinal, rfl⟩

theorem transition_ne_complete : "TRANSITION_ISSUE" ≠ "COMPLETE_SPRINT" := by
  decide

theorem passIssue_ordered (htime : times[tick]? = some wallTime) (hpos : 1 ≤ tick)
    (hpass : PassOrder input times tick pass (issue :: remaining))
    (h : passIssue library input tick wallTime finalStep pass issue = .ok pass') :
    PassOrder input times tick pass' remaining := by
  unfold passIssue at h
  split_ifs at h with hdone
  · -- a completed issue is left alone
    cases h
    exact hpass.rest rfl (hpass.completed issue (by simp)) _ _
  · have hopen : issue.completedAt = none := by simpa using hdone
    simp only [bind_eq_ok, pure_eq_ok] at h
    obtain ⟨result, hresult, rfl⟩ := h
    cases processItemTick_outcome hresult with
    | rests hsame hactions hcompleted =>
      rw [hactions, if_neg (by rw [hcompleted]; decide)]
      exact hpass.rest hsame.id (completedOnce_of_open (hsame.completedAt.trans hopen)) _ _
    | done hid hactions hcompleted =>
      rw [hactions, if_pos hcompleted]
      refine hpass.rest ?_ ?_ _ _
      · exact hid
      · exact hpass.completedNow htime hpos hid rfl
    | moves step hsame hactions hcompleted =>
      rw [hactions]
      have hissue : (transitionAction result.issue step.jiraStatus).issueId = some issue.id :=
        congrArg some hsame.id
      by_cases hfinal : result.completed = true
      · rw [if_pos hfinal]
        refine hpass.move htime ?_ hissue transition_ne_complete ?_ _ _
        · exact hsame.id
        · refine hpass.completedMove htime hpos ?_ rfl (hcompleted hfinal) result.issue
          exact hsame.id
      · rw [if_neg hfinal]
        exact hpass.move htime hsame.id hissue transition_ne_complete
          (completedOnce_of_open (hsame.completedAt.trans hopen)) _ _

/-- The pass over all issues. -/
theorem passIssues_ordered (htime : times[tick]? = some wallTime) (hpos : 1 ≤ tick)
    (hpass : PassOrder input times tick pass remaining)
    (h : remaining.foldlM (passIssue library input tick wallTime finalStep) pass = .ok pass') :
    PassOrder input times tick pass' [] := by
  induction remaining generalizing pass with
  | nil =>
    cases h
    exact hpass
  | cons issue remaining ih =>
    rw [List.foldlM_cons, bind_eq_ok] at h
    obtain ⟨next, hnext, hrest⟩ := h
    exact ih (passIssue_ordered htime hpos hpass hnext) hrest

end pass

/-! ### Planning -/

theorem swap_perm {α : Type} (items : List α) (i j : ℕ) :
    (RandomSource.swap items i j).Perm items := by
  unfold RandomSource.swap
  cases hi : items[i]? with
  | none => exact .refl _
  | some a =>
    cases hj : items[j]? with
    | none => exact .refl _
    | some b =>
      obtain ⟨hilt, rfl⟩ := List.getElem?_eq_some_iff.mp hi
      obtain ⟨hjlt, rfl⟩ := List.getElem?_eq_some_iff.mp hj
      exact List.set_set_perm hilt hjlt

theorem shuffleFrom_perm {α : Type} (source : RandomSource) (i : ℕ) (items : List α)
    (rng : source.State) : (source.shuffleFrom i items rng).1.Perm items := by
  induction i generalizing items rng with
  | zero => exact .refl _
  | succ i ih => exact (ih _ _).trans (swap_perm items _ _)

theorem selectItems_prefix (capacityMin target total : ℤ) (items : List BacklogItem) :
    (selectItems capacityMin target total items).IsPrefix items := by
  induction items generalizing total with
  | nil => exact List.prefix_refl _
  | cons item items ih =>
    unfold selectItems
    split_ifs
    · exact List.nil_prefix
    · exact List.prefix_cons_iff.mpr (.inr ⟨_, rfl, ih _⟩)

/-- The selected items are the first ones of an ordering of the backlog. -/
theorem planSprint_eq_ok {source : RandomSource} {backlog selected : List BacklogItem}
    {capacityMin capacityMax target : ℤ} {randomized : Bool} {rng rng' : source.State}
    (h : planSprint source backlog capacityMin capacityMax randomized rng =
      .ok (selected, target, rng')) :
    ∃ ordered : List BacklogItem, ordered.Perm backlog ∧ selected.IsPrefix ordered := by
  unfold planSprint at h
  split_ifs at h with hempty hle hrandom
  · simp only [bind_eq_ok, pure_eq_ok, Prod.mk.injEq] at h
    obtain ⟨-, -, rfl, -⟩ := h
    exact ⟨backlog, .refl _, List.nil_prefix⟩
  · cases h
    exact ⟨backlog, .refl _, List.nil_prefix⟩
  · simp only [bind_eq_ok, pure_eq_ok, Prod.mk.injEq] at h
    obtain ⟨-, -, rfl, -⟩ := h
    exact ⟨_, shuffleFrom_perm source _ backlog rng, selectItems_prefix _ _ _ _⟩
  · simp only [bind_eq_ok, pure_eq_ok, Prod.mk.injEq] at h
    obtain ⟨-, -, rfl, -⟩ := h
    exact ⟨_, Ordering.sortOn_perm _ backlog, selectItems_prefix _ _ _ _⟩

theorem planSprint_distinct {source : RandomSource} {selected : List BacklogItem}
    {capacityMin capacityMax target : ℤ} {randomized : Bool} {rng rng' : source.State}
    (h : planSprint source input.backlog capacityMin capacityMax randomized rng =
      .ok (selected, target, rng')) :
    (selected.map (·.id)).Nodup := by
  obtain ⟨ordered, hperm, hinitial⟩ := planSprint_eq_ok h
  have hbacklog : (input.backlog.map (·.id)).Nodup := by
    have hids : input.backlog.map (·.id) = input.backlogIssues.map (·.id) := by
      simp only [SprintInput.backlog, List.map_map]
      rfl
    rw [hids]
    exact input.distinct
  have hordered : (ordered.map (·.id)).Nodup := (hperm.map _).nodup_iff.mpr hbacklog
  exact hordered.sublist (hinitial.sublist.map _)

/-- The issue is one of the backlog, as far from its completion as there. -/
def FromBacklog (input : SprintInput) (issue : IssueSnapshot) : Prop :=
  ∃ original ∈ input.backlogIssues, SameIssue original issue

theorem FromBacklog.completedOnce {issue : IssueSnapshot} (h : FromBacklog input issue)
    (times : List Moment) (events : List ScheduledEventData) :
    CompletedOnce input times events issue := by
  obtain ⟨original, horiginal, hsame⟩ := h
  intro completion hcompletion
  exact .inl ⟨original, horiginal, hsame.id.symm, hsame.completedAt.symm.trans hcompletion⟩

/-- The planning of a sprint, with the items that it has still to plan. -/
structure PlanOrder (input : SprintInput) (times : List Moment) (run : SprintRun library)
    (remaining : List BacklogItem) : Prop where
  order : StreamOrder times 0 run.stream
  unfinished : Unfinished run.stream
  distinct : (run.issues.map (·.id) ++ remaining.map (·.id)).Nodup
  backlog : ∀ issue ∈ run.issues, FromBacklog input issue

section planning

variable {times : List Moment} {firstStep : WorkflowStepSnapshot} {planningTime : Moment}
  {run run' : SprintRun library} {item : BacklogItem} {remaining : List BacklogItem}
  {stream : EventStream}

theorem createSprintEvent_ordered (htime : times[0]? = some planningTime)
    (horder : StreamOrder times 0 stream) (hopen : Unfinished stream) {stream' : EventStream}
    (h : createSprintEvent library input planningTime stream = .ok stream') :
    StreamOrder times 0 stream' ∧ Unfinished stream' := by
  unfold createSprintEvent at h
  cases hboard : given input.jiraBoardId with
  | none =>
    rw [hboard] at h
    cases h
    exact ⟨horder, hopen⟩
  | some boardId =>
    rw [hboard] at h
    simp only [bind_eq_ok, pure_eq_ok] at h
    obtain ⟨sprintEnd, -, rfl⟩ := h
    exact ⟨horder.add htime _, hopen.add (show "CREATE_SPRINT" ≠ _ by decide)⟩

theorem addToSprintEvent_ordered (htime : times[0]? = some planningTime)
    (horder : StreamOrder times 0 stream) (hopen : Unfinished stream) (issue : IssueSnapshot) :
    StreamOrder times 0 (addToSprintEvent input planningTime issue stream) ∧
      Unfinished (addToSprintEvent input planningTime issue stream) := by
  unfold addToSprintEvent
  split
  · split_ifs
    · exact ⟨horder, hopen⟩
    · exact ⟨horder.add htime _, hopen.add (show "ADD_TO_SPRINT" ≠ _ by decide)⟩
  · exact ⟨horder, hopen⟩

theorem planItem_ordered (htime : times[0]? = some planningTime)
    (hrun : PlanOrder input times run (item :: remaining))
    (h : planItem library input firstStep planningTime run item = .ok run') :
    PlanOrder input times run' remaining := by
  have hids := hrun.distinct
  rw [List.map_cons, List.nodup_middle] at hids
  unfold planItem at h
  cases hfind : input.backlogIssues.find? fun issue => issue.id = item.id with
  | none =>
    rw [hfind] at h
    cases h
    exact ⟨hrun.order, hrun.unfinished, (List.nodup_cons.mp hids).2, hrun.backlog⟩
  | some original =>
    rw [hfind] at h
    simp only [bind_eq_ok, pure_eq_ok] at h
    obtain ⟨⟨issue, action, rng⟩, henter, rfl⟩ := h
    obtain ⟨hsame, -, -, -, -, rfl⟩ := enterStatus_eq_ok henter
    have hid : issue.id = item.id :=
      hsame.id.trans (of_decide_eq_true (List.find?_some hfind :))
    have horder := hrun.order.add htime (transitionAction issue firstStep.jiraStatus)
    obtain ⟨hordered, hopen⟩ := addToSprintEvent_ordered htime horder
      (hrun.unfinished.add transition_ne_complete) issue
    refine ⟨hordered, hopen, ?_, ?_⟩
    · rw [List.map_append, List.map_singleton, List.append_assoc, List.singleton_append,
        List.nodup_middle, hid]
      exact hids
    · intro other hother
      rcases List.mem_append.mp hother with hold | hnew
      · exact hrun.backlog other hold
      · rw [List.mem_singleton.mp hnew]
        exact ⟨original, List.mem_of_find?_eq_some hfind, hsame.id, hsame.completedAt⟩

theorem planItems_ordered (htime : times[0]? = some planningTime)
    (hrun : PlanOrder input times run remaining)
    (h : remaining.foldlM (planItem library input firstStep planningTime) run = .ok run') :
    PlanOrder input times run' [] := by
  induction remaining generalizing run with
  | nil =>
    cases h
    exact hrun
  | cons item remaining ih =>
    rw [List.foldlM_cons, bind_eq_ok] at h
    obtain ⟨next, hnext, hrest⟩ := h
    exact ih (planItem_ordered htime hrun hnext) hrest

theorem Unfinished.sprintEvent (hopen : Unfinished stream) {operationType : String}
    (htype : operationType ≠ "COMPLETE_SPRINT") :
    Unfinished (Engine.sprintEvent input operationType tick wallTime stream) := by
  unfold Engine.sprintEvent
  cases given input.jiraSprintId with
  | none => exact hopen
  | some sprintId => exact hopen.add htype

theorem planningTick_ordered (htime : times[0]? = some planningTime) {rng : library.State}
    {capacityTarget : ℤ}
    (h : planningTick library input firstStep planningTime rng = .ok (run, capacityTarget)) :
    RunOrder input times 0 run := by
  simp only [planningTick, bind_eq_ok, pure_eq_ok, Prod.mk.injEq] at h
  obtain ⟨stream, hstream, ⟨selected, target, rng'⟩, hselected, planned, hplanned, rfl, -⟩ := h
  obtain ⟨horder, hopen⟩ := createSprintEvent_ordered htime (.empty times 0)
    (fun event hevent => by cases hevent) hstream
  have hstart : PlanOrder input times (⟨stream, [], 0, rng'⟩ : SprintRun library) selected :=
    ⟨horder, hopen, planSprint_distinct hselected, fun issue hissue => by cases hissue⟩
  have hend := planItems_ordered htime hstart hplanned
  have hdistinct := hend.distinct
  rw [List.map_nil, List.append_nil] at hdistinct
  exact ⟨hend.order.sprintEvent htime "UPDATE_SPRINT", hend.unfinished.sprintEvent (by decide),
    hdistinct, fun issue hissue => (hend.backlog issue hissue).completedOnce times _⟩

end planning

/-! ### The run -/

section run

variable {times : List Moment} {finalStep : WorkflowStepSnapshot} {run run' : SprintRun library}

theorem passTick_ordered (htime : times[tick + 1]? = some wallTime)
    (hrun : RunOrder input times tick run)
    (h : passTick library input (tick + 1) wallTime finalStep run = .ok run') :
    RunOrder input times (tick + 1) run' := by
  simp only [passTick, bind_eq_ok, pure_eq_ok] at h
  obtain ⟨pass, hpass, rfl⟩ := h
  have hstart : PassOrder input times (tick + 1)
      (⟨run.stream, [], buildMemberStates input.members, run.rng⟩ : Pass library) run.issues :=
    { order := hrun.order.later (Nat.le_succ tick)
      unfinished := hrun.unfinished
      distinct := hrun.distinct
      completed := hrun.completed
      waiting := fun issue _ event hevent _ =>
        Nat.lt_succ_of_le (hrun.order.bounded event hevent) }
  have hend := passIssues_ordered htime (Nat.le_add_left 1 tick) hstart hpass
  have hdistinct := hend.distinct
  have hcompleted := hend.completed
  rw [List.append_nil] at hdistinct hcompleted
  exact ⟨hend.order, hend.unfinished, hdistinct, hcompleted⟩

/-- The stream of a run that has ended: the end of the sprint is its last event. -/
def Ended (input : SprintInput) (times : List Moment) (issues : List IssueSnapshot)
    (stream : EventStream) : Prop :=
  ∃ (tick : ℕ) (wallTime : Moment) (before : EventStream), times[tick]? = some wallTime ∧
    StreamOrder times tick before ∧ Unfinished before ∧
    (∀ issue ∈ issues, CompletedOnce input times before.events issue) ∧
    stream = sprintEvent input "COMPLETE_SPRINT" tick wallTime before

/-- The ticks leave a run without its end, or one that has ended early. -/
theorem activeTicks_ordered {rest : List Moment} (hrest : times.drop (tick + 1) = rest)
    (hrun : RunOrder input times tick run)
    (h : activeTicks library input finalStep (tick + 1) rest run = .ok run') :
    (∃ last, last ≤ tick + rest.length ∧ RunOrder input times last run') ∨
      Ended input times run'.issues run'.stream := by
  induction rest generalizing tick run with
  | nil =>
    cases h
    exact .inl ⟨tick, le_rfl, hrun⟩
  | cons wallTime rest ih =>
    have htime : times[tick + 1]? = some wallTime := by
      rw [← List.head?_drop, hrest, List.head?_cons]
    unfold activeTicks at h
    rw [bind_eq_ok] at h
    obtain ⟨next, hnext, h⟩ := h
    have horder := passTick_ordered htime hrun hnext
    split_ifs at h with hall
    · cases h
      exact .inr ⟨tick + 1, wallTime, next.stream, htime, horder.order, horder.unfinished,
        horder.completed, rfl⟩
    · have hdrop : times.drop (tick + 1 + 1) = rest := by
        rw [← List.drop_drop, hrest, List.drop_one, List.tail_cons]
      rcases ih hdrop horder h with ⟨last, hlast, hend⟩ | hended
      · refine .inl ⟨last, ?_, hend⟩
        rw [List.length_cons]
        omega
      · exact .inr hended

theorem any_complete_eq_false {stream : EventStream} (h : Unfinished stream) :
    (stream.events.any fun e => e.eventType = "COMPLETE_SPRINT") = false := by
  rw [List.any_eq_false]
  intro event hevent
  simpa using h event hevent

theorem completeAtEnd_of_unfinished {stream : EventStream} (h : Unfinished stream) :
    completeAtEnd input tick wallTime stream =
      sprintEvent input "COMPLETE_SPRINT" tick wallTime stream := by
  unfold completeAtEnd
  rw [any_complete_eq_false h]
  rfl

/-- The end is added only once. -/
theorem completeAtEnd_of_ended {stream : EventStream} (h : Unfinished stream)
    {wallTime' : Moment} :
    completeAtEnd input tick' wallTime'
        (sprintEvent input "COMPLETE_SPRINT" tick wallTime stream) =
      sprintEvent input "COMPLETE_SPRINT" tick wallTime stream := by
  cases hgiven : given input.jiraSprintId with
  | none =>
    have hnone : ∀ tick wallTime,
        sprintEvent input "COMPLETE_SPRINT" tick wallTime stream = stream := by
      intro tick wallTime
      unfold sprintEvent
      rw [hgiven]
    rw [hnone, completeAtEnd_of_unfinished h, hnone]
  | some sprintId =>
    have hany : ((sprintEvent input "COMPLETE_SPRINT" tick wallTime stream).events.any fun e =>
        e.eventType = "COMPLETE_SPRINT") = true := by
      unfold sprintEvent
      rw [hgiven]
      show (stream.events ++ [_]).any _ = true
      rw [List.any_append]
      simp
    unfold completeAtEnd
    rw [if_pos hany]

end run

/-! ### The whole stream -/

/-- The shape of the events of a precomputed sprint: all but the order of their times. -/
structure StreamShape (input : SprintInput) (times : List Moment) (result : PrecomputeResult) : Prop
    where
  numbered : result.events.map (·.sequenceOrder) = List.range result.events.length
  ticks : result.events.Pairwise fun a b => a.simTick ≤ b.simTick
  timed : ∀ event ∈ result.events, times[event.simTick]? = some event.wallClockTime
  ended : (given input.jiraSprintId).isSome → ∃ before last, result.events = before ++ [last] ∧
    last.eventType = "COMPLETE_SPRINT" ∧ ∀ event ∈ before, event.eventType ≠ "COMPLETE_SPRINT"
  completed : ∀ issue ∈ result.issueFinalStates, CompletedOnce input times result.events issue

/-- The events of a precomputed sprint are in shape, and their times do not go back. -/
structure WellFormedStream (input : SprintInput) (times : List Moment) (result : PrecomputeResult) :
    Prop extends StreamShape input times result where
  clock : result.events.Pairwise fun a b => a.wallClockTime.instant ≤ b.wallClockTime.instant

theorem StreamShape.clock {times : List Moment} {result : PrecomputeResult}
    (h : StreamShape input times result)
    (htimes : times.Pairwise fun a b => a.instant ≤ b.instant) :
    result.events.Pairwise fun a b => a.wallClockTime.instant ≤ b.wallClockTime.instant := by
  refine List.Pairwise.imp_of_mem ?_ h.ticks
  intro a b ha hb hle
  obtain ⟨halt, hatime⟩ := List.getElem?_eq_some_iff.mp (h.timed a ha)
  obtain ⟨hblt, hbtime⟩ := List.getElem?_eq_some_iff.mp (h.timed b hb)
  rcases hle.lt_or_eq with hlt | heq
  · rw [← hatime, ← hbtime]
    exact List.pairwise_iff_getElem.mp htimes _ _ halt hblt hlt
  · have hsame : a.wallClockTime = b.wallClockTime := by
      rw [← hatime, ← hbtime]
      congr 1
    rw [hsame]

theorem Ended.shape {times : List Moment} {result : PrecomputeResult} {stream : EventStream}
    (h : Ended input times result.issueFinalStates stream)
    (hevents : result.events = stream.events) : StreamShape input times result := by
  obtain ⟨tick, wallTime, before, htime, horder, hopen, hcompleted, rfl⟩ := h
  have hend : StreamOrder times tick
      (sprintEvent input "COMPLETE_SPRINT" tick wallTime before) := horder.sprintEvent htime _
  refine ⟨?_, ?_, ?_, ?_, ?_⟩ <;> rw [hevents]
  · exact hend.numbered
  · exact hend.ascending
  · exact hend.timed
  · intro hgiven
    obtain ⟨sprintId, hsprint⟩ := Option.isSome_iff_exists.mp hgiven
    unfold sprintEvent
    rw [hsprint]
    exact ⟨before.events, _, rfl, rfl, hopen⟩
  · intro issue hissue
    unfold sprintEvent
    cases given input.jiraSprintId with
    | none => exact hcompleted issue hissue
    | some sprintId => exact (hcompleted issue hissue).add nofun

theorem precomputeTicks_shape {times : List Moment} {rngSeed : ℤ}
    {result : PrecomputeResult} (hne : times ≠ []) (hsteps : input.workflowSteps ≠ [])
    (h : precomputeTicks library input rngSeed times = .ok result) :
    StreamShape input times result := by
  obtain ⟨planningTime, rest, rfl⟩ := List.exists_cons_of_ne_nil hne
  unfold precomputeTicks at h
  rw [List.head?_eq_some_head hsteps, List.getLast?_eq_some_getLast hsteps] at h
  simp only [bind_eq_ok, pure_eq_ok] at h
  obtain ⟨⟨run, capacityTarget⟩, hplanning, run', hticks, rfl⟩ := h
  have htime : (planningTime :: rest)[0]? = some planningTime := rfl
  have hstart := planningTick_ordered htime hplanning
  rcases activeTicks_ordered rfl hstart hticks with ⟨last, hlast, hend⟩ | hended
  · refine Ended.shape ?_ rfl
    show Ended input (planningTime :: rest) _ (completeAtEnd input rest.length _ run'.stream)
    rw [completeAtEnd_of_unfinished hend.unfinished]
    have hle : last ≤ rest.length := by simpa using hlast
    refine ⟨rest.length, _, run'.stream, ?_, hend.order.later hle, hend.unfinished,
      hend.completed, rfl⟩
    rw [← List.getLast?_eq_some_getLast, List.getLast?_eq_getElem?, List.length_cons,
      Nat.add_sub_cancel]
  · refine hended.shape ?_
    obtain ⟨tick, wallTime, before, -, -, hopen, -, hstream⟩ := hended
    rw [hstream, completeAtEnd_of_ended hopen]

/-! ### The sprints of a schedule -/

/-- Two sprints with one schedule. -/
structure SameSchedule (input other : SprintInput) : Prop where
  workingHours : other.team.workingHours = input.team.workingHours
  tickDuration : other.team.tickDurationHours = input.team.tickDurationHours
  sprintStart : other.sprintStart = input.sprintStart
  sprintLengthDays : other.sprintLengthDays = input.sprintLengthDays

/-- The streams of all sprints with the schedule of this one, in workflows with a step, have a
property. -/
def Streams (library : StandardLibrary) (input : SprintInput) (fuel : ℕ)
    (holds : SprintInput → PrecomputeResult → Prop) : Prop :=
  ∀ other, SameSchedule input other → other.workflowSteps ≠ [] → ∀ rngSeed result,
    precomputeSprint library other fuel rngSeed = .ok (some result) → holds other result

/-- Every round of the schedule goes forward. -/
def ForwardSchedule (input : SprintInput) (times : List Moment) : Prop :=
  ∃ tickDelta, timedeltaHours input.tickHours = .ok tickDelta ∧
    ∀ tick ∈ times, RoundForward input.team.workingHours tickDelta tick.instant

section schedule

variable {fuel : ℕ} {times : List Moment}

theorem SameSchedule.tickSchedule_eq {other : SprintInput} (h : SameSchedule input other) :
    tickSchedule other fuel = tickSchedule input fuel := by
  unfold tickSchedule SprintInput.tickHours
  rw [h.workingHours, h.tickDuration, h.sprintStart, h.sprintLengthDays]

theorem tickSchedule_pairwise_iff (h : tickSchedule input fuel = .ok (some times)) :
    (times.Pairwise fun a b => a.instant ≤ b.instant) ↔ ForwardSchedule input times := by
  have hschedule := h
  simp only [tickSchedule, computeTickWallTimes, bind_eq_ok] at h
  obtain ⟨sprintEnd, -, tickDelta, hdelta, -⟩ := h
  rw [tickTimes_pairwise_iff hdelta hschedule]
  constructor
  · exact fun hforward => ⟨tickDelta, hdelta, hforward⟩
  · rintro ⟨tickDelta', hdelta', hforward⟩
    rw [hdelta] at hdelta'
    obtain rfl := Except.ok.inj hdelta'
    exact hforward

variable (hschedule : tickSchedule input fuel = .ok (some times)) (hne : times ≠ [])

include hschedule hne

theorem streams_shape :
    Streams library input fuel fun other result => StreamShape other times result := by
  intro other hsame hsteps rngSeed result h
  unfold precomputeSprint at h
  rw [hsame.tickSchedule_eq, hschedule] at h
  simp only [bind_eq_ok, pure_eq_ok, Except.ok.injEq, exists_eq_left', Option.some.injEq] at h
  obtain ⟨result', hresult, rfl⟩ := h
  exact precomputeTicks_shape hne hsteps hresult

/-- A stream with an event at every tick shows the order of the tick times. -/
theorem forward_of_streams (hlength : 0 < input.tickHours)
    (h : Streams library input fuel fun other result => WellFormedStream other times result) :
    ForwardSchedule input times := by
  obtain ⟨result, hresult, htimes⟩ := @precomputeSprint_moving library input hlength fuel times
    hschedule hne 0
  have hsteps : (movingSprint input times.length).workflowSteps ≠ [] := by
    have hpos := List.length_pos_of_ne_nil hne
    exact List.ne_nil_of_length_pos (by simpa [movingSprint, stepsOf] using hpos)
  have hclock := (h (movingSprint input times.length) ⟨rfl, rfl, rfl, rfl⟩ hsteps 0 result
    hresult).clock
  rw [← tickSchedule_pairwise_iff hschedule, ← htimes]
  exact List.pairwise_map.mpr hclock

/-- The streams of a schedule with a tick are in shape, whatever the random source draws.  When
every round of the schedule goes forward, their times do not go back; and with ticks of some length
this holds of all streams of the schedule only then. -/
theorem precompute_stream :
    (Streams library input fuel fun other result => StreamShape other times result) ∧
    (ForwardSchedule input times →
      Streams library input fuel fun other result => WellFormedStream other times result) ∧
    (0 < input.tickHours →
      (Streams library input fuel fun other result => WellFormedStream other times result) →
      ForwardSchedule input times) := by
  have hshape := @streams_shape library input fuel times hschedule hne
  refine ⟨hshape, fun hforward other hsame hsteps rngSeed result h => ?_,
    forward_of_streams hschedule hne⟩
  have hstream := hshape other hsame hsteps rngSeed result h
  exact ⟨hstream, hstream.clock ((tickSchedule_pairwise_iff hschedule).mpr hforward)⟩

end schedule

/-- A random source that always draws the least number. -/
def leastDraws : StandardLibrary where
  State := Unit
  seeded _ := ()
  random _ := (0, ())
  randbelow _ _ := (0, ())
  gauss _ := (0, ())
  randbelow_lt _ _ h := h
  log _ := 0
  exp _ := none
  floatSum := List.foldl fadd 0
  isoFormat _ := ""

/-- An issue that has not entered a step. -/
def newIssue (id : ℤ) : IssueSnapshot where
  id
  issueType := "Story"
  storyPoints := some 3
  jiraIssueKey := some "TEAM-1"
  status := "Backlog"
  currentWorkflowStepId := none
  currentWorkerId := none
  sampledFullTime := 0
  sampledWorkTime := 0
  elapsedFullTime := 0
  elapsedWorkTime := 0
  workStarted := false
  completedAt := none
  sprintId := none
  backlogPriority := none

/-- A developer moves the issues of the sprint to their final step within four hours of a day. -/
def dayOfWork : SprintInput where
  team := {
    id := 1, sprintCapacityMin := 3, sprintCapacityMax := 3, priorityRandomization := false
    tickDurationHours := 4
    workingHours := { zone := fixedZone 0, startHour := 9, endHour := 17, holidays := [] } }
  backlogIssues := [newIssue 1]
  workflowSteps := [
    { id := 1, jiraStatus := "In Progress", order := 1, roleRequired := some "DEV"
      rolesJson := none },
    { id := 2, jiraStatus := "Done", order := 2, roleRequired := none, rolesJson := none }]
  touchTimeConfigs := [{
    workflowStepId := 1, issueType := "Story", storyPoints := 3, minHours := 4, maxHours := 4
    fullTimeP25 := none, fullTimeP50 := none, fullTimeP99 := none }]
  moveLeftConfigs := []
  members := [{ id := 1, role := "DEV" }]
  sprintStart := .utc (9 * microsecondsPerHour)
  sprintLengthDays := 1
  jiraSprintId := some 7
  jiraBoardId := some 5
  sprintName := "Sprint 1"
  sprintDbId := some 1
  distinct := by decide

/-- A computation whose result passes a test. -/
theorem exists_of_test {α : Type} {run : Result (Option α)} {holds : α → Bool}
    (h : (run.toOption.bind id).any holds = true) :
    ∃ result, run = .ok (some result) ∧ holds result = true := by
  cases run with
  | error e => cases h
  | ok result =>
    cases result with
    | none => cases h
    | some result => exact ⟨result, rfl, h⟩

/-- Within one offset the events of the developer's day are well formed. -/
theorem dayOfWork_stream : ∃ result,
    precomputeSprint leastDraws dayOfWork 3 0 = .ok (some result) ∧
      WellFormedStream dayOfWork
        [.utc (9 * microsecondsPerHour), .utc (13 * microsecondsPerHour)] result := by
  have hschedule : tickSchedule dayOfWork 3 =
      .ok (some [.utc (9 * microsecondsPerHour), .utc (13 * microsecondsPerHour)]) := by
    decide +kernel
  have hforward : ForwardSchedule dayOfWork
      [.utc (9 * microsecondsPerHour), .utc (13 * microsecondsPerHour)] :=
    ⟨4 * microsecondsPerHour, by decide +kernel, fun tick _ =>
      fixedZone_roundForward rfl (by decide) (by decide)⟩
  obtain ⟨result, hresult, -⟩ := @exists_of_test _ (precomputeSprint leastDraws dayOfWork 3 0)
    (fun _ => true) (by decide +kernel)
  exact ⟨result, hresult, (precompute_stream hschedule (by decide)).2.1 hforward dayOfWork
    ⟨rfl, rfl, rfl, rfl⟩ (by decide) 0 result hresult⟩

/-- Clocks that go back by three hours at an instant, from eleven hours ahead of UTC to eight. -/
def caseyZone (change : ℤ) : TimeZone where
  utcOffset naive fold :=
    if naive < change + 8 * microsecondsPerHour then 11 * microsecondsPerHour
    else if naive < change + 11 * microsecondsPerHour then
      if fold then 8 * microsecondsPerHour else 11 * microsecondsPerHour
    else 8 * microsecondsPerHour
  fromUtc instant :=
    if instant < change then (instant + 11 * microsecondsPerHour, false)
    else (instant + 8 * microsecondsPerHour, instant < change + 3 * microsecondsPerHour)

/-- Two in the afternoon of 4 March 2010 in UTC, an hour before the clocks of the station go back.
-/
def caseyStart : ℤ := 14672 * microsecondsPerDay + 14 * microsecondsPerHour

/-- A sprint of one day at the station, in which an issue needs no time. -/
def caseyDay : SprintInput :=
  { dayOfWork with
    team := { dayOfWork.team with
      tickDurationHours := 3 / 2
      workingHours := {
        zone := caseyZone (caseyStart + microsecondsPerHour)
        startHour := 0, endHour := 8, holidays := [] } }
    touchTimeConfigs := []
    sprintStart := .utc caseyStart }

/-- The issue is planned at one in the morning of Friday, and half an hour before midnight on the
clock set back the next working hours are those of Friday, at the offset before the change: the
issue is done at the second tick, an hour before the first. -/
theorem precompute_stream_back : ∃ times result,
    tickSchedule caseyDay 10 = .ok (some times) ∧ times ≠ [] ∧
      precomputeSprint leastDraws caseyDay 10 0 = .ok (some result) ∧
      ¬ WellFormedStream caseyDay times result := by
  obtain ⟨times, hschedule, hticks⟩ := @exists_of_test _ (tickSchedule caseyDay 10)
    (fun times => times.take 2 = [.utc caseyStart, .utc (caseyStart - microsecondsPerHour)])
    (by decide +kernel)
  obtain ⟨result, hresult, hback⟩ := @exists_of_test _
    (precomputeSprint leastDraws caseyDay 10 0)
    (fun result => ¬ result.events.Pairwise fun a b =>
      a.wallClockTime.instant ≤ b.wallClockTime.instant) (by decide +kernel)
  refine ⟨times, result, hschedule, ?_, hresult, fun h => of_decide_eq_true hback h.clock⟩
  rintro rfl
  exact absurd hticks (by decide)

end JiraSimulator.Engine
