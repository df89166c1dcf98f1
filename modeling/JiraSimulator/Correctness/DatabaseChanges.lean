import JiraSimulator.Correctness.PlannedSprint
import JiraSimulator.Engine.Service

/-!
# What the transactions of the service do to the database

Every transaction apart from the commits of a dispatch and of a modified event is a sequence of a
few changes: a new sprint, its schedule, a phase, deleted events, and so on.  A change names what
it relies on, so that an invariant of the service is proved once for each change.

* `runAction_changes`: the transactions that neither dispatch nor recompute.
* `recompute_eq_ok`: a recomputed schedule.
* `Change.linked`: every event belongs to a sprint.
* `stepped`: what a step of the service does.
-/

namespace JiraSimulator.Engine

open Library Library.Outcome

/-- Every event belongs to a sprint. -/
def Linked (db : Database) : Prop :=
  ∀ event ∈ db.events.rows, ∃ sprint ∈ db.sprints.rows, sprint.id = event.sprintId

/-- The issues that join a sprint have none, or are in it already. -/
def JoinsFree (db : Database) (sprintId : ℤ) (selected : List ℤ) : Prop :=
  ∀ issue ∈ db.issues.rows, issue.id ∈ selected →
    issue.sprintId = none ∨ issue.sprintId = some sprintId

/-- One change of the database. -/
inductive Change (db : Database) : Database → Prop where
  | sprint (make : ℤ → SprintRow) (hmake : ∀ k, (make k).id = k)
    (hphase : ∀ k, (make k).phase = .planning) :
    Change db { db with sprints := db.sprints.insert make hmake }
  | schedule (teamId sprintId : ℤ) (result : PrecomputeResult)
    (hsprint : ∃ sprint ∈ db.sprints.rows, sprint.id = sprintId ∧ sprint.teamId = teamId ∧
      sprint.phase = .planning)
    (hfresh : ∀ event ∈ db.events.rows, event.sprintId ≠ sprintId)
    (hjoins : JoinsFree db sprintId result.selectedIssueIds) :
    Change db (db.storeSchedule teamId sprintId result)
  | phase (sprintId : ℤ) (phase : SprintPhase) (hphase : phase ≠ .completed) :
    Change db (db.updateSprint sprintId (fun row => { row with phase }) fun _ => rfl)
  | close (teamId : ℤ) (sprint : SprintRow) (hlatest : db.latestSprint teamId = some sprint)
    (hwaits : ∀ event ∈ db.events.rows, event.teamId = teamId → event.sprintId = sprint.id →
      event.waits = false) :
    Change db (db.updateSprint sprint.id (fun row => { row with phase := .completed })
      fun _ => rfl)
  | edit (sprintId : ℤ) (change : SprintRow → SprintRow) (hid : ∀ row, (change row).id = row.id)
    (hteam : ∀ row, (change row).teamId = row.teamId)
    (hphase : ∀ row, (change row).phase = row.phase ∨ (change row).phase = .planning) :
    Change db (db.updateSprint sprintId change hid)
  | deleteEvents (selects : ScheduledEventRow → Bool)
    (hqueued : ∀ event ∈ db.events.rows, selects event = true → db.isQueued event.id = false) :
    Change db { db with events := db.events.filter fun event => !selects event }
  | unassign (sprintId : ℤ) : Change db (db.unassignIssues sprintId)
  | removeSprint (sprintId : ℤ) (hempty : ∀ event ∈ db.events.rows, event.sprintId ≠ sprintId) :
    Change db { db with sprints := db.sprints.filter fun row => row.id != sprintId }
  | carryOver (teamId : ℤ) (sprint : SprintRow) (finalStatus : String)
    (hlatest : db.latestSprint teamId = some sprint) (hphase : sprint.phase = .completed) :
    Change db (db.carryOver sprint.id finalStatus)
  | addIssue (teamId : ℤ) (issueType : String) (storyPoints priority : ℤ) (epicId : Option ℤ)
    (payload : JsonObject) :
    Change db (db.addIssue teamId issueType storyPoints priority epicId payload)

/-- Some changes in a row. -/
abbrev Changes : Database → Database → Prop :=
  Relation.ReflTransGen Change

/-- What each change keeps, some changes keep. -/
theorem Changes.keeps {I : Database → Prop} {db db' : Database} (h : Changes db db') (init : I db)
    (step : ∀ a b, Change a b → I a → I b) : I db' := by
  induction h with
  | refl => exact init
  | tail _ hchange ih => exact step _ _ hchange ih

/-! ### Links -/

theorem mem_updateSprint {db : Database} {sprintId : ℤ} {change : SprintRow → SprintRow}
    {hid : ∀ row, (change row).id = row.id} {sprint : SprintRow} :
    sprint ∈ (db.updateSprint sprintId change hid).sprints.rows ↔
      ∃ row ∈ db.sprints.rows, (if row.id = sprintId then change row else row) = sprint :=
  Table.mem_update hid

/-- An updated sprint keeps its identifier. -/
theorem exists_updateSprint {db : Database} {sprintId k : ℤ} {change : SprintRow → SprintRow}
    {hid : ∀ row, (change row).id = row.id} :
    (∃ sprint ∈ (db.updateSprint sprintId change hid).sprints.rows, sprint.id = k) ↔
      ∃ sprint ∈ db.sprints.rows, sprint.id = k := by
  constructor
  · rintro ⟨sprint, hsprint, rfl⟩
    obtain ⟨row, hrow, rfl⟩ := mem_updateSprint.mp hsprint
    refine ⟨row, hrow, ?_⟩
    split_ifs
    · rw [hid]
    · rfl
  · rintro ⟨row, hrow, rfl⟩
    refine ⟨_, mem_updateSprint.mpr ⟨row, hrow, rfl⟩, ?_⟩
    split_ifs
    · rw [hid]
    · rfl

theorem mem_storeSchedule_events {db : Database} {teamId sprintId : ℤ}
    {result : PrecomputeResult} {event : ScheduledEventRow}
    (h : event ∈ (db.storeSchedule teamId sprintId result).events.rows) :
    event ∈ db.events.rows ∨ ∃ data ∈ result.events, ∃ id,
      db.events.next ≤ id ∧ event = eventRow teamId sprintId data id :=
  Table.mem_insertAll (fun _ _ => rfl) h

/-- A sprint keeps its identifier, its team and its phase when a schedule is stored. -/
theorem mem_storeSchedule_sprints {db : Database} {teamId sprintId : ℤ}
    {result : PrecomputeResult} {sprint : SprintRow}
    (h : sprint ∈ (db.storeSchedule teamId sprintId result).sprints.rows) :
    ∃ row ∈ db.sprints.rows, row.id = sprint.id ∧ row.teamId = sprint.teamId ∧
      row.phase = sprint.phase := by
  obtain ⟨row, hrow, rfl⟩ := List.mem_map.mp h
  refine ⟨row, hrow, ?_⟩
  split_ifs
  · exact ⟨rfl, rfl, rfl⟩
  · exact ⟨rfl, rfl, rfl⟩

theorem Change.linked {db db' : Database} (h : Change db db') (hlinked : Linked db) :
    Linked db' := by
  cases h with
  | sprint make hmake _ =>
    intro event hevent
    obtain ⟨sprint, hsprint, hid⟩ := hlinked event hevent
    exact ⟨sprint, (Table.mem_insert hmake).mpr (.inl hsprint), hid⟩
  | schedule teamId sprintId result hsprint _ _ =>
    intro event hevent
    refine exists_updateSprint.mpr ?_
    rcases mem_storeSchedule_events hevent with hold | ⟨data, -, id, -, rfl⟩
    · exact hlinked event hold
    · obtain ⟨sprint, hmem, hid, -⟩ := hsprint
      exact ⟨sprint, hmem, hid⟩
  | phase | close | edit =>
    exact fun event hevent => exists_updateSprint.mpr (hlinked event hevent)
  | deleteEvents selects _ => exact fun event hevent => hlinked event (Table.mem_filter.mp hevent).1
  | unassign | carryOver | addIssue => exact hlinked
  | removeSprint sprintId hempty =>
    intro event hevent
    obtain ⟨sprint, hsprint, hid⟩ := hlinked event hevent
    refine ⟨sprint, Table.mem_filter.mpr ⟨hsprint, ?_⟩, hid⟩
    have hne := hempty event hevent
    simpa [hid] using hne

/-! ### Events and the write queue -/

/-- The events that the write queue has. -/
def Database.queuedEvents (db : Database) : List ℤ :=
  db.queue.filterMap (·.scheduledEventId)

theorem isQueued_iff {db : Database} {eventId : ℤ} :
    db.isQueued eventId = true ↔ eventId ∈ db.queuedEvents := by
  unfold Database.isQueued Database.queuedEvents
  rw [List.any_eq_true, List.mem_filterMap]
  simp only [decide_eq_true_eq]

/-! ### Teams -/

/-- The events of a sprint are of its team. -/
def OwnEvents (db : Database) : Prop :=
  ∀ event ∈ db.events.rows, ∀ sprint ∈ db.sprints.rows, sprint.id = event.sprintId →
    sprint.teamId = event.teamId

theorem OwnEvents.updateSprint {db : Database} (h : OwnEvents db) {sprintId : ℤ}
    {change : SprintRow → SprintRow} {hid : ∀ row, (change row).id = row.id}
    (hteam : ∀ row, (change row).teamId = row.teamId) :
    OwnEvents (db.updateSprint sprintId change hid) := by
  intro event hevent sprint hsprint hsame
  obtain ⟨row, hrow, rfl⟩ := mem_updateSprint.mp hsprint
  split_ifs at hsame ⊢
  · rw [hteam]
    exact h event hevent row hrow ((hid row).symm.trans hsame)
  · exact h event hevent row hrow hsame

theorem OwnEvents.storeSchedule {db : Database} (h : OwnEvents db) {teamId sprintId : ℤ}
    (hsprint : ∃ sprint ∈ db.sprints.rows, sprint.id = sprintId ∧ sprint.teamId = teamId)
    (result : PrecomputeResult) : OwnEvents (db.storeSchedule teamId sprintId result) := by
  intro event hevent sprint hrow hsame
  obtain ⟨row, hmem, hid, hteam, -⟩ := mem_storeSchedule_sprints hrow
  have hkey : row.id = event.sprintId := hid.trans hsame
  rw [← hteam]
  rcases mem_storeSchedule_events hevent with hold | ⟨data, -, id, -, rfl⟩
  · exact h event hold row hmem hkey
  · obtain ⟨owner, howner, hid, hown⟩ := hsprint
    have hsame' : row = owner := Table.eq_of_key_eq hmem howner (hkey.trans hid.symm)
    rw [hsame']
    exact hown

theorem Change.ownEvents {db db' : Database} (h : Change db db') (hlinked : Linked db)
    (hown : OwnEvents db) : OwnEvents db' := by
  cases h with
  | sprint make hmake hphase =>
    intro event hevent sprint hsprint hsame
    rcases (Table.mem_insert hmake).mp hsprint with hold | rfl
    · exact hown event hevent sprint hold hsame
    · obtain ⟨old, hold, hid⟩ := hlinked event hevent
      have hbelow := db.sprints.below old hold
      rw [hid, ← hsame, hmake] at hbelow
      exact absurd hbelow (lt_irrefl _)
  | schedule teamId sprintId result hsprint _ _ =>
    obtain ⟨sprint, hmem, hid, hteam, -⟩ := hsprint
    exact hown.storeSchedule ⟨sprint, hmem, hid, hteam⟩ result
  | phase | close => exact hown.updateSprint fun _ => rfl
  | edit sprintId change hid hteam _ => exact hown.updateSprint hteam
  | deleteEvents selects _ => exact fun event hevent => hown event (Table.mem_filter.mp hevent).1
  | unassign | carryOver | addIssue => exact hown
  | removeSprint sprintId _ =>
    exact fun event hevent sprint hsprint =>
      hown event hevent sprint (Table.mem_filter.mp hsprint).1

/-! ### The transactions -/

section transactions

variable {library : StandardLibrary} {fuel : ℕ} {db db' : Database}

/-- The issues that a precomputation selects are of its backlog. -/
theorem precompute_selected {input : SprintInput} {rngSeed : ℤ} {result : PrecomputeResult}
    (hsteps : input.workflowSteps ≠ [])
    (h : precomputeSprint library input fuel rngSeed = .ok (some result)) :
    ∀ id ∈ result.selectedIssueIds, ∃ issue ∈ input.backlogIssues, issue.id = id := by
  intro id hid
  rcases precompute_plan hsteps h with ⟨-, rfl⟩ | ⟨-, items, target, rng, hplan, hresult⟩
  · cases hid
  · rw [hresult.selected] at hid
    obtain ⟨item, hitem, rfl⟩ := List.mem_map.mp hid
    obtain ⟨issue, hissue, rfl⟩ := List.mem_map.mp (planSprint_subset hplan item hitem)
    exact ⟨issue, hissue, rfl⟩

theorem steps_eq_ok {team : TeamRow} {steps : List WorkflowStepSnapshot}
    {finalStep : WorkflowStepSnapshot} (h : team.steps = .ok (steps, finalStep)) :
    steps ≠ [] ∧ steps.getLast? = some finalStep := by
  unfold TeamRow.steps at h
  cases hsteps : team.workflowSteps with
  | none =>
    rw [hsteps] at h
    cases h
  | some all =>
    rw [hsteps] at h
    dsimp only at h
    cases hlast : all.getLast? with
    | none =>
      rw [hlast] at h
      cases h
    | some last =>
      rw [hlast] at h
      cases h
      refine ⟨?_, hlast⟩
      rintro rfl
      cases hlast

/-- The selected issues have no sprint, or are of the reused one. -/
theorem selected_joinsFree {team : TeamRow} {steps : List WorkflowStepSnapshot}
    {finalStep : WorkflowStepSnapshot} {sprint : SprintRow} {sprintStart : Moment}
    {reused : Option ℤ} {rngSeed : ℤ} {result : PrecomputeResult}
    (hsteps : team.steps = .ok (steps, finalStep))
    (h : precomputeSprint library (db.sprintInput team steps finalStep sprint sprintStart reused)
      fuel rngSeed = .ok (some result)) :
    ∀ issue ∈ db.issues.rows, issue.id ∈ result.selectedIssueIds →
      issue.sprintId = none ∨ issue.sprintId = reused := by
  intro issue hissue hselected
  have hne : (db.sprintInput team steps finalStep sprint sprintStart reused).workflowSteps ≠ [] :=
    (steps_eq_ok hsteps).1
  obtain ⟨snapshot, hsnapshot, hid⟩ := precompute_selected hne h issue.id hselected
  obtain ⟨row, hrow, rfl⟩ := List.mem_map.mp hsnapshot
  obtain ⟨hmem, hplannable⟩ :=
    List.mem_filter.mp ((db.backlog_perm team.id finalStep.jiraStatus reused).mem_iff.mp hrow)
  have hsame : row = issue := Table.eq_of_key_eq hmem hissue hid
  subst hsame
  simp only [Database.plannable, Bool.and_eq_true, Bool.or_eq_true, Option.isNone_iff_eq_none,
    decide_eq_true_eq] at hplannable
  exact hplannable.2

/-! ### What the transactions write -/

theorem team_id {teamId : ℤ} {team : TeamRow} (h : db.team teamId = some team) :
    team.id = teamId := by
  have hid := List.find?_some h
  simpa using hid

/-- The first start of a batch. -/
def batchStart (db : Database) (team : TeamRow) (now : ℤ) : Option ℤ → Result ℤ
  | some start => .ok start
  | none => suggestNextStart db team now

theorem deleteEvents_eq_ok {selects : ScheduledEventRow → Bool}
    (h : db.deleteEvents selects = .ok db') :
    (∀ event ∈ db.events.rows, selects event = true → db.isQueued event.id = false) ∧
      db' = { db with events := db.events.filter fun event => !selects event } := by
  unfold Database.deleteEvents at h
  split_ifs at h with hany
  cases h
  refine ⟨fun event hevent hselects => ?_, rfl⟩
  by_contra hqueued
  refine hany (List.any_eq_true.mpr ⟨event, hevent, ?_⟩)
  simpa [hselects] using hqueued

theorem sprintOf_eq_ok {teamId sprintId : ℤ} {sprint : SprintRow}
    (h : sprintOf db teamId sprintId = .ok sprint) :
    db.sprints.get? sprintId = some sprint ∧ sprint.teamId = teamId := by
  unfold sprintOf at h
  cases hsprint : db.sprints.get? sprintId with
  | none =>
    rw [hsprint] at h
    cases h
  | some found =>
    rw [hsprint] at h
    dsimp only at h
    split_ifs at h with hteam
    cases h
    exact ⟨rfl, hteam⟩

theorem refuseOverlap_eq_ok {teamId start finish : ℤ} {excludeId : Option ℤ} {overlaps : String}
    {u : Unit} (h : refuseOverlap db teamId start finish excludeId overlaps = .ok u) :
    checkSprintOverlap db teamId start finish excludeId = none := by
  unfold refuseOverlap at h
  cases hoverlap : checkSprintOverlap db teamId start finish excludeId with
  | none => rfl
  | some sprint =>
    rw [hoverlap] at h
    cases h

theorem activateSprint_eq_ok {teamId sprintId : ℤ}
    (h : activateSprint db teamId sprintId = .ok db') :
    ∃ sprint, db.sprints.get? sprintId = some sprint ∧ sprint.phase.beforeStart = true ∧
      db' = db.updateSprint sprintId (fun row => { row with phase := .active }) fun _ => rfl := by
  simp only [activateSprint, bind_eq_ok] at h
  obtain ⟨sprint, hsprint, h⟩ := h
  split_ifs at h with hphase
  cases h
  exact ⟨sprint, (sprintOf_eq_ok hsprint).1, hphase, rfl⟩

/-- New dates of a sprint overlap no other one; its waiting events and its issues go. -/
theorem resetSchedule_eq_ok {teamId sprintId : ℤ} {sprint : SprintRow}
    (hsprint : db.sprints.get? sprintId = some sprint)
    (h : resetSchedule db teamId sprintId = .ok db') :
    checkSprintOverlap db teamId sprint.startDate sprint.endDate (some sprintId) = none ∧
      ∃ cleared, (db.deleteEvents fun event => event.sprintId = sprintId && event.waits) =
          .ok cleared ∧
        db' = (cleared.unassignIssues sprintId).updateSprint sprintId
          (fun row => { row with phase := .planning, committedPoints := 0 }) fun _ => rfl := by
  unfold resetSchedule at h
  rw [hsprint] at h
  simp only [bind_eq_ok, pure_eq_ok] at h
  obtain ⟨_, hrefuse, cleared, hcleared, rfl⟩ := h
  exact ⟨refuseOverlap_eq_ok hrefuse, cleared, hcleared, rfl⟩

theorem editSprint_eq_ok {teamId sprintId : ℤ} {body : SprintEditRequest}
    (h : editSprint db teamId sprintId body = .ok db') :
    ∃ sprint, db.sprints.get? sprintId = some sprint ∧ sprint.teamId = teamId ∧
      sprint.phase.beforeStart = true ∧
      if body.startDate.isSome || body.endDate.isSome then
        resetSchedule (db.updateSprint sprintId (editRow body) fun _ => rfl) teamId sprintId =
          .ok db'
      else db' = db.updateSprint sprintId (editRow body) fun _ => rfl := by
  simp only [editSprint, bind_eq_ok] at h
  obtain ⟨sprint, hsprint, h⟩ := h
  obtain ⟨hget, hteam⟩ := sprintOf_eq_ok hsprint
  by_cases hphase : sprint.phase.beforeStart = true
  · rw [if_pos hphase] at h
    refine ⟨sprint, hget, hteam, hphase, ?_⟩
    by_cases hdates : (body.startDate.isSome || body.endDate.isSome) = true
    · simp only [hdates, if_true, bind_eq_ok] at h ⊢
      split_ifs at h
      · obtain ⟨_, -, h⟩ := h
        cases h
      · obtain ⟨reset, hreset, h⟩ := h
        cases h
        exact hreset
    · simp only [hdates, Bool.false_eq_true, if_false] at h ⊢
      split_ifs at h
      · cases h
      · cases h
        rfl
  · rw [if_neg hphase] at h
    cases h

theorem createSprintBatch_eq_ok {teamId now count : ℤ} {startDate : Option ℤ}
    (h : createSprintBatch db teamId now startDate count = .ok db') :
    ∃ team start, db.team teamId = some team ∧ batchStart db team now startDate = .ok start ∧
      createSprints team count.toNat 1 start db = .ok db' := by
  unfold createSprintBatch at h
  split_ifs at h
  cases hteam : db.team teamId with
  | none =>
    rw [hteam] at h
    cases h
  | some team =>
    rw [hteam] at h
    dsimp only at h
    cases startDate with
    | some start =>
      simp only [pure_eq_ok, bind_eq_ok, exists_eq_left'] at h
      exact ⟨team, start, rfl, rfl, h⟩
    | none =>
      simp only [bind_eq_ok, orRaise_eq_ok] at h
      obtain ⟨start, hstart, h⟩ := h
      exact ⟨team, start, rfl, hstart, h⟩

theorem deleteSprint_eq_ok {teamId sprintId : ℤ} (h : deleteSprint db teamId sprintId = .ok db') :
    ∃ cleared, (db.deleteEvents fun event => event.sprintId = sprintId) = .ok cleared ∧
      db' = { cleared.unassignIssues sprintId with
        sprints := (cleared.unassignIssues sprintId).sprints.filter
          fun row => row.id != sprintId } := by
  simp only [deleteSprint, bind_eq_ok] at h
  obtain ⟨sprint, -, h⟩ := h
  split_ifs at h
  simp only [bind_eq_ok, pure_eq_ok] at h
  obtain ⟨cleared, hcleared, rfl⟩ := h
  exact ⟨cleared, hcleared, rfl⟩

/-- A new sprint is planned, with the window that was computed for it. -/
theorem createNextSprint_eq_ok {team : TeamRow} {now : ℤ} {startDate endDate : Option ℤ}
    {sprint : SprintRow} (h : createNextSprint db team now startDate endDate = .ok (db', sprint)) :
    ∃ window make hmake, db.nextWindow team now startDate endDate = .ok window ∧
      (∀ k, (make k).teamId = team.id ∧ (make k).startDate = window.1 ∧
        (make k).endDate = window.2 ∧ (make k).phase = .planning) ∧
      sprint = make db.sprints.next ∧
      db' = { db with sprints := db.sprints.insert make hmake } := by
  simp only [createNextSprint, bind_eq_ok, pure_eq_ok] at h
  obtain ⟨window, hwindow, h⟩ := h
  obtain ⟨rfl, rfl⟩ := Prod.mk.inj h
  exact ⟨window, _, _, hwindow, fun _ => ⟨rfl, rfl, rfl, rfl⟩, rfl, rfl⟩

/-- A precomputed sprint is created, its schedule is stored, and it is simulated. -/
theorem computeAndSchedule_eq_ok {teamId rngSeed now : ℤ} {startDate endDate : Option ℤ}
    (h : computeAndScheduleSprint library fuel db teamId rngSeed now startDate endDate =
      .ok (some db')) :
    ∃ team steps finalStep created sprint result, db.team teamId = some team ∧
      team.steps = .ok (steps, finalStep) ∧
      (db.backlog team.id finalStep.jiraStatus none).isEmpty = false ∧
      createNextSprint db team now startDate endDate = .ok (created, sprint) ∧
      precomputeSprint library
        (db.sprintInput team steps finalStep sprint (.utc sprint.startDate) none) fuel rngSeed =
          .ok (some result) ∧
      db' = (created.storeSchedule team.id sprint.id result).updateSprint sprint.id
        (fun row => { row with phase := .simulated }) fun _ => rfl := by
  unfold computeAndScheduleSprint at h
  cases hteam : db.team teamId with
  | none =>
    rw [hteam] at h
    cases h
  | some team =>
    rw [hteam] at h
    simp only [bind_eq_ok] at h
    obtain ⟨⟨steps, finalStep⟩, hsteps, h⟩ := h
    dsimp only at h
    split_ifs at h with hbacklog
    simp only [bind_eq_ok] at h
    obtain ⟨⟨created, sprint⟩, hcreate, schedule, hschedule, h⟩ := h
    cases schedule with
    | none => cases h
    | some result =>
      cases h
      exact ⟨team, steps, finalStep, created, sprint, result, rfl, hsteps, by simpa using hbacklog,
        hcreate, hschedule, rfl⟩

/-- A recomputed schedule takes the place of the events that wait. -/
theorem recompute_eq_ok {teamId sprintId rngSeed : ℤ}
    (h : recomputeSprintSchedule library fuel db teamId sprintId rngSeed = .ok (some db')) :
    ∃ team sprint cleared steps finalStep result, db.team teamId = some team ∧
      db.sprints.get? sprintId = some sprint ∧
      db.deleteEvents (·.waitsFor teamId sprintId) = .ok cleared ∧
      team.steps = .ok (steps, finalStep) ∧
      precomputeSprint library (cleared.sprintInput team steps finalStep sprint
        { instant := sprint.startDate, aware := false } (some sprintId)) fuel rngSeed =
          .ok (some result) ∧
      db' = cleared.storeSchedule team.id sprint.id result := by
  unfold recomputeSprintSchedule at h
  cases hteam : db.team teamId with
  | none =>
    rw [hteam] at h
    cases h
  | some team =>
    cases hsprint : db.sprints.get? sprintId with
    | none =>
      rw [hteam, hsprint] at h
      cases h
    | some sprint =>
      rw [hteam, hsprint] at h
      simp only [bind_eq_ok, orRaise_eq_ok] at h
      obtain ⟨cleared, hcleared, ⟨steps, finalStep⟩, hsteps, schedule, hschedule, h⟩ := h
      cases schedule with
      | none => cases h
      | some result =>
        cases h
        exact ⟨team, sprint, cleared, steps, finalStep, result, rfl, rfl, hcleared, hsteps,
          hschedule, rfl⟩

/-- What a tick does to the sprints of a team. -/
inductive SprintTick (library : StandardLibrary) (fuel : ℕ) (db : Database) (team : TeamRow)
    (finalStep : WorkflowStepSnapshot) (draws : TickDraws) : Database → Prop where
  | idle : SprintTick library fuel db team finalStep draws db
  | first (next : Database) (hlatest : db.latestSprint team.id = none)
    (h : computeAndScheduleSprint library fuel db team.id draws.rngSeed draws.now none none =
      .ok (some next)) : SprintTick library fuel db team finalStep draws next
  | close (sprint : SprintRow) (hlatest : db.latestSprint team.id = some sprint)
    (hphase : sprint.phase = .active) :
    SprintTick library fuel db team finalStep draws (db.closeSprint team.id sprint)
  | carryOver (sprint : SprintRow) (hlatest : db.latestSprint team.id = some sprint)
    (hphase : sprint.phase = .completed) :
    SprintTick library fuel db team finalStep draws
      (db.carryOver sprint.id finalStep.jiraStatus)
  | next (sprint : SprintRow) (next : Database) (hlatest : db.latestSprint team.id = some sprint)
    (hphase : sprint.phase = .completed)
    (h : computeAndScheduleSprint library fuel (db.carryOver sprint.id finalStep.jiraStatus)
      team.id draws.rngSeed draws.now none none = .ok (some next)) :
    SprintTick library fuel db team finalStep draws next

theorem tickTeam_eq_ok {teamId : ℤ} {draws : TickDraws}
    (h : tickTeam library fuel db teamId draws = .ok db') :
    ∃ team steps finalStep ticked, db.team teamId = some team ∧
      team.steps = .ok (steps, finalStep) ∧
      SprintTick library fuel db team finalStep draws ticked ∧
      db' = ticked.maintainBacklog team draws := by
  unfold tickTeam at h
  cases hteam : db.team teamId with
  | none =>
    rw [hteam] at h
    cases h
  | some team =>
    rw [hteam] at h
    simp only [bind_eq_ok, pure_eq_ok] at h
    obtain ⟨⟨steps, finalStep⟩, hsteps, rfl⟩ := h
    refine ⟨team, steps, finalStep, _, rfl, hsteps, ?_, rfl⟩
    unfold Database.tickSprint
    dsimp only
    cases hlatest : db.latestSprint team.id with
    | none =>
      dsimp only
      split_ifs
      · exact .idle
      · split
        · exact .first _ hlatest ‹_›
        · exact .idle
    | some sprint =>
      dsimp only
      cases hphase : sprint.phase with
      | completed =>
        dsimp only
        split_ifs
        · exact .carryOver sprint hlatest hphase
        · split
          · exact .next sprint _ hlatest hphase ‹_›
          · exact .carryOver sprint hlatest hphase
      | active => exact .close sprint hlatest hphase
      | planning => exact .idle
      | simulated => exact .idle

/-! ### Transactions as changes -/

theorem deleteEvents_changes {selects : ScheduledEventRow → Bool}
    (h : db.deleteEvents selects = .ok db') : Changes db db' := by
  obtain ⟨hqueued, rfl⟩ := deleteEvents_eq_ok h
  exact .single (.deleteEvents selects hqueued)

theorem createNextSprint_changes {team : TeamRow} {now : ℤ} {startDate endDate : Option ℤ}
    {sprint : SprintRow} (h : createNextSprint db team now startDate endDate = .ok (db', sprint)) :
    Change db db' := by
  obtain ⟨window, make, hmake, -, hnew, -, rfl⟩ := createNextSprint_eq_ok h
  exact .sprint make hmake fun k => (hnew k).2.2.2

theorem createSprints_changes {team : TeamRow} {count place : ℕ} {start : ℤ}
    (h : createSprints team count place start db = .ok db') : Changes db db' := by
  induction count generalizing place start db with
  | zero =>
    cases h
    exact .refl
  | succ count ih =>
    simp only [createSprints, bind_eq_ok, orRaise_eq_ok] at h
    obtain ⟨finish, -, _, -, ⟨created, sprint⟩, hcreate, next, -, h⟩ := h
    exact .head (createNextSprint_changes hcreate) (ih h)

theorem computeAndSchedule_changes {teamId rngSeed now : ℤ} {startDate endDate : Option ℤ}
    (hlinked : Linked db)
    (h : computeAndScheduleSprint library fuel db teamId rngSeed now startDate endDate =
      .ok (some db')) : Changes db db' := by
  obtain ⟨team, steps, finalStep, created, sprint, result, hteam, hsteps, -, hcreate, hschedule,
    rfl⟩ := computeAndSchedule_eq_ok h
  obtain ⟨window, make, hmake, -, hnew, rfl, rfl⟩ := createNextSprint_eq_ok hcreate
  have hrow : make db.sprints.next ∈ (db.sprints.insert make hmake).rows :=
    (Table.mem_insert hmake).mpr (.inr rfl)
  -- no event refers to a sprint that has just been created
  have hfresh : ∀ event ∈ db.events.rows, event.sprintId ≠ (make db.sprints.next).id := by
    intro event hevent hsame
    obtain ⟨sprint, hsprint, hid⟩ := hlinked event hevent
    have hbelow := db.sprints.below sprint hsprint
    rw [hid, hsame, hmake] at hbelow
    exact lt_irrefl _ hbelow
  have hjoins : JoinsFree { db with sprints := db.sprints.insert make hmake }
      (make db.sprints.next).id result.selectedIssueIds := by
    intro issue hissue hselected
    rcases selected_joinsFree hsteps hschedule issue hissue hselected with hnone | hsome
    · exact .inl hnone
    · exact .inl hsome
  exact .head (.sprint make hmake fun k => (hnew k).2.2.2) (.head
    (.schedule team.id _ result ⟨_, hrow, rfl, (hnew _).1, (hnew _).2.2.2⟩ hfresh hjoins)
    (.single (.phase _ .simulated (by decide))))

theorem maintainBacklog_changes (team : TeamRow) (draws : TickDraws) :
    Changes db (db.maintainBacklog team draws) := by
  have hadd : ∀ (issues : List GeneratedIssue) (db : Database) (priority : ℤ)
      (epicId : Option ℤ),
      Changes db (issues.foldl (fun db issue => db.addIssue team.id issue.issueType
        issue.storyPoints priority epicId issue.payload) db) := by
    intro issues
    induction issues with
    | nil => exact fun _ _ _ => .refl
    | cons issue issues ih =>
      exact fun db priority epicId => .head (.addIssue ..) (ih _ priority epicId)
  have hepic : Changes db (db.openEpic team.id draws.epic).1 := by
    unfold Database.openEpic
    dsimp only
    split
    · exact .single (.addIssue ..)
    · split_ifs
      · exact .refl
      · exact .single (.addIssue ..)
  unfold Database.maintainBacklog
  dsimp only
  split_ifs
  · exact hepic.trans (hadd _ _ _ _)
  · exact .refl

theorem sprintTick_changes {team : TeamRow} {finalStep : WorkflowStepSnapshot} {draws : TickDraws}
    (hlinked : Linked db) (h : SprintTick library fuel db team finalStep draws db') :
    Changes db db' := by
  cases h with
  | idle => exact .refl
  | first _ _ hcompute => exact computeAndSchedule_changes hlinked hcompute
  | close sprint hlatest _ =>
    unfold Database.closeSprint
    dsimp only
    split_ifs with hwaits hdispatched
    · exact .refl
    · refine .single (.close team.id sprint hlatest fun event hevent hteam hsprint => ?_)
      by_contra hevents
      refine hwaits (List.any_eq_true.mpr ⟨event, List.mem_filter.mpr ⟨hevent, ?_⟩, ?_⟩)
      · simp [hteam, hsprint]
      · simpa using hevents
    · exact .refl
  | carryOver sprint hlatest hphase => exact .single (.carryOver team.id sprint _ hlatest hphase)
  | next sprint _ hlatest hphase hcompute =>
    have hcarry : Change db (db.carryOver sprint.id finalStep.jiraStatus) :=
      .carryOver team.id sprint _ hlatest hphase
    exact .head hcarry (computeAndSchedule_changes (hcarry.linked hlinked) hcompute)

theorem editSprint_changes {teamId sprintId : ℤ} {body : SprintEditRequest}
    (h : editSprint db teamId sprintId body = .ok db') : Changes db db' := by
  obtain ⟨sprint, hsprint, hteam, hphase, h⟩ := editSprint_eq_ok h
  have hedit : Change db (db.updateSprint sprintId (editRow body) fun _ => rfl) :=
    .edit sprintId _ _ (fun _ => rfl) fun _ => .inl rfl
  by_cases hdates : (body.startDate.isSome || body.endDate.isSome) = true
  · rw [if_pos hdates] at h
    have hget : (db.updateSprint sprintId (editRow body) fun _ => rfl).sprints.get? sprintId =
        some (editRow body sprint) := by
      obtain ⟨hmem, hid⟩ := Table.get?_eq_some.mp hsprint
      refine Table.get?_eq_some.mpr ⟨mem_updateSprint.mpr ⟨sprint, hmem, if_pos hid⟩, hid⟩
    obtain ⟨-, cleared, hcleared, rfl⟩ := resetSchedule_eq_ok hget h
    refine .head hedit ((deleteEvents_changes hcleared).trans (.head (.unassign sprintId)
      (.single (.edit sprintId _ _ (fun _ => rfl) fun _ => .inr rfl))))
  · rw [if_neg hdates] at h
    rw [h]
    exact .single hedit

theorem deleteSprint_changes {teamId sprintId : ℤ}
    (h : deleteSprint db teamId sprintId = .ok db') : Changes db db' := by
  obtain ⟨cleared, hcleared, rfl⟩ := deleteSprint_eq_ok h
  obtain ⟨hqueued, rfl⟩ := deleteEvents_eq_ok hcleared
  refine .head (.deleteEvents _ hqueued) (.head (.unassign sprintId)
    (.single (.removeSprint sprintId fun event hevent => ?_)))
  have hleft := (Table.mem_filter.mp hevent).2
  simpa using hleft

/-- A transaction that neither dispatches nor computes a schedule again is a sequence of changes. -/
theorem runAction_changes {action : Action} (hlinked : Linked db)
    (hnot : ∀ teamId sprintId rngSeed, action ≠ .recompute teamId sprintId rngSeed)
    (h : runAction library fuel db action = .ok (some db')) : Changes db db' := by
  cases action with
  | precompute teamId rngSeed now =>
    exact computeAndSchedule_changes hlinked (orRaise_eq_ok.mp h)
  | recompute teamId sprintId rngSeed => exact absurd rfl (hnot teamId sprintId rngSeed)
  | activate teamId sprintId =>
    simp only [runAction, map_eq_ok] at h
    obtain ⟨next, h, hnext⟩ := h
    cases hnext
    obtain ⟨sprint, -, -, rfl⟩ := activateSprint_eq_ok h
    exact .single (.phase sprintId .active (by decide))
  | edit teamId sprintId body =>
    simp only [runAction, map_eq_ok] at h
    obtain ⟨next, h, hnext⟩ := h
    cases hnext
    exact editSprint_changes h
  | delete teamId sprintId =>
    simp only [runAction, map_eq_ok] at h
    obtain ⟨next, h, hnext⟩ := h
    cases hnext
    exact deleteSprint_changes h
  | createBatch teamId now startDate count =>
    simp only [runAction, map_eq_ok] at h
    obtain ⟨next, h, hnext⟩ := h
    cases hnext
    obtain ⟨team, start, -, -, h⟩ := createSprintBatch_eq_ok h
    exact createSprints_changes h
  | cancelAll teamId sprintId =>
    simp only [runAction, map_eq_ok] at h
    obtain ⟨next, h, hnext⟩ := h
    cases hnext
    exact deleteEvents_changes h
  | tick teamId draws =>
    simp only [runAction, map_eq_ok, orRaise_eq_ok] at h
    obtain ⟨next, h, hnext⟩ := h
    cases hnext
    -- a tick steps the sprint first and then tops up the backlog
    obtain ⟨team, steps, finalStep, ticked, -, -, hticked, rfl⟩ := tickTeam_eq_ok h
    exact (sprintTick_changes hlinked hticked).trans (maintainBacklog_changes team draws)
  | cadence teamId rngSeed now nextStart =>
    simp only [runAction] at h
    split_ifs at h
    · exact computeAndSchedule_changes hlinked (orRaise_eq_ok.mp h)
    · cases h
      exact .refl
  | read request =>
    cases h
    exact .refl
  | commit place =>
    cases h
    exact .refl

end transactions

/-! ### Steps of the service -/

/-- What a step of the service does: nothing, the reading or the writing part of a request, or a
transaction; a request that fails is dropped. -/
inductive Stepped (library : StandardLibrary) (fuel : ℕ) (s : Service) :
    Action → Service → Prop where
  | idle (action : Action) : Stepped library fuel s action s
  | read (request : Request) (inFlight : InFlight) (h : readRequest s.db request = .ok inFlight) :
    Stepped library fuel s (.read request) { s with inFlight := s.inFlight ++ [inFlight] }
  | commit (place : ℕ) (request : InFlight) (db : Database)
    (hrequest : s.inFlight[place]? = some request)
    (h : commitRequest library fuel s.db request = .ok (some db)) :
    Stepped library fuel s (.commit place) {
      db, inFlight := s.inFlight.eraseIdx place
      cancelled := s.cancelled ++ cancelledBy s (.commit place) }
  | drop (place : ℕ) :
    Stepped library fuel s (.commit place) { s with inFlight := s.inFlight.eraseIdx place }
  | run (action : Action) (db : Database) (hnot : ∀ place, action ≠ .commit place)
    (h : runAction library fuel s.db action = .ok (some db)) :
    Stepped library fuel s action { s with db, cancelled := s.cancelled ++ cancelledBy s action }

theorem commits_eq_some {response : Response (Option Database)} {db : Database}
    (h : commits response = some db) : response = .ok (some db) := by
  cases response with
  | error e => cases h
  | ok found =>
    cases h
    rfl

/-- A transaction that is no part of a request runs, or leaves the service alone. -/
theorem stepped_run (library : StandardLibrary) (fuel : ℕ) (s : Service) (action : Action)
    (hnot : ∀ place, action ≠ .commit place) : Stepped library fuel s action
      (match commits (runAction library fuel s.db action) with
      | some db => { s with db, cancelled := s.cancelled ++ cancelledBy s action }
      | none => s) := by
  split
  · exact .run action _ hnot (commits_eq_some ‹_›)
  · exact .idle action

theorem stepped (library : StandardLibrary) (fuel : ℕ) (s : Service) (action : Action) :
    Stepped library fuel s action (s.step library fuel action) := by
  cases action with
  | read request =>
    unfold Service.step
    dsimp only
    split
    · exact .read request _ ‹_›
    · exact .idle _
  | commit place =>
    unfold Service.step
    dsimp only
    split
    · exact .idle _
    · rename_i request hrequest
      split
      · exact .commit place request _ hrequest (commits_eq_some ‹_›)
      · exact .drop place
  | _ => exact stepped_run library fuel s _ (fun _ h => Action.noConfusion h)

/-- The transaction of a step commits. -/
def Commits (library : StandardLibrary) (fuel : ℕ) (s : Service) : Action → Prop
  | .commit place => ∃ request db, s.inFlight[place]? = some request ∧
      commitRequest library fuel s.db request = .ok (some db)
  | action => ∃ db, runAction library fuel s.db action = .ok (some db)

theorem commits_of_run {library : StandardLibrary} {fuel : ℕ} {s : Service} {action : Action}
    {db : Database} (hnot : ∀ place, action ≠ .commit place)
    (h : runAction library fuel s.db action = .ok (some db)) : Commits library fuel s action := by
  cases action with
  | commit place => exact absurd rfl (hnot place)
  | _ => exact ⟨db, h⟩

/-- A step meets the condition when its transaction commits; what is refused is under none. -/
def WhenCommitted (library : StandardLibrary) (fuel : ℕ) (okStep : Service → Action → Prop)
    (s : Service) (action : Action) : Prop :=
  Commits library fuel s action → okStep s action

/-- Transactions that are no part of a request leave the requests in flight alone. -/
theorem step_inFlight (library : StandardLibrary) (fuel : ℕ) (s : Service) {action : Action}
    (hread : ∀ request, action ≠ .read request) (hcommit : ∀ place, action ≠ .commit place) :
    (s.step library fuel action).inFlight = s.inFlight := by
  have hstep := stepped library fuel s action
  generalize s.step library fuel action = s' at hstep
  cases hstep with
  | idle => rfl
  | read request => exact absurd rfl (hread request)
  | commit place => exact absurd rfl (hcommit place)
  | drop place => exact absurd rfl (hcommit place)
  | run => rfl

/-! ### Given actions -/

section served

variable (library : StandardLibrary) (fuel : ℕ)

/-- The service after some actions. -/
def serve (s : Service) (actions : List Action) : Service :=
  actions.foldl (Service.step library fuel) s

/-- Each of some actions meets a condition in the state that it finds. -/
def Allowed (okStep : Service → Action → Prop) : Service → List Action → Prop
  | _, [] => True
  | s, action :: actions =>
    okStep s action ∧ Allowed okStep (s.step library fuel action) actions

theorem serve_reachableBy {okStep : Service → Action → Prop} {s : Service} (actions : List Action)
    (hs : (serviceRuns library fuel).ReachableBy (fun _ => True) okStep s)
    (hallowed : Allowed library fuel okStep s actions) :
    (serviceRuns library fuel).ReachableBy (fun _ => True) okStep
      (serve library fuel s actions) := by
  induction actions generalizing s with
  | nil => exact hs
  | cons action actions ih => exact ih (.step hs hallowed.1 rfl) hallowed.2

theorem serve_reachable {s : Service} (actions : List Action)
    (hs : (serviceRuns library fuel).Reachable s) :
    (serviceRuns library fuel).Reachable (serve library fuel s actions) := by
  induction actions generalizing s with
  | nil => exact hs
  | cons action actions ih => exact ih (.step hs trivial rfl)

end served

/-- A team whose sprints take one day, with one developer and a workflow of two steps. -/
def dayTeam : TeamRow where
  toTeamSnapshot := dayOfWork.team
  name := "Team"
  jiraBoardId := some 5
  sprintLengthDays := 1
  firstSprintStartDate := none
  backlogDepthTarget := 0
  workflowSteps := some dayOfWork.workflowSteps
  touchTimeConfigs := dayOfWork.touchTimeConfigs
  moveLeftConfigs := []
  members := dayOfWork.members

/-- The team with a backlog of some issues. -/
def dayService (issues : ℕ) : Service :=
  .start [dayTeam] ((Table.empty _).insertAll
    (fun _ id => { newIssue id with teamId := 1, carriedOver := false, epicId := none })
    (fun _ _ => rfl) (List.replicate issues ()))

theorem dayService_start (library : StandardLibrary) (fuel issues : ℕ)
    (okStep : Service → Action → Prop) :
    (serviceRuns library fuel).ReachableBy (fun _ => True) okStep (dayService issues) :=
  .start (i := (_, _)) rfl trivial

end JiraSimulator.Engine
