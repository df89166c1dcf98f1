import JiraSimulator.Correctness.DatabaseChanges

/-!
# A schedule that is computed again

A recomputation deletes the events of the sprint that wait, and draws the plan again from the rows
of the issues.  The rows do not tell what has been dispatched, and the issues that the new draw
leaves out stay in the sprint.

* `drawnItems`: the items of the new draw.
* `recompute_replaces`: exactly when the new schedule takes the place of the old one.
* `recompute_creates_again`: a recomputation after some dispatches.
-/

namespace JiraSimulator.Engine

open Library Library.Outcome

/-! ### The schedule after a recomputation -/

/-- The dispatched events that move an issue in a sprint. -/
def Database.dispatchedMoves (db : Database) (sprintId issueId : ℤ) : List ScheduledEventRow :=
  db.events.rows.filter fun event =>
    event.sprintId = sprintId && event.status = .dispatched &&
      event.eventType = "TRANSITION_ISSUE" && event.issueId = some issueId

/-- The last one of them moves the issue to the final status. -/
def Database.CompletedBy (db : Database) (sprintId : ℤ) (finalStatus : String) (issueId : ℤ) :
    Prop :=
  ∃ event ∈ db.dispatchedMoves sprintId issueId,
    JsonObject.get event.payload "target_status" = .string finalStatus ∧
      ∀ other ∈ db.dispatchedMoves sprintId issueId,
        Ordering.lexLe (dispatchOrder other) (dispatchOrder event) = true

/-- The events that create the sprint: those that were dispatched, and the new ones. -/
def Database.creations (db db' : Database) (sprintId : ℤ) : List ScheduledEventRow :=
  db'.events.rows.filter fun event =>
    event.sprintId = sprintId && event.eventType = "CREATE_SPRINT" &&
      (event.status = .dispatched || decide (db.events.next ≤ event.id))

/-- The new schedule takes the place of the old one. -/
structure Replaces (db db' : Database) (sprintId : ℤ) (finalStatus : String)
    (selectedIssueIds : List ℤ) : Prop where
  issues : ∀ issueId, (∃ issue ∈ db'.issues.rows, issue.id = issueId ∧
    issue.sprintId = some sprintId) ↔ issueId ∈ selectedIssueIds
  points : ∃ sprint, db'.sprints.get? sprintId = some sprint ∧ sprint.committedPoints =
    ((db'.issues.rows.filter fun issue => issue.sprintId = some sprintId).map fun issue =>
      issue.points).sum
  creates : (db.creations db' sprintId).length ≤ 1
  moves : ∀ event ∈ db'.events.rows, db.events.next ≤ event.id → event.sprintId = sprintId →
    event.eventType = "TRANSITION_ISSUE" → ∀ issueId, event.issueId = some issueId →
      ¬ db.CompletedBy sprintId finalStatus issueId

/-! ### The new draw -/

/-- The items that a precomputation draws; without a tick it draws none. -/
def drawnItems (library : StandardLibrary) (input : SprintInput) (fuel : ℕ) (rngSeed : ℤ) :
    List BacklogItem :=
  match tickSchedule input fuel with
  | .ok (some []) => []
  | _ =>
    match planSprint library.toRandomSource input.backlog input.team.sprintCapacityMin
      input.team.sprintCapacityMax input.team.priorityRandomization (library.seeded rngSeed) with
    | .ok (items, _, _) => items
    | .error _ => []

/-- The number of `CREATE_SPRINT` events that a precomputation makes. -/
def drawnCreations (input : SprintInput) (fuel : ℕ) : ℕ :=
  match tickSchedule input fuel with
  | .ok (some []) => 0
  | _ => if (given input.jiraBoardId).isSome then 1 else 0

theorem drawnCreations_le (input : SprintInput) (fuel : ℕ) : drawnCreations input fuel ≤ 1 := by
  unfold drawnCreations
  split
  · exact Nat.zero_le 1
  · split_ifs
    · exact le_rfl
    · exact Nat.zero_le 1

/-- What a recomputation hands to `precompute_sprint`. -/
def Database.recomputeInput (db : Database) (team : TeamRow) (steps : List WorkflowStepSnapshot)
    (finalStep : WorkflowStepSnapshot) (sprint : SprintRow) : SprintInput :=
  db.sprintInput team steps finalStep sprint { instant := sprint.startDate, aware := false }
    (some sprint.id)

/-- The draw takes all issues of the sprint again and none that was completed, and the sprint is
created once. -/
structure DrawsAgain (db : Database) (sprintId : ℤ) (finalStatus : String)
    (items : List BacklogItem) (created : ℕ) : Prop where
  covers : ∀ issue ∈ db.issues.rows, issue.sprintId = some sprintId →
    issue.id ∈ items.map (·.id)
  createdOnce : (db.events.rows.countP fun event =>
    event.sprintId = sprintId && event.eventType = "CREATE_SPRINT" &&
      event.status = .dispatched) + created ≤ 1
  unfinished : ∀ item ∈ items, ¬ db.CompletedBy sprintId finalStatus item.id

/-- The result of a precomputation is about the items that it draws. -/
structure DrawnResult (input : SprintInput) (items : List BacklogItem) (created : ℕ)
    (result : PrecomputeResult) : Prop where
  selected : result.selectedIssueIds = items.map (·.id)
  backlog : ∀ item ∈ items, item ∈ input.backlog
  distinct : (items.map (·.id)).Nodup
  points : result.committedPoints = (items.map (·.storyPoints)).sum
  enters : ∀ item ∈ items, ∃ event ∈ result.events,
    event.issueId = some item.id ∧ event.eventType = "TRANSITION_ISSUE"
  ofIssues : ∀ event ∈ result.events, ∀ issueId, event.issueId = some issueId →
    issueId ∈ items.map (·.id)
  creates : createCount result.events = created

theorem precompute_drawn {library : StandardLibrary} {input : SprintInput} {fuel : ℕ}
    {rngSeed : ℤ} {result : PrecomputeResult} (hsteps : input.workflowSteps ≠ [])
    (h : precomputeSprint library input fuel rngSeed = .ok (some result)) :
    DrawnResult input (drawnItems library input fuel rngSeed) (drawnCreations input fuel)
      result := by
  rcases precompute_plan hsteps h with
    ⟨hschedule, rfl⟩ | ⟨hschedule, items, target, rng, hplan, hresult⟩
  · have hitems : drawnItems library input fuel rngSeed = [] := by
      simp only [drawnItems, hschedule]
    have hcreated : drawnCreations input fuel = 0 := by
      simp only [drawnCreations, hschedule]
    rw [hitems, hcreated]
    exact ⟨rfl, fun _ hitem => absurd hitem List.not_mem_nil, .nil, rfl,
      fun _ hitem => absurd hitem List.not_mem_nil,
      fun _ hevent => absurd hevent List.not_mem_nil, rfl⟩
  · have hitems : drawnItems library input fuel rngSeed = items := by
      unfold drawnItems
      split
      · exact absurd ‹_› hschedule
      · rw [hplan]
    have hcreated : drawnCreations input fuel =
        if (given input.jiraBoardId).isSome then 1 else 0 := by
      unfold drawnCreations
      split
      · exact absurd ‹_› hschedule
      · rfl
    rw [hitems, hcreated]
    exact ⟨hresult.selected, planSprint_subset hplan, planSprint_distinct hplan, hresult.points,
      hresult.enters, hresult.ofIssues, hresult.creates⟩

/-! ### What is stored -/

theorem joinSprint_sprintId {sprintId : ℤ} {selected : List ℤ} {row : IssueRow} :
    (joinSprint sprintId selected row).sprintId = some sprintId ↔
      row.id ∈ selected ∨ row.sprintId = some sprintId := by
  unfold joinSprint
  by_cases hmem : row.id ∈ selected
  · simp [hmem]
  · simp [hmem]

section stored

variable {db cleared : Database} {teamId sprintId : ℤ} {items : List BacklogItem} {created : ℕ}
  {input : SprintInput} {result : PrecomputeResult}

/-- The `CREATE_SPRINT` events afterwards are the dispatched ones and the drawn ones. -/
theorem creations_length
    (hcleared : cleared = { db with
      events := db.events.filter fun event => !event.waitsFor teamId sprintId })
    (hresult : DrawnResult input items created result) :
    (db.creations (cleared.storeSchedule teamId sprintId result) sprintId).length =
      (db.events.rows.countP fun event =>
        event.sprintId = sprintId && event.eventType = "CREATE_SPRINT" &&
          event.status = .dispatched) + created := by
  have hrows : (cleared.storeSchedule teamId sprintId result).events.rows =
      (db.events.rows.filter fun event => !event.waitsFor teamId sprintId) ++
        Table.newRows (eventRow teamId sprintId) db.events.next result.events := by
    rw [hcleared]
    rfl
  unfold Database.creations
  rw [← List.countP_eq_length_filter, hrows, List.countP_append, List.countP_filter]
  congr 1
  · refine List.countP_congr fun event hevent => ?_
    have hbelow : ¬ db.events.next ≤ event.id := not_le.mpr (db.events.below event hevent)
    -- a dispatched event does not wait, so it is not deleted
    cases hstatus : event.status
    all_goals simp [hstatus, hbelow, ScheduledEventRow.waitsFor, ScheduledEventRow.waits]
  · have hnew : (Table.newRows (eventRow teamId sprintId) db.events.next result.events).countP
        (fun event => event.sprintId = sprintId && event.eventType = "CREATE_SPRINT" &&
          (event.status = .dispatched || decide (db.events.next ≤ event.id))) =
            createCount result.events := by
      refine Table.countP_newRows (fun data id hle => ?_) result.events
      have hle' : decide (db.events.next ≤ id) = true := decide_eq_true hle
      show (decide (sprintId = sprintId) && decide (data.eventType = "CREATE_SPRINT") &&
        (decide (EventStatus.pending = .dispatched) || decide (db.events.next ≤ id))) = _
      rw [hle', decide_eq_true rfl, Bool.true_and, Bool.or_true, Bool.and_true]
    exact hnew.trans hresult.creates

/-- The new events that move an issue move no completed one exactly when none is drawn. -/
theorem newMoves_iff (finalStatus : String)
    (hcleared : cleared = { db with
      events := db.events.filter fun event => !event.waitsFor teamId sprintId })
    (hresult : DrawnResult input items created result) :
    (∀ event ∈ (cleared.storeSchedule teamId sprintId result).events.rows,
      db.events.next ≤ event.id → event.sprintId = sprintId →
        event.eventType = "TRANSITION_ISSUE" → ∀ issueId, event.issueId = some issueId →
          ¬ db.CompletedBy sprintId finalStatus issueId) ↔
      ∀ item ∈ items, ¬ db.CompletedBy sprintId finalStatus item.id := by
  constructor
  · intro hmoves item hitem
    obtain ⟨data, hdata, hissue, htype⟩ := hresult.enters item hitem
    have hnew : ∃ id, db.events.next ≤ id ∧ eventRow teamId sprintId data id ∈
        (cleared.storeSchedule teamId sprintId result).events.rows := by
      rw [hcleared]
      have hrow : ∃ id, db.events.next ≤ id ∧ eventRow teamId sprintId data id ∈
          Table.newRows (eventRow teamId sprintId) db.events.next result.events :=
        Table.exists_newRows hdata
      obtain ⟨id, hle, hmem⟩ := hrow
      exact ⟨id, hle, List.mem_append_right _ hmem⟩
    obtain ⟨id, hle, hmem⟩ := hnew
    exact hmoves _ hmem hle rfl htype item.id hissue
  · intro hitems event hevent hle _ _ issueId hissue
    rcases mem_storeSchedule_events hevent with hold | ⟨data, hdata, id, -, rfl⟩
    · -- an event that was there has an identifier below the next one
      rw [hcleared] at hold
      have hbelow := db.events.below event (Table.mem_filter.mp hold).1
      exact absurd hbelow (not_lt.mpr hle)
    · obtain ⟨item, hitem, rfl⟩ := List.mem_map.mp (hresult.ofIssues data hdata issueId hissue)
      exact hitems item hitem

/-- The issues of the sprint are the selected ones exactly when the draw takes all of them. -/
theorem sprintIssues_iff (teamId sprintId : ℤ) (hissues : cleared.issues = db.issues)
    (hresult : DrawnResult input items created result)
    (hbacklog : ∀ item ∈ items, ∃ issue ∈ db.issues.rows,
      issue.id = item.id ∧ issue.points = item.storyPoints) :
    (∀ issueId, (∃ issue ∈ (cleared.storeSchedule teamId sprintId result).issues.rows,
      issue.id = issueId ∧ issue.sprintId = some sprintId) ↔
        issueId ∈ result.selectedIssueIds) ↔
      ∀ issue ∈ db.issues.rows, issue.sprintId = some sprintId →
        issue.id ∈ items.map (·.id) := by
  -- an issue is in the sprint when it is selected or was there before
  have hmem : ∀ issueId, (∃ issue ∈ (cleared.storeSchedule teamId sprintId result).issues.rows,
      issue.id = issueId ∧ issue.sprintId = some sprintId) ↔
        ∃ row ∈ db.issues.rows, row.id = issueId ∧
          (row.id ∈ result.selectedIssueIds ∨ row.sprintId = some sprintId) := by
    intro issueId
    constructor
    · rintro ⟨issue, hissue, rfl, hsprint⟩
      obtain ⟨row, hrow, rfl⟩ := List.mem_map.mp hissue
      rw [hissues] at hrow
      exact ⟨row, hrow, rfl, joinSprint_sprintId.mp hsprint⟩
    · rintro ⟨row, hrow, rfl, hjoins⟩
      rw [← hissues] at hrow
      exact ⟨_, List.mem_map_of_mem hrow, rfl, joinSprint_sprintId.mpr hjoins⟩
  simp only [hmem]
  rw [← hresult.selected]
  constructor
  · exact fun h issue hissue hsprint => (h issue.id).mp ⟨issue, hissue, rfl, .inr hsprint⟩
  · intro hcovers issueId
    constructor
    · rintro ⟨row, hrow, rfl, hselected | hsprint⟩
      · exact hselected
      · exact hcovers row hrow hsprint
    · intro hselected
      obtain ⟨item, hitem, rfl⟩ := List.mem_map.mp (hresult.selected ▸ hselected)
      obtain ⟨row, hrow, hid, -⟩ := hbacklog item hitem
      exact ⟨row, hrow, hid, .inl (hid ▸ hselected)⟩

/-- The points of the drawn items are those of the issues of the sprint, when the draw takes all of
them. -/
theorem sprintPoints_eq (hissues : cleared.issues = db.issues)
    (hresult : DrawnResult input items created result)
    (hbacklog : ∀ item ∈ items, ∃ issue ∈ db.issues.rows,
      issue.id = item.id ∧ issue.points = item.storyPoints)
    (hcovers : ∀ issue ∈ db.issues.rows, issue.sprintId = some sprintId →
      issue.id ∈ items.map (·.id)) :
    result.committedPoints =
      (((cleared.storeSchedule teamId sprintId result).issues.rows.filter fun issue =>
        issue.sprintId = some sprintId).map fun issue => issue.points).sum := by
  have hitems : (items.map fun item => (item.id, item.storyPoints)).Nodup := by
    refine List.Nodup.of_map Prod.fst ?_
    rw [List.map_map]
    exact hresult.distinct
  have hrows : (((cleared.storeSchedule teamId sprintId result).issues.rows.filter fun issue =>
      issue.sprintId = some sprintId).map fun issue => (issue.id, issue.points)).Nodup := by
    refine List.Nodup.of_map Prod.fst ?_
    rw [List.map_map]
    exact (cleared.storeSchedule teamId sprintId result).issues.distinct.sublist
      (List.filter_sublist.map _)
  -- the drawn items and the rows of the sprint are the same pairs of id and points
  have hsame : (items.map fun item => (item.id, item.storyPoints)).Perm
      (((cleared.storeSchedule teamId sprintId result).issues.rows.filter fun issue =>
        issue.sprintId = some sprintId).map fun issue => (issue.id, issue.points)) := by
    refine (List.perm_ext_iff_of_nodup hitems hrows).mpr fun pair => ?_
    constructor
    · intro hpair
      obtain ⟨item, hitem, rfl⟩ := List.mem_map.mp hpair
      obtain ⟨row, hrow, hid, hpoints⟩ := hbacklog item hitem
      have hselected : row.id ∈ result.selectedIssueIds := by
        rw [hresult.selected, hid]
        exact List.mem_map_of_mem hitem
      rw [← hissues] at hrow
      refine List.mem_map.mpr ⟨joinSprint sprintId result.selectedIssueIds row,
        List.mem_filter.mpr ⟨List.mem_map_of_mem hrow, ?_⟩, ?_⟩
      · exact decide_eq_true (joinSprint_sprintId.mpr (.inl hselected))
      · exact Prod.ext hid hpoints
    · intro hpair
      obtain ⟨issue, hissue, rfl⟩ := List.mem_map.mp hpair
      obtain ⟨hmem, hsprint⟩ := List.mem_filter.mp hissue
      obtain ⟨row, hrow, rfl⟩ := List.mem_map.mp hmem
      rw [hissues] at hrow
      have hdrawn : row.id ∈ items.map (·.id) := by
        -- a row of the sprint joined it now, or was in it and is drawn again
        rcases joinSprint_sprintId.mp (of_decide_eq_true hsprint) with hselected | hin
        · exact hresult.selected ▸ hselected
        · exact hcovers row hrow hin
      obtain ⟨item, hitem, hid⟩ := List.mem_map.mp hdrawn
      obtain ⟨other, hother, hotherId, hpoints⟩ := hbacklog item hitem
      have hrowEq : other = row := Table.eq_of_key_eq hother hrow (hotherId.trans hid)
      rw [hrowEq] at hpoints
      exact List.mem_map.mpr ⟨item, hitem, Prod.ext hid hpoints.symm⟩
  have hsum := (hsame.map Prod.snd).sum_eq
  rw [List.map_map, List.map_map] at hsum
  exact hresult.points.trans hsum

end stored

/-! ### The recomputation -/

section recomputation

variable {library : StandardLibrary} {fuel : ℕ} {db db' : Database} {team : TeamRow}
  {sprint : SprintRow} {steps : List WorkflowStepSnapshot} {finalStep : WorkflowStepSnapshot}
  {result : PrecomputeResult} {teamId sprintId rngSeed : ℤ}

/-- The items of a backlog are issues with their points. -/
theorem backlog_issue {item : BacklogItem}
    (h : item ∈ (db.recomputeInput team steps finalStep sprint).backlog) :
    ∃ issue ∈ db.issues.rows, issue.id = item.id ∧ issue.points = item.storyPoints := by
  obtain ⟨snapshot, hsnapshot, rfl⟩ := List.mem_map.mp h
  obtain ⟨row, hrow, rfl⟩ := List.mem_map.mp hsnapshot
  have hmem := (db.backlog_perm team.id finalStep.jiraStatus (some sprint.id)).mem_iff.mp hrow
  exact ⟨row, (List.mem_filter.mp hmem).1, rfl, rfl⟩

/-- The new schedule takes the place of the old one exactly when the draw takes all issues of the
sprint again and none that was completed, and the sprint has not been created before. -/
theorem recompute_replaces (hteam : db.team teamId = some team)
    (hsprint : db.sprints.get? sprintId = some sprint)
    (hsteps : team.steps = .ok (steps, finalStep))
    (hresult : precomputeSprint library (db.recomputeInput team steps finalStep sprint) fuel
      rngSeed = .ok (some result))
    (h : recomputeSprintSchedule library fuel db teamId sprintId rngSeed = .ok (some db')) :
    Replaces db db' sprintId finalStep.jiraStatus result.selectedIssueIds ↔
      DrawsAgain db sprintId finalStep.jiraStatus
        (drawnItems library (db.recomputeInput team steps finalStep sprint) fuel rngSeed)
        (drawnCreations (db.recomputeInput team steps finalStep sprint) fuel) := by
  obtain ⟨team', sprint', cleared, steps', finalStep', result', hteam', hsprint', hdeleted, hsteps',
    hresult', hdb⟩ := recompute_eq_ok h
  cases hteam.symm.trans hteam'
  cases hsprint.symm.trans hsprint'
  cases hsteps.symm.trans hsteps'
  obtain ⟨-, hcleared⟩ := deleteEvents_eq_ok hdeleted
  have hid : sprint.id = sprintId := (Table.get?_eq_some.mp hsprint).2
  subst hid
  have hissues : cleared.issues = db.issues := by rw [hcleared]
  have hsame : result' = result := by
    rw [hcleared] at hresult'
    cases hresult.symm.trans hresult'
    rfl
  rw [hsame] at hdb
  have hne : (db.recomputeInput team steps finalStep sprint).workflowSteps ≠ [] :=
    (steps_eq_ok hsteps).1
  have hdrawn := precompute_drawn hne hresult
  have hbacklog := fun item hitem => backlog_issue (hdrawn.backlog item hitem)
  have hid := team_id hteam
  subst hid
  -- each of the three parts of the condition is one part of what is replaced
  have hcreations := creations_length hcleared hdrawn
  have hmoves := newMoves_iff finalStep.jiraStatus hcleared hdrawn
  have hjoined := sprintIssues_iff team.id sprint.id hissues hdrawn hbacklog
  rw [hdb]
  constructor
  · intro hreplaces
    refine ⟨hjoined.mp hreplaces.issues, ?_, hmoves.mp hreplaces.moves⟩
    rw [← hcreations]
    exact hreplaces.creates
  · intro hagain
    refine ⟨hjoined.mpr hagain.covers, ?_, ?_, hmoves.mpr hagain.unfinished⟩
    · have hsprints : cleared.sprints = db.sprints := by rw [hcleared]
      refine ⟨{ sprint with
        committedPoints := result.committedPoints, capacityTarget := some result.capacityTarget },
        ?_, sprintPoints_eq hissues hdrawn hbacklog hagain.covers⟩
      show (cleared.sprints.update sprint.id (fun row => { row with
        committedPoints := result.committedPoints, capacityTarget := some result.capacityTarget })
        fun _ => rfl).get? sprint.id = _
      rw [Table.get?_update, if_pos rfl, hsprints, hsprint]
      rfl
    · rw [hcreations]
      exact hagain.createdOnce

end recomputation

/-! ### Before and after a dispatch -/

/-- The database after a sprint of one day has been precomputed. -/
def dayComputed : Database :=
  (serve leastDraws 3 (dayService 1) [.precompute 1 0 (8 * microsecondsPerHour)]).db

theorem exists_recomputed {library : StandardLibrary} {fuel : ℕ} {db : Database}
    {teamId sprintId rngSeed : ℤ}
    (h : ((recomputeSprintSchedule library fuel db teamId sprintId rngSeed).toOption.bind
      id).isSome = true) :
    ∃ db', recomputeSprintSchedule library fuel db teamId sprintId rngSeed = .ok (some db') := by
  cases hrecompute : recomputeSprintSchedule library fuel db teamId sprintId rngSeed with
  | error failure =>
    rw [hrecompute] at h
    cases h
  | ok schedule =>
    rw [hrecompute] at h
    obtain ⟨db', rfl⟩ := Option.isSome_iff_exists.mp h
    exact ⟨db', rfl⟩

/-- With the least draws a recomputation takes all issues of the sprint again. -/
def redraws (db : Database) (teamId sprintId : ℤ) : Bool :=
  (db.team teamId).any fun team => (db.sprints.get? sprintId).any fun sprint =>
    team.steps.toOption.any fun steps => decide (steps.2.jiraStatus = "Done" ∧
      ∀ issue ∈ db.issues.rows, issue.sprintId = some sprintId →
        issue.id ∈ (drawnItems leastDraws (db.recomputeInput team steps.1 steps.2 sprint) 3 0).map
          (·.id))

/-- Before a dispatch such a recomputation creates the sprint once and moves no completed issue. -/
theorem exists_drawsAgain {db : Database} {teamId sprintId : ℤ}
    (hredraws : redraws db teamId sprintId = true)
    (hwaits : ∀ event ∈ db.events.rows, event.status ≠ .dispatched) :
    ∃ team sprint steps finalStep, db.team teamId = some team ∧
      db.sprints.get? sprintId = some sprint ∧ team.steps = .ok (steps, finalStep) ∧
      finalStep.jiraStatus = "Done" ∧ DrawsAgain db sprintId finalStep.jiraStatus
        (drawnItems leastDraws (db.recomputeInput team steps finalStep sprint) 3 0)
        (drawnCreations (db.recomputeInput team steps finalStep sprint) 3) := by
  unfold redraws at hredraws
  simp only [Option.any_eq_true] at hredraws
  obtain ⟨team, hteam, sprint, hsprint, ⟨steps, finalStep⟩, hfound, hredrawn⟩ := hredraws
  have hsteps : team.steps = .ok (steps, finalStep) := by
    cases hresult : team.steps with
    | error e =>
      rw [hresult] at hfound
      cases hfound
    | ok found =>
      rw [hresult] at hfound
      exact congrArg Except.ok (Option.some.inj hfound)
  obtain ⟨hdone, hcovers⟩ := of_decide_eq_true hredrawn
  have hnone : (db.events.rows.countP fun event => event.sprintId = sprintId &&
      event.eventType = "CREATE_SPRINT" && event.status = .dispatched) = 0 := by
    refine List.countP_eq_zero.mpr fun event hevent hcreates => ?_
    simp only [Bool.and_eq_true, decide_eq_true_eq] at hcreates
    exact hwaits event hevent hcreates.2
  refine ⟨team, sprint, steps, finalStep, hteam, hsprint, hsteps, hdone, hcovers, ?_, ?_⟩
  · rw [hnone, Nat.zero_add]
    exact drawnCreations_le _ _
  · rintro item - ⟨event, hevent, -⟩
    obtain ⟨hmem, hmoves⟩ := List.mem_filter.mp hevent
    simp only [Bool.and_eq_true, decide_eq_true_eq] at hmoves
    exact hwaits event hmem hmoves.1.1.2

theorem dayComputed_recomputes :
    ((recomputeSprintSchedule leastDraws 3 dayComputed 1 1 0).toOption.bind id).isSome = true ∧
      redraws dayComputed 1 1 = true := by
  decide +kernel

/-- The sprint has its issue, and events that wait. -/
theorem dayComputed_waits : (∃ issue ∈ dayComputed.issues.rows, issue.sprintId = some 1) ∧
    dayComputed.events.rows.length = 3 ∧
      ∀ event ∈ dayComputed.events.rows, event.status ≠ .dispatched := by
  decide +kernel

/-- A recomputation that commits has precomputed the sprint. -/
theorem exists_precomputed {library : StandardLibrary} {fuel : ℕ} {db db' : Database}
    {teamId sprintId rngSeed : ℤ} {team : TeamRow} {sprint : SprintRow}
    {steps : List WorkflowStepSnapshot} {finalStep : WorkflowStepSnapshot}
    (hteam : db.team teamId = some team) (hsprint : db.sprints.get? sprintId = some sprint)
    (hsteps : team.steps = .ok (steps, finalStep))
    (h : recomputeSprintSchedule library fuel db teamId sprintId rngSeed = .ok (some db')) :
    ∃ result, precomputeSprint library (db.recomputeInput team steps finalStep sprint) fuel
      rngSeed = .ok (some result) := by
  obtain ⟨team', sprint', cleared, steps', finalStep', result, hteam', hrow, hdeleted,
    hteamSteps, hresult, -⟩ := recompute_eq_ok h
  cases hteam.symm.trans hteam'
  cases hsprint.symm.trans hrow
  cases hsteps.symm.trans hteamSteps
  have hid : sprint.id = sprintId := (Table.get?_eq_some.mp hsprint).2
  subst hid
  rw [(deleteEvents_eq_ok hdeleted).2] at hresult
  exact ⟨result, hresult⟩

/-- Before a dispatch the schedule of the sprint is replaced. -/
theorem recompute_replaces_day : ∃ db' selected,
    recomputeSprintSchedule leastDraws 3 dayComputed 1 1 0 = .ok (some db') ∧
      (∃ issue ∈ dayComputed.issues.rows, issue.sprintId = some 1) ∧
      dayComputed.events.rows.length = 3 ∧ Replaces dayComputed db' 1 "Done" selected := by
  obtain ⟨db', h⟩ := exists_recomputed dayComputed_recomputes.1
  obtain ⟨team, sprint, steps, finalStep, hteam, hsprint, hsteps, hdone, hagain⟩ :=
    exists_drawsAgain dayComputed_recomputes.2 dayComputed_waits.2.2
  obtain ⟨result, hresult⟩ := exists_precomputed hteam hsprint hsteps h
  have hreplaces : Replaces dayComputed db' 1 finalStep.jiraStatus result.selectedIssueIds :=
    (recompute_replaces hteam hsprint hsteps hresult h).mpr hagain
  exact ⟨db', result.selectedIssueIds, h, dayComputed_waits.1, dayComputed_waits.2.1,
    hdone ▸ hreplaces⟩

/-- A sprint is precomputed in the morning, and its events are dispatched on the next day. -/
def dispatchAll : List Action :=
  [.precompute 1 0 (8 * microsecondsPerHour), .read (.dispatch microsecondsPerDay), .commit 0]

theorem dispatchAll_recomputes :
    ((recomputeSprintSchedule leastDraws 3 (serve leastDraws 3 (dayService 1) dispatchAll).db
      1 1 0).toOption.bind id).map (fun db' =>
        ((serve leastDraws 3 (dayService 1) dispatchAll).db.creations db' 1).length) = some 2 := by
  decide +kernel

/-- After the dispatch the sprint is created again. -/
theorem recompute_creates_again : ∃ s db', (serviceRuns leastDraws 3).Reachable s ∧
    recomputeSprintSchedule leastDraws 3 s.db 1 1 0 = .ok (some db') ∧
      ¬ ∃ finalStatus selected, Replaces s.db db' 1 finalStatus selected := by
  have hcreations := dispatchAll_recomputes
  have hruns : ((recomputeSprintSchedule leastDraws 3
      (serve leastDraws 3 (dayService 1) dispatchAll).db 1 1 0).toOption.bind id).isSome =
        true := by
    have hsome := congrArg Option.isSome hcreations
    rwa [Option.isSome_map] at hsome
  obtain ⟨db', h⟩ := exists_recomputed hruns
  refine ⟨_, db', serve_reachable leastDraws 3 dispatchAll
    (dayService_start leastDraws 3 1 fun _ _ => True), h, ?_⟩
  rintro ⟨finalStatus, selected, hreplaces⟩
  rw [h] at hcreations
  have hlength : ((serve leastDraws 3 (dayService 1) dispatchAll).db.creations db' 1).length = 2 :=
    Option.some.inj hcreations
  have honce := hreplaces.creates
  omega

end JiraSimulator.Engine
