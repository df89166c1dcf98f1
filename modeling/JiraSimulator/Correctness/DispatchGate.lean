import JiraSimulator.Correctness.EventDispatch

/-!
# Dispatches of active sprints

The dispatcher takes events by their times and their statuses; it does not look at the phases of
their sprints.  A sprint is only completed when none of its events waits, so that its events stay
out of the queue while nothing makes one of them wait again; before the activation nothing keeps
them out.

* `GateKept`: no event of a completed sprint waits.
* `dispatchesActive`: the events that enter the queue are of active sprints, as long as a sprint is
  active when its events are due.
* `dispatched_simulated`: the events of a sprint that is only simulated.
-/

namespace JiraSimulator.Engine

open Library Library.Outcome

/-- The events that a step puts into the queue are of active sprints. -/
def DispatchesActive (s s' : Service) : Prop :=
  ∃ taken, s'.db.queuedEvents = s.db.queuedEvents ++ taken ∧
    ∀ eventId ∈ taken, ∃ event sprint, s.db.events.get? eventId = some event ∧
      s.db.sprints.get? event.sprintId = some sprint ∧ sprint.phase = .active

/-! ### The steps that keep it -/

/-- The sprint of an event is neither planned nor simulated any more. -/
def HasStarted (db : Database) (read : ScheduledEventRow) : Prop :=
  ∀ event sprint, db.events.get? read.id = some event →
    db.sprints.get? event.sprintId = some sprint → sprint.phase.beforeStart = false

/-- The events that a dispatch writes still wait, and their sprints have been activated; a modified
event still waits. -/
def CommitsStarted (db : Database) : InFlight → Prop
  | .dispatch _ due => ∀ event ∈ due, StillWaits db event ∧ HasStarted db event
  | .modify read _ _ => StillWaits db read
  | .cancel _ | .createSprint .. => True

/-- The condition on a step that commits: no schedule is computed again for a completed sprint or
for another team, and the commits are as above. -/
def GateStep (s : Service) : Action → Prop
  | .recompute teamId sprintId _ => ∀ sprint, s.db.sprints.get? sprintId = some sprint →
    sprint.teamId = teamId ∧ sprint.phase ≠ .completed
  | .commit place => ∀ request, s.inFlight[place]? = some request → CommitsStarted s.db request
  | .precompute .. | .activate .. | .edit .. | .delete .. | .createBatch .. | .cancelAll .. |
    .tick .. | .cadence .. | .read _ => True

/-! ### Completed sprints -/

/-- No event of a completed sprint waits. -/
structure GateKept (db : Database) : Prop where
  linked : Linked db
  own : OwnEvents db
  completed : ∀ sprint ∈ db.sprints.rows, sprint.phase = .completed →
    ∀ event ∈ db.events.rows, event.sprintId = sprint.id → event.waits = false

/-- A change of the sprints that completes none keeps it. -/
theorem completed_update {db : Database} {sprintId : ℤ} {change : SprintRow → SprintRow}
    {hid : ∀ row, (change row).id = row.id}
    (hphase : ∀ row, (change row).phase = .completed → row.phase = .completed)
    (hdb : ∀ sprint ∈ db.sprints.rows, sprint.phase = .completed →
      ∀ event ∈ db.events.rows, event.sprintId = sprint.id → event.waits = false) :
    ∀ sprint ∈ (db.updateSprint sprintId change hid).sprints.rows, sprint.phase = .completed →
      ∀ event ∈ db.events.rows, event.sprintId = sprint.id → event.waits = false := by
  intro sprint hsprint hcompleted event hevent hsame
  obtain ⟨row, hrow, rfl⟩ := mem_updateSprint.mp hsprint
  split_ifs at hcompleted hsame
  · exact hdb row hrow (hphase row hcompleted) event hevent (hsame.trans (hid row))
  · exact hdb row hrow hcompleted event hevent hsame

/-- A schedule of a sprint that is not completed keeps it. -/
theorem completed_storeSchedule {db : Database} {teamId sprintId : ℤ}
    {result : PrecomputeResult}
    (hsprint : ∀ sprint ∈ db.sprints.rows, sprint.id = sprintId → sprint.phase ≠ .completed)
    (hdb : ∀ sprint ∈ db.sprints.rows, sprint.phase = .completed →
      ∀ event ∈ db.events.rows, event.sprintId = sprint.id → event.waits = false) :
    ∀ sprint ∈ (db.storeSchedule teamId sprintId result).sprints.rows,
      sprint.phase = .completed →
        ∀ event ∈ (db.storeSchedule teamId sprintId result).events.rows,
          event.sprintId = sprint.id → event.waits = false := by
  intro sprint hrow hcompleted event hevent hsame
  obtain ⟨row, hmem, hid, -, hphase⟩ := mem_storeSchedule_sprints hrow
  rcases mem_storeSchedule_events hevent with hold | ⟨data, -, id, -, rfl⟩
  · exact hdb row hmem (hphase.trans hcompleted) event hold (hsame.trans hid.symm)
  · exact absurd (hphase.trans hcompleted) (hsprint row hmem (hid.trans hsame.symm))

theorem latestSprint_mem {db : Database} {teamId : ℤ} {sprint : SprintRow}
    (h : db.latestSprint teamId = some sprint) :
    sprint ∈ db.sprints.rows ∧ sprint.teamId = teamId := by
  unfold Database.latestSprint at h
  cases hsprints : db.sprintsOf teamId with
  | nil =>
    rw [hsprints] at h
    cases h
  | cons first sprints =>
    rw [hsprints] at h
    have hlatest := Option.some.inj h
    have hmem : sprint ∈ db.sprintsOf teamId := by
      rw [hsprints, ← hlatest]
      exact Ordering.maxBy_mem _ _ _
    obtain ⟨hrow, hteam⟩ := List.mem_filter.mp hmem
    exact ⟨hrow, of_decide_eq_true hteam⟩

theorem Change.gateKept {db db' : Database} (h : Change db db') (hdb : GateKept db) :
    GateKept db' := by
  refine ⟨h.linked hdb.linked, h.ownEvents hdb.linked hdb.own, ?_⟩
  cases h with
  | sprint make hmake hphase =>
    intro sprint hsprint hcompleted
    rcases (Table.mem_insert hmake).mp hsprint with hold | rfl
    · exact hdb.completed sprint hold hcompleted
    · rw [hphase] at hcompleted
      cases hcompleted
  -- a sprint takes a schedule while it is being planned
  | schedule teamId sprintId result hsprint _ _ =>
    refine completed_storeSchedule (fun sprint hmem hid => ?_) hdb.completed
    obtain ⟨planned, hplanned, hkey, -, hphase⟩ := hsprint
    rw [Table.eq_of_key_eq hmem hplanned (hid.trans hkey.symm), hphase]
    exact nofun
  | phase sprintId phase hphase =>
    exact completed_update (fun _ hcompleted => absurd hcompleted hphase) hdb.completed
  -- a sprint is closed when no event of it is pending
  | close teamId sprint hlatest hwaits =>
    obtain ⟨hmem, hteam⟩ := latestSprint_mem hlatest
    intro closed hclosed hcompleted event hevent hsame
    obtain ⟨row, hrow, rfl⟩ := mem_updateSprint.mp hclosed
    split_ifs at hcompleted hsame with hid
    · have hrowSprint : row = sprint := Table.eq_of_key_eq hrow hmem hid
      have howner := hdb.own event hevent row hrow hsame.symm
      rw [hrowSprint, hteam] at howner
      exact hwaits event hevent howner.symm (hsame.trans hid)
    · exact hdb.completed row hrow hcompleted event hevent hsame
  | edit sprintId change hid _ hphase =>
    refine completed_update (fun row hcompleted => ?_) hdb.completed
    rcases hphase row with hsame | hplanning
    · exact hsame.symm.trans hcompleted
    · rw [hplanning] at hcompleted
      cases hcompleted
  | deleteEvents selects _ =>
    exact fun sprint hsprint hcompleted event hevent =>
      hdb.completed sprint hsprint hcompleted event (Table.mem_filter.mp hevent).1
  | unassign | carryOver | addIssue => exact hdb.completed
  | removeSprint sprintId _ =>
    exact fun sprint hsprint => hdb.completed sprint (Table.mem_filter.mp hsprint).1

theorem GateKept.rewrites {db : Database} {change : ScheduledEventRow → ScheduledEventRow}
    {queue : List QueueRow} (hdb : GateKept db) (h : Rewrites db change) :
    GateKept { db with events := db.events.map change h.id, queue } := by
  refine ⟨hdb.linked.rewrites h, hdb.own.rewrites h, fun sprint hsprint hcompleted event hevent
    hsame => ?_⟩
  obtain ⟨row, hrow, rfl⟩ := (Table.mem_map h.id).mp hevent
  rw [h.sprint] at hsame
  have hdone := hdb.completed sprint hsprint hcompleted row hrow hsame
  by_contra hwaits
  have hstill := h.waits row hrow (by simpa using hwaits)
  rw [hdone] at hstill
  cases hstill

theorem recompute_gateKept {library : StandardLibrary} {fuel : ℕ} {db db' : Database}
    {teamId sprintId rngSeed : ℤ} (hdb : GateKept db)
    (hok : ∀ sprint, db.sprints.get? sprintId = some sprint →
      sprint.teamId = teamId ∧ sprint.phase ≠ .completed)
    (h : recomputeSprintSchedule library fuel db teamId sprintId rngSeed = .ok (some db')) :
    GateKept db' := by
  obtain ⟨hlinked, hown⟩ := recompute_links hdb.linked hdb.own
    (fun sprint hsprint => (hok sprint hsprint).1) h
  obtain ⟨team, sprint, cleared, steps, finalStep, result, -, hsprint, hcleared, -, -, rfl⟩ :=
    recompute_eq_ok h
  obtain ⟨hqueued, rfl⟩ := deleteEvents_eq_ok hcleared
  refine ⟨hlinked, hown, completed_storeSchedule (fun row hmem hid => ?_)
    ((Change.deleteEvents _ hqueued).gateKept hdb).completed⟩
  have hrow : row = sprint := Table.eq_of_key_eq hmem (Table.get?_eq_some.mp hsprint).1 hid
  rw [hrow]
  exact (hok sprint hsprint).2

/-! ### Steps -/

theorem DispatchesActive.of_queued {s s' : Service} (h : s'.db.queuedEvents = s.db.queuedEvents) :
    DispatchesActive s s' :=
  ⟨[], by rw [h, List.append_nil], fun _ hid => absurd hid List.not_mem_nil⟩

/-- The events of a dispatch are of active sprints: they wait, so that their sprints are not
completed. -/
theorem GateKept.dispatch {s s' : Service} {now : ℤ} {due : List ScheduledEventRow}
    (hdb : GateKept s.db)
    (hdue : ∀ event ∈ due, StillWaits s.db event ∧ HasStarted s.db event)
    (h : commitDispatch s.db now due = .ok s'.db) : DispatchesActive s s' := by
  have hqueue := commitDispatch_eq_ok h
  unfold commitDispatch at h
  split_ifs at h with hall
  refine ⟨due.map (·.id), ?_, fun eventId hid => ?_⟩
  · rw [hqueue]
    show (s.db.queue ++ due.map enqueueEvent).filterMap _ = _
    rw [List.filterMap_append, List.filterMap_map]
    congr 1
    rw [← List.filterMap_eq_map]
    rfl
  · obtain ⟨read, hread, rfl⟩ := List.mem_map.mp hid
    obtain ⟨event, hevent⟩ := Option.isSome_iff_exists.mp (List.all_eq_true.mp hall read hread)
    obtain ⟨hwaits, hstarted⟩ := hdue read hread
    have hmem := (Table.get?_eq_some.mp hevent).1
    obtain ⟨sprint, hsprint, hsame⟩ := hdb.linked event hmem
    have hget : s.db.sprints.get? event.sprintId = some sprint :=
      Table.get?_eq_some.mpr ⟨hsprint, hsame⟩
    refine ⟨event, sprint, hevent, hget, ?_⟩
    have hbefore := hstarted event sprint hevent hget
    have hstill := hwaits event hevent
    cases hphase : sprint.phase with
    | active => rfl
    | completed =>
      rw [hdb.completed sprint hsprint hphase event hmem hsame.symm] at hstill
      cases hstill
    | planning | simulated =>
      rw [hphase] at hbefore
      cases hbefore

theorem recompute_queued {library : StandardLibrary} {fuel : ℕ} {db db' : Database}
    {teamId sprintId rngSeed : ℤ}
    (h : recomputeSprintSchedule library fuel db teamId sprintId rngSeed = .ok (some db')) :
    db'.queuedEvents = db.queuedEvents := by
  obtain ⟨team, sprint, cleared, steps, finalStep, result, -, -, hcleared, -, -, rfl⟩ :=
    recompute_eq_ok h
  obtain ⟨-, rfl⟩ := deleteEvents_eq_ok hcleared
  rfl

/-- An allowed step keeps the gate, and dispatches events of active sprints only. -/
theorem GateKept.step {library : StandardLibrary} {fuel : ℕ} {s : Service} {action : Action}
    (hdb : GateKept s.db) (hok : WhenCommitted library fuel GateStep s action) :
    GateKept (s.step library fuel action).db ∧
      DispatchesActive s (s.step library fuel action) := by
  -- a change of the database that queues nothing keeps both parts
  have hchanged : ∀ {s' : Service}, Changes s.db s'.db →
      GateKept s'.db ∧ DispatchesActive s s' := fun hchanges =>
    ⟨hchanges.keeps hdb fun _ _ hchange => hchange.gateKept,
      .of_queued hchanges.keepsEvents.queued⟩
  have hstep := stepped library fuel s action
  generalize s.step library fuel action = s' at hstep
  cases hstep with
  | idle | read | drop => exact ⟨hdb, .of_queued rfl⟩
  | commit place request db hrequest hcommit =>
    have hcommits := hok ⟨request, db, hrequest, hcommit⟩ request hrequest
    cases request with
    | dispatch now due =>
      simp only [commitRequest, bind_eq_ok, pure_eq_ok] at hcommit
      obtain ⟨next, hcommit, hnext⟩ := hcommit
      cases hnext
      refine ⟨?_, hdb.dispatch hcommits hcommit⟩
      rw [commitDispatch_eq_ok hcommit]
      exact hdb.rewrites (markDispatched_rewrites s.db due now)
    | modify read body now =>
      simp only [commitRequest, bind_eq_ok, pure_eq_ok] at hcommit
      obtain ⟨next, hcommit, hnext⟩ := hcommit
      cases hnext
      unfold commitModify at hcommit
      split_ifs at hcommit
      cases hcommit
      have hmodified : GateKept { s.db with events := _, queue := s.db.queue } :=
        hdb.rewrites (modifyRow_rewrites body now hcommits)
      exact ⟨hmodified, .of_queued rfl⟩
    | cancel eventId =>
      simp only [commitRequest, bind_eq_ok, pure_eq_ok] at hcommit
      obtain ⟨next, hcommit, hnext⟩ := hcommit
      cases hnext
      exact hchanged (deleteEvents_changes hcommit)
    | createSprint teamId now body start finish =>
      exact hchanged (commitCreate_changes hdb.linked hcommit)
  | run action db hnot hrun =>
    by_cases hrecompute : ∃ teamId sprintId rngSeed, action = .recompute teamId sprintId rngSeed
    · obtain ⟨teamId, sprintId, rngSeed, rfl⟩ := hrecompute
      exact ⟨recompute_gateKept hdb (hok (commits_of_run hnot hrun)) hrun,
        .of_queued (recompute_queued hrun)⟩
    · exact hchanged (runAction_changes hdb.linked (fun teamId sprintId rngSeed hsame =>
        hrecompute ⟨teamId, sprintId, rngSeed, hsame⟩) hrun)

/-- In every run whose steps are allowed, each allowed step puts only events of active sprints into
the queue. -/
theorem dispatchesActive {library : StandardLibrary} {fuel : ℕ} {s : Service} {action : Action}
    (h : (serviceRuns library fuel).ReachableBy (fun _ => True)
      (WhenCommitted library fuel GateStep) s)
    (hok : WhenCommitted library fuel GateStep s action) :
    DispatchesActive s (s.step library fuel action) := by
  have hdb : GateKept s.db := by
    refine h.invariant (I := fun s => GateKept s.db) ?_ ?_
    · rintro ⟨teams, issues⟩ s rfl -
      have hevents : ∀ event, event ∉ (Service.start teams issues).db.events.rows :=
        fun _ => List.not_mem_nil
      have hsprints : ∀ sprint, sprint ∉ (Service.start teams issues).db.sprints.rows :=
        fun _ => List.not_mem_nil
      exact ⟨fun event hevent => absurd hevent (hevents event),
        fun event hevent => absurd hevent (hevents event),
        fun sprint hsprint => absurd hsprint (hsprints sprint)⟩
    · rintro s action _ - hdb hok rfl
      exact (hdb.step hok).1
  exact (hdb.step hok).2

/-! ### Activated and not -/

/-- A sprint of one day is precomputed and activated, and a dispatch reads its events on the next
day. -/
def dispatchActivated : List Action := [
  .precompute 1 0 (9 * microsecondsPerHour), .activate 1 1, .read (.dispatch microsecondsPerDay)]

theorem dispatchActivated_phase :
    ∀ sprint ∈ (serve leastDraws 3 (dayService 1) dispatchActivated).db.sprints.rows,
      sprint.phase = .active := by
  decide +kernel

/-- The events of an active sprint enter the queue. -/
theorem dispatchesActive_day :
    DispatchesActive (serve leastDraws 3 (dayService 1) dispatchActivated)
      ((serve leastDraws 3 (dayService 1) dispatchActivated).step leastDraws 3 (.commit 0)) := by
  refine dispatchesActive (serve_reachableBy leastDraws 3 dispatchActivated
    (dayService_start leastDraws 3 1 _)
      ⟨fun _ => trivial, fun _ => trivial, fun _ => trivial, trivial⟩) ?_
  have hphase := dispatchActivated_phase
  have hread : ∃ s : Service, s.inFlight = [] ∧
      serve leastDraws 3 (dayService 1) dispatchActivated =
        s.step leastDraws 3 (.read (.dispatch microsecondsPerDay)) := by
    have hprecomputed : ((dayService 1).step leastDraws 3
        (.precompute 1 0 (9 * microsecondsPerHour))).inFlight = [] :=
      step_inFlight leastDraws 3 (dayService 1) nofun nofun
    have hactivated : (((dayService 1).step leastDraws 3
        (.precompute 1 0 (9 * microsecondsPerHour))).step leastDraws 3 (.activate 1 1)).inFlight =
          ((dayService 1).step leastDraws 3
            (.precompute 1 0 (9 * microsecondsPerHour))).inFlight :=
      step_inFlight leastDraws 3 _ (by nofun) (by nofun)
    exact ⟨_, hactivated.trans hprecomputed, rfl⟩
  obtain ⟨s, hinFlight, hs⟩ := hread
  rw [hs] at hphase ⊢
  have hrequests : (s.step leastDraws 3 (.read (.dispatch microsecondsPerDay))).inFlight =
      s.inFlight ++ [.dispatch microsecondsPerDay (s.db.dueEvents microsecondsPerDay)] := rfl
  intro _ request hrequest
  rw [hrequests, hinFlight] at hrequest
  cases hrequest
  refine fun read hdue => ⟨stillWaits_dueEvents hdue, fun event sprint _ hsprint => ?_⟩
  rw [hphase sprint (Table.get?_eq_some.mp hsprint).1]
  rfl

/-- A sprint of one day is precomputed, and a dispatch reads its events on the next day. -/
def dispatchSimulated : List Action :=
  [.precompute 1 0 (9 * microsecondsPerHour), .read (.dispatch microsecondsPerDay)]

theorem dispatchSimulated_phase :
    ∀ sprint ∈ (serve leastDraws 3 (dayService 1) dispatchSimulated).db.sprints.rows,
      sprint.phase = .simulated := by
  decide +kernel

theorem dispatchSimulated_queue :
    ((serve leastDraws 3 (dayService 1) dispatchSimulated).step leastDraws 3
      (.commit 0)).db.queuedEvents.length ≠
        (serve leastDraws 3 (dayService 1) dispatchSimulated).db.queuedEvents.length := by
  decide +kernel

/-- They enter the queue while the sprint is simulated. -/
theorem dispatched_simulated :
    ∃ s, (serviceRuns leastDraws 3).Reachable s ∧
      ¬ DispatchesActive s (s.step leastDraws 3 (.commit 0)) := by
  refine ⟨serve leastDraws 3 (dayService 1) dispatchSimulated,
    serve_reachable leastDraws 3 _ (dayService_start leastDraws 3 1 fun _ _ => True), ?_⟩
  rintro ⟨taken, hqueue, htaken⟩
  cases taken with
  | nil =>
    refine dispatchSimulated_queue ?_
    rw [hqueue, List.append_nil]
  | cons eventId taken =>
    obtain ⟨event, sprint, -, hsprint, hactive⟩ := htaken eventId List.mem_cons_self
    rw [dispatchSimulated_phase sprint (Table.get?_eq_some.mp hsprint).1] at hactive
    cases hactive

end JiraSimulator.Engine
