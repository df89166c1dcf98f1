import JiraSimulator.Correctness.DatabaseChanges
import Mathlib.Order.Interval.Set.Disjoint
import Mathlib.Data.Int.ConditionallyCompleteOrder
import Mathlib.Order.CompletePartialOrder

/-!
# The windows of the sprints of a team

Every sprint has its window from its start to its end.  Creating a sprint by a request refuses a
window that overlaps one of the team, and so does an edit; a tick and the cadence check do not look,
a request looks in an earlier transaction, and none of them looks at the order of the dates.

* `SameWindows`: the windows of most transactions.
* `sprintWindows_apart`: the windows stay apart while every new one is free.
* `precompute_overlaps`: a sprint that is precomputed into the window of another.
-/

namespace JiraSimulator.Engine

open Library Library.Outcome

/-- The window of a sprint. -/
def SprintRow.window (sprint : SprintRow) : Set ℤ :=
  Set.Ico sprint.startDate sprint.endDate

/-- Every start is before its end, and two windows of one team share no instant. -/
structure WindowsApart (db : Database) : Prop where
  forward : ∀ sprint ∈ db.sprints.rows, sprint.startDate < sprint.endDate
  apart : ∀ a ∈ db.sprints.rows, ∀ b ∈ db.sprints.rows, a.teamId = b.teamId → a.id ≠ b.id →
    Disjoint a.window b.window

theorem disjoint_iff {a b : SprintRow} (ha : a.startDate < a.endDate)
    (hb : b.startDate < b.endDate) :
    Disjoint a.window b.window ↔ ¬(a.startDate < b.endDate ∧ b.startDate < a.endDate) := by
  unfold SprintRow.window
  rw [Set.Ico_disjoint_Ico]
  omega

/-! ### What a step creates -/

/-- A window for a new sprint: a start before its end, and no sprint of the team that overlaps. -/
def FreeWindow (db : Database) (teamId : ℤ) (window : ℤ × ℤ) : Prop :=
  window.1 < window.2 ∧ checkSprintOverlap db teamId window.1 window.2 none = none

/-- The window of a precomputed sprint is free. -/
def PrecomputesFree (db : Database) (teamId now : ℤ) (startDate endDate : Option ℤ) : Prop :=
  ∀ team steps finalStep window, db.team teamId = some team →
    team.steps = .ok (steps, finalStep) →
    (db.backlog team.id finalStep.jiraStatus none).isEmpty = false →
    db.nextWindow team now startDate endDate = .ok window → FreeWindow db teamId window

/-- The windows of a batch start before they end. -/
def ForwardBatch (team : TeamRow) : ℕ → ℤ → Prop
  | 0, _ => True
  | count + 1, start =>
    ∀ finish, computeSprintEnd team.workingHours (.utc start) team.sprintLengthDays = .ok finish →
      start < finish.instant ∧
        ∀ next, nextWorkingMoment team.workingHours finish = .ok next →
          ForwardBatch team count next.instant

/-- A tick that precomputes a sprint finds its window free. -/
def TicksFree (db : Database) (teamId : ℤ) (draws : TickDraws) : Prop :=
  ∀ team steps finalStep, db.team teamId = some team → team.steps = .ok (steps, finalStep) →
    (db.latestSprint team.id = none → PrecomputesFree db team.id draws.now none none) ∧
    ∀ sprint, db.latestSprint team.id = some sprint → sprint.phase = .completed →
      PrecomputesFree (db.carryOver sprint.id finalStep.jiraStatus) team.id draws.now none none

/-- A request that commits a sprint finds its window free. -/
def CommitsFree (db : Database) : InFlight → Prop
  | .createSprint teamId now body start finish =>
    if body.simulate then PrecomputesFree db teamId now (some start) (some finish)
    else FreeWindow db teamId (start, finish)
  | .dispatch .. | .cancel _ | .modify .. => True

/-- The windows that a step writes are free, where the code does not look itself. -/
def WritesFree (s : Service) : Action → Prop
  | .precompute teamId _ now => PrecomputesFree s.db teamId now none none
  | .cadence teamId _ now nextStart =>
    shouldTrigger s.db teamId now nextStart = true → PrecomputesFree s.db teamId now none none
  | .tick teamId draws => TicksFree s.db teamId draws
  | .edit _ sprintId body =>
    ∀ sprint, s.db.sprints.get? sprintId = some sprint →
      body.startDate.getD sprint.startDate < body.endDate.getD sprint.endDate
  | .createBatch teamId now startDate count =>
    ∀ team start, s.db.team teamId = some team → batchStart s.db team now startDate = .ok start →
      ForwardBatch team count.toNat start
  | .commit place => ∀ request, s.inFlight[place]? = some request → CommitsFree s.db request
  | .recompute .. | .activate .. | .delete .. | .cancelAll .. | .read _ => True

/-! ### Transactions that keep the windows -/

/-- A sprint and its row afterwards, with the same window. -/
structure SameWindow (a b : SprintRow) : Prop where
  id : a.id = b.id
  team : a.teamId = b.teamId
  start : a.startDate = b.startDate
  finish : a.endDate = b.endDate

/-- Every sprint was there before, with its window. -/
def SameWindows (db db' : Database) : Prop :=
  ∀ sprint ∈ db'.sprints.rows, ∃ row ∈ db.sprints.rows, SameWindow row sprint

theorem SameWindows.of_eq {db db' : Database} (h : db'.sprints = db.sprints) :
    SameWindows db db' := by
  intro sprint hsprint
  rw [h] at hsprint
  exact ⟨sprint, hsprint, rfl, rfl, rfl, rfl⟩

theorem SameWindows.trans {a b c : Database} (hab : SameWindows a b) (hbc : SameWindows b c) :
    SameWindows a c := by
  intro sprint hsprint
  obtain ⟨row, hrow, hsame⟩ := hbc sprint hsprint
  obtain ⟨old, hold, hsame'⟩ := hab row hrow
  exact ⟨old, hold, hsame'.id.trans hsame.id, hsame'.team.trans hsame.team,
    hsame'.start.trans hsame.start, hsame'.finish.trans hsame.finish⟩

theorem sameWindows_update {db : Database} {sprintId : ℤ} {change : SprintRow → SprintRow}
    {hid : ∀ row, (change row).id = row.id} (hsame : ∀ row, SameWindow row (change row)) :
    SameWindows db (db.updateSprint sprintId change hid) := by
  intro sprint hsprint
  obtain ⟨row, hrow, rfl⟩ := mem_updateSprint.mp hsprint
  refine ⟨row, hrow, ?_⟩
  split_ifs
  · exact hsame row
  · exact ⟨rfl, rfl, rfl, rfl⟩

theorem sameWindows_store (db : Database) (teamId sprintId : ℤ) (result : PrecomputeResult) :
    SameWindows db (db.storeSchedule teamId sprintId result) :=
  @sameWindows_update db _ _ _ fun _ => ⟨rfl, rfl, rfl, rfl⟩

theorem WindowsApart.same {db db' : Database} (h : WindowsApart db) (hsame : SameWindows db db') :
    WindowsApart db' := by
  constructor
  · intro sprint hsprint
    obtain ⟨row, hrow, hrows⟩ := hsame sprint hsprint
    rw [← hrows.start, ← hrows.finish]
    exact h.forward row hrow
  · intro a ha b hb hteam hne
    obtain ⟨rowA, hrowA, hsameA⟩ := hsame a ha
    obtain ⟨rowB, hrowB, hsameB⟩ := hsame b hb
    have hrows : Disjoint rowA.window rowB.window :=
      h.apart rowA hrowA rowB hrowB (by rw [hsameA.team, hsameB.team, hteam])
        (by rw [hsameA.id, hsameB.id]; exact hne)
    unfold SprintRow.window at hrows ⊢
    rwa [hsameA.start, hsameA.finish, hsameB.start, hsameB.finish] at hrows

/-! ### New windows -/

/-- No sprint of the team overlaps a window in which the check finds none. -/
theorem checkSprintOverlap_none {db : Database} {teamId start finish : ℤ} {excludeId : Option ℤ}
    (h : checkSprintOverlap db teamId start finish excludeId = none) {sprint : SprintRow}
    (hsprint : sprint ∈ db.sprints.rows) (hteam : sprint.teamId = teamId)
    (hother : some sprint.id ≠ excludeId) :
    ¬(sprint.startDate < finish ∧ start < sprint.endDate) := by
  unfold checkSprintOverlap at h
  have hmem : sprint ∈ db.sprintsOf teamId := List.mem_filter.mpr ⟨hsprint, by simp [hteam]⟩
  have hnot := List.find?_eq_none.mp h sprint hmem
  rintro ⟨hstart, hfinish⟩
  simp [hstart, hfinish, hother] at hnot

/-- A sprint with a free window keeps the windows apart. -/
theorem WindowsApart.insert {db : Database} (h : WindowsApart db) {make : ℤ → SprintRow}
    {hmake : ∀ k, (make k).id = k} {teamId : ℤ} {window : ℤ × ℤ}
    (hwindow : ∀ k, (make k).teamId = teamId ∧ (make k).startDate = window.1 ∧
      (make k).endDate = window.2)
    (hfree : FreeWindow db teamId window) :
    WindowsApart { db with sprints := db.sprints.insert make hmake } := by
  obtain ⟨hteam, hstart, hfinish⟩ := hwindow db.sprints.next
  obtain ⟨hforward, hnone⟩ := hfree
  have hnew : (make db.sprints.next).startDate < (make db.sprints.next).endDate := by
    rw [hstart, hfinish]
    exact hforward
  have hapart : ∀ a ∈ db.sprints.rows, a.teamId = (make db.sprints.next).teamId →
      Disjoint a.window (make db.sprints.next).window := by
    intro a ha hsame
    rw [disjoint_iff (h.forward a ha) hnew, hstart, hfinish]
    exact checkSprintOverlap_none hnone ha (hsame.trans hteam) nofun
  constructor
  · intro sprint hsprint
    rcases (Table.mem_insert hmake).mp hsprint with hold | rfl
    · exact h.forward sprint hold
    · exact hnew
  · intro a ha b hb hsame hne
    rcases (Table.mem_insert hmake).mp ha with hold | rfl
    · rcases (Table.mem_insert hmake).mp hb with hold' | rfl
      · exact h.apart a hold b hold' hsame hne
      · exact hapart a hold hsame
    · rcases (Table.mem_insert hmake).mp hb with hold' | rfl
      · exact (hapart b hold' hsame.symm).symm
      · exact absurd rfl hne

/-! ### The transactions -/

section transactions

variable {library : StandardLibrary} {fuel : ℕ} {db db' : Database} {teamId : ℤ}

/-- A new sprint has the window that was computed for it. -/
theorem createNextSprint_windows {team : TeamRow} {now : ℤ} {startDate endDate : Option ℤ}
    {sprint : SprintRow} (hdb : WindowsApart db)
    (hfree : ∀ window, db.nextWindow team now startDate endDate = .ok window →
      FreeWindow db team.id window)
    (h : createNextSprint db team now startDate endDate = .ok (db', sprint)) :
    WindowsApart db' := by
  obtain ⟨window, make, hmake, hwindow, hnew, -, rfl⟩ := createNextSprint_eq_ok h
  exact hdb.insert (fun k => ⟨(hnew k).1, (hnew k).2.1, (hnew k).2.2.1⟩) (hfree window hwindow)

theorem computeAndSchedule_windows {rngSeed now : ℤ} {startDate endDate : Option ℤ}
    (hdb : WindowsApart db) (hfree : PrecomputesFree db teamId now startDate endDate)
    (h : computeAndScheduleSprint library fuel db teamId rngSeed now startDate endDate =
      .ok (some db')) : WindowsApart db' := by
  obtain ⟨team, steps, finalStep, created, sprint, result, hteam, hsteps, hbacklog, hcreate, -,
    rfl⟩ := computeAndSchedule_eq_ok h
  have hcreated : WindowsApart created := by
    refine createNextSprint_windows hdb (fun window hwindow => ?_) hcreate
    rw [team_id hteam]
    exact hfree team steps finalStep window hteam hsteps hbacklog hwindow
  exact hcreated.same ((sameWindows_store created team.id sprint.id result).trans
    (sameWindows_update fun _ => ⟨rfl, rfl, rfl, rfl⟩))

theorem recompute_windows {sprintId rngSeed : ℤ}
    (h : recomputeSprintSchedule library fuel db teamId sprintId rngSeed = .ok (some db')) :
    SameWindows db db' := by
  obtain ⟨team, sprint, cleared, steps, finalStep, result, -, -, hcleared, -, -, rfl⟩ :=
    recompute_eq_ok h
  obtain ⟨-, rfl⟩ := deleteEvents_eq_ok hcleared
  exact sameWindows_store { db with events := _ } team.id sprint.id result

theorem maintainBacklog_sprints (team : TeamRow) (draws : TickDraws) :
    (db.maintainBacklog team draws).sprints = db.sprints := by
  have hadd : ∀ (issues : List GeneratedIssue) (db : Database) (priority : ℤ)
      (epicId : Option ℤ),
      (issues.foldl (fun db issue => db.addIssue team.id issue.issueType issue.storyPoints priority
        epicId issue.payload) db).sprints = db.sprints := by
    intro issues
    induction issues with
    | nil => exact fun _ _ _ => rfl
    | cons issue issues ih => exact fun db priority epicId => ih _ priority epicId
  have hepic : ∀ payload, (db.openEpic team.id payload).1.sprints = db.sprints := by
    intro payload
    unfold Database.openEpic
    dsimp only
    split
    · rfl
    · split_ifs <;> rfl
  unfold Database.maintainBacklog
  dsimp only
  split_ifs
  · rw [hadd, hepic]
  · rfl

theorem tick_windows {draws : TickDraws} (hdb : WindowsApart db)
    (hfree : TicksFree db teamId draws)
    (h : tickTeam library fuel db teamId draws = .ok db') : WindowsApart db' := by
  obtain ⟨team, steps, finalStep, ticked, hteam, hsteps, hticked, rfl⟩ := tickTeam_eq_ok h
  refine WindowsApart.same ?_ (.of_eq (maintainBacklog_sprints team draws))
  obtain ⟨hfirst, hnext⟩ := hfree team steps finalStep hteam hsteps
  cases hticked with
  | idle => exact hdb
  | first _ hlatest hcompute => exact computeAndSchedule_windows hdb (hfirst hlatest) hcompute
  | close sprint _ _ =>
    refine hdb.same ?_
    unfold Database.closeSprint
    dsimp only
    split_ifs
    · exact .of_eq rfl
    · exact sameWindows_update fun _ => ⟨rfl, rfl, rfl, rfl⟩
    · exact .of_eq rfl
  | carryOver sprint _ _ => exact hdb.same (.of_eq rfl)
  | next sprint _ hlatest hphase hcompute =>
    have hcarried : WindowsApart (db.carryOver sprint.id finalStep.jiraStatus) :=
      hdb.same (.of_eq rfl)
    exact computeAndSchedule_windows hcarried (hnext sprint hlatest hphase) hcompute

/-- New dates of a sprint keep the windows apart when no other sprint of its team overlaps them. -/
theorem WindowsApart.update (h : WindowsApart db) {sprintId : ℤ} {sprint : SprintRow}
    (hsprint : db.sprints.get? sprintId = some sprint) {change : SprintRow → SprintRow}
    {hid : ∀ row, (change row).id = row.id} (hteam : (change sprint).teamId = sprint.teamId)
    (hforward : (change sprint).startDate < (change sprint).endDate)
    (hapart : ∀ other ∈ db.sprints.rows, other.teamId = sprint.teamId → other.id ≠ sprintId →
      ¬(other.startDate < (change sprint).endDate ∧ (change sprint).startDate < other.endDate)) :
    WindowsApart (db.updateSprint sprintId change hid) := by
  obtain ⟨hmem, hkey⟩ := Table.get?_eq_some.mp hsprint
  -- the rows afterwards: the changed sprint, and the others as they were
  have hrows : ∀ row ∈ (db.updateSprint sprintId change hid).sprints.rows,
      row = change sprint ∨ (row ∈ db.sprints.rows ∧ row.id ≠ sprintId) := by
    intro row hrow
    obtain ⟨old, hold, rfl⟩ := mem_updateSprint.mp hrow
    by_cases hsame : old.id = sprintId
    · have heq : old = sprint := Table.eq_of_key_eq hold hmem (hsame.trans hkey.symm)
      rw [if_pos hsame, heq]
      exact .inl rfl
    · rw [if_neg hsame]
      exact .inr ⟨hold, hsame⟩
  have hchanged : ∀ row ∈ db.sprints.rows, row.id ≠ sprintId →
      row.teamId = (change sprint).teamId → Disjoint row.window (change sprint).window := by
    intro row hrow hne hsame
    rw [disjoint_iff (h.forward row hrow) hforward]
    exact hapart row hrow (hsame.trans hteam) hne
  constructor
  · intro row hrow
    rcases hrows row hrow with rfl | ⟨hold, -⟩
    · exact hforward
    · exact h.forward row hold
  · intro a ha b hb hsame hne
    rcases hrows a ha with rfl | ⟨holdA, hneA⟩
    · rcases hrows b hb with rfl | ⟨holdB, hneB⟩
      · exact absurd rfl hne
      · exact (hchanged b holdB hneB hsame.symm).symm
    · rcases hrows b hb with rfl | ⟨holdB, hneB⟩
      · exact hchanged a holdA hneA hsame
      · exact h.apart a holdA b holdB hsame hne

theorem edit_windows {sprintId : ℤ} {body : SprintEditRequest} (hdb : WindowsApart db)
    (hforward : ∀ sprint, db.sprints.get? sprintId = some sprint →
      body.startDate.getD sprint.startDate < body.endDate.getD sprint.endDate)
    (h : editSprint db teamId sprintId body = .ok db') : WindowsApart db' := by
  obtain ⟨sprint, hsprint, hteam, -, h⟩ := editSprint_eq_ok h
  by_cases hdates : (body.startDate.isSome || body.endDate.isSome) = true
  · rw [if_pos hdates] at h
    obtain ⟨hmem, hid⟩ := Table.get?_eq_some.mp hsprint
    have hget : (db.updateSprint sprintId (editRow body) fun _ => rfl).sprints.get? sprintId =
        some (editRow body sprint) :=
      Table.get?_eq_some.mpr ⟨mem_updateSprint.mpr ⟨sprint, hmem, if_pos hid⟩, hid⟩
    obtain ⟨hnone, cleared, hcleared, rfl⟩ := resetSchedule_eq_ok hget h
    obtain ⟨-, rfl⟩ := deleteEvents_eq_ok hcleared
    have hedited : WindowsApart (db.updateSprint sprintId (editRow body) fun _ => rfl) := by
      refine hdb.update hsprint rfl (hforward sprint hsprint) fun other hother hsame hne => ?_
      have hother' : other ∈ (db.updateSprint sprintId (editRow body) fun _ => rfl).sprints.rows :=
        mem_updateSprint.mpr ⟨other, hother, if_neg hne⟩
      exact checkSprintOverlap_none hnone hother' (hsame.trans hteam) (by simpa using hne)
    exact hedited.same (sameWindows_update fun _ => ⟨rfl, rfl, rfl, rfl⟩)
  · rw [if_neg hdates] at h
    rw [h]
    refine hdb.same (sameWindows_update fun row => ?_)
    simp only [Bool.or_eq_true, Option.isSome_iff_ne_none, not_or, not_not] at hdates
    obtain ⟨hstart, hfinish⟩ := hdates
    exact ⟨rfl, rfl, by rw [editRow, hstart]; rfl, by rw [editRow, hfinish]; rfl⟩

theorem delete_windows {sprintId : ℤ} (h : deleteSprint db teamId sprintId = .ok db') :
    SameWindows db db' := by
  obtain ⟨cleared, hcleared, rfl⟩ := deleteSprint_eq_ok h
  obtain ⟨-, rfl⟩ := deleteEvents_eq_ok hcleared
  intro sprint hsprint
  exact ⟨sprint, (Table.mem_filter.mp hsprint).1, rfl, rfl, rfl, rfl⟩

/-- Every sprint of a batch has a window that the check finds free. -/
theorem createSprints_windows {team : TeamRow} {count place : ℕ} {start : ℤ}
    (hdb : WindowsApart db) (hforward : ForwardBatch team count start)
    (h : createSprints team count place start db = .ok db') : WindowsApart db' := by
  induction count generalizing place start db with
  | zero =>
    cases h
    exact hdb
  | succ count ih =>
    simp only [createSprints, bind_eq_ok, orRaise_eq_ok] at h
    obtain ⟨finish, hfinish, _, hrefuse, ⟨created, sprint⟩, hcreate, next, hnext, h⟩ := h
    obtain ⟨hlt, hrest⟩ := hforward finish hfinish
    refine ih (createNextSprint_windows hdb (fun window hwindow => ?_) hcreate)
      (hrest next hnext) h
    -- the window of a sprint of the batch is the one that was checked
    cases hwindow
    exact ⟨hlt, refuseOverlap_eq_ok hrefuse⟩

end transactions

/-! ### Runs -/

theorem runAction_windows {library : StandardLibrary} {fuel : ℕ} {s : Service} {action : Action}
    {db' : Database} (hdb : WindowsApart s.db) (hfree : WritesFree s action)
    (h : runAction library fuel s.db action = .ok (some db')) : WindowsApart db' := by
  cases action with
  -- the condition is used where windows are written, the other actions keep them
  | precompute teamId rngSeed now =>
    exact computeAndSchedule_windows hdb hfree (orRaise_eq_ok.mp h)
  | recompute teamId sprintId rngSeed => exact hdb.same (recompute_windows h)
  | activate teamId sprintId =>
    simp only [runAction, map_eq_ok] at h
    obtain ⟨next, h, hnext⟩ := h
    cases hnext
    obtain ⟨sprint, -, -, rfl⟩ := activateSprint_eq_ok h
    exact hdb.same (sameWindows_update fun _ => ⟨rfl, rfl, rfl, rfl⟩)
  | edit teamId sprintId body =>
    simp only [runAction, map_eq_ok] at h
    obtain ⟨next, h, hnext⟩ := h
    cases hnext
    exact edit_windows hdb hfree h
  | delete teamId sprintId =>
    simp only [runAction, map_eq_ok] at h
    obtain ⟨next, h, hnext⟩ := h
    cases hnext
    exact hdb.same (delete_windows h)
  | createBatch teamId now startDate count =>
    simp only [runAction, map_eq_ok] at h
    obtain ⟨next, h, hnext⟩ := h
    cases hnext
    obtain ⟨team, start, hteam, hstart, h⟩ := createSprintBatch_eq_ok h
    exact createSprints_windows hdb (hfree team start hteam hstart) h
  | cancelAll teamId sprintId =>
    simp only [runAction, map_eq_ok] at h
    obtain ⟨next, h, hnext⟩ := h
    cases hnext
    obtain ⟨-, rfl⟩ := deleteEvents_eq_ok h
    exact hdb.same (.of_eq rfl)
  | tick teamId draws =>
    simp only [runAction, map_eq_ok, orRaise_eq_ok] at h
    obtain ⟨next, h, hnext⟩ := h
    cases hnext
    exact tick_windows hdb hfree h
  | cadence teamId rngSeed now nextStart =>
    simp only [runAction] at h
    split_ifs at h with htrigger
    · exact computeAndSchedule_windows hdb (hfree htrigger) (orRaise_eq_ok.mp h)
    · cases h
      exact hdb
  | read request =>
    cases h
    exact hdb
  | commit place =>
    cases h
    exact hdb

theorem commitRequest_windows {library : StandardLibrary} {fuel : ℕ} {db db' : Database}
    {request : InFlight} (hdb : WindowsApart db) (hfree : CommitsFree db request)
    (h : commitRequest library fuel db request = .ok (some db')) : WindowsApart db' := by
  cases request with
  | dispatch now due =>
    simp only [commitRequest, bind_eq_ok, pure_eq_ok] at h
    obtain ⟨next, h, hnext⟩ := h
    cases hnext
    unfold commitDispatch at h
    split_ifs at h
    cases h
    exact hdb.same (.of_eq rfl)
  | cancel eventId =>
    simp only [commitRequest, bind_eq_ok, pure_eq_ok] at h
    obtain ⟨next, h, hnext⟩ := h
    cases hnext
    obtain ⟨-, rfl⟩ := deleteEvents_eq_ok h
    exact hdb.same (.of_eq rfl)
  | modify event body now =>
    simp only [commitRequest, bind_eq_ok, pure_eq_ok] at h
    obtain ⟨next, h, hnext⟩ := h
    cases hnext
    unfold commitModify at h
    split_ifs at h
    cases h
    exact hdb.same (.of_eq rfl)
  | createSprint teamId now body start finish =>
    simp only [commitRequest, commitCreate] at h
    simp only [CommitsFree] at hfree
    -- a sprint is created with its schedule, or alone
    by_cases hsimulate : body.simulate = true
    · rw [if_pos hsimulate] at h hfree
      exact computeAndSchedule_windows hdb hfree (orRaise_eq_ok.mp h)
    · rw [if_neg hsimulate] at h hfree
      cases hteam : db.team teamId with
      | none =>
        rw [hteam] at h
        cases h
      | some team =>
        rw [hteam] at h
        simp only [bind_eq_ok, pure_eq_ok, orRaise_eq_ok] at h
        obtain ⟨⟨created, sprint⟩, hcreate, hnext⟩ := h
        cases hnext
        refine createNextSprint_windows hdb (fun window hwindow => ?_) hcreate
        cases hwindow
        rwa [team_id hteam]

/-- In the runs that write free windows only, every sprint starts before it ends and the windows of
the sprints of a team are disjoint. -/
theorem sprintWindows_apart {library : StandardLibrary} {fuel : ℕ} {s : Service}
    (h : (serviceRuns library fuel).ReachableBy (fun _ => True)
      (WhenCommitted library fuel WritesFree) s) :
    WindowsApart s.db := by
  refine h.invariant (I := fun s => WindowsApart s.db) ?_ ?_
  · rintro ⟨teams, issues⟩ s rfl -
    have hnone : ∀ sprint, sprint ∉ (Service.start teams issues).db.sprints.rows :=
      fun _ => List.not_mem_nil
    exact ⟨fun sprint hsprint => absurd hsprint (hnone sprint),
      fun sprint hsprint => absurd hsprint (hnone sprint)⟩
  · rintro s action _ - hdb hfree rfl
    have hstep := stepped library fuel s action
    generalize s.step library fuel action = s' at hstep
    cases hstep with
    | idle | read | drop => exact hdb
    | commit place request db hrequest hcommit =>
      exact commitRequest_windows hdb (hfree ⟨request, db, hrequest, hcommit⟩ request hrequest)
        hcommit
    | run action db hnot hrun =>
      exact runAction_windows hdb (hfree (commits_of_run hnot hrun)) hrun

/-- The request for a sprint over given dates, which is not simulated. -/
def sprintRequest (start finish : ℤ) : Request :=
  .createSprint 1 0
    { startDate := some start, endDate := some finish, rngSeed := 0, simulate := false }

/-- Two sprints that are created one after the other, on a Thursday and on a Friday. -/
theorem sprintWindows_apart_twoDays :
    WindowsApart (serve leastDraws 3 (dayService 1)
      [.read (sprintRequest 0 microsecondsPerDay), .commit 0,
        .read (sprintRequest microsecondsPerDay (2 * microsecondsPerDay)), .commit 0]).db := by
  refine sprintWindows_apart (serve_reachableBy leastDraws 3 _
    (dayService_start leastDraws 3 1 _)
      ⟨fun _ => trivial, ?_, fun _ => trivial, ?_, trivial⟩)
  · rintro - request hrequest
    cases hrequest
    exact ⟨by decide, by decide +kernel⟩
  · rintro - request hrequest
    cases hrequest
    exact ⟨by decide, by decide +kernel⟩

/-- A sprint over a day is created, and the next one is precomputed in the morning of that day. -/
def createThenPrecompute : List Action := [
  .read (sprintRequest 0 microsecondsPerDay), .commit 0, .precompute 1 0 (9 * microsecondsPerHour)]

/-- The precomputation does not look at the sprint that is there. -/
theorem precompute_overlaps :
    ∃ s, (serviceRuns leastDraws 3).Reachable s ∧ ¬ WindowsApart s.db := by
  refine ⟨serve leastDraws 3 (dayService 1) createThenPrecompute,
    serve_reachable leastDraws 3 _ (dayService_start leastDraws 3 1 fun _ _ => True),
    fun hdb => ?_⟩
  have hrows : ∃ a ∈ (serve leastDraws 3 (dayService 1) createThenPrecompute).db.sprints.rows,
      ∃ b ∈ (serve leastDraws 3 (dayService 1) createThenPrecompute).db.sprints.rows,
        a.teamId = b.teamId ∧ a.id ≠ b.id ∧
          a.startDate < b.endDate ∧ b.startDate < a.endDate := by
    decide +kernel
  obtain ⟨a, ha, b, hb, hteam, hne, hoverlap⟩ := hrows
  have hdisjoint := hdb.apart a ha b hb hteam hne
  exact (disjoint_iff (hdb.forward a ha) (hdb.forward b hb)).mp hdisjoint hoverlap

end JiraSimulator.Engine
