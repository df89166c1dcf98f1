import JiraSimulator.Correctness.DatabaseChanges
import JiraSimulator.Correctness.TickSchedule
import JiraSimulator.Engine.FlowMatrix
import JiraSimulator.Library.Outcome
import Mathlib.Algebra.Group.Action.Defs

/-!
# The columns of the flow matrix

A column counts every issue that has a status by then: the issues of the sprint, and every issue
that the sprint's events move, one that has left the sprint included.  Of these only the statuses
of the workflow are shown.

* `stateOf_statesAt`: the status of an issue after the events of some days.
* `Column.cell`, `Column.sum_items`, `Column.sum_points`: what a column counts.
* `flowMatrix_conserves`: the column of every day counts the issues of the sprint, each in its
  status, exactly when these stand in the workflow and the other issues do not.
* `flowMatrix_counts_departed`: an issue that has left its sprint is counted there.
-/

namespace JiraSimulator.Engine

open Library Library.Outcome

/-! ### The status of an issue at the end of a day -/

/-- The status of the last move of an issue before an instant. -/
def lastMove (events : List ScheduledEventRow) (boundary issueId : ℤ) : Option Json :=
  let moves := (events.filter fun event => event.scheduledAt < boundary).filterMap (·.move)
  ((moves.filter fun entry => entry.1 = issueId).getLast?).map Prod.snd

/-- The status of the first move of an issue at the planning. -/
def plannedMove (events : List ScheduledEventRow) (issueId : ℤ) : Option Json :=
  let moves := events.filterMap fun event => if event.simTick = 0 then event.move else none
  (moves.find? fun entry => entry.1 = issueId).map Prod.snd

/-- The status that the events give an issue by an instant. -/
def movedTo (events : List ScheduledEventRow) (boundary issueId : ℤ) : Option Json :=
  (lastMove events boundary issueId).or (plannedMove events issueId)

/-! ### Dictionaries of states -/

/-- `issue_state.get(issue_id)`. -/
def stateOf (states : IssueStates) (issueId : ℤ) : Option Json :=
  (Keyed.lookup Prod.fst states issueId).map Prod.snd

theorem lookup_setDefault (states : IssueStates) (entry : ℤ × Json) (issueId : ℤ) :
    Keyed.lookup Prod.fst (setDefault states entry) issueId =
      (Keyed.lookup Prod.fst states issueId).or (Keyed.lookup Prod.fst [entry] issueId) := by
  unfold setDefault
  split_ifs with hmem
  · cases hlookup : Keyed.lookup Prod.fst states issueId with
    | some found => rfl
    | none =>
      have hne : entry.1 ≠ issueId := fun heq =>
        (Keyed.lookup_eq_none Prod.fst).mp hlookup (heq ▸ hmem)
      simp [Keyed.lookup, hne]
  · unfold Keyed.lookup
    exact List.find?_append

theorem lookup_setDefaults (entries states : IssueStates) (issueId : ℤ) :
    Keyed.lookup Prod.fst (entries.foldl setDefault states) issueId =
      (Keyed.lookup Prod.fst states issueId).or (Keyed.lookup Prod.fst entries issueId) := by
  induction entries generalizing states with
  | nil => exact (Option.or_none).symm
  | cons entry entries ih =>
    rw [List.foldl_cons, ih, lookup_setDefault, Option.or_assoc]
    congr 1
    unfold Keyed.lookup
    exact (@List.find?_append _ _ [entry] entries).symm

theorem nodup_setDefault {states : IssueStates} (h : (states.map Prod.fst).Nodup)
    (entry : ℤ × Json) : ((setDefault states entry).map Prod.fst).Nodup := by
  unfold setDefault
  split_ifs with hmem
  · exact h
  · rw [List.map_append, List.nodup_append]
    refine ⟨h, List.nodup_singleton _, ?_⟩
    rintro k hk _ hentry rfl
    rw [List.map_singleton, List.mem_singleton] at hentry
    exact hmem (hentry ▸ hk)

theorem nodup_setDefaults {entries states : IssueStates} (h : (states.map Prod.fst).Nodup) :
    ((entries.foldl setDefault states).map Prod.fst).Nodup := by
  induction entries generalizing states with
  | nil => exact h
  | cons entry entries ih => exact ih (nodup_setDefault h entry)

/-- The last change of a key is the one that is found. -/
theorem lookup_assigns (changes states : IssueStates) (issueId : ℤ) :
    Keyed.lookup Prod.fst (Keyed.update Prod.fst states changes) issueId =
      ((changes.filter fun entry => entry.1 = issueId).getLast?).or
        (Keyed.lookup Prod.fst states issueId) := by
  induction changes generalizing states with
  | nil => rfl
  | cons entry changes ih =>
    rw [Keyed.update_cons, ih, Keyed.lookup_assign]
    by_cases hkey : entry.1 = issueId
    · rw [if_pos hkey, List.filter_cons_of_pos (by simpa using hkey)]
      cases hlast : (changes.filter fun entry => entry.1 = issueId).getLast? with
      | none =>
        rw [List.getLast?_eq_none_iff] at hlast
        rw [hlast]
        rfl
      | some last =>
        rw [List.getLast?_cons, hlast]
        rfl
    · rw [if_neg hkey, List.filter_cons_of_neg (by simpa using hkey)]

/-! ### The walk -/

/-- The states after the events before a boundary. -/
def statesAt (events : List ScheduledEventRow) (states : IssueStates) (boundary : ℤ) :
    IssueStates :=
  Keyed.update Prod.fst states
    ((events.takeWhile fun event => event.scheduledAt < boundary).filterMap (·.move))

theorem applyBefore_eq (boundary : ℤ) (events : List ScheduledEventRow) (states : IssueStates) :
    applyBefore boundary events states =
      (statesAt events states boundary,
        events.dropWhile fun event => event.scheduledAt < boundary) := by
  induction events generalizing states with
  | nil => rfl
  | cons event events ih =>
    unfold applyBefore
    by_cases hbefore : event.scheduledAt < boundary
    · rw [if_pos hbefore, ih]
      unfold statesAt applyEvent
      rw [List.takeWhile_cons_of_pos (by simpa using hbefore),
        List.dropWhile_cons_of_pos (by simpa using hbefore)]
      cases hmove : event.move with
      | none => rw [List.filterMap_cons_none hmove]
      | some entry => rw [List.filterMap_cons_some hmove, Keyed.update_cons]
    · rw [if_neg hbefore]
      unfold statesAt
      rw [List.takeWhile_cons_of_neg (by simpa using hbefore),
        List.dropWhile_cons_of_neg (by simpa using hbefore)]
      rfl

/-- The events before a later boundary are those before the first one, and then the rest. -/
theorem takeWhile_dropWhile (events : List ScheduledEventRow) {first later : ℤ}
    (h : first ≤ later) :
    (events.takeWhile fun event => event.scheduledAt < first) ++
        ((events.dropWhile fun event => event.scheduledAt < first).takeWhile
          fun event => event.scheduledAt < later) =
      events.takeWhile fun event => event.scheduledAt < later := by
  induction events with
  | nil => rfl
  | cons event events ih =>
    by_cases hfirst : event.scheduledAt < first
    · have hlater : event.scheduledAt < later := hfirst.trans_le h
      rw [List.takeWhile_cons_of_pos (by simpa using hfirst),
        List.dropWhile_cons_of_pos (by simpa using hfirst),
        List.takeWhile_cons_of_pos (by simpa using hlater), List.cons_append, ih]
    · rw [List.takeWhile_cons_of_neg (by simpa using hfirst),
        List.dropWhile_cons_of_neg (by simpa using hfirst), List.nil_append]

theorem dropWhile_dropWhile (events : List ScheduledEventRow) {first later : ℤ}
    (h : first ≤ later) :
    ((events.dropWhile fun event => event.scheduledAt < first).dropWhile
        fun event => event.scheduledAt < later) =
      events.dropWhile fun event => event.scheduledAt < later := by
  induction events with
  | nil => rfl
  | cons event events ih =>
    by_cases hfirst : event.scheduledAt < first
    · have hlater : event.scheduledAt < later := hfirst.trans_le h
      rw [List.dropWhile_cons_of_pos (by simpa using hfirst), ih,
        List.dropWhile_cons_of_pos (by simpa using hlater)]
    · rw [List.dropWhile_cons_of_neg (by simpa using hfirst)]

theorem statesAt_statesAt (events : List ScheduledEventRow) (states : IssueStates)
    {first later : ℤ} (h : first ≤ later) :
    statesAt (events.dropWhile fun event => event.scheduledAt < first)
        (statesAt events states first) later = statesAt events states later := by
  unfold statesAt
  rw [← takeWhile_dropWhile events h, List.filterMap_append, Keyed.update_append]

/-- The columns of a walk over days in their order: each counts the states at the end of its day. -/
structure Walked (pointsOf : ℤ → ℤ) (events : List ScheduledEventRow) (states : IssueStates)
    (dates : List ℤ) (walk : FlowWalk) : Prop where
  columns : List.Forall₂ (fun day counts =>
    (statesAt events states (endOfDay day)).foldlM (countIssue pointsOf) [] = .ok counts)
    dates walk.columns
  distinct : walk.statuses.Nodup
  statuses : ∀ status, status ∈ walk.statuses ↔
    ∃ counts ∈ walk.columns, ∃ count ∈ counts, count.status = status

theorem flowDays_walked {pointsOf : ℤ → ℤ} {events : List ScheduledEventRow}
    {states : IssueStates} {before dates : List ℤ} {walk walk' : FlowWalk} {boundary : ℤ}
    (hstates : walk.states = statesAt events states boundary)
    (hevents : walk.events = events.dropWhile fun event => event.scheduledAt < boundary)
    (hwalked : Walked pointsOf events states before walk) (hsorted : dates.Pairwise (· < ·))
    (hboundary : ∀ day ∈ dates, boundary ≤ endOfDay day)
    (h : dates.foldlM (flowDay pointsOf) walk = .ok walk') :
    Walked pointsOf events states (before ++ dates) walk' := by
  induction dates generalizing before walk boundary with
  | nil =>
    cases h
    rwa [List.append_nil]
  | cons day dates ih =>
    rw [List.foldlM_cons, bind_eq_ok] at h
    obtain ⟨next, hnext, h⟩ := h
    simp only [flowDay, applyBefore_eq, bind_eq_ok, pure_eq_ok] at hnext
    obtain ⟨counts, hcounts, rfl⟩ := hnext
    have hday := hboundary day List.mem_cons_self
    rw [hstates, hevents, statesAt_statesAt events states hday] at hcounts
    rw [← List.singleton_append, ← List.append_assoc]
    -- events before the end of the day are applied, the others wait
    have hnextStates : statesAt walk.events walk.states (endOfDay day) =
        statesAt events states (endOfDay day) := by
      rw [hstates, hevents, statesAt_statesAt events states hday]
    have hnextEvents : (walk.events.dropWhile fun event => event.scheduledAt < endOfDay day) =
        events.dropWhile fun event => event.scheduledAt < endOfDay day := by
      rw [hevents, dropWhile_dropWhile events hday]
    refine ih hnextStates hnextEvents ?_ hsorted.of_cons ?_ h
    · refine ⟨List.rel_append hwalked.columns (.cons hcounts .nil), ?_, fun status => ?_⟩
      · have hnodup := @Keyed.nodup_update _ _ _ id walk.statuses (counts.map (·.status))
          (by rw [List.map_id]; exact hwalked.distinct)
        rwa [List.map_id] at hnodup
      · have hmem := @Keyed.mem_map_key_update _ _ _ id walk.statuses (counts.map (·.status)) status
        simp only [List.map_id, List.mem_map] at hmem
        rw [hmem, hwalked.statuses]
        constructor
        · rintro (⟨old, hold, hcount⟩ | hnew)
          · exact ⟨old, List.mem_append_left _ hold, hcount⟩
          · exact ⟨counts, List.mem_append_right _ List.mem_cons_self, hnew⟩
        · rintro ⟨column, hcolumn, hcount⟩
          rcases List.mem_append.mp hcolumn with hold | hnew
          · exact .inl ⟨column, hold, hcount⟩
          · obtain rfl := List.mem_singleton.mp hnew
            exact .inr hcount
    · intro later hlater
      have hlt := List.rel_of_pairwise_cons hsorted hlater
      unfold endOfDay microsecondsPerDay
      omega

/-! ### The counts of a column -/

/-- What a column counts: the issues with their statuses. -/
structure Counted (pointsOf : ℤ → ℤ) (stands : List (ℤ × StatusKey))
    (counts : List StatusCount) : Prop where
  items : ∀ status, (countOf counts status).items =
    Keyed.sumAt Prod.snd (fun _ => 1) stands status
  points : ∀ status, (countOf counts status).points =
    Keyed.sumAt Prod.snd (fun entry => pointsOf entry.1) stands status
  statuses : ∀ status, (∃ count ∈ counts, count.status = status) ↔
    ∃ entry ∈ stands, entry.2 = status

theorem countOf_status (counts : List StatusCount) (status : StatusKey) :
    (countOf counts status).status = status := by
  unfold countOf
  cases hlookup : Keyed.lookup StatusCount.status counts status with
  | none => rfl
  | some count =>
    have hstatus := List.find?_some hlookup
    simpa using hstatus

/-- The count of a status with one more issue. -/
def StatusCount.add (count : StatusCount) (points : ℤ) : StatusCount :=
  { count with items := count.items + 1, points := count.points + points }

theorem countOf_assign (counts : List StatusCount) (status other : StatusKey) (points : ℤ) :
    countOf (Keyed.assign StatusCount.status counts ((countOf counts status).add points)) other =
      if status = other then (countOf counts status).add points else countOf counts other := by
  have hkey : ((countOf counts status).add points).status = status := countOf_status counts status
  rw [countOf, Keyed.lookup_assign, hkey]
  split_ifs
  · rfl
  · rfl

theorem Counted.assign {pointsOf : ℤ → ℤ} {stands : List (ℤ × StatusKey)}
    {counts : List StatusCount} (h : Counted pointsOf stands counts) (issueId : ℤ)
    (status : StatusKey) :
    Counted pointsOf (stands ++ [(issueId, status)]) (Keyed.assign StatusCount.status counts
      ((countOf counts status).add (pointsOf issueId))) := by
  refine ⟨fun other => ?_, fun other => ?_, fun other => ?_⟩
  · rw [countOf_assign, Keyed.sumAt_append, Keyed.sumAt_cons, Keyed.sumAt_nil, ← h.items]
    split_ifs with hsame
    · rw [hsame]
      rfl
    · rfl
  · rw [countOf_assign, Keyed.sumAt_append, Keyed.sumAt_cons, Keyed.sumAt_nil, ← h.points]
    split_ifs with hsame
    · rw [hsame, add_zero]
      rfl
    · rw [add_zero, add_zero]
  · have hmem := @Keyed.mem_map_key_assign _ _ _ StatusCount.status counts
      ((countOf counts status).add (pointsOf issueId)) other
    have hkey : ((countOf counts status).add (pointsOf issueId)).status = status :=
      countOf_status counts status
    simp only [hkey, List.mem_map] at hmem
    rw [hmem, h.statuses]
    simp only [List.mem_append, List.mem_singleton]
    constructor
    · rintro (⟨entry, hentry, hstatus⟩ | rfl)
      · exact ⟨entry, .inl hentry, hstatus⟩
      · exact ⟨_, .inr rfl, rfl⟩
    · rintro ⟨entry, hold | rfl, hstatus⟩
      · exact .inl ⟨entry, hold, hstatus⟩
      · exact .inr hstatus.symm

/-- The issues of some states with the keys of their statuses. -/
abbrev Stands (states : IssueStates) (stands : List (ℤ × StatusKey)) : Prop :=
  List.Forall₂ (fun entry stand => stand.1 = entry.1 ∧ statusKey entry.2 = .ok stand.2) states
    stands

theorem countIssues_counted {pointsOf : ℤ → ℤ} {states : IssueStates}
    {before : List (ℤ × StatusKey)} {counts counts' : List StatusCount}
    (hbefore : Counted pointsOf before counts)
    (h : states.foldlM (countIssue pointsOf) counts = .ok counts') :
    ∃ stands, Stands states stands ∧ Counted pointsOf (before ++ stands) counts' := by
  induction states generalizing before counts with
  | nil =>
    cases h
    exact ⟨[], .nil, by rwa [List.append_nil]⟩
  | cons entry states ih =>
    rw [List.foldlM_cons, bind_eq_ok] at h
    obtain ⟨next, hnext, h⟩ := h
    simp only [countIssue, bind_eq_ok, pure_eq_ok] at hnext
    obtain ⟨status, hstatus, rfl⟩ := hnext
    obtain ⟨stands, hstands, hcounted⟩ := ih (hbefore.assign entry.1 status) h
    refine ⟨(entry.1, status) :: stands, .cons ⟨rfl, hstatus⟩ hstands, ?_⟩
    rwa [List.append_assoc, List.singleton_append] at hcounted

/-! ### Events in their order -/

theorem transitionEvents_sorted (db : Database) (teamId sprintId : ℤ) :
    (db.transitionEvents teamId sprintId).Pairwise
      fun event later => event.scheduledAt ≤ later.scheduledAt := by
  refine (Ordering.sortOn_pairwise dispatchOrder _).imp fun {event later} hle => ?_
  unfold dispatchOrder at hle
  simp only [Ordering.lexLe, Bool.or_eq_true, decide_eq_true_eq, Bool.and_eq_true] at hle
  omega

theorem takeWhile_eq_filter {events : List ScheduledEventRow}
    (hsorted : events.Pairwise fun event later => event.scheduledAt ≤ later.scheduledAt)
    (boundary : ℤ) :
    events.takeWhile (fun event => event.scheduledAt < boundary) =
      events.filter fun event => event.scheduledAt < boundary := by
  induction events with
  | nil => rfl
  | cons event events ih =>
    by_cases hbefore : event.scheduledAt < boundary
    · rw [List.takeWhile_cons_of_pos (by simpa using hbefore),
        List.filter_cons_of_pos (by simpa using hbefore), ih hsorted.of_cons]
    · rw [List.takeWhile_cons_of_neg (by simpa using hbefore),
        List.filter_cons_of_neg (by simpa using hbefore), eq_comm, List.filter_eq_nil_iff]
      -- the later events are not before the boundary either
      intro later hlater
      have hle := List.rel_of_pairwise_cons hsorted hlater
      have hafter : ¬ later.scheduledAt < boundary := by omega
      simpa using hafter

theorem lookup_defaults (issues : List IssueRow) (status : Json) (issueId : ℤ) :
    (Keyed.lookup Prod.fst (issues.map fun issue => (issue.id, status)) issueId).map Prod.snd =
      if issueId ∈ issues.map (·.id) then some status else none := by
  have hids : (issues.map fun issue => (issue.id, status)).map Prod.fst = issues.map (·.id) := by
    rw [List.map_map]
    rfl
  split_ifs with hmem
  · rw [← hids, ← Keyed.lookup_isSome_iff] at hmem
    obtain ⟨found, hfound⟩ := Option.isSome_iff_exists.mp hmem
    obtain ⟨issue, -, rfl⟩ := List.mem_map.mp (Keyed.mem_of_lookup Prod.fst hfound).1
    rw [hfound]
    rfl
  · rw [← hids, ← Keyed.lookup_eq_none] at hmem
    rw [hmem]
    rfl

/-- The state of an issue at the end of a day is the status that the events give it, or else the
default status of an issue of the sprint. -/
theorem stateOf_statesAt {events : List ScheduledEventRow}
    (hsorted : events.Pairwise fun event later => event.scheduledAt ≤ later.scheduledAt)
    (defaultStatus : String) (issues : List IssueRow) (boundary issueId : ℤ) :
    stateOf (statesAt events (initialStates events defaultStatus issues) boundary) issueId =
      (movedTo events boundary issueId).or
        (if issueId ∈ issues.map (·.id) then some (.string defaultStatus) else none) := by
  unfold stateOf statesAt initialStates movedTo lastMove plannedMove
  rw [lookup_assigns, takeWhile_eq_filter hsorted, lookup_setDefaults, lookup_setDefaults,
    Option.map_or, Option.map_or, Option.or_assoc, lookup_defaults]
  rfl

theorem nodup_statesAt (events : List ScheduledEventRow) (defaultStatus : String)
    (issues : List IssueRow) (boundary : ℤ) :
    ((statesAt events (initialStates events defaultStatus issues) boundary).map Prod.fst).Nodup :=
  Keyed.nodup_update Prod.fst _ (nodup_setDefaults (nodup_setDefaults List.nodup_nil))

/-! ### Where the issues stand -/

namespace Database

variable (db : Database) (teamId sprintId : ℤ)

/-- The status of an issue of the sprint at the end of a day: that of its last transition by then,
that of its planning, or the default. -/
def standing (day issueId : ℤ) : Result StatusKey :=
  statusKey ((movedTo (db.transitionEvents teamId sprintId) (endOfDay day) issueId).getD
    (.string (db.defaultStatus teamId)))

/-- The issues of the sprint that stand in a status at the end of a day. -/
def standingIn (day : ℤ) (status : StatusKey) : List IssueRow :=
  (db.sprintIssues teamId sprintId).filter fun issue =>
    (db.standing teamId sprintId day issue.id).toOption = some status

/-- The column of a day counts the issues of the sprint, each of them in its status. -/
structure DayConserved (matrix : FlowMatrix) (d : ℕ) (day : ℤ) : Prop where
  items : (matrix.items.map fun row => row.getD d 0).sum =
    (db.sprintIssues teamId sprintId).length
  points : (matrix.points.map fun row => row.getD d 0).sum =
    ((db.sprintIssues teamId sprintId).map (·.points)).sum
  shown : ∀ issue ∈ db.sprintIssues teamId sprintId,
    ∃ status ∈ matrix.statuses, db.standing teamId sprintId day issue.id = .ok status
  counted : (matrix.items.map fun row => row.getD d 0) =
    matrix.statuses.map fun status => (db.standingIn teamId sprintId day status).length

/-- Every column of the matrix does. -/
def FlowConserved (matrix : FlowMatrix) : Prop :=
  ∀ d day, matrix.dates[d]? = some day → db.DayConserved teamId sprintId matrix d day

/-- The days of the matrix: the working days from the first event to the end of the sprint. -/
def ShowsDay (day : ℤ) : Prop :=
  ∃ sprint first events, db.sprints.get? sprintId = some sprint ∧
    db.sprintIssues teamId sprintId ≠ [] ∧
    db.transitionEvents teamId sprintId = first :: events ∧
    (flowBounds sprint first).1 ≤ day ∧ day ≤ (flowBounds sprint first).2 ∧
    BusinessCalendar.weekday day ∈ defaultWorkingDays

/-- The statuses of the team's workflow. -/
def workflowStatuses : Option (List StatusKey) :=
  (db.workflow teamId).map fun steps => steps.map fun step => .text step.jiraStatus

/-- At the end of a day each issue of the sprint stands in one status of the workflow, and no other
issue that the sprint's events moved stands in one; a team without a workflow has no such issue. -/
structure StandApart (day : ℤ) : Prop where
  issues : ∀ statuses ∈ db.workflowStatuses teamId, ∀ issue ∈ db.sprintIssues teamId sprintId,
    ∀ status, db.standing teamId sprintId day issue.id = .ok status → statuses.count status = 1
  others : ∀ issueId, issueId ∉ (db.sprintIssues teamId sprintId).map (·.id) →
    ∀ target status, movedTo (db.transitionEvents teamId sprintId) (endOfDay day) issueId =
        some target → statusKey target = .ok status →
      ∃ statuses ∈ db.workflowStatuses teamId, status ∉ statuses

end Database

/-! ### The issues of a column -/

theorem Stands.keys {states : IssueStates} {stands : List (ℤ × StatusKey)}
    (h : Stands states stands) : stands.map Prod.fst = states.map Prod.fst := by
  induction h with
  | nil => rfl
  | cons hentry _ ih => rw [List.map_cons, List.map_cons, hentry.1, ih]

theorem Stands.mem_iff {states : IssueStates} {stands : List (ℤ × StatusKey)}
    (hnodup : (states.map Prod.fst).Nodup) (h : Stands states stands) {issueId : ℤ}
    {status : StatusKey} :
    (issueId, status) ∈ stands ↔
      ∃ target, stateOf states issueId = some target ∧ statusKey target = .ok status := by
  have hstate : ∀ target, stateOf states issueId = some target ↔ (issueId, target) ∈ states := by
    intro target
    unfold stateOf
    rw [Option.map_eq_some_iff]
    constructor
    · rintro ⟨⟨_, _⟩, hlookup, rfl⟩
      obtain ⟨hmem, rfl⟩ := (Keyed.lookup_eq_some Prod.fst hnodup).mp hlookup
      exact hmem
    · intro hmem
      exact ⟨_, (Keyed.lookup_eq_some Prod.fst hnodup).mpr ⟨hmem, rfl⟩, rfl⟩
  constructor
  · intro hmem
    obtain ⟨⟨_, target⟩, hentry, hid, hstatus⟩ := forall₂_exists_left h hmem
    obtain rfl : issueId = _ := hid
    exact ⟨target, (hstate target).mpr hentry, hstatus⟩
  · rintro ⟨target, htarget, hstatus⟩
    obtain ⟨⟨_, found⟩, hentry, hid, hfound⟩ :=
      forall₂_exists_right h ((hstate target).mp htarget)
    obtain rfl : _ = issueId := hid
    obtain rfl : found = status := Except.ok.inj (hfound.symm.trans hstatus)
    exact hentry

/-- The issues that a column counts beside those of the sprint. -/
def others (issues : List IssueRow) (stands : List (ℤ × StatusKey)) : List (ℤ × StatusKey) :=
  stands.filter fun entry => entry.1 ∉ issues.map (·.id)

/-- A column counts the issues of the sprint where they stand, and the others. -/
theorem stands_perm {issues : List IssueRow} {stands : List (ℤ × StatusKey)}
    {place : ℤ → StatusKey} (hissues : (issues.map (·.id)).Nodup)
    (hnodup : (stands.map Prod.fst).Nodup)
    (hplace : ∀ issue ∈ issues, (issue.id, place issue.id) ∈ stands) :
    stands.Perm ((issues.map fun issue => (issue.id, place issue.id)) ++ others issues stands) := by
  have hours : (stands.filter fun entry => entry.1 ∈ issues.map (·.id)).Perm
      (issues.map fun issue => (issue.id, place issue.id)) := by
    have hleft := (List.Nodup.of_map _ hnodup).filter fun entry => entry.1 ∈ issues.map (·.id)
    have hright : (issues.map fun issue => (issue.id, place issue.id)).Nodup := by
      refine List.Nodup.of_map Prod.fst ?_
      rw [List.map_map]
      exact hissues
    rw [List.perm_ext_iff_of_nodup hleft hright]
    intro entry
    constructor
    · intro hentry
      obtain ⟨hentry, hid⟩ := List.mem_filter.mp hentry
      obtain ⟨issue, hissue, hid⟩ := List.mem_map.mp (of_decide_eq_true hid)
      have hsame := List.inj_on_of_nodup_map hnodup (hplace issue hissue) hentry hid
      exact List.mem_map.mpr ⟨issue, hissue, hsame⟩
    · intro hentry
      obtain ⟨issue, hissue, rfl⟩ := List.mem_map.mp hentry
      have hid : issue.id ∈ issues.map (·.id) := List.mem_map_of_mem hissue
      exact List.mem_filter.mpr ⟨hplace issue hissue, decide_eq_true hid⟩
  have hsplit := List.filter_append_perm
    (fun entry => decide (entry.1 ∈ issues.map (·.id))) stands
  refine hsplit.symm.trans (hours.append (.of_eq ?_))
  unfold others
  refine List.filter_congr fun entry _ => ?_
  rw [decide_not]

/-! ### One column -/

/-- A column over the issues of a sprint: each stands in its place, and only these have points. -/
structure Column (issues : List IssueRow) (pointsOf : ℤ → ℤ) (place : ℤ → StatusKey)
    (stands : List (ℤ × StatusKey)) (counts : List StatusCount) : Prop where
  ids : (issues.map (·.id)).Nodup
  distinct : (stands.map Prod.fst).Nodup
  placed : ∀ issue ∈ issues, (issue.id, place issue.id) ∈ stands
  counted : Counted pointsOf stands counts
  points : ∀ issue ∈ issues, pointsOf issue.id = issue.points
  noPoints : ∀ issueId ∉ issues.map (·.id), pointsOf issueId = 0

section Column

variable {issues : List IssueRow} {pointsOf : ℤ → ℤ} {place : ℤ → StatusKey}
  {stands : List (ℤ × StatusKey)} {counts : List StatusCount}

/-- A cell counts the issues that stand in its status, and the others there. -/
theorem Column.cell (h : Column issues pointsOf place stands counts) (status : StatusKey) :
    (countOf counts status).items =
      (issues.filter fun issue => place issue.id = status).length +
        ((others issues stands).filter fun entry => entry.2 = status).length := by
  have hlength : ∀ {α : Type} (key : α → StatusKey) (xs : List α),
      Keyed.sumAt key (fun _ => 1) xs status = (xs.filter fun x => key x = status).length := by
    intro α key xs
    rw [Keyed.sumAt, List.map_const', List.sum_replicate, smul_eq_mul, mul_one]
  rw [h.counted.items, Keyed.sumAt_perm _ _ (stands_perm h.ids h.distinct h.placed),
    Keyed.sumAt_append, hlength, hlength, List.filter_map, List.length_map]
  rfl

/-- The cells of a column count each issue as often as its status is shown. -/
theorem Column.sum_items (h : Column issues pointsOf place stands counts)
    (shown : List StatusKey) :
    (shown.map fun status => (countOf counts status).items).sum =
      (issues.map fun issue => shown.count (place issue.id)).sum +
        ((others issues stands).map fun entry => shown.count entry.2).sum := by
  have hcells : (shown.map fun status => (countOf counts status).items) =
      shown.map (Keyed.sumAt Prod.snd (fun _ => 1) stands) :=
    List.map_congr_left fun status _ => h.counted.items status
  have hperm := (stands_perm h.ids h.distinct h.placed).map
    fun entry => shown.count entry.2 • 1
  rw [hcells, Keyed.sum_sumAt_count, hperm.sum_eq, List.map_append, List.sum_append, List.map_map]
  simp only [smul_eq_mul, mul_one, Function.comp_def]

/-- Its points are those of the issues, as often. -/
theorem Column.sum_points (h : Column issues pointsOf place stands counts)
    (shown : List StatusKey) :
    (shown.map fun status => (countOf counts status).points).sum =
      (issues.map fun issue => shown.count (place issue.id) • issue.points).sum := by
  have hcells : (shown.map fun status => (countOf counts status).points) =
      shown.map (Keyed.sumAt Prod.snd (fun entry => pointsOf entry.1) stands) :=
    List.map_congr_left fun status _ => h.counted.points status
  have hperm := (stands_perm h.ids h.distinct h.placed).map
    fun entry => shown.count entry.2 • pointsOf entry.1
  have hours : ((issues.map fun issue => (issue.id, place issue.id)).map
      fun entry => shown.count entry.2 • pointsOf entry.1) =
        issues.map fun issue => shown.count (place issue.id) • issue.points := by
    rw [List.map_map]
    refine List.map_congr_left fun issue hissue => ?_
    show shown.count (place issue.id) • pointsOf issue.id = _
    rw [h.points issue hissue]
  have hothers : ((others issues stands).map
      fun entry => shown.count entry.2 • pointsOf entry.1).sum = 0 := by
    refine List.sum_eq_zero fun value hvalue => ?_
    obtain ⟨entry, hentry, rfl⟩ := List.mem_map.mp hvalue
    have hout := of_decide_eq_true (List.mem_filter.mp hentry).2
    rw [h.noPoints entry.1 hout, nsmul_zero]
  rw [hcells, Keyed.sum_sumAt_count, hperm.sum_eq, List.map_append, List.sum_append, hours, hothers,
    add_zero]

/-- With a positive count for each element, a sum that is the number of elements has ones only. -/
theorem eq_one_of_sum {α : Type} {f : α → ℕ} {xs : List α} (hpos : ∀ x ∈ xs, 1 ≤ f x)
    (hsum : (xs.map f).sum = xs.length) : ∀ x ∈ xs, f x = 1 := by
  induction xs with
  | nil => exact fun x hx => by cases hx
  | cons y xs ih =>
    have hrest : ∀ x ∈ xs, 1 ≤ f x := fun x hx => hpos x (List.mem_cons_of_mem _ hx)
    have hlength := List.length_le_sum_of_one_le (xs.map f) fun n hn => by
      obtain ⟨x, hx, rfl⟩ := List.mem_map.mp hn
      exact hrest x hx
    have hy := hpos y List.mem_cons_self
    rw [List.length_map] at hlength
    rw [List.map_cons, List.sum_cons, List.length_cons] at hsum
    intro x hx
    rcases List.mem_cons.mp hx with rfl | hx
    · omega
    · exact ih hrest (by omega) x hx

/-- A column over some statuses conserves the issues exactly when each issue stands in one of them,
which is there once, and no other issue does. -/
theorem Column.conserves_iff (h : Column issues pointsOf place stands counts)
    (shown : List StatusKey) :
    (((shown.map fun status => (countOf counts status).items).sum = issues.length ∧
        (shown.map fun status => (countOf counts status).points).sum =
          (issues.map (·.points)).sum) ∧
        (∀ issue ∈ issues, place issue.id ∈ shown) ∧
        ∀ status ∈ shown, (countOf counts status).items =
          (issues.filter fun issue => place issue.id = status).length) ↔
      (∀ issue ∈ issues, shown.count (place issue.id) = 1) ∧
        ∀ entry ∈ others issues stands, entry.2 ∉ shown := by
  constructor
  · rintro ⟨⟨hitems, -⟩, hshown, hcells⟩
    have hothers : ∀ entry ∈ others issues stands, entry.2 ∉ shown := by
      intro entry hentry hmem
      -- the cell of its status counts it beside the issues of the sprint
      have hcell := hcells entry.2 hmem
      rw [h.cell, Nat.add_eq_left, List.length_eq_zero_iff, List.filter_eq_nil_iff] at hcell
      exact hcell entry hentry (decide_eq_true rfl)
    have hnone : ((others issues stands).map fun entry => shown.count entry.2).sum = 0 := by
      refine List.sum_eq_zero fun n hn => ?_
      obtain ⟨entry, hentry, rfl⟩ := List.mem_map.mp hn
      exact List.count_eq_zero_of_not_mem (hothers entry hentry)
    rw [h.sum_items, hnone, add_zero] at hitems
    exact ⟨eq_one_of_sum (fun issue hissue => List.one_le_count_iff.mpr (hshown issue hissue))
      hitems, hothers⟩
  · rintro ⟨honce, hothers⟩
    have hnone : ((others issues stands).map fun entry => shown.count entry.2).sum = 0 := by
      refine List.sum_eq_zero fun n hn => ?_
      obtain ⟨entry, hentry, rfl⟩ := List.mem_map.mp hn
      exact List.count_eq_zero_of_not_mem (hothers entry hentry)
    have hones : (issues.map fun issue => shown.count (place issue.id)) =
        List.replicate issues.length 1 := by
      rw [← List.map_const']
      exact List.map_congr_left honce
    have hpoints : (issues.map fun issue => shown.count (place issue.id) • issue.points) =
        issues.map (·.points) := by
      refine List.map_congr_left fun issue hissue => ?_
      rw [honce issue hissue, one_nsmul]
    refine ⟨⟨?_, ?_⟩, fun issue hissue => ?_, fun status hstatus => ?_⟩
    · rw [h.sum_items, hnone, hones, List.sum_replicate, smul_eq_mul, mul_one, add_zero]
    · rw [h.sum_points, hpoints]
    · exact List.one_le_count_iff.mp (honce issue hissue).ge
    · rw [h.cell, Nat.add_eq_left, List.length_eq_zero_iff, List.filter_eq_nil_iff]
      intro entry hentry hsame
      exact hothers entry hentry (of_decide_eq_true hsame ▸ hstatus)

end Column

/-- The place of an issue, when its status is one. -/
def Database.place (db : Database) (teamId sprintId day issueId : ℤ) : StatusKey :=
  (db.standing teamId sprintId day issueId).toOption.getD .null

/-! ### The response -/

theorem map_of_mapM {α : Type} {read : StatusKey → Option α} (write : α → StatusKey)
    (hread : ∀ status a, read status = some a → write a = status) {statuses : List StatusKey}
    {values : List α} (h : statuses.mapM read = some values) : values.map write = statuses := by
  induction statuses generalizing values with
  | nil =>
    cases h
    rfl
  | cons status statuses ih =>
    simp only [List.mapM_cons, Option.bind_eq_bind, Option.bind_eq_some_iff, Option.pure_def,
      Option.some.injEq] at h
    obtain ⟨value, hvalue, rest, hrest, rfl⟩ := h
    rw [List.map_cons, hread status value hvalue, ih hrest]

theorem sortedStatuses_perm {statuses sorted : List StatusKey}
    (h : sortedStatuses statuses = .ok sorted) : sorted.Perm statuses := by
  unfold sortedStatuses at h
  cases htexts : statuses.mapM StatusKey.text? with
  | some texts =>
    rw [htexts] at h
    cases h
    have hmap := map_of_mapM StatusKey.text (fun status text htext => by
      cases status <;> cases htext
      rfl) htexts
    rw [← hmap]
    exact (Ordering.sortOn_perm codePoints texts).map _
  | none =>
    cases hnumbers : statuses.mapM StatusKey.number? with
    | some numbers =>
      rw [htexts, hnumbers] at h
      cases h
      have hmap := map_of_mapM StatusKey.number (fun status number hnumber => by
        cases status <;> cases hnumber
        rfl) hnumbers
      rw [← hmap]
      exact (List.perm_insertionSort _ numbers).map _
    | none =>
      rw [htexts, hnumbers] at h
      dsimp only at h
      split_ifs at h
      cases h
      exact .refl _

theorem workingDaysFrom_days {n : ℕ} {first : ℤ} {dates : List ℤ}
    (h : workingDaysFrom n first = .ok dates) :
    dates.Pairwise (· < ·) ∧ ∀ day, day ∈ dates ↔
      first ≤ day ∧ day < first + n ∧ BusinessCalendar.weekday day ∈ defaultWorkingDays := by
  induction n generalizing first dates with
  | zero =>
    cases h
    refine ⟨.nil, fun day => ⟨fun hday => (by cases hday), fun hday => ?_⟩⟩
    omega
  | succ n ih =>
    simp only [workingDaysFrom, bind_eq_ok, pure_eq_ok] at h
    obtain ⟨next, hnext, rest, hrest, rfl⟩ := h
    obtain ⟨rfl, -⟩ := nextDay_eq_ok hnext
    obtain ⟨hsorted, hmem⟩ := ih hrest
    -- the rest lists the working days after the first
    have hlater : ∀ day, day ∈ rest ↔ first < day ∧ day < first + (n + 1 : ℕ) ∧
        BusinessCalendar.weekday day ∈ defaultWorkingDays := by
      intro day
      rw [hmem]
      constructor
      · rintro ⟨hfrom, hto, hworking⟩
        exact ⟨by omega, by omega, hworking⟩
      · rintro ⟨hfrom, hto, hworking⟩
        exact ⟨by omega, by omega, hworking⟩
    split_ifs with hworking
    · have hfirst : (first :: rest).Pairwise (· < ·) :=
        List.pairwise_cons.mpr ⟨fun day hday => ((hlater day).mp hday).1, hsorted⟩
      refine ⟨hfirst, fun day => ?_⟩
      rw [List.mem_cons, hlater]
      constructor
      · rintro (rfl | ⟨hfrom, hto, hday⟩)
        · exact ⟨le_rfl, by omega, hworking⟩
        · exact ⟨hfrom.le, hto, hday⟩
      · rintro ⟨hfrom, hto, hday⟩
        rcases hfrom.eq_or_lt with heq | hlt
        · exact .inl heq.symm
        · exact .inr ⟨hlt, hto, hday⟩
    · refine ⟨hsorted, fun day => ?_⟩
      rw [hlater]
      constructor
      · rintro ⟨hfrom, hto, hday⟩
        exact ⟨hfrom.le, hto, hday⟩
      · rintro ⟨hfrom, hto, hday⟩
        refine ⟨lt_of_le_of_ne hfrom ?_, hto, hday⟩
        rintro rfl
        exact hworking hday

/-- The walk of a sprint starts before its first event. -/
theorem flowWalk_walked {pointsOf : ℤ → ℤ} {first : ScheduledEventRow}
    {events : List ScheduledEventRow} {states : IssueStates} {dates : List ℤ} {walk : FlowWalk}
    (hsorted : dates.Pairwise (· < ·))
    (hdates : ∀ day ∈ dates, dateOf first.scheduledAt ≤ day)
    (h : dates.foldlM (flowDay pointsOf)
      { states, events := first :: events, statuses := [], columns := [] } = .ok walk) :
    Walked pointsOf (first :: events) states dates walk := by
  have hstates : states = statesAt (first :: events) states first.scheduledAt := by
    unfold statesAt
    rw [List.takeWhile_cons_of_neg (by simp)]
    rfl
  have hevents : first :: events = (first :: events).dropWhile
      fun event => event.scheduledAt < first.scheduledAt := by
    rw [List.dropWhile_cons_of_neg (by simp)]
  have hstart : Walked pointsOf (first :: events) states []
      { states, events := first :: events, statuses := [], columns := [] } :=
    ⟨.nil, .nil, fun status => by simp⟩
  refine flowDays_walked hstates hevents hstart hsorted (fun day hday => ?_) h
  have hle := hdates day hday
  unfold dateOf endOfDay microsecondsPerDay at *
  omega

/-- The columns behind a matrix, and the statuses that it shows of them. -/
structure Shows (db : Database) (teamId sprintId : ℤ) (matrix : FlowMatrix)
    (columns : List (List StatusCount)) : Prop where
  days : ∀ day, day ∈ matrix.dates ↔ db.ShowsDay teamId sprintId day
  counted : List.Forall₂ (fun day counts =>
    (statesAt (db.transitionEvents teamId sprintId)
      (initialStates (db.transitionEvents teamId sprintId) (db.defaultStatus teamId)
        (db.sprintIssues teamId sprintId)) (endOfDay day)).foldlM
          (countIssue (db.issuePoints teamId sprintId)) [] = .ok counts) matrix.dates columns
  items : matrix.items = matrix.statuses.map fun status => columns.map fun counts =>
    (countOf counts status).items
  points : matrix.points = matrix.statuses.map fun status => columns.map fun counts =>
    (countOf counts status).points
  workflow : ∀ statuses ∈ db.workflowStatuses teamId, matrix.statuses = statuses
  noWorkflow : db.workflowStatuses teamId = none → matrix.statuses.Nodup ∧
    ∀ counts ∈ columns, ∀ count ∈ counts, count.status ∈ matrix.statuses

theorem showsDay_iff {db : Database} {teamId sprintId day : ℤ} {sprint : SprintRow}
    {first : ScheduledEventRow} {events : List ScheduledEventRow}
    (hsprint : db.sprints.get? sprintId = some sprint)
    (hissues : db.sprintIssues teamId sprintId ≠ [])
    (hevents : db.transitionEvents teamId sprintId = first :: events) :
    db.ShowsDay teamId sprintId day ↔
      (Database.flowBounds sprint first).1 ≤ day ∧ day ≤ (Database.flowBounds sprint first).2 ∧
        BusinessCalendar.weekday day ∈ defaultWorkingDays := by
  constructor
  · rintro ⟨sprint', first', events', hsprint', -, hevents', hday⟩
    obtain rfl : sprint = sprint' := Option.some.inj (hsprint.symm.trans hsprint')
    obtain rfl : first = first' := (List.cons.inj (hevents.symm.trans hevents')).1
    exact hday
  · intro hday
    exact ⟨sprint, first, events, hsprint, hissues, hevents, hday⟩

/-- Without issues or events the matrix is empty; else it shows the columns of the walk. -/
theorem getFlowMatrix_shows {db : Database} {teamId sprintId : ℤ} {matrix : FlowMatrix}
    (h : getFlowMatrix db teamId sprintId = .ok matrix) :
    (matrix = .empty ∧ ∀ day, ¬ db.ShowsDay teamId sprintId day) ∨
      ∃ columns, Shows db teamId sprintId matrix columns := by
  unfold getFlowMatrix at h
  cases hsprint : db.sprints.get? sprintId with
  | none =>
    rw [hsprint] at h
    cases h
  | some sprint =>
    rw [hsprint] at h
    dsimp only at h
    cases hissues : db.sprintIssues teamId sprintId with
    | nil =>
      rw [hissues] at h
      cases h
      refine .inl ⟨rfl, ?_⟩
      rintro day ⟨_, _, _, -, hne, -⟩
      exact hne hissues
    | cons issue issues =>
      cases hevents : db.transitionEvents teamId sprintId with
      | nil =>
        rw [hissues, hevents] at h
        cases h
        refine .inl ⟨rfl, ?_⟩
        rintro day ⟨_, _, _, -, -, hsome, -⟩
        rw [hevents] at hsome
        cases hsome
      | cons first events =>
        rw [hissues, hevents] at h
        simp only [bind_eq_ok, orRaise_eq_ok] at h
        obtain ⟨dates, hdays, walk, hwalk, h⟩ := h
        obtain ⟨hsorted, hmem⟩ := workingDaysFrom_days hdays
        -- the days of the matrix are the working days between its bounds
        have hshows : ∀ day, day ∈ dates ↔ db.ShowsDay teamId sprintId day := by
          intro day
          rw [hmem, showsDay_iff hsprint (by rw [hissues]; exact List.cons_ne_nil _ _) hevents]
          have hle : (Database.flowBounds sprint first).1 ≤
            (Database.flowBounds sprint first).2 := le_max_right _ _
          constructor
          · rintro ⟨hfrom, hto, hworking⟩
            exact ⟨hfrom, by omega, hworking⟩
          · rintro ⟨hfrom, hto, hworking⟩
            exact ⟨hfrom, by omega, hworking⟩
        have hwalked := flowWalk_walked hsorted (fun day hday => ((hmem day).mp hday).1) hwalk
        rw [← hevents, ← hissues] at hwalked
        right
        -- the statuses come from the workflow, or else from the columns themselves
        cases hworkflow : db.workflow teamId with
        | some steps =>
          rw [hworkflow] at h
          simp only [pure_eq_ok, bind_eq_ok] at h
          obtain ⟨statuses, rfl, rfl⟩ := h
          have hshown : db.workflowStatuses teamId =
              some (steps.map fun step => .text step.jiraStatus) := by
            rw [Database.workflowStatuses, hworkflow]
            rfl
          refine ⟨walk.columns, hshows, hwalked.columns, rfl, rfl, fun statuses hstatuses => ?_,
            fun hnone => ?_⟩
          · rw [hshown] at hstatuses
            exact Option.some.inj hstatuses
          · rw [hshown] at hnone
            cases hnone
        | none =>
          rw [hworkflow] at h
          simp only [bind_eq_ok, orRaise_eq_ok, pure_eq_ok] at h
          obtain ⟨statuses, hstatuses, rfl⟩ := h
          have hshown : db.workflowStatuses teamId = none := by
            rw [Database.workflowStatuses, hworkflow]
            rfl
          have hperm := sortedStatuses_perm hstatuses
          refine ⟨walk.columns, hshows, hwalked.columns, rfl, rfl, fun statuses hstatuses => ?_,
            fun _ => ⟨hperm.nodup_iff.mpr hwalked.distinct, fun counts hcounts count hcount => ?_⟩⟩
          · rw [hshown] at hstatuses
            cases hstatuses
          · exact hperm.mem_iff.mpr
              ((hwalked.statuses _).mpr ⟨counts, hcounts, count, hcount, rfl⟩)

theorem issuePoints_of_mem {db : Database} {teamId sprintId : ℤ} {issue : IssueRow}
    (h : issue ∈ db.sprintIssues teamId sprintId) :
    db.issuePoints teamId sprintId issue.id = issue.points := by
  have hids : ((db.sprintIssues teamId sprintId).map fun row => row.id).Nodup :=
    db.issues.distinct.sublist (List.filter_sublist.map _)
  have hfind := (Keyed.lookup_eq_some (fun row : IssueRow => row.id) hids).mpr ⟨h, rfl⟩
  unfold Database.issuePoints
  rw [Keyed.lookup] at hfind
  rw [hfind]
  rfl

theorem issuePoints_of_not_mem {db : Database} {teamId sprintId issueId : ℤ}
    (h : issueId ∉ (db.sprintIssues teamId sprintId).map (·.id)) :
    db.issuePoints teamId sprintId issueId = 0 := by
  have hfind := (Keyed.lookup_eq_none (fun row : IssueRow => row.id)).mpr h
  unfold Database.issuePoints
  rw [Keyed.lookup] at hfind
  rw [hfind]
  rfl

/-- The column of a shown day: the issues of the sprint where they stand, and the others that the
sprint's events have moved. -/
theorem Shows.column {db : Database} {teamId sprintId : ℤ} {matrix : FlowMatrix}
    {columns : List (List StatusCount)} (h : Shows db teamId sprintId matrix columns) {d : ℕ}
    {day : ℤ} (hd : matrix.dates[d]? = some day) :
    ∃ counts stands place, columns[d]? = some counts ∧
      Column (db.sprintIssues teamId sprintId) (db.issuePoints teamId sprintId) place stands
        counts ∧
      (∀ issue ∈ db.sprintIssues teamId sprintId,
        db.standing teamId sprintId day issue.id = .ok (place issue.id)) ∧
      ∀ issueId status, (issueId, status) ∈ others (db.sprintIssues teamId sprintId) stands ↔
        issueId ∉ (db.sprintIssues teamId sprintId).map (·.id) ∧
          ∃ target, movedTo (db.transitionEvents teamId sprintId) (endOfDay day) issueId =
            some target ∧ statusKey target = .ok status := by
  obtain ⟨counts, hcounts, hcolumn⟩ := forall₂_getElem? h.counted hd
  have hempty : Counted (db.issuePoints teamId sprintId) [] [] :=
    ⟨fun _ => rfl, fun _ => rfl, fun _ => by simp⟩
  obtain ⟨stands, hstands, hcounted⟩ := countIssues_counted hempty hcolumn
  have hstates := nodup_statesAt (db.transitionEvents teamId sprintId) (db.defaultStatus teamId)
    (db.sprintIssues teamId sprintId) (endOfDay day)
  have hsorted := transitionEvents_sorted db teamId sprintId
  -- an issue of the sprint stands where its last transition left it
  have hstand : ∀ issue ∈ db.sprintIssues teamId sprintId, ∃ status,
      db.standing teamId sprintId day issue.id = .ok status ∧ (issue.id, status) ∈ stands := by
    intro issue hissue
    have hid : issue.id ∈ (db.sprintIssues teamId sprintId).map (·.id) := List.mem_map_of_mem hissue
    have hstate : stateOf (statesAt (db.transitionEvents teamId sprintId)
        (initialStates (db.transitionEvents teamId sprintId) (db.defaultStatus teamId)
          (db.sprintIssues teamId sprintId)) (endOfDay day)) issue.id =
        some ((movedTo (db.transitionEvents teamId sprintId) (endOfDay day) issue.id).getD
          (.string (db.defaultStatus teamId))) := by
      rw [stateOf_statesAt hsorted, if_pos hid]
      cases movedTo (db.transitionEvents teamId sprintId) (endOfDay day) issue.id with
      | none => rfl
      | some target => rfl
    have hlisted : issue.id ∈ stands.map Prod.fst := by
      rw [hstands.keys, ← Keyed.lookup_isSome_iff]
      have hsome := congrArg Option.isSome hstate
      rwa [stateOf, Option.isSome_map] at hsome
    obtain ⟨⟨_, status⟩, hentry, hid⟩ := List.mem_map.mp hlisted
    obtain rfl : _ = issue.id := hid
    obtain ⟨target, htarget, hstatus⟩ := (hstands.mem_iff hstates).mp hentry
    obtain rfl := Option.some.inj (hstate.symm.trans htarget)
    exact ⟨status, hstatus, hentry⟩
  -- its place on the day is that status
  have hplace : ∀ issue ∈ db.sprintIssues teamId sprintId,
      db.standing teamId sprintId day issue.id = .ok (db.place teamId sprintId day issue.id) ∧
        (issue.id, db.place teamId sprintId day issue.id) ∈ stands := by
    intro issue hissue
    obtain ⟨status, hstatus, hentry⟩ := hstand issue hissue
    have hsame : db.place teamId sprintId day issue.id = status := by
      rw [Database.place, hstatus]
      rfl
    rw [hsame]
    exact ⟨hstatus, hentry⟩
  refine ⟨counts, stands, db.place teamId sprintId day, hcounts, ?_,
    fun issue hissue => (hplace issue hissue).1, fun issueId status => ?_⟩
  · exact {
      ids := db.issues.distinct.sublist (List.filter_sublist.map _)
      distinct := by rwa [hstands.keys]
      placed := fun issue hissue => (hplace issue hissue).2
      counted := hcounted
      points := fun _ => issuePoints_of_mem
      noPoints := fun _ => issuePoints_of_not_mem }
  · unfold others
    rw [List.mem_filter, decide_eq_true_eq, and_comm, hstands.mem_iff hstates,
      stateOf_statesAt hsorted]
    refine and_congr_right fun hout => ?_
    rw [if_neg hout, Option.or_none]

/-! ### Conservation -/

/-- A column conserves the issues exactly when the sprint's issues stand apart from the others. -/
theorem Shows.dayConserved_iff {db : Database} {teamId sprintId : ℤ} {matrix : FlowMatrix}
    {columns : List (List StatusCount)} (h : Shows db teamId sprintId matrix columns) {d : ℕ}
    {day : ℤ} (hd : matrix.dates[d]? = some day) :
    db.DayConserved teamId sprintId matrix d day ↔ db.StandApart teamId sprintId day := by
  obtain ⟨counts, stands, place, hcounts, hcolumn, hplace, hothers⟩ := h.column hd
  have hitems : (matrix.items.map fun row => row.getD d 0) =
      matrix.statuses.map fun status => (countOf counts status).items := by
    rw [h.items, List.map_map]
    refine List.map_congr_left fun status _ => ?_
    simp only [Function.comp_apply, List.getD_eq_getElem?_getD, List.getElem?_map, hcounts,
      Option.map_some, Option.getD_some]
  have hpoints : (matrix.points.map fun row => row.getD d 0) =
      matrix.statuses.map fun status => (countOf counts status).points := by
    rw [h.points, List.map_map]
    refine List.map_congr_left fun status _ => ?_
    simp only [Function.comp_apply, List.getD_eq_getElem?_getD, List.getElem?_map, hcounts,
      Option.map_some, Option.getD_some]
  have hstanding : ∀ status, db.standingIn teamId sprintId day status =
      (db.sprintIssues teamId sprintId).filter fun issue => place issue.id = status := by
    intro status
    unfold Database.standingIn
    refine List.filter_congr fun issue hissue => ?_
    rw [hplace issue hissue]
    show decide (some (place issue.id) = some status) = _
    simp only [Option.some.injEq]
  have hconserved : db.DayConserved teamId sprintId matrix d day ↔
      (∀ issue ∈ db.sprintIssues teamId sprintId,
        matrix.statuses.count (place issue.id) = 1) ∧
      ∀ entry ∈ others (db.sprintIssues teamId sprintId) stands, entry.2 ∉ matrix.statuses := by
    rw [← hcolumn.conserves_iff matrix.statuses]
    constructor
    · rintro ⟨hsum, hpointSum, hshown, hcells⟩
      rw [hitems] at hsum hcells
      rw [hpoints] at hpointSum
      refine ⟨⟨hsum, hpointSum⟩, fun issue hissue => ?_, fun status hstatus => ?_⟩
      · obtain ⟨status, hmem, hstatus⟩ := hshown issue hissue
        obtain rfl := Except.ok.inj ((hplace issue hissue).symm.trans hstatus)
        exact hmem
      · rw [List.map_inj_left.mp hcells status hstatus, hstanding]
    · rintro ⟨⟨hsum, hpointSum⟩, hshown, hcells⟩
      refine ⟨hitems ▸ hsum, hpoints ▸ hpointSum, fun issue hissue => ?_, ?_⟩
      · exact ⟨place issue.id, hshown issue hissue, hplace issue hissue⟩
      · rw [hitems]
        refine List.map_congr_left fun status hstatus => ?_
        rw [hcells status hstatus, hstanding]
  rw [hconserved]
  cases hworkflow : db.workflowStatuses teamId with
  | some statuses =>
    have hshown := h.workflow statuses hworkflow
    constructor
    · rintro ⟨honce, hapart⟩
      refine ⟨fun statuses' hstatuses' issue hissue status hstatus => ?_,
        fun issueId hout target status htarget hstatus => ?_⟩
      · obtain rfl := Option.some.inj (hworkflow.symm.trans hstatuses')
        obtain rfl := Except.ok.inj ((hplace issue hissue).symm.trans hstatus)
        rw [← hshown]
        exact honce issue hissue
      · have hentry := (hothers issueId status).mpr ⟨hout, target, htarget, hstatus⟩
        exact ⟨statuses, hworkflow, hshown ▸ hapart _ hentry⟩
    · rintro ⟨honce, hapart⟩
      refine ⟨fun issue hissue => ?_, fun entry hentry hmem => ?_⟩
      · rw [hshown]
        exact honce statuses hworkflow issue hissue _ (hplace issue hissue)
      · obtain ⟨hout, target, htarget, hstatus⟩ := (hothers entry.1 entry.2).mp hentry
        obtain ⟨statuses', hstatuses', hhidden⟩ := hapart entry.1 hout target _ htarget hstatus
        obtain rfl := Option.some.inj (hworkflow.symm.trans hstatuses')
        exact hhidden (hshown ▸ hmem)
  | none =>
    obtain ⟨hnodup, hall⟩ := h.noWorkflow hworkflow
    -- every status that a column counts is shown
    have hmem : ∀ entry ∈ stands, entry.2 ∈ matrix.statuses := by
      intro entry hentry
      obtain ⟨count, hcount, hstatus⟩ := (hcolumn.counted.statuses entry.2).mpr ⟨entry, hentry, rfl⟩
      rw [← hstatus]
      exact hall counts (List.mem_of_getElem? hcounts) count hcount
    constructor
    · rintro ⟨-, hapart⟩
      refine ⟨fun statuses hstatuses => ?_, fun issueId hout target status htarget hstatus => ?_⟩
      · rw [hworkflow] at hstatuses
        cases hstatuses
      · have hentry := (hothers issueId status).mpr ⟨hout, target, htarget, hstatus⟩
        exact absurd (hmem _ (List.mem_of_mem_filter hentry)) (hapart _ hentry)
    · rintro ⟨-, hapart⟩
      refine ⟨fun issue hissue => ?_, fun entry hentry => ?_⟩
      · exact List.count_eq_one_of_mem hnodup (hmem _ (hcolumn.placed issue hissue))
      · obtain ⟨hout, target, htarget, hstatus⟩ := (hothers entry.1 entry.2).mp hentry
        obtain ⟨statuses, hstatuses, -⟩ := hapart entry.1 hout target _ htarget hstatus
        rw [hworkflow] at hstatuses
        cases hstatuses

/-- The matrix conserves the issues of its sprint exactly when on each shown day they stand in the
workflow, each in one of its statuses, and no other issue that the sprint's events moved does. -/
theorem flowMatrix_conserves {db : Database} {teamId sprintId : ℤ} {matrix : FlowMatrix}
    (h : getFlowMatrix db teamId sprintId = .ok matrix) :
    db.FlowConserved teamId sprintId matrix ↔
      ∀ day, db.ShowsDay teamId sprintId day → db.StandApart teamId sprintId day := by
  rcases getFlowMatrix_shows h with ⟨rfl, hnone⟩ | ⟨columns, hshows⟩
  · constructor
    · intro _ day hday
      exact absurd hday (hnone day)
    · intro _ d day hd
      cases hd
  · constructor
    · intro hconserved day hday
      obtain ⟨d, hd⟩ := List.mem_iff_getElem?.mp ((hshows.days day).mpr hday)
      exact (hshows.dayConserved_iff hd).mp (hconserved d day hd)
    · intro hapart d day hd
      have hday := (hshows.days day).mp (List.mem_of_getElem? hd)
      exact (hshows.dayConserved_iff hd).mpr (hapart day hday)

/-! ### An issue that has left its sprint -/

/-- The event that moves an issue to a status in some tick. -/
def movedInTick (move : ℤ × ℕ × String) (id : ℤ) : ScheduledEventRow where
  id
  teamId := 1
  sprintId := 1
  issueId := some move.1
  eventType := "TRANSITION_ISSUE"
  scheduledAt := (9 + move.2.1) * microsecondsPerHour
  simTick := move.2.1
  payload := [("target_status", .string move.2.2)]
  status := .dispatched
  dispatchedAt := none
  modifiedAt := none
  originalPayload := none
  originalScheduledAt := none
  sequenceOrder := 0

/-- A sprint over a Thursday and a Friday: of its two issues the first is done on Thursday, and the
second has been carried over. -/
def departedSprint : Database where
  teams := [dayTeam]
  sprints := (Table.empty SprintRow.id).insertAll
    (fun phase id => {
      id, teamId := 1, jiraSprintId := none, name := "Sprint 1", goal := none, startDate := 0
      endDate := microsecondsPerDay, phase, sprintNumber := 1, committedPoints := 6
      capacityTarget := none })
    (fun _ _ => rfl) [.completed]
  issues := (Table.empty _).insertAll
    (fun sprintId id => {
      newIssue id with teamId := 1, sprintId, carriedOver := sprintId.isNone, epicId := none })
    (fun _ _ => rfl) [some 1, none]
  events := (Table.empty ScheduledEventRow.id).insertAll movedInTick (fun _ _ => rfl)
    [(1, 0, "In Progress"), (2, 0, "In Progress"), (1, 3, "Done")]
  queue := []

def departedMatrix : FlowMatrix where
  dates := [0, 1]
  statuses := [.text "In Progress", .text "Done"]
  items := [[1, 1], [1, 1]]
  points := [[0, 0], [3, 3]]

theorem departedSprint_matrix : getFlowMatrix departedSprint 1 1 = .ok departedMatrix := by
  decide +kernel

theorem departedMatrix_adds : ¬ departedSprint.FlowConserved 1 1 departedMatrix := by
  intro hconserved
  have hitems := (hconserved 0 0 rfl).items
  have hone : (departedSprint.sprintIssues 1 1).length = 1 := rfl
  rw [hone] at hitems
  exact absurd hitems (by decide)

/-- On Thursday the carried-over issue stands in the workflow beside that of the sprint. -/
theorem flowMatrix_conserves_departed :
    ¬ ∀ day, departedSprint.ShowsDay 1 1 day → departedSprint.StandApart 1 1 day :=
  fun hapart => departedMatrix_adds ((flowMatrix_conserves departedSprint_matrix).mpr hapart)

/-- The columns of a sprint with one issue count two, since an issue that was carried over out of
the sprint is still moved by its events. -/
theorem flowMatrix_counts_departed :
    (departedSprint.sprintIssues 1 1).length = 1 ∧
      getFlowMatrix departedSprint 1 1 = .ok departedMatrix ∧
      (departedMatrix.items.map fun row => row.getD 0 0).sum = 2 ∧
      ¬ departedSprint.FlowConserved 1 1 departedMatrix :=
  ⟨rfl, departedSprint_matrix, rfl, departedMatrix_adds⟩

end JiraSimulator.Engine
