import JiraSimulator.Correctness.DatabaseChanges

/-!
# Dispatches between other transactions

A dispatch reads the events that are due, and writes them to the queue in a later transaction.
While other transactions come between, every event reaches the queue at most once, no cancelled
event does, and the events of a sprint that were never modified do in their order, as long as the
events that a commit writes still wait, and a recomputed schedule does not begin before events that
were dispatched.

* `Selected`: what a dispatch has read, as other transactions go on.
* `QueueKept`: the events in the queue, and those that still wait.
* `dispatchedOnce`: the queue in every run.
* `dispatchedTwice`: two dispatches that read the same events.
-/

namespace JiraSimulator.Engine

open Library Library.Outcome

/-! ### The queue -/

/-- The dispatcher takes the first event no later than the second. -/
def NotAfter (event later : ScheduledEventRow) : Prop :=
  Ordering.lexLe (dispatchOrder event) (dispatchOrder later) = true

/-- Two events of one sprint that were never modified. -/
structure Comparable (event later : ScheduledEventRow) : Prop where
  sprint : event.sprintId = later.sprintId
  first : event.modifiedAt = none
  second : later.modifiedAt = none

/-- The queue has each event once, no cancelled one, and the events of a sprint that were never
modified in their order. -/
structure DispatchedOnce (s : Service) : Prop where
  once : s.db.queuedEvents.Nodup
  notCancelled : ∀ eventId ∈ s.cancelled, eventId ∉ s.db.queuedEvents
  ordered : s.db.queuedEvents.Pairwise fun a b => ∀ event later,
    s.db.events.get? a = some event → s.db.events.get? b = some later →
      Comparable event later → NotAfter event later

/-! ### The steps that keep it -/

/-- The event still waits, unless it is gone. -/
def StillWaits (db : Database) (read : ScheduledEventRow) : Prop :=
  ∀ row, db.events.get? read.id = some row → row.waits = true

/-- The events that a request writes still wait. -/
def CommitsWaiting (db : Database) : InFlight → Prop
  | .dispatch _ due => ∀ event ∈ due, StillWaits db event
  | .modify read _ _ => StillWaits db read
  | .cancel _ | .createSprint .. => True

/-- A schedule is computed again for a sprint of the team, and the new events do not come before
those that were dispatched. -/
structure RecomputesLater (library : StandardLibrary) (fuel : ℕ) (db : Database)
    (teamId sprintId rngSeed : ℤ) : Prop where
  team : ∀ sprint, db.sprints.get? sprintId = some sprint → sprint.teamId = teamId
  later : ∀ db', recomputeSprintSchedule library fuel db teamId sprintId rngSeed =
      .ok (some db') →
    ∀ later ∈ db'.events.rows, db.events.next ≤ later.id →
      ∀ event ∈ db.events.rows, event.id ∈ db.queuedEvents → Comparable event later →
        NotAfter event later

/-- The condition on a step that commits. -/
def DispatchStep (library : StandardLibrary) (fuel : ℕ) (s : Service) : Action → Prop
  | .recompute teamId sprintId rngSeed =>
    RecomputesLater library fuel s.db teamId sprintId rngSeed
  | .commit place => ∀ request, s.inFlight[place]? = some request → CommitsWaiting s.db request
  | .precompute .. | .activate .. | .edit .. | .delete .. | .createBatch .. | .cancelAll .. |
    .tick .. | .cadence .. | .read _ => True

/-! ### What is kept -/

/-- The events that a dispatch has read: as long as all of them wait, no other event of their
sprints comes before them. -/
structure Selected (db : Database) (due : List ScheduledEventRow) : Prop where
  distinct : (due.map (·.id)).Nodup
  below : ∀ event ∈ due, event.id < db.events.next
  sorted : due.Pairwise NotAfter
  same : ∀ event ∈ due, ∀ row, db.events.get? event.id = some row → row.modifiedAt = none →
    dispatchOrder row = dispatchOrder event
  least : (∀ event ∈ due, ∃ row, db.events.get? event.id = some row ∧ row.waits = true) →
    ∀ row ∈ db.events.rows, row.id ∈ due.map (·.id) →
      ∀ later ∈ db.events.rows, later.waits = true → later.id ∉ due.map (·.id) →
        Comparable row later → NotAfter row later

/-- The events in the queue and those that wait. -/
structure QueueKept (db : Database) : Prop where
  present : ∀ eventId ∈ db.queuedEvents, ∃ event, db.events.get? eventId = some event
  waiting : ∀ event ∈ db.events.rows, event.waits = true → event.id ∉ db.queuedEvents
  once : db.queuedEvents.Nodup
  ordered : db.queuedEvents.Pairwise fun a b => ∀ event later,
    db.events.get? a = some event → db.events.get? b = some later →
      Comparable event later → NotAfter event later
  frontier : ∀ event ∈ db.events.rows, event.id ∈ db.queuedEvents →
    ∀ later ∈ db.events.rows, later.waits = true → Comparable event later → NotAfter event later

/-- What a request in flight relies on. -/
def RequestKept (db : Database) : InFlight → Prop
  | .dispatch _ due => Selected db due
  | .cancel eventId => eventId < db.events.next
  | .modify .. | .createSprint .. => True

/-- A cancelled event is gone for good. -/
def Gone (db : Database) (eventId : ℤ) : Prop :=
  eventId < db.events.next ∧ db.events.get? eventId = none

/-! ### Changes that add and delete events -/

/-- What changes do to the events: queued ones stay, and the new ones have new identifiers and come
behind the queued events of their sprints, of which no other one waits. -/
structure KeepsEvents (db db' : Database) : Prop where
  next : db.events.next ≤ db'.events.next
  queued : db'.queuedEvents = db.queuedEvents
  kept : ∀ event ∈ db.events.rows, event ∈ db'.events.rows ∨ db.isQueued event.id = false
  rows : ∀ event ∈ db'.events.rows, event ∈ db.events.rows ∨ (db.events.next ≤ event.id ∧
    ∀ old ∈ db'.events.rows, old.id < db.events.next → Comparable old event →
      old.waits = false ∧ (old.id ∈ db.queuedEvents → NotAfter old event))

theorem KeepsEvents.of_eq {db db' : Database} (hevents : db'.events = db.events)
    (hqueue : db'.queuedEvents = db.queuedEvents) : KeepsEvents db db' := by
  refine ⟨?_, hqueue, fun event hevent => .inl ?_, fun event hevent => .inl ?_⟩
  · rw [hevents]
  · rwa [hevents]
  · rwa [hevents] at hevent

theorem KeepsEvents.trans {a b c : Database} (hab : KeepsEvents a b) (hbc : KeepsEvents b c) :
    KeepsEvents a c := by
  refine ⟨hab.next.trans hbc.next, hbc.queued.trans hab.queued, fun event hevent => ?_,
    fun event hevent => ?_⟩
  · rcases hab.kept event hevent with hkept | hnot
    · rcases hbc.kept event hkept with hkept | hnot
      · exact .inl hkept
      · refine .inr ?_
        rw [Bool.eq_false_iff, ne_eq, isQueued_iff, ← hab.queued, ← isQueued_iff, hnot]
        exact Bool.false_ne_true
    · exact .inr hnot
  · rcases hbc.rows event hevent with hold | ⟨hle, hbehind⟩
    · rcases hab.rows event hold with hold | ⟨hle, hbehind⟩
      · exact .inl hold
      · refine .inr ⟨hle, fun old hrow hlt => hbehind old ?_ hlt⟩
        -- a row below the next identifier of the first database is no new one
        rcases hbc.rows old hrow with hrow | ⟨hge, -⟩
        · exact hrow
        · exact absurd (hlt.trans_le hab.next) (not_lt.mpr hge)
    · refine .inr ⟨hab.next.trans hle, fun old hrow hlt hcomparable => ?_⟩
      rw [← hab.queued]
      exact hbehind old hrow (hlt.trans_le hab.next) hcomparable

theorem Change.keepsEvents {db db' : Database} (h : Change db db') : KeepsEvents db db' := by
  cases h with
  | sprint | phase | close | edit | unassign | removeSprint | carryOver => exact .of_eq rfl rfl
  | schedule teamId sprintId result hsprint hfresh hjoins =>
    refine ⟨?_, rfl, fun event hevent => .inl ?_, fun event hevent => ?_⟩
    · show db.events.next ≤ db.events.next + _
      omega
    · exact Table.mem_insertAll_of_mem (fun _ _ => rfl) hevent
    · rcases mem_storeSchedule_events hevent with hold | ⟨data, -, id, hle, rfl⟩
      · exact .inl hold
      · refine .inr ⟨hle, fun old hrow hlt hcomparable => ?_⟩
        rcases mem_storeSchedule_events hrow with hold | ⟨data, -, id, hle, rfl⟩
        · exact absurd hcomparable.sprint (hfresh old hold)
        · exact absurd hlt (not_lt.mpr hle)
  | deleteEvents selects hqueued =>
    refine ⟨le_rfl, rfl, fun event hevent => ?_, fun event hevent => .inl ?_⟩
    · by_cases hselects : selects event = true
      · exact .inr (hqueued event hevent hselects)
      · exact .inl (Table.mem_filter.mpr ⟨hevent, by simpa using hselects⟩)
    · exact (Table.mem_filter.mp hevent).1
  | addIssue teamId issueType storyPoints priority epicId payload =>
    refine .of_eq rfl ?_
    show (db.queue ++ [_]).filterMap _ = _
    rw [List.filterMap_append]
    exact List.append_nil _

theorem Changes.keepsEvents {db db' : Database} (h : Changes db db') : KeepsEvents db db' := by
  induction h with
  | refl => exact .of_eq rfl rfl
  | tail _ hchange ih => exact ih.trans hchange.keepsEvents

section keepsEvents

variable {db db' : Database} (h : KeepsEvents db db')

include h

/-- A row below the next identifier is an old one. -/
theorem KeepsEvents.old {event : ScheduledEventRow} (hevent : event ∈ db'.events.rows)
    (hbelow : event.id < db.events.next) : event ∈ db.events.rows := by
  rcases h.rows event hevent with hold | ⟨hle, -⟩
  · exact hold
  · exact absurd hbelow (not_lt.mpr hle)

theorem KeepsEvents.get {eventId : ℤ} {event : ScheduledEventRow}
    (hget : db'.events.get? eventId = some event) (hbelow : eventId < db.events.next) :
    db.events.get? eventId = some event := by
  obtain ⟨hmem, rfl⟩ := Table.get?_eq_some.mp hget
  exact Table.get?_of_mem (h.old hmem hbelow)

theorem Selected.keepsEvents {due : List ScheduledEventRow} (hdue : Selected db due) :
    Selected db' due := by
  refine ⟨hdue.distinct, fun event hevent => ?_, hdue.sorted, fun event hevent row hrow => ?_,
    fun hwait row hrow hid later hlater hwaits hout hcomparable => ?_⟩
  · exact (hdue.below event hevent).trans_le h.next
  · exact hdue.same event hevent row (h.get hrow (hdue.below event hevent))
  · have hbelow : row.id < db.events.next := by
      obtain ⟨event, hevent, hsame⟩ := List.mem_map.mp hid
      rw [← hsame]
      exact hdue.below event hevent
    rcases h.rows later hlater with hold | ⟨-, hbehind⟩
    · refine hdue.least (fun event hevent => ?_) row (h.old hrow hbelow) hid later hold hwaits hout
        hcomparable
      obtain ⟨found, hfound, hfoundWaits⟩ := hwait event hevent
      exact ⟨found, h.get hfound (hdue.below event hevent), hfoundWaits⟩
    · -- the row waits, so that no new event is comparable with it
      obtain ⟨event, hevent, hsame⟩ := List.mem_map.mp hid
      obtain ⟨found, hfound, hfoundWaits⟩ := hwait event hevent
      obtain ⟨hmem, hkey⟩ := Table.get?_eq_some.mp hfound
      have hrowFound : found = row := Table.eq_of_key_eq hmem hrow (hkey.trans hsame)
      have hdone := (hbehind row hrow hbelow hcomparable).1
      rw [← hrowFound, hfoundWaits] at hdone
      cases hdone

theorem Gone.keepsEvents {eventId : ℤ} (hgone : Gone db eventId) : Gone db' eventId := by
  refine ⟨hgone.1.trans_le h.next, ?_⟩
  rw [Table.get?_eq_none]
  intro event hevent hid
  have hold := h.old hevent (hid ▸ hgone.1)
  exact Table.get?_eq_none.mp hgone.2 event hold hid

theorem RequestKept.keepsEvents {request : InFlight} (hrequest : RequestKept db request) :
    RequestKept db' request := by
  cases request with
  | dispatch now due => exact Selected.keepsEvents h hrequest
  | cancel eventId => exact lt_of_lt_of_le hrequest h.next
  | modify | createSprint => trivial

theorem QueueKept.keepsEvents (hdb : QueueKept db) : QueueKept db' := by
  have hbelow : ∀ eventId ∈ db.queuedEvents, eventId < db.events.next := by
    intro eventId hqueued
    obtain ⟨event, hevent⟩ := hdb.present eventId hqueued
    obtain ⟨hmem, rfl⟩ := Table.get?_eq_some.mp hevent
    exact db.events.below event hmem
  have hget : ∀ eventId event, eventId ∈ db.queuedEvents →
      db'.events.get? eventId = some event → db.events.get? eventId = some event :=
    fun eventId event hqueued hevent => h.get hevent (hbelow eventId hqueued)
  refine ⟨?_, ?_, ?_, ?_, ?_⟩
  · rw [h.queued]
    intro eventId hqueued
    obtain ⟨event, hevent⟩ := hdb.present eventId hqueued
    obtain ⟨hmem, rfl⟩ := Table.get?_eq_some.mp hevent
    rcases h.kept event hmem with hkept | hnot
    · exact ⟨event, Table.get?_of_mem hkept⟩
    · rw [Bool.eq_false_iff] at hnot
      exact absurd (isQueued_iff.mpr hqueued) hnot
  · rw [h.queued]
    intro event hevent hwaits hqueued
    exact hdb.waiting event (h.old hevent (hbelow _ hqueued)) hwaits hqueued
  · rw [h.queued]
    exact hdb.once
  · rw [h.queued]
    refine List.Pairwise.imp_of_mem ?_ hdb.ordered
    intro a b ha hb hab event later hevent hlater
    exact hab event later (hget a event ha hevent) (hget b later hb hlater)
  · rw [h.queued]
    intro event hevent hqueued later hlater hwaits hcomparable
    have hold := h.old hevent (hbelow _ hqueued)
    rcases h.rows later hlater with hlaterOld | ⟨-, hbehind⟩
    · exact hdb.frontier event hold hqueued later hlaterOld hwaits hcomparable
    · exact (hbehind event hevent (hbelow _ hqueued) hcomparable).2 hqueued

end keepsEvents

/-- A schedule that is computed again takes the place of the events that waited. -/
theorem recompute_keepsEvents {library : StandardLibrary} {fuel : ℕ} {db db' : Database}
    {teamId sprintId rngSeed : ℤ} (hown : OwnEvents db)
    (hlater : RecomputesLater library fuel db teamId sprintId rngSeed)
    (h : recomputeSprintSchedule library fuel db teamId sprintId rngSeed = .ok (some db')) :
    KeepsEvents db db' := by
  obtain ⟨team, sprint, cleared, steps, finalStep, result, hteam, hsprint, hcleared, hsteps,
    hschedule, rfl⟩ := recompute_eq_ok h
  have hkept := (deleteEvents_changes hcleared).keepsEvents
  obtain ⟨hqueued, rfl⟩ := deleteEvents_eq_ok hcleared
  refine hkept.trans ⟨?_, rfl, fun event hevent => .inl ?_, fun event hevent => ?_⟩
  · show db.events.next ≤ db.events.next + _
    omega
  · exact Table.mem_insertAll_of_mem (fun _ _ => rfl) hevent
  · rcases mem_storeSchedule_events hevent with hold | ⟨data, hdata, id, hle, rfl⟩
    · exact .inl hold
    · refine .inr ⟨hle, fun old hrow hlt hcomparable => ?_⟩
      rcases mem_storeSchedule_events hrow with hold | ⟨data, -, id, hle, rfl⟩
      · obtain ⟨hmem, hnot⟩ := Table.mem_filter.mp hold
        constructor
        · -- an event of the sprint that waited has been deleted
          by_contra hwaits
          obtain ⟨hrowSprint, hid⟩ := Table.get?_eq_some.mp hsprint
          have hsame : sprint.id = old.sprintId := hcomparable.sprint.symm
          have hteamId := hown old hmem sprint hrowSprint hsame
          rw [hlater.team sprint hsprint] at hteamId
          simp only [ScheduledEventRow.waitsFor, Bool.not_eq_true', Bool.and_eq_false_iff,
            decide_eq_false_iff_not] at hnot
          rcases hnot with (hne | hne) | hdone
          · exact hne hteamId.symm
          · exact hne (hsame.symm.trans hid)
          · exact hwaits hdone
        · intro hold'
          exact hlater.later _ h _ hevent hle old hmem hold' hcomparable
      · exact absurd hlt (not_lt.mpr hle)

/-! ### Rows that are written -/

/-- A change of the rows: no event begins to wait, and an event that is not modified stays where it
is in the order. -/
structure Rewrites (db : Database) (change : ScheduledEventRow → ScheduledEventRow) : Prop where
  id : ∀ row, (change row).id = row.id
  sprint : ∀ row, (change row).sprintId = row.sprintId
  team : ∀ row, (change row).teamId = row.teamId
  order : ∀ row, (change row).modifiedAt = none →
    row.modifiedAt = none ∧ dispatchOrder (change row) = dispatchOrder row
  waits : ∀ row ∈ db.events.rows, (change row).waits = true → row.waits = true

section rewrites

variable {db : Database} {change : ScheduledEventRow → ScheduledEventRow} {queue : List QueueRow}
  (h : Rewrites db change)

include h

theorem Rewrites.comparable {event later : ScheduledEventRow}
    (hcomparable : Comparable (change event) (change later)) : Comparable event later := by
  refine ⟨?_, (h.order event hcomparable.first).1, (h.order later hcomparable.second).1⟩
  rw [← h.sprint event, ← h.sprint later]
  exact hcomparable.sprint

theorem Rewrites.notAfter {event later : ScheduledEventRow}
    (hcomparable : Comparable (change event) (change later)) (hle : NotAfter event later) :
    NotAfter (change event) (change later) := by
  unfold NotAfter
  rw [(h.order event hcomparable.first).2, (h.order later hcomparable.second).2]
  exact hle

theorem Linked.rewrites (hdb : Linked db) :
    Linked { db with events := db.events.map change h.id, queue } := by
  intro event hevent
  obtain ⟨row, hrow, rfl⟩ := (Table.mem_map h.id).mp hevent
  rw [h.sprint]
  exact hdb row hrow

theorem OwnEvents.rewrites (hdb : OwnEvents db) :
    OwnEvents { db with events := db.events.map change h.id, queue } := by
  intro event hevent sprint hsprint hsame
  obtain ⟨row, hrow, rfl⟩ := (Table.mem_map h.id).mp hevent
  rw [h.sprint] at hsame
  rw [h.team]
  exact hdb row hrow sprint hsprint hsame

theorem Gone.rewrites {eventId : ℤ} (hgone : Gone db eventId) :
    Gone { db with events := db.events.map change h.id, queue } eventId := by
  refine ⟨hgone.1, ?_⟩
  show (db.events.map change h.id).get? eventId = none
  rw [Table.get?_map h.id, hgone.2]
  rfl

theorem Selected.rewrites {due : List ScheduledEventRow} (hdue : Selected db due) :
    Selected { db with events := db.events.map change h.id, queue } due := by
  refine ⟨hdue.distinct, hdue.below, hdue.sorted, fun event hevent row hrow hunmodified => ?_,
    fun hwait row hrow hid later hlater hwaits hout hcomparable => ?_⟩
  · rw [Table.get?_map h.id, Option.map_eq_some_iff] at hrow
    obtain ⟨old, hold, rfl⟩ := hrow
    obtain ⟨hwas, horder⟩ := h.order old hunmodified
    rw [horder]
    exact hdue.same event hevent old hold hwas
  · obtain ⟨oldRow, holdRow, rfl⟩ := (Table.mem_map h.id).mp hrow
    obtain ⟨oldLater, holdLater, rfl⟩ := (Table.mem_map h.id).mp hlater
    rw [h.id] at hid hout
    refine h.notAfter hcomparable (hdue.least (fun event hevent => ?_) oldRow holdRow hid oldLater
      holdLater (h.waits oldLater holdLater hwaits) hout (h.comparable hcomparable))
    obtain ⟨found, hfound, hfoundWaits⟩ := hwait event hevent
    rw [Table.get?_map h.id, Option.map_eq_some_iff] at hfound
    obtain ⟨old, hold, rfl⟩ := hfound
    exact ⟨old, hold, h.waits old (Table.get?_eq_some.mp hold).1 hfoundWaits⟩

theorem RequestKept.rewrites {request : InFlight} (hrequest : RequestKept db request) :
    RequestKept { db with events := db.events.map change h.id, queue } request := by
  cases request with
  | dispatch now due => exact Selected.rewrites h hrequest
  | cancel eventId => exact hrequest
  | modify | createSprint => trivial

/-- New entries of the queue for events that wait, and no longer do, in their order, and before the
other events of their sprints that wait. -/
theorem QueueKept.rewrites (ids : List ℤ) (hdb : QueueKept db)
    (hqueue : queue.filterMap (·.scheduledEventId) = db.queuedEvents ++ ids) (hids : ids.Nodup)
    (htaken : ∀ eventId ∈ ids, ∃ row, db.events.get? eventId = some row ∧ row.waits = true ∧
      (change row).waits = false)
    (hsorted : ids.Pairwise fun a b => ∀ event later, db.events.get? a = some event →
      db.events.get? b = some later → Comparable event later → NotAfter event later)
    (hleast : ∀ row ∈ db.events.rows, row.id ∈ ids → ∀ later ∈ db.events.rows,
      later.waits = true → later.id ∉ ids → Comparable row later → NotAfter row later) :
    QueueKept { db with events := db.events.map change h.id, queue } := by
  -- an event that is taken was waiting, and waits no longer
  have hwaits : ∀ eventId ∈ ids, ∀ row ∈ db.events.rows, row.id = eventId →
      row.waits = true ∧ (change row).waits = false := by
    intro eventId hid row hrow hkey
    obtain ⟨found, hfound, hfoundWaits⟩ := htaken eventId hid
    obtain ⟨hmem, hfoundKey⟩ := Table.get?_eq_some.mp hfound
    rw [Table.eq_of_key_eq hrow hmem (hkey.trans hfoundKey.symm)]
    exact hfoundWaits
  have hqueued : Database.queuedEvents
      { db with events := db.events.map change h.id, queue } = db.queuedEvents ++ ids := hqueue
  refine ⟨?_, ?_, ?_, ?_, ?_⟩
  · -- every queued event is a row
    rw [hqueued]
    intro eventId hmem
    rw [Table.get?_map h.id]
    rcases List.mem_append.mp hmem with hold | hnew
    · obtain ⟨row, hrow⟩ := hdb.present eventId hold
      exact ⟨change row, by rw [hrow]; rfl⟩
    · obtain ⟨row, hrow, -⟩ := htaken eventId hnew
      exact ⟨change row, by rw [hrow]; rfl⟩
  · -- no queued event waits
    rw [hqueued]
    intro event hevent hstill hmem
    obtain ⟨row, hrow, rfl⟩ := (Table.mem_map h.id).mp hevent
    rw [h.id] at hmem
    rcases List.mem_append.mp hmem with hold | hnew
    · exact hdb.waiting row hrow (h.waits row hrow hstill) hold
    · have hdone := (hwaits row.id hnew row hrow rfl).2
      rw [hstill] at hdone
      cases hdone
  · -- no event is queued twice
    rw [hqueued, List.nodup_append]
    refine ⟨hdb.once, hids, ?_⟩
    rintro a hold _ hnew rfl
    obtain ⟨row, hrow, hrowWaits, -⟩ := htaken a hnew
    obtain ⟨hmem, rfl⟩ := Table.get?_eq_some.mp hrow
    exact hdb.waiting row hmem hrowWaits hold
  · -- the queue is in order
    rw [hqueued, List.pairwise_append]
    have hget : ∀ {eventId : ℤ} {event : ScheduledEventRow},
        (db.events.map change h.id).get? eventId = some event →
          ∃ row, db.events.get? eventId = some row ∧ change row = event := by
      intro eventId event hevent
      rwa [Table.get?_map h.id, Option.map_eq_some_iff] at hevent
    refine ⟨hdb.ordered.imp ?_, hsorted.imp ?_, fun a ha b hb event later hevent hlater
      hcomparable => ?_⟩
    · intro a b hab event later hevent hlater hcomparable
      obtain ⟨row, hrow, rfl⟩ := hget hevent
      obtain ⟨rowLater, hrowLater, rfl⟩ := hget hlater
      exact h.notAfter hcomparable (hab row rowLater hrow hrowLater (h.comparable hcomparable))
    · intro a b hab event later hevent hlater hcomparable
      obtain ⟨row, hrow, rfl⟩ := hget hevent
      obtain ⟨rowLater, hrowLater, rfl⟩ := hget hlater
      exact h.notAfter hcomparable (hab row rowLater hrow hrowLater (h.comparable hcomparable))
    · -- an event that was queued before one that is taken now
      obtain ⟨row, hrow, rfl⟩ := hget hevent
      obtain ⟨rowLater, hrowLater, rfl⟩ := hget hlater
      obtain ⟨hmem, hkey⟩ := Table.get?_eq_some.mp hrow
      obtain ⟨hmemLater, hkeyLater⟩ := Table.get?_eq_some.mp hrowLater
      exact h.notAfter hcomparable (hdb.frontier row hmem (hkey ▸ ha) rowLater hmemLater
        (hwaits b hb rowLater hmemLater hkeyLater).1 (h.comparable hcomparable))
  · -- no waiting event precedes a queued one
    rw [hqueued]
    intro event hevent hmem later hlater hstill hcomparable
    obtain ⟨row, hrow, rfl⟩ := (Table.mem_map h.id).mp hevent
    obtain ⟨rowLater, hrowLater, rfl⟩ := (Table.mem_map h.id).mp hlater
    rw [h.id] at hmem
    have hlaterWaits := h.waits rowLater hrowLater hstill
    refine h.notAfter hcomparable ?_
    rcases List.mem_append.mp hmem with hold | hnew
    · exact hdb.frontier row hrow hold rowLater hrowLater hlaterWaits (h.comparable hcomparable)
    · refine hleast row hrow hnew rowLater hrowLater hlaterWaits (fun htaken => ?_)
        (h.comparable hcomparable)
      have hdone := (hwaits rowLater.id htaken rowLater hrowLater rfl).2
      rw [hstill] at hdone
      cases hdone

end rewrites

/-! ### Dispatching and modifying -/

theorem markDispatched_rewrites (db : Database) (due : List ScheduledEventRow) (now : ℤ) :
    Rewrites db (markDispatched due now) := by
  refine ⟨markDispatched_id due now, fun row => ?_, fun row => ?_, fun row hrow => ?_,
    fun row _ hwaits => ?_⟩
  · unfold markDispatched
    split_ifs <;> rfl
  · unfold markDispatched
    split_ifs <;> rfl
  · unfold markDispatched at hrow ⊢
    split_ifs at hrow ⊢
    · exact ⟨hrow, rfl⟩
    · exact ⟨hrow, rfl⟩
  · unfold markDispatched at hwaits
    split_ifs at hwaits
    · cases hwaits
    · exact hwaits

theorem modifyRow_rewrites {db : Database} {read : ScheduledEventRow} (body : ScheduledEventUpdate)
    (now : ℤ) (hwaits : StillWaits db read) :
    Rewrites db fun row => if row.id = read.id then modifyRow read body now row else row := by
  refine ⟨fun row => ?_, fun row => ?_, fun row => ?_, fun row hrow => ?_,
    fun row hrow hstill => ?_⟩
  · split_ifs <;> rfl
  · split_ifs <;> rfl
  · split_ifs <;> rfl
  · split_ifs at hrow ⊢
    · cases hrow
    · exact ⟨hrow, rfl⟩
  · split_ifs at hstill with hid
    · exact hwaits row (Table.get?_eq_some.mpr ⟨hrow, hid⟩)
    · exact hstill

theorem dueInOrder_perm (db : Database) (now : ℤ) : (db.dueInOrder now).Perm
    (db.events.rows.filter fun event => event.waits && decide (event.scheduledAt ≤ now)) :=
  Ordering.sortOn_perm dispatchOrder _

theorem mem_dueInOrder {db : Database} {now : ℤ} {event : ScheduledEventRow} :
    event ∈ db.dueInOrder now ↔
      event ∈ db.events.rows ∧ event.waits = true ∧ event.scheduledAt ≤ now := by
  rw [(dueInOrder_perm db now).mem_iff, List.mem_filter, Bool.and_eq_true, decide_eq_true_eq]

/-- The events that a dispatch has just read wait. -/
theorem stillWaits_dueEvents {db : Database} {now : ℤ} {event : ScheduledEventRow}
    (h : event ∈ db.dueEvents now) : StillWaits db event := by
  intro row hrow
  obtain ⟨hmem, hwaits, -⟩ := mem_dueInOrder.mp (List.mem_of_mem_take h)
  obtain ⟨hrowMem, hkey⟩ := Table.get?_eq_some.mp hrow
  rw [Table.eq_of_key_eq hrowMem hmem hkey]
  exact hwaits

/-- What a dispatch reads. -/
theorem selected_dueEvents (db : Database) (now : ℤ) : Selected db (db.dueEvents now) := by
  have hperm := dueInOrder_perm db now
  have hmem : ∀ event ∈ db.dueEvents now,
      event ∈ db.events.rows ∧ event.waits = true ∧ event.scheduledAt ≤ now :=
    fun event hevent => mem_dueInOrder.mp (List.mem_of_mem_take hevent)
  have hsorted : (db.dueInOrder now).Pairwise NotAfter := Ordering.sortOn_pairwise dispatchOrder _
  refine ⟨?_, fun event hevent => db.events.below event (hmem event hevent).1,
    hsorted.sublist (List.take_sublist _ _), fun event hevent row hrow _ => ?_,
    fun _ row hrow hid later hlater hwaits hout _ => ?_⟩
  · refine List.Nodup.sublist ((List.take_sublist _ _).map _) ?_
    rw [(hperm.map _).nodup_iff]
    exact db.events.distinct.sublist (List.filter_sublist.map _)
  · obtain ⟨hrowMem, hkey⟩ := Table.get?_eq_some.mp hrow
    rw [Table.eq_of_key_eq hrowMem (hmem event hevent).1 hkey]
  · obtain ⟨event, hevent, hkey⟩ := List.mem_map.mp hid
    obtain rfl : event = row := Table.eq_of_key_eq (hmem event hevent).1 hrow hkey
    by_cases hnow : later.scheduledAt ≤ now
    · -- a due event that is not taken is behind the batch
      have hrest : later ∈ (db.dueInOrder now).drop dispatchBatchSize := by
        have hall := mem_dueInOrder.mpr ⟨hlater, hwaits, hnow⟩
        rw [← List.take_append_drop dispatchBatchSize (db.dueInOrder now)] at hall
        rcases List.mem_append.mp hall with htaken | hrest
        · exact absurd (List.mem_map_of_mem htaken) hout
        · exact hrest
      rw [← List.take_append_drop dispatchBatchSize (db.dueInOrder now)] at hsorted
      exact (List.pairwise_append.mp hsorted).2.2 event hevent later hrest
    · have hlt : event.scheduledAt < later.scheduledAt := by
        have hdueEvent := (hmem event hevent).2.2
        omega
      unfold NotAfter dispatchOrder
      simp [Ordering.lexLe, hlt]

theorem readRequest_kept {db : Database} {request : Request} {inFlight : InFlight}
    (h : readRequest db request = .ok inFlight) : RequestKept db inFlight := by
  cases request with
  | dispatch now =>
    cases h
    exact selected_dueEvents db now
  | cancel eventId =>
    simp only [readRequest, bind_eq_ok, pure_eq_ok] at h
    obtain ⟨_, hread, rfl⟩ := h
    unfold readForCancel at hread
    cases hget : db.events.get? eventId with
    | none =>
      rw [hget] at hread
      cases hread
    | some event =>
      obtain ⟨hmem, rfl⟩ := Table.get?_eq_some.mp hget
      exact db.events.below event hmem
  | modify eventId body now =>
    simp only [readRequest, bind_eq_ok, pure_eq_ok] at h
    obtain ⟨_, -, rfl⟩ := h
    trivial
  | createSprint teamId now body =>
    simp only [readRequest, bind_eq_ok, pure_eq_ok] at h
    obtain ⟨_, -, rfl⟩ := h
    trivial

/-- A dispatch whose events still wait puts each of them into the queue. -/
theorem QueueKept.dispatch {db db' : Database} {now : ℤ} {due : List ScheduledEventRow}
    (hdb : QueueKept db) (hdue : Selected db due) (hwaits : ∀ event ∈ due, StillWaits db event)
    (h : commitDispatch db now due = .ok db') : QueueKept db' := by
  unfold commitDispatch at h
  split_ifs at h with hall
  cases h
  have hfound : ∀ event ∈ due, ∃ row, db.events.get? event.id = some row ∧ row.waits = true := by
    intro event hevent
    obtain ⟨row, hrow⟩ := Option.isSome_iff_exists.mp (List.all_eq_true.mp hall event hevent)
    exact ⟨row, hrow, hwaits event hevent row hrow⟩
  refine QueueKept.rewrites (markDispatched_rewrites db due now) (due.map (·.id)) hdb ?_
    hdue.distinct (fun eventId hid => ?_) ?_ (hdue.least hfound)
  · rw [List.filterMap_append]
    congr 1
    rw [List.filterMap_map]
    rw [← List.filterMap_eq_map]
    rfl
  · obtain ⟨event, hevent, rfl⟩ := List.mem_map.mp hid
    obtain ⟨row, hrow, hrowWaits⟩ := hfound event hevent
    refine ⟨row, hrow, hrowWaits, ?_⟩
    have hkey : row.id ∈ due.map (·.id) := (Table.get?_eq_some.mp hrow).2 ▸ hid
    unfold markDispatched
    rw [if_pos hkey]
    rfl
  · rw [List.pairwise_map]
    refine List.Pairwise.imp_of_mem ?_ hdue.sorted
    intro a b ha hb hab event later hevent hlater hcomparable
    unfold NotAfter
    rw [hdue.same a ha event hevent hcomparable.first,
      hdue.same b hb later hlater hcomparable.second]
    exact hab

/-! ### Runs -/

/-- What the service keeps. -/
structure ServiceKept (s : Service) : Prop where
  linked : Linked s.db
  own : OwnEvents s.db
  queue : QueueKept s.db
  requests : ∀ request ∈ s.inFlight, RequestKept s.db request
  cancelled : ∀ eventId ∈ s.cancelled, Gone s.db eventId

theorem ServiceKept.queued {s : Service} (h : ServiceKept s) : DispatchedOnce s := by
  refine ⟨h.queue.once, fun eventId hcancelled hqueued => ?_, h.queue.ordered⟩
  obtain ⟨event, hevent⟩ := h.queue.present eventId hqueued
  rw [(h.cancelled eventId hcancelled).2] at hevent
  cases hevent

theorem commitCreate_changes {library : StandardLibrary} {fuel : ℕ} {db db' : Database}
    {teamId now start finish : ℤ} {body : SprintCreateRequest} (hlinked : Linked db)
    (h : commitCreate library fuel db teamId now body start finish = .ok (some db')) :
    Changes db db' := by
  unfold commitCreate at h
  by_cases hsimulate : body.simulate = true
  · rw [if_pos hsimulate] at h
    exact computeAndSchedule_changes hlinked (orRaise_eq_ok.mp h)
  · rw [if_neg hsimulate] at h
    cases hteam : db.team teamId with
    | none =>
      rw [hteam] at h
      cases h
    | some team =>
      rw [hteam] at h
      simp only [bind_eq_ok, pure_eq_ok, orRaise_eq_ok] at h
      obtain ⟨⟨created, sprint⟩, hcreate, hnext⟩ := h
      cases hnext
      exact .single (createNextSprint_changes hcreate)

/-- The events that a query deletes are gone. -/
theorem gone_of_deleted {db db' : Database} {selects : ScheduledEventRow → Bool}
    (h : db.deleteEvents selects = .ok db') {eventId : ℤ} (hbelow : eventId < db.events.next)
    (hselects : ∀ event, db.events.get? eventId = some event → selects event = true) :
    Gone db' eventId := by
  obtain ⟨-, rfl⟩ := deleteEvents_eq_ok h
  refine ⟨hbelow, ?_⟩
  show (db.events.filter _).get? eventId = none
  rw [Table.get?_filter]
  cases hget : db.events.get? eventId with
  | none => rfl
  | some event => simp [hselects event hget]

theorem Changes.linked {db db' : Database} (h : Changes db db') (hlinked : Linked db) :
    Linked db' :=
  h.keeps hlinked fun _ _ hchange => hchange.linked

theorem Changes.ownEvents {db db' : Database} (h : Changes db db') (hlinked : Linked db)
    (hown : OwnEvents db) : OwnEvents db' := by
  have hboth : Linked db' ∧ OwnEvents db' :=
    h.keeps (I := fun db => Linked db ∧ OwnEvents db) ⟨hlinked, hown⟩ fun _ _ hchange hkept =>
      ⟨hchange.linked hkept.1, hchange.ownEvents hkept.1 hkept.2⟩
  exact hboth.2

/-- A step that keeps the events, and whose cancelled events are gone. -/
theorem ServiceKept.keepsEvents {s : Service} {db : Database} {inFlight : List InFlight}
    {cancelled : List ℤ} (h : ServiceKept s) (hkept : KeepsEvents s.db db) (hlinked : Linked db)
    (hown : OwnEvents db) (hinFlight : inFlight ⊆ s.inFlight)
    (hcancelled : ∀ eventId ∈ cancelled, Gone db eventId) :
    ServiceKept { db, inFlight, cancelled := s.cancelled ++ cancelled } := by
  refine ⟨hlinked, hown, h.queue.keepsEvents hkept, fun request hrequest => ?_,
    fun eventId hid => ?_⟩
  · exact RequestKept.keepsEvents hkept (h.requests request (hinFlight hrequest))
  · rcases List.mem_append.mp hid with hold | hnew
    · exact Gone.keepsEvents hkept (h.cancelled eventId hold)
    · exact hcancelled eventId hnew

/-- A step that rewrites rows and puts some of them into the queue. -/
theorem ServiceKept.rewrites {s : Service} {change : ScheduledEventRow → ScheduledEventRow}
    {queue : List QueueRow} {inFlight : List InFlight} (h : ServiceKept s)
    (hchange : Rewrites s.db change)
    (hqueue : QueueKept { s.db with events := s.db.events.map change hchange.id, queue })
    (hinFlight : inFlight ⊆ s.inFlight) :
    ServiceKept {
      db := { s.db with events := s.db.events.map change hchange.id, queue }
      inFlight, cancelled := s.cancelled ++ [] } := by
  refine ⟨h.linked.rewrites hchange, h.own.rewrites hchange, hqueue, fun request hrequest => ?_,
    fun eventId hid => ?_⟩
  · exact RequestKept.rewrites hchange (h.requests request (hinFlight hrequest))
  · rw [List.append_nil] at hid
    exact Gone.rewrites hchange (h.cancelled eventId hid)

theorem recompute_links {library : StandardLibrary} {fuel : ℕ} {db db' : Database}
    {teamId sprintId rngSeed : ℤ} (hlinked : Linked db) (hown : OwnEvents db)
    (hteam : ∀ sprint, db.sprints.get? sprintId = some sprint → sprint.teamId = teamId)
    (h : recomputeSprintSchedule library fuel db teamId sprintId rngSeed = .ok (some db')) :
    Linked db' ∧ OwnEvents db' := by
  obtain ⟨team, sprint, cleared, steps, finalStep, result, hget, hsprint, hcleared, -, -, rfl⟩ :=
    recompute_eq_ok h
  have hchanges := deleteEvents_changes hcleared
  obtain ⟨-, rfl⟩ := deleteEvents_eq_ok hcleared
  have hmem := (Table.get?_eq_some.mp hsprint).1
  constructor
  · intro event hevent
    refine exists_updateSprint.mpr ?_
    rcases mem_storeSchedule_events hevent with hold | ⟨data, -, id, -, rfl⟩
    · exact hchanges.linked hlinked event hold
    · exact ⟨sprint, hmem, rfl⟩
  · refine (hchanges.ownEvents hlinked hown).storeSchedule ⟨sprint, hmem, rfl, ?_⟩ result
    rw [team_id hget]
    exact hteam sprint hsprint

theorem commitDispatch_eq_ok {db db' : Database} {now : ℤ} {due : List ScheduledEventRow}
    (h : commitDispatch db now due = .ok db') :
    db' = { db with
      events := db.events.map (markDispatched due now) (markDispatched_id due now)
      queue := db.queue ++ due.map enqueueEvent } := by
  unfold commitDispatch at h
  split_ifs at h
  cases h
  rfl

theorem ServiceKept.commit {library : StandardLibrary} {fuel : ℕ} {s : Service} {place : ℕ}
    {request : InFlight} {db : Database} (h : ServiceKept s)
    (hrequest : s.inFlight[place]? = some request) (hok : CommitsWaiting s.db request)
    (hcommit : commitRequest library fuel s.db request = .ok (some db)) :
    ServiceKept {
      db, inFlight := s.inFlight.eraseIdx place
      cancelled := s.cancelled ++ cancelledBy s (.commit place) } := by
  have hin := h.requests request (List.mem_of_getElem? hrequest)
  have hrest : s.inFlight.eraseIdx place ⊆ s.inFlight := List.eraseIdx_subset
  cases request with
  | dispatch now due =>
    simp only [commitRequest, bind_eq_ok, pure_eq_ok] at hcommit
    obtain ⟨next, hcommit, hnext⟩ := hcommit
    cases hnext
    have hqueue := h.queue.dispatch hin hok hcommit
    have hnone : cancelledBy s (.commit place) = [] := by simp only [cancelledBy, hrequest]
    rw [hnone]
    rw [commitDispatch_eq_ok hcommit] at hqueue ⊢
    exact h.rewrites (markDispatched_rewrites s.db due now) hqueue hrest
  | modify read body now =>
    simp only [commitRequest, bind_eq_ok, pure_eq_ok] at hcommit
    obtain ⟨next, hcommit, hnext⟩ := hcommit
    cases hnext
    unfold commitModify at hcommit
    split_ifs at hcommit
    cases hcommit
    have hchange := modifyRow_rewrites body now hok
    have hqueue : QueueKept { s.db with
        events := s.db.events.map _ hchange.id, queue := s.db.queue } :=
      QueueKept.rewrites hchange [] h.queue (List.append_nil _).symm .nil
        (fun _ hid => absurd hid List.not_mem_nil) .nil
        (fun _ _ hid => absurd hid List.not_mem_nil)
    have hnone : cancelledBy s (.commit place) = [] := by simp only [cancelledBy, hrequest]
    rw [hnone]
    exact h.rewrites hchange hqueue hrest
  | cancel eventId =>
    simp only [commitRequest, bind_eq_ok, pure_eq_ok] at hcommit
    obtain ⟨next, hcommit, hnext⟩ := hcommit
    cases hnext
    have hchanges := deleteEvents_changes hcommit
    refine h.keepsEvents hchanges.keepsEvents (hchanges.linked h.linked)
      (hchanges.ownEvents h.linked h.own) hrest fun cancelled hcancelled => ?_
    simp only [cancelledBy, hrequest, List.mem_singleton] at hcancelled
    subst hcancelled
    -- the event that is cancelled is gone
    refine gone_of_deleted hcommit hin fun event hevent => ?_
    exact decide_eq_true (Table.get?_eq_some.mp hevent).2
  | createSprint teamId now body start finish =>
    have hchanges := commitCreate_changes h.linked hcommit
    have hnone : cancelledBy s (.commit place) = [] := by simp only [cancelledBy, hrequest]
    rw [hnone]
    exact h.keepsEvents hchanges.keepsEvents (hchanges.linked h.linked)
      (hchanges.ownEvents h.linked h.own) hrest fun _ hid => absurd hid List.not_mem_nil

theorem ServiceKept.run {library : StandardLibrary} {fuel : ℕ} {s : Service} {action : Action}
    {db : Database} (h : ServiceKept s) (hnot : ∀ place, action ≠ .commit place)
    (hok : DispatchStep library fuel s action)
    (hrun : runAction library fuel s.db action = .ok (some db)) :
    ServiceKept { s with db, cancelled := s.cancelled ++ cancelledBy s action } := by
  by_cases hrecompute : ∃ teamId sprintId rngSeed, action = .recompute teamId sprintId rngSeed
  · obtain ⟨teamId, sprintId, rngSeed, rfl⟩ := hrecompute
    obtain ⟨hlinked, hown⟩ := recompute_links h.linked h.own hok.team hrun
    exact h.keepsEvents (recompute_keepsEvents h.own hok hrun) hlinked hown
      (List.Subset.refl _) nofun
  · have hchanges : Changes s.db db := by
      refine runAction_changes h.linked (fun teamId sprintId rngSeed hsame => ?_) hrun
      exact hrecompute ⟨teamId, sprintId, rngSeed, hsame⟩
    refine h.keepsEvents hchanges.keepsEvents (hchanges.linked h.linked)
      (hchanges.ownEvents h.linked h.own) (List.Subset.refl _) fun eventId hid => ?_
    cases action with
    | cancelAll teamId sprintId =>
      simp only [runAction, map_eq_ok] at hrun
      obtain ⟨next, hrun, hnext⟩ := hrun
      cases hnext
      obtain ⟨event, hevent, rfl⟩ := List.mem_map.mp hid
      obtain ⟨hmem, hwaits⟩ := List.mem_filter.mp hevent
      refine gone_of_deleted hrun (s.db.events.below event hmem) fun found hfound => ?_
      obtain ⟨hfoundMem, hkey⟩ := Table.get?_eq_some.mp hfound
      rw [Table.eq_of_key_eq hfoundMem hmem hkey]
      exact hwaits
    | commit place => exact absurd rfl (hnot place)
    | _ => cases hid

/-- In the runs whose commits write events that still wait, and whose schedules are not computed
again behind their dispatched events, the queue has each event once, no cancelled one, and the
events of a sprint in their order. -/
theorem dispatchedOnce {library : StandardLibrary} {fuel : ℕ} {s : Service}
    (h : (serviceRuns library fuel).ReachableBy (fun _ => True)
      (WhenCommitted library fuel (DispatchStep library fuel)) s) :
    DispatchedOnce s := by
  refine ServiceKept.queued (h.invariant ?_ ?_)
  · rintro ⟨teams, issues⟩ s rfl -
    -- a new service has no event
    have hnone : ∀ event, event ∉ (Service.start teams issues).db.events.rows :=
      fun _ => List.not_mem_nil
    have hempty : (Service.start teams issues).db.queuedEvents = [] := rfl
    refine ⟨fun event hevent => absurd hevent (hnone event),
      fun event hevent => absurd hevent (hnone event), ?_,
      fun _ hrequest => absurd hrequest List.not_mem_nil,
      fun _ hid => absurd hid List.not_mem_nil⟩
    refine ⟨?_, fun event hevent => absurd hevent (hnone event), ?_, ?_,
      fun event hevent => absurd hevent (hnone event)⟩
    · rw [hempty]
      exact fun _ hid => absurd hid List.not_mem_nil
    · rw [hempty]
      exact .nil
    · rw [hempty]
      exact .nil
  · rintro s action _ - hkept hok rfl
    have hstep := stepped library fuel s action
    generalize s.step library fuel action = s' at hstep
    cases hstep with
    | idle => exact hkept
    | read request inFlight hread =>
      refine ⟨hkept.linked, hkept.own, hkept.queue, fun request hrequest => ?_, hkept.cancelled⟩
      rcases List.mem_append.mp hrequest with hold | hnew
      · exact hkept.requests request hold
      · rw [List.mem_singleton.mp hnew]
        exact readRequest_kept hread
    | drop place =>
      exact ⟨hkept.linked, hkept.own, hkept.queue,
        fun request hrequest => hkept.requests request (List.eraseIdx_subset hrequest),
        hkept.cancelled⟩
    | commit place request db hrequest hcommit =>
      exact hkept.commit hrequest (hok ⟨request, db, hrequest, hcommit⟩ request hrequest) hcommit
    | run action db hnot hrun => exact hkept.run hnot (hok (commits_of_run hnot hrun)) hrun

/-! ### Two dispatches -/

/-- A dispatch that is written before anything else is read writes waiting events. -/
theorem dispatchStep_of_read {library : StandardLibrary} {fuel : ℕ} {s : Service} {now : ℤ}
    (hnone : s.inFlight.isEmpty = true) :
    DispatchStep library fuel (s.step library fuel (.read (.dispatch now))) (.commit 0) := by
  have hread : (s.step library fuel (.read (.dispatch now))).inFlight =
      s.inFlight ++ [.dispatch now (s.db.dueEvents now)] := rfl
  intro request hrequest
  rw [hread, List.isEmpty_iff.mp hnone] at hrequest
  cases hrequest
  exact fun event hevent => stillWaits_dueEvents hevent

/-- A cancellation writes no event. -/
theorem dispatchStep_of_cancel {library : StandardLibrary} {fuel : ℕ} {s : Service} {eventId : ℤ}
    (hnone : s.inFlight.isEmpty = true) :
    DispatchStep library fuel (s.step library fuel (.read (.cancel eventId))) (.commit 0) := by
  have hempty : s.inFlight = [] := List.isEmpty_iff.mp hnone
  intro request hrequest
  unfold Service.step at hrequest
  dsimp only at hrequest
  split at hrequest
  · rename_i inFlight hread
    simp only [readRequest, bind_eq_ok, pure_eq_ok] at hread
    obtain ⟨-, -, rfl⟩ := hread
    rw [hempty] at hrequest
    cases hrequest
    trivial
  · rw [hempty] at hrequest
    cases hrequest

/-- A sprint of one day is precomputed, and its first events are dispatched an hour later. -/
def firstDispatch : List Action := [
  .precompute 1 0 (9 * microsecondsPerHour), .read (.dispatch (10 * microsecondsPerHour)),
  .commit 0]

/-- The sprint of the second day is precomputed, its last event is cancelled, and all others are
dispatched. -/
def secondDispatch : List Action := [
  .precompute 1 0 (33 * microsecondsPerHour), .read (.cancel 6), .commit 0,
  .read (.dispatch (2 * microsecondsPerDay)), .commit 0]

theorem dispatchedOnce_day :
    let s := serve leastDraws 3 (dayService 2) (firstDispatch ++ secondDispatch)
    s.db.queuedEvents = [1, 2, 3, 4, 5] ∧ s.cancelled = [6] ∧ DispatchedOnce s := by
  refine ⟨by decide +kernel, by decide +kernel, dispatchedOnce (serve_reachableBy leastDraws 3 _
    (dayService_start leastDraws 3 2 _) ⟨fun _ => trivial, fun _ => trivial, fun _ => ?_,
      fun _ => trivial, fun _ => trivial, fun _ => ?_, fun _ => trivial, fun _ => ?_, trivial⟩)⟩
  · exact dispatchStep_of_read (by decide +kernel)
  · exact dispatchStep_of_cancel (by decide +kernel)
  · exact dispatchStep_of_read (by decide +kernel)

/-- Two dispatches read the events of the sprint, before either of them has written them. -/
def dispatchTwice : List Action := [
  .precompute 1 0 (9 * microsecondsPerHour), .read (.dispatch microsecondsPerDay),
  .read (.dispatch microsecondsPerDay), .commit 0, .commit 0]

/-- The second dispatch puts the events into the queue again. -/
theorem dispatchedTwice :
    ∃ s, (serviceRuns leastDraws 3).Reachable s ∧ ¬ DispatchedOnce s := by
  refine ⟨serve leastDraws 3 (dayService 1) dispatchTwice,
    serve_reachable leastDraws 3 _ (dayService_start leastDraws 3 1 fun _ _ => True),
    fun h => ?_⟩
  have hagain : ¬ (serve leastDraws 3 (dayService 1) dispatchTwice).db.queuedEvents.Nodup := by
    decide +kernel
  exact hagain h.once

end JiraSimulator.Engine
