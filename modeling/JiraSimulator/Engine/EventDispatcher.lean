import JiraSimulator.Engine.Database

/-!
# The event dispatcher

A dispatch reads the events that are due and later commits their entries in the write queue together
with their new status.
-/

namespace JiraSimulator.Engine

open Library

/-- `DISPATCH_BATCH_SIZE`. -/
def dispatchBatchSize : ℕ := 50

/-- The order in which the dispatcher takes events. -/
def dispatchOrder (event : ScheduledEventRow) : List ℤ :=
  [event.scheduledAt, event.sequenceOrder]

/-- The events that wait and are due, in their order. -/
def Database.dueInOrder (db : Database) (now : ℤ) : List ScheduledEventRow :=
  Ordering.sortOn dispatchOrder
    (db.events.rows.filter fun event => event.waits && decide (event.scheduledAt ≤ now))

/-- The events that `dispatch_due_events` reads. -/
def Database.dueEvents (db : Database) (now : ℤ) : List ScheduledEventRow :=
  (db.dueInOrder now).take dispatchBatchSize

/-- `_enqueue_event`: the entry of an event, with the values that were read. -/
def enqueueEvent (event : ScheduledEventRow) : QueueRow where
  teamId := event.teamId
  operationType := event.eventType
  payload := event.payload
  issueId := event.issueId
  scheduledEventId := some event.id

/-- The columns that a dispatch writes. -/
def markDispatched (due : List ScheduledEventRow) (now : ℤ) (row : ScheduledEventRow) :
    ScheduledEventRow :=
  if row.id ∈ due.map (·.id) then { row with status := .dispatched, dispatchedAt := some now }
  else row

theorem markDispatched_id (due : List ScheduledEventRow) (now : ℤ) (row : ScheduledEventRow) :
    (markDispatched due now row).id = row.id := by
  unfold markDispatched
  split_ifs <;> rfl

/-- The commit of `dispatch_due_events`.  The entries refer to their events, so that an event which
is gone fails the whole batch; a changed status does not. -/
def commitDispatch (db : Database) (now : ℤ) (due : List ScheduledEventRow) : Response Database :=
  if due.all fun event => (db.events.get? event.id).isSome then
    .ok { db with
      events := db.events.map (markDispatched due now) (markDispatched_id due now)
      queue := db.queue ++ due.map enqueueEvent }
  else .error (.raised (.integrityError "scheduled_event_id"))

end JiraSimulator.Engine
