import JiraSimulator.Engine.EventDispatcher
import JiraSimulator.Integrations.JiraWriteQueue

/-!
# The event auditor

A dispatch adds a row to the audit log with each entry that it enqueues, and an audit later looks up
what became of the entries.  Dispatches, audits and the steps of the write queue come in any order.
* `verifyOne`, `State.runAudit`: the audit, which writes all the rows that it fetched or none.
* `system`: the transition system of the write queue and its audit log.
-/

namespace JiraSimulator.EventAudit

open Engine Library Library.Transition WriteQueue

/-! ### Rows -/

inductive VerificationStatus where
  | pending
  | verified
  | failed
  | timeout
  deriving DecidableEq, Repr

structure EventAuditLog where
  id : ℤ
  scheduledEventId : ℤ
  jiraQueueEntryId : Option String
  expectedAt : ℤ
  dispatchedAt : Option ℤ
  verifiedAt : Option ℤ
  verificationStatus : VerificationStatus
  failureReason : Option String
  alertSent : Bool
  deriving DecidableEq, Repr

/-- `timedelta(minutes=count)`. -/
def minutes (count : ℤ) : ℤ := count * 60000000

/-- `VERIFICATION_DELAY_MINUTES`. -/
def verificationDelayMinutes : ℤ := 15

/-- `TIMEOUT_MINUTES`. -/
def timeoutMinutes : ℤ := 60

/-- `AUDIT_BATCH_SIZE`. -/
def auditBatchSize : ℕ := 100

/-! ### The audit of one row -/

/-- What `_verify_one` returns. -/
inductive AuditResult where
  | verified
  | failed
  | timeout
  deriving DecidableEq, Repr

/-- The entry of the queue that a row refers to. -/
def EventAuditLog.queueEntry (audit : EventAuditLog) (entries : List Entry) : Option Entry :=
  match audit.jiraQueueEntryId with
  | some id => if id = "" then none else entries.find? fun e => e.id = id
  | none => none

/-- `_maybe_send_alert`. -/
def EventAuditLog.maybeSendAlert (audit : EventAuditLog) : EventAuditLog :=
  { audit with alertSent := true }

/-- A `DateTime` column gives an instant back without its zone. -/
def stored (instant : ℤ) : Moment :=
  { instant, aware := false }

/-- `a <= b`, which raises for a `datetime` with a zone and one without. -/
def notAfter (a b : Moment) : Result Bool :=
  if a.aware = b.aware then .ok (a.instant ≤ b.instant)
  else .error (.typeError "can't compare offset-naive and offset-aware datetimes")

/-- The check for a timeout at the end of `_verify_one`. -/
def checkTimeout (now timeoutCutoff : ℤ) (audit : EventAuditLog) :
    Result (EventAuditLog × AuditResult) :=
  match audit.dispatchedAt with
  | some dispatchedAt => do
    if ← notAfter (stored dispatchedAt) (.utc timeoutCutoff) then
      let settled := { audit with
        verificationStatus := .timeout
        verifiedAt := some now
        failureReason := some "Event was not processed within timeout" }
      return (settled.maybeSendAlert, .timeout)
    else return (audit, .verified)
  | none => return (audit, .verified)

/-- `queue_entry.last_error or "Jira write failed"`. -/
def failureText (lastError : Option String) : String :=
  let text := lastError.getD ""
  if text = "" then "Jira write failed" else text

/-- `_verify_one`: the row that it leaves, with what it returns. -/
def verifyOne (entries : List Entry) (timeoutCutoff now : ℤ) (audit : EventAuditLog) :
    Result (EventAuditLog × AuditResult) :=
  match audit.queueEntry entries with
  | some entry =>
    match entry.status with
    | .done =>
      let settled := { audit with verificationStatus := .verified, verifiedAt := some now }
      return (settled, .verified)
    | .failed =>
      let settled := { audit with
        verificationStatus := .failed
        verifiedAt := some now
        failureReason := some (failureText entry.lastError) }
      return (settled.maybeSendAlert, .failed)
    | .pending | .inFlight | .skipped => checkTimeout now timeoutCutoff audit
  | none => checkTimeout now timeoutCutoff audit

theorem id_of_checkTimeout {now timeoutCutoff : ℤ} {audit : EventAuditLog}
    {settled : EventAuditLog × AuditResult}
    (h : checkTimeout now timeoutCutoff audit = .ok settled) : settled.1.id = audit.id := by
  unfold checkTimeout at h
  split at h
  · simp only [Outcome.bind_eq_ok] at h
    obtain ⟨late, -, h⟩ := h
    split_ifs at h
    all_goals
      obtain rfl := Except.ok.inj h
      rfl
  · obtain rfl := Except.ok.inj h
    rfl

theorem id_of_verifyOne {entries : List Entry} {timeoutCutoff now : ℤ} {audit : EventAuditLog}
    {settled : EventAuditLog × AuditResult}
    (h : verifyOne entries timeoutCutoff now audit = .ok settled) : settled.1.id = audit.id := by
  unfold verifyOne at h
  split at h
  · split at h
    · obtain rfl := Except.ok.inj h
      rfl
    · obtain rfl := Except.ok.inj h
      rfl
    all_goals exact id_of_checkTimeout h
  · exact id_of_checkTimeout h

/-! ### Summaries -/

/-- The counts of `run_audit`. -/
structure AuditCounts where
  verified : ℕ
  failed : ℕ
  timeout : ℕ
  deriving DecidableEq, Repr

def auditCounts (results : List AuditResult) : AuditCounts where
  verified := results.count .verified
  failed := results.count .failed
  timeout := results.count .timeout

/-- What `get_audit_summary` returns. -/
structure AuditSummary where
  total : ℕ
  pending : ℕ
  dispatched : ℕ
  verified : ℕ
  failed : ℕ
  timeout : ℕ
  failures : List EventAuditLog
  deriving DecidableEq, Repr

def countStatus (status : VerificationStatus) (audits : List EventAuditLog) : ℕ :=
  audits.countP fun audit => audit.verificationStatus = status

/-- `get_audit_summary`, with the identifiers of the events of the sprint. -/
def getAuditSummary (eventIds : List ℤ) (audits : List EventAuditLog) : AuditSummary :=
  if eventIds.isEmpty then
    { total := 0, pending := 0, dispatched := 0, verified := 0, failed := 0, timeout := 0
      failures := [] }
  else
    let audits := audits.filter fun audit => audit.scheduledEventId ∈ eventIds
    let verified := countStatus .verified audits
    let failed := countStatus .failed audits
    let timeout := countStatus .timeout audits
    { total := audits.length
      pending := countStatus .pending audits
      -- a pending row is not counted as dispatched
      dispatched := verified + failed + timeout
      verified
      failed
      timeout
      failures := audits.filter fun audit =>
        audit.verificationStatus = .failed || audit.verificationStatus = .timeout }

/-! ### Operations -/

/-- The write queue, and the audit log. -/
structure State where
  queue : WriteQueue.State
  audits : Table EventAuditLog.id

/-- An event that a dispatch has read, with the identifier and the time that its entry gets. -/
structure DueEvent where
  event : ScheduledEventRow
  entryId : String
  createdAt : ℤ

/-- The entry that `_enqueue_event` adds. -/
def DueEvent.entry (due : DueEvent) : NewEntry :=
  let row := enqueueEvent due.event
  { id := due.entryId
    now := due.createdAt
    teamId := row.teamId
    operationType := row.operationType
    payload := row.payload
    issueId := row.issueId
    scheduledEventId := row.scheduledEventId }

/-- The later one of two entries, the second one of two at the same time. -/
def laterEntry (latest : Option Entry) (entry : Entry) : Option Entry :=
  match latest with
  | some other => if other.createdAt ≤ entry.createdAt then some entry else some other
  | none => some entry

/-- The entry that `_enqueue_event` finds: the latest one of the event. -/
def latestEntry (entries : List Entry) (eventId : ℤ) : Option Entry :=
  (entries.filter fun e => e.scheduledEventId = some eventId).foldl laterEntry none

/-- The row of the audit log for an event. -/
def newAudit (now : ℤ) (event : ScheduledEventRow) (entryId : Option String) (id : ℤ) :
    EventAuditLog where
  id := id
  scheduledEventId := event.id
  jiraQueueEntryId := entryId
  expectedAt := event.scheduledAt
  dispatchedAt := some now
  verifiedAt := none
  verificationStatus := .pending
  failureReason := none
  alertSent := false

/-- The step of `dispatch_due_events` for one event. -/
def State.dispatchOne (now : ℤ) (s : State) (due : DueEvent) : State :=
  let queue := s.queue.enqueue due.entry
  -- the id is read back from the queue, not kept from the insert
  let entryId := (latestEntry queue.entries due.event.id).map (·.id)
  { queue, audits := s.audits.insert (newAudit now due.event entryId) fun _ => rfl }

/-- The commit of `dispatch_due_events`. -/
def State.dispatch (s : State) (now : ℤ) (due : List DueEvent) : State :=
  due.foldl (State.dispatchOne now) s

/-- The filter of an audit. -/
def auditable (now : ℤ) (audit : EventAuditLog) : Bool :=
  audit.verificationStatus = .pending &&
    match audit.dispatchedAt with
    | some dispatchedAt => decide (dispatchedAt ≤ now - minutes verificationDelayMinutes)
    | none => false

/-- A list that the query of an audit may return: it has a limit and no order. -/
def IsAuditBatch (audits : List EventAuditLog) (now : ℤ) (batch : List EventAuditLog) : Prop :=
  ∃ rest, (batch ++ rest).Perm (audits.filter (auditable now)) ∧
    batch.length = min auditBatchSize (audits.filter (auditable now)).length

/-- The changed rows are written. -/
def writeBack (audits : Table EventAuditLog.id) (written : List EventAuditLog) :
    Table EventAuditLog.id :=
  audits.map (fun row => (Keyed.lookup EventAuditLog.id written row.id).getD row) fun row => by
    cases h : Keyed.lookup EventAuditLog.id written row.id with
    | none => rfl
    | some other => exact (Keyed.mem_of_lookup EventAuditLog.id h).2

/-- `run_audit` over the rows that it fetched, each with the time of its check.  An exception rolls
all of them back. -/
def State.runAudit (s : State) (now : ℤ) (fetched : List (EventAuditLog × ℤ)) :
    State × Result AuditCounts :=
  let timeoutCutoff := now - minutes timeoutMinutes
  match fetched.mapM fun row => verifyOne s.queue.entries timeoutCutoff row.2 row.1 with
  | .ok settled =>
    ({ s with audits := writeBack s.audits (settled.map (·.1)) },
      .ok (auditCounts (settled.map (·.2))))
  | .error error => (s, .error error)

/-! ### Runs -/

inductive Event where
  | queue (event : WriteQueue.Event)
  | dispatch (now : ℤ) (due : List DueEvent)
  | audit (now : ℤ) (fetched : List (EventAuditLog × ℤ))

variable (library : PythonLibrary)

/-- The state after an event; `none` when the event cannot come. -/
def State.next (workflow : String → String → String) (s : State) : Event → Option State
  | .queue event => (s.queue.next library workflow event).map fun queue => { s with queue }
  | .dispatch now due => some (s.dispatch now due)
  | .audit now fetched => some (s.runAudit now fetched).1

/-- What the database and Jira promise. -/
def Possible (workflow : String → String → String) (s : State) : Event → Prop
  | .queue event => WriteQueue.Possible workflow s.queue event
  | .dispatch _ due => (due.map (·.entryId)).Nodup ∧
      ∀ event ∈ due, s.queue.find event.entryId = none
  | .audit now fetched => IsAuditBatch s.audits.rows now (fetched.map (·.1)) ∧
      ∀ row ∈ fetched, now ≤ row.2

/-- The write queue with its audit log. -/
def system (workflow : String → String → String) :
    System (List LocalIssue × List LocalSprint × (String → String)) State Event where
  start i s := s = { queue := initial i.1 i.2.1 i.2.2, audits := .empty _ }
  step s e s' := Possible workflow s e ∧ s.next library workflow e = some s'

end JiraSimulator.EventAudit
