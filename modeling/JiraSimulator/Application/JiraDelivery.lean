import JiraSimulator.Library.Transition
import JiraSimulator.Persistence.JiraDeliveryStore

/-!
# Workers that deliver the committed intents

`drain_once` alternates between the store and the adapter: it reads the pending intents, asks the
adapter to deliver each of them, and records the outcome.  A worker is the state of such a call
between two of these interactions.  Any number of workers run at once, an adapter call can end in
any way, and a worker can stop at any point; `deliveryRuns` is the transition system of all runs.
-/

namespace JiraSimulator

open Library Library.Transition

/-! ### One call -/

/-- The local variables of one call of `drain_once`. -/
structure Drain where
  asOf : ℤ
  limit : ℤ
  attempted : ℕ := 0
  delivered : ℕ := 0
  failed : ℕ := 0
  processed : List IntentId := []

/-- How a call of the adapter ends. -/
inductive AdapterOutcome where
  | delivered (success : JiraDeliverySuccess)
  /-- `JiraDeliveryRateLimitError`, with the time to wait. -/
  | rateLimited (retryAfter : ℤ) (message : String)
  /-- `JiraDeliveryProviderError`. -/
  | providerError (message : String)
  /-- Any other exception. -/
  | raised (error : PyError)

/-- What a worker records in the store. -/
inductive DeliveryReport where
  | success (result : JiraDeliverySuccess)
  | failure (result : JiraDeliveryFailure)

/-- A worker between two interactions. -/
inductive WorkerState where
  | idle
  | polling (drain : Drain)
  | delivering (drain : Drain) (item : PendingJiraIntent) (rest : List PendingJiraIntent)
  | recording (drain : Drain) (item : PendingJiraIntent) (rest : List PendingJiraIntent)
      (report : DeliveryReport)

/-- `while attempted < limit`. -/
def Drain.continue (drain : Drain) : WorkerState :=
  if drain.attempted < drain.limit then .polling drain else .idle

/-- `for item in pending`. -/
def Drain.nextItem (drain : Drain) : List PendingJiraIntent → WorkerState
  | [] => drain.continue
  | item :: rest => .delivering
      { drain with
        processed := item.intent.id :: drain.processed, attempted := drain.attempted + 1 }
      item rest

/-- The worker after it has read the pending intents. -/
def Drain.poll (drain : Drain) (rows : DeliveryRows) : WorkerState :=
  match rows.pending drain.asOf (drain.limit - drain.attempted) with
  | .error _ => .idle
  | .ok items =>
    match items.filter fun item => item.intent.id ∉ drain.processed with
    | [] => .idle
    | item :: rest => drain.nextItem (item :: rest)

def baseRetrySeconds : ℤ := 10

def maxRetrySeconds : ℤ := 300

/-- `_retry_delay`. -/
def retryDelay (attempts : ℕ) : ℤ :=
  min (baseRetrySeconds * 2 ^ attempts) maxRetrySeconds

def microsecondsPerSecond : ℤ := 1000000

/-- `_record_failure`, up to the call of the store. -/
def failureReport (drain : Drain) (item : PendingJiraIntent) (retryAt : ℤ) (message : String) :
    Result DeliveryReport := do
  let failure : JiraDeliveryFailure :=
    { intentId := item.intent.id, retryAt, error := message, failedAt := drain.asOf }
  failure.validate
  return .failure failure

/-- `_deliver_one`, from the end of the adapter call to the call of the store. -/
def reportOf (drain : Drain) (item : PendingJiraIntent) : AdapterOutcome → Result DeliveryReport
  | .delivered success =>
    if success.intentId = item.intent.id then .ok (.success success)
    else do
      let retryAt ← addDuration drain.asOf (retryDelay item.attempts * microsecondsPerSecond)
      failureReport drain item retryAt "adapter returned the wrong intent identifier"
  | .rateLimited retryAfter message => do
    let retryAt ← addDuration drain.asOf (max 0 retryAfter)
    failureReport drain item retryAt message
  | .providerError message => do
    let retryAt ← addDuration drain.asOf (retryDelay item.attempts * microsecondsPerSecond)
    failureReport drain item retryAt message
  | .raised error => .error error

/-- The call of the store that records a report. -/
def DeliveryReport.write (rows : DeliveryRows) : DeliveryReport → Result DeliveryRows
  | .success result => rows.recordSuccess result
  | .failure result => rows.recordFailure result

/-- The counts after a report was recorded. -/
def Drain.counted (drain : Drain) : DeliveryReport → Drain
  | .success _ => { drain with delivered := drain.delivered + 1 }
  | .failure _ => { drain with failed := drain.failed + 1 }

/-! ### Runs -/

/-- The rows of the store and the workers. -/
structure DeliverySystem where
  rows : DeliveryRows
  workers : ℕ → WorkerState

inductive DeliveryEvent where
  /-- A commit of a team appends projection intents. -/
  | append (teamId : Uuid) (drafts : List ProjectionIntentDraft)
  /-- A worker calls `drain_once`. -/
  | start (worker : ℕ) (asOf limit : ℤ)
  /-- A worker reads the pending intents. -/
  | poll (worker : ℕ)
  /-- The adapter call of a worker ends. -/
  | answer (worker : ℕ) (outcome : AdapterOutcome)
  /-- A worker calls the store to record its report. -/
  | record (worker : ℕ)
  /-- The process of a worker stops. -/
  | crash (worker : ℕ)

namespace DeliverySystem

/-- The system with another state of one worker. -/
def withWorker (s : DeliverySystem) (worker : ℕ) (state : WorkerState) : DeliverySystem :=
  { s with workers := Function.update s.workers worker state }

/-- One interaction; a call that raises ends its worker and leaves the rows as they were. -/
def step (s : DeliverySystem) : DeliveryEvent → DeliverySystem
  | .append teamId drafts =>
    match s.rows.appendIntents teamId drafts with
    | .ok rows => { s with rows }
    | .error _ => s
  | .start worker asOf limit =>
    match s.workers worker with
    | .idle => s.withWorker worker (Drain.continue { asOf, limit })
    | _ => s
  | .poll worker =>
    match s.workers worker with
    | .polling drain => s.withWorker worker (drain.poll s.rows)
    | _ => s
  | .answer worker outcome =>
    match s.workers worker with
    | .delivering drain item rest =>
      match reportOf drain item outcome with
      | .ok report => s.withWorker worker (.recording drain item rest report)
      | .error _ => s.withWorker worker .idle
    | _ => s
  | .record worker =>
    match s.workers worker with
    | .recording drain _ rest report =>
      match report.write s.rows with
      | .ok rows => { s with rows }.withWorker worker ((drain.counted report).nextItem rest)
      | .error _ => s.withWorker worker .idle
    | _ => s
  | .crash worker => s.withWorker worker .idle

/-- No intents and no running worker. -/
def empty : DeliverySystem where
  rows := {}
  workers _ := .idle

end DeliverySystem

/-- All runs of the delivery, from an empty store. -/
def deliveryRuns : System Unit DeliverySystem DeliveryEvent where
  start _ s := s = .empty
  step s event s' := s' = s.step event

end JiraSimulator
