import JiraSimulator.Application.JiraDelivery
import JiraSimulator.Persistence.StoredPayloads

/-!
# One call of `drain_once`

A call reads the pending intents, attempts each of them, and reads again until its limit is reached
or nothing is left.  The adapter call of an attempt can end in any way, and the database can fail
while the outcome is recorded.  `_deliver_one` guards against two exceptions only; all others end
the call. The call logs each of its interactions with the rows before it.
-/

namespace JiraSimulator

open Library

/-- How an attempt ends: the adapter call, and an exception of the database while the outcome is
recorded. -/
structure AttemptEnd where
  outcome : AdapterOutcome
  databaseError : Option PyError := none

/-- `_deliver_one`: the rows after it and the local variables of the call. -/
def deliverOne (rows : DeliveryRows) (drain : Drain) (item : PendingJiraIntent)
    (ending : AttemptEnd) : Result (DeliveryRows × Drain) := do
  let report ← reportOf drain item ending.outcome
  match ending.databaseError with
  | some error => .error error
  | none =>
    let rows ← report.write rows
    return (rows, drain.counted report)

/-- An interaction of a call, with the rows before it. -/
inductive DrainStep where
  | polled (rows : DeliveryRows)
  | attempted (rows : DeliveryRows) (item : PendingJiraIntent) (ending : AttemptEnd)

def DrainStep.rows : DrainStep → DeliveryRows
  | .polled rows => rows
  | .attempted rows _ _ => rows

inductive CallStatus where
  | running
  | returned
  | raised (error : PyError)
  deriving DecidableEq, Repr

/-- A call of `drain_once`, with its log, newest first. -/
structure DrainCall where
  rows : DeliveryRows
  drain : Drain
  steps : List DrainStep := []
  status : CallStatus := .running

namespace DrainCall

/-- The body of `for item in pending`; the n-th attempt ends as the n-th ending says. -/
def attempt (endings : ℕ → AttemptEnd) (call : DrainCall) (item : PendingJiraIntent) : DrainCall :=
  match call.status with
  | .running =>
    let drain := { call.drain with
      processed := item.intent.id :: call.drain.processed
      attempted := call.drain.attempted + 1 }
    let ending := endings call.drain.attempted
    let steps := .attempted call.rows item ending :: call.steps
    match deliverOne call.rows drain item ending with
    | .ok (rows, drain) => { rows, drain, steps }
    -- an exception that `_deliver_one` does not guard against leaves both loops
    | .error error => { rows := call.rows, drain, steps, status := .raised error }
  | _ => call

/-- One round of `while attempted < limit`. -/
def round (payloads : StoredPayloads) (endings : ℕ → AttemptEnd) (call : DrainCall) : DrainCall :=
  match call.status with
  | .running =>
    if call.drain.attempted < call.drain.limit then
      let polled := { call with steps := .polled call.rows :: call.steps }
      match call.rows.storedPending payloads call.drain.asOf
          (call.drain.limit - call.drain.attempted) with
      | .error error => { polled with status := .raised error }
      | .ok items =>
        match items.filter fun item => item.intent.id ∉ call.drain.processed with
        | [] => { polled with status := .returned }
        | item :: rest => (item :: rest).foldl (attempt endings) polled
    else
      { call with status := .returned }
  | _ => call

end DrainCall

/-- `drain_once(as_of, limit)`; every round but the last attempts an intent. -/
def drainOnce (payloads : StoredPayloads) (endings : ℕ → AttemptEnd) (rows : DeliveryRows)
    (asOf limit : ℤ) : DrainCall :=
  (DrainCall.round payloads endings)^[limit.toNat + 1] { rows, drain := { asOf, limit } }

end JiraSimulator
