import JiraSimulator.Integrations.JiraWriteQueue

/-!
# The health monitor of Jira

The monitor pings Jira, counts the failures in a row, and keeps the status that the write queue
reads before each batch.  A step is one finished ping or one call of `mark_recovery_complete`; the
callback of a changed status is called after the step and reads nothing back.
-/

namespace JiraSimulator.WriteQueue

/-- `FAILURES_THRESHOLD`. -/
def failuresThreshold : ℕ := 2

/-- `JiraHealthMonitor`. -/
structure JiraHealthMonitor where
  status : HealthStatus
  lastChecked : Option ℤ
  lastOnline : Option ℤ
  consecutiveFailures : ℕ
  outageStart : Option ℤ
  deriving DecidableEq, Repr

/-- The arguments of `on_status_change`: the old status and the new one. -/
abbrev StatusChange : Type := HealthStatus × HealthStatus

namespace JiraHealthMonitor

/-- A new monitor. -/
def new : JiraHealthMonitor where
  status := .online
  lastChecked := none
  lastOnline := none
  consecutiveFailures := 0
  outageStart := none

variable (monitor : JiraHealthMonitor)

/-- `_transition_to`, with the call of the callback. -/
def transitionTo (newStatus : HealthStatus) : JiraHealthMonitor × List StatusChange :=
  ({ monitor with status := newStatus }, [(monitor.status, newStatus)])

/-- `_handle_success`. -/
def handleSuccess (now : ℤ) : JiraHealthMonitor × List StatusChange :=
  let monitor := { monitor with consecutiveFailures := 0, lastOnline := some now }
  match monitor.status with
  | .offline => monitor.transitionTo .recovering
  | .online | .recovering => (monitor, [])

/-- `_handle_failure`. -/
def handleFailure (now : ℤ) : JiraHealthMonitor × List StatusChange :=
  let monitor := { monitor with consecutiveFailures := monitor.consecutiveFailures + 1 }
  match monitor.status with
  | .online =>
    if failuresThreshold ≤ monitor.consecutiveFailures then
      { monitor with outageStart := some now }.transitionTo .offline
    else (monitor, [])
  | .offline | .recovering => (monitor, [])

/-- `check`, with the result of the ping and the two readings of the clock. -/
def check (isReachable : Bool) (checkedAt now : ℤ) : JiraHealthMonitor × List StatusChange :=
  let monitor := { monitor with lastChecked := some checkedAt }
  if isReachable then monitor.handleSuccess now else monitor.handleFailure now

/-- `mark_recovery_complete`. -/
def markRecoveryComplete : JiraHealthMonitor :=
  match monitor.status with
  | .recovering => { monitor with status := .online, outageStart := none }
  | .online | .offline => monitor

end JiraHealthMonitor

/-- What happens to the monitor. -/
inductive HealthEvent where
  | check (isReachable : Bool) (checkedAt now : ℤ)
  | recoveryComplete
  deriving DecidableEq, Repr

/-- One step of the monitor. -/
def JiraHealthMonitor.next (monitor : JiraHealthMonitor) : HealthEvent → JiraHealthMonitor
  | .check isReachable checkedAt now => (monitor.check isReachable checkedAt now).1
  | .recoveryComplete => monitor.markRecoveryComplete

/-- The monitor after some events. -/
def monitorAfter (events : List HealthEvent) : JiraHealthMonitor :=
  events.foldl JiraHealthMonitor.next .new

end JiraSimulator.WriteQueue
