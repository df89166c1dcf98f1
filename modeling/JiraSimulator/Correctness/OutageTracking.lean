import JiraSimulator.Integrations.JiraHealth

/-!
# Outages that the monitor tracks

The monitor counts the failed checks in a row as they happened, and it has the start of an outage
exactly while it is not online.  It goes offline at the second failure only from the status online;
a second outage that begins during the recovery is not noticed until the recovery is complete.

* `consecutiveFailures_eq`: the count of the failures.
* `outageStart_iff`: the start of the outage.
* `outages_tracked`: the histories whose outages are all noticed.
* `outage_missed`: a second outage during the recovery.
-/

namespace JiraSimulator.WriteQueue

/-! ### Histories -/

/-- The result of the ping of a check. -/
def HealthEvent.reachable : HealthEvent → Option Bool
  | .check isReachable _ _ => some isReachable
  | .recoveryComplete => none

/-- The number of failed checks since the last successful one. -/
def failuresInARow (events : List HealthEvent) : ℕ :=
  ((events.filterMap HealthEvent.reachable).reverse.takeWhile (! ·)).length

theorem failuresInARow_success (events : List HealthEvent) (checkedAt now : ℤ) :
    failuresInARow (events ++ [.check true checkedAt now]) = 0 := by
  unfold failuresInARow
  rw [List.filterMap_append, List.reverse_append]
  rfl

theorem failuresInARow_failure (events : List HealthEvent) (checkedAt now : ℤ) :
    failuresInARow (events ++ [.check false checkedAt now]) = failuresInARow events + 1 := by
  unfold failuresInARow
  rw [List.filterMap_append, List.reverse_append]
  rfl

theorem failuresInARow_recoveryComplete (events : List HealthEvent) :
    failuresInARow (events ++ [.recoveryComplete]) = failuresInARow events := by
  unfold failuresInARow
  rw [List.filterMap_append]
  show (((events.filterMap HealthEvent.reachable) ++ []).reverse.takeWhile _).length = _
  rw [List.append_nil]

theorem monitorAfter_append (events : List HealthEvent) (event : HealthEvent) :
    monitorAfter (events ++ [event]) = (monitorAfter events).next event := by
  unfold monitorAfter
  rw [List.foldl_append, List.foldl_cons, List.foldl_nil]

/-! ### Steps of the monitor -/

section steps

variable (monitor : JiraHealthMonitor) (checkedAt now : ℤ)

theorem check_success :
    (monitor.check true checkedAt now).1 =
      { monitor with
        status := if monitor.status = .offline then .recovering else monitor.status
        lastChecked := some checkedAt
        lastOnline := some now
        consecutiveFailures := 0 } := by
  obtain ⟨status, lastChecked, lastOnline, failures, outageStart⟩ := monitor
  cases status <;> rfl

theorem check_failure :
    (monitor.check false checkedAt now).1 =
      { monitor with
        status :=
          if monitor.status = .online ∧ 1 ≤ monitor.consecutiveFailures then .offline
          else monitor.status
        lastChecked := some checkedAt
        consecutiveFailures := monitor.consecutiveFailures + 1
        outageStart :=
          if monitor.status = .online ∧ 1 ≤ monitor.consecutiveFailures then some now
          else monitor.outageStart } := by
  obtain ⟨status, lastChecked, lastOnline, failures, outageStart⟩ := monitor
  cases status with
  | online =>
    by_cases hfailures : 1 ≤ failures
    · have hthreshold : failuresThreshold ≤ failures + 1 := by
        unfold failuresThreshold
        omega
      simp [JiraHealthMonitor.check, JiraHealthMonitor.handleFailure,
        JiraHealthMonitor.transitionTo, hthreshold, hfailures]
    · have hthreshold : ¬failuresThreshold ≤ failures + 1 := by
        unfold failuresThreshold
        omega
      simp [JiraHealthMonitor.check, JiraHealthMonitor.handleFailure, hthreshold, hfailures]
  | offline => rfl
  | recovering => rfl

end steps

/-! ### What every history keeps -/

/-- The monitor counts the failed checks since the last successful one. -/
theorem consecutiveFailures_eq (events : List HealthEvent) :
    (monitorAfter events).consecutiveFailures = failuresInARow events := by
  induction events using List.reverseRecOn with
  | nil => rfl
  | append_singleton events event ih =>
    rw [monitorAfter_append]
    cases event with
    | check isReachable checkedAt now =>
      cases isReachable with
      | true =>
        rw [failuresInARow_success]
        show ((monitorAfter events).check true checkedAt now).1.consecutiveFailures = 0
        rw [check_success]
      | false =>
        rw [failuresInARow_failure, ← ih]
        show ((monitorAfter events).check false checkedAt now).1.consecutiveFailures = _
        rw [check_failure]
    | recoveryComplete =>
      rw [failuresInARow_recoveryComplete, ← ih]
      show (monitorAfter events).markRecoveryComplete.consecutiveFailures = _
      unfold JiraHealthMonitor.markRecoveryComplete
      split <;> rfl

/-- There is a start of an outage exactly while the monitor is not online. -/
theorem outageStart_iff (events : List HealthEvent) :
    (monitorAfter events).outageStart.isSome ↔ (monitorAfter events).status ≠ .online := by
  induction events using List.reverseRecOn with
  | nil => decide
  | append_singleton events event ih =>
    rw [monitorAfter_append]
    generalize monitorAfter events = monitor at ih ⊢
    cases event with
    | check isReachable checkedAt now =>
      cases isReachable with
      | true =>
        show (monitor.check true checkedAt now).1.outageStart.isSome ↔
          (monitor.check true checkedAt now).1.status ≠ .online
        rw [check_success]
        dsimp only
        rw [ih]
        split_ifs with hoffline
        · simp [hoffline]
        · rfl
      | false =>
        show (monitor.check false checkedAt now).1.outageStart.isSome ↔
          (monitor.check false checkedAt now).1.status ≠ .online
        rw [check_failure]
        dsimp only
        split_ifs
        · simp
        · exact ih
    -- the recovery clears the start and the status together
    | recoveryComplete =>
      show monitor.markRecoveryComplete.outageStart.isSome ↔
        monitor.markRecoveryComplete.status ≠ .online
      unfold JiraHealthMonitor.markRecoveryComplete
      split
      · simp
      · exact ih
      · exact ih

/-! ### Tracked outages -/

/-- After every check that is at least the second failure in a row the monitor is offline, after
every successful one it is not, and an outage has its start while the monitor is not online. -/
structure OutagesTracked (events : List HealthEvent) : Prop where
  failure : ∀ before checkedAt now, before ++ [.check false checkedAt now] <+: events →
    2 ≤ failuresInARow (before ++ [.check false checkedAt now]) →
      (monitorAfter (before ++ [.check false checkedAt now])).status = .offline
  success : ∀ before checkedAt now, before ++ [.check true checkedAt now] <+: events →
    (monitorAfter (before ++ [.check true checkedAt now])).status ≠ .offline
  outage : ∀ past, past <+: events →
    ((monitorAfter past).outageStart.isSome ↔ (monitorAfter past).status ≠ .online)

/-- No check is the second failure in a row while Jira is recovering. -/
def RecoversBeforeOutages (events : List HealthEvent) : Prop :=
  ∀ before checkedAt now, before ++ [.check false checkedAt now] <+: events →
    2 ≤ failuresInARow (before ++ [.check false checkedAt now]) →
      (monitorAfter before).status ≠ .recovering

theorem status_success (events : List HealthEvent) (checkedAt now : ℤ) :
    (monitorAfter (events ++ [.check true checkedAt now])).status ≠ .offline := by
  rw [monitorAfter_append]
  show ((monitorAfter events).check true checkedAt now).1.status ≠ .offline
  rw [check_success]
  dsimp only
  split_ifs with hoffline
  · nofun
  · exact hoffline

/-- At the second failure in a row the monitor is offline unless Jira is recovering. -/
theorem status_failure_iff {events : List HealthEvent} {checkedAt now : ℤ}
    (h : 2 ≤ failuresInARow (events ++ [.check false checkedAt now])) :
    (monitorAfter (events ++ [.check false checkedAt now])).status = .offline ↔
      (monitorAfter events).status ≠ .recovering := by
  have hfailures : 1 ≤ (monitorAfter events).consecutiveFailures := by
    rw [failuresInARow_failure] at h
    rw [consecutiveFailures_eq]
    omega
  rw [monitorAfter_append]
  show ((monitorAfter events).check false checkedAt now).1.status = .offline ↔ _
  rw [check_failure]
  dsimp only
  cases hstatus : (monitorAfter events).status with
  | online => simp [hfailures]
  | offline => simp
  | recovering => simp

/-- The outages of a history are tracked exactly when none begins during the recovery from another.
-/
theorem outages_tracked (events : List HealthEvent) :
    OutagesTracked events ↔ RecoversBeforeOutages events := by
  constructor
  · intro h before checkedAt now hinitial hfailures
    exact (status_failure_iff hfailures).mp (h.failure before checkedAt now hinitial hfailures)
  · intro h
    refine ⟨?_, ?_, ?_⟩
    · intro before checkedAt now hinitial hfailures
      exact (status_failure_iff hfailures).mpr (h before checkedAt now hinitial hfailures)
    · exact fun before checkedAt now _ => status_success before checkedAt now
    · exact fun past _ => outageStart_iff past

/-- During a tracked outage the write queue sends no batch. -/
theorem OutagesTracked.sends_nothing {events before : List HealthEvent} {checkedAt now : ℤ}
    (h : OutagesTracked events) (hinitial : before ++ [.check false checkedAt now] <+: events)
    (hfailures : 2 ≤ failuresInARow (before ++ [.check false checkedAt now])) (s : State) (b : ℕ)
    (tickIntervalSeconds : ℚ) (batch : List Entry) :
    s.processBatch b (monitorAfter (before ++ [.check false checkedAt now])).status
      tickIntervalSeconds batch = s := by
  rw [h.failure before checkedAt now hinitial hfailures]
  unfold State.processBatch
  rw [if_pos rfl]

/-- Jira fails, answers once and fails again, before its recovery is complete. -/
def secondOutage : List HealthEvent :=
  [.check false 1 1, .check false 2 2, .check true 3 3, .check false 4 4, .check false 5 5]

/-- The second outage leaves the status of the recovery. -/
theorem outage_missed :
    failuresInARow secondOutage = 2 ∧ (monitorAfter secondOutage).status = .recovering ∧
      ¬ OutagesTracked secondOutage := by
  refine ⟨by decide, by decide, fun h => ?_⟩
  have hoffline := h.failure (secondOutage.take 4) 5 5 (List.prefix_refl _) (by decide)
  revert hoffline
  decide

end JiraSimulator.WriteQueue
