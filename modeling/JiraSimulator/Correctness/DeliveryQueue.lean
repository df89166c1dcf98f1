import JiraSimulator.Correctness.DeliveryStore

/-!
# Runs of the Jira delivery

A worker only holds cleared intents: it got them from the store, and an intent that was cleared once
stays cleared, whatever the other workers and the teams do meanwhile.  So every delivery happens in
order, over all interleavings, outcomes of the adapter and crashes.
-/

namespace JiraSimulator

open Library Library.Outcome Library.Transition

/-! ### Workers -/

/-- The intents that a worker holds. -/
def WorkerState.items : WorkerState → List PendingJiraIntent
  | .idle => []
  | .polling _ => []
  | .delivering _ item rest => item :: rest
  | .recording _ item rest _ => item :: rest

/-- A report of success is about the intent that the worker has delivered. -/
def WorkerState.Honest : WorkerState → Prop
  | .recording _ item _ (.success result) => result.intentId = item.intent.id
  | _ => True

/-- The worker holds cleared intents. -/
structure WorkerState.Holds (rows : DeliveryRows) (state : WorkerState) : Prop where
  cleared : ∀ item ∈ state.items, rows.Cleared item.intent
  honest : state.Honest

variable {rows rows' : DeliveryRows} {drain : Drain}

theorem holds_idle : WorkerState.Holds rows .idle where
  cleared := by simp [WorkerState.items]
  honest := trivial

theorem WorkerState.Holds.grows {state : WorkerState} (h : state.Holds rows)
    (hgrows : rows.Grows rows') : state.Holds rows' where
  cleared item hitem := hgrows.cleared (h.cleared item hitem)
  honest := h.honest

theorem holds_continue : drain.continue.Holds rows := by
  unfold Drain.continue
  split_ifs
  · exact ⟨by simp [WorkerState.items], trivial⟩
  · exact holds_idle

theorem holds_nextItem {items : List PendingJiraIntent}
    (h : ∀ item ∈ items, rows.Cleared item.intent) : (drain.nextItem items).Holds rows := by
  cases items with
  | nil => exact holds_continue
  | cons item rest => exact ⟨h, trivial⟩

theorem holds_poll (h : rows.Valid) : (drain.poll rows).Holds rows := by
  unfold Drain.poll
  cases hpending : rows.pending drain.asOf (drain.limit - drain.attempted) with
  | error e => exact holds_idle
  | ok items =>
    have hcleared : ∀ item ∈ items.filter fun item => item.intent.id ∉ drain.processed,
        rows.Cleared item.intent :=
      fun item hitem => DeliveryRows.pending_cleared h hpending item (List.mem_of_mem_filter hitem)
    cases hitems : items.filter fun item => item.intent.id ∉ drain.processed with
    | nil =>
      simp only [hitems]
      exact holds_idle
    | cons item rest =>
      simp only [hitems]
      exact holds_nextItem (hitems ▸ hcleared)

theorem failureReport_eq_ok {item : PendingJiraIntent} {retryAt : ℤ} {message : String}
    {report : DeliveryReport} (h : failureReport drain item retryAt message = .ok report) :
    ∃ failure, report = .failure failure := by
  simp only [failureReport, bind_eq_ok, exists_unit, pure_eq_ok] at h
  exact ⟨_, h.2.symm⟩

theorem holds_report {item : PendingJiraIntent} {rest : List PendingJiraIntent}
    {outcome : AdapterOutcome} {report : DeliveryReport}
    (h : ∀ item' ∈ item :: rest, rows.Cleared item'.intent)
    (hreport : reportOf drain item outcome = .ok report) :
    (WorkerState.recording drain item rest report).Holds rows := by
  refine ⟨h, ?_⟩
  cases outcome with
  | delivered success =>
    simp only [reportOf] at hreport
    split_ifs at hreport with hid
    · cases hreport
      exact hid
    · simp only [bind_eq_ok] at hreport
      obtain ⟨retryAt, -, hreport⟩ := hreport
      obtain ⟨failure, rfl⟩ := failureReport_eq_ok hreport
      trivial
  | rateLimited retryAfter message =>
    simp only [reportOf, bind_eq_ok] at hreport
    obtain ⟨retryAt, -, hreport⟩ := hreport
    obtain ⟨failure, rfl⟩ := failureReport_eq_ok hreport
    trivial
  | providerError message =>
    simp only [reportOf, bind_eq_ok] at hreport
    obtain ⟨retryAt, -, hreport⟩ := hreport
    obtain ⟨failure, rfl⟩ := failureReport_eq_ok hreport
    trivial
  | raised error => cases hreport

/-! ### Steps -/

/-- The rows are valid and all workers hold cleared intents. -/
structure DeliverySystem.Sound (s : DeliverySystem) : Prop where
  valid : s.rows.Valid
  holds : ∀ worker, (s.workers worker).Holds s.rows

/-- A step keeps what was delivered, and delivers only intents that were cleared. -/
structure DeliveryStep (rows rows' : DeliveryRows) : Prop where
  valid : rows'.Valid
  grows : rows.Grows rows'
  cleared : ∀ intent ∈ rows'.intents, intent.semanticKey ∈ rows'.delivered →
    intent.semanticKey ∉ rows.delivered → rows.Cleared intent

theorem DeliveryStep.refl (h : rows.Valid) : DeliveryStep rows rows where
  valid := h
  grows := .refl rows
  cleared _ _ hdone hnot := absurd hdone hnot

/-- A recorded report changes the rows as a step of the delivery may. -/
theorem deliveryStep_of_write (h : rows.Valid) {item : PendingJiraIntent}
    {rest : List PendingJiraIntent} {report : DeliveryReport}
    (hholds : (WorkerState.recording drain item rest report).Holds rows)
    (hok : report.write rows = .ok rows') : DeliveryStep rows rows' := by
  cases report with
  | success result =>
    have hcleared : ∀ intent ∈ rows.intents, intent.semanticKey = result.intentId →
        rows.Cleared intent := by
      intro intent hintent hkey
      have hitem := hholds.cleared item List.mem_cons_self
      have hid : result.intentId = item.intent.semanticKey := hholds.honest
      exact h.eq_of_key intent hintent item.intent hitem.mem (hkey.trans hid) ▸ hitem
    obtain ⟨hvalid, hgrows, hintents, hdelivered⟩ := DeliveryRows.recordSuccess_spec h hcleared hok
    refine ⟨hvalid, hgrows, fun intent hintent hdone hnot => ?_⟩
    rw [hdelivered] at hdone
    exact hcleared intent (hintents ▸ hintent) (hdone.resolve_right hnot)
  | failure result =>
    obtain ⟨hvalid, hgrows, -, hdelivered⟩ := DeliveryRows.recordFailure_spec h hok
    exact ⟨hvalid, hgrows, fun intent _ hdone hnot => absurd (hdelivered ▸ hdone) hnot⟩

theorem deliveryStep_of_append (h : rows.Valid) {teamId : Uuid}
    {drafts : List ProjectionIntentDraft} (hok : rows.appendIntents teamId drafts = .ok rows') :
    DeliveryStep rows rows' := by
  obtain ⟨hvalid, hgrows, hreceipts⟩ := DeliveryRows.appendIntents_spec h hok
  refine ⟨hvalid, hgrows, fun intent _ hdone hnot => absurd ?_ hnot⟩
  obtain ⟨receipt, hreceipt, hid, hstate⟩ := hdone
  exact ⟨receipt, hreceipts ▸ hreceipt, hid, hstate⟩

namespace DeliverySystem

variable {s : DeliverySystem}

/-- Another state of one worker keeps the system sound when the worker holds cleared intents. -/
theorem Sound.withWorker (h : s.Sound) {worker : ℕ} {state : WorkerState}
    (hstate : state.Holds s.rows) : (s.withWorker worker state).Sound := by
  refine ⟨h.valid, fun other => ?_⟩
  show (Function.update s.workers worker state other).Holds s.rows
  by_cases hsame : other = worker
  · subst hsame
    rw [Function.update_self]
    exact hstate
  · rw [Function.update_of_ne hsame]
    exact h.holds other

theorem Sound.withRows (h : s.Sound) (hstep : DeliveryStep s.rows rows') :
    ({ s with rows := rows' } : DeliverySystem).Sound :=
  ⟨hstep.valid, fun worker => (h.holds worker).grows hstep.grows⟩

/-- Every interaction is a step of the delivery, and keeps the system sound. -/
theorem Sound.step (h : s.Sound) (event : DeliveryEvent) :
    (s.step event).Sound ∧ DeliveryStep s.rows (s.step event).rows := by
  -- an event that does not fit the stage of its worker changes nothing
  have hstay : DeliveryStep s.rows s.rows := .refl h.valid
  cases event with
  | append teamId drafts =>
    simp only [DeliverySystem.step]
    cases happend : s.rows.appendIntents teamId drafts with
    | ok rows =>
      have hstep := deliveryStep_of_append h.valid happend
      exact ⟨h.withRows hstep, hstep⟩
    | error e => exact ⟨h, hstay⟩
  | start worker asOf limit =>
    simp only [DeliverySystem.step]
    cases hworker : s.workers worker with
    | idle => exact ⟨h.withWorker holds_continue, hstay⟩
    | polling drain => exact ⟨h, hstay⟩
    | delivering drain item rest => exact ⟨h, hstay⟩
    | recording drain item rest report => exact ⟨h, hstay⟩
  | poll worker =>
    simp only [DeliverySystem.step]
    cases hworker : s.workers worker with
    | idle => exact ⟨h, hstay⟩
    | polling drain => exact ⟨h.withWorker (holds_poll h.valid), hstay⟩
    | delivering drain item rest => exact ⟨h, hstay⟩
    | recording drain item rest report => exact ⟨h, hstay⟩
  | answer worker outcome =>
    simp only [DeliverySystem.step]
    cases hworker : s.workers worker with
    | idle => exact ⟨h, hstay⟩
    | polling drain => exact ⟨h, hstay⟩
    | delivering drain item rest =>
      have hholds := hworker ▸ h.holds worker
      dsimp only
      cases hreport : reportOf drain item outcome with
      | ok report => exact ⟨h.withWorker (holds_report hholds.cleared hreport), hstay⟩
      | error e => exact ⟨h.withWorker holds_idle, hstay⟩
    | recording drain item rest report => exact ⟨h, hstay⟩
  | record worker =>
    simp only [DeliverySystem.step]
    cases hworker : s.workers worker with
    | idle => exact ⟨h, hstay⟩
    | polling drain => exact ⟨h, hstay⟩
    | delivering drain item rest => exact ⟨h, hstay⟩
    | recording drain item rest report =>
      have hholds := hworker ▸ h.holds worker
      dsimp only
      cases hwrite : report.write s.rows with
      | ok rows =>
        have hstep := deliveryStep_of_write h.valid hholds hwrite
        -- the intent is settled, and those behind it are still cleared
        refine ⟨(h.withRows hstep).withWorker (holds_nextItem fun item hitem => ?_), hstep⟩
        exact hstep.grows.cleared (hholds.cleared item (List.mem_cons_of_mem _ hitem))
      | error e => exact ⟨h.withWorker holds_idle, hstay⟩
  | crash worker => exact ⟨h.withWorker holds_idle, hstay⟩

theorem sound_empty : DeliverySystem.empty.Sound where
  valid := {
    sequences := List.Pairwise.nil
    bounded := by simp [empty]
    keys := List.nodup_nil
    receiptKeys := List.nodup_nil
    references := by simp [empty]
    retries := by simp [empty]
    mappingKeys := List.nodup_nil
    inOrder := by simp [empty, Outbox.Discipline.InOrder] }
  holds _ := holds_idle

end DeliverySystem

/-! ### Runs -/

theorem sound_of_reachable {s : DeliverySystem} (h : deliveryRuns.Reachable s) : s.Sound := by
  refine h.invariant ?_ ?_
  · rintro - s rfl
    exact DeliverySystem.sound_empty
  · rintro s event - - hs rfl
    exact (hs.step event).1

theorem grows_of_reachesBy {s later : DeliverySystem} (h : deliveryRuns.Reachable s)
    (hlater : deliveryRuns.ReachesBy (fun _ _ => True) s later) : s.rows.Grows later.rows := by
  refine hlater.invariant (I := fun t => s.rows.Grows t.rows) h (.refl s.rows) ?_
  rintro t event - ht hgrows - rfl
  exact hgrows.trans ((sound_of_reachable ht).step event).2.grows

/-- In every run of the delivery: a step delivers an intent only when all earlier intents of its
team and all its dependencies are delivered; deliveries and mappings are never changed; and the
oldest outstanding intent of a team is pending, within the limit, once its dependencies are
delivered and its retry time has come. -/
theorem deliveryQueue_in_order {s : DeliverySystem} (h : deliveryRuns.Reachable s) :
    (∀ event, ∀ intent ∈ (s.step event).rows.intents,
      intent.semanticKey ∈ (s.step event).rows.delivered → intent.semanticKey ∉ s.rows.delivered →
      (∀ other ∈ (s.step event).rows.intents, other.teamId = intent.teamId →
        other.appendSequence < intent.appendSequence → other.semanticKey ∈ s.rows.delivered) ∧
      ∀ key ∈ intent.dependsOn, key ∈ s.rows.delivered) ∧
    (∀ later, deliveryRuns.ReachesBy (fun _ _ => True) s later →
      (∀ receipt ∈ s.rows.receipts, receipt.state = .DELIVERED → ∀ receipt' ∈ later.rows.receipts,
        receipt'.intentId = receipt.intentId ↔ receipt' = receipt) ∧
      (∀ mapping ∈ s.rows.mappings, ∀ mapping' ∈ later.rows.mappings,
        mapping'.identity = mapping.identity ↔ mapping' = mapping) ∧
      s.rows.delivered ⊆ later.rows.delivered ∧ s.rows.mappings ⊆ later.rows.mappings) ∧
    (∀ intent ∈ s.rows.intents, intent.semanticKey ∉ s.rows.delivered →
      (∀ other ∈ s.rows.intents, other.teamId = intent.teamId →
        other.appendSequence < intent.appendSequence → other.semanticKey ∈ s.rows.delivered) →
      (∀ key ∈ intent.dependsOn, key ∈ s.rows.delivered) →
      ∀ asOf limit, 1 ≤ limit ∧ limit ≤ DeliveryRows.maxPendingLimit →
      (∀ receipt ∈ s.rows.receipts, receipt.intentId = intent.semanticKey →
        ∀ instant, receipt.nextAttemptAt = some instant → instant ≤ asOf) →
      ∃ items, s.rows.pending asOf limit = .ok items ∧ ((∃ item ∈ items, item.intent = intent) ∨
        ((items.length : ℤ) = limit ∧
          ∀ item ∈ items, item.intent.appendSequence < intent.appendSequence))) := by
  have hsound := sound_of_reachable h
  refine ⟨?_, ?_, ?_⟩
  · intro event intent hintent hdone hnot
    have hstep := (hsound.step event).2
    have hcleared := hstep.cleared intent hintent hdone hnot
    refine ⟨fun other hother hteam hlt => ?_, hcleared.needs⟩
    -- An intent that the step appends stands behind the cleared one.
    obtain ⟨added, hadded, hbehind⟩ := hstep.grows.intents
    rw [hadded] at hother
    rcases List.mem_append.mp hother with hother | hother
    · exact hcleared.earlier other hother hteam hlt
    · exact absurd hlt (Nat.lt_asymm (hbehind intent hcleared.mem other hother))
  · intro later hlater
    have hgrows := grows_of_reachesBy h hlater
    have hvalid := (sound_of_reachable (hlater.reachable h)).valid
    refine ⟨?_, ?_, hgrows.delivered, hgrows.mappings⟩
    · intro receipt hreceipt hstate receipt' hreceipt'
      have hkept := hgrows.receipts receipt hreceipt hstate
      exact ⟨fun hid => hvalid.receipt_unique hreceipt' hkept hid, fun heq => heq ▸ rfl⟩
    · intro mapping hmapping mapping' hmapping'
      have hkept := hgrows.mappings hmapping
      exact ⟨fun hid => List.inj_on_of_nodup_map hvalid.mappingKeys hmapping' hkept hid,
        fun heq => heq ▸ rfl⟩
  · intro intent hintent hnot hearlier hneeds asOf limit hlimit hretry
    exact DeliveryRows.pending_of_cleared hsound.valid ⟨hintent, hearlier, hneeds⟩ hnot hlimit hretry

theorem reachable_of_events (events : List DeliveryEvent) :
    deliveryRuns.Reachable (events.foldl DeliverySystem.step .empty) := by
  induction events using List.reverseRecOn with
  | nil => exact .start (i := ()) rfl trivial
  | append_singleton events event ih =>
    rw [List.foldl_append]
    exact .step ih trivial rfl

def deliveryTeam : Uuid :=
  .team ⟨"one"⟩

def deliveryKey (suffix : ProvisioningSuffix) : SemanticKey :=
  .jiraProvisioning deliveryTeam (.run deliveryTeam 0) suffix

/-- A project and its board. -/
def projectDrafts : List ProjectionIntentDraft :=
  [ { semanticKey := deliveryKey .project
      occurredAt := 0
      payload := .createProject "One" "ONE"
      dependsOn := []
      operationType := .CREATE_PROJECT
      aggregateId := deliveryTeam
      aggregateVersion := 1 },
    { semanticKey := deliveryKey .board
      occurredAt := 0
      payload := .createBoard "ONE" "One"
      dependsOn := [deliveryKey .project]
      operationType := .CREATE_BOARD
      aggregateId := deliveryTeam
      aggregateVersion := 1 } ]

/-- A worker delivers the project, and a second one stops while it delivers the board. -/
def projectDelivery : List DeliveryEvent :=
  [ .append deliveryTeam projectDrafts,
    .start 0 0 10, .start 1 5 10, .poll 0,
    .answer 0 (.delivered ⟨deliveryKey .project,
      [⟨deliveryTeam, "project", deliveryTeam, "10000", some "ONE"⟩], 0⟩),
    .record 0, .poll 1, .crash 1 ]

/-- The intent of the board. -/
def committedBoard : ProjectionIntent :=
  { semanticKey := deliveryKey .board
    occurredAt := 0
    payload := .createBoard "ONE" "One"
    dependsOn := [deliveryKey .project]
    operationType := .CREATE_BOARD
    aggregateId := deliveryTeam
    aggregateVersion := 1
    appendSequence := 2
    teamId := deliveryTeam }

/-- The board is pending after the crash. -/
theorem deliveryQueue_in_order_project :
    let rows := (projectDelivery.foldl DeliverySystem.step .empty).rows
    committedBoard ∈ rows.intents ∧
      ∃ items, rows.pending 5 1 = .ok items ∧ ((∃ item ∈ items, item.intent = committedBoard) ∨
        ((items.length : ℤ) = 1 ∧
          ∀ item ∈ items, item.intent.appendSequence < committedBoard.appendSequence)) := by
  intro rows
  have hmem : committedBoard ∈ rows.intents := by decide +kernel
  have hreceipts : ∀ receipt ∈ rows.receipts,
      receipt.intentId = deliveryKey .project ∧ receipt.state = .DELIVERED := by decide +kernel
  have hproject : deliveryKey .project ∈ rows.delivered := by
    show ∃ receipt ∈ rows.receipts,
      receipt.intentId = deliveryKey .project ∧ receipt.state = .DELIVERED
    decide +kernel
  have hearlier : ∀ other ∈ rows.intents, other.appendSequence < committedBoard.appendSequence →
      other.semanticKey = deliveryKey .project := by decide +kernel
  obtain ⟨-, -, hpending⟩ := deliveryQueue_in_order (reachable_of_events projectDelivery)
  refine ⟨hmem, hpending committedBoard hmem ?_ ?_ ?_ 5 1 (by decide) ?_⟩
  · rintro ⟨receipt, hreceipt, hid, -⟩
    exact absurd ((hreceipts receipt hreceipt).1.symm.trans hid) (by decide)
  · intro other hother _ hlt
    rw [hearlier other hother hlt]
    exact hproject
  · intro key hkey
    rw [List.mem_singleton.mp hkey]
    exact hproject
  · intro receipt hreceipt hid
    exact absurd ((hreceipts receipt hreceipt).1.symm.trans hid) (by decide)

end JiraSimulator
