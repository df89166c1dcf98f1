import JiraSimulator.Application.DrainOnce
import JiraSimulator.Correctness.DeliveryQueue

/-!
# Failures of one intent and the deliveries of the others

`_deliver_one` records a failure for two kinds of exceptions of the adapter.  All other exceptions
leave `drain_once`: those of the adapter itself, of recording the outcome, and of reading the
dependencies of any due head.
* `guarded_iff`: an attempt is guarded exactly when it ends with a delivery or a later retry.
* `drain_isolated`: a call isolates its failures exactly when each of its steps is guarded.
-/

namespace JiraSimulator

open Library Library.Outcome

/-! ### The claim about one call -/

/-- The intent has a failure receipt with a retry after `asOf`. -/
def DeliveryRows.RetriesAfter (rows : DeliveryRows) (asOf : ℤ) (id : IntentId) : Prop :=
  ∃ receipt, rows.receiptOf id = some receipt ∧ receipt.state = .RETRYABLE ∧
    ∃ instant, receipt.nextAttemptAt = some instant ∧ asOf < instant

/-- The intent is the head of its team and due, and its dependencies are delivered. -/
def DeliveryRows.Eligible (rows : DeliveryRows) (payloads : StoredPayloads) (asOf : ℤ)
    (intent : ProjectionIntent) : Prop :=
  ∃ receipt, (intent, receipt) ∈ rows.firstOutstandingByTeam ∧
    rows.isReady payloads asOf (intent, receipt) = .ok true

/-- The adapter delivers the intent and the success is recorded. -/
def AttemptEnd.Delivers (rows : DeliveryRows) (item : PendingJiraIntent) (ending : AttemptEnd) :
    Prop :=
  ending.databaseError = none ∧ ∃ success, ending.outcome = .delivered success ∧
    success.intentId = item.intent.id ∧ ∃ rows', rows.recordSuccess success = .ok rows'

/-- An exception was raised while the eligibility of the intent was computed, while it was
delivered, or while its outcome was recorded. -/
def DrainStep.RaisedAt (payloads : StoredPayloads) (asOf : ℤ) : DrainStep → IntentId → Prop
  | .polled rows, id => ∃ row ∈ rows.firstOutstandingByTeam, row.1.id = id ∧
      ∃ error, rows.isReady payloads asOf row = .error error
  | .attempted rows item ending, id => id = item.intent.id ∧ ¬ending.Delivers rows item

/-- Every intent at which an exception was raised is retried later, and the call attempts every
intent that becomes eligible during it, unless its limit is used up. -/
structure DrainCall.Isolated (payloads : StoredPayloads) (asOf limit : ℤ) (call : DrainCall) :
    Prop where
  retried : ∀ step ∈ call.steps, ∀ id, step.RaisedAt payloads asOf id →
    call.rows.RetriesAfter asOf id
  attempted : limit ≤ call.drain.attempted ∨
    ∀ step ∈ call.steps, ∀ intent, step.rows.Eligible payloads asOf intent →
      intent.id ∈ call.drain.processed

/-! ### The condition -/

/-- The retry time is a `datetime`. -/
def InRange (asOf delay : ℤ) : Prop :=
  minInstant ≤ asOf + delay ∧ asOf + delay ≤ maxInstant

/-- The delay and the text of a failure that `_deliver_one` guards against. -/
def AdapterOutcome.retry (item : PendingJiraIntent) : AdapterOutcome → Option (ℤ × String)
  | .delivered success =>
    if success.intentId = item.intent.id then none
    else some (retryDelay item.attempts * microsecondsPerSecond,
      "adapter returned the wrong intent identifier")
  | .rateLimited retryAfter message => some (max 0 retryAfter, message)
  | .providerError message => some (retryDelay item.attempts * microsecondsPerSecond, message)
  | .raised _ => none

/-- The database does not fail, and the adapter delivers the intent with mappings that fit the
persisted ones, or fails in a guarded way: with a text, and a positive delay up to a `datetime`. -/
def AttemptEnd.Guarded (rows : DeliveryRows) (asOf : ℤ) (item : PendingJiraIntent)
    (ending : AttemptEnd) : Prop :=
  ending.databaseError = none ∧
    ((∃ success, ending.outcome = .delivered success ∧ success.intentId = item.intent.id ∧
      ∃ mappings, success.mappings.foldlM DeliveryRows.ensureMapping rows.mappings = .ok mappings) ∨
    ∃ delay message, ending.outcome.retry item = some (delay, message) ∧ 0 < delay ∧
      InRange asOf delay ∧ isNonEmptyText message = true)

/-- The due heads can be read, and the attempts are guarded. -/
def DrainStep.Guarded (payloads : StoredPayloads) (asOf : ℤ) : DrainStep → Prop
  | .polled rows => rows.Readable payloads asOf
  | .attempted rows item ending => ending.Guarded rows asOf item

/-! ### One attempt -/

variable {rows rows' : DeliveryRows} {drain drain' : Drain} {item : PendingJiraIntent}
  {ending : AttemptEnd} {asOf : ℤ}

theorem not_retriesAfter_of_due {id : IntentId}
    (hdue : DeliveryRows.due (rows.receiptOf id) asOf = true) :
    ¬rows.RetriesAfter asOf id := by
  rintro ⟨receipt, hreceipt, hstate, instant, hinstant, hlater⟩
  rw [hreceipt] at hdue
  simp only [DeliveryRows.due, hstate, hinstant, decide_true, Bool.true_and,
    decide_eq_true_eq] at hdue
  omega

theorem failureReport_iff {retryAt : ℤ} {message : String} {report : DeliveryReport} :
    failureReport drain item retryAt message = .ok report ↔ isNonEmptyText message = true ∧
      report = .failure ⟨item.intent.id, retryAt, message, drain.asOf⟩ := by
  simp only [failureReport, JiraDeliveryFailure.validate, bind_eq_ok, exists_unit, require_eq_ok,
    pure_eq_ok]
  rw [eq_comm (a := report)]

theorem addDuration_eq_ok {value duration instant : ℤ} :
    addDuration value duration = .ok instant ↔
      InRange value duration ∧ instant = value + duration := by
  unfold addDuration InRange
  split_ifs with h
  · simp [h, eq_comm]
  · simp [h]

/-- A report is about a delivery of the intent, or about a guarded failure. -/
theorem reportOf_eq_ok {outcome : AdapterOutcome} {report : DeliveryReport} :
    reportOf drain item outcome = .ok report ↔
      (∃ success, outcome = .delivered success ∧ success.intentId = item.intent.id ∧
        report = .success success) ∨
      ∃ delay message, outcome.retry item = some (delay, message) ∧ InRange drain.asOf delay ∧
        isNonEmptyText message = true ∧
        report = .failure ⟨item.intent.id, drain.asOf + delay, message, drain.asOf⟩ := by
  -- the three guarded outcomes differ in the delay and the message only
  have hguarded : ∀ delay message,
      (do
        let retryAt ← addDuration drain.asOf delay
        failureReport drain item retryAt message) = .ok report ↔
      InRange drain.asOf delay ∧ isNonEmptyText message = true ∧
        report = .failure ⟨item.intent.id, drain.asOf + delay, message, drain.asOf⟩ := by
    intro delay message
    simp only [bind_eq_ok, addDuration_eq_ok, failureReport_iff]
    constructor
    · rintro ⟨_, ⟨hrange, rfl⟩, htext, hreport⟩
      exact ⟨hrange, htext, hreport⟩
    · rintro ⟨hrange, htext, hreport⟩
      exact ⟨_, ⟨hrange, rfl⟩, htext, hreport⟩
  cases outcome with
  | delivered success =>
    by_cases hid : success.intentId = item.intent.id
    · rw [reportOf, if_pos hid, AdapterOutcome.retry, if_pos hid]
      constructor
      · intro hreport
        exact .inl ⟨success, rfl, hid, (Except.ok.inj hreport).symm⟩
      · rintro (⟨_, hsuccess, -, rfl⟩ | ⟨_, _, hretry, -⟩)
        · rw [AdapterOutcome.delivered.inj hsuccess]
        · cases hretry
    · simp only [reportOf, if_neg hid, AdapterOutcome.retry, hguarded]
      simp [hid]
  | rateLimited retryAfter message =>
    simp only [reportOf, AdapterOutcome.retry, hguarded]
    simp
  | providerError message =>
    simp only [reportOf, AdapterOutcome.retry, hguarded]
    simp
  | raised error => simp [reportOf, AdapterOutcome.retry]

theorem deliverOne_eq_ok : deliverOne rows drain item ending = .ok (rows', drain') ↔
    ending.databaseError = none ∧ ∃ report, reportOf drain item ending.outcome = .ok report ∧
      report.write rows = .ok rows' ∧ drain' = drain.counted report := by
  simp only [deliverOne, bind_eq_ok]
  cases hdatabase : ending.databaseError with
  | some error => simp
  | none =>
    simp only [bind_eq_ok, pure_eq_ok, Prod.mk.injEq, true_and]
    constructor
    · rintro ⟨report, hreport, _, hwrite, rfl, rfl⟩
      exact ⟨report, hreport, hwrite, rfl⟩
    · rintro ⟨report, hreport, hwrite, rfl⟩
      exact ⟨report, hreport, _, hwrite, rfl, rfl⟩

@[simp] theorem Drain.counted_asOf (drain : Drain) (report : DeliveryReport) :
    (drain.counted report).asOf = drain.asOf := by
  cases report <;> rfl

@[simp] theorem Drain.counted_limit (drain : Drain) (report : DeliveryReport) :
    (drain.counted report).limit = drain.limit := by
  cases report <;> rfl

@[simp] theorem Drain.counted_attempted (drain : Drain) (report : DeliveryReport) :
    (drain.counted report).attempted = drain.attempted := by
  cases report <;> rfl

@[simp] theorem Drain.counted_processed (drain : Drain) (report : DeliveryReport) :
    (drain.counted report).processed = drain.processed := by
  cases report <;> rfl

/-- Nothing is lost, and no other receipt is written. -/
structure AttemptFrame (rows rows' : DeliveryRows) (id : IntentId) : Prop where
  valid : rows'.Valid
  grows : rows.Grows rows'
  others : ∀ other, other ≠ id → rows'.receiptOf other = rows.receiptOf other

theorem receiptOf_withReceipt_of_ne {receipt : JiraDeliveryReceipt}
    {mappings : List JiraResourceMapping} {id : IntentId} (hne : id ≠ receipt.intentId) :
    (rows.withReceipt receipt mappings).receiptOf id = rows.receiptOf id := by
  rw [DeliveryRows.receiptOf_withReceipt, if_neg (Ne.symm hne)]

/-- A recorded attempt delivers the intent, or gives it a receipt with the time of its retry. -/
theorem deliverOne_spec (h : rows.Valid) (hwait : rows.Waiting drain.asOf item.intent)
    (hok : deliverOne rows drain item ending = .ok (rows', drain')) :
    AttemptFrame rows rows' item.intent.id ∧
      (ending.Delivers rows item ∧ item.intent.id ∈ rows'.delivered ∨
        ¬ending.Delivers rows item ∧ ∃ delay message,
          ending.outcome.retry item = some (delay, message) ∧ ∃ receipt,
          rows'.receiptOf item.intent.id = some receipt ∧ receipt.state = .RETRYABLE ∧
            receipt.nextAttemptAt = some (drain.asOf + delay)) := by
  have hout : DeliveryRows.isOutstanding (rows.receiptOf item.intent.id) = true := by
    have hnot := hwait.outstanding
    rw [h.mem_delivered, Bool.not_eq_false] at hnot
    exact hnot
  obtain ⟨hdatabase, report, hreport, hwrite, -⟩ := deliverOne_eq_ok.mp hok
  rcases reportOf_eq_ok.mp hreport with
    ⟨success, houtcome, hid, rfl⟩ | ⟨delay, message, hretry, -, -, rfl⟩
  · -- the success is written for this intent only
    have hrecord : rows.recordSuccess success = .ok rows' := hwrite
    obtain ⟨hvalid, hgrows, -, hdelivered⟩ := DeliveryRows.recordSuccess_spec h
      (fun intent hintent hkey =>
        h.eq_of_key intent hintent _ hwait.cleared.mem (hkey.trans hid) ▸ hwait.cleared) hrecord
    obtain ⟨receipt, mappings, hrows, hreceiptId, -⟩ :=
      DeliveryRows.recordSuccess_of_outstanding (hid ▸ hout) hrecord
    refine ⟨⟨hvalid, hgrows, fun other hne => ?_⟩,
      .inl ⟨⟨hdatabase, success, houtcome, hid, rows', hrecord⟩, ?_⟩⟩
    · rw [hrows, receiptOf_withReceipt_of_ne (by rw [hreceiptId, hid]; exact hne)]
    · rw [hdelivered, ← hid]
      exact Set.mem_insert _ _
  · -- and so is the failure
    have hrecord : rows.recordFailure
        ⟨item.intent.id, drain.asOf + delay, message, drain.asOf⟩ = .ok rows' := hwrite
    obtain ⟨hvalid, hgrows, -, -⟩ := DeliveryRows.recordFailure_spec h hrecord
    obtain ⟨receipt, hrows, hreceiptId, hstate, hnext⟩ :=
      DeliveryRows.recordFailure_of_outstanding hout hrecord
    refine ⟨⟨hvalid, hgrows, fun other hne => ?_⟩,
      .inr ⟨?_, delay, message, hretry, receipt, ?_, hstate, hnext⟩⟩
    · rw [hrows, receiptOf_withReceipt_of_ne (by rw [hreceiptId]; exact hne)]
    · rintro ⟨-, success, houtcome, hid, -⟩
      rw [houtcome, AdapterOutcome.retry, if_pos hid] at hretry
      cases hretry
    · rw [hrows, DeliveryRows.receiptOf_withReceipt, if_pos hreceiptId]

/-- An attempt that delivers is guarded. -/
theorem AttemptEnd.Delivers.guarded (h : ending.Delivers rows item) :
    ending.Guarded rows asOf item := by
  obtain ⟨hdatabase, success, houtcome, hid, hrecord⟩ := h
  exact ⟨hdatabase, .inl ⟨success, houtcome, hid, (DeliveryRows.exists_recordSuccess.mp hrecord).2⟩⟩

/-- An attempt is guarded exactly when it ends with a delivery or with a later retry. -/
theorem guarded_iff (h : rows.Valid) (hwait : rows.Waiting drain.asOf item.intent) :
    ending.Guarded rows drain.asOf item ↔ ∃ rows' drain',
      deliverOne rows drain item ending = .ok (rows', drain') ∧
        (ending.Delivers rows item ∨ rows'.RetriesAfter drain.asOf item.intent.id) := by
  have hmem : item.intent.id ∈ rows.intents.map (·.semanticKey) :=
    List.mem_map_of_mem hwait.cleared.mem
  constructor
  · rintro ⟨hdatabase, ⟨success, houtcome, hid, hmappings⟩ |
      ⟨delay, message, hretry, hpositive, hrange, htext⟩⟩
    · -- the intent is delivered, and its mappings can be kept
      obtain ⟨rows', hrecord⟩ := DeliveryRows.exists_recordSuccess.mpr ⟨hid ▸ hmem, hmappings⟩
      refine ⟨rows', _, deliverOne_eq_ok.mpr ⟨hdatabase, .success success,
        reportOf_eq_ok.mpr (.inl ⟨success, houtcome, hid, rfl⟩), hrecord, rfl⟩,
        .inl ⟨hdatabase, success, houtcome, hid, rows', hrecord⟩⟩
    · -- the delivery fails, and a retry is written for a later instant
      obtain ⟨rows', hrecord⟩ : ∃ rows', rows.recordFailure
          ⟨item.intent.id, drain.asOf + delay, message, drain.asOf⟩ = .ok rows' :=
        DeliveryRows.exists_recordFailure hmem
      have hok : deliverOne rows drain item ending = .ok (rows', drain.counted (.failure
          ⟨item.intent.id, drain.asOf + delay, message, drain.asOf⟩)) :=
        deliverOne_eq_ok.mpr ⟨hdatabase, _,
          reportOf_eq_ok.mpr (.inr ⟨delay, message, hretry, hrange, htext, rfl⟩), hrecord, rfl⟩
      refine ⟨rows', _, hok, ?_⟩
      rcases (deliverOne_spec h hwait hok).2 with
        ⟨hdelivers, -⟩ | ⟨-, delay', message', hretry', receipt, hreceipt, hstate, hnext⟩
      · exact .inl hdelivers
      · obtain ⟨rfl, rfl⟩ : delay' = delay ∧ message' = message := by
          simpa [eq_comm] using hretry.symm.trans hretry'
        exact .inr ⟨receipt, hreceipt, hstate, _, hnext, by omega⟩
  · -- conversely, the report says which of the two guarded endings it was
    rintro ⟨rows', drain', hok, hdelivers | hretries⟩
    · exact hdelivers.guarded
    · obtain ⟨hdatabase, report, hreport, -, -⟩ := deliverOne_eq_ok.mp hok
      rcases (deliverOne_spec h hwait hok).2 with
        ⟨hdelivers, -⟩ | ⟨-, delay, message, hretry, receipt, hreceipt, -, hnext⟩
      · exact hdelivers.guarded
      · obtain ⟨receipt', hreceipt', -, instant, hinstant, hlater⟩ := hretries
        obtain rfl := Option.some.inj (hreceipt.symm.trans hreceipt')
        have hdelay := Option.some.inj (hnext.symm.trans hinstant)
        rcases reportOf_eq_ok.mp hreport with
          ⟨success, houtcome, hid, -⟩ | ⟨delay', message', hretry', hrange, htext, -⟩
        · rw [houtcome, AdapterOutcome.retry, if_pos hid] at hretry
          cases hretry
        · obtain ⟨rfl, rfl⟩ : delay' = delay ∧ message' = message := by
            simpa [eq_comm] using hretry.symm.trans hretry'
          exact ⟨hdatabase, .inr ⟨_, _, hretry', by omega, hrange, htext⟩⟩

/-! ### One poll -/

variable {payloads : StoredPayloads}

/-- An eligible intent can be delivered, and its payload can be read. -/
theorem eligible_iff (h : rows.Valid) {intent : ProjectionIntent} :
    rows.Eligible payloads asOf intent ↔ rows.Waiting asOf intent ∧
      ∃ keys, dependencyKeys (payloads.payload intent) = .ok keys := by
  have hrow : ∀ receipt, (intent, receipt) ∈ rows.firstOutstandingByTeam ∧
      rows.isReady payloads asOf (intent, receipt) = .ok true ↔
      (intent, receipt) ∈ rows.ready asOf ∧
        ∃ keys, dependencyKeys (payloads.payload intent) = .ok keys := by
    intro receipt
    rw [DeliveryRows.isReady_eq_ok, DeliveryRows.ready, List.mem_filter]
    constructor
    · rintro ⟨hmem, hreadable, hready⟩
      have hdue := (Bool.and_eq_true _ _ ▸ hready.symm).1
      exact ⟨⟨hmem, hready.symm⟩, hreadable hdue⟩
    · rintro ⟨⟨hmem, hready⟩, hkeys⟩
      exact ⟨hmem, fun _ => hkeys, hready.symm⟩
  simp only [DeliveryRows.Eligible, hrow, DeliveryRows.mem_ready h]
  constructor
  · rintro ⟨receipt, ⟨hwait, -⟩, hkeys⟩
    exact ⟨hwait, hkeys⟩
  · rintro ⟨hwait, hkeys⟩
    exact ⟨_, ⟨hwait, rfl⟩, hkeys⟩

/-- A poll raises at due heads whose payloads cannot be read, and they are not retried later. -/
theorem polled_iff (h : rows.Valid) : (DrainStep.polled rows).Guarded payloads asOf ↔
    ∀ id, (DrainStep.polled rows).RaisedAt payloads asOf id → rows.RetriesAfter asOf id := by
  constructor
  · rintro hreadable id ⟨row, hrow, -, error, herror⟩
    have hready : rows.isReady payloads asOf row =
        .ok (DeliveryRows.due row.2 asOf && rows.dependenciesDelivered row.1) :=
      DeliveryRows.isReady_eq_ok.mpr ⟨hreadable row hrow, rfl⟩
    rw [hready] at herror
    cases herror
  · intro hretried row hrow hdue
    by_contra hnot
    have hreceipt : row.2 = rows.receiptOf row.1.id :=
      ((DeliveryRows.mem_outstanding h).mp ((DeliveryRows.mem_firstOutstanding h).mp hrow).1).2.1
    obtain ⟨error, herror⟩ : ∃ error, rows.isReady payloads asOf row = .error error := by
      cases hready : rows.isReady payloads asOf row with
      | error error => exact ⟨error, rfl⟩
      | ok keep => exact absurd ((DeliveryRows.isReady_eq_ok.mp hready).1 hdue) hnot
    exact not_retriesAfter_of_due (hreceipt ▸ hdue) (hretried row.1.id ⟨row, hrow, rfl, error, herror⟩)

/-! ### Calls -/

/-- The local variables when the attempt of an item begins. -/
def Drain.begun (drain : Drain) (item : PendingJiraIntent) : Drain :=
  { drain with
    processed := item.intent.id :: drain.processed
    attempted := drain.attempted + 1 }

/-- What holds of a call after each of its interactions.  An exception of a logged step was guarded
exactly when the intents that it was raised at are retried later. -/
structure DrainCall.Sound (payloads : StoredPayloads) (asOf limit : ℤ) (call : DrainCall) :
    Prop where
  asOf_eq : call.drain.asOf = asOf
  limit_eq : call.drain.limit = limit
  valid : call.rows.Valid
  logged : ∀ step ∈ call.steps, step.Guarded payloads asOf ↔
    ∀ id, step.RaisedAt payloads asOf id → call.rows.RetriesAfter asOf id
  named : call.status = .running → ∀ step ∈ call.steps, ∀ id, step.RaisedAt payloads asOf id →
    id ∈ call.drain.processed
  settled : (∀ step ∈ call.steps, step.Guarded payloads asOf) → ∀ id ∈ call.drain.processed,
    id ∈ call.rows.delivered ∨ call.rows.RetriesAfter asOf id
  waiting : ∀ step ∈ call.steps, ∀ intent, step.rows.Eligible payloads asOf intent →
    intent.id ∈ call.drain.processed ∨ call.rows.Waiting asOf intent
  unguarded : ∀ error, call.status = .raised error → ∃ step ∈ call.steps, ¬step.Guarded payloads asOf
  finished : call.status = .returned → limit ≤ call.drain.attempted ∨
    ((∀ step ∈ call.steps, step.Guarded payloads asOf) →
      ∀ intent, ¬call.rows.Waiting asOf intent)

/-- The items that a `for` loop has still to attempt. -/
structure DrainCall.Batch (asOf : ℤ) (call : DrainCall) (items : List PendingJiraIntent) :
    Prop where
  fresh : ∀ item ∈ items, item.intent.id ∉ call.drain.processed
  waiting : ∀ item ∈ items, call.rows.Waiting asOf item.intent
  distinct : items.Pairwise fun a b => a.intent.id ≠ b.intent.id

variable {call : DrainCall} {endings : ℕ → AttemptEnd} {limit : ℤ}

theorem DeliveryRows.RetriesAfter.congr {id : IntentId}
    (hreceipt : rows'.receiptOf id = rows.receiptOf id) :
    rows'.RetriesAfter asOf id ↔ rows.RetriesAfter asOf id := by
  rw [DeliveryRows.RetriesAfter, DeliveryRows.RetriesAfter, hreceipt]

namespace DrainCall

/-- A call after an attempt: the attempt is logged and counted, it wrote the receipt of its intent
only, and an exception that was not guarded has ended the call. -/
structure Attempted (payloads : StoredPayloads) (asOf : ℤ) (call call' : DrainCall)
    (item : PendingJiraIntent) (step : DrainStep) : Prop where
  rows_eq : step.rows = call.rows
  steps : call'.steps = step :: call.steps
  processed : call'.drain.processed = item.intent.id :: call.drain.processed
  attempted : call'.drain.attempted = call.drain.attempted + 1
  asOf_eq : call'.drain.asOf = call.drain.asOf
  limit_eq : call'.drain.limit = call.drain.limit
  frame : AttemptFrame call.rows call'.rows item.intent.id
  raisedAt : ∀ id, step.RaisedAt payloads asOf id → id = item.intent.id
  logged : step.Guarded payloads asOf ↔
    ∀ id, step.RaisedAt payloads asOf id → call'.rows.RetriesAfter asOf id
  settled : step.Guarded payloads asOf → item.intent.id ∈ call'.rows.delivered ∨
    call'.rows.RetriesAfter asOf item.intent.id
  running_of : step.Guarded payloads asOf → call'.status = .running
  status : call'.status ≠ .returned

theorem attempt_of_error {error : PyError} (hrun : call.status = .running)
    (hone : deliverOne call.rows (call.drain.begun item) item (endings call.drain.attempted) =
      .error error) :
    call.attempt endings item =
      { rows := call.rows, drain := call.drain.begun item
        steps := .attempted call.rows item (endings call.drain.attempted) :: call.steps
        status := .raised error } := by
  unfold Drain.begun at hone
  simp only [attempt, hrun, hone, Drain.begun]

theorem attempt_of_ok (hrun : call.status = .running)
    (hone : deliverOne call.rows (call.drain.begun item) item (endings call.drain.attempted) =
      .ok (rows', drain')) :
    call.attempt endings item =
      { rows := rows', drain := drain'
        steps := .attempted call.rows item (endings call.drain.attempted) :: call.steps } := by
  unfold Drain.begun at hone
  simp only [attempt, hrun, hone]

theorem attempted_attempt (hrun : call.status = .running) (h : call.rows.Valid)
    (hwait : call.rows.Waiting call.drain.asOf item.intent) :
    Attempted payloads call.drain.asOf call (call.attempt endings item) item
      (.attempted call.rows item (endings call.drain.attempted)) := by
  set ending := endings call.drain.attempted with hending
  set drain := call.drain.begun item with hdrain
  have hwaiting : call.rows.Waiting drain.asOf item.intent := hwait
  have hguarded : ending.Guarded call.rows drain.asOf item ↔ ∃ rows' drain',
      deliverOne call.rows drain item ending = .ok (rows', drain') ∧
        (ending.Delivers call.rows item ∨ rows'.RetriesAfter drain.asOf item.intent.id) :=
    guarded_iff h hwaiting
  -- the exception of the step, in terms of the rows after it
  have hraised : ∀ rows' : DeliveryRows,
      (∀ id, (DrainStep.attempted call.rows item ending).RaisedAt payloads call.drain.asOf id →
        rows'.RetriesAfter call.drain.asOf id) ↔
      (ending.Delivers call.rows item ∨ rows'.RetriesAfter call.drain.asOf item.intent.id) := by
    intro rows'
    constructor
    · intro hretried
      by_cases hdelivers : ending.Delivers call.rows item
      · exact .inl hdelivers
      · exact .inr (hretried _ ⟨rfl, hdelivers⟩)
    · rintro (hdelivers | hretries) id ⟨rfl, hnot⟩
      · exact absurd hdelivers hnot
      · exact hretries
  cases hone : deliverOne call.rows drain item ending with
  | error error =>
    have hnot : ¬ending.Guarded call.rows drain.asOf item := by
      intro h'
      obtain ⟨rows', drain', hok, -⟩ := hguarded.mp h'
      rw [hone] at hok
      cases hok
    rw [attempt_of_error hrun hone]
    exact {
      rows_eq := rfl
      steps := rfl
      processed := rfl
      attempted := rfl
      asOf_eq := rfl
      limit_eq := rfl
      frame := ⟨h, .refl _, fun _ _ => rfl⟩
      raisedAt := fun id hid => hid.1
      logged := by
        rw [hraised]
        refine ⟨fun h' => absurd h' hnot, ?_⟩
        rintro (hdelivers | hretries)
        · exact hdelivers.guarded
        · exact absurd hretries (not_retriesAfter_of_due hwait.due)
      settled := fun h' => absurd h' hnot
      running_of := fun h' => absurd h' hnot
      status := by simp }
  | ok result =>
    obtain ⟨rows', drain'⟩ := result
    obtain ⟨-, report, -, -, rfl⟩ := deliverOne_eq_ok.mp hone
    obtain ⟨hframe, houtcome⟩ := deliverOne_spec h hwaiting hone
    have hstep : ending.Guarded call.rows drain.asOf item ↔
        (ending.Delivers call.rows item ∨ rows'.RetriesAfter drain.asOf item.intent.id) := by
      rw [hguarded]
      constructor
      · rintro ⟨rows'', drain'', hok, hend⟩
        obtain ⟨rfl, -⟩ := Prod.mk.inj (Except.ok.inj (hone.symm.trans hok))
        exact hend
      · exact fun hend => ⟨rows', _, hone, hend⟩
    rw [attempt_of_ok hrun hone]
    exact {
      rows_eq := rfl
      steps := rfl
      processed := Drain.counted_processed drain report
      attempted := Drain.counted_attempted drain report
      asOf_eq := Drain.counted_asOf drain report
      limit_eq := Drain.counted_limit drain report
      frame := hframe
      raisedAt := fun id hid => hid.1
      logged := hstep.trans (hraised rows').symm
      settled := by
        intro h'
        rcases houtcome with ⟨-, hdelivered⟩ | ⟨hnot, -⟩
        · exact .inl hdelivered
        · exact (hstep.mp h').imp_left fun hdelivers => absurd hdelivers hnot
      running_of := fun _ => rfl
      status := by simp }

/-- An attempt of a fresh intent keeps a call sound. -/
theorem Sound.attempted {call' : DrainCall} {step : DrainStep}
    (h : call.Sound payloads asOf limit) (hrun : call.status = .running)
    (hfresh : item.intent.id ∉ call.drain.processed)
    (hattempt : Attempted payloads asOf call call' item step) :
    call'.Sound payloads asOf limit := by
  obtain ⟨hvalid, hgrows, hothers⟩ := hattempt.frame
  -- the receipts of the attempted intents are not written again
  have hkept : ∀ id ∈ call.drain.processed,
      call'.rows.RetriesAfter asOf id ↔ call.rows.RetriesAfter asOf id := by
    intro id hid
    refine DeliveryRows.RetriesAfter.congr (hothers id fun heq => ?_)
    exact hfresh (heq ▸ hid)
  exact {
    asOf_eq := hattempt.asOf_eq.trans h.asOf_eq
    limit_eq := hattempt.limit_eq.trans h.limit_eq
    valid := hvalid
    logged := by
      intro logged hlogged
      rw [hattempt.steps] at hlogged
      rcases List.mem_cons.mp hlogged with rfl | hlogged
      · exact hattempt.logged
      · rw [h.logged logged hlogged]
        have hids := h.named hrun logged hlogged
        exact forall_congr' fun id => ⟨fun hr hid => (hkept id (hids id hid)).mpr (hr hid),
          fun hr hid => (hkept id (hids id hid)).mp (hr hid)⟩
    named := by
      intro _ logged hlogged id hid
      rw [hattempt.steps] at hlogged
      rw [hattempt.processed]
      rcases List.mem_cons.mp hlogged with rfl | hlogged
      · rw [hattempt.raisedAt id hid]
        exact List.mem_cons_self
      · exact List.mem_cons_of_mem _ (h.named hrun logged hlogged id hid)
    settled := by
      intro hguarded id hid
      rw [hattempt.steps, List.forall_mem_cons] at hguarded
      rw [hattempt.processed] at hid
      rcases List.mem_cons.mp hid with rfl | hid
      · exact hattempt.settled hguarded.1
      · exact (h.settled hguarded.2 id hid).imp (fun hd => hgrows.delivered hd) (hkept id hid).mpr
    waiting := by
      intro logged hlogged intent heligible
      have hbefore : intent.id ∈ call.drain.processed ∨ call.rows.Waiting asOf intent := by
        rw [hattempt.steps] at hlogged
        rcases List.mem_cons.mp hlogged with rfl | hlogged
        · rw [hattempt.rows_eq] at heligible
          exact .inr ((eligible_iff h.valid).mp heligible).1
        · exact h.waiting logged hlogged intent heligible
      rw [hattempt.processed]
      by_cases hid : intent.id = item.intent.id
      · exact .inl (hid ▸ List.mem_cons_self)
      · exact hbefore.imp (List.mem_cons_of_mem _) fun hwait =>
          hwait.grows h.valid hvalid hgrows (hothers _ hid)
    unguarded := by
      intro error herror
      refine ⟨step, hattempt.steps ▸ List.mem_cons_self, fun hguarded => ?_⟩
      rw [hattempt.running_of hguarded] at herror
      cases herror
    finished := fun hreturned => absurd hreturned hattempt.status }

/-- The rest of a batch after an attempt of its first item. -/
theorem Batch.attempted {call' : DrainCall} {step : DrainStep} {items : List PendingJiraIntent}
    (hbatch : call.Batch asOf (item :: items)) (hvalid : call.rows.Valid)
    (hattempt : Attempted payloads asOf call call' item step) : call'.Batch asOf items where
  fresh := by
    intro other hother
    rw [hattempt.processed, List.mem_cons, not_or]
    exact ⟨(List.rel_of_pairwise_cons hbatch.distinct hother).symm,
      hbatch.fresh other (List.mem_cons_of_mem _ hother)⟩
  waiting := by
    intro other hother
    obtain ⟨hvalid', hgrows, hothers⟩ := hattempt.frame
    exact (hbatch.waiting other (List.mem_cons_of_mem _ hother)).grows hvalid hvalid' hgrows
      (hothers _ (List.rel_of_pairwise_cons hbatch.distinct hother).symm)
  distinct := hbatch.distinct.of_cons

/-- An ended call attempts nothing more. -/
theorem foldl_attempt_of_ended (hrun : call.status ≠ .running) (items : List PendingJiraIntent) :
    items.foldl (attempt endings) call = call := by
  induction items with
  | nil => rfl
  | cons item items ih =>
    have hattempt : call.attempt endings item = call := by
      unfold attempt
      cases hstatus : call.status with
      | running => exact absurd hstatus hrun
      | returned => rfl
      | raised error => rfl
    rw [List.foldl_cons, hattempt, ih]

/-- The `for` loop keeps a call sound, and attempts all items unless it raises. -/
theorem Sound.foldl_attempt {items : List PendingJiraIntent} (h : call.Sound payloads asOf limit)
    (hrun : call.status = .running) (hbatch : call.Batch asOf items) :
    (items.foldl (attempt endings) call).Sound payloads asOf limit ∧
      ((items.foldl (attempt endings) call).status = .running →
        (items.foldl (attempt endings) call).drain.attempted =
          call.drain.attempted + items.length) ∧
      (items.foldl (attempt endings) call).status ≠ .returned := by
  induction items generalizing call with
  | nil => exact ⟨h, fun _ => rfl, by simp [hrun]⟩
  | cons item items ih =>
    have hwait := hbatch.waiting item List.mem_cons_self
    have hattempt : Attempted payloads asOf call (call.attempt endings item) item
        (.attempted call.rows item (endings call.drain.attempted)) :=
      h.asOf_eq ▸ attempted_attempt hrun h.valid (h.asOf_eq ▸ hwait)
    have hsound := h.attempted hrun (hbatch.fresh item List.mem_cons_self) hattempt
    rw [List.foldl_cons]
    by_cases hrun' : (call.attempt endings item).status = .running
    · obtain ⟨hlast, hcount, hstatus⟩ := ih hsound hrun' (hbatch.attempted h.valid hattempt)
      refine ⟨hlast, fun hr => ?_, hstatus⟩
      rw [hcount hr, hattempt.attempted, List.length_cons]
      omega
    · rw [foldl_attempt_of_ended hrun']
      exact ⟨hsound, fun hr => absurd hr hrun', hattempt.status⟩

/-- A logged poll keeps a call sound: it raises exactly when a due head cannot be read. -/
theorem Sound.polled (h : call.Sound payloads asOf limit) (hrun : call.status = .running)
    (status : CallStatus) (hrunning : status = .running → call.rows.Readable payloads asOf)
    (hraised : ∀ error, status = .raised error → ¬call.rows.Readable payloads asOf)
    (hreturned : status = .returned → call.rows.Readable payloads asOf ∧
      ((∀ step ∈ call.steps, step.Guarded payloads asOf) →
        ∀ intent, ¬call.rows.Waiting asOf intent)) :
    ({ call with steps := .polled call.rows :: call.steps, status } : DrainCall).Sound
      payloads asOf limit where
  asOf_eq := h.asOf_eq
  limit_eq := h.limit_eq
  valid := h.valid
  logged := List.forall_mem_cons.mpr ⟨polled_iff h.valid, h.logged⟩
  named := by
    intro hstatus
    refine List.forall_mem_cons.mpr ⟨?_, h.named hrun⟩
    rintro id ⟨row, hrow, -, error, herror⟩
    have hready : call.rows.isReady payloads asOf row =
        .ok (DeliveryRows.due row.2 asOf && call.rows.dependenciesDelivered row.1) :=
      DeliveryRows.isReady_eq_ok.mpr ⟨hrunning hstatus row hrow, rfl⟩
    rw [hready] at herror
    cases herror
  settled hguarded := h.settled (List.forall_mem_cons.mp hguarded).2
  waiting := List.forall_mem_cons.mpr
    ⟨fun _ heligible => .inr ((eligible_iff h.valid).mp heligible).1, h.waiting⟩
  unguarded error herror := ⟨_, List.mem_cons_self, hraised error herror⟩
  finished hstatus := .inr fun hguarded =>
    (hreturned hstatus).2 (List.forall_mem_cons.mp hguarded).2

/-- The pending intents that were not attempted yet are a batch. -/
theorem batch_of_ready (h : call.rows.Valid) (k : ℕ) :
    call.Batch asOf ((((call.rows.ready asOf).take k).map DeliveryRows.pendingIntent).filter
      fun item => item.intent.id ∉ call.drain.processed) where
  fresh item hitem := of_decide_eq_true (List.mem_filter.mp hitem).2
  waiting := by
    intro item hitem
    obtain ⟨row, hrow, rfl⟩ := List.mem_map.mp (List.mem_filter.mp hitem).1
    exact ((DeliveryRows.mem_ready h).mp (List.mem_of_mem_take hrow)).1
  distinct := by
    have hpairwise : ((call.rows.ready asOf).take k).Pairwise fun a b => a.1.id ≠ b.1.id := by
      have hsequences : (call.rows.ready asOf).Pairwise
          fun a b => a.1.appendSequence < b.1.appendSequence :=
        (DeliveryRows.outstanding_pairwise h).sublist
          (List.filter_sublist.trans (Outbox.firsts_sublist _ call.rows.outstanding))
      refine (List.Pairwise.imp_of_mem ?_ hsequences).sublist (List.take_sublist k _)
      intro a b ha hb hlt hid
      have hintent : a.1 = b.1 := h.eq_of_key _ ((DeliveryRows.mem_ready h).mp ha).1.cleared.mem _
        ((DeliveryRows.mem_ready h).mp hb).1.cleared.mem hid
      rw [hintent] at hlt
      exact absurd hlt (lt_irrefl _)
    refine List.Pairwise.filter _ (List.pairwise_map.mpr ?_)
    exact hpairwise

/-- When all attempted intents are settled and none of the first pending ones is fresh, none is
waiting. -/
theorem Sound.not_waiting (h : call.Sound payloads asOf limit) {k : ℕ} (hk : 0 < k)
    (hempty : (((call.rows.ready asOf).take k).map DeliveryRows.pendingIntent).filter
      (fun item => item.intent.id ∉ call.drain.processed) = [])
    (hguarded : ∀ step ∈ call.steps, step.Guarded payloads asOf) (intent : ProjectionIntent) :
    ¬call.rows.Waiting asOf intent := by
  intro hwait
  have hmem : (intent, call.rows.receiptOf intent.id) ∈ call.rows.ready asOf :=
    (DeliveryRows.mem_ready h.valid).mpr ⟨hwait, rfl⟩
  obtain ⟨row, rest, hready⟩ := List.exists_cons_of_ne_nil (List.ne_nil_of_mem hmem)
  obtain ⟨n, rfl⟩ : ∃ n, k = n + 1 := ⟨k - 1, by omega⟩
  have hrow : call.rows.Waiting asOf row.1 :=
    ((DeliveryRows.mem_ready h.valid).mp (hready ▸ List.mem_cons_self)).1
  rw [hready, List.take_succ_cons, List.map_cons, List.filter_eq_nil_iff,
    List.forall_mem_cons] at hempty
  have hprocessed : row.1.id ∈ call.drain.processed := by
    by_contra hnot
    exact hempty.1 (decide_eq_true hnot)
  rcases h.settled hguarded _ hprocessed with hdelivered | hretries
  · exact hrow.outstanding hdelivered
  · exact not_retriesAfter_of_due hrow.due hretries

theorem round_of_ended (hrun : call.status ≠ .running) : call.round payloads endings = call := by
  unfold round
  cases hstatus : call.status with
  | running => exact absurd hstatus hrun
  | returned => rfl
  | raised error => rfl

/-- A round keeps a call sound, and attempts an intent unless it ends the call. -/
theorem Sound.round (h : call.Sound payloads asOf limit) (hmax : limit ≤ DeliveryRows.maxPendingLimit) :
    (call.round payloads endings).Sound payloads asOf limit ∧
      ((call.round payloads endings).status = .running → call.status = .running ∧
        call.drain.attempted < limit ∧
        call.drain.attempted < (call.round payloads endings).drain.attempted) := by
  by_cases hrun : call.status = .running
  swap
  · rw [round_of_ended hrun]
    exact ⟨h, fun hr => absurd hr hrun⟩
  obtain ⟨hasOf, hlimit⟩ := And.intro h.asOf_eq h.limit_eq
  unfold DrainCall.round
  simp only [hrun, hasOf, hlimit]
  -- the budget is spent, or at least one intent may be asked for
  by_cases hlt : (call.drain.attempted : ℤ) < limit
  swap
  · rw [if_neg hlt]
    refine ⟨?_, fun hr => by cases hr⟩
    exact { h with
      named := fun hr => by cases hr
      unguarded := fun error herror => by cases herror
      finished := fun _ => .inl (not_lt.mp hlt) }
  rw [if_pos hlt]
  have hbounds : 1 ≤ limit - call.drain.attempted ∧
      limit - call.drain.attempted ≤ DeliveryRows.maxPendingLimit := by omega
  have hpending : ∀ items, call.rows.storedPending payloads asOf (limit - call.drain.attempted) =
      .ok items ↔ call.rows.Readable payloads asOf ∧
        items = ((call.rows.ready asOf).take (limit - call.drain.attempted).toNat).map
          DeliveryRows.pendingIntent := fun items => DeliveryRows.storedPending_eq_ok hbounds
  cases hresult : call.rows.storedPending payloads asOf (limit - call.drain.attempted) with
  | error error =>
    refine ⟨h.polled hrun _ (fun hr => by cases hr) (fun _ _ hreadable => ?_)
      (fun hr => by cases hr), fun hr => by cases hr⟩
    -- a page that can be read is not refused
    have hok := (hpending _).mpr ⟨hreadable, rfl⟩
    rw [hresult] at hok
    cases hok
  | ok items =>
    obtain ⟨hreadable, hitems⟩ := (hpending items).mp hresult
    subst hitems
    have hbatch : call.Batch asOf _ := batch_of_ready h.valid (limit - call.drain.attempted).toNat
    cases hfresh : (((call.rows.ready asOf).take (limit - call.drain.attempted).toNat).map
        DeliveryRows.pendingIntent).filter (fun item => item.intent.id ∉ call.drain.processed) with
    | nil =>
      simp only [hfresh]
      refine ⟨h.polled hrun _ (fun hr => by cases hr) (fun _ hr => by cases hr) fun _ =>
        ⟨hreadable, h.not_waiting (by omega) hfresh⟩, fun hr => by cases hr⟩
    | cons item rest =>
      rw [hfresh] at hbatch
      simp only [hfresh]
      have hpolled := h.polled hrun .running (fun _ => hreadable) (fun _ hr => by cases hr)
        (fun hr => by cases hr)
      -- the fresh intents are attempted in turn, and each counts
      obtain ⟨hsound, hcount, -⟩ := hpolled.foldl_attempt rfl
        ⟨hbatch.fresh, hbatch.waiting, hbatch.distinct⟩
      refine ⟨hsound, fun hr => ⟨trivial, hlt, ?_⟩⟩
      have hattempted := hcount hr
      simp only [List.length_cons] at hattempted
      omega

/-- Rounds keep a call sound, and those after which it still runs have attempted an intent each. -/
theorem Sound.rounds (h : call.Sound payloads asOf limit)
    (hmax : limit ≤ DeliveryRows.maxPendingLimit) (n : ℕ) :
    ((DrainCall.round payloads endings)^[n] call).Sound payloads asOf limit ∧
      (((DrainCall.round payloads endings)^[n] call).status = .running →
        n ≤ ((DrainCall.round payloads endings)^[n] call).drain.attempted ∧ (0 < n → n ≤ limit)) := by
  induction n with
  | zero => exact ⟨h, fun _ => ⟨Nat.zero_le _, fun hn => absurd hn (lt_irrefl _)⟩⟩
  | succ n ih =>
    obtain ⟨hsound, hcount⟩ := ih
    rw [Function.iterate_succ_apply']
    obtain ⟨hround, hprogress⟩ := hsound.round hmax
    refine ⟨hround, fun hr => ?_⟩
    obtain ⟨hrun, hlt, hmore⟩ := hprogress hr
    have hn := (hcount hrun).1
    constructor
    · omega
    · omega

end DrainCall

theorem sound_start (h : rows.Valid) : ({ rows, drain := { asOf, limit } } : DrainCall).Sound
    payloads asOf limit where
  asOf_eq := rfl
  limit_eq := rfl
  valid := h
  logged := by simp
  named := by simp
  settled := by simp
  waiting := by simp
  unguarded := by simp
  finished := by simp

theorem sound_drainOnce (h : rows.Valid) (hmax : limit ≤ DeliveryRows.maxPendingLimit) :
    (drainOnce payloads endings rows asOf limit).Sound payloads asOf limit ∧
      (drainOnce payloads endings rows asOf limit).status ≠ .running := by
  have hstart : ({ rows, drain := { asOf, limit } } : DrainCall).Sound payloads asOf limit :=
    sound_start h
  have hrounds : (drainOnce payloads endings rows asOf limit).Sound payloads asOf limit ∧
      ((drainOnce payloads endings rows asOf limit).status = .running →
        limit.toNat + 1 ≤ (drainOnce payloads endings rows asOf limit).drain.attempted ∧
          (0 < limit.toNat + 1 → ((limit.toNat + 1 : ℕ) : ℤ) ≤ limit)) :=
    hstart.rounds hmax (limit.toNat + 1)
  refine ⟨hrounds.1, fun hrun => ?_⟩
  have hbound := (hrounds.2 hrun).2 (Nat.succ_pos _)
  omega

/-- A call that an exception ends does not isolate its failures. -/
theorem not_isolated_of_raised (h : rows.Valid) (hmax : limit ≤ DeliveryRows.maxPendingLimit)
    {error : PyError} (hraised : (drainOnce payloads endings rows asOf limit).status = .raised error) :
    ¬(drainOnce payloads endings rows asOf limit).Isolated payloads asOf limit := by
  intro hisolated
  have hsound : (drainOnce payloads endings rows asOf limit).Sound payloads asOf limit :=
    (sound_drainOnce h hmax).1
  obtain ⟨step, hstep, hnot⟩ := hsound.unguarded error hraised
  exact hnot ((hsound.logged step hstep).mpr (hisolated.retried step hstep))

/-! ### Calls are runs of a worker -/

section worker

variable {s : DeliverySystem} {worker : ℕ}

/-- The system has the rows of the call, and the worker is where the call is while it runs. -/
structure Follows (s : DeliverySystem) (worker : ℕ) (call : DrainCall) (state : WorkerState) :
    Prop where
  rows : s.rows = call.rows
  worker : call.status = .running → s.workers worker = state

theorem reachesBy_step (s : DeliverySystem) (event : DeliveryEvent) :
    deliveryRuns.ReachesBy (fun _ _ => True) s (s.step event) :=
  Relation.ReflTransGen.single ⟨event, trivial, rfl⟩

/-- An attempt is an answer of the adapter and, when there is a report, its recording. -/
theorem Follows.attempt {rest : List PendingJiraIntent} (hrun : call.status = .running)
    (h : Follows s worker call (call.drain.nextItem (item :: rest))) :
    ∃ s', deliveryRuns.ReachesBy (fun _ _ => True) s s' ∧
      Follows s' worker (call.attempt endings item)
        ((call.attempt endings item).drain.nextItem rest) := by
  obtain ⟨hrows, hworker⟩ := h
  have hstate := hworker hrun
  set ending := endings call.drain.attempted with hending
  set drain := call.drain.begun item with hdrain
  have hdelivering : s.workers worker = .delivering drain item rest := hstate
  cases hone : deliverOne call.rows drain item ending with
  | error error =>
    rw [DrainCall.attempt_of_error hrun hone]
    exact ⟨s, .refl, hrows, fun hr => by cases hr⟩
  | ok result =>
    obtain ⟨rows', drain'⟩ := result
    obtain ⟨-, report, hreport, hwrite, rfl⟩ := deliverOne_eq_ok.mp hone
    have hanswer : s.step (.answer worker ending.outcome) =
        s.withWorker worker (.recording drain item rest report) := by
      simp only [DeliverySystem.step, hdelivering, hreport]
    have hrecord : (s.withWorker worker (.recording drain item rest report)).step (.record worker) =
        ({ s.withWorker worker (.recording drain item rest report) with
            rows := rows' } : DeliverySystem).withWorker worker
          ((drain.counted report).nextItem rest) := by
      simp only [DeliverySystem.step, DeliverySystem.withWorker, Function.update_self, hrows, hwrite]
    refine ⟨_, (reachesBy_step s (.answer worker ending.outcome)).trans
      (reachesBy_step _ (.record worker)), ?_⟩
    rw [hanswer, hrecord, DrainCall.attempt_of_ok hrun hone]
    exact ⟨rfl, fun _ => Function.update_self ..⟩

theorem Follows.foldl_attempt {items : List PendingJiraIntent} (hrun : call.status = .running)
    (h : Follows s worker call (call.drain.nextItem items)) :
    ∃ s', deliveryRuns.ReachesBy (fun _ _ => True) s s' ∧
      Follows s' worker (items.foldl (DrainCall.attempt endings) call)
        (items.foldl (DrainCall.attempt endings) call).drain.continue := by
  induction items generalizing call s with
  | nil => exact ⟨s, .refl, h⟩
  | cons item items ih =>
    rw [List.foldl_cons]
    obtain ⟨s', hreach, hfollows⟩ : ∃ s', deliveryRuns.ReachesBy (fun _ _ => True) s s' ∧
        Follows s' worker (call.attempt endings item)
          ((call.attempt endings item).drain.nextItem items) := h.attempt hrun
    by_cases hrun' : (call.attempt endings item).status = .running
    · obtain ⟨s'', hreach', hlast⟩ := ih hrun' hfollows
      exact ⟨s'', hreach.trans hreach', hlast⟩
    · rw [DrainCall.foldl_attempt_of_ended hrun']
      exact ⟨s', hreach, hfollows.rows, fun hr => absurd hr hrun'⟩

/-- A round is a poll of the worker and the attempts of the items that it finds. -/
theorem Follows.round (h : Follows s worker call call.drain.continue)
    (hmax : call.drain.limit ≤ DeliveryRows.maxPendingLimit) :
    ∃ s', deliveryRuns.ReachesBy (fun _ _ => True) s s' ∧
      Follows s' worker (call.round payloads endings)
        (call.round payloads endings).drain.continue := by
  by_cases hrun : call.status = .running
  swap
  · rw [DrainCall.round_of_ended hrun]
    exact ⟨s, .refl, h⟩
  obtain ⟨hrows, hworker⟩ := h
  have hstate := hworker hrun
  unfold DrainCall.round
  simp only [hrun]
  by_cases hlt : (call.drain.attempted : ℤ) < call.drain.limit
  swap
  · rw [if_neg hlt]
    exact ⟨s, .refl, hrows, fun hr => by cases hr⟩
  rw [if_pos hlt]
  rw [Drain.continue, if_pos hlt] at hstate
  have hbounds : 1 ≤ call.drain.limit - call.drain.attempted ∧
      call.drain.limit - call.drain.attempted ≤ DeliveryRows.maxPendingLimit := by omega
  cases hresult : call.rows.storedPending payloads call.drain.asOf
      (call.drain.limit - call.drain.attempted) with
  | error error => exact ⟨s, .refl, hrows, fun hr => by cases hr⟩
  | ok items =>
    obtain ⟨-, hitems⟩ := (DeliveryRows.storedPending_eq_ok hbounds).mp hresult
    -- the worker reads the page that the call reads
    have hpending : s.rows.pending call.drain.asOf (call.drain.limit - call.drain.attempted) =
        .ok items := by
      rw [hrows, hitems, DeliveryRows.pending, require, check_of hbounds]
      rfl
    cases hfresh : items.filter (fun item => item.intent.id ∉ call.drain.processed) with
    | nil =>
      simp only [hfresh]
      exact ⟨s, .refl, hrows, fun hr => by cases hr⟩
    | cons item rest =>
      have hpoll : s.step (.poll worker) =
          s.withWorker worker (call.drain.nextItem (item :: rest)) := by
        simp only [DeliverySystem.step, hstate, Drain.poll, hpending, hfresh]
      simp only [hfresh]
      -- and attempts the same intents, one step for each
      have hpolled : Follows (s.step (.poll worker)) worker
          { call with steps := .polled call.rows :: call.steps, status := .running }
          (call.drain.nextItem (item :: rest)) := by
        rw [hpoll]
        exact ⟨hrows, fun _ => Function.update_self ..⟩
      obtain ⟨s', hreach, hlast⟩ := hpolled.foldl_attempt rfl
      exact ⟨s', (reachesBy_step s (.poll worker)).trans hreach, hlast⟩

/-- A call of `drain_once` leaves the rows that a run of one worker leaves. -/
theorem drainOnce_reachesBy (h : deliveryRuns.Reachable s) (hidle : s.workers worker = .idle)
    (payloads : StoredPayloads) (endings : ℕ → AttemptEnd) {asOf limit : ℤ}
    (hmax : limit ≤ DeliveryRows.maxPendingLimit) :
    ∃ s', deliveryRuns.ReachesBy (fun _ _ => True) s s' ∧
      s'.rows = (drainOnce payloads endings s.rows asOf limit).rows := by
  let start : DrainCall := { rows := s.rows, drain := { asOf, limit } }
  have hstart : Follows (s.step (.start worker asOf limit)) worker start start.drain.continue := by
    simp only [DeliverySystem.step, hidle]
    exact ⟨rfl, fun _ => Function.update_self ..⟩
  have hsound : start.Sound payloads asOf limit := sound_start (sound_of_reachable h).valid
  have hrounds : ∀ n : ℕ, ∃ s', deliveryRuns.ReachesBy (fun _ _ => True) s s' ∧
      Follows s' worker ((DrainCall.round payloads endings)^[n] start)
        ((DrainCall.round payloads endings)^[n] start).drain.continue := by
    intro n
    induction n with
    | zero => exact ⟨_, reachesBy_step s _, hstart⟩
    | succ n ih =>
      obtain ⟨s', hreach, hfollows⟩ := ih
      have hlimit : ((DrainCall.round payloads endings)^[n] start).drain.limit = limit :=
        (hsound.rounds hmax n).1.limit_eq
      rw [Function.iterate_succ_apply']
      obtain ⟨s'', hreach', hlast⟩ := hfollows.round (hlimit.trans_le hmax)
      exact ⟨s'', hreach.trans hreach', hlast⟩
  obtain ⟨s', hreach, hfollows⟩ := hrounds (limit.toNat + 1)
  exact ⟨s', hreach, hfollows.rows⟩

end worker

/-- Every call of `drain_once` ends.  The intents at which an exception was raised are retried later
and the call attempts all eligible intents within its limit, exactly when each of its steps is
guarded. -/
theorem drain_isolated (payloads : StoredPayloads) (endings : ℕ → AttemptEnd) {rows : DeliveryRows}
    (h : rows.Valid) {asOf limit : ℤ} (hmax : limit ≤ DeliveryRows.maxPendingLimit) :
    (drainOnce payloads endings rows asOf limit).status ≠ .running ∧
      ((drainOnce payloads endings rows asOf limit).Isolated payloads asOf limit ↔
        ∀ step ∈ (drainOnce payloads endings rows asOf limit).steps,
          step.Guarded payloads asOf) := by
  obtain ⟨hsound, hended⟩ : (drainOnce payloads endings rows asOf limit).Sound payloads asOf limit ∧
      (drainOnce payloads endings rows asOf limit).status ≠ .running := sound_drainOnce h hmax
  refine ⟨hended, fun hisolated step hstep => ?_, fun hguarded => ?_⟩
  · exact (hsound.logged step hstep).mpr (hisolated.retried step hstep)
  · refine ⟨fun step hstep => (hsound.logged step hstep).mp (hguarded step hstep), ?_⟩
    have hreturned : (drainOnce payloads endings rows asOf limit).status = .returned := by
      cases hstatus : (drainOnce payloads endings rows asOf limit).status with
      | running => exact absurd hstatus hended
      | returned => rfl
      | raised error =>
        obtain ⟨step, hstep, hnot⟩ := hsound.unguarded error hstatus
        exact absurd (hguarded step hstep) hnot
    refine (hsound.finished hreturned).imp_right fun hnone step hstep intent heligible => ?_
    exact (hsound.waiting step hstep intent heligible).resolve_right (hnone hguarded intent)

/-! ### An offline provider -/

/-- The attempt of a step ended as one of the endings says. -/
def DrainStep.EndsBy (endings : ℕ → AttemptEnd) : DrainStep → Prop
  | .polled _ => True
  | .attempted _ _ ending => ∃ n, ending = endings n

section endings

variable {payloads : StoredPayloads} {endings : ℕ → AttemptEnd} {call : DrainCall}

theorem DrainCall.attempt_endsBy (h : ∀ step ∈ call.steps, step.EndsBy endings)
    (item : PendingJiraIntent) : ∀ step ∈ (call.attempt endings item).steps, step.EndsBy endings := by
  have hnew : ∀ step ∈ .attempted call.rows item (endings call.drain.attempted) :: call.steps,
      step.EndsBy endings := List.forall_mem_cons.mpr ⟨⟨_, rfl⟩, h⟩
  unfold DrainCall.attempt
  split
  · dsimp only
    split
    · exact hnew
    · exact hnew
  · exact h

theorem DrainCall.round_endsBy (h : ∀ step ∈ call.steps, step.EndsBy endings) :
    ∀ step ∈ (call.round payloads endings).steps, step.EndsBy endings := by
  have hpolled : ∀ step ∈ .polled call.rows :: call.steps, step.EndsBy endings :=
    List.forall_mem_cons.mpr ⟨trivial, h⟩
  have hloop : ∀ (items : List PendingJiraIntent) (call : DrainCall),
      (∀ step ∈ call.steps, step.EndsBy endings) →
      ∀ step ∈ (items.foldl (DrainCall.attempt endings) call).steps, step.EndsBy endings := by
    intro items
    induction items with
    | nil => exact fun call hcall => hcall
    | cons item items ih => exact fun call hcall => ih _ (DrainCall.attempt_endsBy hcall item)
  unfold DrainCall.round
  split
  · split_ifs
    · dsimp only
      split
      · exact hpolled
      · split
        · exact hpolled
        · exact hloop _ _ hpolled
    · exact h
  · exact h

/-- The attempts of a call end as the endings say. -/
theorem drainOnce_endsBy (rows : DeliveryRows) (asOf limit : ℤ) :
    ∀ step ∈ (drainOnce payloads endings rows asOf limit).steps, step.EndsBy endings := by
  have hrounds : ∀ n, ∀ step ∈ ((DrainCall.round payloads endings)^[n]
      { rows, drain := { asOf, limit } }).steps, step.EndsBy endings := by
    intro n
    induction n with
    | zero =>
      intro step hstep
      cases hstep
    | succ n ih =>
      rw [Function.iterate_succ_apply']
      exact DrainCall.round_endsBy ih
  exact hrounds _

end endings

theorem retryDelay_bounds (attempts : ℕ) : 0 < retryDelay attempts ∧ retryDelay attempts ≤ 300 := by
  have hpos : (0 : ℤ) < baseRetrySeconds * 2 ^ attempts := mul_pos (by decide) (by positivity)
  exact ⟨lt_min hpos (by decide), min_le_right _ _⟩

/-- The provider is offline. -/
def offlineEndings : ℕ → AttemptEnd :=
  fun _ => ⟨.providerError "offline", none⟩

/-- While the provider is offline, and the dependencies can be read, each step is guarded. -/
theorem guarded_offline {payloads : StoredPayloads} {rows : DeliveryRows} {asOf limit : ℤ}
    (hpayloads : ∀ intent, payloads.payload intent = intent.storedPayload)
    (hasOf : minInstant ≤ asOf ∧ asOf + 300 * microsecondsPerSecond ≤ maxInstant) :
    ∀ step ∈ (drainOnce payloads offlineEndings rows asOf limit).steps,
      step.Guarded payloads asOf := by
  intro step hstep
  have hends := drainOnce_endsBy rows asOf limit step hstep
  cases step with
  | polled rows =>
    intro row _ _
    exact ⟨_, by rw [hpayloads, dependencyKeys_storedPayload]⟩
  | attempted rows item ending =>
    obtain ⟨n, rfl⟩ := hends
    obtain ⟨hpos, hmax⟩ := retryDelay_bounds item.attempts
    refine ⟨rfl, .inr ⟨_, _, rfl, ?_, ?_, by decide⟩⟩
    · unfold microsecondsPerSecond
      omega
    · unfold microsecondsPerSecond at hasOf ⊢
      constructor
      · omega
      · omega

theorem except_nil_payload (intent : ProjectionIntent) :
    (StoredPayloads.except []).payload intent = intent.storedPayload := rfl

/-- The project of a team. -/
def projectDraft (teamId : Uuid) : ProjectionIntentDraft where
  semanticKey := .jiraProvisioning teamId (.run teamId 0) .project
  occurredAt := 0
  payload := .createProject "One" "ONE"
  dependsOn := []
  operationType := .CREATE_PROJECT
  aggregateId := teamId
  aggregateVersion := 1

/-- The rows after two teams have committed their projects. -/
def twoProjects : DeliveryRows :=
  (([.append deliveryTeam [projectDraft deliveryTeam],
    .append (.team ⟨"two"⟩) [projectDraft (.team ⟨"two"⟩)]] :
      List DeliveryEvent).foldl DeliverySystem.step .empty).rows

theorem twoProjects_valid : twoProjects.Valid :=
  (sound_of_reachable (reachable_of_events _)).valid

def offlineCall : DrainCall :=
  drainOnce (.except []) offlineEndings twoProjects 0 50

/-- The call attempts the intents of both teams, which are retried later. -/
theorem drain_isolated_offline :
    offlineCall.drain.attempted = 2 ∧
      (∀ step ∈ offlineCall.steps, step.Guarded (.except []) 0) ∧
      offlineCall.Isolated (.except []) 0 50 := by
  have hguarded : ∀ step ∈ offlineCall.steps, step.Guarded (.except []) 0 :=
    guarded_offline except_nil_payload (by decide)
  have hattempted : offlineCall.drain.attempted = 2 := by decide +kernel
  exact ⟨hattempted, hguarded,
    (drain_isolated (.except []) offlineEndings twoProjects_valid (by decide)).2.mpr hguarded⟩

/-- The provider answers the first team without an identifier. -/
def keylessCall : DrainCall :=
  drainOnce (.except []) (fun _ => ⟨.raised .keyError, none⟩) twoProjects 0 50

/-- The dependencies of the first team cannot be read. -/
def unreadable : StoredPayloads :=
  .except [(projectDraft deliveryTeam).semanticKey]

def unreadableCall : DrainCall :=
  drainOnce unreadable (fun _ => ⟨.providerError "offline", none⟩) twoProjects 0 50

/-- The exception of the first team ends the call: nothing is attempted for the second one, and the
first has no receipt. -/
theorem unguarded_failures_spread :
    (keylessCall.status = .raised .keyError ∧ keylessCall.drain.attempted = 1 ∧
      keylessCall.rows.receipts = [] ∧ ¬keylessCall.Isolated (.except []) 0 50) ∧
    (unreadableCall.status =
        .raised (.valueError "depends_on must be a list of semantic-key strings") ∧
      unreadableCall.drain.attempted = 0 ∧ unreadableCall.rows.receipts = [] ∧
      ¬unreadableCall.Isolated unreadable 0 50) := by
  have hkeyless : keylessCall.status = .raised .keyError := by decide +kernel
  have hunreadable : unreadableCall.status =
      .raised (.valueError "depends_on must be a list of semantic-key strings") := by
    decide +kernel
  refine ⟨⟨hkeyless, by decide +kernel, by decide +kernel, ?_⟩,
    hunreadable, by decide +kernel, by decide +kernel, ?_⟩
  · exact not_isolated_of_raised twoProjects_valid (by decide) hkeyless
  · exact not_isolated_of_raised twoProjects_valid (by decide) hunreadable

end JiraSimulator
