import JiraSimulator.Correctness.DeliveryIsolation

/-!
# Intents that a call leaves behind

A round reads as many ready heads as the call may still attempt, and drops those that it attempted
before.  A head that a rate limit left due, with a waiting time of zero, is read again; when only
such heads are read, the call returns, whatever other heads are ready.
* `Proceeding`: every step of a log is recorded, and no read shows attempted heads only while there
  are others.
* `drain_complete`: a call drains the store exactly when its log proceeds.
-/

namespace JiraSimulator

open Library Library.Outcome

/-! ### The claim about one call -/

/-- The intents that were attempted, newest first. -/
def attemptedIds : List DrainStep → List IntentId
  | [] => []
  | .polled _ :: steps => attemptedIds steps
  | .attempted _ item _ :: steps => item.intent.id :: attemptedIds steps

/-- The call returns, attempts no intent twice, and leaves no eligible intent unless its limit is
used up. -/
structure DrainCall.Drained (payloads : StoredPayloads) (asOf limit : ℤ) (call : DrainCall) :
    Prop where
  returned : call.status = .returned
  once : (attemptedIds call.steps).Nodup
  complete : (attemptedIds call.steps).length < limit → ∀ intent,
    call.rows.Eligible payloads asOf intent → intent.id ∈ attemptedIds call.steps

/-! ### The condition -/

/-- The database does not fail, and the adapter delivers the intent with mappings that fit the
persisted ones, or fails in a guarded way: with a text, and any delay up to a `datetime`. -/
def AttemptEnd.Recorded (rows : DeliveryRows) (asOf : ℤ) (item : PendingJiraIntent)
    (ending : AttemptEnd) : Prop :=
  ending.databaseError = none ∧
    ((∃ success, ending.outcome = .delivered success ∧ success.intentId = item.intent.id ∧
      ∃ mappings, success.mappings.foldlM DeliveryRows.ensureMapping rows.mappings = .ok mappings) ∨
    ∃ delay message, ending.outcome.retry item = some (delay, message) ∧
      InRange asOf delay ∧ isNonEmptyText message = true)

/-- Some ready head was not attempted, but all those within the remaining limit were. -/
def DeliveryRows.Starved (rows : DeliveryRows) (asOf remaining : ℤ) (attempted : List IntentId) :
    Prop :=
  (∀ row ∈ (rows.ready asOf).take remaining.toNat, row.1.id ∈ attempted) ∧
    ∃ row ∈ rows.ready asOf, row.1.id ∉ attempted

/-- A read is within the page limit, can read the due heads, and is not starved; an attempt is
recorded. -/
def DrainStep.Proceeds (payloads : StoredPayloads) (asOf limit : ℤ) (earlier : List DrainStep) :
    DrainStep → Prop
  | .polled rows =>
    limit - (attemptedIds earlier).length ≤ DeliveryRows.maxPendingLimit ∧
      rows.Readable payloads asOf ∧
      ¬rows.Starved asOf (limit - (attemptedIds earlier).length) (attemptedIds earlier)
  | .attempted rows item ending => ending.Recorded rows asOf item

/-- Every step of a log proceeds. -/
def Proceeding (payloads : StoredPayloads) (asOf limit : ℤ) : List DrainStep → Prop
  | [] => True
  | step :: earlier => step.Proceeds payloads asOf limit earlier ∧
      Proceeding payloads asOf limit earlier

/-! ### One attempt -/

variable {payloads : StoredPayloads} {asOf limit : ℤ} {rows : DeliveryRows} {drain : Drain}
  {item : PendingJiraIntent} {ending : AttemptEnd} {endings : ℕ → AttemptEnd} {call : DrainCall}

/-- An attempt of a persisted intent is recorded exactly when `_deliver_one` returns. -/
theorem recorded_iff (hmem : item.intent ∈ rows.intents) :
    ending.Recorded rows drain.asOf item ↔
      ∃ result, deliverOne rows drain item ending = .ok result := by
  have hkey : item.intent.id ∈ rows.intents.map (·.semanticKey) := List.mem_map_of_mem hmem
  constructor
  · rintro ⟨hdatabase, ⟨success, houtcome, hid, hmappings⟩ | ⟨delay, message, hretry, hrange, htext⟩⟩
    · obtain ⟨rows', hrecord⟩ := DeliveryRows.exists_recordSuccess.mpr ⟨hid ▸ hkey, hmappings⟩
      exact ⟨_, deliverOne_eq_ok.mpr ⟨hdatabase, .success success,
        reportOf_eq_ok.mpr (.inl ⟨success, houtcome, hid, rfl⟩), hrecord, rfl⟩⟩
    · obtain ⟨rows', hrecord⟩ : ∃ rows', rows.recordFailure
          ⟨item.intent.id, drain.asOf + delay, message, drain.asOf⟩ = .ok rows' :=
        DeliveryRows.exists_recordFailure hkey
      exact ⟨_, deliverOne_eq_ok.mpr ⟨hdatabase, _,
        reportOf_eq_ok.mpr (.inr ⟨delay, message, hretry, hrange, htext, rfl⟩), hrecord, rfl⟩⟩
  · rintro ⟨⟨rows', drain'⟩, hok⟩
    obtain ⟨hdatabase, report, hreport, hwrite, -⟩ := deliverOne_eq_ok.mp hok
    refine ⟨hdatabase, ?_⟩
    rcases reportOf_eq_ok.mp hreport with
      ⟨success, houtcome, hid, rfl⟩ | ⟨delay, message, hretry, hrange, htext, -⟩
    · exact .inl ⟨success, houtcome, hid, (DeliveryRows.exists_recordSuccess.mp ⟨rows', hwrite⟩).2⟩
    · exact .inr ⟨delay, message, hretry, hrange, htext⟩

namespace DrainCall

/-- An attempt of a persisted intent ends the call exactly when it is not recorded. -/
theorem attempt_running_iff (hrun : call.status = .running) (hmem : item.intent ∈ call.rows.intents) :
    (call.attempt endings item).status = .running ↔
      (endings call.drain.attempted).Recorded call.rows call.drain.asOf item := by
  have hrecorded : (endings call.drain.attempted).Recorded call.rows call.drain.asOf item ↔
      ∃ result, deliverOne call.rows (call.drain.begun item) item (endings call.drain.attempted) =
        .ok result :=
    show (endings call.drain.attempted).Recorded call.rows (call.drain.begun item).asOf item ↔ _
      from recorded_iff hmem
  rw [hrecorded]
  cases hone : deliverOne call.rows (call.drain.begun item) item (endings call.drain.attempted) with
  | error error =>
    rw [attempt_of_error hrun hone]
    simp
  | ok result =>
    obtain ⟨rows', drain'⟩ := result
    rw [attempt_of_ok hrun hone]
    simp

/-! ### Calls -/

/-- What a call that runs, or that was ended by its limit, has logged. -/
structure Logged (payloads : StoredPayloads) (asOf limit : ℤ) (call : DrainCall) : Prop where
  asOf_eq : call.drain.asOf = asOf
  limit_eq : call.drain.limit = limit
  valid : call.rows.Valid
  processed : call.drain.processed = attemptedIds call.steps
  attempted : call.drain.attempted = (attemptedIds call.steps).length
  once : (attemptedIds call.steps).Nodup
  raised : ∀ error, call.status = .raised error → ¬Proceeding payloads asOf limit call.steps
  running : call.status = .running → Proceeding payloads asOf limit call.steps
  finished : call.status = .returned →
    (call.Drained payloads asOf limit ↔ Proceeding payloads asOf limit call.steps)

/-- An attempt of a fresh intent keeps the log. -/
theorem Logged.attempt (h : call.Logged payloads asOf limit) (hrun : call.status = .running)
    (hfresh : item.intent.id ∉ call.drain.processed) (hwait : call.rows.Waiting asOf item.intent) :
    (call.attempt endings item).Logged payloads asOf limit := by
  have hasOf := h.asOf_eq
  have hattempt : Attempted payloads asOf call (call.attempt endings item) item
      (.attempted call.rows item (endings call.drain.attempted)) :=
    hasOf ▸ attempted_attempt hrun h.valid (hasOf.symm ▸ hwait)
  have hids : attemptedIds (call.attempt endings item).steps =
      item.intent.id :: attemptedIds call.steps := by
    rw [hattempt.steps, attemptedIds]
  have hproceeding : Proceeding payloads asOf limit (call.attempt endings item).steps ↔
      (call.attempt endings item).status = .running := by
    rw [attempt_running_iff hrun hwait.cleared.mem, hattempt.steps, hasOf]
    exact and_iff_left (h.running hrun)
  exact {
    asOf_eq := hattempt.asOf_eq.trans hasOf
    limit_eq := hattempt.limit_eq.trans h.limit_eq
    valid := hattempt.frame.valid
    processed := by rw [hattempt.processed, hids, h.processed]
    attempted := by rw [hattempt.attempted, hids, h.attempted, List.length_cons]
    once := by
      rw [hids, List.nodup_cons, ← h.processed]
      exact ⟨hfresh, h.processed ▸ h.once⟩
    raised := by
      intro error herror hproceeds
      rw [hproceeding.mp hproceeds] at herror
      cases herror
    running := hproceeding.mpr
    finished := fun hreturned => absurd hreturned hattempt.status }

/-- The `for` loop keeps the log, and attempts an intent when there is one. -/
theorem Logged.foldl_attempt {items : List PendingJiraIntent} (h : call.Logged payloads asOf limit)
    (hrun : call.status = .running) (hbatch : call.Batch asOf items) :
    (items.foldl (DrainCall.attempt endings) call).Logged payloads asOf limit ∧
      ((items.foldl (DrainCall.attempt endings) call).status = .running →
        (items.foldl (DrainCall.attempt endings) call).drain.attempted =
          call.drain.attempted + items.length) := by
  induction items generalizing call with
  | nil => exact ⟨h, fun _ => rfl⟩
  | cons item items ih =>
    have hwait := hbatch.waiting item List.mem_cons_self
    have hattempt : Attempted payloads asOf call (call.attempt endings item) item
        (.attempted call.rows item (endings call.drain.attempted)) :=
      h.asOf_eq ▸ attempted_attempt hrun h.valid (h.asOf_eq ▸ hwait)
    have hlogged : (call.attempt endings item).Logged payloads asOf limit :=
      h.attempt hrun (hbatch.fresh item List.mem_cons_self) hwait
    rw [List.foldl_cons]
    by_cases hrun' : (call.attempt endings item).status = .running
    · obtain ⟨hlast, hcount⟩ := ih hlogged hrun' (hbatch.attempted h.valid hattempt)
      refine ⟨hlast, fun hr => ?_⟩
      rw [hcount hr, hattempt.attempted, List.length_cons]
      omega
    · rw [foldl_attempt_of_ended hrun']
      exact ⟨hlogged, fun hr => absurd hr hrun'⟩

/-- A logged read keeps the log, when it ends the call exactly in the cases that do not proceed. -/
theorem Logged.polled (h : call.Logged payloads asOf limit) (hrun : call.status = .running)
    (status : CallStatus)
    (hraised : ∀ error, status = .raised error →
      ¬(DrainStep.polled call.rows).Proceeds payloads asOf limit call.steps)
    (hrunning : status = .running →
      (DrainStep.polled call.rows).Proceeds payloads asOf limit call.steps)
    (hreturned : status = .returned →
      (({ call with steps := .polled call.rows :: call.steps, status } : DrainCall).Drained
        payloads asOf limit ↔
          (DrainStep.polled call.rows).Proceeds payloads asOf limit call.steps)) :
    ({ call with steps := .polled call.rows :: call.steps, status } : DrainCall).Logged
      payloads asOf limit where
  asOf_eq := h.asOf_eq
  limit_eq := h.limit_eq
  valid := h.valid
  processed := h.processed
  attempted := h.attempted
  once := h.once
  raised error herror hproceeding := hraised error herror hproceeding.1
  running hstatus := ⟨hrunning hstatus, h.running hrun⟩
  finished hstatus := (hreturned hstatus).trans (and_iff_left (h.running hrun)).symm

/-- A page without a fresh intent was read while all ready heads were attempted, or starved the
call. -/
theorem Logged.drained_iff_of_no_fresh (h : call.Logged payloads asOf limit)
    (hlt : (call.drain.attempted : ℤ) < limit)
    (hpage : limit - call.drain.attempted ≤ DeliveryRows.maxPendingLimit)
    (hreadable : call.rows.Readable payloads asOf)
    (hnone : (((call.rows.ready asOf).take (limit - call.drain.attempted).toNat).map
      DeliveryRows.pendingIntent).filter (fun item => item.intent.id ∉ call.drain.processed) = []) :
    ({ call with steps := .polled call.rows :: call.steps, status := .returned } : DrainCall).Drained
        payloads asOf limit ↔
      (DrainStep.polled call.rows).Proceeds payloads asOf limit call.steps := by
  have hshown : ∀ row ∈ (call.rows.ready asOf).take (limit - call.drain.attempted).toNat,
      row.1.id ∈ attemptedIds call.steps := by
    intro row hrow
    by_contra hnot
    rw [← h.processed] at hnot
    exact List.filter_eq_nil_iff.mp hnone _ (List.mem_map_of_mem hrow) (decide_eq_true hnot)
  have hcount := h.attempted
  rw [hcount] at hlt hpage hshown
  constructor
  · intro hdrained
    refine ⟨hpage, hreadable, ?_⟩
    rintro ⟨-, row, hrow, hnot⟩
    obtain ⟨hmem, hready⟩ := List.mem_filter.mp hrow
    exact hnot (hdrained.complete hlt row.1
      ⟨row.2, hmem, DeliveryRows.isReady_eq_ok.mpr ⟨hreadable row hmem, hready.symm⟩⟩)
  · rintro ⟨-, -, hfed⟩
    refine ⟨rfl, h.once, fun _ intent heligible => ?_⟩
    obtain ⟨receipt, hmem, hready⟩ := heligible
    by_contra hnot
    exact hfed ⟨hshown, (intent, receipt),
      List.mem_filter.mpr ⟨hmem, (DeliveryRows.isReady_eq_ok.mp hready).2.symm⟩, hnot⟩

/-- A round keeps the log, and attempts an intent unless it ends the call. -/
theorem Logged.round (h : call.Logged payloads asOf limit) :
    (call.round payloads endings).Logged payloads asOf limit ∧
      ((call.round payloads endings).status = .running → call.status = .running ∧
        call.drain.attempted < limit ∧
        call.drain.attempted < (call.round payloads endings).drain.attempted) := by
  by_cases hrun : call.status = .running
  swap
  · rw [round_of_ended hrun]
    exact ⟨h, fun hr => absurd hr hrun⟩
  obtain ⟨hasOf, hlimit⟩ := And.intro h.asOf_eq h.limit_eq
  unfold DrainCall.round
  simp only [hrun, hasOf, hlimit]
  by_cases hlt : (call.drain.attempted : ℤ) < limit
  swap
  · -- the limit is used up
    rw [if_neg hlt]
    refine ⟨?_, fun hr => by cases hr⟩
    have hproceeding := h.running hrun
    exact { h with
      raised := fun error herror => by cases herror
      running := fun hr => by cases hr
      finished := fun _ => by
        refine iff_of_true ⟨rfl, h.once, fun hless => ?_⟩ hproceeding
        have hcount := h.attempted
        have hless' : ((attemptedIds call.steps).length : ℤ) < limit := hless
        omega }
  rw [if_pos hlt]
  by_cases hpage : limit - call.drain.attempted ≤ DeliveryRows.maxPendingLimit
  swap
  · -- the remaining limit is more than a page
    have hraises : call.rows.storedPending payloads asOf (limit - call.drain.attempted) =
        .error (.valueError "limit must be between 1 and 50") := by
      rw [DeliveryRows.storedPending, require, check, if_neg fun hbounds => hpage hbounds.2]
      rfl
    simp only [hraises]
    refine ⟨h.polled hrun _ (fun _ _ hproceeds => ?_) (fun hr => by cases hr)
      (fun hr => by cases hr), fun hr => by cases hr⟩
    exact hpage (h.attempted ▸ hproceeds.1)
  have hpending : ∀ items, call.rows.storedPending payloads asOf (limit - call.drain.attempted) =
      .ok items ↔ call.rows.Readable payloads asOf ∧
        items = ((call.rows.ready asOf).take (limit - call.drain.attempted).toNat).map
          DeliveryRows.pendingIntent :=
    fun items => DeliveryRows.storedPending_eq_ok ⟨by omega, hpage⟩
  cases hresult : call.rows.storedPending payloads asOf (limit - call.drain.attempted) with
  | error error =>
    refine ⟨h.polled hrun _ (fun _ _ hproceeds => ?_) (fun hr => by cases hr)
      (fun hr => by cases hr), fun hr => by cases hr⟩
    have hok := (hpending _).mpr ⟨hproceeds.2.1, rfl⟩
    rw [hresult] at hok
    cases hok
  | ok items =>
    obtain ⟨hreadable, hitems⟩ := (hpending items).mp hresult
    subst hitems
    have hbatch : call.Batch asOf _ := batch_of_ready h.valid (limit - call.drain.attempted).toNat
    cases hfresh : (((call.rows.ready asOf).take (limit - call.drain.attempted).toNat).map
        DeliveryRows.pendingIntent).filter (fun item => item.intent.id ∉ call.drain.processed) with
    | nil =>
      simp only [hfresh]
      refine ⟨h.polled hrun _ (fun _ hr => by cases hr) (fun hr => by cases hr) (fun _ => ?_),
        fun hr => by cases hr⟩
      exact h.drained_iff_of_no_fresh hlt hpage hreadable hfresh
    | cons item rest =>
      rw [hfresh] at hbatch
      simp only [hfresh]
      have hfed : (DrainStep.polled call.rows).Proceeds payloads asOf limit call.steps := by
        refine ⟨h.attempted ▸ hpage, hreadable, ?_⟩
        rintro ⟨hshown, -⟩
        -- the first fresh intent is on the page
        have hitem := hbatch.fresh item List.mem_cons_self
        have hmem : item ∈ (((call.rows.ready asOf).take (limit - call.drain.attempted).toNat).map
            DeliveryRows.pendingIntent) :=
          List.mem_of_mem_filter (hfresh ▸ List.mem_cons_self)
        obtain ⟨row, hrow, rfl⟩ := List.mem_map.mp hmem
        exact hitem (h.processed ▸ hshown row (h.attempted ▸ hrow))
      have hpolled := h.polled hrun .running (fun _ hr => by cases hr) (fun _ => hfed)
        (fun hr => by cases hr)
      have hfold := fun endings : ℕ → AttemptEnd =>
        @Logged.foldl_attempt _ _ _ endings _ _ hpolled rfl
          ⟨hbatch.fresh, hbatch.waiting, hbatch.distinct⟩
      refine ⟨(hfold endings).1, fun hr => ⟨trivial, hlt, ?_⟩⟩
      have hattempted := (hfold endings).2 hr
      simp only [List.length_cons] at hattempted
      omega

/-- Rounds keep the log, and those after which a call still runs have attempted an intent each. -/
theorem Logged.rounds (h : call.Logged payloads asOf limit) (n : ℕ) :
    ((DrainCall.round payloads endings)^[n] call).Logged payloads asOf limit ∧
      (((DrainCall.round payloads endings)^[n] call).status = .running →
        n ≤ ((DrainCall.round payloads endings)^[n] call).drain.attempted ∧ (0 < n → n ≤ limit)) := by
  induction n with
  | zero => exact ⟨h, fun _ => ⟨Nat.zero_le _, fun hn => absurd hn (lt_irrefl _)⟩⟩
  | succ n ih =>
    obtain ⟨hlogged, hcount⟩ := ih
    rw [Function.iterate_succ_apply']
    obtain ⟨hround, hprogress⟩ := @Logged.round _ _ _ endings _ hlogged
    refine ⟨hround, fun hr => ?_⟩
    obtain ⟨hrun, hlt, hmore⟩ := hprogress hr
    have hn := (hcount hrun).1
    constructor
    · omega
    · omega

end DrainCall

/-- A call that has not begun has logged nothing. -/
theorem logged_start (h : rows.Valid) : ({ rows, drain := { asOf, limit } } : DrainCall).Logged
    payloads asOf limit where
  asOf_eq := rfl
  limit_eq := rfl
  valid := h
  processed := rfl
  attempted := rfl
  once := List.nodup_nil
  raised error herror := by cases herror
  running _ := trivial
  finished hreturned := by cases hreturned

/-- Every call of `drain_once` ends and attempts no intent twice.  It drains the store exactly when
each of its steps proceeds. -/
theorem drain_complete (payloads : StoredPayloads) (endings : ℕ → AttemptEnd) {rows : DeliveryRows}
    (h : rows.Valid) (asOf limit : ℤ) :
    (drainOnce payloads endings rows asOf limit).status ≠ .running ∧
      (attemptedIds (drainOnce payloads endings rows asOf limit).steps).Nodup ∧
      ((drainOnce payloads endings rows asOf limit).Drained payloads asOf limit ↔
        Proceeding payloads asOf limit (drainOnce payloads endings rows asOf limit).steps) := by
  obtain ⟨hlogged, hcount⟩ : (drainOnce payloads endings rows asOf limit).Logged payloads asOf limit ∧
      ((drainOnce payloads endings rows asOf limit).status = .running →
        limit.toNat + 1 ≤ (drainOnce payloads endings rows asOf limit).drain.attempted ∧
          (0 < limit.toNat + 1 → ((limit.toNat + 1 : ℕ) : ℤ) ≤ limit)) :=
    (logged_start h).rounds (limit.toNat + 1)
  have hended : (drainOnce payloads endings rows asOf limit).status ≠ .running := by
    intro hrun
    have hbound := (hcount hrun).2 (Nat.succ_pos _)
    omega
  refine ⟨hended, hlogged.once, ?_⟩
  cases hstatus : (drainOnce payloads endings rows asOf limit).status with
  | running => exact absurd hstatus hended
  | returned => exact hlogged.finished hstatus
  | raised error =>
    refine iff_of_false (fun hdrained => ?_) (hlogged.raised error hstatus)
    have hreturned := hdrained.returned
    rw [hstatus] at hreturned
    cases hreturned

/-! ### An offline provider -/

theorem AttemptEnd.Guarded.recorded (h : ending.Guarded rows asOf item) :
    ending.Recorded rows asOf item := by
  obtain ⟨hdatabase, hdelivered | ⟨delay, message, hretry, -, hrange, htext⟩⟩ := h
  · exact ⟨hdatabase, .inl hdelivered⟩
  · exact ⟨hdatabase, .inr ⟨delay, message, hretry, hrange, htext⟩⟩

instance (rows : DeliveryRows) (asOf remaining : ℤ) (attempted : List IntentId) :
    Decidable (rows.Starved asOf remaining attempted) :=
  inferInstanceAs (Decidable (_ ∧ _))

/-- No read of a log is starved. -/
def neverStarved (asOf limit : ℤ) : List DrainStep → Bool
  | [] => true
  | .polled rows :: earlier =>
    !rows.Starved asOf (limit - (attemptedIds earlier).length) (attemptedIds earlier) &&
      neverStarved asOf limit earlier
  | .attempted .. :: earlier => neverStarved asOf limit earlier

/-- A guarded log without starved reads proceeds. -/
theorem proceeding_of_guarded {steps : List DrainStep}
    (hmax : limit ≤ DeliveryRows.maxPendingLimit)
    (hguarded : ∀ step ∈ steps, step.Guarded payloads asOf)
    (hstarved : neverStarved asOf limit steps = true) : Proceeding payloads asOf limit steps := by
  induction steps with
  | nil => trivial
  | cons step earlier ih =>
    obtain ⟨hstep, hearlier⟩ := List.forall_mem_cons.mp hguarded
    cases step with
    | polled rows =>
      simp only [neverStarved, Bool.and_eq_true, Bool.not_eq_true', decide_eq_false_iff_not]
        at hstarved
      exact ⟨⟨by omega, hstep, hstarved.1⟩, ih hearlier hstarved.2⟩
    | attempted rows item ending => exact ⟨hstep.recorded, ih hearlier hstarved⟩

/-- A call that may attempt three intents. -/
def shortOfflineCall : DrainCall :=
  drainOnce (.except []) offlineEndings twoProjects 0 3

/-- The call attempts the intents of both teams once. -/
theorem drain_complete_offline :
    (attemptedIds shortOfflineCall.steps).length = 2 ∧
      Proceeding (.except []) 0 3 shortOfflineCall.steps ∧
      shortOfflineCall.Drained (.except []) 0 3 := by
  have hlength : (attemptedIds shortOfflineCall.steps).length = 2 := by decide +kernel
  have hguarded : ∀ step ∈ shortOfflineCall.steps, step.Guarded (.except []) 0 :=
    guarded_offline except_nil_payload (by decide)
  have hstarved : neverStarved 0 3 shortOfflineCall.steps = true := by decide +kernel
  have hproceeds : Proceeding (.except []) 0 3 shortOfflineCall.steps :=
    proceeding_of_guarded (by decide) hguarded hstarved
  exact ⟨hlength, hproceeds,
    (drain_complete (.except []) offlineEndings twoProjects_valid 0 3).2.2.mpr hproceeds⟩

/-! ### A starved call -/

/-- A second intent of a team. -/
def boardDraft (teamId : Uuid) : ProjectionIntentDraft where
  semanticKey := .jiraProvisioning teamId (.run teamId 0) .board
  occurredAt := 0
  payload := .createBoard "ONE" "One"
  dependsOn := [(projectDraft teamId).semanticKey]
  operationType := .CREATE_BOARD
  aggregateId := teamId
  aggregateVersion := 1

/-- The rows after a team has committed its project, and another one its project and its board. -/
def twoTeams : DeliveryRows :=
  (([.append deliveryTeam [projectDraft deliveryTeam],
    .append (.team ⟨"two"⟩) [projectDraft (.team ⟨"two"⟩), boardDraft (.team ⟨"two"⟩)]] :
      List DeliveryEvent).foldl DeliverySystem.step .empty).rows

/-- The provider limits the rate of the first attempt, without a waiting time, and delivers the
others. -/
def starvedCall : DrainCall :=
  drainOnce (.except [])
    (fun n => if n = 0 then ⟨.rateLimited 0 "Jira rate limited delivery for 0.0 seconds", none⟩
      else ⟨.delivered ⟨(projectDraft (.team ⟨"two"⟩)).semanticKey, [], 0⟩, none⟩)
    twoTeams 0 3

/-- After two attempts the page of the last one holds the limited head only, and the call returns
although the board of the second team is eligible. -/
theorem starvedCall_leaves_board :
    starvedCall.status = .returned ∧ (attemptedIds starvedCall.steps).length = 2 ∧
      (∃ intent, starvedCall.rows.Eligible (.except []) 0 intent ∧
        intent.id = (boardDraft (.team ⟨"two"⟩)).semanticKey ∧
        intent.id ∉ attemptedIds starvedCall.steps) ∧
      ¬starvedCall.Drained (.except []) 0 3 := by
  have hlength : (attemptedIds starvedCall.steps).length = 2 := by decide +kernel
  have hleft : ∃ intent, starvedCall.rows.Eligible (.except []) 0 intent ∧
      intent.id = (boardDraft (.team ⟨"two"⟩)).semanticKey ∧
      intent.id ∉ attemptedIds starvedCall.steps := by
    refine ⟨{ boardDraft (.team ⟨"two"⟩) with appendSequence := 3, teamId := .team ⟨"two"⟩ },
      ⟨none, by decide +kernel, ?_⟩, rfl, by decide +kernel⟩
    rw [DeliveryRows.isReady_eq_ok]
    exact ⟨fun _ => ⟨_, dependencyKeys_storedPayload _⟩, by decide +kernel⟩
  refine ⟨by decide +kernel, hlength, hleft, fun hdrained => ?_⟩
  obtain ⟨intent, heligible, -, hnot⟩ := hleft
  refine hnot (hdrained.complete ?_ intent heligible)
  rw [hlength]
  decide

end JiraSimulator
