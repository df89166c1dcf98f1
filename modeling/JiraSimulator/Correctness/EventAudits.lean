import JiraSimulator.Correctness.WriteQueue
import JiraSimulator.Engine.EventAuditor

/-!
# Audits of the write queue

The audit log goes along with the write queue: dispatches, audits, and the steps of the queue come
in any order, and the database selects the rows of an audit as it likes.

* `Settles`, `runAudit_cases`: an audit settles all the rows that it fetched, or it fails.
* `audit_log_sound`: what the rows of the log say, and that settled rows stay.
* `audit_blocked`: a row whose entry was abandoned makes the later audits fail.
* `audits_settle`: how many rows are left after some audits.
-/

namespace JiraSimulator.EventAudit

open Engine Library Library.Outcome Library.Transition WriteQueue

variable {library : PythonLibrary} {workflow : String → String → String} {s s' : State}

/-! ### The queue under its audit log -/

theorem reachable_enqueueAll {queue : WriteQueue.State} {news : List NewEntry}
    (h : (WriteQueue.system library workflow).Reachable queue) (hnodup : (news.map (·.id)).Nodup)
    (hfresh : ∀ new ∈ news, queue.find new.id = none) :
    (WriteQueue.system library workflow).Reachable (queue.enqueueAll news) := by
  induction news generalizing queue with
  | nil => exact h
  | cons new news ih =>
    rw [List.map_cons, List.nodup_cons] at hnodup
    have hfirst : queue.find new.id = none := hfresh new List.mem_cons_self
    have hnext : (WriteQueue.system library workflow).Reachable (queue.enqueue new) :=
      .step (e := .enqueue new) h trivial ⟨hfirst, rfl⟩
    rw [State.enqueueAll_cons]
    refine ih hnext hnodup.2 fun other hother => ?_
    have hne : new.row.id ≠ other.id := by
      intro hid
      exact hnodup.1 (List.mem_map.mpr ⟨other, hother, hid.symm⟩)
    show (queue.entries ++ [new.row]).find? _ = none
    rw [List.find?_append, show queue.entries.find? _ = none from
      hfresh other (List.mem_cons_of_mem _ hother), Option.none_or, List.find?_singleton,
      if_neg (by simpa using hne)]

theorem dispatch_cons (now : ℤ) (due : DueEvent) (rest : List DueEvent) :
    s.dispatch now (due :: rest) = (s.dispatchOne now due).dispatch now rest :=
  rfl

theorem dispatch_queue (now : ℤ) (due : List DueEvent) :
    (s.dispatch now due).queue = s.queue.enqueueAll (due.map (·.entry)) := by
  induction due generalizing s with
  | nil => rfl
  | cons event due ih =>
    rw [dispatch_cons, ih, List.map_cons, State.enqueueAll_cons]
    rfl

theorem runAudit_queue (now : ℤ) (fetched : List (EventAuditLog × ℤ)) :
    (s.runAudit now fetched).1.queue = s.queue := by
  unfold State.runAudit
  dsimp only
  split <;> rfl

/-- The queue of a reachable state comes from a run of the queue alone. -/
theorem queue_reachable (h : (system library workflow).Reachable s) :
    (WriteQueue.system library workflow).Reachable s.queue := by
  refine h.invariant (I := fun s => (WriteQueue.system library workflow).Reachable s.queue) ?_ ?_
  · rintro i s rfl
    exact .start rfl trivial
  · rintro s event s' - ih ⟨hpossible, hnext⟩
    cases event with
    | queue event =>
      obtain ⟨queue, hqueue, rfl⟩ := Option.map_eq_some_iff.mp hnext
      exact .step ih trivial ⟨hpossible, hqueue⟩
    | dispatch now due =>
      obtain rfl := Option.some.inj hnext
      rw [dispatch_queue]
      refine reachable_enqueueAll ih ?_ fun new hnew => ?_
      · rw [List.map_map]
        exact hpossible.1
      · obtain ⟨event, hevent, rfl⟩ := List.mem_map.mp hnew
        exact hpossible.2 event hevent
    | audit now fetched =>
      obtain rfl := Option.some.inj hnext
      rw [runAudit_queue]
      exact ih

/-! ### What the entries tell -/

/-- The entry tells how it ended. -/
structure Tells (e : Entry) : Prop where
  done : e.status = .done → e.processedAt ≠ none
  failed : e.status = .failed → e.lastError ≠ none

/-- The later row of an entry is about the same event, and still tells what the earlier one told. -/
structure Grows (e e' : Entry) : Prop where
  fixed : e'.fixed = e.fixed
  processed : e.processedAt ≠ none → e'.processedAt ≠ none
  error : e.lastError ≠ none → e'.lastError ≠ none
  tells : Tells e → Tells e'

theorem Grows.refl (e : Entry) : Grows e e :=
  ⟨rfl, id, id, id⟩

theorem Grows.trans {a b c : Entry} (h : Grows a b) (h' : Grows b c) : Grows a c where
  fixed := h'.fixed.trans h.fixed
  processed := h'.processed ∘ h.processed
  error := h'.error ∘ h.error
  tells := h'.tells ∘ h.tells

theorem tells_of_open {e : Entry} (h : e.status = .pending ∨ e.status = .inFlight) : Tells e := by
  constructor
  · intro hdone
    rcases h with hopen | hopen
    all_goals
      rw [hopen] at hdone
      cases hdone
  · intro hfailed
    rcases h with hopen | hopen
    all_goals
      rw [hopen] at hfailed
      cases hfailed

theorem grows_inFlight (e : Entry) : Grows e (inFlight e) where
  fixed := inFlight_updates e
  processed := id
  error := id
  tells _ := tells_of_open (.inr rfl)

theorem grows_reset (e : Entry) : Grows e (reset e) where
  fixed := reset_updates e
  processed := id
  error := id
  tells _ := tells_of_open (.inl rfl)

theorem grows_ending (entry : Entry) (now : ℤ) (result : Except QueueError Dispatched) (e : Entry) :
    Grows e (ending entry now result e) := by
  have hfixed := ending_updates entry now result e
  rcases result with (retryAfter | text) | dispatched
  · exact ⟨hfixed, id, id, fun _ => tells_of_open (.inl rfl)⟩
  · refine ⟨hfixed, id, fun _ => Option.some_ne_none _, fun _ => ⟨fun h => ?_, fun _ => ?_⟩⟩
    · cases h
    · exact Option.some_ne_none _
  · refine ⟨hfixed, fun _ => Option.some_ne_none _, id, fun _ => ⟨fun _ => ?_, fun h => ?_⟩⟩
    · exact Option.some_ne_none _
    · cases h

theorem grows_ite {f : Entry → Entry} (hf : ∀ e, Grows e (f e)) (q : Entry → Prop)
    [DecidablePred q] (e : Entry) : Grows e (if q e then f e else e) := by
  split_ifs
  · exact hf e
  · exact .refl e

/-- A step of the queue keeps what the rows told, and adds new rows. -/
theorem grows_of_moves {queue queue' : WriteQueue.State} {event : WriteQueue.Event}
    (h : Moves library workflow queue event queue') :
    (∃ f, (∀ e, Grows e (f e)) ∧ queue'.entries = queue.entries.map f) ∨
      ∃ news : List NewEntry, queue'.entries = queue.entries ++ news.map NewEntry.row := by
  have hsame : ∃ f, (∀ e, Grows e (f e)) ∧ queue.entries = queue.entries.map f :=
    ⟨id, .refl, (List.map_id _).symm⟩
  cases h with
  | idle | read _ _ _ | closed _ _ | crashed => exact .inl hsame
  | added _ _ _ _ => exact .inr ⟨_, (enqueueAll_same _ _).1⟩
  | taken _ _ _ _ => exact .inl ⟨_, grows_ite grows_inFlight _, take_entries ..⟩
  | answered _ _ _ =>
    rw [answer_entries]
    exact .inl hsame
  | finished _ _ => exact .inl ⟨_, grows_ite (grows_ending _ _ _) _, finish_entries _ _ _ _ _ _ _⟩
  | retried => exact .inl ⟨_, grows_ite grows_reset _, retryFailed_entries _⟩

/-- Each entry of the first list is in the second one, later. -/
def Grown (entries entries' : List Entry) : Prop :=
  ∀ e ∈ entries, ∃ e' ∈ entries', Grows e e'

theorem Grown.refl (entries : List Entry) : Grown entries entries :=
  fun e he => ⟨e, he, .refl e⟩

theorem grown_append (entries news : List Entry) : Grown entries (entries ++ news) :=
  fun e he => ⟨e, List.mem_append_left _ he, .refl e⟩

theorem grown_of_step (hstep : (system library workflow).step s event s') :
    Grown s.queue.entries s'.queue.entries := by
  obtain ⟨hpossible, hnext⟩ := hstep
  cases event with
  | queue event =>
    obtain ⟨queue, hqueue, rfl⟩ := Option.map_eq_some_iff.mp hnext
    have hmoves := moves_of_step ⟨hpossible, hqueue⟩
    rcases grows_of_moves hmoves with ⟨f, hf, hentries⟩ | ⟨news, hentries⟩
    · intro e he
      refine ⟨f e, ?_, hf e⟩
      show f e ∈ queue.entries
      rw [hentries]
      exact List.mem_map_of_mem he
    · show Grown _ queue.entries
      rw [hentries]
      exact grown_append _ _
  | dispatch now due =>
    obtain rfl := Option.some.inj hnext
    rw [dispatch_queue, (enqueueAll_same _ _).1]
    exact grown_append _ _
  | audit now fetched =>
    obtain rfl := Option.some.inj hnext
    rw [runAudit_queue]
    exact .refl _

theorem tells_of_reachable {queue : WriteQueue.State}
    (h : (WriteQueue.system library workflow).Reachable queue) : ∀ e ∈ queue.entries, Tells e := by
  refine h.invariant (I := fun queue => ∀ e ∈ queue.entries, Tells e) ?_ ?_
  · rintro i queue rfl e he
    cases he
  · intro queue event queue' _ ih hstep e he
    rcases grows_of_moves (moves_of_step hstep) with ⟨f, hf, hentries⟩ | ⟨news, hentries⟩
    · rw [hentries] at he
      obtain ⟨old, hold, rfl⟩ := List.mem_map.mp he
      exact (hf old).tells (ih old hold)
    · rw [hentries] at he
      rcases List.mem_append.mp he with hold | hnew
      · exact ih e hold
      · obtain ⟨new, -, rfl⟩ := List.mem_map.mp hnew
        exact tells_of_open (.inl rfl)

/-! ### What an audit does -/

section audit

variable {entries : List Entry} {audit audit' : EventAuditLog} {timeoutCutoff now : ℤ}

/-- The entry of the row is `DONE` or `FAILED`. -/
def Ended (entries : List Entry) (audit : EventAuditLog) : Prop :=
  ∃ entry, audit.queueEntry entries = some entry ∧ (entry.status = .done ∨ entry.status = .failed)

/-- How an audit settles a row. -/
inductive Settles (entries : List Entry) (now : ℤ) (audit : EventAuditLog) :
    EventAuditLog → Prop
  | verified {entry : Entry} (hentry : audit.queueEntry entries = some entry)
      (hstatus : entry.status = .done) :
      Settles entries now audit
        { audit with verificationStatus := .verified, verifiedAt := some now }
  | failed {entry : Entry} (hentry : audit.queueEntry entries = some entry)
      (hstatus : entry.status = .failed) :
      Settles entries now audit
        { audit with
          verificationStatus := .failed
          verifiedAt := some now
          failureReason := some (failureText entry.lastError)
          alertSent := true }

theorem Settles.ended (h : Settles entries now audit audit') : Ended entries audit := by
  cases h with
  | verified hentry hstatus => exact ⟨_, hentry, .inl hstatus⟩
  | failed hentry hstatus => exact ⟨_, hentry, .inr hstatus⟩

theorem Settles.id_eq (h : Settles entries now audit audit') : audit'.id = audit.id := by
  cases h <;> rfl

theorem Settles.not_pending (h : Settles entries now audit audit') :
    audit'.verificationStatus ≠ .pending := by
  cases h
  · show VerificationStatus.verified ≠ .pending
    decide
  · show VerificationStatus.failed ≠ .pending
    decide

/-- What the comparison of a stored time with the cutoff raises. -/
def naiveError : PyError :=
  .typeError "can't compare offset-naive and offset-aware datetimes"

/-- No row of the log comes to its timeout. -/
theorem checkTimeout_raises (h : audit.dispatchedAt ≠ none) :
    checkTimeout now timeoutCutoff audit = .error naiveError := by
  obtain ⟨dispatchedAt, hdispatched⟩ := Option.ne_none_iff_exists'.mp h
  unfold checkTimeout
  rw [hdispatched]
  rfl

theorem settles_of_verifyOne (hdispatched : audit.dispatchedAt ≠ none)
    {settled : EventAuditLog × AuditResult}
    (h : verifyOne entries timeoutCutoff now audit = .ok settled) :
    Settles entries now audit settled.1 ∧ settled.2 ≠ .timeout := by
  unfold verifyOne at h
  rw [checkTimeout_raises hdispatched] at h
  split at h
  · rename_i entry hentry
    split at h
    · obtain rfl := Except.ok.inj h
      refine ⟨.verified hentry ‹_›, ?_⟩
      show AuditResult.verified ≠ .timeout
      decide
    · obtain rfl := Except.ok.inj h
      refine ⟨.failed hentry ‹_›, ?_⟩
      show AuditResult.failed ≠ .timeout
      decide
    all_goals cases h
  · cases h

theorem verifyOne_of_ended (h : Ended entries audit) :
    ∃ settled, verifyOne entries timeoutCutoff now audit = .ok settled := by
  obtain ⟨entry, hentry, hstatus⟩ := h
  unfold verifyOne
  rw [hentry]
  dsimp only
  rcases hstatus with hdone | hfailed
  · rw [hdone]
    exact ⟨_, rfl⟩
  · rw [hfailed]
    exact ⟨_, rfl⟩

theorem verifyOne_raises (hdispatched : audit.dispatchedAt ≠ none) (h : ¬Ended entries audit) :
    verifyOne entries timeoutCutoff now audit = .error naiveError := by
  unfold verifyOne
  rw [checkTimeout_raises hdispatched]
  split
  · rename_i entry hentry
    split
    · exact absurd ⟨entry, hentry, .inl ‹_›⟩ h
    · exact absurd ⟨entry, hentry, .inr ‹_›⟩ h
    all_goals rfl
  · rfl

end audit

theorem auditable_iff {now : ℤ} {audit : EventAuditLog} : auditable now audit = true ↔
    audit.verificationStatus = .pending ∧ ∃ dispatchedAt, audit.dispatchedAt = some dispatchedAt ∧
      dispatchedAt + minutes verificationDelayMinutes ≤ now := by
  unfold auditable
  cases audit.dispatchedAt with
  | none => simp
  | some dispatchedAt =>
    simp only [Bool.and_eq_true, decide_eq_true_eq, Option.some.injEq, exists_eq_left']
    refine and_congr_right fun _ => ?_
    omega

section batch

variable {now : ℤ} {fetched : List (EventAuditLog × ℤ)}

theorem auditable_of_fetched {audits batch : List EventAuditLog}
    (h : IsAuditBatch audits now batch) {audit : EventAuditLog} (haudit : audit ∈ batch) :
    audit ∈ audits ∧ auditable now audit = true := by
  obtain ⟨rest, hperm, -⟩ := h
  exact List.mem_filter.mp (hperm.mem_iff.mp (List.mem_append_left _ haudit))

theorem fetched_nodup {batch : List EventAuditLog} (h : IsAuditBatch s.audits.rows now batch) :
    (batch.map (·.id)).Nodup := by
  obtain ⟨rest, hperm, -⟩ := h
  have hrows : ((s.audits.rows.filter (auditable now)).map (·.id)).Nodup :=
    s.audits.distinct.sublist (List.filter_sublist.map _)
  have hall := (hperm.map (·.id)).nodup_iff.mpr hrows
  rw [List.map_append] at hall
  exact hall.of_append_left

/-- What an audit does to a row of the log. -/
def RowAudited (s : State) (fetched : List (EventAuditLog × ℤ)) (row row' : EventAuditLog) : Prop :=
  (row' = row ∧ row ∉ fetched.map (·.1)) ∨
    ∃ time, (row, time) ∈ fetched ∧ Settles s.queue.entries time row row'

/-- An audit settles all the rows that it fetched, or it fails and settles none. -/
theorem runAudit_cases (hbatch : IsAuditBatch s.audits.rows now (fetched.map (·.1))) :
    ((∀ row ∈ fetched, Ended s.queue.entries row.1) ∧
      (∃ counts, (s.runAudit now fetched).2 = .ok counts ∧ counts.timeout = 0) ∧
      ∃ f, (s.runAudit now fetched).1.audits.rows = s.audits.rows.map f ∧
        ∀ row ∈ s.audits.rows, RowAudited s fetched row (f row)) ∨
    ((∃ row ∈ fetched, ¬Ended s.queue.entries row.1) ∧
      s.runAudit now fetched = (s, .error naiveError)) := by
  set verify : EventAuditLog × ℤ → Result (EventAuditLog × AuditResult) := fun row =>
    verifyOne s.queue.entries (now - minutes timeoutMinutes) row.2 row.1 with hverify
  have hdispatched : ∀ row ∈ fetched, row.1.dispatchedAt ≠ none := by
    intro row hrow
    obtain ⟨-, hauditable⟩ := auditable_of_fetched hbatch (List.mem_map_of_mem hrow)
    obtain ⟨-, dispatchedAt, heq, -⟩ := auditable_iff.mp hauditable
    rw [heq]
    exact Option.some_ne_none _
  by_cases hended : ∀ row ∈ fetched, Ended s.queue.entries row.1
  · left
    obtain ⟨settled, hsettled⟩ : ∃ settled, fetched.mapM verify = .ok settled :=
      exists_mapM_eq_ok fun row hrow => verifyOne_of_ended (hended row hrow)
    have hrun : s.runAudit now fetched =
        ({ s with audits := writeBack s.audits (settled.map (·.1)) },
          .ok (auditCounts (settled.map (·.2)))) := by
      unfold State.runAudit
      dsimp only
      rw [← hverify, hsettled]
    -- a verified row keeps its id, so the rows are written back in place
    have hids : (settled.map (·.1)).map (·.id) = (fetched.map (·.1)).map (·.id) := by
      rw [List.map_map, List.map_map]
      exact map_eq_map_of_mapM hsettled fun _ _ h => id_of_verifyOne h
    have hnodup : ((settled.map (·.1)).map (·.id)).Nodup := hids ▸ fetched_nodup hbatch
    refine ⟨hended, ⟨_, congrArg Prod.snd hrun, ?_⟩, _,
      congrArg (fun result => result.1.audits.rows) hrun, fun row hrow => ?_⟩
    · refine List.count_eq_zero_of_not_mem fun hmem => ?_
      obtain ⟨pair, hpair, htimeout⟩ := List.mem_map.mp hmem
      obtain ⟨row, hrow, hone⟩ := exists_of_mem_mapM hsettled hpair
      exact (settles_of_verifyOne (hdispatched row hrow) hone).2 htimeout
    · cases hlookup : Keyed.lookup EventAuditLog.id (settled.map (·.1)) row.id with
      | none =>
        refine .inl ⟨rfl, fun hmem => ?_⟩
        refine Keyed.lookup_eq_none EventAuditLog.id |>.mp hlookup ?_
        show row.id ∈ (settled.map (·.1)).map (·.id)
        rw [hids]
        exact List.mem_map_of_mem hmem
      | some after =>
        obtain ⟨hmem, hid⟩ := Keyed.mem_of_lookup EventAuditLog.id hlookup
        obtain ⟨pair, hpair, rfl⟩ := List.mem_map.mp hmem
        obtain ⟨⟨old, time⟩, hold, hone⟩ := exists_of_mem_mapM hsettled hpair
        -- ids are distinct, so the row that is written back is the one that was fetched
        have hsame : old = row := by
          have hmem := (auditable_of_fetched hbatch (List.mem_map_of_mem hold)).1
          refine Table.eq_of_key_eq hmem hrow ?_
          exact (id_of_verifyOne hone).symm.trans hid
        subst hsame
        exact .inr ⟨time, hold, (settles_of_verifyOne (hdispatched _ hold) hone).1⟩
  · right
    push Not at hended
    refine ⟨hended, ?_⟩
    have hraises : fetched.mapM verify = .error naiveError := by
      obtain ⟨row, hrow, hopen⟩ := hended
      -- the rows before the open one settle or raise the same error
      refine mapM_eq_error ?_ hrow (verifyOne_raises (hdispatched row hrow) hopen)
      intro other hother
      by_cases hends : Ended s.queue.entries other.1
      · exact .inl (verifyOne_of_ended hends)
      · exact .inr (verifyOne_raises (hdispatched other hother) hends)
    unfold State.runAudit
    dsimp only
    rw [← hverify, hraises]

end batch

/-! ### Steps -/

/-- The rows of the log after a step: an audit settles some, and a dispatch adds some. -/
theorem rows_of_step {event : Event} (hstep : (system library workflow).step s event s') :
    (∃ now fetched f, event = .audit now fetched ∧ s'.audits.rows = s.audits.rows.map f ∧
      ∀ row ∈ s.audits.rows, RowAudited s fetched row (f row)) ∨
    ∃ added, s'.audits.rows = s.audits.rows ++ added := by
  obtain ⟨hpossible, hnext⟩ := hstep
  cases event with
  | queue event =>
    obtain ⟨queue, hqueue, rfl⟩ := Option.map_eq_some_iff.mp hnext
    exact .inr ⟨[], (List.append_nil _).symm⟩
  | dispatch now due =>
    obtain rfl := Option.some.inj hnext
    right
    clear hpossible hnext
    induction due generalizing s with
    | nil => exact ⟨[], (List.append_nil _).symm⟩
    | cons event due ih =>
      obtain ⟨added, hadded⟩ := ih (s := s.dispatchOne now event)
      rw [dispatch_cons, hadded]
      exact ⟨_, List.append_assoc s.audits.rows [_] added⟩
  | audit now fetched =>
    obtain rfl := Option.some.inj hnext
    rcases runAudit_cases hpossible.1 with ⟨-, -, f, hrows, haudited⟩ | ⟨-, hfails⟩
    · exact .inl ⟨now, fetched, f, rfl, hrows, haudited⟩
    · right
      rw [hfails]
      exact ⟨[], (List.append_nil _).symm⟩

/-- A step keeps a row, unless it is an audit that settles the row. -/
theorem row_kept {event : Event} (hstep : (system library workflow).step s event s')
    {audit : EventAuditLog} (haudit : audit ∈ s.audits.rows)
    (hopen : audit.verificationStatus ≠ .pending ∨ ¬Ended s.queue.entries audit) :
    audit ∈ s'.audits.rows := by
  rcases rows_of_step hstep with ⟨now, fetched, f, rfl, hrows, haudited⟩ | ⟨added, hrows⟩
  · rw [hrows]
    rcases haudited audit haudit with ⟨hsame, -⟩ | ⟨time, hfetched, hsettles⟩
    · exact hsame ▸ List.mem_map_of_mem haudit
    · have hpending : audit.verificationStatus = .pending :=
        (auditable_iff.mp (auditable_of_fetched hstep.1.1 (List.mem_map_of_mem hfetched)).2).1
      rcases hopen with hsettled | hnot
      · exact absurd hpending hsettled
      · exact absurd hsettles.ended hnot
  · rw [hrows]
    exact List.mem_append_left _ haudit

/-! ### What the log says -/

/-- The row was settled at least the verification delay after its dispatch. -/
def SettledLater (audit : EventAuditLog) : Prop :=
  ∃ dispatched settled, audit.dispatchedAt = some dispatched ∧ audit.verifiedAt = some settled ∧
    dispatched + minutes verificationDelayMinutes ≤ settled

/-- What a row of the log says about its entry: it is pending, or the entry was `DONE`, or the entry
was `FAILED` and an alert was sent. -/
def Says (entry : Entry) (audit : EventAuditLog) : Prop :=
  match audit.verificationStatus with
  | .pending => audit.verifiedAt = none ∧ audit.failureReason = none ∧ audit.alertSent = false
  | .verified => SettledLater audit ∧ audit.failureReason = none ∧ audit.alertSent = false ∧
      entry.processedAt ≠ none
  | .failed => SettledLater audit ∧ (∃ text, audit.failureReason = some text ∧ text ≠ "") ∧
      audit.alertSent = true ∧ entry.lastError ≠ none
  | .timeout => False

/-- A row of the log refers to an entry of its event, and says what became of it. -/
def Sound (entries : List Entry) (audit : EventAuditLog) : Prop :=
  ∃ entry ∈ entries, audit.jiraQueueEntryId = some entry.id ∧
    entry.scheduledEventId = some audit.scheduledEventId ∧ Says entry audit

theorem Says.grows {entry entry' : Entry} {audit : EventAuditLog} (h : Says entry audit)
    (hgrows : Grows entry entry') : Says entry' audit := by
  unfold Says at h ⊢
  split at h
  · exact h
  · obtain ⟨hlater, hreason, halert, hprocessed⟩ := h
    exact ⟨hlater, hreason, halert, hgrows.processed hprocessed⟩
  · obtain ⟨hlater, hreason, halert, herror⟩ := h
    exact ⟨hlater, hreason, halert, hgrows.error herror⟩
  · exact h

theorem Sound.grown {entries entries' : List Entry} {audit : EventAuditLog}
    (h : Sound entries audit) (hgrown : Grown entries entries') : Sound entries' audit := by
  obtain ⟨entry, hentry, hid, hevent, hsays⟩ := h
  obtain ⟨entry', hentry', hgrows⟩ := hgrown entry hentry
  refine ⟨entry', hentry', ?_, ?_, hsays.grows hgrows⟩
  · rw [hid, id_of_fixed hgrows.fixed]
  · rw [← hevent]
    exact congrArg (fun e => e.scheduledEventId) hgrows.fixed

theorem failureText_ne (lastError : Option String) : failureText lastError ≠ "" := by
  unfold failureText
  dsimp only
  split_ifs with hempty
  · decide
  · exact hempty

/-- A row that an audit settles says what its entry tells. -/
theorem Sound.settled {queue : WriteQueue.State} {audit audit' : EventAuditLog} {now time : ℤ}
    (hqueue : (WriteQueue.system library workflow).Reachable queue)
    (h : Sound queue.entries audit) (hauditable : auditable now audit = true) (htime : now ≤ time)
    (hsettles : Settles queue.entries time audit audit') : Sound queue.entries audit' := by
  obtain ⟨entry, hentry, hid, hevent, hsays⟩ := h
  obtain ⟨hpending, dispatched, hdispatched, hdelay⟩ := auditable_iff.mp hauditable
  unfold Says at hsays
  rw [hpending] at hsays
  obtain ⟨-, hreason, halert⟩ := hsays
  have htells := tells_of_reachable hqueue entry hentry
  have hfound : ∀ found, audit.queueEntry queue.entries = some found → found = entry := by
    intro found hfound
    unfold EventAuditLog.queueEntry at hfound
    rw [hid] at hfound
    dsimp only at hfound
    split_ifs at hfound
    have hmem := List.mem_of_find?_eq_some hfound
    have hsame : found.id = entry.id := by simpa using List.find?_some hfound
    exact List.inj_on_of_nodup_map (nodup_ids hqueue) hmem hentry hsame
  have hlater : ∀ settled : EventAuditLog, settled.dispatchedAt = audit.dispatchedAt →
      settled.verifiedAt = some time → SettledLater settled := fun settled hsame hverified =>
    ⟨dispatched, time, hsame.trans hdispatched, hverified, hdelay.trans htime⟩
  cases hsettles with
  | verified hone hstatus =>
    obtain rfl := hfound _ hone
    refine ⟨_, hentry, hid, hevent, hlater _ rfl rfl, hreason, halert, htells.done hstatus⟩
  | failed hone hstatus =>
    obtain rfl := hfound _ hone
    refine ⟨_, hentry, hid, hevent, hlater _ rfl rfl, ?_, rfl, htells.failed hstatus⟩
    exact ⟨_, rfl, failureText_ne _⟩

theorem laterEntry_cases (latest : Option Entry) (entry : Entry) :
    laterEntry latest entry = some entry ∨
      ∃ other, latest = some other ∧ laterEntry latest entry = some other := by
  cases latest with
  | none => exact .inl rfl
  | some other =>
    unfold laterEntry
    by_cases hlater : other.createdAt ≤ entry.createdAt
    · exact .inl (if_pos hlater)
    · exact .inr ⟨other, rfl, if_neg hlater⟩

theorem latestEntry_spec {entries : List Entry} {eventId : ℤ} {entry : Entry}
    (h : entry ∈ entries) (hevent : entry.scheduledEventId = some eventId) :
    ∃ latest ∈ entries, latestEntry entries eventId = some latest ∧
      latest.scheduledEventId = some eventId := by
  have hfold : ∀ (xs : List Entry) (start : Option Entry),
      (∀ other, start = some other → other ∈ entries ∧ other.scheduledEventId = some eventId) →
      (∀ x ∈ xs, x ∈ entries ∧ x.scheduledEventId = some eventId) → (xs ≠ [] ∨ start ≠ none) →
      ∃ latest ∈ entries, xs.foldl laterEntry start = some latest ∧
        latest.scheduledEventId = some eventId := by
    intro xs
    induction xs with
    | nil =>
      intro start hstart _ hsome
      obtain ⟨other, hother⟩ := Option.ne_none_iff_exists'.mp (hsome.resolve_left (fun h => h rfl))
      obtain ⟨hmem, hid⟩ := hstart other hother
      exact ⟨other, hmem, hother, hid⟩
    | cons x xs ih =>
      intro start hstart hxs _
      rw [List.foldl_cons]
      have hrest := fun y hy => hxs y (List.mem_cons_of_mem _ hy)
      rcases laterEntry_cases start x with hlater | ⟨other, hother, hlater⟩
      · rw [hlater]
        refine ih _ (fun other hother => ?_) hrest (.inr (Option.some_ne_none _))
        obtain rfl := Option.some.inj hother
        exact hxs _ List.mem_cons_self
      · rw [hlater, ← hother]
        exact ih _ hstart hrest (.inr (hother ▸ Option.some_ne_none _))
  refine hfold _ none (fun other hother => by cases hother) (fun x hx => ?_) (.inl ?_)
  · obtain ⟨hmem, hid⟩ := List.mem_filter.mp hx
    exact ⟨hmem, of_decide_eq_true hid⟩
  · exact List.ne_nil_of_mem (List.mem_filter.mpr ⟨h, decide_eq_true hevent⟩)

/-- The row that a dispatch adds refers to an entry of its event. -/
theorem sound_dispatchOne {now : ℤ} {due : DueEvent}
    (h : ∀ audit ∈ s.audits.rows, Sound s.queue.entries audit) :
    ∀ audit ∈ (s.dispatchOne now due).audits.rows,
      Sound (s.dispatchOne now due).queue.entries audit := by
  intro audit haudit
  show Sound (s.queue.entries ++ [due.entry.row]) audit
  rcases (Table.mem_insert fun _ => rfl).mp haudit with hold | rfl
  · exact (h audit hold).grown (grown_append _ _)
  · have hmem : due.entry.row ∈ s.queue.entries ++ [due.entry.row] :=
      List.mem_append_right _ (List.mem_singleton_self _)
    obtain ⟨latest, hlatest, heq, hevent⟩ := latestEntry_spec hmem rfl
    refine ⟨latest, hlatest, ?_, hevent, rfl, rfl, rfl⟩
    show (latestEntry (s.queue.entries ++ [due.entry.row]) due.event.id).map (·.id) = _
    rw [heq]
    rfl

/-- Every row of the log is sound in every reachable state. -/
theorem sound_of_reachable (h : (system library workflow).Reachable s) :
    ∀ audit ∈ s.audits.rows, Sound s.queue.entries audit := by
  refine h.invariant (I := fun s => ∀ audit ∈ s.audits.rows, Sound s.queue.entries audit) ?_ ?_
  · rintro i s rfl audit haudit
    cases haudit
  · intro s event s' hreach ih hstep
    have hgrown := grown_of_step hstep
    obtain ⟨hpossible, hnext⟩ := hstep
    cases event with
    | queue event =>
      obtain ⟨queue, hqueue, rfl⟩ := Option.map_eq_some_iff.mp hnext
      exact fun audit haudit => (ih audit haudit).grown hgrown
    | dispatch now due =>
      obtain rfl := Option.some.inj hnext
      clear hpossible hnext hgrown hreach
      induction due generalizing s with
      | nil => exact ih
      | cons event due hrest => exact hrest _ (sound_dispatchOne ih)
    | audit now fetched =>
      obtain rfl := Option.some.inj hnext
      rw [runAudit_queue]
      rcases runAudit_cases hpossible.1 with ⟨-, -, f, hrows, haudited⟩ | ⟨-, hfails⟩
      · intro audit haudit
        rw [hrows] at haudit
        obtain ⟨row, hrow, rfl⟩ := List.mem_map.mp haudit
        rcases haudited row hrow with ⟨hsame, -⟩ | ⟨time, hfetched, hsettles⟩
        · rw [hsame]
          exact ih row hrow
        · have hauditable := (auditable_of_fetched hpossible.1 (List.mem_map_of_mem hfetched)).2
          exact (ih row hrow).settled (queue_reachable hreach) hauditable
            (hpossible.2 _ hfetched) hsettles
      · rw [hfails]
        exact ih

/-- In every reachable state each row of the log refers to an entry of its event, and it is pending,
or the entry was `DONE`, or the entry was `FAILED` and the row has a reason and an alert; no row
times out.  A row that was settled is never changed again. -/
theorem audit_log_sound :
    (∀ s : State, (system library workflow).Reachable s →
      ∀ audit ∈ s.audits.rows, Sound s.queue.entries audit) ∧
    ∀ s later : State, (system library workflow).Reachable s →
      (system library workflow).ReachesBy (fun _ _ => True) s later →
      ∀ audit ∈ s.audits.rows, audit.verificationStatus ≠ .pending →
        audit ∈ later.audits.rows := by
  refine ⟨fun s h => sound_of_reachable h, fun s later hreach hlater audit haudit hsettled => ?_⟩
  refine hlater.invariant (I := fun s => audit ∈ s.audits.rows) hreach haudit ?_
  exact fun s event s' _ hrow _ hstep => row_kept hstep hrow (.inl hsettled)

/-- Every row of a summary is counted once. -/
theorem countStatus_total (audits : List EventAuditLog) : audits.length =
    countStatus .pending audits + (countStatus .verified audits + countStatus .failed audits +
      countStatus .timeout audits) := by
  induction audits with
  | nil => rfl
  | cons audit audits ih =>
    unfold countStatus at ih ⊢
    simp only [List.length_cons, List.countP_cons, decide_eq_true_eq]
    cases audit.verificationStatus <;> simp <;> omega

theorem failures_length (audits : List EventAuditLog) :
    (audits.filter fun audit =>
      audit.verificationStatus = .failed || audit.verificationStatus = .timeout).length =
        countStatus .failed audits + countStatus .timeout audits := by
  induction audits with
  | nil => rfl
  | cons audit audits ih =>
    unfold countStatus at ih ⊢
    rw [List.filter_cons]
    simp only [List.countP_cons, decide_eq_true_eq]
    cases audit.verificationStatus <;> simp <;> omega

/-- The summary of a sprint counts every row of its events once, and no timeout. -/
theorem getAuditSummary_of_reachable (h : (system library workflow).Reachable s)
    (eventIds : List ℤ) : let summary := getAuditSummary eventIds s.audits.rows
    summary.total = summary.pending + summary.dispatched ∧ summary.timeout = 0 ∧
      summary.failures.length = summary.failed := by
  dsimp only
  unfold getAuditSummary
  split_ifs
  · exact ⟨rfl, rfl, rfl⟩
  · have htimeout : countStatus .timeout (s.audits.rows.filter fun audit =>
        audit.scheduledEventId ∈ eventIds) = 0 := by
      refine List.countP_eq_zero.mpr fun audit haudit => ?_
      obtain ⟨entry, -, -, -, hsays⟩ := sound_of_reachable h audit (List.mem_of_mem_filter haudit)
      rw [decide_eq_true_eq]
      intro hstatus
      unfold Says at hsays
      rw [hstatus] at hsays
      exact hsays
    refine ⟨countStatus_total _, htimeout, ?_⟩
    rw [failures_length, htimeout, add_zero]

/-! ### Rows that block the audit -/

/-- An abandoned entry has not ended. -/
theorem not_ended_of_abandoned {queue : WriteQueue.State} {audit : EventAuditLog} {id : String}
    (hid : audit.jiraQueueEntryId = some id) (h : Abandoned queue id) :
    ¬Ended queue.entries audit := by
  rintro ⟨entry, hentry, hended⟩
  obtain ⟨row, hrow, hinFlight⟩ := h.inFlight
  unfold EventAuditLog.queueEntry at hentry
  rw [hid] at hentry
  dsimp only at hentry
  split_ifs at hentry
  rw [show queue.entries.find? (fun e => e.id = id) = some row from hrow] at hentry
  obtain rfl := Option.some.inj hentry
  rw [hinFlight] at hended
  rcases hended with hdone | hfailed
  · cases hdone
  · cases hfailed

theorem abandoned_of_step {event : Event} {id : String}
    (hreach : (system library workflow).Reachable s) (h : Abandoned s.queue id)
    (hstep : (system library workflow).step s event s') : Abandoned s'.queue id := by
  have hqueue := queue_reachable hreach
  obtain ⟨hpossible, hnext⟩ := hstep
  cases event with
  | queue event =>
    obtain ⟨queue, hnextQueue, rfl⟩ := Option.map_eq_some_iff.mp hnext
    exact Abandoned.step hqueue h ⟨hpossible, hnextQueue⟩
  | dispatch now due =>
    obtain rfl := Option.some.inj hnext
    obtain ⟨row, hrow, hstatus⟩ := h.inFlight
    rw [dispatch_queue]
    obtain ⟨hentries, hbatches, -, -⟩ := enqueueAll_same s.queue (due.map (·.entry))
    refine ⟨⟨row, find_of_append hentries hrow, hstatus⟩, ?_⟩
    rw [hbatches]
    exact h.unheld
  | audit now fetched =>
    obtain rfl := Option.some.inj hnext
    rw [runAudit_queue]
    exact h

/-- When the log has no more due rows than an audit fetches, it fetches them all. -/
theorem fetched_of_few {audits batch : List EventAuditLog} {now : ℤ}
    (hbatch : IsAuditBatch audits now batch)
    (hfew : (audits.filter (auditable now)).length ≤ auditBatchSize) {audit : EventAuditLog}
    (haudit : audit ∈ audits) (hdue : auditable now audit = true) : audit ∈ batch := by
  obtain ⟨rest, hperm, hlength⟩ := hbatch
  have hall := hperm.length_eq
  rw [List.length_append, hlength, min_eq_right hfew] at hall
  have hrest : rest = [] := List.eq_nil_of_length_eq_zero (by omega)
  rw [hrest, List.append_nil] at hperm
  exact hperm.mem_iff.mpr (List.mem_filter.mpr ⟨haudit, hdue⟩)

/-- The audit settles every row that it fetched by its entry, and leaves the others alone. -/
structure SettlesAll (s s' : State) (fetched : List (EventAuditLog × ℤ)) : Prop where
  settled : ∀ row ∈ fetched, ∃ after ∈ s'.audits.rows, Settles s.queue.entries row.2 row.1 after
  kept : ∀ row ∈ s.audits.rows, row ∉ fetched.map (·.1) → row ∈ s'.audits.rows

/-- An audit settles all its rows when their entries have ended, and raises and changes nothing when
one has not. -/
theorem runAudit_settles {now : ℤ} {fetched : List (EventAuditLog × ℤ)}
    (hbatch : IsAuditBatch s.audits.rows now (fetched.map (·.1))) :
    ((∀ row ∈ fetched, Ended s.queue.entries row.1) →
      (∃ counts, (s.runAudit now fetched).2 = .ok counts) ∧
        SettlesAll s (s.runAudit now fetched).1 fetched) ∧
    ((∃ row ∈ fetched, ¬Ended s.queue.entries row.1) →
      s.runAudit now fetched = (s, .error naiveError)) := by
  rcases runAudit_cases hbatch with
    ⟨hended, ⟨counts, hcounts, -⟩, f, hrows, haudited⟩ | ⟨⟨row, hrow, hopen⟩, hfails⟩
  · refine ⟨fun _ => ⟨⟨counts, hcounts⟩, fun row hrow => ?_, fun row hrow hnot => ?_⟩, ?_⟩
    · have hmem := (auditable_of_fetched hbatch (List.mem_map_of_mem hrow)).1
      refine ⟨f row.1, hrows ▸ List.mem_map_of_mem hmem, ?_⟩
      rcases haudited row.1 hmem with ⟨-, hnot⟩ | ⟨time, hfetched, hsettles⟩
      · exact absurd (List.mem_map_of_mem hrow) hnot
      · -- a row is fetched once
        have hnodup : (fetched.map (·.1)).Nodup := (fetched_nodup hbatch).of_map
        have hsame := List.inj_on_of_nodup_map hnodup hfetched hrow rfl
        exact congrArg Prod.snd hsame ▸ hsettles
    · rcases haudited row hrow with ⟨hsame, -⟩ | ⟨time, hfetched, -⟩
      · rw [hrows, ← hsame]
        exact List.mem_map_of_mem hrow
      · exact absurd (List.mem_map_of_mem (f := Prod.fst) hfetched) hnot
    · rintro ⟨row, hrow, hnot⟩
      exact absurd (hended row hrow) hnot
  · exact ⟨fun hended => absurd (hended row hrow) hopen, fun _ => hfails⟩

/-- An audit settles the rows that it fetched when all their entries have ended, and otherwise the
comparison with the cutoff raises and no row is changed.  A row whose entry the process abandoned
stays pending, and from the verification delay on it makes every audit fail that has no more due
rows than it fetches. -/
theorem audit_blocked :
    (∀ (s : State) (now : ℤ) (fetched : List (EventAuditLog × ℤ)),
      Possible workflow s (.audit now fetched) →
      ((∀ row ∈ fetched, Ended s.queue.entries row.1) →
        (∃ counts, (s.runAudit now fetched).2 = .ok counts) ∧
          SettlesAll s (s.runAudit now fetched).1 fetched) ∧
      ((∃ row ∈ fetched, ¬Ended s.queue.entries row.1) →
        s.runAudit now fetched = (s, .error naiveError))) ∧
    ∀ (s later : State) (audit : EventAuditLog) (id : String),
      (system library workflow).Reachable s → audit ∈ s.audits.rows →
      audit.jiraQueueEntryId = some id → Abandoned s.queue id →
      (system library workflow).ReachesBy (fun _ _ => True) s later →
      audit ∈ later.audits.rows ∧
      ∀ (now : ℤ) (fetched : List (EventAuditLog × ℤ)),
        Possible workflow later (.audit now fetched) → auditable now audit = true →
        (later.audits.rows.filter (auditable now)).length ≤ auditBatchSize →
        later.runAudit now fetched = (later, .error naiveError) := by
  refine ⟨fun s now fetched hpossible => runAudit_settles hpossible.1, fun s later audit id hreach
    haudit hid habandoned hlater => ?_⟩
  · have hkept : audit ∈ later.audits.rows ∧ Abandoned later.queue id := by
      refine hlater.invariant (I := fun s => audit ∈ s.audits.rows ∧ Abandoned s.queue id) hreach
        ⟨haudit, habandoned⟩ ?_
      rintro s event s' hs ⟨hrow, hentry⟩ - hstep
      exact ⟨row_kept hstep hrow (.inr (not_ended_of_abandoned hid hentry)),
        abandoned_of_step hs hentry hstep⟩
    obtain ⟨hrow, hentry⟩ := hkept
    refine ⟨hrow, fun now fetched hpossible hdue hfew => ?_⟩
    obtain ⟨pair, hpair, rfl⟩ := List.mem_map.mp (fetched_of_few hpossible.1 hfew hrow hdue)
    exact (runAudit_settles hpossible.1).2 ⟨pair, hpair, not_ended_of_abandoned hid hentry⟩

/-! ### A crash during a dispatch -/

/-- An event that adds a comment. -/
def dueComment : DueEvent where
  event := {
    id := 1, teamId := 1, sprintId := 1, issueId := none, eventType := "ADD_COMMENT"
    scheduledAt := 0, simTick := 0, payload := [("issue_key", .string "S-1"), ("body", .string "")]
    status := .pending, dispatchedAt := none, modifiedAt := none, originalPayload := none
    originalScheduledAt := none, sequenceOrder := 0 }
  entryId := "a"
  createdAt := 0

/-- The dispatch of the comment. -/
def dispatchedComment : State :=
  ({ queue := emptyQueue, audits := .empty _ } : State).dispatch 0 [dueComment]

theorem dispatchedComment_reachable :
    (system plainLibrary workflow).Reachable dispatchedComment := by
  have hstart : (system plainLibrary workflow).Reachable
      { queue := emptyQueue, audits := .empty _ } :=
    .start (i := ([], [], fun _ => "To Do")) rfl trivial
  refine .step (e := .dispatch 0 [dueComment]) hstart trivial ⟨⟨List.nodup_singleton _, ?_⟩, rfl⟩
  exact fun _ _ => rfl

theorem reachable_of_after {queue : WriteQueue.State} {events : List WriteQueue.Event}
    (hs : (system library workflow).Reachable s)
    (hpermitted : Permitted library workflow (fun _ _ => True) s.queue events)
    (h : s.queue.after library workflow events = some queue) :
    (system library workflow).Reachable { s with queue } := by
  induction events generalizing s with
  | nil =>
    obtain rfl := Option.some.inj h
    exact hs
  | cons event events ih =>
    rw [State.after, List.foldlM_cons] at h
    obtain ⟨hpossible, -, hrest⟩ := hpermitted
    obtain ⟨next, hnext, hlater⟩ := Option.bind_eq_some_iff.mp h
    refine ih (s := { s with queue := next }) ?_ (hrest next hnext) hlater
    exact .step (e := .queue event) hs trivial
      ⟨hpossible, Option.map_eq_some_iff.mpr ⟨next, hnext, rfl⟩⟩

/-- The process ends while the entry of the comment is `IN_FLIGHT`: no audit settles the row. -/
theorem audit_blocked_crash : ∃ s, (system plainLibrary fun _ id => id).Reachable s ∧
    countStatus .pending s.audits.rows = 1 ∧ ∀ later now fetched,
      (system plainLibrary fun _ id => id).ReachesBy (fun _ _ => True) s later →
      Possible (fun _ id => id) later (.audit now fetched) → minutes 15 ≤ now →
      (later.audits.rows.filter (auditable now)).length ≤ auditBatchSize →
      later.runAudit now fetched = (later, .error naiveError) := by
  -- the batch that took the entry dies before it writes an outcome
  have htaken : (dispatchedComment.queue.after plainLibrary (fun _ id => id)
      [.processBatch 0 .online 10 [dueComment.entry.row], .take 0]).map
        (fun queue => queue.entries.map fun e => (e.id, e.status)) = some [("a", .inFlight)] := by
    decide +kernel
  obtain ⟨queue, hqueue, hentries⟩ := Option.map_eq_some_iff.mp htaken
  obtain ⟨row, hrows, hrow⟩ := List.map_eq_singleton_iff.mp hentries
  obtain ⟨hid, hinFlight⟩ := Prod.mk.inj hrow
  have hmem : row ∈ queue.entries := by
    rw [hrows]
    exact List.mem_singleton_self _
  have hreach : (system plainLibrary fun _ id => id).Reachable
      { dispatchedComment with queue } := by
    refine reachable_of_after dispatchedComment_reachable ?_ hqueue
    refine ⟨⟨rfl, .refl _, List.pairwise_singleton _ _⟩, trivial, ?_⟩
    rintro _ ⟨⟩
    refine ⟨trivial, trivial, ?_⟩
    rintro _ ⟨⟩
    trivial
  have habandoned := abandoned_of_crash (queue_reachable hreach) hmem hinFlight
  refine ⟨_, .step (e := .queue .crash) hreach trivial ⟨trivial, rfl⟩, rfl, ?_⟩
  intro later now fetched hlater hpossible hnow hfew
  have hcrash : (system plainLibrary fun _ id => id).Reachable
      { dispatchedComment with queue := { queue with batches := fun _ => none } } :=
    .step (e := .queue .crash) hreach trivial ⟨trivial, rfl⟩
  refine (audit_blocked.2 _ later (newAudit 0 dueComment.event (some "a") 1) "a" hcrash ?_ rfl
    (hid ▸ habandoned) hlater).2 now fetched hpossible ?_ hfew
  · exact List.mem_singleton_self _
  · exact auditable_iff.mpr ⟨rfl, 0, rfl, (zero_add _).trans_le hnow⟩

/-! ### Audits that settle everything -/

/-- Some audits in a row, none before the given time. -/
inductive Audits (library : PythonLibrary) (workflow : String → String → String) (since : ℤ)
    (s : State) : ℕ → State → Prop
  | none : Audits library workflow since s 0 s
  | more {count : ℕ} {now : ℤ} {fetched : List (EventAuditLog × ℤ)} {s' s'' : State}
      (h : Audits library workflow since s count s') (hnow : since ≤ now)
      (hstep : (system library workflow).step s' (.audit now fetched) s'') :
      Audits library workflow since s (count + 1) s''

/-- The entries of all pending rows have ended, and the rows are due. -/
def AllEnded (since : ℤ) (s : State) : Prop :=
  ∀ audit ∈ s.audits.rows, audit.verificationStatus = .pending →
    auditable since audit = true ∧ Ended s.queue.entries audit

theorem auditable_mono {since now : ℤ} (h : since ≤ now) {audit : EventAuditLog}
    (hdue : auditable since audit = true) : auditable now audit = true := by
  obtain ⟨hpending, dispatched, hdispatched, hdelay⟩ := auditable_iff.mp hdue
  exact auditable_iff.mpr ⟨hpending, dispatched, hdispatched, hdelay.trans h⟩

/-- One audit settles as many rows as it fetches. -/
theorem AllEnded.step {since now : ℤ} {fetched : List (EventAuditLog × ℤ)} (h : AllEnded since s)
    (hnow : since ≤ now) (hstep : (system library workflow).step s (.audit now fetched) s') :
    AllEnded since s' ∧ countStatus .pending s'.audits.rows =
      countStatus .pending s.audits.rows - auditBatchSize := by
  obtain ⟨hpossible, hnext⟩ := hstep
  obtain rfl := Option.some.inj hnext
  have hfetchedRow : ∀ row ∈ fetched, row.1 ∈ s.audits.rows ∧ auditable now row.1 = true :=
    fun row hrow => auditable_of_fetched hpossible.1 (List.mem_map_of_mem hrow)
  rcases runAudit_cases hpossible.1 with ⟨-, -, f, hrows, haudited⟩ | ⟨⟨row, hrow, hopen⟩, -⟩
  -- an audit that raises has met a row that is not ended
  swap
  · obtain ⟨hmem, hdue⟩ := hfetchedRow row hrow
    exact absurd (h row.1 hmem (auditable_iff.mp hdue).1).2 hopen
  -- a row that is still pending was not fetched
  have hpendingAfter : ∀ row ∈ s.audits.rows, (f row).verificationStatus = .pending →
      f row = row ∧ row ∉ fetched.map (·.1) := by
    intro row hrow hpending
    rcases haudited row hrow with hsame | ⟨time, -, hsettles⟩
    · exact hsame
    · exact absurd hpending hsettles.not_pending
  constructor
  · intro audit haudit hpending
    rw [hrows] at haudit
    obtain ⟨row, hrow, rfl⟩ := List.mem_map.mp haudit
    obtain ⟨hsame, -⟩ := hpendingAfter row hrow hpending
    rw [hsame, runAudit_queue]
    exact h row hrow (hsame ▸ hpending)
  · obtain ⟨rest, hperm, hlength⟩ := hpossible.1
    -- every pending row is due, so the fetched rows are counted among all
    have hdue : s.audits.rows.filter (auditable now) =
        s.audits.rows.filter (fun row => decide (row.verificationStatus = .pending)) := by
      refine List.filter_congr fun row hrow => ?_
      rw [Bool.eq_iff_iff, decide_eq_true_eq]
      exact ⟨fun hdue => (auditable_iff.mp hdue).1, fun hpending =>
        auditable_mono hnow (h row hrow hpending).1⟩
    have hcount : countStatus .pending s.audits.rows =
        (s.audits.rows.filter (auditable now)).length := by
      rw [hdue, countStatus, List.countP_eq_length_filter]
    -- the pending rows that are left are the rest of the batch
    have hkept : (s.audits.rows.filter (fun row =>
        decide ((f row).verificationStatus = .pending))).Perm rest := by
      have hnodup : (s.audits.rows.filter (auditable now)).Nodup :=
        (s.audits.distinct.of_map _).filter _
      have hparts := hperm.nodup_iff.mpr hnodup
      refine (List.perm_ext_iff_of_nodup ((s.audits.distinct.of_map _).filter _)
        hparts.of_append_right).mpr fun row => ?_
      have hsplit := hperm.mem_iff (a := row)
      rw [List.mem_append] at hsplit
      rw [List.mem_filter, decide_eq_true_eq]
      constructor
      · rintro ⟨hrow, hpending⟩
        obtain ⟨hsame, hnot⟩ := hpendingAfter row hrow hpending
        have hauditable := auditable_mono hnow (h row hrow (hsame ▸ hpending)).1
        exact (hsplit.mpr (List.mem_filter.mpr ⟨hrow, hauditable⟩)).resolve_left hnot
      · intro hrest
        obtain ⟨hrow, hauditable⟩ := List.mem_filter.mp (hsplit.mp (.inr hrest))
        refine ⟨hrow, ?_⟩
        rcases haudited row hrow with ⟨hsame, -⟩ | ⟨time, hfetched, -⟩
        · rw [hsame]
          exact (auditable_iff.mp hauditable).1
        · have hboth := List.disjoint_of_nodup_append hparts
          exact absurd hrest (hboth (List.mem_map_of_mem hfetched))
    have hafter : countStatus .pending (s.runAudit now fetched).1.audits.rows = rest.length := by
      rw [countStatus, hrows, List.countP_map, List.countP_eq_length_filter]
      exact hkept.length_eq
    have htotal := hperm.length_eq
    rw [List.length_append] at htotal
    rw [hafter, hcount]
    omega

/-- When the entries of all pending rows have ended, each audit settles as many rows as it fetches,
whichever the database selects: enough audits settle them all. -/
theorem audits_settle :
    ∀ (since : ℤ) (s s' : State) (count : ℕ), AllEnded since s →
      Audits library workflow since s count s' →
      countStatus .pending s'.audits.rows =
        countStatus .pending s.audits.rows - count * auditBatchSize := by
  intro since s s' count hended haudits
  suffices h : AllEnded since s' ∧ countStatus .pending s'.audits.rows =
      countStatus .pending s.audits.rows - count * auditBatchSize from h.2
  induction haudits with
  | none => exact ⟨hended, by omega⟩
  | more _ hnow hstep ih =>
    obtain ⟨hended', hcount⟩ := ih.1.step hnow hstep
    refine ⟨hended', ?_⟩
    rw [hcount, ih.2, Nat.add_one_mul]
    omega

/-- Audits can always follow each other: the database has some rows to select. -/
theorem exists_audits (since : ℤ) (s : State) (count : ℕ) :
    ∃ s', Audits library workflow since s count s' := by
  induction count with
  | zero => exact ⟨s, .none⟩
  | succ count ih =>
    obtain ⟨s', haudits⟩ := ih
    set due := s'.audits.rows.filter (auditable since) with hdue
    set fetched := (due.take auditBatchSize).map fun row => (row, since) with hfetched
    have hrows : fetched.map (·.1) = due.take auditBatchSize := by
      rw [hfetched, List.map_map]
      exact List.map_id _
    have hbatch : IsAuditBatch s'.audits.rows since (fetched.map (·.1)) := by
      rw [hrows]
      refine ⟨due.drop auditBatchSize, ?_, List.length_take⟩
      rw [List.take_append_drop]
    have hstep : (system library workflow).step s' (.audit since fetched)
        (s'.runAudit since fetched).1 := by
      refine ⟨⟨hbatch, fun row hrow => ?_⟩, rfl⟩
      obtain ⟨audit, -, rfl⟩ := List.mem_map.mp hrow
      exact le_rfl
    exact ⟨_, .more haudits le_rfl hstep⟩

/-- Events that add comments. -/
def dueComments (count : ℕ) : List DueEvent :=
  (List.range count).map fun index =>
    { dueComment with
      event := { dueComment.event with id := index }, entryId := toString index }

/-- Their dispatch, after the queue has delivered all of them. -/
def deliveredComments (count : ℕ) : State :=
  let s := ({ queue := emptyQueue, audits := .empty _ } : State).dispatch 0 (dueComments count)
  { s with queue := { s.queue with
    entries := s.queue.entries.map fun e => { e with status := .done, processedAt := some 1 } } }

/-- The entries of a hundred and one comments are done: the first audit leaves one row to the
second.
-/
theorem audits_settle_comments : AllEnded (minutes 15) (deliveredComments 101) ∧
    countStatus .pending (deliveredComments 101).audits.rows = 101 ∧
    ∃ s s', Audits plainLibrary (fun _ id => id) (minutes 15) (deliveredComments 101) 1 s ∧
      countStatus .pending s.audits.rows = 1 ∧
      Audits plainLibrary (fun _ id => id) (minutes 15) (deliveredComments 101) 2 s' ∧
      countStatus .pending s'.audits.rows = 0 := by
  have hcount : countStatus .pending (deliveredComments 101).audits.rows = 101 := by
    decide +kernel
  have hall : (deliveredComments 101).audits.rows.all (fun audit =>
      auditable (minutes 15) audit &&
        (audit.queueEntry (deliveredComments 101).queue.entries).any fun entry =>
          entry.status = .done) = true := by
    decide +kernel
  have hended : AllEnded (minutes 15) (deliveredComments 101) := by
    intro audit haudit _
    have hone := List.all_eq_true.mp hall audit haudit
    rw [Bool.and_eq_true, Option.any_eq_true] at hone
    obtain ⟨hdue, entry, hentry, hstatus⟩ := hone
    exact ⟨hdue, entry, hentry, .inl (of_decide_eq_true hstatus)⟩
  obtain ⟨s, hone⟩ := @exists_audits plainLibrary (fun _ id => id) (minutes 15)
    (deliveredComments 101) 1
  obtain ⟨s', htwo⟩ := @exists_audits plainLibrary (fun _ id => id) (minutes 15)
    (deliveredComments 101) 2
  have hfirst := audits_settle _ _ _ _ hended hone
  have hsecond := audits_settle _ _ _ _ hended htwo
  rw [hcount] at hfirst hsecond
  exact ⟨hended, hcount, s, s', hone, hfirst, htwo, hsecond⟩

end JiraSimulator.EventAudit
