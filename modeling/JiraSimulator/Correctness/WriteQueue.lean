import JiraSimulator.Correctness.WriteSteps
import JiraSimulator.Library.WorkQueue

/-!
# Dispatches of the write queue

The queue is a work queue: `State.view` forgets everything but the phases of the entries and what
the batches work on (`view_reaches`).
* `entry_dispatched_once`: an entry is dispatched once for each time it becomes `PENDING`, when no
  batch takes an entry that is no longer `PENDING`; `dispatchedOnce_take` says that any other take
  breaks it, and in `not_dispatched_once` two batches do.
* `entry_served`: an entry is settled, or the queue still does something with it, when the process
  ends only while no entry is `IN_FLIGHT`; in `entry_lost` it ends during a dispatch.
-/

namespace JiraSimulator.WriteQueue

open Library.Redelivery Library.Transition Library.WorkQueue

variable {library : PythonLibrary} {workflow : String → String → String} {s s' : State}

/-! ### The work queue -/

def phaseOf : EntryStatus → Phase
  | .pending => .waiting
  | .inFlight => .running
  | .done | .skipped => .finished
  | .failed => .failed

def mark : Happened → Option (Mark String)
  | .pending id => some (.waits id)
  | .dispatched id _ => some (.claimed id)
  | .moved .. => none

/-- The queue without what is in its entries. -/
def State.view (s : State) : Queue String ℕ where
  phase id := (s.find id).map fun e => phaseOf e.status
  job b := (s.batches b).bind Batch.job
  log := s.history.filterMap mark

theorem view_phase_of_map {f : Entry → Entry} {ids : List String} (phase : Phase) (hf : Updates f)
    (hphase : ∀ e, phaseOf (f e).status = phase) (hfound : ∀ id ∈ ids, s.find id ≠ none)
    (h : s'.entries = s.entries.map fun e => if e.id ∈ ids then f e else e) :
    s'.view.phase = fun id => if id ∈ ids then some phase else s.view.phase id := by
  funext id
  show (s'.find id).map _ = _
  rw [find_of_map (updates_if hf _) h]
  cases hfind : s.find id with
  | none =>
    rw [if_neg fun hmem => hfound id hmem hfind]
    show _ = (s.find id).map _
    rw [hfind]
    rfl
  | some row =>
    have hid := State.id_of_find hfind
    subst hid
    by_cases hmem : row.id ∈ ids
    · rw [if_pos hmem, Option.map_some, Option.map_some, if_pos hmem, hphase]
    · rw [if_neg hmem, Option.map_some, Option.map_some, if_neg hmem]
      show _ = (s.find row.id).map _
      rw [hfind]
      rfl

theorem view_phase_of_single {f : Entry → Entry} {id : String} (phase : Phase) (hf : Updates f)
    (hphase : ∀ e, phaseOf (f e).status = phase) (hfound : s.find id ≠ none)
    (h : s'.entries = s.entries.map fun e => if e.id = id then f e else e) :
    s'.view.phase = Function.update s.view.phase id (some phase) := by
  have hone : s'.entries = s.entries.map fun e => if e.id ∈ [id] then f e else e := by
    rw [h]
    exact List.map_congr_left fun e _ => by simp only [List.mem_singleton]
  rw [view_phase_of_map phase hf hphase (fun k hk => by rwa [List.mem_singleton.mp hk]) hone]
  funext k
  rw [Function.update_apply]
  simp only [List.mem_singleton]

theorem view_job_of_update {b : ℕ} {batch : Option Batch}
    (h : s'.batches = Function.update s.batches b batch) :
    s'.view.job = Function.update s.view.job b (batch.bind Batch.job) := by
  funext k
  show (s'.batches k).bind _ = _
  rw [h, Function.update_apply, Function.update_apply]
  split_ifs
  · rfl
  · rfl

theorem job_of_dispatches {b : ℕ} {entry : Entry} {script : QueueScript Dispatched}
    (h : Dispatches s b entry script) : s.view.job b = some entry.id := by
  obtain ⟨batch, hbatch, hstage⟩ := h
  show (s.batches b).bind Batch.job = _
  rw [hbatch, Option.bind_some, Batch.job, hstage]

theorem dispatches_of_job {b : ℕ} {id : String} (h : s.view.job b = some id) :
    ∃ entry script, Dispatches s b entry script ∧ entry.id = id := by
  obtain ⟨batch, hbatch, hjob⟩ := Option.bind_eq_some_iff.mp h
  rw [Batch.job] at hjob
  cases hstage : batch.stage with
  | waiting _ => rw [hstage] at hjob; cases hjob
  | dispatching entry script =>
    rw [hstage] at hjob
    exact ⟨entry, script, ⟨batch, hbatch, hstage⟩, Option.some.inj hjob⟩

theorem find_enqueue_of_ne {new : NewEntry} {id : String} (hid : id ≠ new.id) :
    (s.enqueue new).find id = s.find id := by
  rw [State.find, State.enqueue, List.find?_append, List.find?_singleton,
    if_neg fun h => hid (of_decide_eq_true h).symm, Option.or_none]
  rfl

theorem view_enqueue {new : NewEntry} (hnew : s.find new.id = none) :
    (s.enqueue new).view = s.view.wait new.id := by
  have hphase : (s.enqueue new).view.phase =
      Function.update s.view.phase new.id (some .waiting) := by
    funext id
    rw [Function.update_apply]
    show ((s.enqueue new).find id).map _ = _
    by_cases hid : id = new.id
    · rw [if_pos hid, hid, State.find, State.enqueue, List.find?_append]
      change ((s.find new.id).or _).map _ = _
      rw [hnew, Option.none_or, List.find?_singleton]
      show Option.map _ (if decide (new.id = new.id) = true then some new.row else none) = _
      rw [if_pos (decide_eq_true rfl)]
      rfl
    · rw [if_neg hid, find_enqueue_of_ne hid]
      rfl
  show Queue.mk _ _ _ = _
  rw [Queue.wait]
  congr 1

theorem view_take {b : ℕ} {batch : Batch} {entry : Entry} {rest : List String}
    (hfind : s.find entry.id = some entry) :
    (s.take library b batch entry rest).view = s.view.claim b entry.id := by
  have hphase := view_phase_of_single .running inFlight_updates (fun _ => rfl)
    (by rw [hfind]; exact Option.some_ne_none _)
    (take_entries library s b batch entry rest)
  have hjob : (s.take library b batch entry rest).view.job =
      Function.update s.view.job b (some entry.id) := by
    have hbatches : (s.take library b batch entry rest).batches =
        Function.update s.batches b (some ⟨.dispatching (inFlight entry)
          (dispatch library (inFlight entry)), rest, batch.delay⟩) := rfl
    rw [view_job_of_update hbatches]
    rfl
  show Queue.mk _ _ _ = _
  rw [Queue.claim]
  congr 1

theorem view_answer {b : ℕ} {batch : Batch} {entry : Entry} {request : QueueRequest}
    {next : Answer request → QueueScript Dispatched} {answer : Answer request} {reached : Bool}
    (hbatch : s.batches b = some batch)
    (hstage : batch.stage = .dispatching entry (.call request next)) :
    (s.answer workflow b batch entry request next answer reached).view = s.view := by
  have hphase : (s.answer workflow b batch entry request next answer reached).view.phase =
      s.view.phase := by
    funext id
    show (State.find _ id).map _ = _
    rw [State.find, answer_entries]
    rfl
  have hjob : (s.answer workflow b batch entry request next answer reached).view.job =
      s.view.job := by
    rw [view_job_of_update (answer_batches ..)]
    show Function.update s.view.job b (some entry.id) = _
    rw [← job_of_dispatches ⟨batch, hbatch, hstage⟩, Function.update_eq_self]
  have hlog : (s.answer workflow b batch entry request next answer reached).view.log =
      s.view.log := by
    show List.filterMap mark _ = _
    rcases answer_history workflow s b batch entry request next answer reached with
      ⟨_, hhistory⟩ | ⟨key, id, _, _, hhistory⟩
    · rw [hhistory]
      rfl
    · rw [hhistory]
      rfl
  show Queue.mk _ _ _ = Queue.mk _ _ _
  congr 1

theorem view_finish {b : ℕ} {now : ℤ} {batch : Batch} {entry : Entry}
    {result : Except QueueError Dispatched} (hfound : s.find entry.id ≠ none) :
    (s.finish library b batch entry now result).view =
      s.view.finish b entry.id (phaseOf (endStatus result)) := by
  have hphase := view_phase_of_single (phaseOf (endStatus result))
    (ending_updates entry now result) (fun e => by rw [ending_status]) hfound
    (finish_entries library s b batch entry now result)
  have hjob : (s.finish library b batch entry now result).view.job =
      Function.update s.view.job b none := by
    rw [view_job_of_update (finish_batches ..), Option.bind_some, Batch.job]
    obtain ⟨seconds, hstage⟩ := after_stage batch result
    rw [hstage]
  have hlog : (s.finish library b batch entry now result).view.log =
      if phaseOf (endStatus result) = .waiting then .waits entry.id :: s.view.log
        else s.view.log := by
    show List.filterMap mark _ = _
    rw [finish_history]
    rcases result with (_ | _) | _ <;> rfl
  show Queue.mk _ _ _ = _
  rw [Queue.finish]
  congr 1

theorem view_retryFailed (s : State) :
    s.retryFailed.view = s.view.waitAll ((withStatus .failed s.entries).map (·.id)) := by
  have hphase := view_phase_of_map .waiting reset_updates (fun _ => rfl)
    (by
      intro id hid hnone
      obtain ⟨row, hrow, rfl⟩ := List.mem_map.mp hid
      exact List.find?_eq_none.mp hnone row (List.mem_filter.mp hrow).1 (decide_eq_true rfl))
    (retryFailed_entries s)
  have hlog : s.retryFailed.view.log =
      ((withStatus .failed s.entries).map (·.id)).map Mark.waits ++ s.view.log := by
    show List.filterMap mark (List.map _ _ ++ _) = _
    rw [List.filterMap_append, List.filterMap_map, List.map_map]
    show List.filterMap (fun e : Entry => some (Mark.waits e.id)) _ ++ _ = _
    rw [List.filterMap_eq_map']
    rfl
  show Queue.mk _ _ _ = _
  rw [Queue.waitAll_eq]
  congr 1

theorem view_setBatch {b : ℕ} {batch : Option Batch}
    (hjob : batch.bind Batch.job = (s.batches b).bind Batch.job) :
    (s.setBatch b batch).view = s.view := by
  have hsame : (s.setBatch b batch).view.job = s.view.job := by
    have hbatches : (s.setBatch b batch).batches = Function.update s.batches b batch := rfl
    rw [view_job_of_update hbatches, hjob]
    exact Function.update_eq_self b s.view.job
  show Queue.mk _ _ _ = Queue.mk _ _ _
  congr 1

/-- Each step of the write queue is matched by steps of the work queue. -/
theorem view_reaches {ok : Queue String ℕ → Act String ℕ → Prop} {e : Event}
    (hs : (system library workflow).Reachable s) (hstep : (system library workflow).step s e s')
    (hok : ∀ q act, (∀ worker key, act ≠ .claim worker key) → act ≠ .crash → ok q act)
    (hclaim : ∀ b row, e = .take b → Takes s b row → ok s.view (.claim b row.id))
    (hcrash : e = .crash → ok s.view .crash) :
    (Library.WorkQueue.system : System Unit (Queue String ℕ) (Act String ℕ)).ReachesBy ok
      s.view s'.view := by
  cases moves_of_step hstep with
  | idle => exact .refl
  | @added _ news hactor hkind hnodup hfresh =>
    -- entries are added one at a time
    clear hstep hclaim hcrash hs hactor hkind
    induction news generalizing s with
    | nil => exact .refl
    | cons new news ih =>
      obtain ⟨hnew, hnodup⟩ := List.nodup_cons.mp hnodup
      have hnone := hfresh new List.mem_cons_self
      refine .head ⟨.add new.id, hok _ _ (fun _ _ => nofun) nofun, ?_⟩ (ih hnodup ?_)
      · rw [view_enqueue hnone]
        refine .add ?_
        show (s.find new.id).map _ = none
        rw [hnone]
        rfl
      · intro new' hnew'
        rw [find_enqueue_of_ne]
        · exact hfresh new' (List.mem_cons_of_mem _ hnew')
        · rintro heq
          exact hnew (List.mem_map.mpr ⟨new', hnew', heq⟩)
  | @read b _ _ batch delay _ hfree hbatch =>
    have hsame : (s.setBatch b (some ⟨.waiting 0, batch.map (·.id), delay⟩)).view = s.view :=
      view_setBatch (by rw [hfree]; rfl)
    rw [hsame]
    exact .refl
  | @taken b batch seconds rest entry hbatch hstage hrest hfind =>
    rw [view_take hfind]
    refine .single ⟨.claim b entry.id, hclaim b entry rfl ?_, .claim ?_ ?_⟩
    · -- the worker waits with the entry at the head of its batch
      exact ⟨batch, seconds, rest, hbatch, hstage, hrest, hfind⟩
    · show (s.batches b).bind Batch.job = none
      rw [hbatch, Option.bind_some, Batch.job, hstage]
    · show (s.find entry.id).map _ ≠ none
      rw [hfind]
      exact Option.some_ne_none _
  | answered hpossible hbatch hstage =>
    rw [view_answer hbatch hstage]
    exact .refl
  | @finished b now batch entry result hbatch hstage =>
    have hd : Dispatches s b entry (.done result) := ⟨batch, hbatch, hstage⟩
    obtain ⟨row, hfind, _⟩ := row_of_dispatches hs b entry _ hd
    rw [view_finish (by rw [hfind]; exact Option.some_ne_none _)]
    refine .single ⟨.finish b entry.id _, hok _ _ (fun _ _ => nofun) nofun, .finish ?_ ?_⟩
    · exact job_of_dispatches hd
    · rcases result with (_ | _) | _ <;> exact nofun
  | @closed b batch seconds hbatch hstage =>
    have hsame : (s.setBatch b none).view = s.view :=
      view_setBatch (by rw [hbatch, Option.bind_some, Batch.job, hstage]; rfl)
    rw [hsame]
    exact .refl
  | retried =>
    -- the failed entries are requeued one at a time
    rw [view_retryFailed]
    refine reaches_requeue (fun _ _ => hok _ _ (fun _ _ => nofun) nofun) ?_ ?_
    · exact (List.filter_sublist.map _).nodup (nodup_ids hs)
    · intro id hid
      obtain ⟨row, hrow, rfl⟩ := List.mem_map.mp hid
      obtain ⟨hmem, hstatus⟩ := List.mem_filter.mp hrow
      show (s.find row.id).map _ = _
      rw [find_of_mem hs hmem, Option.map_some, of_decide_eq_true hstatus]
      rfl
  | crashed => exact .single ⟨.crash, hcrash rfl, .crash⟩

/-- The runs of the write queue are runs of the work queue. -/
theorem view_reachable {okStep : State → Event → Prop}
    {ok : Queue String ℕ → Act String ℕ → Prop}
    (hs : (system library workflow).ReachableBy (fun _ => True) okStep s)
    (hok : ∀ q act, (∀ worker key, act ≠ .claim worker key) → act ≠ .crash → ok q act)
    (hclaim : ∀ s b row, okStep s (.take b) → Takes s b row → ok s.view (.claim b row.id))
    (hcrash : ∀ s, okStep s .crash → ok s.view .crash) :
    (Library.WorkQueue.system : System Unit (Queue String ℕ) (Act String ℕ)).ReachableBy
      (fun _ => True) ok s.view := by
  refine hs.simulated State.view ?_ ?_
  · rintro i s rfl _
    exact .start (i := ()) rfl trivial
  · intro s e s' hreach hstep hmove
    refine view_reaches hreach hmove hok ?_ ?_
    · rintro b row rfl htakes
      exact hclaim s b row hstep htakes
    · rintro rfl
      exact hcrash s hstep

/-! ### Some runs -/

/-- A comment on an issue. -/
def commentOf (id : String) (now : ℤ) : NewEntry where
  id := id
  now := now
  teamId := 1
  operationType := "ADD_COMMENT"
  payload := [("issue_key", .string "ALPHA-1"), ("body", .string "Hello")]
  issueId := none
  scheduledEventId := none

/-- Jira accepts the comment. -/
def accepted (r : QueueRequest) : Answer r :=
  match r with
  | .call .. => .ok ()
  | _ => .error (.other "HTTP 500")

/-- Jira limits the rate. -/
def limited (r : QueueRequest) : Answer r :=
  .error (.rateLimit 60)

/-- A batch is limited, and the next one takes its entry again. -/
def limitedBatch : List Event :=
  [.enqueue (commentOf "a" 1), .processBatch 0 .online 10 [(commentOf "a" 1).row], .take 0,
    .answer 0 limited false, .finish 0 2, .close 0,
    .processBatch 1 .online 10 [(commentOf "a" 1).row], .take 1]

/-- While a batch dispatches its first entry, another one dispatches the second. -/
def overlappingBatches : List Event :=
  [.enqueue (commentOf "a" 1), .enqueue (commentOf "b" 2),
    .processBatch 0 .online 10 [(commentOf "a" 1).row, (commentOf "b" 2).row], .take 0,
    .processBatch 1 .online 10 [(commentOf "b" 2).row], .take 1, .answer 1 accepted false,
    .finish 1 3, .answer 0 accepted false, .finish 0 4, .take 0]

/-- The process ends between two entries, and the next batch takes the second one. -/
def quietCrash : List Event :=
  [.enqueue (commentOf "a" 1), .enqueue (commentOf "b" 2),
    .processBatch 0 .online 10 [(commentOf "a" 1).row, (commentOf "b" 2).row], .take 0,
    .answer 0 accepted false, .finish 0 3, .crash,
    .processBatch 0 .online 10 [(commentOf "b" 2).row], .take 0]

/-- A batch takes an entry. -/
def takenComment : List Event :=
  [.enqueue (commentOf "a" 1), .processBatch 0 .online 10 [(commentOf "a" 1).row], .take 0]

/-! ### One dispatch for each wait -/

/-- Did the entry become `PENDING` after its last dispatch? -/
def BecamePending (id : String) : List Happened → Prop
  | [] => False
  | .pending k :: older => k = id ∨ BecamePending id older
  | .dispatched k _ :: older => k ≠ id ∧ BecamePending id older
  | .moved .. :: older => BecamePending id older

/-- Each dispatch of an entry has a time at which the entry became `PENDING` to itself: no other
dispatch of the entry, by whatever batch, comes between. -/
def DispatchedOnce : List Happened → Prop
  | [] => True
  | .pending _ :: older => DispatchedOnce older
  | .dispatched id _ :: older => BecamePending id older ∧ DispatchedOnce older
  | .moved .. :: older => DispatchedOnce older

theorem becamePending_iff (id : String) (history : List Happened) :
    BecamePending id history ↔ Waits id (history.filterMap mark) := by
  induction history with
  | nil => exact Iff.rfl
  | cons happened older ih =>
    cases happened with
    | pending k => exact or_congr Iff.rfl ih
    | dispatched k b => exact and_congr Iff.rfl ih
    | moved => exact ih

theorem dispatchedOnce_iff (history : List Happened) :
    DispatchedOnce history ↔ ClaimedOnce (history.filterMap mark) := by
  induction history with
  | nil => exact Iff.rfl
  | cons happened older ih =>
    cases happened with
    | pending k => exact ih
    | dispatched k b => exact and_congr (becamePending_iff k older) ih
    | moved => exact ih

/-- The identifier of the entry that a batch takes next. -/
def State.nextId (s : State) (b : ℕ) : Option String :=
  match s.batches b with
  | some batch =>
    match batch.stage with
    | .waiting _ => batch.rest.head?
    | .dispatching _ _ => none
  | none => none

theorem Takes.nextId {b : ℕ} {row : Entry} (h : Takes s b row) : s.nextId b = some row.id := by
  obtain ⟨batch, seconds, rest, hbatch, hstage, hrest, _⟩ := h
  simp only [State.nextId, hbatch, hstage, hrest, List.head?_cons]

/-- A batch takes an entry only while the entry is still `PENDING`. -/
def TakesPending (s : State) : Event → Prop
  | .take b => ∀ row ∈ s.entries, s.nextId b = some row.id → row.status = .pending
  | _ => True

instance (s : State) (e : Event) : Decidable (TakesPending s e) :=
  match e with
  | .take b => inferInstanceAs
      (Decidable (∀ row ∈ s.entries, s.nextId b = some row.id → row.status = .pending))
  | .enqueue _ | .processBatch .. | .answer .. | .finish .. | .close _ | .retryFailed
  | .runRecovery .. | .crash => isTrue trivial

/-- An entry is dispatched once for each time it becomes `PENDING`, when no batch takes an entry
that is no longer `PENDING`. -/
theorem entry_dispatched_once
    (hs : (system library workflow).ReachableBy (fun _ => True) TakesPending s) :
    DispatchedOnce s.history := by
  rw [dispatchedOnce_iff]
  refine claimedOnce_of_waiting (q := s.view) (view_reachable hs ?_ ?_ ?_)
  · intro q act hclaim _
    cases act with
    | claim worker key => exact absurd rfl (hclaim worker key)
    | _ => trivial
  · intro s b row hok htakes
    have hnext := htakes.nextId
    obtain ⟨_, _, _, _, _, _, hfind⟩ := htakes
    show (s.find row.id).map _ = _
    rw [hfind, Option.map_some, hok row (State.mem_of_find hfind) hnext]
    rfl
  · intro s _
    trivial

/-- A run in which a rate limit puts the entry back before it is dispatched again. -/
theorem entry_dispatched_once_limited : ∃ s, (system plainLibrary fun _ id => id).ReachableBy
    (fun _ => True) TakesPending s ∧
      s.history = [.dispatched "a" 1, .pending "a", .dispatched "a" 0, .pending "a"] ∧
      DispatchedOnce s.history := by
  have h : (emptyQueue.after plainLibrary (fun _ id => id) limitedBatch).map (·.history) =
      some [.dispatched "a" 1, .pending "a", .dispatched "a" 0, .pending "a"] := by
    decide +kernel
  obtain ⟨s, hs, hhistory⟩ := Option.map_eq_some_iff.mp h
  have hreach :
      (system plainLibrary fun _ id => id).ReachableBy (fun _ => True) TakesPending s := by
    refine reachableBy_of_after empty_reachable ?_ hs
    refine ⟨rfl, trivial, ?_⟩
    rintro _ ⟨⟩
    refine ⟨⟨rfl, .refl _, List.pairwise_singleton _ _⟩, trivial, ?_⟩
    rintro _ ⟨⟩
    refine ⟨trivial, by decide +kernel, ?_⟩
    rintro _ ⟨⟩
    refine ⟨nofun, trivial, ?_⟩
    rintro _ ⟨⟩
    refine ⟨trivial, trivial, ?_⟩
    rintro _ ⟨⟩
    refine ⟨trivial, trivial, ?_⟩
    rintro _ ⟨⟩
    refine ⟨⟨rfl, .refl _, List.pairwise_singleton _ _⟩, trivial, ?_⟩
    rintro _ ⟨⟩
    refine ⟨trivial, by decide +kernel, ?_⟩
    rintro _ ⟨⟩
    trivial
  exact ⟨s, hreach, hhistory, entry_dispatched_once hreach⟩

/-- Two batches dispatch one entry. -/
theorem not_dispatched_once : ∃ s, (system plainLibrary fun _ id => id).Reachable s ∧
    ¬ DispatchedOnce s.history := by
  have h : (emptyQueue.after plainLibrary (fun _ id => id) overlappingBatches).map (·.history) =
      some [.dispatched "b" 0, .dispatched "b" 1, .dispatched "a" 0, .pending "b",
        .pending "a"] := by
    decide +kernel
  obtain ⟨s, hs, hhistory⟩ := Option.map_eq_some_iff.mp h
  refine ⟨s, reachableBy_of_after empty_reachable ?_ hs, ?_⟩
  · refine ⟨rfl, trivial, ?_⟩
    rintro _ ⟨⟩
    refine ⟨rfl, trivial, ?_⟩
    rintro _ ⟨⟩
    refine ⟨⟨rfl, .refl _, by decide⟩, trivial, ?_⟩
    rintro _ ⟨⟩
    refine ⟨trivial, trivial, ?_⟩
    rintro _ ⟨⟩
    refine ⟨⟨rfl, .refl _, by decide⟩, trivial, ?_⟩
    rintro _ ⟨⟩
    refine ⟨trivial, trivial, ?_⟩
    rintro _ ⟨⟩
    refine ⟨nofun, trivial, ?_⟩
    rintro _ ⟨⟩
    refine ⟨trivial, trivial, ?_⟩
    rintro _ ⟨⟩
    refine ⟨nofun, trivial, ?_⟩
    rintro _ ⟨⟩
    refine ⟨trivial, trivial, ?_⟩
    rintro _ ⟨⟩
    refine ⟨trivial, trivial, ?_⟩
    rintro _ ⟨⟩
    trivial
  · rw [hhistory]
    simp [DispatchedOnce, BecamePending]

/-- A take keeps to one dispatch for each wait exactly when its entry is `PENDING`. -/
theorem dispatchedOnce_take (hs : (system library workflow).Reachable s) {b : ℕ} {batch : Batch}
    {row : Entry} {rest : List String} (hfind : s.find row.id = some row) :
    DispatchedOnce (s.take library b batch row rest).history ↔
      row.status = .pending ∧ DispatchedOnce s.history := by
  have hview :
      (Library.WorkQueue.system : System Unit (Queue String ℕ) (Act String ℕ)).Reachable s.view :=
    view_reachable hs (fun _ _ _ _ => trivial) (fun _ _ _ _ _ => trivial) fun _ _ => trivial
  have hclaim := claimedOnce_claim hview b row.id
  rw [dispatchedOnce_iff, dispatchedOnce_iff]
  show ClaimedOnce (s.view.claim b row.id).log ↔ _
  rw [hclaim]
  refine and_congr ?_ Iff.rfl
  show (s.find row.id).map _ = _ ↔ _
  rw [hfind, Option.map_some]
  cases row.status <;> simp [phaseOf]

/-! ### Crashes -/

/-- The process ends only while no entry is `IN_FLIGHT`. -/
def QuietCrashes (s : State) : Event → Prop
  | .crash => ∀ row ∈ s.entries, row.status ≠ .inFlight
  | _ => True

instance (s : State) (e : Event) : Decidable (QuietCrashes s e) :=
  match e with
  | .crash => inferInstanceAs (Decidable (∀ row ∈ s.entries, row.status ≠ .inFlight))
  | .enqueue _ | .processBatch .. | .take _ | .answer .. | .finish .. | .close _ | .retryFailed
  | .runRecovery .. => isTrue trivial

/-- The row is settled, or the queue still does something with it. -/
def Served (s : State) (row : Entry) : Prop :=
  row.status = .done ∨ row.status = .skipped ∨
    (∀ batch, IsPendingBatch s.entries batch → row ∈ batch) ∨
    row ∈ withStatus .failed s.entries ∨
    ∃ b entry script, Dispatches s b entry script ∧ entry.id = row.id

/-- An `IN_FLIGHT` entry has a batch that dispatches it. -/
theorem dispatches_of_inFlight
    (hs : (system library workflow).ReachableBy (fun _ => True) QuietCrashes s) {row : Entry}
    (hrow : row ∈ s.entries) (hstatus : row.status = .inFlight) :
    ∃ b entry script, Dispatches s b entry script ∧ entry.id = row.id := by
  have howned := owned_of_quiet_crash (q := s.view) (view_reachable hs ?_ ?_ ?_)
  · have hfind := find_of_mem hs.reachable hrow
    obtain ⟨b, hjob⟩ := howned row.id (by
      show (s.find row.id).map _ = _
      rw [hfind, Option.map_some, hstatus]
      rfl)
    obtain ⟨entry, script, hd, hid⟩ := dispatches_of_job hjob
    exact ⟨b, entry, script, hd, hid⟩
  · intro q act _ hcrash
    cases act with
    | crash => exact absurd rfl hcrash
    | _ => trivial
  · intro s b row _ _
    trivial
  · intro s hok id hphase
    obtain ⟨row, hfind, hrunning⟩ := Option.map_eq_some_iff.mp hphase
    refine hok row (State.mem_of_find hfind) ?_
    cases hst : row.status with
    | inFlight => rfl
    | _ => rw [hst] at hrunning; cases hrunning

theorem before_total (a b : Entry) : a.before b ∨ b.before a := by
  unfold Entry.before
  omega

theorem before_trans {a b c : Entry} (hab : a.before b) (hbc : b.before c) : a.before c := by
  unfold Entry.before at *
  omega

/-- There is always a list to return. -/
theorem exists_pendingBatch (entries : List Entry) : ∃ batch, IsPendingBatch entries batch := by
  refine ⟨(withStatus .pending entries).mergeSort fun a b => decide (a.before b),
    List.mergeSort_perm _ _, ?_⟩
  have hsorted : ((withStatus .pending entries).mergeSort fun a b => decide (a.before b)).Pairwise
      fun a b => decide (a.before b) = true :=
    @List.pairwise_mergeSort Entry (fun a b => decide (a.before b))
      (fun a b c hab hbc =>
        decide_eq_true (before_trans (of_decide_eq_true hab) (of_decide_eq_true hbc)))
      (fun a b => by simpa using before_total a b) _
  exact hsorted.imp of_decide_eq_true

/-- An `IN_FLIGHT` entry that no batch holds. -/
structure Abandoned (s : State) (id : String) : Prop where
  inFlight : ∃ row, s.find id = some row ∧ row.status = .inFlight
  unheld : ∀ b batch, s.batches b = some batch → id ∉ batch.rest ∧ batch.job ≠ some id

theorem find_of_map_of_ne {f : Entry → Entry} {id id' : String} {row : Entry} (hf : Updates f)
    (h : s'.entries = s.entries.map fun e => if e.id = id' then f e else e) (hne : id ≠ id')
    (hfind : s.find id = some row) : s'.find id = some row := by
  rw [find_of_map (updates_if hf _) h, hfind, Option.map_some, if_neg]
  rw [State.id_of_find hfind]
  exact hne

theorem unheld_update {batches : ℕ → Option Batch} {c : ℕ} {batch : Option Batch} {id : String}
    (hs : s'.batches = Function.update batches c batch)
    (hnew : ∀ now, batch = some now → id ∉ now.rest ∧ now.job ≠ some id)
    (hold : ∀ b batch, batches b = some batch → id ∉ batch.rest ∧ batch.job ≠ some id) :
    ∀ b batch, s'.batches b = some batch → id ∉ batch.rest ∧ batch.job ≠ some id := by
  intro b now hnow
  rw [hs] at hnow
  by_cases hb : b = c
  · rw [hb, Function.update_self] at hnow
    exact hnew now hnow
  · rw [Function.update_of_ne hb] at hnow
    exact hold b now hnow

/-- Nothing takes up an abandoned entry. -/
theorem Abandoned.step {e : Event} {id : String} (hs : (system library workflow).Reachable s)
    (h : Abandoned s id) (hstep : (system library workflow).step s e s') : Abandoned s' id := by
  obtain ⟨row, hfind, hstatus⟩ := h.inFlight
  have hid := State.id_of_find hfind
  -- an entry in flight is in no list of another status
  have hnot : ∀ status, status ≠ EntryStatus.inFlight →
      id ∉ (withStatus status s.entries).map (·.id) := by
    intro status hne hmem
    obtain ⟨other, hother, hotherId⟩ := List.mem_map.mp hmem
    obtain ⟨hmem, hotherStatus⟩ := mem_withStatus.mp hother
    have hfound := find_of_mem hs hmem
    rw [show other.id = id from hotherId, hfind] at hfound
    obtain rfl := Option.some.inj hfound
    exact hne (hotherStatus.symm.trans hstatus)
  cases moves_of_step hstep with
  | idle => exact h
  | added _ _ _ _ =>
    obtain ⟨hentries, hbatches, _, _⟩ := enqueueAll_same s ‹List NewEntry›
    exact ⟨⟨row, find_of_append hentries hfind, hstatus⟩, by rw [hbatches]; exact h.unheld⟩
  | read _ hfree hbatch =>
    refine ⟨⟨row, hfind, hstatus⟩, unheld_update rfl ?_ h.unheld⟩
    rintro now hnow
    obtain rfl := Option.some.inj hnow
    refine ⟨fun hmem => hnot .pending (by decide) ?_, nofun⟩
    exact (hbatch.1.map _).mem_iff.mp hmem
  | @taken b batch seconds rest entry hbatch hstage hrest hentry =>
    obtain ⟨hheld, _⟩ := h.unheld b batch hbatch
    rw [hrest] at hheld
    -- no batch holds the entry, so a worker takes another one
    have hne : id ≠ entry.id := fun heq => hheld (heq ▸ List.mem_cons_self)
    refine ⟨⟨row, ?_, hstatus⟩, unheld_update rfl ?_ h.unheld⟩
    · exact find_of_map_of_ne inFlight_updates (take_entries ..) hne hfind
    · rintro now hnow
      obtain rfl := Option.some.inj hnow
      refine ⟨fun hmem => hheld (List.mem_cons_of_mem _ hmem), ?_⟩
      exact fun hjob => hne (Option.some.inj hjob).symm
  | @answered b answers reached batch entry request next _ hbatch hstage =>
    obtain ⟨hheld, hjob⟩ := h.unheld b batch hbatch
    refine ⟨⟨row, ?_, hstatus⟩, unheld_update (answer_batches ..) ?_ h.unheld⟩
    · rw [State.find, answer_entries]
      exact hfind
    · rintro now hnow
      obtain rfl := Option.some.inj hnow
      refine ⟨hheld, ?_⟩
      rw [Batch.job, hstage] at hjob
      exact hjob
  | @finished b now batch entry result hbatch hstage =>
    obtain ⟨hheld, hjob⟩ := h.unheld b batch hbatch
    rw [Batch.job, hstage] at hjob
    -- nor is it the job of a worker, so another one ends
    have hne : id ≠ entry.id := fun heq => hjob (congrArg some heq.symm)
    refine ⟨⟨row, ?_, hstatus⟩, unheld_update (finish_batches ..) ?_ h.unheld⟩
    · exact find_of_map_of_ne (ending_updates _ _ _) (finish_entries ..) hne hfind
    · rintro now hnow
      obtain rfl := Option.some.inj hnow
      refine ⟨fun hmem => hheld (after_rest batch result hmem), ?_⟩
      obtain ⟨seconds, hwaiting⟩ := after_stage batch result
      rw [Batch.job, hwaiting]
      exact (Option.some_ne_none id).symm
  | closed _ _ =>
    refine ⟨⟨row, hfind, hstatus⟩, unheld_update rfl ?_ h.unheld⟩
    intro now hnow
    cases hnow
  | retried =>
    refine ⟨⟨row, ?_, hstatus⟩, h.unheld⟩
    rw [find_of_map (updates_if reset_updates _) (retryFailed_entries s), hfind, Option.map_some,
      if_neg]
    rw [hid]
    exact hnot .failed (by decide)
  | crashed =>
    refine ⟨⟨row, hfind, hstatus⟩, ?_⟩
    intro b batch hbatch
    cases hbatch

/-- An abandoned entry is not served, now or later. -/
theorem Abandoned.not_served {t : State} {id : String} (hs : (system library workflow).Reachable s)
    (h : Abandoned s id) (ht : (system library workflow).ReachesBy (fun _ _ => True) s t) :
    ∃ row ∈ t.entries, row.id = id ∧ row.status = .inFlight ∧ ¬ Served t row := by
  have hlater : Abandoned t id :=
    ht.invariant (I := fun s => Abandoned s id) hs h fun _ _ _ hs h _ hstep =>
      Abandoned.step hs h hstep
  obtain ⟨row, hfind, hstatus⟩ := hlater.inFlight
  have hid := State.id_of_find hfind
  refine ⟨row, State.mem_of_find hfind, hid, hstatus, ?_⟩
  rintro (hdone | hskipped | hpending | hfailed | ⟨b, entry, script, ⟨batch, hbatch, hstage⟩, heq⟩)
  · rw [hstatus] at hdone
    cases hdone
  · rw [hstatus] at hskipped
    cases hskipped
  · obtain ⟨batch, hbatch⟩ := exists_pendingBatch t.entries
    have := (mem_withStatus.mp (hbatch.1.mem_iff.mp (hpending batch hbatch))).2
    rw [hstatus] at this
    cases this
  · have := (mem_withStatus.mp hfailed).2
    rw [hstatus] at this
    cases this
  · refine (hlater.unheld b batch hbatch).2 ?_
    rw [Batch.job, hstage, ← hid, ← heq]

/-- A crash abandons every entry that is `IN_FLIGHT`. -/
theorem abandoned_of_crash {row : Entry} (hs : (system library workflow).Reachable s)
    (hrow : row ∈ s.entries) (hstatus : row.status = .inFlight) :
    Abandoned { s with batches := fun _ => none } row.id where
  inFlight := ⟨row, find_of_mem hs hrow, hstatus⟩
  unheld b batch hbatch := by cases hbatch

end JiraSimulator.WriteQueue
