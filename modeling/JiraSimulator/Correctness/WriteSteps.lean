import JiraSimulator.Integrations.JiraWriteQueue

/-!
# Steps of the write queue

What each operation does to the rows and to the batches.  `Moves` lists what a step does;
`Moves.rows` and `Moves.dispatches` are what every step leaves of the rows and of the running
dispatches, and from them rows keep their columns and identifiers stay unique over a run.
-/

namespace JiraSimulator.WriteQueue

open Library.Redelivery Library.Transition

variable {library : PythonLibrary} {workflow : String → String → String}

/-! ### Rows -/

/-- The columns of a row that are never changed. -/
def Entry.fixed (e : Entry) : Entry :=
  { e with status := .pending, processedAt := none, attempts := 0, lastError := none }

theorem id_of_fixed {a b : Entry} (h : a.fixed = b.fixed) : a.id = b.id :=
  congrArg (fun e => e.id) h

/-- A change of the other columns. -/
def Updates (f : Entry → Entry) : Prop :=
  ∀ e, (f e).fixed = e.fixed

theorem Updates.id {f : Entry → Entry} (hf : Updates f) (e : Entry) : (f e).id = e.id :=
  id_of_fixed (hf e)

@[simp] theorem commit_nil (entries : List Entry) : commit [] entries = entries := rfl

theorem commit_cons (change : String × (Entry → Entry)) (changes : Changes) (entries : List Entry) :
    commit (change :: changes) entries =
      commit changes (entries.map fun e => if e.id = change.1 then change.2 e else e) := rfl

/-- One change, made in all rows with the given identifiers. -/
theorem commit_map {f : Entry → Entry} (hf : Updates f) (htwice : ∀ e, f (f e) = f e)
    (ids : List String) (entries : List Entry) :
    commit (ids.map fun id => (id, f)) entries =
      entries.map fun e => if e.id ∈ ids then f e else e := by
  induction ids generalizing entries with
  | nil => simp
  | cons id ids ih =>
    rw [List.map_cons, commit_cons, ih, List.map_map]
    refine List.map_congr_left fun e _ => ?_
    show (if (if e.id = id then f e else e).id ∈ ids then _ else _) = _
    by_cases hid : e.id = id
    · simp only [hid, if_true, hf.id, htwice, List.mem_cons, true_or, ite_self]
    · simp only [hid, if_false, List.mem_cons, false_or]

theorem updates_if {f : Entry → Entry} (hf : Updates f) (p : Entry → Prop) [DecidablePred p] :
    Updates fun e => if p e then f e else e := by
  intro e
  show (if p e then f e else e).fixed = e.fixed
  split_ifs
  · exact hf e
  · rfl

/-- A lookup in rows whose other columns were changed. -/
theorem find_map {f : Entry → Entry} (hf : Updates f) (id : String) (entries : List Entry) :
    (entries.map f).find? (fun e => e.id = id) =
      (entries.find? fun e => e.id = id).map f := by
  rw [List.find?_map]
  have hsame : (fun e : Entry => decide (e.id = id)) ∘ f = fun e => decide (e.id = id) := by
    funext e
    show decide ((f e).id = id) = _
    rw [hf.id]
  rw [hsame]

theorem State.id_of_find {s : State} {id : String} {row : Entry} (h : s.find id = some row) :
    row.id = id := by
  have := List.find?_some h
  exact of_decide_eq_true this

theorem State.mem_of_find {s : State} {id : String} {row : Entry} (h : s.find id = some row) :
    row ∈ s.entries :=
  List.mem_of_find?_eq_some h

/-! ### What the operations do -/

/-- How the end of a dispatch changes the row of its entry. -/
def ending (entry : Entry) (now : ℤ) : Except QueueError Dispatched → Entry → Entry
  | .ok _ => fun e => { e with status := .done, processedAt := some now }
  | .error (.rateLimit _) => fun e => { e with status := .pending }
  | .error (.other text) => fun e =>
    { e with
      status := .failed
      attempts := entry.attempts + 1
      lastError := some (String.ofList (text.toList.take 500)) }

/-- The batch after the end of a dispatch. -/
def Batch.after (batch : Batch) : Except QueueError Dispatched → Batch
  | .error (.rateLimit retryAfter) =>
    if retryAfter ≠ 0 then { batch with stage := .waiting retryAfter, rest := [] }
    else { batch with stage := .waiting batch.delay }
  | _ => { batch with stage := .waiting batch.delay }

/-- The status that the end of a dispatch leaves. -/
def endStatus : Except QueueError Dispatched → EntryStatus
  | .ok _ => .done
  | .error (.rateLimit _) => .pending
  | .error (.other _) => .failed

theorem ending_updates (entry : Entry) (now : ℤ) (result : Except QueueError Dispatched) :
    Updates (ending entry now result) := by
  intro e
  rcases result with (_ | _) | _ <;> rfl

theorem ending_status (entry : Entry) (now : ℤ) (result : Except QueueError Dispatched)
    (e : Entry) : (ending entry now result e).status = endStatus result := by
  rcases result with (_ | _) | _ <;> rfl

section Finish

variable (library) (s : State) (b : ℕ) (batch : Batch) (entry : Entry) (now : ℤ)
  (result : Except QueueError Dispatched)

theorem mapped_same (dispatched : Dispatched) :
    (s.mapped library entry dispatched).entries = s.entries ∧
      (s.mapped library entry dispatched).batches = s.batches ∧
      (s.mapped library entry dispatched).status = s.status ∧
      (s.mapped library entry dispatched).history = s.history := by
  unfold State.mapped
  rcases dispatched with ⟨_ | result, _ | sprint⟩
  · exact ⟨rfl, rfl, rfl, rfl⟩
  · exact ⟨rfl, rfl, rfl, rfl⟩
  all_goals
    rcases entry.issueId with _ | issueId
    · exact ⟨rfl, rfl, rfl, rfl⟩
    · show State.entries (if _ then _ else _) = _ ∧ State.batches (if _ then _ else _) = _ ∧
        State.status (if _ then _ else _) = _ ∧ State.history (if _ then _ else _) = _
      split_ifs <;> exact ⟨rfl, rfl, rfl, rfl⟩

theorem finish_entries : (s.finish library b batch entry now result).entries =
    s.entries.map fun e => if e.id = entry.id then ending entry now result e else e := by
  rcases result with (retryAfter | text) | dispatched
  · rfl
  · rfl
  · show commit _ (s.mapped library entry dispatched).entries = _
    rw [(mapped_same library s entry dispatched).1]
    rfl

theorem finish_batches : (s.finish library b batch entry now result).batches =
    Function.update s.batches b (some (batch.after result)) := by
  rcases result with (retryAfter | text) | dispatched
  · show Function.update s.batches b (if retryAfter ≠ 0 then _ else _) = _
    rw [Batch.after]
    split_ifs <;> rfl
  · rfl
  · show Function.update (s.mapped library entry dispatched).batches b _ = _
    rw [(mapped_same library s entry dispatched).2.1]
    rfl

theorem finish_status : (s.finish library b batch entry now result).status = s.status := by
  rcases result with (retryAfter | text) | dispatched
  · rfl
  · rfl
  · exact (mapped_same library s entry dispatched).2.2.1

theorem finish_history : (s.finish library b batch entry now result).history =
    if endStatus result = .pending then .pending entry.id :: s.history else s.history := by
  rcases result with (retryAfter | text) | dispatched
  · rfl
  · rfl
  · exact (mapped_same library s entry dispatched).2.2.2

end Finish

/-- How a row is taken. -/
def inFlight (e : Entry) : Entry :=
  { e with status := .inFlight }

theorem inFlight_updates : Updates inFlight := fun _ => rfl

theorem take_entries (library : PythonLibrary) (s : State) (b : ℕ) (batch : Batch) (entry : Entry)
    (rest : List String) :
    (s.take library b batch entry rest).entries =
      s.entries.map fun e => if e.id = entry.id then inFlight e else e := rfl

section Answer

variable (workflow) (s : State) (b : ℕ) (batch : Batch) (entry : Entry) (request : QueueRequest)
  (next : Answer request → QueueScript Dispatched) (answer : Answer request) (reached : Bool)

theorem answer_entries :
    (s.answer workflow b batch entry request next answer reached).entries = s.entries := by
  unfold State.answer
  cases request
  case transitionIssue key id =>
    show State.entries (if _ then _ else _) = _
    split_ifs <;> rfl
  all_goals rfl

theorem answer_batches :
    (s.answer workflow b batch entry request next answer reached).batches =
      Function.update s.batches b
        (some { batch with stage := .dispatching entry (next answer) }) := by
  unfold State.answer
  cases request
  case transitionIssue key id =>
    show State.batches (if _ then _ else _) = _
    split_ifs <;> rfl
  all_goals rfl

/-- An answer moves no issue, or the issue of a transition. -/
theorem answer_history :
    (s.answer workflow b batch entry request next answer reached).status = s.status ∧
        (s.answer workflow b batch entry request next answer reached).history = s.history ∨
      ∃ key id, request = .transitionIssue key id ∧
        (s.answer workflow b batch entry request next answer reached).status =
          Function.update s.status key (workflow key id) ∧
        (s.answer workflow b batch entry request next answer reached).history =
          .moved entry.id key (workflow key id) :: s.history := by
  unfold State.answer
  cases request
  case transitionIssue key id =>
    by_cases h : answer.isOk || reached
    · refine .inr ⟨key, id, rfl, ?_, ?_⟩
      · simp only [if_pos h]
        rfl
      · simp only [if_pos h]
        rfl
    · refine .inl ⟨?_, ?_⟩
      · simp only [if_neg h]
        rfl
      · simp only [if_neg h]
        rfl
  all_goals exact .inl ⟨rfl, rfl⟩

end Answer

variable {s s' : State}

theorem next_take {b : ℕ} : s.next library workflow (.take b) = some s' ↔
    ∃ batch seconds id rest entry, s.batches b = some batch ∧ batch.stage = .waiting seconds ∧
      batch.rest = id :: rest ∧ s.find id = some entry ∧
      s' = s.take library b batch entry rest := by
  rw [State.next]
  constructor
  · intro h
    cases hbatch : s.batches b with
    | none => rw [hbatch] at h; cases h
    | some batch =>
      rw [hbatch] at h
      cases hstage : batch.stage with
      | dispatching _ _ => simp only [hstage] at h; cases h
      | waiting seconds =>
        cases hrest : batch.rest with
        | nil => simp only [hstage, hrest] at h; cases h
        | cons id rest =>
          simp only [hstage, hrest, Option.map_eq_some_iff] at h
          obtain ⟨entry, hfind, rfl⟩ := h
          exact ⟨batch, seconds, id, rest, entry, rfl, hstage, hrest, hfind, rfl⟩
  · rintro ⟨batch, seconds, id, rest, entry, hbatch, hstage, hrest, hfind, rfl⟩
    simp only [hbatch, hstage, hrest, hfind, Option.map_some]

theorem next_answer {b : ℕ} {answers : (request : QueueRequest) → Answer request} {reached : Bool} :
    s.next library workflow (.answer b answers reached) = some s' ↔
      ∃ batch entry request next, s.batches b = some batch ∧
        batch.stage = .dispatching entry (.call request next) ∧
        s' = s.answer workflow b batch entry request next (answers request) reached := by
  rw [State.next]
  constructor
  · intro h
    cases hbatch : s.batches b with
    | none => rw [hbatch] at h; cases h
    | some batch =>
      rw [hbatch] at h
      rcases hstage : batch.stage with seconds | ⟨entry, result | ⟨request, next⟩⟩
      · simp only [hstage] at h; cases h
      · simp only [hstage] at h; cases h
      · simp only [hstage, Option.some.injEq] at h
        exact ⟨batch, entry, request, next, rfl, hstage, h.symm⟩
  · rintro ⟨batch, entry, request, next, hbatch, hstage, rfl⟩
    simp only [hbatch, hstage]

theorem next_finish {b : ℕ} {now : ℤ} : s.next library workflow (.finish b now) = some s' ↔
    ∃ batch entry result, s.batches b = some batch ∧
      batch.stage = .dispatching entry (.done result) ∧
      s' = s.finish library b batch entry now result := by
  rw [State.next]
  constructor
  · intro h
    cases hbatch : s.batches b with
    | none => rw [hbatch] at h; cases h
    | some batch =>
      rw [hbatch] at h
      rcases hstage : batch.stage with seconds | ⟨entry, result | ⟨request, next⟩⟩
      · simp only [hstage] at h; cases h
      · simp only [hstage, Option.some.injEq] at h
        exact ⟨batch, entry, result, rfl, hstage, h.symm⟩
      · simp only [hstage] at h; cases h
  · rintro ⟨batch, entry, result, hbatch, hstage, rfl⟩
    simp only [hbatch, hstage]

theorem next_close {b : ℕ} : s.next library workflow (.close b) = some s' ↔
    ∃ batch seconds, s.batches b = some batch ∧ batch.stage = .waiting seconds ∧
      batch.rest = [] ∧ s' = s.setBatch b none := by
  rw [State.next]
  constructor
  · intro h
    cases hbatch : s.batches b with
    | none => rw [hbatch] at h; cases h
    | some batch =>
      rw [hbatch] at h
      cases hstage : batch.stage with
      | dispatching _ _ => simp only [hstage] at h; cases h
      | waiting seconds =>
        cases hrest : batch.rest with
        | cons _ _ => simp only [hstage, hrest] at h; cases h
        | nil =>
          simp only [hstage, hrest, Option.some.injEq] at h
          exact ⟨batch, seconds, rfl, hstage, hrest, h.symm⟩
  · rintro ⟨batch, seconds, hbatch, hstage, hrest, rfl⟩
    simp only [hbatch, hstage, hrest]

/-- The rows of a list of new entries. -/
def State.enqueueAll (s : State) (news : List NewEntry) : State :=
  news.foldl State.enqueue s

@[simp] theorem State.enqueueAll_nil (s : State) : s.enqueueAll [] = s := rfl

theorem State.enqueueAll_cons (s : State) (new : NewEntry) (news : List NewEntry) :
    s.enqueueAll (new :: news) = (s.enqueue new).enqueueAll news := rfl

theorem enqueueAll_same (s : State) (news : List NewEntry) :
    (s.enqueueAll news).entries = s.entries ++ news.map NewEntry.row ∧
      (s.enqueueAll news).batches = s.batches ∧ (s.enqueueAll news).status = s.status ∧
      (s.enqueueAll news).history =
        (news.map fun new => Happened.pending new.id).reverse ++ s.history := by
  induction news generalizing s with
  | nil => exact ⟨(List.append_nil _).symm, rfl, rfl, rfl⟩
  | cons new news ih =>
    obtain ⟨hentries, hbatches, hstatus, hhistory⟩ := ih (s.enqueue new)
    rw [State.enqueueAll_cons]
    refine ⟨?_, hbatches, hstatus, ?_⟩
    · rw [hentries, List.map_cons, State.enqueue, List.append_assoc]
      rfl
    · rw [hhistory, List.map_cons, List.reverse_cons, List.append_assoc]
      rfl

theorem map_fst_zip_isPrefix {α β : Type} (l : List α) (l' : List β) :
    (l.zip l').map Prod.fst <+: l := by
  induction l generalizing l' with
  | nil => exact List.prefix_rfl
  | cons a l ih =>
    cases l' with
    | nil => exact List.nil_prefix
    | cons b l' => exact List.cons_prefix_cons.mpr ⟨rfl, ih l'⟩

/-- Recovery writes no status: it only adds comments. -/
theorem runRecovery_eq (library : PythonLibrary) (s : State) (pending : List Entry)
    (stamps : List (String × ℤ)) : ∃ news : List NewEntry,
      s.runRecovery library pending stamps = s.enqueueAll news ∧
        (∀ new ∈ news, new.operationType = "ADD_COMMENT") ∧
        news.map (·.id) <+: stamps.map Prod.fst := by
  have hcommits : ∀ groups : List (Option ℤ × List Entry),
      groups.foldl (fun s group => s.commit (collapse group.2).2) s = s := by
    intro groups
    induction groups with
    | nil => rfl
    | cons group groups ih => exact ih
  let new : (String × ℤ) × ℤ × ℤ × JsonObject → NewEntry := fun comment =>
    { id := comment.1.1
      now := comment.1.2
      teamId := comment.2.1
      operationType := "ADD_COMMENT"
      payload := comment.2.2.2
      issueId := some comment.2.2.1
      scheduledEventId := none }
  refine ⟨(stamps.zip (recoveryComments library pending)).map new, ?_, ?_, ?_⟩
  · rw [State.runRecovery, hcommits, State.enqueueAll, List.foldl_map]
  · intro comment hcomment
    obtain ⟨_, _, rfl⟩ := List.mem_map.mp hcomment
    rfl
  · rw [List.map_map]
    show (stamps.zip (recoveryComments library pending)).map (Prod.fst ∘ Prod.fst) <+: _
    rw [← List.map_map]
    exact (map_fst_zip_isPrefix _ _).map _

/-- The batch that goes on with an event. -/
def Event.actor : Event → Option ℕ
  | .take b | .answer b _ _ | .finish b _ | .close b => some b
  | .enqueue _ | .processBatch .. | .retryFailed | .runRecovery .. | .crash => none

/-- What a step does. -/
inductive Moves (library : PythonLibrary) (workflow : String → String → String) (s : State) :
    Event → State → Prop
  | idle {b : ℕ} {health : HealthStatus} {tickIntervalSeconds : ℚ} {batch : List Entry} :
      Moves library workflow s (.processBatch b health tickIntervalSeconds batch) s
  | added {e : Event} {news : List NewEntry} (hactor : e.actor = none)
      (hkind : ∀ new ∈ news, e = .enqueue new ∨ new.operationType = "ADD_COMMENT")
      (hnodup : (news.map (·.id)).Nodup) (hfresh : ∀ new ∈ news, s.find new.id = none) :
      Moves library workflow s e (s.enqueueAll news)
  | read {b : ℕ} {health : HealthStatus} {tickIntervalSeconds : ℚ} {batch : List Entry} {delay : ℚ}
      (hhealth : health ≠ .offline) (hfree : s.batches b = none)
      (hbatch : IsPendingBatch s.entries batch) :
      Moves library workflow s (.processBatch b health tickIntervalSeconds batch)
        (s.setBatch b (some ⟨.waiting 0, batch.map (·.id), delay⟩))
  | taken {b : ℕ} {batch : Batch} {seconds : ℚ} {rest : List String} {entry : Entry}
      (hbatch : s.batches b = some batch) (hstage : batch.stage = .waiting seconds)
      (hrest : batch.rest = entry.id :: rest) (hfind : s.find entry.id = some entry) :
      Moves library workflow s (.take b) (s.take library b batch entry rest)
  | answered {b : ℕ} {answers : (request : QueueRequest) → Answer request} {reached : Bool}
      {batch : Batch} {entry : Entry} {request : QueueRequest}
      {next : Answer request → QueueScript Dispatched}
      (hpossible : Possible workflow s (.answer b answers reached))
      (hbatch : s.batches b = some batch)
      (hstage : batch.stage = .dispatching entry (.call request next)) :
      Moves library workflow s (.answer b answers reached)
        (s.answer workflow b batch entry request next (answers request) reached)
  | finished {b : ℕ} {now : ℤ} {batch : Batch} {entry : Entry}
      {result : Except QueueError Dispatched} (hbatch : s.batches b = some batch)
      (hstage : batch.stage = .dispatching entry (.done result)) :
      Moves library workflow s (.finish b now) (s.finish library b batch entry now result)
  | closed {b : ℕ} {batch : Batch} {seconds : ℚ} (hbatch : s.batches b = some batch)
      (hstage : batch.stage = .waiting seconds) :
      Moves library workflow s (.close b) (s.setBatch b none)
  | retried : Moves library workflow s .retryFailed s.retryFailed
  | crashed : Moves library workflow s .crash { s with batches := fun _ => none }

theorem moves_of_step {e : Event} (h : (system library workflow).step s e s') :
    Moves library workflow s e s' := by
  obtain ⟨hpossible, hnext⟩ := h
  cases e with
  | enqueue new =>
    obtain rfl := Option.some.inj hnext
    have hone : ∀ other ∈ [new], other = new := fun _ => List.mem_singleton.mp
    have hnodup : ([new].map (·.id)).Nodup := List.nodup_singleton _
    refine .added rfl (fun other hother => .inl ?_) hnodup fun other hother => ?_
    · rw [hone other hother]
    · rw [hone other hother]
      exact hpossible
  | processBatch b health tickIntervalSeconds batch =>
    obtain rfl := Option.some.inj hnext
    rw [State.processBatch]
    split_ifs with hhealth
    · exact .idle
    · exact .idle
    · exact .read hhealth hpossible.1 hpossible.2
  | take b =>
    obtain ⟨batch, seconds, id, rest, entry, hbatch, hstage, hrest, hfind, rfl⟩ :=
      next_take.mp hnext
    obtain rfl := State.id_of_find hfind
    exact .taken hbatch hstage hrest hfind
  | answer b answers reached =>
    obtain ⟨batch, entry, request, next, hbatch, hstage, rfl⟩ := next_answer.mp hnext
    exact .answered hpossible hbatch hstage
  | finish b now =>
    obtain ⟨batch, entry, result, hbatch, hstage, rfl⟩ := next_finish.mp hnext
    exact .finished hbatch hstage
  | close b =>
    obtain ⟨batch, seconds, hbatch, hstage, _, rfl⟩ := next_close.mp hnext
    exact .closed hbatch hstage
  | retryFailed =>
    obtain rfl := Option.some.inj hnext
    exact .retried
  | runRecovery pending stamps =>
    obtain rfl := Option.some.inj hnext
    -- a recovery enqueues comments with fresh ids
    obtain ⟨news, hnews, hkind, hids⟩ := runRecovery_eq library s pending stamps
    obtain ⟨_, hnodup, hfresh⟩ := hpossible
    rw [hnews]
    refine .added rfl (fun new hnew => .inr (hkind new hnew)) (hids.sublist.nodup hnodup)
      fun new hnew => ?_
    obtain ⟨stamp, hstamp, hid⟩ := List.mem_map.mp (hids.subset (List.mem_map_of_mem hnew))
    rw [← hid]
    exact hfresh stamp hstamp
  | crash =>
    obtain rfl := Option.some.inj hnext
    exact .crashed

/-! ### Rows over runs -/

/-- How a failed row is put back. -/
def reset (e : Entry) : Entry :=
  { e with status := .pending, attempts := 0 }

theorem reset_updates : Updates reset := fun _ => rfl

theorem retryFailed_entries (s : State) : s.retryFailed.entries = s.entries.map fun e =>
    if e.id ∈ (withStatus .failed s.entries).map (·.id) then reset e else e := by
  have := commit_map (f := reset) (fun _ => rfl) (fun _ => rfl)
    ((withStatus .failed s.entries).map (·.id)) s.entries
  rw [← this, List.map_map]
  rfl

/-- A step changes no other column of a row, and adds rows at the end. -/
theorem Moves.rows {e : Event} (h : Moves library workflow s e s') :
    (∃ f, Updates f ∧ s'.entries = s.entries.map f) ∨
      ∃ news : List NewEntry,
        (∀ new ∈ news, e = .enqueue new ∨ new.operationType = "ADD_COMMENT") ∧
        (news.map (·.id)).Nodup ∧ (∀ new ∈ news, s.find new.id = none) ∧
        s'.entries = s.entries ++ news.map NewEntry.row := by
  have hsame : (∃ f, Updates f ∧ s.entries = s.entries.map f) :=
    ⟨id, fun _ => rfl, (List.map_id _).symm⟩
  cases h with
  | idle => exact .inl hsame
  | added _ hkind hnodup hfresh =>
    exact .inr ⟨_, hkind, hnodup, hfresh, (enqueueAll_same s _).1⟩
  | read _ _ _ => exact .inl hsame
  | taken hbatch hstage hrest hfind =>
    exact .inl ⟨_, updates_if inFlight_updates _, take_entries ..⟩
  | answered _ hbatch hstage =>
    rw [answer_entries]
    exact .inl hsame
  | finished hbatch hstage =>
    exact .inl ⟨_, updates_if (ending_updates _ _ _) _, finish_entries _ _ _ _ _ _ _⟩
  | closed _ _ => exact .inl hsame
  | retried => exact .inl ⟨_, updates_if reset_updates _, retryFailed_entries s⟩
  | crashed => exact .inl hsame

theorem find_of_map {f : Entry → Entry} (hf : Updates f) (h : s'.entries = s.entries.map f)
    (id : String) : s'.find id = (s.find id).map f := by
  rw [State.find, h, find_map hf]
  rfl

theorem find_of_append {news : List NewEntry} (h : s'.entries = s.entries ++ news.map NewEntry.row)
    {id : String} {row : Entry} (hrow : s.find id = some row) : s'.find id = some row := by
  rw [State.find, h, List.find?_append]
  rw [State.find] at hrow
  rw [hrow]
  rfl

/-- A row stays, and keeps the columns that are never changed. -/
theorem Moves.find {e : Event} (h : Moves library workflow s e s') {id : String} {row : Entry}
    (hrow : s.find id = some row) : ∃ row', s'.find id = some row' ∧ row'.fixed = row.fixed := by
  rcases h.rows with ⟨f, hf, hentries⟩ | ⟨news, _, _, _, hentries⟩
  · exact ⟨f row, by rw [find_of_map hf hentries, hrow]; rfl, hf row⟩
  · exact ⟨row, find_of_append hentries hrow, rfl⟩

theorem nodup_ids (hs : (system library workflow).Reachable s) : (s.entries.map (·.id)).Nodup := by
  refine hs.invariant (I := fun s => (s.entries.map (·.id)).Nodup) ?_ ?_
  · rintro i s rfl
    exact List.nodup_nil
  · intro s e s' _ ih hstep
    rcases (moves_of_step hstep).rows with ⟨f, hf, hentries⟩ | ⟨news, _, hnodup, hfresh, hentries⟩
    · rw [hentries, List.map_map]
      have hids : (fun e : Entry => e.id) ∘ f = fun e => e.id := funext hf.id
      rw [hids]
      exact ih
    · rw [hentries, List.map_append, List.map_map]
      refine List.nodup_append'.mpr ⟨ih, hnodup, ?_⟩
      intro id hold hnew
      obtain ⟨row, hrow, rfl⟩ := List.mem_map.mp hold
      obtain ⟨new, hmem, hid⟩ := List.mem_map.mp hnew
      have hnone := List.find?_eq_none.mp (hfresh new hmem) row hrow
      exact hnone (decide_eq_true hid.symm)

/-- With unique identifiers the lookup of a row finds it. -/
theorem find_of_mem (hs : (system library workflow).Reachable s) {row : Entry}
    (hrow : row ∈ s.entries) : s.find row.id = some row := by
  cases hfind : s.find row.id with
  | none => exact absurd (decide_eq_true rfl) (List.find?_eq_none.mp hfind row hrow)
  | some other =>
    have hid := State.id_of_find hfind
    have := List.inj_on_of_nodup_map (nodup_ids hs) (State.mem_of_find hfind) hrow hid
    rw [this]

/-- The batch dispatches the entry. -/
def Dispatches (s : State) (b : ℕ) (entry : Entry) (script : QueueScript Dispatched) : Prop :=
  ∃ batch, s.batches b = some batch ∧ batch.stage = .dispatching entry script

theorem Dispatches.unique {b : ℕ} {entry entry' : Entry} {script script' : QueueScript Dispatched}
    (h : Dispatches s b entry script) (h' : Dispatches s b entry' script') :
    entry = entry' ∧ script = script' := by
  obtain ⟨batch, hbatch, hstage⟩ := h
  obtain ⟨batch', hbatch', hstage'⟩ := h'
  obtain rfl := Option.some.inj (hbatch.symm.trans hbatch')
  exact Stage.dispatching.inj (hstage.symm.trans hstage')

/-- The entry that a batch dispatches. -/
def Batch.job (batch : Batch) : Option String :=
  match batch.stage with
  | .waiting _ => none
  | .dispatching entry _ => some entry.id

/-- The entry that a batch takes next. -/
def Takes (s : State) (b : ℕ) (row : Entry) : Prop :=
  ∃ batch seconds rest, s.batches b = some batch ∧ batch.stage = .waiting seconds ∧
    batch.rest = row.id :: rest ∧ s.find row.id = some row

theorem dispatches_update {batches : ℕ → Option Batch} {b c : ℕ} {batch : Option Batch}
    {entry : Entry} {script : QueueScript Dispatched}
    (hs : s'.batches = Function.update batches c batch) (h : Dispatches s' b entry script) :
    b = c ∧ (∃ now, batch = some now ∧ now.stage = .dispatching entry script) ∨
      b ≠ c ∧ ∃ now, batches b = some now ∧ now.stage = .dispatching entry script := by
  obtain ⟨now, hnow, hstage⟩ := h
  rw [hs] at hnow
  by_cases hb : b = c
  · rw [hb, Function.update_self] at hnow
    exact .inl ⟨hb, now, hnow, hstage⟩
  · rw [Function.update_of_ne hb] at hnow
    exact .inr ⟨hb, now, hnow, hstage⟩

theorem after_stage (batch : Batch) (result : Except QueueError Dispatched) :
    ∃ seconds, (batch.after result).stage = .waiting seconds := by
  rcases result with (retryAfter | text) | dispatched
  · rw [Batch.after]
    split_ifs <;> exact ⟨_, rfl⟩
  · exact ⟨_, rfl⟩
  · exact ⟨_, rfl⟩

theorem after_rest_sublist (batch : Batch) (result : Except QueueError Dispatched) :
    (batch.after result).rest.Sublist batch.rest := by
  rcases result with (retryAfter | text) | dispatched
  · rw [Batch.after]
    split_ifs
    · exact List.nil_sublist _
    · exact .refl _
  · exact .refl _
  · exact .refl _

theorem after_rest (batch : Batch) (result : Except QueueError Dispatched) :
    (batch.after result).rest ⊆ batch.rest :=
  (after_rest_sublist batch result).subset

/-- What a batch dispatches, it dispatched before, or it has taken it, or Jira answered it. -/
theorem Moves.dispatches {e : Event} (h : Moves library workflow s e s') {b : ℕ} {entry : Entry}
    {script : QueueScript Dispatched} (hd : Dispatches s' b entry script) :
    Dispatches s b entry script ∨
      (e = .take b ∧ ∃ row, Takes s b row ∧ entry = inFlight row ∧
        script = dispatch library entry) ∨
      ∃ answers reached request next, e = .answer b answers reached ∧
        Dispatches s b entry (.call request next) ∧ script = next (answers request) := by
  cases h with
  | idle => exact .inl hd
  | added _ _ _ _ =>
    obtain ⟨batch, hbatch, hstage⟩ := hd
    rw [(enqueueAll_same s _).2.1] at hbatch
    exact .inl ⟨batch, hbatch, hstage⟩
  -- a batch that is read or that ends an entry dispatches nothing
  | read _ hfree _ =>
    rcases dispatches_update rfl hd with ⟨_, now, hnow, hstage⟩ | ⟨_, hother⟩
    · obtain rfl := Option.some.inj hnow
      cases hstage
    · exact .inl hother
  | @taken c batch seconds rest row hbatch hwaiting hrest hfind =>
    rcases dispatches_update rfl hd with ⟨rfl, now, hnow, hstage⟩ | ⟨_, hother⟩
    · obtain rfl := Option.some.inj hnow
      obtain ⟨rfl, rfl⟩ := Stage.dispatching.inj hstage
      have htakes : Takes s b row := ⟨batch, seconds, rest, hbatch, hwaiting, hrest, hfind⟩
      exact .inr (.inl ⟨rfl, row, htakes, rfl, rfl⟩)
    · exact .inl hother
  | answered _ hbatch hstage =>
    rcases dispatches_update (answer_batches ..) hd with ⟨rfl, now, hnow, hstage'⟩ | ⟨_, hother⟩
    · obtain rfl := Option.some.inj hnow
      obtain ⟨rfl, rfl⟩ := Stage.dispatching.inj hstage'
      exact .inr (.inr ⟨_, _, _, _, rfl, ⟨_, hbatch, hstage⟩, rfl⟩)
    · exact .inl hother
  | @finished c now batch entry' result hbatch hstage =>
    rcases dispatches_update (finish_batches ..) hd with ⟨_, now, hnow, hstage'⟩ | ⟨_, hother⟩
    · obtain rfl := Option.some.inj hnow
      obtain ⟨seconds, hwaiting⟩ := after_stage batch result
      rw [hwaiting] at hstage'
      cases hstage'
    · exact .inl hother
  | closed _ _ =>
    rcases dispatches_update rfl hd with ⟨_, now, hnow, _⟩ | ⟨_, hother⟩
    · cases hnow
    · exact .inl hother
  | retried => exact .inl hd
  | crashed =>
    obtain ⟨batch, hbatch, _⟩ := hd
    cases hbatch

theorem mem_withStatus {status : EntryStatus} {entries : List Entry} {row : Entry} :
    row ∈ withStatus status entries ↔ row ∈ entries ∧ row.status = status := by
  rw [withStatus, List.mem_filter, decide_eq_true_eq]

/-- A row after a step: its status changes when a batch takes it, finishes it, or when it is
retried. -/
inductive RowMoves (s : State) (e : Event) (row : Entry) : Entry → Prop
  | same {row' : Entry} (hfixed : row'.fixed = row.fixed) (hstatus : row'.status = row.status) :
      RowMoves s e row row'
  | taken {b : ℕ} {row' : Entry} (hfixed : row'.fixed = row.fixed) (hevent : e = .take b)
      (htakes : Takes s b row) (hstatus : row'.status = .inFlight) : RowMoves s e row row'
  | finished {b : ℕ} {now : ℤ} {entry row' : Entry} {result : Except QueueError Dispatched}
      (hfixed : row'.fixed = row.fixed) (hevent : e = .finish b now)
      (hd : Dispatches s b entry (.done result)) (hid : entry.id = row.id)
      (hstatus : row'.status = endStatus result) : RowMoves s e row row'
  | retried {row' : Entry} (hfixed : row'.fixed = row.fixed) (hevent : e = .retryFailed)
      (hfailed : row.status = .failed) (hstatus : row'.status = .pending) : RowMoves s e row row'

theorem RowMoves.fixed {e : Event} {row row' : Entry} (h : RowMoves s e row row') :
    row'.fixed = row.fixed := by
  cases h <;> assumption

theorem Moves.row {e : Event} (hs : (system library workflow).Reachable s)
    (h : Moves library workflow s e s') {id : String} {row : Entry} (hfind : s.find id = some row) :
    ∃ row', s'.find id = some row' ∧ RowMoves s e row row' := by
  have hid := State.id_of_find hfind
  cases h with
  | idle | read _ _ _ | closed _ _ | crashed => exact ⟨row, hfind, .same rfl rfl⟩
  | added _ _ _ _ =>
    exact ⟨row, find_of_append (enqueueAll_same s _).1 hfind, .same rfl rfl⟩
  | answered _ _ _ =>
    refine ⟨row, ?_, .same rfl rfl⟩
    rw [State.find, answer_entries]
    exact hfind
  | @taken b batch seconds rest entry hbatch hstage hrest hentry =>
    refine ⟨if row.id = entry.id then inFlight row else row, ?_, ?_⟩
    · rw [find_of_map (updates_if inFlight_updates _) (take_entries ..), hfind, Option.map_some]
    · -- only the row of the entry that is taken changes
      by_cases hentryId : row.id = entry.id
      · obtain rfl : row = entry := by
          rw [← hid, hentryId, hentry] at hfind
          exact (Option.some.inj hfind).symm
        rw [if_pos rfl]
        exact .taken rfl rfl ⟨batch, seconds, rest, hbatch, hstage, hrest, hentry⟩ rfl
      · rw [if_neg hentryId]
        exact .same rfl rfl
  | @finished b now batch entry result hbatch hstage =>
    refine ⟨if row.id = entry.id then ending entry now result row else row, ?_, ?_⟩
    · rw [find_of_map (updates_if (ending_updates _ _ _) _) (finish_entries ..), hfind,
        Option.map_some]
    · -- only the row of the entry that ends changes
      by_cases hentryId : row.id = entry.id
      · rw [if_pos hentryId]
        exact .finished (ending_updates ..) rfl ⟨batch, hbatch, hstage⟩ hentryId.symm
          (ending_status ..)
      · rw [if_neg hentryId]
        exact .same rfl rfl
  | retried =>
    refine ⟨if row.id ∈ (withStatus .failed s.entries).map (·.id) then reset row else row, ?_, ?_⟩
    · rw [find_of_map (updates_if reset_updates _) (retryFailed_entries s), hfind, Option.map_some]
    · by_cases hmem : row.id ∈ (withStatus .failed s.entries).map (·.id)
      · rw [if_pos hmem]
        -- ids are distinct, so the failed entry is this row
        obtain ⟨other, hother, hotherId⟩ := List.mem_map.mp hmem
        obtain ⟨hotherMem, hfailed⟩ := mem_withStatus.mp hother
        have hfound := find_of_mem hs hotherMem
        rw [show other.id = row.id from hotherId, hid, hfind] at hfound
        obtain rfl := Option.some.inj hfound
        exact .retried rfl rfl hfailed rfl
      · rw [if_neg hmem]
        exact .same rfl rfl

/-- A running batch after a step. -/
inductive BatchMoves (library : PythonLibrary) (s : State) (e : Event) (b : ℕ) : Batch → Prop
  | same {batch : Batch} (hactor : e.actor ≠ some b) (hbatch : s.batches b = some batch) :
      BatchMoves library s e b batch
  | read {health : HealthStatus} {tickIntervalSeconds : ℚ} {entries : List Entry} {batch : Batch}
      (hevent : e = .processBatch b health tickIntervalSeconds entries) (hhealth : health ≠ .offline)
      (hentries : IsPendingBatch s.entries entries) (hjob : batch.stage = .waiting 0)
      (hrest : batch.rest = entries.map (·.id)) : BatchMoves library s e b batch
  | taken {before batch : Batch} {row : Entry} {seconds : ℚ} (hevent : e = .take b)
      (hbefore : s.batches b = some before) (hwaiting : before.stage = .waiting seconds)
      (hrest : before.rest = row.id :: batch.rest) (hfind : s.find row.id = some row)
      (hstage : batch.stage = .dispatching (inFlight row) (dispatch library (inFlight row))) :
      BatchMoves library s e b batch
  | answered {answers : (request : QueueRequest) → Answer request} {reached : Bool}
      {before batch : Batch} {entry : Entry} {request : QueueRequest}
      {next : Answer request → QueueScript Dispatched} (hevent : e = .answer b answers reached)
      (hbefore : s.batches b = some before)
      (hcall : before.stage = .dispatching entry (.call request next))
      (hrest : batch.rest = before.rest)
      (hstage : batch.stage = .dispatching entry (next (answers request))) :
      BatchMoves library s e b batch
  | finished {now : ℤ} {before batch : Batch} {entry : Entry}
      {result : Except QueueError Dispatched} (hevent : e = .finish b now)
      (hbefore : s.batches b = some before) (hdone : before.stage = .dispatching entry (.done result))
      (hafter : batch = before.after result) : BatchMoves library s e b batch

theorem Moves.batch {e : Event} (h : Moves library workflow s e s') {b : ℕ} {batch : Batch}
    (hb : s'.batches b = some batch) : BatchMoves library s e b batch := by
  cases h with
  | idle | retried => exact .same nofun hb
  | crashed => cases hb
  | added hactor _ _ _ =>
    rw [(enqueueAll_same s _).2.1] at hb
    exact .same (by rw [hactor]; exact nofun) hb
  | @read c _ _ entries delay hhealth hfree hentries =>
    -- the event is of the worker `c`, whose batch alone changes
    change Function.update s.batches c _ b = _ at hb
    by_cases hc : b = c
    · subst hc
      rw [Function.update_self] at hb
      obtain rfl := Option.some.inj hb
      exact .read rfl hhealth hentries rfl rfl
    · rw [Function.update_of_ne hc] at hb
      exact .same nofun hb
  | @taken c before seconds rest row hbefore hwaiting hrest hfind =>
    change Function.update s.batches c _ b = _ at hb
    by_cases hc : b = c
    · subst hc
      rw [Function.update_self] at hb
      obtain rfl := Option.some.inj hb
      exact .taken rfl hbefore hwaiting hrest hfind rfl
    · rw [Function.update_of_ne hc] at hb
      exact .same (fun h => hc (Option.some.inj h).symm) hb
  | @answered c answers reached before entry request next _ hbefore hcall =>
    rw [answer_batches] at hb
    by_cases hc : b = c
    · subst hc
      rw [Function.update_self] at hb
      obtain rfl := Option.some.inj hb
      exact .answered rfl hbefore hcall rfl rfl
    · rw [Function.update_of_ne hc] at hb
      exact .same (fun h => hc (Option.some.inj h).symm) hb
  | @finished c now before entry result hbefore hdone =>
    rw [finish_batches] at hb
    by_cases hc : b = c
    · subst hc
      rw [Function.update_self] at hb
      exact .finished rfl hbefore hdone (Option.some.inj hb).symm
    · rw [Function.update_of_ne hc] at hb
      exact .same (fun h => hc (Option.some.inj h).symm) hb
  | @closed c before seconds hbefore hwaiting =>
    change Function.update s.batches c _ b = _ at hb
    by_cases hc : b = c
    · rw [hc, Function.update_self] at hb
      cases hb
    · rw [Function.update_of_ne hc] at hb
      exact .same (fun h => hc (Option.some.inj h).symm) hb

theorem BatchMoves.running {e : Event} {b : ℕ} {batch : Batch} (h : BatchMoves library s e b batch) :
    (∃ before, s.batches b = some before) ∨
      ∃ health tickIntervalSeconds entries, health ≠ .offline ∧
        e = .processBatch b health tickIntervalSeconds entries := by
  cases h with
  | same _ hbatch => exact .inl ⟨_, hbatch⟩
  | read hevent hhealth _ _ _ => exact .inr ⟨_, _, _, hhealth, hevent⟩
  | taken _ hbefore _ _ _ _ => exact .inl ⟨_, hbefore⟩
  | answered _ hbefore _ _ _ => exact .inl ⟨_, hbefore⟩
  | finished _ hbefore _ _ => exact .inl ⟨_, hbefore⟩

/-- The row of a taken entry. -/
theorem row_of_take {b : ℕ} {row : Entry} (h : (system library workflow).step s (.take b) s')
    (htakes : Takes s b row) : s'.find row.id = some (inFlight row) := by
  obtain ⟨batch, seconds, rest, hbatch, hstage, hrest, hfind⟩ := htakes
  obtain ⟨batch', seconds', id, rest', entry, hbatch', hstage', hrest', hfind', rfl⟩ :=
    next_take.mp h.2
  obtain rfl := Option.some.inj (hbatch.symm.trans hbatch')
  obtain ⟨rfl, rfl⟩ := List.cons.inj (hrest.symm.trans hrest')
  obtain rfl := Option.some.inj (hfind.symm.trans hfind')
  rw [find_of_map (updates_if inFlight_updates _) (take_entries ..), hfind, Option.map_some,
    if_pos rfl]

/-- The row of a finished entry. -/
theorem row_of_finish {b : ℕ} {now : ℤ} {entry row : Entry} {result : Except QueueError Dispatched}
    (h : (system library workflow).step s (.finish b now) s')
    (hd : Dispatches s b entry (.done result)) (hfind : s.find entry.id = some row) :
    s'.find entry.id = some (ending entry now result row) := by
  obtain ⟨batch, entry', result', hbatch, hstage, rfl⟩ := next_finish.mp h.2
  obtain ⟨rfl, hscript⟩ := hd.unique ⟨batch, hbatch, hstage⟩
  obtain rfl := Script.done.inj hscript
  rw [find_of_map (updates_if (ending_updates _ _ _) _) (finish_entries ..), hfind,
    Option.map_some, if_pos (State.id_of_find hfind)]

/-- The entry of a dispatch has its row. -/
theorem row_of_dispatches (hs : (system library workflow).Reachable s) : ∀ b entry script,
    Dispatches s b entry script → ∃ row, s.find entry.id = some row ∧ row.fixed = entry.fixed := by
  refine hs.invariant (I := fun s => ∀ b entry script, Dispatches s b entry script →
    ∃ row, s.find entry.id = some row ∧ row.fixed = entry.fixed) ?_ ?_
  · rintro i s rfl b entry script ⟨batch, hbatch, _⟩
    cases hbatch
  · intro s e s' _ ih hstep b entry script hd
    have hmoves := moves_of_step hstep
    have hbefore : ∃ row, s.find entry.id = some row ∧ row.fixed = entry.fixed := by
      rcases hmoves.dispatches hd with hd | ⟨_, row, ⟨_, _, _, _, _, _, hfind⟩, rfl, _⟩ |
        ⟨_, _, _, _, _, hd, _⟩
      · exact ih b entry _ hd
      · exact ⟨row, hfind, rfl⟩
      · exact ih b entry _ hd
    obtain ⟨row, hfind, hfixed⟩ := hbefore
    obtain ⟨row', hfind', hfixed'⟩ := hmoves.find hfind
    exact ⟨row', hfind', hfixed'.trans hfixed⟩

/-! ### Runs of given events -/

/-- The state after some events. -/
def State.after (library : PythonLibrary) (workflow : String → String → String) (s : State)
    (events : List Event) : Option State :=
  events.foldlM (State.next library workflow) s

/-- The events may come one after another, and each meets the condition. -/
def Permitted (library : PythonLibrary) (workflow : String → String → String)
    (ok : State → Event → Prop) : State → List Event → Prop
  | _, [] => True
  | s, e :: events => Possible workflow s e ∧ ok s e ∧
      ∀ s', s.next library workflow e = some s' → Permitted library workflow ok s' events

theorem reachableBy_of_after {ok : State → Event → Prop} {s t : State} {events : List Event}
    (hs : (system library workflow).ReachableBy (fun _ => True) ok s)
    (hpermitted : Permitted library workflow ok s events)
    (h : s.after library workflow events = some t) :
    (system library workflow).ReachableBy (fun _ => True) ok t := by
  induction events generalizing s with
  | nil =>
    obtain rfl := Option.some.inj h
    exact hs
  | cons e events ih =>
    rw [State.after, List.foldlM_cons] at h
    obtain ⟨hpossible, hok, hrest⟩ := hpermitted
    obtain ⟨s', hnext, hlater⟩ := Option.bind_eq_some_iff.mp h
    exact ih (.step hs hok ⟨hpossible, hnext⟩) (hrest s' hnext) hlater

/-- A library that reads texts only. -/
def plainLibrary : PythonLibrary where
  text value := match value with
    | .string text => text
    | _ => ""
  datetimeText time := toString time
  namesText names := String.intercalate ", " (names.map fun name => name.getD "None")
  lower text := text
  toInt _ := none
  toFloat _ := none
  fromIsoFormat _ := .error "Invalid isoformat string"
  argumentError _ _ := "unexpected keyword argument"
  attributeError _ := "object has no attribute 'lower'"
  unhashable _ := "unhashable type"

def emptyQueue : State := initial [] [] fun _ => "To Do"

theorem empty_reachable {ok : State → Event → Prop} :
    (system plainLibrary workflow).ReachableBy (fun _ => True) ok emptyQueue :=
  .start (i := ([], [], fun _ => "To Do")) rfl trivial

end JiraSimulator.WriteQueue
