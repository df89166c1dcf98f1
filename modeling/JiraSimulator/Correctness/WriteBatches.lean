import JiraSimulator.Correctness.WriteScripts
import Mathlib.Data.List.Pairwise

/-!
# Batches that hold the transitions in order

`OrderlyInput` says which calls and answers keep the transitions of an issue in order.  In a run of
such inputs (`queued_of_reachable`) one batch runs at a time, its entries stay `PENDING` until it
takes them, and when it takes a transition the transitions of the issue that were enqueued before
are settled.
-/

namespace JiraSimulator.WriteQueue

open Library.Redelivery Library.Transition

variable {library : PythonLibrary} {workflow : String → String → String} {s s' : State}

/-! ### Places -/

/-- The place of an entry among the rows. -/
def State.place (s : State) (id : String) : ℕ :=
  (s.entries.map (·.id)).idxOf id

/-- The first entry was enqueued before the second one. -/
def EnqueuedBefore (s : State) (id id' : String) : Prop :=
  s.place id < s.place id'

instance (s : State) (id id' : String) : Decidable (EnqueuedBefore s id id') :=
  inferInstanceAs (Decidable (_ < _))

theorem mem_ids_of_find {id : String} {row : Entry} (h : s.find id = some row) :
    id ∈ s.entries.map (·.id) :=
  List.mem_map.mpr ⟨row, State.mem_of_find h, State.id_of_find h⟩

theorem Moves.ids {e : Event} (h : Moves library workflow s e s') :
    ∃ added, s'.entries.map (·.id) = s.entries.map (·.id) ++ added := by
  rcases h.rows with ⟨f, hf, hentries⟩ | ⟨news, _, _, _, hentries⟩
  · refine ⟨[], ?_⟩
    rw [hentries, List.map_map, List.append_nil]
    exact List.map_congr_left fun e _ => hf.id e
  · exact ⟨_, by rw [hentries, List.map_append]⟩

/-- Rows keep their places. -/
theorem Moves.place {e : Event} (h : Moves library workflow s e s') {id : String} {row : Entry}
    (hfind : s.find id = some row) : s'.place id = s.place id := by
  obtain ⟨added, hids⟩ := h.ids
  rw [State.place, hids]
  exact List.idxOf_append_of_mem (mem_ids_of_find hfind)

/-- What is enqueued before a row that was there was there as well. -/
theorem Moves.before {e : Event} (h : Moves library workflow s e s') {id id' : String}
    {row row' : Entry} (hfind : s.find id = some row) (hfind' : s'.find id' = some row')
    (hbefore : EnqueuedBefore s' id' id) :
    ∃ old, s.find id' = some old ∧ row'.fixed = old.fixed ∧ EnqueuedBefore s id' id := by
  have hplace := h.place hfind
  cases hold : s.find id' with
  | some old =>
    obtain ⟨row'', hfind'', hfixed⟩ := h.find hold
    obtain rfl := Option.some.inj (hfind'.symm.trans hfind'')
    refine ⟨old, rfl, hfixed, ?_⟩
    rw [EnqueuedBefore, h.place hold, hplace] at hbefore
    exact hbefore
  | none =>
    obtain ⟨added, hids⟩ := h.ids
    have hnot : id' ∉ s.entries.map (·.id) := by
      intro hmem
      obtain ⟨other, hother, hid⟩ := List.mem_map.mp hmem
      exact List.find?_eq_none.mp hold other hother (decide_eq_true hid)
    rw [EnqueuedBefore, hplace, State.place, State.place, hids, List.idxOf_append_of_notMem hnot]
      at hbefore
    have hlt := List.idxOf_lt_length_of_mem (mem_ids_of_find hfind)
    omega

/-- The identifier of a transition of the issue. -/
def TransitionId (library : PythonLibrary) (s : State) (issueKey id : String) : Prop :=
  ∃ row, s.find id = some row ∧ IsTransition library issueKey row

theorem TransitionId.step {e : Event} {key id : String} (hmoves : Moves library workflow s e s')
    (h : TransitionId library s key id) : TransitionId library s' key id := by
  obtain ⟨row, hfind, htransition⟩ := h
  obtain ⟨row', hfind', hfixed⟩ := hmoves.find hfind
  exact ⟨row', hfind', (isTransition_of_fixed hfixed).mpr htransition⟩

theorem TransitionId.of_step {e : Event} {key id : String} {row : Entry}
    (hmoves : Moves library workflow s e s') (h : TransitionId library s' key id)
    (hfind : s.find id = some row) : TransitionId library s key id := by
  obtain ⟨row', hfind', htransition⟩ := h
  obtain ⟨row'', hfind'', hfixed⟩ := hmoves.find hfind
  obtain rfl := Option.some.inj (hfind'.symm.trans hfind'')
  exact ⟨row, hfind, (isTransition_of_fixed hfixed).mp htransition⟩

/-- A transition enqueued before a row that was there was there as well. -/
theorem TransitionId.before {e : Event} {key id id' : String} {row : Entry}
    (hmoves : Moves library workflow s e s') (h : TransitionId library s' key id')
    (hfind : s.find id = some row) (hbefore : EnqueuedBefore s' id' id) :
    TransitionId library s key id' ∧ EnqueuedBefore s id' id := by
  obtain ⟨row', hfind', htransition⟩ := h
  obtain ⟨old, hold, hfixed, hbefore⟩ := hmoves.before hfind hfind' hbefore
  exact ⟨⟨old, hold, (isTransition_of_fixed hfixed).mp htransition⟩, hbefore⟩

/-! ### Batches without overlap -/

/-- Nothing that is under way will dispatch the entry, or write its row. -/
def Settled (s : State) (id : String) : Prop :=
  ∃ row, s.find id = some row ∧ (row.status = .done ∨ row.status = .skipped ∨
    row.status = .inFlight ∧ ∀ b entry script, Dispatches s b entry script → entry.id ≠ id)

/-- What is asked of the calls and of the answers.
* A transition is enqueued later, by the clock, than the transitions of its issue before it.
* A batch starts while no other one runs, and holds no transition after a failed one of its issue.
* A batch whose transition fails, or is limited without a pause, holds no further transition of the
  issue.
* Jira names no transition as the target unless it leads there. -/
def OrderlyInput (library : PythonLibrary) (s : State) : Event → Prop
  | .enqueue new => ∀ key, IsTransition library key new.row → ∀ row ∈ s.entries,
      IsTransition library key row → row.createdAt < new.now
  | .processBatch _ health _ batch => health ≠ .offline → (∀ c, s.batches c = none) ∧
      ∀ key, ∀ row ∈ s.entries, row.status = .failed → IsTransition library key row →
        ∀ later ∈ batch, IsTransition library key later → ¬ EnqueuedBefore s row.id later.id
  | .answer b answers _ => ∀ entry script key transitions t, Dispatches s b entry script →
      IsTransition library key entry → answers (.getIssueTransitions key) = .ok transitions →
        transitionTo transitions entry.target = some t →
          Json.isText (t.toName.getD "") entry.target = true
  | .finish b _ => ∀ batch entry error, s.batches b = some batch →
      batch.stage = .dispatching entry (.done (.error error)) →
        (∀ retryAfter, error = .rateLimit retryAfter → retryAfter = 0) →
          ∀ key, IsTransition library key entry →
            ∀ id ∈ batch.rest, ¬ TransitionId library s key id
  | _ => True

/-- The batch that runs, and the entries that it holds. -/
structure Queued (library : PythonLibrary) (s : State) : Prop where
  one : ∀ b c batch batch', s.batches b = some batch → s.batches c = some batch' → b = c
  flying : ∀ b entry script, Dispatches s b entry script →
    ∃ row, s.find entry.id = some row ∧ row.status = .inFlight
  held : ∀ b batch, s.batches b = some batch → ∀ id ∈ batch.rest,
    ∃ row, s.find id = some row ∧ row.status = .pending
  nodup : ∀ b batch, s.batches b = some batch → batch.rest.Nodup
  sorted : ∀ b batch, s.batches b = some batch → batch.rest.Pairwise fun id id' =>
    ∀ key, TransitionId library s key id → TransitionId library s key id' →
      ¬ EnqueuedBefore s id' id
  priority : ∀ row ∈ s.entries,
    row.priority = (operationPriority.lookup row.operationType).getD 5
  clock : ∀ key, ∀ row ∈ s.entries, ∀ row' ∈ s.entries, IsTransition library key row →
    IsTransition library key row' → EnqueuedBefore s row.id row'.id → row.createdAt < row'.createdAt
  earlier : ∀ b batch, s.batches b = some batch → ∀ id ∈ batch.rest, ∀ key,
    TransitionId library s key id → ∀ id', TransitionId library s key id' →
      EnqueuedBefore s id' id → Settled s id' ∨ id' ∈ batch.rest ∨ batch.job = some id'
  ready : ∀ b entry script, Dispatches s b entry script → ∀ key,
    TransitionId library s key entry.id → ∀ id', TransitionId library s key id' →
      EnqueuedBefore s id' entry.id → Settled s id'

theorem Queued.takes_pending (h : Queued library s) {b : ℕ} {row : Entry} (htakes : Takes s b row) :
    row.status = .pending := by
  obtain ⟨batch, seconds, rest, hbatch, _, hrest, hfind⟩ := htakes
  obtain ⟨row', hfind', hpending⟩ := h.held b batch hbatch row.id (by
    rw [hrest]
    exact List.mem_cons_self)
  obtain rfl := Option.some.inj (hfind.symm.trans hfind')
  exact hpending

/-- What is settled stays settled. -/
theorem Settled.step {e : Event} {id : String} (hs : (system library workflow).Reachable s)
    (hq : Queued library s) (hmoves : Moves library workflow s e s') (h : Settled s id) :
    Settled s' id := by
  obtain ⟨row, hfind, hstatus⟩ := h
  have hid := State.id_of_find hfind
  obtain ⟨row', hfind', hrow⟩ := hmoves.row hs hfind
  refine ⟨row', hfind', ?_⟩
  cases hrow with
  | same _ hsame =>
    rw [hsame]
    refine hstatus.imp_right (Or.imp_right fun ⟨hinFlight, hfree⟩ => ⟨hinFlight, ?_⟩)
    intro b entry script hd
    rcases hmoves.dispatches hd with hd | ⟨_, taken, htakes, rfl, _⟩ | ⟨_, _, _, _, _, hd, _⟩
    · exact hfree b entry _ hd
    · rintro rfl
      -- a take finds a pending entry, which this is not
      have hpending := hq.takes_pending htakes
      obtain ⟨_, _, _, _, _, _, hfound⟩ := htakes
      obtain rfl := Option.some.inj (hfind.symm.trans hfound)
      rw [hinFlight] at hpending
      cases hpending
    · exact hfree b entry _ hd
  | taken _ _ htakes _ =>
    have hpending := hq.takes_pending htakes
    rw [hpending] at hstatus
    rcases hstatus with h | h | ⟨h, _⟩ <;> cases h
  | @finished b now entry _ result _ _ hd hentry _ =>
    -- only an entry that is in flight is finished
    obtain ⟨flying, hflying, hinFlight⟩ := hq.flying b entry _ hd
    rw [hentry, hid, hfind] at hflying
    obtain rfl := Option.some.inj hflying
    rw [hinFlight] at hstatus
    rcases hstatus with h | h | ⟨_, hfree⟩
    · cases h
    · cases h
    · exact absurd (hentry.trans hid) (hfree b entry _ hd)
  | retried _ _ hfailed _ =>
    rw [hfailed] at hstatus
    rcases hstatus with h | h | ⟨h, _⟩ <;> cases h

section Step

variable {e : Event} (hs : (system library workflow).Reachable s) (hq : Queued library s)
  (hok : OrderlyInput library s e) (hstep : (system library workflow).step s e s')

include hq hok hstep in
theorem Queued.step_one : ∀ b c batch batch', s'.batches b = some batch →
    s'.batches c = some batch' → b = c := by
  intro b c batch batch' hb hc
  have hmoves := moves_of_step hstep
  rcases (hmoves.batch hb).running with ⟨before, hbefore⟩ | ⟨_, _, _, hhealth, rfl⟩
  · rcases (hmoves.batch hc).running with ⟨before', hbefore'⟩ | ⟨_, _, _, hhealth, rfl⟩
    · exact hq.one b c _ _ hbefore hbefore'
    · rw [(hok hhealth).1 b] at hbefore
      cases hbefore
  · rcases (hmoves.batch hc).running with ⟨before', hbefore'⟩ | ⟨_, _, _, _, hevent⟩
    · rw [(hok hhealth).1 c] at hbefore'
      cases hbefore'
    · cases hevent
      rfl

include hs hq hstep in
/-- An entry that a batch still holds stays `PENDING`. -/
theorem Queued.step_pending {b : ℕ} {id : String}
    (hold : ∃ before, s.batches b = some before ∧ id ∈ before.rest ∧
      (∀ row, Takes s b row → e = .take b → id ≠ row.id)) :
    ∃ row, s'.find id = some row ∧ row.status = .pending := by
  obtain ⟨before, hbefore, hmem, hnot⟩ := hold
  obtain ⟨row, hfind, hpending⟩ := hq.held b before hbefore id hmem
  obtain ⟨row', hfind', hrow⟩ := (moves_of_step hstep).row hs hfind
  refine ⟨row', hfind', ?_⟩
  cases hrow with
  | same _ hsame => rw [hsame, hpending]
  | @taken c _ _ hevent htakes _ =>
    have hrunning := htakes
    obtain ⟨other, _, _, hother, _⟩ := hrunning
    obtain rfl := hq.one b c _ _ hbefore hother
    exact absurd (State.id_of_find hfind).symm (hnot row htakes hevent)
  | @finished c now entry _ result _ _ hd hentry _ =>
    obtain ⟨flying, hflying, hinFlight⟩ := hq.flying c entry _ hd
    rw [hentry, State.id_of_find hfind, hfind] at hflying
    obtain rfl := Option.some.inj hflying
    rw [hinFlight] at hpending
    cases hpending
  | retried _ _ hfailed _ =>
    rw [hfailed] at hpending
    cases hpending

include hs hq hstep in
theorem Queued.step_held : ∀ b batch, s'.batches b = some batch → ∀ id ∈ batch.rest,
    ∃ row, s'.find id = some row ∧ row.status = .pending := by
  intro b batch hb id hid
  cases (moves_of_step hstep).batch hb with
  | same hactor hbatch =>
    refine hq.step_pending hs hstep ⟨batch, hbatch, hid, ?_⟩
    rintro row _ rfl
    exact absurd rfl hactor
  | @read health tick entries _ hevent _ hentries _ hrest =>
    rw [hrest] at hid
    obtain ⟨row, hrow, rfl⟩ := List.mem_map.mp hid
    obtain ⟨hmem, hpending⟩ := mem_withStatus.mp (hentries.1.mem_iff.mp hrow)
    obtain ⟨row', hfind', hmove⟩ := (moves_of_step hstep).row hs (find_of_mem hs hmem)
    refine ⟨row', hfind', ?_⟩
    subst hevent
    cases hmove with
    | same _ hsame => rw [hsame, hpending]
    | taken _ hevent _ _ => cases hevent
    | finished _ hevent _ _ _ => cases hevent
    | retried _ hevent _ _ => cases hevent
  | @taken before _ row seconds hevent hbefore hwaiting hrest hfind _ =>
    -- the entry that is taken is not among those behind it
    have hnodup := hq.nodup b before hbefore
    rw [hrest, List.nodup_cons] at hnodup
    refine hq.step_pending hs hstep ⟨before, hbefore, ?_, ?_⟩
    · rw [hrest]
      exact List.mem_cons_of_mem _ hid
    · rintro row' ⟨other, _, _, hother, _, hrest', _⟩ _ rfl
      obtain rfl := Option.some.inj (hbefore.symm.trans hother)
      obtain ⟨hhead, _⟩ := List.cons.inj (hrest.symm.trans hrest')
      exact hnodup.1 (hhead ▸ hid)
  | answered hevent hbefore _ hrest _ =>
    rw [hrest] at hid
    refine hq.step_pending hs hstep ⟨_, hbefore, hid, ?_⟩
    rintro row _ hevent'
    rw [hevent] at hevent'
    cases hevent'
  | @finished now before _ entry result hevent hbefore _ hafter =>
    have hmem : id ∈ before.rest := by
      rw [hafter] at hid
      exact after_rest before result hid
    refine hq.step_pending hs hstep ⟨before, hbefore, hmem, ?_⟩
    rintro row _ hevent'
    rw [hevent] at hevent'
    cases hevent'

omit hs in
/-- What a batch holds it held before, or it has just read it. -/
theorem rest_of_step {b : ℕ} {batch : Batch} (hb : s'.batches b = some batch)
    (hstep : (system library workflow).step s e s') :
    (∃ before, s.batches b = some before ∧ batch.rest.Sublist before.rest) ∨
      ∃ health tickIntervalSeconds entries, health ≠ .offline ∧
        e = .processBatch b health tickIntervalSeconds entries ∧
        IsPendingBatch s.entries entries ∧ batch.rest = entries.map (·.id) := by
  cases (moves_of_step hstep).batch hb with
  | same _ hbatch => exact .inl ⟨batch, hbatch, .refl _⟩
  | read hevent hhealth hentries _ hrest => exact .inr ⟨_, _, _, hhealth, hevent, hentries, hrest⟩
  | taken _ hbefore _ hrest _ _ =>
    refine .inl ⟨_, hbefore, ?_⟩
    rw [hrest]
    exact List.sublist_cons_self _ _
  | answered _ hbefore _ hrest _ => exact .inl ⟨_, hbefore, hrest ▸ .refl _⟩
  | @finished _ before _ _ result _ hbefore _ hafter =>
    refine .inl ⟨before, hbefore, ?_⟩
    rw [hafter]
    exact after_rest_sublist before result

include hs hq hstep in
theorem Queued.step_nodup : ∀ b batch, s'.batches b = some batch → batch.rest.Nodup := by
  intro b batch hb
  rcases rest_of_step hb hstep with ⟨before, hbefore, hrest⟩ | ⟨_, _, entries, _, _, hentries, hrest⟩
  · exact hrest.nodup (hq.nodup b before hbefore)
  · rw [hrest]
    refine (hentries.1.map (fun e : Entry => e.id)).nodup_iff.mpr ?_
    exact (List.filter_sublist.map _).nodup (nodup_ids hs)

include hs hq hstep in
theorem Queued.step_sorted : ∀ b batch, s'.batches b = some batch →
    batch.rest.Pairwise fun id id' => ∀ key, TransitionId library s' key id →
      TransitionId library s' key id' → ¬ EnqueuedBefore s' id' id := by
  intro b batch hb
  have hmoves := moves_of_step hstep
  rcases rest_of_step hb hstep with ⟨before, hbefore, hrest⟩ | ⟨_, _, entries, _, _, hentries, hrest⟩
  · refine ((hq.sorted b before hbefore).sublist hrest).imp_of_mem ?_
    intro id id' hid hid' hsorted key htransition htransition' hlater
    obtain ⟨row, hfind, _⟩ := hq.held b before hbefore id (hrest.subset hid)
    obtain ⟨hold, hbeforeOld⟩ := htransition'.before hmoves hfind hlater
    exact hsorted key (htransition.of_step hmoves hfind) hold hbeforeOld
  · rw [hrest, List.pairwise_map]
    refine hentries.2.imp_of_mem ?_
    intro row row' hrow hrow' horder key htransition htransition' hlater
    obtain ⟨hmem, _⟩ := mem_withStatus.mp (hentries.1.mem_iff.mp hrow)
    obtain ⟨hmem', _⟩ := mem_withStatus.mp (hentries.1.mem_iff.mp hrow')
    have hfind := find_of_mem hs hmem
    have hfind' := find_of_mem hs hmem'
    obtain ⟨⟨old, hold, hoperation'⟩, hbeforeOld⟩ := htransition'.before hmoves hfind hlater
    obtain ⟨old', hold', hoperation⟩ := htransition.of_step hmoves hfind
    obtain rfl := Option.some.inj (hfind'.symm.trans hold)
    obtain rfl := Option.some.inj (hfind.symm.trans hold')
    have hclock := hq.clock key row' hmem' row hmem hoperation' hoperation hbeforeOld
    have hpriority : row.priority = row'.priority := by
      rw [hq.priority row hmem, hq.priority row' hmem', hoperation.1, hoperation'.1]
    rcases horder with hlt | ⟨_, hle⟩
    · omega
    · omega

omit hs in
/-- A row of the state after a step was there, or it is new. -/
theorem row_of_step {row' : Entry} (hstep : (system library workflow).step s e s')
    (hrow' : row' ∈ s'.entries) :
    (∃ row ∈ s.entries, row'.fixed = row.fixed) ∨
      s.find row'.id = none ∧ ∃ new : NewEntry, row' = new.row ∧
        (e = .enqueue new ∨ new.operationType = "ADD_COMMENT") := by
  rcases (moves_of_step hstep).rows with ⟨f, hf, hentries⟩ | ⟨news, hkind, _, hfresh, hentries⟩
  · rw [hentries] at hrow'
    obtain ⟨row, hrow, rfl⟩ := List.mem_map.mp hrow'
    exact .inl ⟨row, hrow, hf row⟩
  · rw [hentries, List.mem_append] at hrow'
    rcases hrow' with hold | hnew
    · exact .inl ⟨row', hold, rfl⟩
    · obtain ⟨new, hmem, rfl⟩ := List.mem_map.mp hnew
      exact .inr ⟨hfresh new hmem, new, rfl, hkind new hmem⟩

include hq hstep in
theorem Queued.step_priority : ∀ row ∈ s'.entries,
    row.priority = (operationPriority.lookup row.operationType).getD 5 := by
  intro row' hrow'
  rcases row_of_step hstep hrow' with ⟨row, hrow, hfixed⟩ | ⟨_, new, rfl, _⟩
  · have hpriority : row'.priority = row.priority := congrArg (fun e => e.priority) hfixed
    have hoperation : row'.operationType = row.operationType :=
      congrArg (fun e => e.operationType) hfixed
    rw [hpriority, hoperation, hq.priority row hrow]
  · rfl

include hs hq hok hstep in
theorem Queued.step_clock : ∀ key, ∀ row ∈ s'.entries, ∀ row' ∈ s'.entries,
    IsTransition library key row → IsTransition library key row' →
      EnqueuedBefore s' row.id row'.id → row.createdAt < row'.createdAt := by
  intro key row hrow row' hrow' htransition htransition' hbefore
  have hmoves := moves_of_step hstep
  have hs' : (system library workflow).Reachable s' := .step hs trivial hstep
  have hfind := find_of_mem hs' hrow
  rcases row_of_step hstep hrow' with ⟨old', hold', hfixed'⟩ | ⟨hfresh', new', rfl, hkind'⟩
  · -- both rows were there
    have hfound' : s.find row'.id = some old' := by
      rw [id_of_fixed hfixed']
      exact find_of_mem hs hold'
    obtain ⟨old, hfound, hfixed, hbeforeOld⟩ := hmoves.before hfound' hfind hbefore
    have hcreated : row.createdAt = old.createdAt := congrArg (fun e => e.createdAt) hfixed
    have hcreated' : row'.createdAt = old'.createdAt := congrArg (fun e => e.createdAt) hfixed'
    rw [hcreated, hcreated']
    refine hq.clock key old (State.mem_of_find hfound) old' hold'
      ((isTransition_of_fixed hfixed).mp htransition)
      ((isTransition_of_fixed hfixed').mp htransition') ?_
    rw [State.id_of_find hfound, State.id_of_find hfound']
    exact hbeforeOld
  · rcases hkind' with rfl | hcomment
    · rcases row_of_step hstep hrow with ⟨old, hold, hfixed⟩ | ⟨_, new, rfl, hkind⟩
      · have hcreated : row.createdAt = old.createdAt := congrArg (fun e => e.createdAt) hfixed
        rw [hcreated]
        exact hok key htransition' old hold ((isTransition_of_fixed hfixed).mp htransition)
      · rcases hkind with hsame | hcomment
        · cases hsame
          exact absurd hbefore (Nat.lt_irrefl _)
        · have hoperation : new.operationType = "TRANSITION_ISSUE" := htransition.1
          rw [hcomment] at hoperation
          exact absurd hoperation (by decide)
    · have hoperation : new'.operationType = "TRANSITION_ISSUE" := htransition'.1
      rw [hcomment] at hoperation
      exact absurd hoperation (by decide)

include hs hq hstep in
theorem Queued.step_flying : ∀ b entry script, Dispatches s' b entry script →
    ∃ row, s'.find entry.id = some row ∧ row.status = .inFlight := by
  intro b entry script ⟨batch, hb, hstage⟩
  have hmoves := moves_of_step hstep
  cases hmoves.batch hb with
  | same hactor hbatch =>
    obtain ⟨row, hfind, hinFlight⟩ := hq.flying b entry script ⟨batch, hbatch, hstage⟩
    obtain ⟨row', hfind', hrow⟩ := hmoves.row hs hfind
    refine ⟨row', hfind', ?_⟩
    cases hrow with
    | same _ hsame => rw [hsame, hinFlight]
    | taken _ _ _ hstatus => exact hstatus
    | @finished c now entry' _ result _ hevent hd _ _ =>
      obtain ⟨other, hother, _⟩ := hd
      -- no other batch holds the entry, so the event is of this one
      obtain rfl := hq.one b c _ _ hbatch hother
      rw [hevent] at hactor
      exact absurd rfl hactor
    | retried _ _ hfailed _ =>
      rw [hinFlight] at hfailed
      cases hfailed
  | read _ _ _ hwaiting _ =>
    rw [hstage] at hwaiting
    cases hwaiting
  | @taken before _ row seconds hevent hbefore hwaiting hrest hfind hdispatching =>
    obtain ⟨rfl, _⟩ := Stage.dispatching.inj (hstage.symm.trans hdispatching)
    subst hevent
    have htakes : Takes s b row := ⟨before, seconds, _, hbefore, hwaiting, hrest, hfind⟩
    have htaken := row_of_take hstep htakes
    exact ⟨inFlight row, htaken, rfl⟩
  | answered hevent hbefore hcall _ hdispatching =>
    obtain ⟨rfl, _⟩ := Stage.dispatching.inj (hstage.symm.trans hdispatching)
    obtain ⟨row, hfind, hinFlight⟩ := hq.flying b entry _ ⟨_, hbefore, hcall⟩
    obtain ⟨row', hfind', hrow⟩ := hmoves.row hs hfind
    refine ⟨row', hfind', ?_⟩
    subst hevent
    cases hrow with
    | same _ hsame => rw [hsame, hinFlight]
    | taken _ _ _ hstatus => exact hstatus
    | finished _ hevent _ _ _ => cases hevent
    | retried _ hevent _ _ => cases hevent
  | @finished _ before _ _ result _ _ _ hafter =>
    obtain ⟨seconds, hwaiting⟩ := after_stage before result
    rw [hafter, hwaiting] at hstage
    cases hstage

include hs hq hstep in
/-- What was settled, held or dispatched by the batch is settled or held, when the batch goes on
with another entry. -/
theorem Queued.earlier_of_before {b : ℕ} {before : Batch} (hbefore : s.batches b = some before)
    {id id' key : String} (hid : id ∈ before.rest) (htransition : TransitionId library s' key id)
    (htransition' : TransitionId library s' key id') (hlater : EnqueuedBefore s' id' id) :
    Settled s' id' ∨ id' ∈ before.rest ∨ before.job = some id' := by
  have hmoves := moves_of_step hstep
  obtain ⟨row, hfind, _⟩ := hq.held b before hbefore id hid
  obtain ⟨hold, hbeforeOld⟩ := htransition'.before hmoves hfind hlater
  exact (hq.earlier b before hbefore id hid key (htransition.of_step hmoves hfind) id' hold
    hbeforeOld).imp_left fun h => h.step hs hq hmoves

include hs hq hok hstep in
theorem Queued.step_earlier : ∀ b batch, s'.batches b = some batch → ∀ id ∈ batch.rest, ∀ key,
    TransitionId library s' key id → ∀ id', TransitionId library s' key id' →
      EnqueuedBefore s' id' id → Settled s' id' ∨ id' ∈ batch.rest ∨ batch.job = some id' := by
  intro b batch hb id hid key htransition id' htransition' hlater
  have hmoves := moves_of_step hstep
  cases hmoves.batch hb with
  | same _ hbatch =>
    exact hq.earlier_of_before hs hstep hbatch hid htransition htransition' hlater
  | @read _ _ entries _ hevent hhealth hentries _ hrest =>
    -- the batch takes all pending entries, so the earlier one is taken too unless it has failed
    subst hevent
    obtain ⟨hfree, hfailed⟩ := hok hhealth
    rw [hrest] at hid ⊢
    obtain ⟨row, hrow, rfl⟩ := List.mem_map.mp hid
    obtain ⟨hmem, hpending⟩ := mem_withStatus.mp (hentries.1.mem_iff.mp hrow)
    have hfind := find_of_mem hs hmem
    obtain ⟨hold, hbeforeOld⟩ := htransition'.before hmoves hfind hlater
    obtain ⟨row₀, hfind₀, hoperation₀⟩ := htransition.of_step hmoves hfind
    obtain rfl := Option.some.inj (hfind.symm.trans hfind₀)
    obtain ⟨row', hfind', hoperation'⟩ := hold
    have hmem' := State.mem_of_find hfind'
    have hid' := State.id_of_find hfind'
    -- no other batch is under way
    have hnone : ∀ c entry script, ¬ Dispatches s c entry script := by
      rintro c entry script ⟨other, hother, _⟩
      rw [hfree c] at hother
      cases hother
    cases hstatus : row'.status with
    | done =>
      exact .inl (Settled.step hs hq hmoves ⟨row', hfind', .inl hstatus⟩)
    | skipped =>
      exact .inl (Settled.step hs hq hmoves ⟨row', hfind', .inr (.inl hstatus)⟩)
    | inFlight =>
      refine .inl (Settled.step hs hq hmoves ⟨row', hfind', .inr (.inr ⟨hstatus, ?_⟩)⟩)
      intro c entry script hd
      exact absurd hd (hnone c entry script)
    | pending =>
      refine .inr (.inl (List.mem_map.mpr ⟨row', ?_, hid'⟩))
      exact hentries.1.mem_iff.mpr (mem_withStatus.mpr ⟨hmem', hstatus⟩)
    | failed =>
      -- a failed transition of the issue, ahead of a pending one
      refine absurd ?_ (hfailed key row' hmem' hstatus hoperation' row hrow hoperation₀)
      rw [hid']
      exact hbeforeOld
  | @taken before _ row seconds _ hbefore hwaiting hrest _ hdispatching =>
    have hmem : id ∈ before.rest := by
      rw [hrest]
      exact List.mem_cons_of_mem _ hid
    rcases hq.earlier_of_before hs hstep hbefore hmem htransition htransition' hlater with
      hsettled | hheld | hjob
    · exact .inl hsettled
    · rw [hrest, List.mem_cons] at hheld
      -- the head of the batch becomes its job
      rcases hheld with rfl | hheld
      · refine .inr (.inr ?_)
        rw [Batch.job, hdispatching]
        rfl
      · exact .inr (.inl hheld)
    · rw [Batch.job, hwaiting] at hjob
      cases hjob
  | answered _ hbefore hcall hrest hdispatching =>
    rw [hrest] at hid ⊢
    have := hq.earlier_of_before hs hstep hbefore hid htransition htransition' hlater
    rw [Batch.job, hcall] at this
    rw [Batch.job, hdispatching]
    exact this
  | @finished now before _ entry result hevent hbefore hdone hafter =>
    subst hevent hafter
    have hmem := after_rest before result hid
    have hsame : (before.after result).rest = before.rest := by
      rcases result with (retryAfter | text) | dispatched
      · rw [Batch.after] at hid ⊢
        split_ifs at hid ⊢
        · cases hid
        · rfl
      · rfl
      · rfl
    rw [hsame]
    rcases hq.earlier_of_before hs hstep hbefore hmem htransition htransition' hlater with
      hsettled | hheld | hjob
    · exact .inl hsettled
    · exact .inr (.inl hheld)
    · -- the entry that ends is done: the batch holds a later transition of its issue
      rw [Batch.job, hdone] at hjob
      obtain rfl := Option.some.inj hjob
      have hd : Dispatches s b entry (.done result) := ⟨before, hbefore, hdone⟩
      obtain ⟨row, hfind, hfixed⟩ := row_of_dispatches hs b entry _ hd
      have hentry := row_of_finish hstep hd hfind
      obtain ⟨other, hother, _⟩ := hq.held b before hbefore id hmem
      have hlaterOld := htransition.of_step hmoves hother
      have htransitionOld := htransition'.of_step hmoves hfind
      rcases result with error | dispatched
      · -- the batch goes on after an error that is not a pause
        have hstops : ∀ retryAfter, error = .rateLimit retryAfter → retryAfter = 0 := by
          rintro retryAfter rfl
          by_contra hpause
          rw [Batch.after, if_pos hpause] at hid
          cases hid
        obtain ⟨row', hfind', hoperation⟩ := htransitionOld
        obtain rfl := Option.some.inj (hfind.symm.trans hfind')
        have hkey := (isTransition_of_fixed hfixed).mp hoperation
        exact absurd hlaterOld (hok before entry error hbefore hdone hstops key hkey id hmem)
      · exact .inl ⟨_, hentry, .inl rfl⟩

include hs hq hstep in
theorem Queued.step_ready : ∀ b entry script, Dispatches s' b entry script → ∀ key,
    TransitionId library s' key entry.id → ∀ id', TransitionId library s' key id' →
      EnqueuedBefore s' id' entry.id → Settled s' id' := by
  intro b entry script hd key htransition id' htransition' hlater
  have hmoves := moves_of_step hstep
  have hkept : ∀ script', Dispatches s b entry script' → Settled s' id' := by
    intro script' hd
    obtain ⟨row, hfind, _⟩ := row_of_dispatches hs b entry script' hd
    obtain ⟨hold, hbeforeOld⟩ := htransition'.before hmoves hfind hlater
    exact (hq.ready b entry script' hd key (htransition.of_step hmoves hfind) id' hold
      hbeforeOld).step hs hq hmoves
  rcases hmoves.dispatches hd with hd | ⟨_, row, htakes, rfl, _⟩ | ⟨_, _, _, _, _, hd, _⟩
  · exact hkept script hd
  · -- the head of the batch: what comes before it is not in the rest of the batch
    obtain ⟨before, seconds, rest, hbefore, hwaiting, hrest, hfind⟩ := htakes
    have hmem : row.id ∈ before.rest := by
      rw [hrest]
      exact List.mem_cons_self
    rcases hq.earlier_of_before hs hstep hbefore hmem htransition htransition' hlater with
      hsettled | hheld | hjob
    · exact hsettled
    · obtain ⟨hold, hbeforeOld⟩ := htransition'.before hmoves hfind hlater
      have hsorted := hq.sorted b before hbefore
      rw [hrest, List.mem_cons] at hheld
      rw [hrest, List.pairwise_cons] at hsorted
      rcases hheld with rfl | hheld
      · exact absurd hbeforeOld (Nat.lt_irrefl _)
      · exact absurd hbeforeOld
          (hsorted.1 id' hheld key (htransition.of_step hmoves hfind) hold)
    · rw [Batch.job, hwaiting] at hjob
      cases hjob
  · exact hkept _ hd

end Step

theorem queued_initial (issues : List LocalIssue) (sprints : List LocalSprint)
    (status : String → String) : Queued library (initial issues sprints status) := by
  have hnone : ∀ b batch, (initial issues sprints status).batches b ≠ some batch := by
    intro b batch hbatch
    cases hbatch
  have hidle : ∀ b entry script, ¬ Dispatches (initial issues sprints status) b entry script := by
    rintro b entry script ⟨batch, hbatch, _⟩
    exact hnone b batch hbatch
  exact
    { one := fun b _ batch _ hbatch _ => absurd hbatch (hnone b batch)
      flying := fun b entry script hd => absurd hd (hidle b entry script)
      held := fun b batch hbatch => absurd hbatch (hnone b batch)
      nodup := fun b batch hbatch => absurd hbatch (hnone b batch)
      sorted := fun b batch hbatch => absurd hbatch (hnone b batch)
      priority := fun row hrow => absurd hrow List.not_mem_nil
      clock := fun key row hrow => absurd hrow List.not_mem_nil
      earlier := fun b batch hbatch => absurd hbatch (hnone b batch)
      ready := fun b entry script hd => absurd hd (hidle b entry script) }

theorem Queued.step {e : Event} (hs : (system library workflow).Reachable s)
    (hq : Queued library s) (hok : OrderlyInput library s e)
    (hstep : (system library workflow).step s e s') : Queued library s' where
  one := hq.step_one hok hstep
  flying := hq.step_flying hs hstep
  held := hq.step_held hs hstep
  nodup := hq.step_nodup hs hstep
  sorted := hq.step_sorted hs hstep
  priority := hq.step_priority hstep
  clock := hq.step_clock hs hok hstep
  earlier := hq.step_earlier hs hok hstep
  ready := hq.step_ready hs hstep

theorem queued_of_reachable
    (hs : (system library workflow).ReachableBy (fun _ => True) (OrderlyInput library) s) :
    Queued library s := by
  refine hs.invariant (I := Queued library) ?_ ?_
  · rintro i s rfl _
    exact queued_initial i.1 i.2.1 i.2.2
  · intro s e s' hs hq hok hstep
    exact hq.step hs hok hstep

end JiraSimulator.WriteQueue
