import JiraSimulator.Correctness.WriteBatches

/-!
# The order of transitions

In a run of orderly inputs (`OrderlyInput`) the transitions of an issue take effect in Jira in the
order in which they were enqueued, and when every entry is done the issue has the target of its last
one (`transitions_in_order`).  The invariant is `Moved`: what is left of a running program
(`Shape`), and for each move of an issue that the transitions enqueued before it are settled.
Without the condition a transition that failed is retried after a later one (`not_in_order`).
-/

namespace JiraSimulator.WriteQueue

open Library.Redelivery Library.Redelivery.Script Library.Transition

variable {library : PythonLibrary} {workflow : String → String → String} {s s' : State}

/-! ### Moves of issues -/

/-- What is left of the program of an entry. -/
inductive Shape (library : PythonLibrary) (workflow : String → String → String)
    (history : List Happened) (entry : Entry) : QueueScript Dispatched → Prop
  | still {script : QueueScript Dispatched} (hnot : ∀ key, ¬ IsTransition library key entry)
      (hstill : script.ReadOnly keepsIssues) : Shape library workflow history entry script
  | listing {key : String} (hkey : IsTransition library key entry) :
      Shape library workflow history entry (dispatch library entry)
  | moving {key id : String} (hkey : IsTransition library key entry)
      (htarget : Json.isText (workflow key id) entry.target = true) :
      Shape library workflow history entry (.call (.transitionIssue key id) afterMove)
  | failed {key : String} {error : QueueError} (hkey : IsTransition library key entry) :
      Shape library workflow history entry (.done (.error error))
  | moved {key status : String} {dispatched : Dispatched} (hkey : IsTransition library key entry)
      (hmoved : .moved entry.id key status ∈ history) :
      Shape library workflow history entry (.done (.ok dispatched))

theorem Shape.mono {history later : List Happened} {entry : Entry} {script : QueueScript Dispatched}
    (h : Shape library workflow history entry script) (hsubset : history ⊆ later) :
    Shape library workflow later entry script := by
  cases h with
  | still hnot hstill => exact .still hnot hstill
  | listing hkey => exact .listing hkey
  | moving hkey htarget => exact .moving hkey htarget
  | failed hkey => exact .failed hkey
  | moved hkey hmoved => exact .moved hkey (hsubset hmoved)

/-- Only a transition moves an issue, and to its target. -/
theorem Shape.of_transitionIssue {history : List Happened} {entry : Entry} {key id : String}
    {next : Answer (.transitionIssue key id) → QueueScript Dispatched}
    (h : Shape library workflow history entry (.call (.transitionIssue key id) next)) :
    IsTransition library key entry ∧ Json.isText (workflow key id) entry.target = true := by
  generalize hscript : Script.call (QueueRequest.transitionIssue key id) next = script at h
  cases h with
  | still hnot hstill =>
    subst hscript
    exact absurd hstill.1 Bool.false_ne_true
  | listing hkey =>
    obtain ⟨next', hdispatch, _⟩ := dispatch_of_transition hkey
    rw [hdispatch] at hscript
    cases hscript
  | moving hkey htarget =>
    cases hscript
    exact ⟨hkey, htarget⟩
  | failed _ => cases hscript
  | moved _ _ => cases hscript

/-- What happens to the history in a step: at most one issue is moved. -/
theorem Moves.moved {e : Event} (h : Moves library workflow s e s') :
    ((∃ added, s'.history = added ++ s.history ∧ ∀ id key status, .moved id key status ∉ added) ∧
        s'.status = s.status) ∨
      ∃ b entry key id next, Dispatches s b entry (.call (.transitionIssue key id) next) ∧
        s'.status = Function.update s.status key (workflow key id) ∧
        s'.history = .moved entry.id key (workflow key id) :: s.history := by
  have hnone : ∃ added, s.history = added ++ s.history ∧
      ∀ id key status, Happened.moved id key status ∉ added :=
    ⟨[], rfl, fun _ _ _ => List.not_mem_nil⟩
  cases h with
  | idle | read _ _ _ | closed _ _ | crashed => exact .inl ⟨hnone, rfl⟩
  | @added _ news _ _ _ _ =>
    obtain ⟨_, _, hstatus, hhistory⟩ := enqueueAll_same s news
    refine .inl ⟨⟨_, hhistory, ?_⟩, hstatus⟩
    intro id key status hmem
    obtain ⟨new, _, hnew⟩ := List.mem_map.mp (List.mem_reverse.mp hmem)
    cases hnew
  | taken _ _ _ _ =>
    refine .inl ⟨⟨[_], rfl, ?_⟩, rfl⟩
    intro id key status hmem
    cases List.mem_singleton.mp hmem
  | @answered b answers reached batch entry request next _ hbatch hstage =>
    -- the answer is to a transition that succeeds, or it moves nothing
    rcases answer_history workflow s b batch entry request next (answers request) reached with
      ⟨hstatus, hhistory⟩ | ⟨key, id, hrequest, hstatus, hhistory⟩
    · rw [hstatus, hhistory]
      exact .inl ⟨hnone, rfl⟩
    · subst hrequest
      exact .inr ⟨b, entry, key, id, next, ⟨batch, hbatch, hstage⟩, hstatus, hhistory⟩
  | @finished b now batch entry result hbatch hstage =>
    rw [finish_status, finish_history]
    split_ifs
    · refine .inl ⟨⟨[_], rfl, ?_⟩, rfl⟩
      intro id key status hmem
      cases List.mem_singleton.mp hmem
    · exact .inl ⟨hnone, rfl⟩
  | retried =>
    refine .inl ⟨⟨_, rfl, ?_⟩, rfl⟩
    intro id key status hmem
    obtain ⟨_, _, hfailed⟩ := List.mem_map.mp hmem
    cases hfailed

theorem Moves.history_subset {e : Event} (h : Moves library workflow s e s') :
    s.history ⊆ s'.history := by
  rcases h.moved with ⟨⟨added, hhistory, _⟩, _⟩ | ⟨_, _, _, _, _, _, _, hhistory⟩
  · rw [hhistory]
    exact List.subset_append_right _ _
  · rw [hhistory]
    exact List.subset_cons_self _ _

/-- A transition that succeeds has moved its issue. -/
theorem history_of_ok (workflow : String → String → String) (s : State) (b : ℕ) (batch : Batch)
    (entry : Entry) {key id : String}
    (next : Answer (.transitionIssue key id) → QueueScript Dispatched)
    {answer : Answer (.transitionIssue key id)} (reached : Bool) (hok : answer.isOk = true) :
    (s.answer workflow b batch entry (.transitionIssue key id) next answer reached).history =
      .moved entry.id key (workflow key id) :: s.history := by
  unfold State.answer
  simp only [hok, Bool.true_or, if_true]
  rfl

/-- The status to which an issue was moved last. -/
def lastStatus (issueKey : String) : List Happened → Option String
  | [] => none
  | .moved _ key status :: older => if key = issueKey then some status else lastStatus issueKey older
  | .pending _ :: older | .dispatched _ _ :: older => lastStatus issueKey older

theorem lastStatus_append {key : String} {added history : List Happened}
    (h : ∀ id key status, Happened.moved id key status ∉ added) :
    lastStatus key (added ++ history) = lastStatus key history := by
  induction added with
  | nil => rfl
  | cons happened added ih =>
    have hadded := ih fun id key status hmem => h id key status (List.mem_cons_of_mem _ hmem)
    cases happened with
    | pending _ => exact hadded
    | dispatched _ _ => exact hadded
    | moved id key status => exact absurd List.mem_cons_self (h id key status)

/-- Transitions of an issue take effect in the order in which they were enqueued: none after one
that was enqueued later. -/
def InOrder (s : State) : Prop :=
  s.history.Pairwise fun newer older => ∀ id id' key status status',
    newer = .moved id key status → older = .moved id' key status' → ¬ EnqueuedBefore s id id'

/-- When every entry is done, an issue has the target of its last transition. -/
def Arrived (library : PythonLibrary) (s : State) : Prop :=
  (∀ row ∈ s.entries, row.status = .done) → ∀ key, ∀ last ∈ s.entries,
    IsTransition library key last →
      (∀ row ∈ s.entries, IsTransition library key row → ¬ EnqueuedBefore s last.id row.id) →
        Json.isText (s.status key) last.target = true

/-- The moves of issues and the entries for which they were made. -/
structure Moved (library : PythonLibrary) (workflow : String → String → String) (s : State) :
    Prop where
  shape : ∀ b entry script, Dispatches s b entry script →
    Shape library workflow s.history entry script
  moved : ∀ id key status, .moved id key status ∈ s.history →
    ∃ row, s.find id = some row ∧ IsTransition library key row ∧
      Json.isText status row.target = true
  before : ∀ id key status, .moved id key status ∈ s.history → ∀ id',
    TransitionId library s key id' → EnqueuedBefore s id' id → Settled s id'
  done : ∀ key, ∀ row ∈ s.entries, IsTransition library key row → row.status = .done →
    ∃ status, .moved row.id key status ∈ s.history
  latest : ∀ key status, lastStatus key s.history = some status → s.status key = status
  order : InOrder s

section Step

variable {e : Event} (hs : (system library workflow).Reachable s) (hq : Queued library s)
  (hm : Moved library workflow s) (hok : OrderlyInput library s e)
  (hstep : (system library workflow).step s e s')

include hm hok hstep in
theorem Moved.step_shape : ∀ b entry script, Dispatches s' b entry script →
    Shape library workflow s'.history entry script := by
  intro b entry script hd
  have hmoves := moves_of_step hstep
  -- the script ran before, is started now, or goes on with an answer
  rcases hmoves.dispatches hd with hd | ⟨_, row, _, _, rfl⟩ |
    ⟨answers, reached, request, next, rfl, hcalls, rfl⟩
  · exact (hm.shape b entry script hd).mono hmoves.history_subset
  · by_cases hkey : ∃ key, IsTransition library key entry
    · obtain ⟨key, hkey⟩ := hkey
      exact .listing hkey
    · have hnot := not_exists.mp hkey
      exact .still hnot (readOnly_dispatch hnot)
  · have hshape := hm.shape b entry _ hcalls
    generalize hscript : Script.call request next = before at hshape
    cases hshape with
    | still hnot hstill =>
      subst hscript
      exact .still hnot (hstill.2 _)
    | @listing key hkey =>
      obtain ⟨next', hdispatch, hnext⟩ := dispatch_of_transition hkey
      rw [hdispatch] at hscript
      cases hscript
      rcases hnext (answers (.getIssueTransitions key)) with ⟨error, herror⟩ |
        ⟨transitions, t, id, hanswer, hto, hid, hmove⟩
      · rw [herror]
        exact .failed hkey
      · -- the transition that is taken leads where Jira says
        rw [hmove]
        have hleads := hstep.1 key transitions hanswer t (List.mem_of_find?_eq_some hto) id hid
        have hnamed := hok entry _ key transitions t hcalls hkey hanswer hto
        rw [hleads] at hnamed
        exact .moving hkey hnamed
    | @moving key id hkey htarget =>
      cases hscript
      cases hanswer : answers (.transitionIssue key id) with
      | error error => exact .failed hkey
      | ok reply =>
        obtain ⟨batch, entry', request', next', hbatch, hstage, rfl⟩ := next_answer.mp hstep.2
        obtain ⟨rfl, hcall⟩ := hcalls.unique ⟨batch, hbatch, hstage⟩
        cases hcall
        -- the transition succeeded, so the history records it
        have hsucceeds : (answers (.transitionIssue key id)).isOk = true := by
          rw [hanswer]
          rfl
        have hhistory := history_of_ok workflow s b batch entry afterMove reached hsucceeds
        have hmem : .moved entry.id key (workflow key id) ∈ (s.answer workflow b batch entry
            (.transitionIssue key id) afterMove (answers (.transitionIssue key id))
              reached).history := by
          rw [hhistory]
          exact List.mem_cons_self
        exact .moved hkey hmem
    | failed _ => cases hscript
    | moved _ _ => cases hscript

include hs hm hstep in
theorem Moved.step_moved : ∀ id key status, .moved id key status ∈ s'.history →
    ∃ row, s'.find id = some row ∧ IsTransition library key row ∧
      Json.isText status row.target = true := by
  intro id key status hmem
  have hmoves := moves_of_step hstep
  have hbefore : ∃ row, s.find id = some row ∧ IsTransition library key row ∧
      Json.isText status row.target = true := by
    rcases hmoves.moved with
      ⟨⟨added, hhistory, hnone⟩, _⟩ | ⟨b, entry, key', id', next, hd, _, hhistory⟩
    · rw [hhistory, List.mem_append] at hmem
      exact hm.moved id key status (hmem.resolve_left (hnone id key status))
    · rw [hhistory, List.mem_cons] at hmem
      rcases hmem with hnew | hold
      · cases hnew
        obtain ⟨hkey, htarget⟩ := (hm.shape b entry _ hd).of_transitionIssue
        obtain ⟨row, hfind, hfixed⟩ := row_of_dispatches hs b entry _ hd
        refine ⟨row, hfind, (isTransition_of_fixed hfixed).mpr hkey, ?_⟩
        rw [target_of_fixed hfixed]
        exact htarget
      · exact hm.moved id key status hold
  obtain ⟨row, hfind, hkey, htarget⟩ := hbefore
  obtain ⟨row', hfind', hfixed⟩ := hmoves.find hfind
  refine ⟨row', hfind', (isTransition_of_fixed hfixed).mpr hkey, ?_⟩
  rw [target_of_fixed hfixed]
  exact htarget

include hs hq hm hstep in
theorem Moved.step_before : ∀ id key status, .moved id key status ∈ s'.history → ∀ id',
    TransitionId library s' key id' → EnqueuedBefore s' id' id → Settled s' id' := by
  intro id key status hmem id' htransition hlater
  have hmoves := moves_of_step hstep
  have hbefore : ∃ row, s.find id = some row ∧
      (TransitionId library s key id' → EnqueuedBefore s id' id → Settled s id') := by
    rcases hmoves.moved with
      ⟨⟨added, hhistory, hnone⟩, _⟩ | ⟨b, entry, key', id₀, next, hd, _, hhistory⟩
    · rw [hhistory, List.mem_append] at hmem
      have hold := hmem.resolve_left (hnone id key status)
      obtain ⟨row, hfind, _⟩ := hm.moved id key status hold
      exact ⟨row, hfind, hm.before id key status hold id'⟩
    · rw [hhistory, List.mem_cons] at hmem
      rcases hmem with hnew | hold
      · cases hnew
        obtain ⟨hkey, _⟩ := (hm.shape b entry _ hd).of_transitionIssue
        obtain ⟨row, hfind, hfixed⟩ := row_of_dispatches hs b entry _ hd
        refine ⟨row, hfind, hq.ready b entry _ hd _ ?_ id'⟩
        exact ⟨row, hfind, (isTransition_of_fixed hfixed).mpr hkey⟩
      · obtain ⟨row, hfind, _⟩ := hm.moved id key status hold
        exact ⟨row, hfind, hm.before id key status hold id'⟩
  obtain ⟨row, hfind, hsettled⟩ := hbefore
  obtain ⟨hold, hbeforeOld⟩ := htransition.before hmoves hfind hlater
  exact (hsettled hold hbeforeOld).step hs hq hmoves

include hs hm hstep in
theorem Moved.step_done : ∀ key, ∀ row ∈ s'.entries, IsTransition library key row →
    row.status = .done → ∃ status, .moved row.id key status ∈ s'.history := by
  intro key row' hrow' hkey' hdone
  have hmoves := moves_of_step hstep
  have hs' : (system library workflow).Reachable s' := .step hs trivial hstep
  -- the row was there, or it is new and pending
  rcases row_of_step hstep hrow' with ⟨row, hrow, hfixed⟩ | ⟨_, new, rfl, _⟩
  · have hfind := find_of_mem hs hrow
    have hkey := (isTransition_of_fixed hfixed).mp hkey'
    have hfind' := find_of_mem hs' hrow'
    rw [id_of_fixed hfixed] at hfind' ⊢
    obtain ⟨row'', hfind'', hmove⟩ := hmoves.row hs hfind
    obtain rfl := Option.some.inj (hfind'.symm.trans hfind'')
    cases hmove with
    | same _ hsame =>
      rw [hsame] at hdone
      obtain ⟨status, hmoved⟩ := hm.done key row hrow hkey hdone
      exact ⟨status, hmoves.history_subset hmoved⟩
    | taken _ _ _ hstatus =>
      rw [hstatus] at hdone
      cases hdone
    | @finished b now entry _ result _ _ hd hid hstatus =>
      obtain ⟨row₀, hfind₀, hfixed₀⟩ := row_of_dispatches hs b entry _ hd
      rw [hid, hfind] at hfind₀
      obtain rfl := Option.some.inj hfind₀
      have hkeyEntry := (isTransition_of_fixed hfixed₀).mp hkey
      rw [hstatus] at hdone
      have hshape := hm.shape b entry _ hd
      -- a script that is done has moved the issue or has failed
      generalize hscript : Script.done result = script at hshape
      cases hshape with
      | still hnot _ => exact absurd hkeyEntry (hnot key)
      | listing hkey₁ =>
        obtain ⟨_, hdispatch, _⟩ := dispatch_of_transition hkey₁
        rw [hdispatch] at hscript
        cases hscript
      | moving _ _ => cases hscript
      | @failed _ error _ =>
        cases hscript
        cases error <;> cases hdone
      | @moved key₁ status _ hkey₁ hmoved =>
        obtain rfl := hkey₁.key_eq hkeyEntry
        rw [hid] at hmoved
        exact ⟨status, hmoves.history_subset hmoved⟩
    | retried _ _ _ hstatus =>
      rw [hstatus] at hdone
      cases hdone
  · cases hdone

include hm hstep in
theorem Moved.step_latest : ∀ key status, lastStatus key s'.history = some status →
    s'.status key = status := by
  intro key status hlast
  rcases (moves_of_step hstep).moved with ⟨⟨added, hhistory, hnone⟩, hstatus⟩ |
    ⟨b, entry, key', id, next, _, hstatus, hhistory⟩
  · rw [hhistory, lastStatus_append hnone] at hlast
    rw [hstatus]
    exact hm.latest key status hlast
  · rw [hhistory, lastStatus] at hlast
    rw [hstatus]
    by_cases hkey : key' = key
    · rw [if_pos hkey] at hlast
      rw [hkey, Function.update_self]
      rw [hkey] at hlast
      exact Option.some.inj hlast
    · rw [if_neg hkey] at hlast
      rw [Function.update_of_ne (Ne.symm hkey)]
      exact hm.latest key status hlast

include hs hq hm hstep in
theorem Moved.step_order : InOrder s' := by
  have hmoves := moves_of_step hstep
  -- rows keep their places, so what was in order is in order
  have hkept : s.history.Pairwise fun newer older => ∀ id id' key status status',
      newer = .moved id key status → older = .moved id' key status' → ¬ EnqueuedBefore s' id id' := by
    refine hm.order.imp_of_mem ?_
    intro newer older hnewer holder hsorted id id' key status status' heq heq' hlater
    rw [heq] at hnewer
    rw [heq'] at holder
    obtain ⟨row, hfind, _⟩ := hm.moved _ _ _ hnewer
    obtain ⟨row', hfind', _⟩ := hm.moved _ _ _ holder
    rw [EnqueuedBefore, hmoves.place hfind, hmoves.place hfind'] at hlater
    exact hsorted id id' key status status' heq heq' hlater
  rcases hmoves.moved with ⟨⟨added, hhistory, hnone⟩, _⟩ | ⟨b, entry, key, id, next, hd, _, hhistory⟩
  · rw [InOrder, hhistory, List.pairwise_append]
    have hno : ∀ newer ∈ added, ∀ id key status, newer ≠ .moved id key status := by
      rintro newer hmem id key status rfl
      exact hnone id key status hmem
    refine ⟨?_, hkept, ?_⟩
    · refine List.pairwise_of_forall_mem_list ?_
      intro newer hnewer older _ id id' key status status' heq _
      exact absurd heq (hno newer hnewer id key status)
    · intro newer hnewer older _ id id' key status status' heq _
      exact absurd heq (hno newer hnewer id key status)
  · rw [InOrder, hhistory, List.pairwise_cons]
    refine ⟨?_, hkept⟩
    rintro older holder id₁ id' key₁ status status' heq rfl hlater
    cases heq
    -- what was moved before has only settled transitions before it
    obtain ⟨hkey, _⟩ := (hm.shape b entry _ hd).of_transitionIssue
    obtain ⟨row, hfind, hfixed⟩ := row_of_dispatches hs b entry _ hd
    obtain ⟨row', hfind', _⟩ := hm.moved _ _ _ holder
    rw [EnqueuedBefore, hmoves.place hfind, hmoves.place hfind'] at hlater
    have hentry : TransitionId library s key entry.id :=
      ⟨row, hfind, (isTransition_of_fixed hfixed).mpr hkey⟩
    obtain ⟨settled, hsettled, hstatus⟩ := hm.before _ _ _ holder entry.id hentry hlater
    obtain ⟨flying, hflying, hinFlight⟩ := hq.flying b entry _ hd
    obtain rfl := Option.some.inj (hsettled.symm.trans hflying)
    rw [hinFlight] at hstatus
    rcases hstatus with h | h | ⟨_, hfree⟩
    · cases h
    · cases h
    · exact hfree b entry _ hd rfl

end Step

theorem moved_initial (issues : List LocalIssue) (sprints : List LocalSprint)
    (status : String → String) : Moved library workflow (initial issues sprints status) where
  shape := by
    rintro b entry script ⟨batch, hbatch, _⟩
    cases hbatch
  moved _ _ _ hmem := absurd hmem List.not_mem_nil
  before _ _ _ hmem := absurd hmem List.not_mem_nil
  done _ _ hrow := absurd hrow List.not_mem_nil
  latest _ _ hlast := by cases hlast
  order := .nil

theorem moved_of_reachable
    (hs : (system library workflow).ReachableBy (fun _ => True) (OrderlyInput library) s) :
    Moved library workflow s := by
  suffices h : Queued library s ∧ Moved library workflow s from h.2
  refine hs.invariant (I := fun s => Queued library s ∧ Moved library workflow s) ?_ ?_
  · rintro i s rfl _
    exact ⟨queued_initial i.1 i.2.1 i.2.2, moved_initial i.1 i.2.1 i.2.2⟩
  · intro s e s' hs ⟨hq, hm⟩ hok hstep
    refine ⟨hq.step hs hok hstep, ?_⟩
    exact
      { shape := hm.step_shape hok hstep
        moved := hm.step_moved hs hstep
        before := hm.step_before hs hq hstep
        done := hm.step_done hs hstep
        latest := hm.step_latest hstep
        order := hm.step_order hs hq hstep }

/-! ### Order over runs -/

theorem lastStatus_of_moved {R : Happened → Happened → Prop} {history : List Happened}
    (hpairs : history.Pairwise R) {id key status : String}
    (hmoved : .moved id key status ∈ history) : ∃ id' status',
      lastStatus key history = some status' ∧ .moved id' key status' ∈ history ∧
        (id' = id ∨ R (.moved id' key status') (.moved id key status)) := by
  induction history with
  | nil => cases hmoved
  | cons happened older ih =>
    obtain ⟨hhead, hpairs⟩ := List.pairwise_cons.mp hpairs
    have hlater : .moved id key status ∈ older → ∃ id' status',
        lastStatus key older = some status' ∧ .moved id' key status' ∈ happened :: older ∧
          (id' = id ∨ R (.moved id' key status') (.moved id key status)) := by
      intro hmem
      obtain ⟨id', status', hlast, hmem', hrel⟩ := ih hpairs hmem
      exact ⟨id', status', hlast, List.mem_cons_of_mem _ hmem', hrel⟩
    cases happened with
    | pending _ => exact hlater ((List.mem_cons.mp hmoved).resolve_left nofun)
    | dispatched _ _ => exact hlater ((List.mem_cons.mp hmoved).resolve_left nofun)
    | moved id₀ key₀ status₀ =>
      by_cases hkey : key₀ = key
      · subst hkey
        refine ⟨id₀, status₀, by rw [lastStatus, if_pos rfl], List.mem_cons_self, ?_⟩
        rcases List.mem_cons.mp hmoved with heq | hmem
        · cases heq
          exact .inl rfl
        · exact .inr (hhead _ hmem)
      · rw [lastStatus, if_neg hkey]
        refine hlater ((List.mem_cons.mp hmoved).resolve_left fun heq => hkey ?_)
        cases heq
        rfl

/-- In a run of orderly inputs the transitions of an issue take effect in the order in which they
were enqueued, and when every entry is done the issue has the target of the last one. -/
theorem transitions_in_order
    (hs : (system library workflow).ReachableBy (fun _ => True) (OrderlyInput library) s) :
    InOrder s ∧ Arrived library s := by
  have hm := moved_of_reachable hs
  refine ⟨hm.order, ?_⟩
  intro hall key last hlast hkey hmax
  obtain ⟨status, hmoved⟩ := hm.done key last hlast hkey (hall last hlast)
  obtain ⟨id', status', hlatest, hmoved', hrel⟩ := lastStatus_of_moved hm.order hmoved
  obtain ⟨row', hfind', hkey', htarget⟩ := hm.moved id' key status' hmoved'
  have hid' := State.id_of_find hfind'
  have hsame : id' = last.id := by
    rcases hrel with heq | hrel
    · exact heq
    · have hnot := hrel _ _ _ _ _ rfl rfl
      have hnot' := hmax row' (State.mem_of_find hfind') hkey'
      rw [hid'] at hnot'
      rw [EnqueuedBefore] at hnot hnot'
      exact (List.idxOf_inj (mem_ids_of_find hfind')).mp (by
        show s.place id' = s.place last.id
        omega)
  have hfind := find_of_mem hs.reachable hlast
  rw [← hsame, hfind'] at hfind
  obtain rfl := Option.some.inj hfind
  rw [hm.latest key status' hlatest]
  exact htarget

/-! ### Some runs -/

/-- A transition of an issue. -/
def transitionOf (id : String) (now : ℤ) (target : String) : NewEntry where
  id := id
  now := now
  teamId := 1
  operationType := "TRANSITION_ISSUE"
  payload := [("issue_key", .string "ALPHA-1"), ("target_status", .string target)]
  issueId := some 1
  scheduledEventId := none

def boardWorkflow (_ id : String) : String :=
  if id = "31" then "Done" else if id = "21" then "In Progress" else "To Do"

/-- Jira lists the transitions of the workflow, and makes the one that is asked for. -/
def listed (r : QueueRequest) : Answer r :=
  match r with
  | .getIssueTransitions _ => .ok
    [⟨some "21", some "In Progress", some "In Progress"⟩, ⟨some "31", some "Done", some "Done"⟩]
  | .transitionIssue _ _ => .ok ()
  | _ => .error (.other "HTTP 500")

/-- Jira fails. -/
def unavailable (r : QueueRequest) : Answer r :=
  .error (.other "HTTP 500")

/-- Two transitions of an issue, one after the other. -/
def twoTransitions : List Event :=
  [.enqueue (transitionOf "a" 1 "In Progress"), .enqueue (transitionOf "b" 2 "Done"),
    .processBatch 0 .online 10
      [(transitionOf "a" 1 "In Progress").row, (transitionOf "b" 2 "Done").row],
    .take 0, .answer 0 listed false, .answer 0 listed false, .finish 0 3,
    .take 0, .answer 0 listed false, .answer 0 listed false, .finish 0 4]

/-- The first of two transitions fails, and is retried after the second one. -/
def retriedTransition : List Event :=
  [.enqueue (transitionOf "a" 1 "In Progress"), .enqueue (transitionOf "b" 2 "Done"),
    .processBatch 0 .online 10
      [(transitionOf "a" 1 "In Progress").row, (transitionOf "b" 2 "Done").row],
    .take 0, .answer 0 unavailable false, .finish 0 3,
    .take 0, .answer 0 listed false, .answer 0 listed false, .finish 0 4, .close 0,
    .retryFailed,
    .processBatch 1 .online 10
      [{ (transitionOf "a" 1 "In Progress").row with lastError := some "HTTP 500" }],
    .take 1, .answer 1 listed false, .answer 1 listed false, .finish 1 5]

theorem listed_leads (key : String) (transitions : List Transition)
    (h : listed (.getIssueTransitions key) = .ok transitions) :
    ∀ t ∈ transitions, ∀ id, t.id = some id → t.toName = some (boardWorkflow key id) := by
  cases h
  intro t ht id hid
  rcases List.mem_cons.mp ht with rfl | ht
  · cases hid
    rfl
  · obtain rfl := List.mem_singleton.mp ht
    cases hid
    rfl

theorem listed_named (target : Json) (key : String) (transitions : List Transition)
    (t : Transition) (h : listed (.getIssueTransitions key) = .ok transitions)
    (hto : transitionTo transitions target = some t) :
    Json.isText (t.toName.getD "") target = true := by
  cases h
  have hnamed := List.find?_some hto
  rcases List.mem_cons.mp (List.mem_of_find?_eq_some hto) with rfl | ht
  · exact (Bool.or_self _).symm.trans hnamed
  · obtain rfl := List.mem_singleton.mp ht
    exact (Bool.or_self _).symm.trans hnamed

/-- A run of orderly inputs. -/
theorem transitions_in_order_two : ∃ s, (system plainLibrary boardWorkflow).ReachableBy
    (fun _ => True) (OrderlyInput plainLibrary) s ∧ s.status "ALPHA-1" = "Done" ∧
      InOrder s ∧ Arrived plainLibrary s := by
  have h : (emptyQueue.after plainLibrary boardWorkflow twoTransitions).map
      (fun s => s.status "ALPHA-1") = some "Done" := by
    decide +kernel
  obtain ⟨s, hs, hstatus⟩ := Option.map_eq_some_iff.mp h
  -- no transition has failed when the second one is enqueued
  have hpending : ∀ row ∈ [(transitionOf "a" 1 "In Progress").row, (transitionOf "b" 2 "Done").row],
      row.status ≠ .failed := by
    decide
  have hreach : (system plainLibrary boardWorkflow).ReachableBy (fun _ => True)
      (OrderlyInput plainLibrary) s := by
    refine reachableBy_of_after empty_reachable ?_ hs
    refine ⟨rfl, fun _ _ row hrow => absurd hrow List.not_mem_nil, ?_⟩
    rintro _ ⟨⟩
    refine ⟨rfl, ?_, ?_⟩
    · intro key _ row hrow _
      obtain rfl := List.mem_singleton.mp hrow
      decide
    rintro _ ⟨⟩
    refine ⟨⟨rfl, .refl _, by decide⟩, fun _ => ⟨fun _ => rfl, ?_⟩, ?_⟩
    · intro key row hrow hfailed
      exact absurd hfailed (hpending row hrow)
    rintro _ ⟨⟩
    refine ⟨trivial, trivial, ?_⟩
    rintro _ ⟨⟩
    refine ⟨fun key transitions h => listed_leads key transitions h, ?_, ?_⟩
    · intro entry _ key transitions t _ _ hanswer hto
      exact listed_named _ key transitions t hanswer hto
    rintro _ ⟨⟩
    refine ⟨fun key transitions h => listed_leads key transitions h, ?_, ?_⟩
    · intro entry _ key transitions t _ _ hanswer hto
      exact listed_named _ key transitions t hanswer hto
    rintro _ ⟨⟩
    refine ⟨trivial, ?_, ?_⟩
    · intro batch entry error hbatch hstage
      obtain rfl := Option.some.inj hbatch
      exact nomatch (Stage.dispatching.inj hstage).2
    rintro _ ⟨⟩
    refine ⟨trivial, trivial, ?_⟩
    rintro _ ⟨⟩
    refine ⟨fun key transitions h => listed_leads key transitions h, ?_, ?_⟩
    · intro entry _ key transitions t _ _ hanswer hto
      exact listed_named _ key transitions t hanswer hto
    rintro _ ⟨⟩
    refine ⟨fun key transitions h => listed_leads key transitions h, ?_, ?_⟩
    · intro entry _ key transitions t _ _ hanswer hto
      exact listed_named _ key transitions t hanswer hto
    rintro _ ⟨⟩
    refine ⟨trivial, ?_, ?_⟩
    · intro batch entry error hbatch hstage
      obtain rfl := Option.some.inj hbatch
      exact nomatch (Stage.dispatching.inj hstage).2
    rintro _ ⟨⟩
    trivial
  exact ⟨s, hreach, hstatus, transitions_in_order hreach⟩

/-- A transition that failed takes effect after a later one, and the issue ends in its status. -/
theorem not_in_order : ∃ s, (system plainLibrary boardWorkflow).Reachable s ∧
    ¬ InOrder s ∧ ¬ Arrived plainLibrary s := by
  have h : (emptyQueue.after plainLibrary boardWorkflow retriedTransition).map (fun s => decide
      (s.history.head? = some (.moved "a" "ALPHA-1" "In Progress") ∧
        .moved "b" "ALPHA-1" "Done" ∈ s.history.tail ∧ EnqueuedBefore s "a" "b" ∧
        (∀ row ∈ s.entries, row.status = .done) ∧
        ∃ last ∈ s.entries, IsTransition plainLibrary "ALPHA-1" last ∧
          (∀ row ∈ s.entries, IsTransition plainLibrary "ALPHA-1" row →
            ¬ EnqueuedBefore s last.id row.id) ∧
          Json.isText (s.status "ALPHA-1") last.target = false)) = some true := by
    decide +kernel
  obtain ⟨s, hs, hholds⟩ := Option.map_eq_some_iff.mp h
  obtain ⟨hhead, htail, hbefore, hall, last, hlast, hkey, hmax, htarget⟩ :=
    of_decide_eq_true hholds
  refine ⟨s, reachableBy_of_after empty_reachable ?_ hs, ?_, ?_⟩
  · refine ⟨rfl, trivial, ?_⟩
    rintro _ ⟨⟩
    refine ⟨rfl, trivial, ?_⟩
    rintro _ ⟨⟩
    refine ⟨⟨rfl, .refl _, by decide⟩, trivial, ?_⟩
    rintro _ ⟨⟩
    refine ⟨trivial, trivial, ?_⟩
    rintro _ ⟨⟩
    refine ⟨nofun, trivial, ?_⟩
    rintro _ ⟨⟩
    refine ⟨trivial, trivial, ?_⟩
    rintro _ ⟨⟩
    refine ⟨trivial, trivial, ?_⟩
    rintro _ ⟨⟩
    refine ⟨fun key transitions h => listed_leads key transitions h, trivial, ?_⟩
    rintro _ ⟨⟩
    refine ⟨fun key transitions h => listed_leads key transitions h, trivial, ?_⟩
    rintro _ ⟨⟩
    refine ⟨trivial, trivial, ?_⟩
    rintro _ ⟨⟩
    refine ⟨trivial, trivial, ?_⟩
    rintro _ ⟨⟩
    refine ⟨trivial, trivial, ?_⟩
    rintro _ ⟨⟩
    refine ⟨⟨rfl, .refl _, by decide⟩, trivial, ?_⟩
    rintro _ ⟨⟩
    refine ⟨trivial, trivial, ?_⟩
    rintro _ ⟨⟩
    refine ⟨fun key transitions h => listed_leads key transitions h, trivial, ?_⟩
    rintro _ ⟨⟩
    refine ⟨fun key transitions h => listed_leads key transitions h, trivial, ?_⟩
    rintro _ ⟨⟩
    refine ⟨trivial, trivial, ?_⟩
    rintro _ ⟨⟩
    trivial
  · -- the later transition is moved after the earlier one failed and was tried again
    intro horder
    obtain ⟨older, hhistory⟩ := List.head?_eq_some_iff.mp hhead
    rw [InOrder, hhistory, List.pairwise_cons] at horder
    rw [hhistory] at htail
    exact horder.1 _ htail "a" "b" "ALPHA-1" _ _ rfl rfl hbefore
  · intro harrived
    rw [harrived hall "ALPHA-1" last hlast hkey hmax] at htarget
    cases htarget

end JiraSimulator.WriteQueue
