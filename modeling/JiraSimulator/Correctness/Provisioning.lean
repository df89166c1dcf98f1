import JiraSimulator.Correctness.IntentOrder
import JiraSimulator.Correctness.ItemRuns

/-!
# Repeated bootstraps

A bootstrap call on a running team composes the intents of its project, its board and its items
again, from rows that ticks and sprint boundaries have rewritten since.  It reads only what a commit
keeps of an item, so every intent is one that the ledger already holds.

* `Committed.origin`: a commit keeps the origin of every item.
* `provisioned_of_reachable`: the ledger of every reachable store holds its provisioning intents.
* `bootstrap_idempotent`: a later bootstrap call succeeds and changes nothing.
-/

namespace JiraSimulator

open Library Library.Outcome Library.Transition ScrumCollections

variable {p : Platform}

/-! ### The origin of an item -/

/-- The two rows agree on what the creation of an item in Jira reads. -/
structure SameOrigin (work work' : WorkItemState) : Prop where
  id : work'.id = work.id
  issueType : work'.issueType = work.issueType
  creationSequence : work'.creationSequence = work.creationSequence
  createdAt : work'.createdAt = work.createdAt

theorem SameOrigin.refl (work : WorkItemState) : SameOrigin work work := by
  constructor <;> rfl

theorem SameOrigin.trans {a b c : WorkItemState} (hab : SameOrigin a b) (hbc : SameOrigin b c) :
    SameOrigin a c where
  id := hbc.id.trans hab.id
  issueType := hbc.issueType.trans hab.issueType
  creationSequence := hbc.creationSequence.trans hab.creationSequence
  createdAt := hbc.createdAt.trans hab.createdAt

section moves

variable {blueprint : ResolvedTeamBlueprint} {item item' : ItemView}

theorem RiskMove.origin {startsAt endsAt : ℤ}
    (h : RiskMove p blueprint startsAt endsAt item item') : SameOrigin item.work item'.work := by
  cases h with
  | pauses => exact .refl _
  | returns => constructor <;> rfl
  | cancels => constructor <;> rfl

theorem RiskMoves.origin {startsAt endsAt : ℤ}
    (h : RiskMoves p blueprint startsAt endsAt item item') : SameOrigin item.work item'.work := by
  induction h with
  | refl => exact .refl _
  | tail _ hmove ih => exact ih.trans hmove.1.origin

theorem ProgressMove.origin {endsAt : ℤ} (h : ProgressMove p blueprint endsAt item item') :
    SameOrigin item.work item'.work := by
  cases h with
  | idles => exact .refl _
  | continues => exact .refl _
  | finishes => constructor <;> rfl
  | advances => constructor <;> rfl

theorem ActivationMove.origin {instant : ℤ} (h : ActivationMove p blueprint instant item item') :
    SameOrigin item.work item'.work := by
  cases h with
  | finishes => constructor <;> rfl
  | enters => constructor <;> rfl

end moves

section commit

variable {store store' : TeamStore p} {event : TeamEvent}
  {command : AuthoritativeTickSliceCommit p}

/-- Every item after a commit was an item before it. -/
theorem Committed.origin (h : Committed store command store')
    (hreach : (teamRuns p).Reachable store) (hof : CommandOf store.state event command)
    {work' : WorkItemState} (hwork' : work' ∈ store'.scrum.workItems) :
    ∃ work ∈ store.scrum.workItems, SameOrigin work work' := by
  cases hof with
  | tick request draws advance _ _ hadvance _ _ hassembled =>
    obtain ⟨outcome, finish, hrun⟩ := tickAdvance_eq_ok hadvance
    obtain ⟨work, hwork, -, mid, hmoves, hmove⟩ := tick_itemMoves h hrun hassembled hwork'
    exact ⟨work, hwork, hmoves.origin.trans hmove.origin⟩
  | boundary instant transition _ hstep _ hstate =>
    obtain ⟨work, hwork, -, hview | hmove⟩ :=
      boundary_itemMove h (PlannedFirst.of_reachable hreach) hstep hstate hwork'
    · have hsame : work' = work := congrArg ItemView.work hview
      exact ⟨work, hwork, hsame ▸ .refl _⟩
    · exact ⟨work, hwork, hmove.origin⟩
  | downtime hempty =>
    exact ⟨work', (h.mem_of_empty Collection.workItems (fun _ _ _ => rfl) hempty).mp hwork',
      .refl _⟩

/-- Every item before a commit is an item after it. -/
theorem Committed.origin_of_mem (h : Committed store command store')
    (hreach : (teamRuns p).Reachable store) (hof : CommandOf store.state event command)
    {work : WorkItemState} (hwork : work ∈ store.scrum.workItems) :
    ∃ work' ∈ store'.scrum.workItems, SameOrigin work work' := by
  obtain ⟨work', hwork', hid⟩ := h.mem_keys Collection.workItems (fun _ _ _ => rfl) hwork
  obtain ⟨other, hother, hsame⟩ := h.origin hreach hof hwork'
  have hwork : other = work := Collection.workItems.eq_of_key_eq store.scrum.complete.toConsistent
    hother hwork (hsame.id.symm.trans hid)
  exact ⟨work', hwork', hwork ▸ hsame⟩

end commit

/-! ### The intents of a bootstrap call -/

theorem provisioningContext_eq_ok {state : LiveTeamState p} {context : ProvisioningContext p} :
    provisioningContext state = .ok context ↔ context.state = state ∧
      context.recordedAt ∈ state.scrum.workItems.map (·.createdAt) ∧
      ∀ work ∈ state.scrum.workItems, context.recordedAt ≤ work.createdAt := by
  have hmin : ∀ recordedAt, (state.scrum.workItems.map (·.createdAt)).min? = some recordedAt ↔
      recordedAt ∈ state.scrum.workItems.map (·.createdAt) ∧
        ∀ work ∈ state.scrum.workItems, recordedAt ≤ work.createdAt := by
    intro recordedAt
    rw [List.min?_eq_some_iff, List.forall_mem_map]
  obtain ⟨state', recordedAt⟩ := context
  unfold provisioningContext
  cases hfirst : (state.scrum.workItems.map (·.createdAt)).min? with
  | none =>
    simp only [reduceCtorEq, false_iff]
    rintro ⟨-, hleast⟩
    rw [(hmin recordedAt).mpr hleast] at hfirst
    cases hfirst
  | some first =>
    rw [← hmin recordedAt, hfirst]
    simp only [Except.ok.injEq, ProvisioningContext.mk.injEq, Option.some.injEq]
    exact and_congr_left' eq_comm

/-- What the intents of the project, the board and the items read of a state. -/
structure SameProject (context context' : ProvisioningContext p) : Prop where
  team : context'.state.aggregate.team = context.state.aggregate.team
  runId : context'.state.aggregate.runtime.runId = context.state.aggregate.runtime.runId
  blueprint : context'.state.aggregate.blueprint = context.state.aggregate.blueprint
  recordedAt : context'.recordedAt = context.recordedAt
  items : ∀ work' ∈ context'.state.scrum.workItems,
    ∃ work ∈ context.state.scrum.workItems, SameOrigin work work'

section project

variable {context context' : ProvisioningContext p} (h : SameProject context context')

include h

theorem SameProject.provisioningIntent (suffix : ProvisioningSuffix)
    (operation : ProjectionOperation) (aggregateId : Uuid) (payload : ProjectionPayload)
    (dependsOn : List SemanticKey) :
    provisioningIntent context' suffix operation aggregateId payload dependsOn =
      provisioningIntent context suffix operation aggregateId payload dependsOn := by
  simp only [JiraSimulator.provisioningIntent, h.team, h.runId, h.recordedAt]

theorem SameProject.projectIntent : projectIntent context' = projectIntent context := by
  simp only [JiraSimulator.projectIntent, h.provisioningIntent, h.team, h.blueprint]

theorem SameProject.boardIntent (projectKey : SemanticKey) :
    boardIntent context' projectKey = boardIntent context projectKey := by
  simp only [JiraSimulator.boardIntent, h.provisioningIntent, h.team, h.blueprint]

theorem SameProject.issueIntent (boardKey : SemanticKey) {work work' : WorkItemState}
    (hwork : SameOrigin work work') :
    issueIntent context' boardKey work' = issueIntent context boardKey work := by
  simp only [JiraSimulator.issueIntent, h.provisioningIntent, h.blueprint, hwork.id,
    hwork.issueType, hwork.creationSequence]

/-- A later call composes no intent that an earlier one did not. -/
theorem SameProject.provisioningIntents :
    provisioningIntents context' ⊆ provisioningIntents context := by
  intro draft hdraft
  simp only [JiraSimulator.provisioningIntents, boardAndIssueIntents, List.mem_cons, List.mem_map,
    h.projectIntent, h.boardIntent] at hdraft ⊢
  rcases hdraft with rfl | rfl | ⟨work', hwork', rfl⟩
  · exact .inl rfl
  · exact .inr (.inl rfl)
  · obtain ⟨work, hwork, hsame⟩ := h.items work' hwork'
    exact .inr (.inr ⟨work, hwork, (h.issueIntent _ hsame).symm⟩)

end project

/-! ### The ledger of a reachable store -/

/-- The ledger holds every intent that a bootstrap call composes. -/
def HoldsProvisioning (store : TeamStore p) : Prop :=
  ∃ context, provisioningContext store.state = .ok context ∧
    provisioningIntents context ⊆ store.projection

theorem provisioningIntents_subset_initial (context : ProvisioningContext p) :
    provisioningIntents context ⊆ initialProvisioningIntents context := by
  unfold initialProvisioningIntents
  split
  · exact List.Subset.refl _
  · exact List.subset_append_left _ _

theorem Bootstrapped.holdsProvisioning {start : TeamStart} {draws : DrawSource}
    {context : BootstrapContext} {picked : List Uuid} {initial : ScrumStateWriteSet p}
    {store : TeamStore p} (h : Bootstrapped start draws context picked initial store) :
    HoldsProvisioning store := by
  obtain ⟨provisioning, hprovisioning, happend⟩ := h.provisioned
  simp only [composeInitialJiraProvisioning, provisioningCommit, bind_eq_ok,
    validated_eq_ok] at hprovisioning
  obtain ⟨composed, hcomposed, -, rfl⟩ := hprovisioning
  obtain ⟨-, -, -, hall⟩ := appendDrafts_eq_ok happend
  refine ⟨composed, hcomposed, fun draft hdraft => hall draft ?_⟩
  exact provisioningIntents_subset_initial composed hdraft

/-- A commit keeps the origins, so it keeps the intents of a bootstrap call. -/
theorem Committed.holdsProvisioning {store store' : TeamStore p} {event : TeamEvent}
    {command : AuthoritativeTickSliceCommit p} (h : Committed store command store')
    (hreach : (teamRuns p).Reachable store) (hof : CommandOf store.state event command)
    (hholds : HoldsProvisioning store) : HoldsProvisioning store' := by
  obtain ⟨context, hcontext, hsubset⟩ := hholds
  obtain ⟨hstate, hmem, hleast⟩ := provisioningContext_eq_ok.mp hcontext
  let context' : ProvisioningContext p :=
    { state := store'.state, recordedAt := context.recordedAt }
  have hcontext' : provisioningContext store'.state = .ok context' := by
    -- The least creation time is still there, and no commit makes an earlier one.
    refine provisioningContext_eq_ok.mpr ⟨rfl, ?_, fun work' hwork' => ?_⟩
    · obtain ⟨work, hwork, hcreated⟩ := List.mem_map.mp hmem
      obtain ⟨work', hwork', hsame⟩ := h.origin_of_mem hreach hof hwork
      exact List.mem_map.mpr ⟨work', hwork', hsame.createdAt.trans hcreated⟩
    · obtain ⟨work, hwork, hsame⟩ := h.origin hreach hof hwork'
      rw [hsame.createdAt]
      exact hleast work hwork
  have hsame : SameProject context context' := by
    refine ⟨?_, ?_, ?_, rfl, fun work' hwork' => ?_⟩
    · rw [hstate]
      exact h.team_eq
    · rw [hstate]
      exact h.runtime_eq.2.1
    · rw [hstate]
      exact h.blueprint_eq
    · rw [hstate]
      exact h.origin hreach hof hwork'
  obtain ⟨added, hadded, -⟩ := appendDrafts_eq_ok h.projection
  refine ⟨context', hcontext', fun draft hdraft => ?_⟩
  rw [hadded]
  exact List.mem_append_left _ (hsubset (hsame.provisioningIntents hdraft))

theorem provisioned_of_reachable {store : TeamStore p} (h : (teamRuns p).Reachable store) :
    HoldsProvisioning store := by
  refine run_induction h ?_ ?_ ?_
  · intro start draws context picked initial store _ hboot
    exact hboot.holdsProvisioning
  · intro store store' _ hholds hprovision
    obtain ⟨context, hcontext, hsubset⟩ := hholds
    obtain ⟨provisioning, -, happend⟩ := hprovision.appended
    obtain ⟨added, hadded, -⟩ := appendDrafts_eq_ok happend
    refine ⟨context, ?_, fun draft hdraft => ?_⟩
    · rw [hprovision.same]
      exact hcontext
    · rw [hadded]
      exact List.mem_append_left _ (hsubset hdraft)
  · intro store event command store' hreach hholds _ _ hof hcommitted
    exact hcommitted.holdsProvisioning hreach hof hholds

/-! ### Later bootstrap calls -/

/-- A ledger accepts the drafts that it holds. -/
theorem appendDrafts_of_known {α : Type} [DecidableEq α] {key : α → SemanticKey}
    {ledger drafts : List α} (hnodup : (ledger.map key).Nodup) (hsubset : drafts ⊆ ledger) :
    appendDrafts key ledger drafts = .ok ledger := by
  induction drafts with
  | nil => rfl
  | cons draft drafts ih =>
    obtain ⟨hdraft, hdrafts⟩ := List.cons_subset.mp hsubset
    have hlookup : Keyed.lookup key ledger (key draft) = some draft :=
      (Keyed.lookup_eq_some key hnodup).mpr ⟨hdraft, rfl⟩
    have hfirst : appendDraft key ledger draft = .ok ledger := by
      simp only [appendDraft, hlookup, if_true]
    rw [appendDrafts, List.foldlM_cons, hfirst, ok_bind]
    exact ih hdrafts

/-- The slice of a bootstrap call holds its intents and nothing else. -/
theorem composeJiraProvisioning_of_consistent {state : LiveTeamState p}
    {context : ProvisioningContext p} (hcontext : provisioningContext state = .ok context)
    (hstate : isNonEmptyText state.aggregate.runtime.state)
    (hconsistent : (provisioningIntents context).Pairwise fun a b =>
      a.semanticKey = b.semanticKey → a = b) :
    ∃ slice, composeJiraProvisioning state = .ok slice ∧ slice.validate = .ok () ∧
      slice.activity = [] ∧ slice.groundTruth = [] ∧
      slice.projectionIntents = provisioningIntents context := by
  obtain ⟨hsame, -, -⟩ := provisioningContext_eq_ok.mp hcontext
  simp only [composeJiraProvisioning, hcontext, ok_bind, provisioningCommit, validated_eq_ok]
  refine ⟨_, ⟨?hvalid, rfl⟩, ?hvalid, rfl, rfl, rfl⟩
  simp only [TickSliceCommit.validate, validateDraftTuple, bind_eq_ok, exists_unit, require_eq_ok]
  exact ⟨hsame ▸ hstate, List.Pairwise.nil, List.Pairwise.nil, hconsistent⟩

/-- A bootstrap call on a team that was bootstrapped before succeeds and changes nothing. -/
theorem bootstrap_idempotent {store : TeamStore p} (h : (teamRuns p).Reachable store)
    (startedAt : ℤ) : ensureBootstrapped store startedAt = .ok store := by
  have hbased := Based.of_reachable h
  have hkeys := (projection_grounded h).keys
  obtain ⟨context, hcontext, hsubset⟩ := provisioned_of_reachable h
  have hrunning : store.state.aggregate.runtime.state = "RUNNING" := hbased.running
  have hconsistent : (provisioningIntents context).Pairwise fun a b =>
      a.semanticKey = b.semanticKey → a = b := by
    refine List.Pairwise.imp_mem.mpr (List.pairwise_of_forall fun a b ha hb hkey => ?_)
    exact List.inj_on_of_nodup_map hkeys (hsubset ha) (hsubset hb) hkey
  obtain ⟨slice, hslice, hvalid, hactivity, hgroundTruth, hintents⟩ :=
    composeJiraProvisioning_of_consistent hcontext (by rw [hrunning]; decide) hconsistent
  have hcreated : store.state.aggregate.runtime.state ≠ "CREATED" := by
    rw [hrunning]
    decide
  have happend := appendDrafts_of_known hkeys hsubset
  simp only [ensureBootstrapped, hbased.loaded.load, ok_bind, if_pos hcreated, hslice,
    appendProjectionIntents, hvalid]
  rw [require, check_of ⟨hactivity, hgroundTruth⟩, ok_bind, hintents, happend]
  rfl

/-- The small team is bootstrapped again, with an earlier time, after two ticks. -/
theorem bootstrap_idempotent_smallTeam :
    ∃ store, runTeam utcPlatform (startAfter rejectingBlueprint 0)
        (List.replicate 2 (tickUntil utcPlatform rejectingBlueprint 4)) = .ok store ∧
      store.projection.length = 9 ∧ ensureBootstrapped store 0 = .ok store := by
  have hplayed : (runTeam utcPlatform (startAfter rejectingBlueprint 0)
      (List.replicate 2 (tickUntil utcPlatform rejectingBlueprint 4))).toOption.any (fun store =>
        store.projection.length = 9) = true := by
    decide +kernel
  obtain ⟨store, hrun, hlength⟩ := exists_of_any hplayed
  exact ⟨store, hrun, of_decide_eq_true hlength,
    bootstrap_idempotent (reachable_of_runTeam hrun) 0⟩

end JiraSimulator
