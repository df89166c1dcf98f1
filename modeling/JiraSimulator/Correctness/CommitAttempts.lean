import JiraSimulator.Correctness.Counters
import JiraSimulator.Correctness.Scripts
import JiraSimulator.Persistence.CommitAttempts

/-!
# Coordinates under attempts to commit

A commit rewrites rows, advances counters and adds evaluations in separate steps.  Together they
keep the counters past every allocated coordinate: a new row must lie in a claimed range, and every
claim leaves its counter past its range, whether it advances the counter or was applied before.
* `commitTransaction_of_ok`, `commitTransaction_of_error`: the statements of a session make the
  store that the commit returns, or are rolled back.
* `CoordinatesCounted`: every persisted coordinate is below its counter.
* `IdentitiesKept`: what no commit changes about a persisted row.
* `coordinates_never_reissued`: both, for all attempts after the bootstrap.
-/

namespace JiraSimulator

open Library Library.Outcome Library.Transition ScrumCollections

variable {p : Platform}

/-! ### Attempts -/

/-- The statements of a session make the store that the commit returns. -/
theorem commitStatements_eq (store : TeamStore p) (command : AuthoritativeTickSliceCommit p) :
    CommitSession.closing <$> (commitStatements command).foldlM
      (fun session statement => statement session) (CommitSession.opening store) =
        commitAuthoritativeSlice store command := by
  simp only [commitStatements, CommitSession.opening, List.foldlM_cons, List.foldlM_nil,
    bind_assoc, pure_bind, map_bind, map_pure, commitAuthoritativeSlice, commitRows]
  rfl

theorem commitTransaction_of_ok {store store' : TeamStore p}
    {command : AuthoritativeTickSliceCommit p}
    (h : commitAuthoritativeSlice store command = .ok store') :
    commitTransaction store command = (store', none) := by
  rw [← commitStatements_eq, map_eq_ok] at h
  obtain ⟨session, hsession, rfl⟩ := h
  exact Session.transact_of_ok hsession

/-- A transaction that fails anywhere leaves the store as it was. -/
theorem commitTransaction_of_error {store : TeamStore p} {command : AuthoritativeTickSliceCommit p}
    {error : PyError} (h : commitAuthoritativeSlice store command = .error error) :
    commitTransaction store command = (store, some error) := by
  rw [← commitStatements_eq] at h
  cases hfold : (commitStatements command).foldlM (fun session statement => statement session)
      (CommitSession.opening store) with
  | ok session =>
    rw [hfold] at h
    cases h
  | error other =>
    rw [hfold] at h
    cases h
    exact Session.transact_of_error hfold

theorem TeamStore.attempt_of_ok {store store' : TeamStore p}
    {command : AuthoritativeTickSliceCommit p}
    (h : commitAuthoritativeSlice store command = .ok store') : store.attempt command = store' := by
  rw [TeamStore.attempt, commitTransaction_of_ok h]

theorem TeamStore.attempt_of_error {store : TeamStore p} {command : AuthoritativeTickSliceCommit p}
    {error : PyError} (h : commitAuthoritativeSlice store command = .error error) :
    store.attempt command = store := by
  rw [TeamStore.attempt, commitTransaction_of_error h]

/-- An attempt commits or leaves the store as it was. -/
theorem TeamStore.attempt_cases (store : TeamStore p) (command : AuthoritativeTickSliceCommit p) :
    store.attempt command = store ∨
      commitAuthoritativeSlice store command = .ok (store.attempt command) := by
  cases hcommit : commitAuthoritativeSlice store command with
  | ok store' => exact .inr (by rw [TeamStore.attempt_of_ok hcommit])
  | error error => exact .inl (TeamStore.attempt_of_error hcommit)

/-! ### Evaluations -/

/-- A resolved claim finds its evaluation or adds it. -/
theorem resolveNaturalClaim_eq_ok {slice : TickSliceCommit}
    {evaluations evaluations' : List NaturalDecisionEvaluation}
    {claim : EligibleNaturalDecisionClaim}
    (h : resolveNaturalClaim slice evaluations claim = .ok evaluations') :
    (evaluations' = evaluations ∧ (eligibilityRow evaluations claim).isSome) ∨
      (evaluations' = evaluations ++ [evaluationFromClaim slice claim] ∧
        eligibilityRow evaluations claim = none) := by
  unfold resolveNaturalClaim at h
  cases hrow : eligibilityRow evaluations claim with
  | some row =>
    simp only [hrow, bind_eq_ok, exists_unit, pure_eq_ok] at h
    exact .inl ⟨h.2.symm, rfl⟩
  | none =>
    simp only [hrow] at h
    split_ifs at h
    simp only [bind_eq_ok, validated_eq_ok, pure_eq_ok] at h
    obtain ⟨row, ⟨-, rfl⟩, rfl⟩ := h
    exact .inr ⟨rfl, rfl⟩

/-- The claims keep the evaluations and add some of their own. -/
theorem resolveNaturalClaims_eq_ok {commit : AuthoritativeTickSliceCommit p}
    {evaluations evaluations' : List NaturalDecisionEvaluation}
    (h : resolveNaturalClaims commit evaluations = .ok evaluations') :
    evaluations ⊆ evaluations' ∧ ∀ evaluation ∈ evaluations', evaluation ∈ evaluations ∨
      ∃ claim ∈ commit.naturalDecisionClaims,
        evaluation = evaluationFromClaim commit.liveSlice claim := by
  refine foldlM_induction
    (motive := fun reached => evaluations ⊆ reached ∧ ∀ evaluation ∈ reached,
      evaluation ∈ evaluations ∨ ∃ claim ∈ commit.naturalDecisionClaims,
        evaluation = evaluationFromClaim commit.liveSlice claim) h ?_ ?_
  · exact ⟨List.Subset.refl _, fun evaluation hmem => .inl hmem⟩
  · intro reached claim reached' hclaim ⟨hkept, hsource⟩ hstep
    rcases resolveNaturalClaim_eq_ok hstep with ⟨rfl, -⟩ | ⟨rfl, -⟩
    · exact ⟨hkept, hsource⟩
    · refine ⟨fun evaluation hmem => List.mem_append_left _ (hkept hmem), fun evaluation hmem => ?_⟩
      rcases List.mem_append.mp hmem with hmem | hmem
      · exact hsource evaluation hmem
      · exact .inr ⟨claim, Ordering.mem_sortOn.mp hclaim, List.mem_singleton.mp hmem⟩

section steps

variable {store store' : TeamStore p} {command : AuthoritativeTickSliceCommit p}
  {images : ScrumCollections} {counters : List SemanticCounter}
  {evaluations : List NaturalDecisionEvaluation}
  (h : CommitSteps store command store' images counters evaluations)

include h

/-- The after-images leave the evaluations alone. -/
theorem CommitSteps.mem_images_evaluations {evaluation : NaturalDecisionEvaluation} :
    evaluation ∈ images.naturalDecisionEvaluations ↔
      evaluation ∈ store.scrum.naturalDecisionEvaluations := by
  have himages := h.images_eq
  unfold applyAfterImages at himages
  simp only at himages
  split_ifs at himages with hempty
  · rw [pure_eq_ok] at himages
    rw [← himages]
  · simp only [bind_eq_ok, exists_unit, pure_eq_ok] at himages
    obtain ⟨candidate, hcandidate, -, -, rfl⟩ := himages
    show evaluation ∈ candidate.naturalDecisionEvaluations ↔ _
    rw [(loadSnapshot_eq_ok.mp hcandidate).1, Collection.evaluations.mem_sorted,
      Collection.evaluations.rows_updateWith_of_nil store.scrum.complete.toConsistent
        h.claimsOnly.2]

/-- The evaluations of the next store: the old ones, and some of the claims. -/
theorem CommitSteps.evaluations_kept : store.scrum.naturalDecisionEvaluations ⊆
    store'.scrum.naturalDecisionEvaluations := by
  intro evaluation hmem
  have hkept := (resolveNaturalClaims_eq_ok h.evaluations_eq).1
  rw [h.scrum_sorted, Collection.evaluations.mem_sorted]
  exact hkept (h.mem_images_evaluations.mpr hmem)

theorem CommitSteps.evaluation_source {evaluation : NaturalDecisionEvaluation}
    (hmem : evaluation ∈ store'.scrum.naturalDecisionEvaluations) :
    evaluation ∈ store.scrum.naturalDecisionEvaluations ∨
      ∃ claim ∈ command.naturalDecisionClaims,
        evaluation = evaluationFromClaim command.liveSlice claim := by
  rw [h.scrum_sorted, Collection.evaluations.mem_sorted] at hmem
  exact ((resolveNaturalClaims_eq_ok h.evaluations_eq).2 evaluation hmem).imp_left
    h.mem_images_evaluations.mp

/-- A natural decision comes with a claim on its counter. -/
theorem CommitSteps.natural_claim {eligible : EligibleNaturalDecisionClaim}
    (heligible : eligible ∈ command.naturalDecisionClaims) :
    ∃ claim ∈ command.counterClaims, claim.scope = eligible.scope ∧ claim.count = 1 ∧
      eligible.decision.occurrence = claim.expectedNext := by
  have hvalid := h.valid
  simp only [AuthoritativeTickSliceCommit.validate, validateClaimBindings, bind_eq_ok, exists_unit,
    forM_eq_ok] at hvalid
  obtain ⟨-, -, -, -, -, -, -, -, hbindings, -⟩ := hvalid
  have hbinding := hbindings eligible heligible
  unfold validateNaturalBinding at hbinding
  cases hfind : command.counterClaims.find? fun claim => claim.scope = eligible.scope with
  | none => simp [hfind] at hbinding
  | some claim =>
    simp only [hfind, bind_eq_ok, exists_unit, require_eq_ok] at hbinding
    refine ⟨claim, List.mem_of_find?_eq_some hfind, ?_, hbinding⟩
    simpa using List.find?_some hfind

/-- The rows that exist keep the immutable fields. -/
theorem CommitSteps.immutable : requireImmutableRows store.scrum.toScrumCollections
    command.state.toScrumCollections = .ok () := by
  have himages := h.images_eq
  unfold applyAfterImages at himages
  simp only at himages
  split_ifs at himages with hempty
  · rw [hempty]
    simp [requireImmutableRows, requireImmutable, newRows]
  · simp only [bind_eq_ok, exists_unit] at himages
    obtain ⟨candidate, -, himmutable, -⟩ := himages
    exact himmutable

end steps

/-! ### Coordinates -/

/-- Every coordinate that was allocated is below its counter. -/
structure CoordinatesCounted (c : ScrumCollections) : Prop where
  visits : ∀ visit ∈ c.statusVisits, ∃ value,
    counterAt c.semanticCounters (.visitOrdinal visit.workItemId) = some value ∧
      visit.ordinal < value
  sprints : ∀ sprint ∈ c.sprints, ∃ value,
    counterAt c.semanticCounters (.sprintOrdinal sprint.teamId) = some value ∧
      sprint.ordinal < value
  evaluations : ∀ evaluation ∈ c.naturalDecisionEvaluations, ∃ value,
    counterAt c.semanticCounters
        (.naturalDecision evaluation.semanticEntityId evaluation.decisionType) = some value ∧
      evaluation.occurrence < value

theorem Bootstrapped.coordinatesCounted {start : TeamStart} {draws : DrawSource}
    {context : BootstrapContext} {picked : List Uuid} {initial : ScrumStateWriteSet p}
    {store : TeamStore p} (h : Bootstrapped start draws context picked initial store) :
    CoordinatesCounted store.scrum.toScrumCollections where
  visits := h.ordinalsCounted
  sprints := h.sprintsCounted
  evaluations evaluation hmem := by
    rw [h.mem_rows Collection.evaluations] at hmem
    change evaluation ∈ initial.naturalDecisionEvaluations at hmem
    rw [h.initialRows.evaluations] at hmem
    cases hmem

/-- A commit keeps the counters past every coordinate. -/
theorem CommitSteps.coordinatesCounted {store store' : TeamStore p}
    {command : AuthoritativeTickSliceCommit p} {images : ScrumCollections}
    {counters : List SemanticCounter} {evaluations : List NaturalDecisionEvaluation}
    (h : CommitSteps store command store' images counters evaluations)
    (hcommitted : Committed store command store')
    (hcounted : CoordinatesCounted store.scrum.toScrumCollections) :
    CoordinatesCounted store'.scrum.toScrumCollections where
  visits := hcommitted.ordinalsCounted hcounted.visits
  sprints := hcommitted.sprintsCounted hcounted.sprints
  evaluations evaluation hmem := by
    rcases h.evaluation_source hmem with hold | ⟨eligible, heligible, rfl⟩
    · obtain ⟨value, hvalue, hlt⟩ := hcounted.evaluations evaluation hold
      obtain ⟨value', hvalue', hle, -⟩ := hcommitted.counters _ value hvalue
      exact ⟨value', hvalue', by omega⟩
    · obtain ⟨claim, hclaim, hscope, hcount, hoccurrence⟩ := h.natural_claim heligible
      obtain ⟨value, hvalue, hle⟩ := h.claimed hclaim
      rw [hscope] at hvalue
      refine ⟨value, hvalue, ?_⟩
      show eligible.decision.occurrence < value
      omega

/-! ### Immutable fields -/

section keeps

variable {α β κ : Type}

/-- Every row is still there, with the same key and the same fields. -/
def Keeps (key : α → κ) (fields : α → β) (rows rows' : List α) : Prop :=
  ∀ row ∈ rows, ∃ row' ∈ rows', key row' = key row ∧ fields row' = fields row

theorem Keeps.refl {key : α → κ} {fields : α → β} {rows : List α} : Keeps key fields rows rows :=
  fun row hrow => ⟨row, hrow, rfl, rfl⟩

theorem Keeps.trans {key : α → κ} {fields : α → β} {first second third : List α}
    (h : Keeps key fields first second) (h' : Keeps key fields second third) :
    Keeps key fields first third := by
  intro row hrow
  obtain ⟨middle, hmiddle, hkey, hfields⟩ := h row hrow
  obtain ⟨last, hlast, hkey', hfields'⟩ := h' middle hmiddle
  exact ⟨last, hlast, hkey'.trans hkey, hfields'.trans hfields⟩

variable [DecidableEq κ] [DecidableEq β]

/-- The check of the immutable fields keeps them in every row. -/
theorem Committed.keeps {store store' : TeamStore p} {command : AuthoritativeTickSliceCommit p}
    (h : Committed store command store') (col : Collection α κ) (hcol : AfterImage col)
    {fields : α → β} (hfields : requireImmutable col.key fields
      (col.rows store.scrum.toScrumCollections) (col.rows command.state.toScrumCollections) =
        .ok ()) :
    Keeps col.key fields (col.rows store.scrum.toScrumCollections)
      (col.rows store'.scrum.toScrumCollections) := by
  intro row hrow
  by_cases hwritten : col.key row ∈ (col.rows command.state.toScrumCollections).map col.key
  · obtain ⟨change, hchange, hkey⟩ := List.mem_map.mp hwritten
    refine ⟨change, (h.mem_rows col hcol).mpr (.inl hchange), hkey, ?_⟩
    have hlookup : Keyed.lookup col.key (col.rows store.scrum.toScrumCollections)
        (col.key change) = some row :=
      (Keyed.lookup_eq_some _ (col.nodup store.scrum.complete.toConsistent)).mpr
        ⟨hrow, hkey.symm⟩
    simp only [requireImmutable, forM_eq_ok, Option.mem_toList, check_eq_ok] at hfields
    exact (hfields change hchange row hlookup).symm
  · exact ⟨row, (h.mem_rows col hcol).mpr (.inr ⟨hrow, hwritten⟩), rfl, rfl⟩

end keeps

/-- What no commit changes: the immutable fields of the rows, and the evaluations; a counter only
grows. -/
structure IdentitiesKept (c c' : ScrumCollections) : Prop where
  memberIdentities : Keeps (·.id) id c.memberIdentities c'.memberIdentities
  memberAvailabilityOverlays : Keeps (·.id) (fun row => (row.teamId, row.runId, row.memberId))
    c.memberAvailabilityOverlays c'.memberAvailabilityOverlays
  memberBusinessDateConsumption : Keeps (·.key) (fun row => (row.teamId, row.runId))
    c.memberBusinessDateConsumption c'.memberBusinessDateConsumption
  workItems : Keeps (·.id)
    (fun row => (row.teamId, row.runId, row.creationKind, row.creationSequence, row.createdAt))
    c.workItems c'.workItems
  workItemFactors : Keeps (·.id) id c.workItemFactors c'.workItemFactors
  sprints : Keeps (·.id)
    (fun row => ((row.teamId, row.runId, row.ordinal),
      (row.plannedStartAt, row.plannedEndAt, row.createdAt)))
    c.sprints c'.sprints
  sprintScope : Keeps (·.id)
    (fun row => (row.teamId, row.runId, row.sprintId, row.workItemId, row.addedAt))
    c.sprintScope c'.sprintScope
  statusVisits : Keeps (·.id)
    (fun row => ((row.teamId, row.runId, row.workItemId, row.ordinal),
      (row.statusKey, row.activityKey, row.enteredAt)))
    c.statusVisits c'.statusVisits
  statusVisitSamples : Keeps (·.visitId) id c.statusVisitSamples c'.statusVisitSamples
  naturalDecisionEvaluations : c.naturalDecisionEvaluations ⊆ c'.naturalDecisionEvaluations
  semanticCounters : ∀ scope value, counterAt c.semanticCounters scope = some value →
    ∃ value', counterAt c'.semanticCounters scope = some value' ∧ value ≤ value'

theorem IdentitiesKept.refl (c : ScrumCollections) : IdentitiesKept c c where
  memberIdentities := .refl
  memberAvailabilityOverlays := .refl
  memberBusinessDateConsumption := .refl
  workItems := .refl
  workItemFactors := .refl
  sprints := .refl
  sprintScope := .refl
  statusVisits := .refl
  statusVisitSamples := .refl
  naturalDecisionEvaluations := List.Subset.refl _
  semanticCounters _ value hvalue := ⟨value, hvalue, le_rfl⟩

theorem IdentitiesKept.trans {first second third : ScrumCollections}
    (h : IdentitiesKept first second) (h' : IdentitiesKept second third) :
    IdentitiesKept first third where
  memberIdentities := h.memberIdentities.trans h'.memberIdentities
  memberAvailabilityOverlays := h.memberAvailabilityOverlays.trans h'.memberAvailabilityOverlays
  memberBusinessDateConsumption :=
    h.memberBusinessDateConsumption.trans h'.memberBusinessDateConsumption
  workItems := h.workItems.trans h'.workItems
  workItemFactors := h.workItemFactors.trans h'.workItemFactors
  sprints := h.sprints.trans h'.sprints
  sprintScope := h.sprintScope.trans h'.sprintScope
  statusVisits := h.statusVisits.trans h'.statusVisits
  statusVisitSamples := h.statusVisitSamples.trans h'.statusVisitSamples
  naturalDecisionEvaluations :=
    List.Subset.trans h.naturalDecisionEvaluations h'.naturalDecisionEvaluations
  semanticCounters scope value hvalue := by
    obtain ⟨middle, hmiddle, hle⟩ := h.semanticCounters scope value hvalue
    obtain ⟨last, hlast, hle'⟩ := h'.semanticCounters scope middle hmiddle
    exact ⟨last, hlast, hle.trans hle'⟩

theorem commit_identitiesKept {store store' : TeamStore p}
    {command : AuthoritativeTickSliceCommit p}
    (h : commitAuthoritativeSlice store command = .ok store') :
    IdentitiesKept store.scrum.toScrumCollections store'.scrum.toScrumCollections := by
  have hcommitted := commit_eq_ok h
  obtain ⟨images, counters, evaluations, hsteps⟩ := commit_steps h
  -- the commit checks the fields of every collection
  have himmutable := hsteps.immutable
  simp only [requireImmutableRows, bind_eq_ok, exists_unit] at himmutable
  obtain ⟨-, hmembers, hoverlays, hconsumption, hitems, hfactors, hsprints, hscope, hvisits,
    hsamples⟩ := himmutable
  exact {
    memberIdentities :=
      hcommitted.keeps Collection.memberIdentities (fun _ _ _ => rfl) hmembers
    memberAvailabilityOverlays :=
      hcommitted.keeps Collection.overlays (fun _ _ _ => rfl) hoverlays
    memberBusinessDateConsumption :=
      hcommitted.keeps Collection.consumption (fun _ _ _ => rfl) hconsumption
    workItems := hcommitted.keeps Collection.workItems (fun _ _ _ => rfl) hitems
    workItemFactors := hcommitted.keeps Collection.factors (fun _ _ _ => rfl) hfactors
    sprints := hcommitted.keeps Collection.sprints (fun _ _ _ => rfl) hsprints
    sprintScope := hcommitted.keeps Collection.sprintScope (fun _ _ _ => rfl) hscope
    statusVisits := hcommitted.keeps Collection.statusVisits (fun _ _ _ => rfl) hvisits
    statusVisitSamples := hcommitted.keeps Collection.samples (fun _ _ _ => rfl) hsamples
    naturalDecisionEvaluations := hsteps.evaluations_kept
    semanticCounters := fun scope value hvalue => by
      obtain ⟨value', hvalue', hle, -⟩ := hcommitted.counters scope value hvalue
      exact ⟨value', hvalue', hle⟩ }

/-! ### Runs of attempts -/

theorem coordinatesCounted_of_attempts {store : TeamStore p} (h : (attemptRuns p).Reachable store) :
    CoordinatesCounted store.scrum.toScrumCollections := by
  refine System.Reachable.invariant
    (I := fun store => CoordinatesCounted store.scrum.toScrumCollections) h ?_ ?_
  · intro start store hstart
    obtain ⟨draws, context, picked, initial, hboot⟩ := bootstrap_eq_ok hstart
    exact hboot.coordinatesCounted
  · rintro store command _ - hcounted rfl
    rcases store.attempt_cases command with hsame | hcommit
    · rw [hsame]
      exact hcounted
    · obtain ⟨images, counters, evaluations, hsteps⟩ := commit_steps hcommit
      exact hsteps.coordinatesCounted (commit_eq_ok hcommit) hcounted

/-- What holds of the store and of every commit from there on holds of every later store. -/
theorem attempts_induction {I : TeamStore p → Prop} {store later : TeamStore p}
    (h : (attemptRuns p).ReachesBy (fun _ _ => True) store later) (init : I store)
    (commit : ∀ store command store', I store →
      commitAuthoritativeSlice store command = .ok store' → I store') : I later := by
  induction h with
  | refl => exact init
  | @tail middle last _ hstep ih =>
    obtain ⟨command, -, rfl⟩ := hstep
    rcases TeamStore.attempt_cases middle command with hsame | hcommit
    · rw [hsame]
      exact ih
    · exact commit middle command _ ih hcommit

/-- The store before the first tick of a team is one of its runs. -/
theorem attempts_reachable_of_firstTick {blueprint : ResolvedTeamBlueprint} {store : TeamStore p}
    {command : AuthoritativeTickSliceCommit p}
    (h : firstTick p blueprint = .ok (store, command)) : (attemptRuns p).Reachable store := by
  simp only [firstTick, commandOfTick, runTeam, List.foldlM_nil, bind_eq_ok, pure_eq_ok,
    Prod.mk.injEq] at h
  obtain ⟨first, ⟨booted, hboot, rfl⟩, command, -, rfl, -⟩ := h
  exact .start hboot trivial

/-- Every coordinate stays below its counter, counters never go back, and the immutable fields of a
row never change, whatever commands are submitted after the bootstrap. -/
theorem coordinates_never_reissued {store later : TeamStore p}
    (h : (attemptRuns p).Reachable store)
    (hlater : (attemptRuns p).ReachesBy (fun _ _ => True) store later) :
    CoordinatesCounted store.scrum.toScrumCollections ∧
      IdentitiesKept store.scrum.toScrumCollections later.scrum.toScrumCollections := by
  refine ⟨coordinatesCounted_of_attempts h, ?_⟩
  refine attempts_induction
    (I := fun reached => IdentitiesKept store.scrum.toScrumCollections
      reached.scrum.toScrumCollections) hlater (.refl _) ?_
  intro reached command next hkept hcommit
  exact hkept.trans (commit_identitiesKept hcommit)

/-- The first tick of the small team commits once; its second attempt is stale. -/
theorem coordinates_never_reissued_smallTeam :
    ∃ store command, firstTick utcPlatform rejectingBlueprint = .ok (store, command) ∧
      command.counterClaims ≠ [] ∧
      commitAuthoritativeSlice store command = .ok (store.attempt command) ∧
      succeeds (commitAuthoritativeSlice (store.attempt command) command) = false ∧
      CoordinatesCounted store.scrum.toScrumCollections ∧
      IdentitiesKept store.scrum.toScrumCollections
        ((store.attempt command).attempt command).scrum.toScrumCollections := by
  -- the tick allocates, and a second attempt of its command is stale
  have hplayed : (firstTick utcPlatform rejectingBlueprint).toOption.any (fun played =>
      played.2.counterClaims ≠ [] && succeeds (commitAuthoritativeSlice played.1 played.2) &&
        !succeeds (commitAuthoritativeSlice (played.1.attempt played.2) played.2)) = true := by
    decide +kernel
  obtain ⟨⟨store, command⟩, htick, hplayed⟩ := exists_of_any hplayed
  simp only [Bool.and_eq_true, decide_eq_true_eq, Bool.not_eq_true'] at hplayed
  obtain ⟨⟨hclaims, hsucceeds⟩, hstale⟩ := hplayed
  have hreach := attempts_reachable_of_firstTick htick
  have hlater : (attemptRuns utcPlatform).ReachesBy (fun _ _ => True) store
      ((store.attempt command).attempt command) :=
    .tail (.tail .refl ⟨command, trivial, rfl⟩) ⟨command, trivial, rfl⟩
  obtain ⟨hcounted, hkept⟩ := coordinates_never_reissued hreach hlater
  obtain ⟨next, hnext⟩ := exists_of_succeeds _ hsucceeds
  refine ⟨store, command, htick, hclaims, ?_, hstale, hcounted, hkept⟩
  rw [TeamStore.attempt_of_ok hnext, hnext]

end JiraSimulator
