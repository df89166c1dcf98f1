import JiraSimulator.Correctness.CommitAttempts

/-!
# Replays of a committed command

A command that allocates a coordinate has a claim which its commit leaves applied, and counters
never go back.  So the preflight of every later attempt sees the claim as applied, and lets the
attempt through only when every row, evaluation and draft of the command is already there.  Such an
attempt writes what the store holds.
* `preflight_eq_ok`: what the preflight of a replay has checked.
* `Replayed.rows_eq`, `Replayed.counters_eq`, `Replayed.evaluations_eq`: its steps change nothing.
* `replay_changes_nothing`: the result for every replay after any later attempts.
-/

namespace JiraSimulator

open Library Library.Outcome Library.Transition ScrumCollections

variable {p : Platform}

/-! ### The preflight -/

/-- Everything that a command writes is already in the store. -/
structure Replayed (store : TeamStore p) (command : AuthoritativeTickSliceCommit p) : Prop where
  advanced : ∀ claim ∈ command.counterClaims, claim.scope.isNatural = false →
    claimIsAdvanced store.scrum.semanticCounters claim = true
  memberIdentities : command.state.memberIdentities ⊆ store.scrum.memberIdentities
  overlays : command.state.memberAvailabilityOverlays ⊆ store.scrum.memberAvailabilityOverlays
  consumption : command.state.memberBusinessDateConsumption ⊆
    store.scrum.memberBusinessDateConsumption
  workItems : command.state.workItems ⊆ store.scrum.workItems
  factors : command.state.workItemFactors ⊆ store.scrum.workItemFactors
  sprints : command.state.sprints ⊆ store.scrum.sprints
  sprintScope : command.state.sprintScope ⊆ store.scrum.sprintScope
  statusVisits : command.state.statusVisits ⊆ store.scrum.statusVisits
  samples : command.state.statusVisitSamples ⊆ store.scrum.statusVisitSamples
  evaluated : ∀ claim ∈ command.naturalDecisionClaims,
    (eligibilityRow store.scrum.naturalDecisionEvaluations claim).isSome
  activity : command.liveSlice.activity ⊆ store.activity
  groundTruth : command.liveSlice.groundTruth ⊆ store.groundTruth
  projection : command.liveSlice.projectionIntents ⊆ store.projection

/-- The preflight lets an applied claim through only in a command that is replayed as a whole. -/
theorem preflight_eq_ok {store : TeamStore p} {command : AuthoritativeTickSliceCommit p}
    (h : preflightReplay store command = .ok ()) {claim : SemanticCounterClaim}
    (hclaim : claim ∈ command.counterClaims) (hallocation : claim.scope.isNatural = false)
    (hadvanced : claimIsAdvanced store.scrum.semanticCounters claim = true) :
    Replayed store command := by
  have hany : (command.counterClaims.filter fun claim => !claim.scope.isNatural).any
      (claimIsAdvanced store.scrum.semanticCounters) = true := by
    refine List.any_eq_true.mpr ⟨claim, List.mem_filter.mpr ⟨hclaim, ?_⟩, hadvanced⟩
    rw [hallocation]
    rfl
  unfold preflightReplay at h
  simp only [hany, if_true, requireReplayedAfterImages, bind_eq_ok, exists_unit, check_eq_ok,
    forM_eq_ok, List.all_eq_true] at h
  obtain ⟨hall, ⟨hmembers, hoverlays, hconsumption, hitems, hfactors, hsprints, hscope, hvisits,
    hsamples⟩, hnatural, hactivity, hgroundTruth, hprojection⟩ := h
  refine ⟨fun other hother hnot => ?_, hmembers, hoverlays, hconsumption, hitems, hfactors,
    hsprints, hscope, hvisits, hsamples, fun other hother => (hnatural other hother).1, hactivity,
    hgroundTruth, hprojection⟩
  refine hall other (List.mem_filter.mpr ⟨hother, ?_⟩)
  rw [hnot]
  rfl

/-! ### The steps of a replay -/

/-- A claim on a decision that was evaluated on its date leaves the counters as they are. -/
theorem applyCounterClaim_of_evaluated {evaluations : List NaturalDecisionEvaluation}
    {natural : List EligibleNaturalDecisionClaim} {newScopes : List SemanticCounterScope}
    {counters counters' : List SemanticCounter} {claim : SemanticCounterClaim}
    (h : applyCounterClaim evaluations natural newScopes counters claim = .ok counters')
    (hnatural : claim.scope.isNatural = true)
    (hevaluated : ∀ eligible ∈ natural, (eligibilityRow evaluations eligible).isSome) :
    counters' = counters := by
  simp only [applyCounterClaim, bind_eq_ok] at h
  obtain ⟨replayed, hreplayed, h⟩ := h
  have htrue : replayed = true := by
    simp only [naturalReplay, hnatural, if_true, bind_eq_ok, pure_eq_ok] at hreplayed
    obtain ⟨eligible, hnext, rfl⟩ := hreplayed
    exact hevaluated eligible (List.mem_of_find?_eq_some (next_eq_ok.mp hnext))
  simp only [htrue, if_true, bind_eq_ok, exists_unit, pure_eq_ok] at h
  exact h.2.symm

/-- A claim whose range was passed leaves the counters as they are. -/
theorem applyCounterClaim_of_advanced {evaluations : List NaturalDecisionEvaluation}
    {natural : List EligibleNaturalDecisionClaim} {newScopes : List SemanticCounterScope}
    {counters counters' : List SemanticCounter} {claim : SemanticCounterClaim}
    (h : applyCounterClaim evaluations natural newScopes counters claim = .ok counters')
    (hcount : claim.count ≠ 0) (hadvanced : claimIsAdvanced counters claim = true) :
    counters' = counters := by
  rcases applyCounterClaim_eq_ok h with ⟨hsame, -⟩ | ⟨counter, hlookup, hnext, -⟩
  · exact hsame
  · obtain ⟨value, hvalue, hle⟩ := claimIsAdvanced_iff.mp hadvanced
    rw [counterAt, hlookup, Option.map_some, Option.some.injEq] at hvalue
    omega

section replayed

variable {store store' : TeamStore p} {command : AuthoritativeTickSliceCommit p}
  {images : ScrumCollections} {counters : List SemanticCounter}
  {evaluations : List NaturalDecisionEvaluation} (h : Replayed store command)
  (hsteps : CommitSteps store command store' images counters evaluations) (hloaded : store.Loaded)

include h hsteps

/-- The update by a replayed write set is the present state. -/
theorem Replayed.updateWith_eq : store.scrum.updateWith command.state.toScrumCollections =
    store.scrum.toScrumCollections := by
  have hc := store.scrum.complete.toConsistent
  obtain ⟨hcounters, hevaluations⟩ := hsteps.claimsOnly
  exact ScrumCollections.ext
    (Collection.memberIdentities.rows_updateWith_of_subset hc h.memberIdentities)
    (Collection.overlays.rows_updateWith_of_subset hc h.overlays)
    (Collection.consumption.rows_updateWith_of_subset hc h.consumption)
    (Collection.workItems.rows_updateWith_of_subset hc h.workItems)
    (Collection.factors.rows_updateWith_of_subset hc h.factors)
    (Collection.sprints.rows_updateWith_of_subset hc h.sprints)
    (Collection.sprintScope.rows_updateWith_of_subset hc h.sprintScope)
    (Collection.statusVisits.rows_updateWith_of_subset hc h.statusVisits)
    (Collection.samples.rows_updateWith_of_subset hc h.samples)
    (Collection.counters.rows_updateWith_of_nil hc hcounters)
    (Collection.evaluations.rows_updateWith_of_nil hc hevaluations)

include hloaded

/-- The after-images of a replay are the present rows, without a new counter. -/
theorem Replayed.rows_eq : images = store.scrum.toScrumCollections := by
  have himages := hsteps.images_eq
  unfold applyAfterImages at himages
  simp only at himages
  split_ifs at himages with hempty
  · rw [pure_eq_ok] at himages
    exact himages.symm
  · simp only [bind_eq_ok, exists_unit, pure_eq_ok] at himages
    obtain ⟨candidate, hcandidate, -, -, rfl⟩ := himages
    have hcandidate : candidate.toScrumCollections = store.scrum.toScrumCollections := by
      rw [(loadSnapshot_eq_ok.mp hcandidate).1, h.updateWith_eq hsteps, hloaded.sorted]
    have hnone : newRows (·.id) store.scrum.workItems command.state.workItems = [] := by
      refine List.filter_eq_nil_iff.mpr fun item hitem => ?_
      simpa using List.mem_map_of_mem (f := fun row : WorkItemState => row.id) (h.workItems hitem)
    rw [hnone, hcandidate, ownerCounters, List.flatMap_nil, List.append_nil]

/-- An applied claim leaves the counters as they are. -/
theorem Replayed.counters_eq : counters = store.scrum.semanticCounters := by
  have hclaims := hsteps.counters_eq
  rw [h.rows_eq hsteps hloaded] at hclaims
  simp only [applyCounterClaims, bind_eq_ok, exists_unit] at hclaims
  obtain ⟨-, hfold⟩ := hclaims
  refine foldlM_induction (motive := fun reached => reached = store.scrum.semanticCounters) hfold
    rfl ?_
  rintro reached claim reached' hclaim rfl hstep
  rw [Ordering.mem_sortOn] at hclaim
  cases hnatural : claim.scope.isNatural with
  | true => exact applyCounterClaim_of_evaluated hstep hnatural h.evaluated
  | false =>
    exact applyCounterClaim_of_advanced hstep (count_ne_zero_of_validate hsteps.valid hclaim)
      (h.advanced claim hclaim hnatural)

/-- An evaluated decision leaves the evaluations as they are. -/
theorem Replayed.evaluations_eq : evaluations = store.scrum.naturalDecisionEvaluations := by
  have hresolved := hsteps.evaluations_eq
  rw [h.rows_eq hsteps hloaded] at hresolved
  refine foldlM_induction (motive := fun reached =>
    reached = store.scrum.naturalDecisionEvaluations) hresolved rfl ?_
  rintro reached claim reached' hclaim rfl hstep
  rcases resolveNaturalClaim_eq_ok hstep with ⟨hsame, -⟩ | ⟨-, hnone⟩
  · exact hsame
  · have hsome := h.evaluated claim (Ordering.mem_sortOn.mp hclaim)
    rw [hnone] at hsome
    cases hsome

/-- A replay leaves the rows and the ledgers as they are. -/
theorem Replayed.store_eq : store' = { store with aggregate := store'.aggregate } := by
  have hscrum : store'.scrum = store.scrum := by
    have hsorted := hsteps.scrum_sorted
    rw [h.rows_eq hsteps hloaded, h.counters_eq hsteps hloaded, h.evaluations_eq hsteps hloaded]
      at hsorted
    exact ScrumStateSnapshot.eq_of_collections (hsorted.trans hloaded.sorted)
  have hactivity := appendDrafts_of_subset hsteps.activity h.activity
  have hgroundTruth := appendDrafts_of_subset hsteps.groundTruth h.groundTruth
  have hprojection := appendDrafts_of_subset hsteps.projection h.projection
  cases store'
  simp only at hscrum hactivity hgroundTruth hprojection
  rw [hscrum, hactivity, hgroundTruth, hprojection]

end replayed

/-! ### Replays after later attempts -/

/-- The content of a command, submitted with another expected version. -/
def AuthoritativeTickSliceCommit.expecting (command : AuthoritativeTickSliceCommit p)
    (version : ℕ) : AuthoritativeTickSliceCommit p :=
  { command with liveSlice := { command.liveSlice with expectedRuntimeVersion := version } }

/-- A claim that a commit applied stays applied. -/
theorem claimIsAdvanced_of_attempts {store committed later : TeamStore p}
    {command : AuthoritativeTickSliceCommit p}
    (hcommit : commitAuthoritativeSlice store command = .ok committed)
    (hlater : (attemptRuns p).ReachesBy (fun _ _ => True) committed later)
    {claim : SemanticCounterClaim} (hclaim : claim ∈ command.counterClaims) :
    claimIsAdvanced later.scrum.semanticCounters claim = true := by
  refine attempts_induction
    (I := fun reached => claimIsAdvanced reached.scrum.semanticCounters claim = true) hlater ?_ ?_
  · obtain ⟨images, counters, evaluations, hsteps⟩ := commit_steps hcommit
    exact claimIsAdvanced_iff.mpr (hsteps.claimed hclaim)
  · intro reached other next hreached hnext
    obtain ⟨value, hvalue, hle⟩ := claimIsAdvanced_iff.mp hreached
    obtain ⟨value', hvalue', hle', -⟩ := (commit_eq_ok hnext).counters _ value hvalue
    exact claimIsAdvanced_iff.mpr ⟨value', hvalue', hle.trans hle'⟩

theorem loaded_of_attempts {store later : TeamStore p} (h : store.Loaded)
    (hlater : (attemptRuns p).ReachesBy (fun _ _ => True) store later) : later.Loaded :=
  attempts_induction hlater h fun _ _ _ _ hcommit => (commit_eq_ok hcommit).loaded

/-- Submitting a committed command again, with any expected version and after any later attempts,
leaves every row, counter, evaluation and draft as it is. -/
theorem replay_changes_nothing {store committed later : TeamStore p}
    {command : AuthoritativeTickSliceCommit p}
    (hcommit : commitAuthoritativeSlice store command = .ok committed)
    (hallocates : ∃ claim ∈ command.counterClaims, claim.scope.isNatural = false)
    (hlater : (attemptRuns p).ReachesBy (fun _ _ => True) committed later) (version : ℕ) :
    (∃ error, commitAuthoritativeSlice later (command.expecting version) = .error error ∧
        later.attempt (command.expecting version) = later) ∨
      ∃ store', commitAuthoritativeSlice later (command.expecting version) = .ok store' ∧
        store' = { later with aggregate := store'.aggregate } := by
  obtain ⟨claim, hclaim, hallocation⟩ := hallocates
  have hadvanced := claimIsAdvanced_of_attempts hcommit hlater hclaim
  have hloaded := loaded_of_attempts (commit_eq_ok hcommit).loaded hlater
  cases hreplay : commitAuthoritativeSlice later (command.expecting version) with
  | error error =>
    exact .inl ⟨error, rfl, TeamStore.attempt_of_error hreplay⟩
  | ok store' =>
    obtain ⟨images, counters, evaluations, hsteps⟩ := commit_steps hreplay
    have hreplayed := preflight_eq_ok hsteps.preflight hclaim hallocation hadvanced
    exact .inr ⟨store', rfl, hreplayed.store_eq hsteps hloaded⟩

/-- The first tick of the small team, submitted again with the version that it made. -/
theorem replay_changes_nothing_smallTeam :
    ∃ store command committed store', firstTick utcPlatform rejectingBlueprint =
        .ok (store, command) ∧ commitAuthoritativeSlice store command = .ok committed ∧
      command.state.statusVisits ≠ [] ∧
      commitAuthoritativeSlice committed (command.expecting committed.aggregate.runtime.version) =
        .ok store' ∧
      store' = { committed with aggregate := store'.aggregate } := by
  -- the tick allocates a visit, and its command is accepted a second time
  have hplayed : (firstTick utcPlatform rejectingBlueprint).toOption.any (fun played =>
      (commitAuthoritativeSlice played.1 played.2).toOption.any fun committed =>
        played.2.counterClaims.any (fun claim => !claim.scope.isNatural) &&
          played.2.state.statusVisits ≠ [] && succeeds (commitAuthoritativeSlice committed
            (played.2.expecting committed.aggregate.runtime.version))) = true := by
    decide +kernel
  obtain ⟨⟨store, command⟩, htick, hplayed⟩ := exists_of_any hplayed
  obtain ⟨committed, hcommit, hplayed⟩ := exists_of_any hplayed
  simp only [Bool.and_eq_true, decide_eq_true_eq, List.any_eq_true, Bool.not_eq_true'] at hplayed
  obtain ⟨⟨hallocates, hvisits⟩, hsucceeds⟩ := hplayed
  obtain ⟨store', hreplay⟩ := exists_of_succeeds _ hsucceeds
  rcases replay_changes_nothing hcommit hallocates .refl committed.aggregate.runtime.version with
    ⟨error, herror, -⟩ | ⟨next, hnext, hsame⟩
  · rw [hreplay] at herror
    cases herror
  · rw [hreplay, Except.ok.injEq] at hnext
    exact ⟨store, command, committed, store', htick, hcommit, hvisits, hreplay, hnext ▸ hsame⟩

end JiraSimulator
