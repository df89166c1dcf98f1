import JiraSimulator.Correctness.Collections
import JiraSimulator.Domain.ScrumTick

/-!
# The allocation of owners in a segment

Every visit of a segment keeps its owner, receives one, or has none.

* `assignOwners_forall₂`: an owner carries the activity of the visit and is available.
* `assignOwners_count_le`: no member owns more visits than its limit.
-/

namespace JiraSimulator

open Library Library.Outcome

variable {p : Platform}

/-! ### Owners that may work on a visit -/

/-- The owner is a member who carries the activity of the visit and is available in the segment. -/
def CanOwn (state : LiveTeamState p) (segment : BusinessSegment) (visit : StatusVisitState)
    (owner : Uuid) : Prop :=
  ∃ identity ∈ state.scrum.memberIdentities, identity.id = owner ∧
    ∃ member fraction, memberBlueprint state identity = .ok member ∧
      (proficiency member visit.activityKey).isSome ∧
      effectiveFraction state identity segment = .ok fraction ∧ fraction ≠ 0

theorem toDouble_zero : toDouble 0 = 0 := by
  simp [toDouble, Rounding.roundToPrecision]

theorem fmul_zero (a : ℚ) : fmul a 0 = 0 := by
  rw [fmul, mul_zero, toDouble_zero]

theorem pyRound_zero : pyRound 0 = 0 := by
  have h := Rounding.roundHalfEven_intCast 0
  simpa [pyRound] using h

/-- Time is available only at a fraction that is not zero. -/
theorem fraction_ne_zero_of_available {state : LiveTeamState p} {identity : MemberIdentity}
    {segment : BusinessSegment} {available : ℤ}
    (h : availableMicroseconds state identity segment = .ok available) (hpos : 0 < available) :
    ∃ fraction, effectiveFraction state identity segment = .ok fraction ∧ fraction ≠ 0 := by
  simp only [availableMicroseconds, bind_eq_ok, pure_eq_ok] at h
  obtain ⟨fraction, hfraction, rfl⟩ := h
  refine ⟨fraction, hfraction, ?_⟩
  rintro rfl
  rw [fmul_zero, pyRound_zero] at hpos
  exact lt_irrefl 0 hpos

theorem canOwn_of_canRetain {state : LiveTeamState p} {identity : MemberIdentity}
    {visit : StatusVisitState} {segment : BusinessSegment} {retained : List Uuid}
    (hmem : identity ∈ state.scrum.memberIdentities)
    (h : canRetain state identity visit segment retained = .ok true) :
    CanOwn state segment visit identity.id ∧ ∃ member, memberBlueprint state identity = .ok member ∧
      retained.count identity.id < member.maxConcurrentWip := by
  simp only [canRetain, bind_eq_ok, pure_eq_ok, Bool.and_eq_true, decide_eq_true_eq] at h
  obtain ⟨member, hmember, available, havailable, ⟨hcapable, hpos⟩, hcount⟩ := h
  obtain ⟨fraction, hfraction, hne⟩ := fraction_ne_zero_of_available havailable hpos
  exact ⟨⟨identity, hmem, rfl, member, fraction, hmember, hcapable, hfraction, hne⟩,
    member, hmember, hcount⟩

theorem canOwn_of_assessMember {state : LiveTeamState p} {identity candidate : MemberIdentity}
    {visit : StatusVisitState} {segment : BusinessSegment} {consumption : Consumption}
    {retained : List Uuid} {value : ℚ} (hmem : identity ∈ state.scrum.memberIdentities)
    (h : assessMember state visit segment consumption retained identity =
      .ok (.candidate value candidate)) :
    candidate = identity ∧ CanOwn state segment visit identity.id ∧
      ∃ member, memberBlueprint state identity = .ok member ∧
        retained.count identity.id < member.maxConcurrentWip := by
  simp only [assessMember, bind_eq_ok] at h
  obtain ⟨member, hmember, h⟩ := h
  cases hcapable : proficiency member visit.activityKey with
  | none => simp [hcapable] at h
  | some proficient =>
    simp only [hcapable, bind_eq_ok] at h
    obtain ⟨fraction, hfraction, h⟩ := h
    by_cases hzero : fraction = 0
    · simp [hzero] at h
    rw [if_neg hzero] at h
    obtain ⟨remaining, -, h⟩ := bind_eq_ok.mp h
    by_cases hnone : remaining = 0
    · simp [hnone] at h
    rw [if_neg hnone] at h
    split_ifs at h with hcount
    · simp only [pure_eq_ok, Assessment.candidate.injEq] at h
      exact ⟨h.2.symm, ⟨identity, hmem, rfl, member, fraction, hmember, by simp [hcapable],
        hfraction, hzero⟩, member, hmember, hcount⟩
    · simp at h

/-- The chosen candidate is one of the assessed members. -/
theorem mem_candidates {assessments : List Assessment} {entry : ℚ × MemberIdentity} :
    entry ∈ candidates assessments ↔ .candidate entry.1 entry.2 ∈ assessments := by
  simp only [candidates, List.mem_filterMap]
  constructor
  · rintro ⟨assessment, hmem, hsome⟩
    cases assessment <;> simp at hsome
    subst hsome
    exact hmem
  · intro hmem
    exact ⟨_, hmem, rfl⟩

/-! ### The owner of one visit -/

/-- What `retainOwner` does: it keeps the owner, or releases the visit. -/
theorem retainOwner_eq_ok {state : LiveTeamState p} {segment : BusinessSegment}
    {retention retention' : Retention} {visit : StatusVisitState}
    (h : retainOwner state segment retention visit = .ok retention') :
    (∃ identity ∈ state.scrum.memberIdentities, visit.memberId = some identity.id ∧
      canRetain state identity visit segment retention.retained = .ok true ∧
      retention' = { retained := retention.retained ++ [identity.id]
                     visits := retention.visits ++ [visit] }) ∨
    (({ visit with memberId := none } : StatusVisitState).Valid ∧
      retention' = { retention with
        visits := retention.visits ++ [{ visit with memberId := none }] }) := by
  simp only [retainOwner] at h
  -- a visit without an owner is released as well
  cases hmember : visit.memberId with
  | none =>
    simp only [hmember, bind_eq_ok, pure_eq_ok] at h
    obtain ⟨keeps, rfl, h⟩ := h
    simp only [Bool.false_eq_true, if_false, bind_eq_ok, validated_eq_ok,
      StatusVisitState.validate_eq_ok, pure_eq_ok] at h
    obtain ⟨released, ⟨hvalid, rfl⟩, rfl⟩ := h
    exact .inr ⟨hvalid, rfl⟩
  | some owner =>
    simp only [hmember, bind_eq_ok] at h
    obtain ⟨identity, hidentity, keeps, hkeeps, h⟩ := h
    obtain ⟨hmem, rfl⟩ := getItem_eq_ok hidentity
    cases keeps with
    | true =>
      simp only [if_true, pure_eq_ok] at h
      exact .inl ⟨identity, hmem, rfl, hkeeps, h.symm⟩
    | false =>
      simp only [Bool.false_eq_true, if_false, bind_eq_ok, validated_eq_ok,
        StatusVisitState.validate_eq_ok, pure_eq_ok] at h
      obtain ⟨released, ⟨hvalid, rfl⟩, rfl⟩ := h
      exact .inr ⟨hvalid, rfl⟩

/-- What the search for an owner does: it leaves the visit without one if no member is a candidate,
and otherwise assigns a candidate. -/
theorem assignOwner_eq_ok {state : LiveTeamState p} {segment : BusinessSegment}
    {consumption : Consumption} {assignment assignment' : Assignment} {visit : StatusVisitState}
    (h : assignOwner state segment consumption assignment visit = .ok assignment') :
    ∃ assessments, state.scrum.memberIdentities.mapM
        (assessMember state visit segment consumption assignment.retained) = .ok assessments ∧
      ((candidates assessments = [] ∧ assignment' = { assignment with
          results := assignment.results ++
            [⟨visit, some (assignmentDenialReason assessments)⟩] }) ∨
        ∃ identity ∈ state.scrum.memberIdentities, ∃ value,
          assessMember state visit segment consumption assignment.retained identity =
            .ok (.candidate value identity) ∧
          ({ visit with memberId := some identity.id } : StatusVisitState).Valid ∧
          assignment' = {
            retained := assignment.retained ++ [identity.id]
            results := assignment.results ++
              [⟨{ visit with memberId := some identity.id }, none⟩] }) := by
  simp only [assignOwner, bind_eq_ok] at h
  obtain ⟨assessments, hassessments, h⟩ := h
  refine ⟨assessments, hassessments, ?_⟩
  cases hcandidates : candidates assessments with
  | nil =>
    simp only [hcandidates, pure_eq_ok] at h
    exact .inl ⟨rfl, h.symm⟩
  | cons first rest =>
    simp only [hcandidates, bind_eq_ok, validated_eq_ok, StatusVisitState.validate_eq_ok,
      pure_eq_ok] at h
    obtain ⟨assigned, ⟨hvalid, rfl⟩, rfl⟩ := h
    -- the best candidate is one of them
    have hchosen := Ordering.maxBy_mem betterCandidate first rest
    rw [← hcandidates, mem_candidates] at hchosen
    obtain ⟨identity, hmem, hassess⟩ := exists_of_mem_mapM hassessments hchosen
    obtain ⟨hid, -⟩ := canOwn_of_assessMember hmem hassess
    rw [hid] at hassess hvalid ⊢
    exact .inr ⟨identity, hmem, _, hassess, hvalid, rfl⟩

/-- What `assignVisit` does: it keeps an owner, leaves the visit without one, or assigns one. -/
theorem assignVisit_eq_ok {state : LiveTeamState p} {segment : BusinessSegment}
    {consumption : Consumption} {assignment assignment' : Assignment} {visit : StatusVisitState}
    (h : assignVisit state segment consumption assignment visit = .ok assignment') :
    (visit.memberId ≠ none ∧ assignment' = { assignment with
      results := assignment.results ++ [⟨visit, none⟩] }) ∨
    (visit.memberId = none ∧ ∃ reason, assignment' = { assignment with
      results := assignment.results ++ [⟨visit, some reason⟩] }) ∨
    (visit.memberId = none ∧ ∃ identity ∈ state.scrum.memberIdentities,
      CanOwn state segment visit identity.id ∧
      (∃ member, memberBlueprint state identity = .ok member ∧
        assignment.retained.count identity.id < member.maxConcurrentWip) ∧
      ({ visit with memberId := some identity.id } : StatusVisitState).Valid ∧
      assignment' = {
        retained := assignment.retained ++ [identity.id]
        results := assignment.results ++ [⟨{ visit with memberId := some identity.id }, none⟩] }) := by
  unfold assignVisit at h
  cases hmember : visit.memberId with
  | some owner =>
    simp only [hmember, Except.ok.injEq] at h
    exact .inl ⟨by simp, h.symm⟩
  | none =>
    simp only [hmember] at h
    obtain ⟨assessments, -, ⟨-, heq⟩ | ⟨identity, hmem, value, hassess, hvalid, heq⟩⟩ :=
      assignOwner_eq_ok h
    · exact .inr (.inl ⟨rfl, _, heq⟩)
    · obtain ⟨-, hcan, hcount⟩ := canOwn_of_assessMember hmem hassess
      exact .inr (.inr ⟨rfl, identity, hmem, hcan, hcount, hvalid, heq⟩)

/-! ### The owners of all visits -/

/-- An assignment changes only the owner, and only to a member who may work on the visit. -/
structure Assigned (state : LiveTeamState p) (segment : BusinessSegment)
    (visit : StatusVisitState) (assigned : AssignedVisit) : Prop where
  visit_eq : assigned.visit = { visit with memberId := assigned.visit.memberId }
  canOwn : ∀ owner, assigned.visit.memberId = some owner → CanOwn state segment visit owner

/-- The owner of a visit after the first loop: the old one if it may stay. -/
theorem retainOwner_forall₂ {state : LiveTeamState p} {segment : BusinessSegment}
    {visits : List StatusVisitState} {retention : Retention}
    (h : visits.foldlM (retainOwner state segment) { retained := [], visits := [] } =
      .ok retention) :
    List.Forall₂ (fun visit kept => kept = { visit with memberId := kept.memberId } ∧
      ∀ owner, kept.memberId = some owner → CanOwn state segment visit owner)
      visits retention.visits := by
  obtain ⟨kept, hkept, hall⟩ := foldlM_append_forall₂ Retention.visits
    (R := fun visit kept => kept = { visit with memberId := kept.memberId } ∧
      ∀ owner, kept.memberId = some owner → CanOwn state segment visit owner) h
    fun retention visit retention' _ hstep => by
      rcases retainOwner_eq_ok hstep with ⟨identity, hmem, howner, hretain, rfl⟩ | ⟨-, rfl⟩
      · refine ⟨_, rfl, rfl, fun owner hsome => ?_⟩
        rw [howner] at hsome
        cases hsome
        exact (canOwn_of_canRetain hmem hretain).1
      · exact ⟨_, rfl, rfl, fun owner hsome => by cases hsome⟩
  rw [hkept]
  exact hall

/-- The owner of a visit after the second loop: the one it had, or one who may work on it. -/
theorem assignVisit_forall₂ {state : LiveTeamState p} {segment : BusinessSegment}
    {consumption : Consumption} {visits : List StatusVisitState} {retained : List Uuid}
    {assignment : Assignment}
    (h : visits.foldlM (assignVisit state segment consumption) { retained, results := [] } =
      .ok assignment) :
    List.Forall₂ (fun kept assigned =>
      assigned.visit = { kept with memberId := assigned.visit.memberId } ∧
        ∀ owner, assigned.visit.memberId = some owner →
          kept.memberId = some owner ∨ CanOwn state segment kept owner)
      visits assignment.results := by
  obtain ⟨results, hresults, hall⟩ := foldlM_append_forall₂ Assignment.results
    (R := fun kept assigned =>
      assigned.visit = { kept with memberId := assigned.visit.memberId } ∧
        ∀ owner, assigned.visit.memberId = some owner →
          kept.memberId = some owner ∨ CanOwn state segment kept owner) h
    fun assignment visit assignment' _ hstep => by
      rcases assignVisit_eq_ok hstep with ⟨-, rfl⟩ | ⟨hnone, reason, rfl⟩ |
        ⟨hnone, identity, hmem, hcan, -, -, rfl⟩
      · exact ⟨_, rfl, rfl, fun owner howner => .inl howner⟩
      · exact ⟨_, rfl, rfl, fun owner howner => .inl howner⟩
      · refine ⟨_, rfl, rfl, fun owner howner => ?_⟩
        cases howner
        exact .inr hcan
  rw [hresults]
  exact hall

theorem assignOwners_forall₂ {state : LiveTeamState p} {visits : List StatusVisitState}
    {segment : BusinessSegment} {consumption : Consumption} {assignments : List AssignedVisit}
    (h : assignOwners state visits segment consumption = .ok assignments) :
    List.Forall₂ (Assigned state segment) visits assignments := by
  simp only [assignOwners, bind_eq_ok, pure_eq_ok] at h
  obtain ⟨retention, hretention, assignment, hassignment, rfl⟩ := h
  have hfirst := retainOwner_forall₂ hretention
  have hsecond := assignVisit_forall₂ hassignment
  refine forall₂_comp hfirst hsecond fun visit kept assigned hkept hassigned => ?_
  refine ⟨?_, fun owner howner => ?_⟩
  · rw [hassigned.1, hkept.1]
  · rcases hassigned.2 owner howner with hold | hcan
    · exact hkept.2 owner hold
    · rw [hkept.1] at hcan
      exact hcan

/-! ### Limits of the owners -/

/-- The owners of a list of visits, once for each visit. -/
def ownersOf (visits : List StatusVisitState) : List Uuid :=
  visits.filterMap (·.memberId)

/-- No member appears in the list more often than its limit. -/
def WithinLimits (state : LiveTeamState p) (owners : List Uuid) : Prop :=
  ∀ identity ∈ state.scrum.memberIdentities, ∀ member,
    memberBlueprint state identity = .ok member → owners.count identity.id ≤ member.maxConcurrentWip

theorem withinLimits_append {state : LiveTeamState p} {owners : List Uuid}
    {identity : MemberIdentity} {member : MemberBlueprint} (h : WithinLimits state owners)
    (hmem : identity ∈ state.scrum.memberIdentities)
    (hmember : memberBlueprint state identity = .ok member)
    (hcount : owners.count identity.id < member.maxConcurrentWip) :
    WithinLimits state (owners ++ [identity.id]) := by
  intro other hother member' hmember'
  rw [List.count_append, List.count_singleton]
  by_cases hid : identity.id = other.id
  · have heq : identity = other := Collection.memberIdentities.eq_of_key_eq
      state.scrum.complete.toConsistent hmem hother hid
    subst heq
    rw [hmember] at hmember'
    cases hmember'
    simp only [beq_self_eq_true, if_true]
    omega
  · simpa [hid] using h other hother member' hmember'

/-- The owners counted in the first loop are those of the visits that keep theirs. -/
theorem retainOwner_retained {state : LiveTeamState p} {segment : BusinessSegment}
    {visits : List StatusVisitState} {retention : Retention}
    (h : visits.foldlM (retainOwner state segment) { retained := [], visits := [] } =
      .ok retention) : retention.retained = ownersOf retention.visits := by
  refine foldlM_induction (motive := fun r : Retention => r.retained = ownersOf r.visits) h rfl ?_
  intro retention visit retention' _ howners hstep
  rcases retainOwner_eq_ok hstep with ⟨identity, -, howner, -, rfl⟩ | ⟨-, rfl⟩
  · simp [ownersOf, howner, howners]
  · simp [ownersOf, howners]

/-- The owners counted in the second loop are those of the results and of the visits to come: a kept
owner appears in the results only when its visit is reached. -/
theorem assignVisit_retained {state : LiveTeamState p} {segment : BusinessSegment}
    {consumption : Consumption} {visits : List StatusVisitState} {start final : Assignment}
    (h : visits.foldlM (assignVisit state segment consumption) start = .ok final) {id : Uuid}
    (hcount : start.retained.count id =
      (ownersOf (start.results.map (·.visit))).count id + (ownersOf visits).count id) :
    final.retained.count id = (ownersOf (final.results.map (·.visit))).count id := by
  induction visits generalizing start with
  | nil =>
    rw [List.foldlM_nil, pure_eq_ok] at h
    subst h
    simpa [ownersOf] using hcount
  | cons visit visits ih =>
    simp only [List.foldlM_cons, bind_eq_ok] at h
    obtain ⟨next, hnext, hrest⟩ := h
    refine ih hrest ?_
    rcases assignVisit_eq_ok hnext with ⟨hsome, rfl⟩ | ⟨hnone, reason, rfl⟩ |
      ⟨hnone, identity, -, -, -, -, rfl⟩
    · obtain ⟨owner, howner⟩ := Option.ne_none_iff_exists'.mp hsome
      rw [hcount]
      simp only [ownersOf, List.map_append, List.map_singleton, List.filterMap_append,
        List.filterMap_cons, howner, List.filterMap_nil, List.count_append, List.count_cons,
        List.count_nil]
      omega
    · rw [hcount]
      simp [ownersOf, hnone]
    · simp only [List.count_append, hcount]
      simp only [ownersOf, List.map_append, List.map_singleton, List.filterMap_append,
        List.filterMap_cons, hnone, List.filterMap_nil, List.count_append]
      omega

/-- The two loops of `assignOwners`; the owners that they count are those of the assigned visits. -/
theorem assignOwners_eq_ok {state : LiveTeamState p} {visits : List StatusVisitState}
    {segment : BusinessSegment} {consumption : Consumption} {assignments : List AssignedVisit}
    (h : assignOwners state visits segment consumption = .ok assignments) :
    ∃ retention assignment,
      visits.foldlM (retainOwner state segment) { retained := [], visits := [] } = .ok retention ∧
      retention.visits.foldlM (assignVisit state segment consumption)
        { retained := retention.retained, results := [] } = .ok assignment ∧
      assignment.results = assignments ∧ ∀ id, assignment.retained.count id =
        (ownersOf (assignments.map (·.visit))).count id := by
  simp only [assignOwners, bind_eq_ok, pure_eq_ok] at h
  obtain ⟨retention, hretention, assignment, hassignment, rfl⟩ := h
  refine ⟨retention, assignment, hretention, hassignment, rfl, fun id => ?_⟩
  refine assignVisit_retained hassignment ?_
  simp [retainOwner_retained hretention, ownersOf]

/-- Assigning the owners of a segment keeps every member within its limit. -/
theorem assignOwners_withinLimits {state : LiveTeamState p} {visits : List StatusVisitState}
    {segment : BusinessSegment} {consumption : Consumption} {assignments : List AssignedVisit}
    (h : assignOwners state visits segment consumption = .ok assignments) :
    WithinLimits state (ownersOf (assignments.map (·.visit))) := by
  obtain ⟨retention, assignment, hretention, hassignment, -, hcounts⟩ := assignOwners_eq_ok h
  have hkept : WithinLimits state retention.retained := by
    refine foldlM_induction (motive := fun r : Retention => WithinLimits state r.retained) hretention
      (by simp [WithinLimits]) ?_
    intro retention visit retention' _ hlimits hstep
    rcases retainOwner_eq_ok hstep with ⟨identity, hmem, -, hretain, rfl⟩ | ⟨-, rfl⟩
    · obtain ⟨-, member, hmember, hcount⟩ := canOwn_of_canRetain hmem hretain
      exact withinLimits_append hlimits hmem hmember hcount
    · exact hlimits
  have hassigned : WithinLimits state assignment.retained := by
    refine foldlM_induction (motive := fun a : Assignment => WithinLimits state a.retained)
      hassignment hkept ?_
    intro assignment visit assignment' _ hlimits hstep
    rcases assignVisit_eq_ok hstep with ⟨-, rfl⟩ | ⟨-, reason, rfl⟩ |
      ⟨-, identity, hmem, -, ⟨member, hmember, hcount⟩, -, rfl⟩
    · exact hlimits
    · exact hlimits
    · exact withinLimits_append hlimits hmem hmember hcount
  intro identity hmem member hmember
  rw [← hcounts]
  exact hassigned identity hmem member hmember

end JiraSimulator
