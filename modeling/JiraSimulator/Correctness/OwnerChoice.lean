import JiraSimulator.Correctness.QueueCauses

/-!
# The choice of owners and the order of their labor

The owners of a segment are chosen greedily in the order of the ranks.  No visit is left without an
owner while a member could take it, and the reason that is recorded names the first check that every
member fails.  A member works on its visits in the order of their ranks.

* `assignOwners_denied`: why a visit has no owner.
* `advanceSegment_ranked`: labor reaches a visit only when the visits above it are done.
-/

namespace JiraSimulator

open Library Library.Outcome

variable {p : Platform}

/-! ### The checks of a member -/

section checks

variable (state : LiveTeamState p) (segment : BusinessSegment) (consumption : Consumption)
  (owners : List Uuid) (visit : StatusVisitState) (identity : MemberIdentity)

/-- The member carries the activity of the visit. -/
def Capable : Prop :=
  ∃ member, memberBlueprint state identity = .ok member ∧
    (proficiency member visit.activityKey).isSome

/-- The member is capable, and has a fraction of its time in the segment. -/
def Available : Prop :=
  Capable state visit identity ∧
    ∃ fraction, effectiveFraction state identity segment = .ok fraction ∧ 0 < fraction

/-- The member is available, and has capacity left in the segment and on its day. -/
def HasCapacity : Prop :=
  Available state segment visit identity ∧
    ∃ remaining, remainingCapacity state identity segment consumption = .ok remaining ∧ 0 < remaining

/-- The member has capacity, and owns fewer visits than its limit. -/
def HasRoom : Prop :=
  HasCapacity state segment consumption visit identity ∧
    ∃ member, memberBlueprint state identity = .ok member ∧
      owners.count identity.id < member.maxConcurrentWip

end checks

/-- The reason names the first check that no member passes. -/
def NamesFirstFailure (state : LiveTeamState p) (segment : BusinessSegment)
    (consumption : Consumption) (owners : List Uuid) (visit : StatusVisitState) :
    QueueReason → Prop
  | .NO_CAPABLE_MEMBER => ∀ identity ∈ state.scrum.memberIdentities, ¬ Capable state visit identity
  | .UNAVAILABLE => (∃ identity ∈ state.scrum.memberIdentities, Capable state visit identity) ∧
      ∀ identity ∈ state.scrum.memberIdentities, ¬ Available state segment visit identity
  | .DAILY_CAPACITY =>
      (∃ identity ∈ state.scrum.memberIdentities, Available state segment visit identity) ∧
      ∀ identity ∈ state.scrum.memberIdentities,
        ¬ HasCapacity state segment consumption visit identity
  | .WIP_LIMIT =>
      (∃ identity ∈ state.scrum.memberIdentities,
        HasCapacity state segment consumption visit identity) ∧
      ∀ identity ∈ state.scrum.memberIdentities,
        ¬ HasRoom state segment consumption owners visit identity
  | .CONTENTION => False

section assessments

variable {state : LiveTeamState p} {segment : BusinessSegment} {consumption : Consumption}
  {visit : StatusVisitState} {identity : MemberIdentity}

theorem effectiveFraction_pos_iff {fraction : ℚ}
    (h : effectiveFraction state identity segment = .ok fraction) : 0 < fraction ↔ fraction ≠ 0 := by
  have hnonneg := (effectiveFraction_mem h).1
  exact ⟨fun hpos => ne_of_gt hpos, fun hne => lt_of_le_of_ne hnonneg (Ne.symm hne)⟩

theorem remainingCapacity_nonneg {remaining : ℤ}
    (h : remainingCapacity state identity segment consumption = .ok remaining) : 0 ≤ remaining := by
  simp only [remainingCapacity, bind_eq_ok, pure_eq_ok] at h
  obtain ⟨available, -, ceiling, -, rfl⟩ := h
  exact le_max_left _ _

/-- What the search finds about a member: the first check that it fails, or that it is a candidate.
-/
inductive Assessed (state : LiveTeamState p) (segment : BusinessSegment) (consumption : Consumption)
    (owners : List Uuid) (visit : StatusVisitState) (identity : MemberIdentity) : Assessment → Prop
  | incapable (h : ¬ Capable state visit identity) :
      Assessed state segment consumption owners visit identity .incapable
  | unavailable (h : Capable state visit identity) (hnot : ¬ Available state segment visit identity) :
      Assessed state segment consumption owners visit identity .unavailable
  | exhausted (h : Available state segment visit identity)
      (hnot : ¬ HasCapacity state segment consumption visit identity) :
      Assessed state segment consumption owners visit identity .exhausted
  | full (h : HasCapacity state segment consumption visit identity)
      (hnot : ¬ HasRoom state segment consumption owners visit identity) :
      Assessed state segment consumption owners visit identity .full
  | candidate (value : ℚ) (h : HasRoom state segment consumption owners visit identity) :
      Assessed state segment consumption owners visit identity (.candidate value identity)

theorem assessMember_eq_ok {retained : List Uuid} {assessment : Assessment}
    (h : assessMember state visit segment consumption retained identity = .ok assessment) :
    Assessed state segment consumption retained visit identity assessment := by
  simp only [assessMember, bind_eq_ok] at h
  obtain ⟨member, hmember, h⟩ := h
  -- the tests in the order of the source: proficiency, presence, capacity, work in progress
  cases hproficiency : proficiency member visit.activityKey with
  | none =>
    simp only [hproficiency, pure_eq_ok] at h
    subst h
    refine .incapable ?_
    rintro ⟨member', hmember', hcapable⟩
    rw [hmember] at hmember'
    cases hmember'
    rw [hproficiency] at hcapable
    cases hcapable
  | some value =>
    have hcapable : Capable state visit identity := ⟨member, hmember, by rw [hproficiency]; rfl⟩
    simp only [hproficiency, bind_eq_ok] at h
    obtain ⟨fraction, hfraction, h⟩ := h
    by_cases hzero : fraction = 0
    · rw [if_pos hzero, pure_eq_ok] at h
      subst h
      refine .unavailable hcapable ?_
      rintro ⟨-, fraction', hfraction', hpos⟩
      rw [hfraction] at hfraction'
      cases hfraction'
      exact absurd hzero (ne_of_gt hpos)
    rw [if_neg hzero, bind_eq_ok] at h
    have havailable : Available state segment visit identity :=
      ⟨hcapable, fraction, hfraction, (effectiveFraction_pos_iff hfraction).mpr hzero⟩
    obtain ⟨remaining, hremaining, h⟩ := h
    by_cases hnone : remaining = 0
    · rw [if_pos hnone, pure_eq_ok] at h
      subst h
      refine .exhausted havailable ?_
      rintro ⟨-, remaining', hremaining', hpos⟩
      rw [hremaining] at hremaining'
      cases hremaining'
      exact absurd hnone (ne_of_gt hpos)
    rw [if_neg hnone] at h
    have hcapacity : HasCapacity state segment consumption visit identity := by
      have hnonneg := remainingCapacity_nonneg hremaining
      exact ⟨havailable, remaining, hremaining, by omega⟩
    by_cases hcount : retained.count identity.id < member.maxConcurrentWip
    · rw [if_pos hcount, pure_eq_ok] at h
      subst h
      exact .candidate value ⟨hcapacity, member, hmember, hcount⟩
    · rw [if_neg hcount, pure_eq_ok] at h
      subst h
      refine .full hcapacity ?_
      rintro ⟨-, member', hmember', hroom⟩
      rw [hmember] at hmember'
      cases hmember'
      exact hcount hroom

/-- With more owners counted a member has no more room. -/
theorem HasRoom.mono {owners owners' : List Uuid}
    (h : HasRoom state segment consumption owners' visit identity)
    (hle : owners.count identity.id ≤ owners'.count identity.id) :
    HasRoom state segment consumption owners visit identity := by
  obtain ⟨hcapacity, member, hmember, hcount⟩ := h
  exact ⟨hcapacity, member, hmember, by omega⟩

/-- The member passed the check of its activity. -/
def Assessment.isCapable : Assessment → Bool
  | .incapable => false
  | _ => true

/-- The member passed the check of its fraction, and the one before. -/
def Assessment.isAvailable : Assessment → Bool
  | .incapable => false
  | .unavailable => false
  | _ => true

/-- The member passed the check of its capacity, and those before. -/
def Assessment.hasCapacity : Assessment → Bool
  | .full => true
  | .candidate .. => true
  | _ => false

theorem assignmentDenialReason_eq (assessments : List Assessment) :
    assignmentDenialReason assessments =
      if !assessments.any Assessment.isCapable then .NO_CAPABLE_MEMBER
      else if !assessments.any Assessment.isAvailable then .UNAVAILABLE
      else if !assessments.any Assessment.hasCapacity then .DAILY_CAPACITY
      else .WIP_LIMIT := rfl

/-- The reason of a search without a candidate names the first check that every member fails. -/
theorem assignmentDenialReason_names {retained owners : List Uuid} {assessments : List Assessment}
    (hassess : state.scrum.memberIdentities.mapM
      (assessMember state visit segment consumption retained) = .ok assessments)
    (hnone : candidates assessments = [])
    (hle : ∀ id, retained.count id ≤ owners.count id) :
    (∀ identity ∈ state.scrum.memberIdentities,
      ¬ HasRoom state segment consumption owners visit identity) ∧
    NamesFirstFailure state segment consumption owners visit
      (assignmentDenialReason assessments) := by
  have hfound : ∀ identity ∈ state.scrum.memberIdentities, ∃ assessment ∈ assessments,
      Assessed state segment consumption retained visit identity assessment := by
    intro identity hmem
    obtain ⟨assessment, hassessment, hfinds⟩ := exists_of_mem_of_mapM hassess hmem
    exact ⟨assessment, hassessment, assessMember_eq_ok hfinds⟩
  have hmember : ∀ assessment ∈ assessments, ∃ identity ∈ state.scrum.memberIdentities,
      Assessed state segment consumption retained visit identity assessment := by
    intro assessment hassessment
    obtain ⟨identity, hmem, hfinds⟩ := exists_of_mem_mapM hassess hassessment
    exact ⟨identity, hmem, assessMember_eq_ok hfinds⟩
  -- a member with room would have been a candidate
  have hnoRoom : ∀ identity ∈ state.scrum.memberIdentities,
      ¬ HasRoom state segment consumption owners visit identity := by
    intro identity hmem hroom
    obtain ⟨assessment, hassessment, hassessed⟩ := hfound identity hmem
    have hroom := hroom.mono (hle identity.id)
    cases hassessed with
    | incapable h => exact h hroom.1.1.1
    | unavailable _ hnot => exact hnot hroom.1.1
    | exhausted _ hnot => exact hnot hroom.1
    | full _ hnot => exact hnot hroom
    | candidate value =>
      have hcandidate : (value, identity) ∈ candidates assessments := mem_candidates.mpr hassessment
      rw [hnone] at hcandidate
      cases hcandidate
  refine ⟨hnoRoom, ?_⟩
  -- a test of the assessments decides a property of the members
  have hany : ∀ (test : Assessment → Bool) (passes : MemberIdentity → Prop),
      (∀ identity assessment, Assessed state segment consumption retained visit identity assessment →
        (test assessment = true ↔ passes identity)) →
      (assessments.any test = true ↔ ∃ identity ∈ state.scrum.memberIdentities, passes identity) := by
    intro test passes htest
    rw [List.any_eq_true]
    constructor
    · rintro ⟨assessment, hassessment, htrue⟩
      obtain ⟨identity, hmem, hassessed⟩ := hmember assessment hassessment
      exact ⟨identity, hmem, (htest identity assessment hassessed).mp htrue⟩
    · rintro ⟨identity, hmem, hpasses⟩
      obtain ⟨assessment, hassessment, hassessed⟩ := hfound identity hmem
      exact ⟨assessment, hassessment, (htest identity assessment hassessed).mpr hpasses⟩
  have hcapable := hany Assessment.isCapable (Capable state visit) (by
    intro identity assessment hassessed
    cases hassessed with
    | incapable h => simpa [Assessment.isCapable] using h
    | unavailable h => simpa [Assessment.isCapable] using h
    | exhausted h => simpa [Assessment.isCapable] using h.1
    | full h => simpa [Assessment.isCapable] using h.1.1
    | candidate value h => simpa [Assessment.isCapable] using h.1.1.1)
  have havailable := hany Assessment.isAvailable (Available state segment visit) (by
    intro identity assessment hassessed
    cases hassessed with
    | incapable h =>
      have hnot : ¬ Available state segment visit identity := fun hmember => h hmember.1
      simpa [Assessment.isAvailable] using hnot
    | unavailable _ hnot => simpa [Assessment.isAvailable] using hnot
    | exhausted h => simpa [Assessment.isAvailable] using h
    | full h => simpa [Assessment.isAvailable] using h.1
    | candidate value h => simpa [Assessment.isAvailable] using h.1.1)
  have hcapacity := hany Assessment.hasCapacity
    (HasCapacity state segment consumption visit) (by
    intro identity assessment hassessed
    cases hassessed with
    | incapable h =>
      have hnone : ¬ HasCapacity state segment consumption visit identity :=
        fun hmember => h hmember.1.1
      simpa [Assessment.hasCapacity] using hnone
    | unavailable _ hnot =>
      have hnone : ¬ HasCapacity state segment consumption visit identity :=
        fun hmember => hnot hmember.1
      simpa [Assessment.hasCapacity] using hnone
    | exhausted _ hnot => simpa [Assessment.hasCapacity] using hnot
    | full h => simpa [Assessment.hasCapacity] using h
    | candidate value h => simpa [Assessment.hasCapacity] using h.1)
  -- the reason names the first of the three tests that no member passes
  rw [assignmentDenialReason_eq]
  by_cases h₁ : ∃ identity ∈ state.scrum.memberIdentities, Capable state visit identity
  · by_cases h₂ : ∃ identity ∈ state.scrum.memberIdentities,
      Available state segment visit identity
    · by_cases h₃ : ∃ identity ∈ state.scrum.memberIdentities,
        HasCapacity state segment consumption visit identity
      · simp only [hcapable.mpr h₁, havailable.mpr h₂, hcapacity.mpr h₃, Bool.not_true,
          Bool.false_eq_true, if_false]
        exact ⟨h₃, hnoRoom⟩
      · rw [← hcapacity, Bool.not_eq_true] at h₃
        simp only [hcapable.mpr h₁, havailable.mpr h₂, h₃, Bool.not_true, Bool.not_false,
          Bool.false_eq_true, if_false, if_true]
        rw [← Bool.not_eq_true, hcapacity] at h₃
        exact ⟨h₂, fun identity hmem h => h₃ ⟨identity, hmem, h⟩⟩
    · rw [← havailable, Bool.not_eq_true] at h₂
      simp only [hcapable.mpr h₁, h₂, Bool.not_true, Bool.not_false, Bool.false_eq_true, if_false,
        if_true]
      rw [← Bool.not_eq_true, havailable] at h₂
      exact ⟨h₁, fun identity hmem h => h₂ ⟨identity, hmem, h⟩⟩
  · rw [← hcapable, Bool.not_eq_true] at h₁
    simp only [h₁, Bool.not_false, if_true]
    rw [← Bool.not_eq_true, hcapable] at h₁
    exact fun identity hmem h => h₁ ⟨identity, hmem, h⟩

end assessments

section owners

variable {state : LiveTeamState p} {segment : BusinessSegment} {consumption : Consumption}

/-- No member has room for a visit without an owner, and its reason says why. -/
theorem assignOwners_denied {visits : List StatusVisitState} {assignments : List AssignedVisit}
    (h : assignOwners state visits segment consumption = .ok assignments) {assigned : AssignedVisit}
    (hassigned : assigned ∈ assignments) (hnone : assigned.visit.memberId = none) :
    (∀ identity ∈ state.scrum.memberIdentities,
      ¬ HasRoom state segment consumption (ownersOf (assignments.map (·.visit))) assigned.visit
        identity) ∧
    ∃ reason, assigned.deniedReason = some reason ∧
      NamesFirstFailure state segment consumption (ownersOf (assignments.map (·.visit)))
        assigned.visit reason := by
  obtain ⟨retention, assignment, -, hassignment, rfl, hcounts⟩ := assignOwners_eq_ok h
  -- the search saw no more owners than are counted in the end
  have hsearch : ∀ assigned ∈ assignment.results, assigned.visit.memberId = none →
      ∃ retained assessments, (∀ id, retained.count id ≤ assignment.retained.count id) ∧
        state.scrum.memberIdentities.mapM
          (assessMember state assigned.visit segment consumption retained) = .ok assessments ∧
        candidates assessments = [] ∧
        assigned.deniedReason = some (assignmentDenialReason assessments) := by
    refine foldlM_induction (motive := fun a : Assignment => ∀ assigned ∈ a.results,
      assigned.visit.memberId = none →
      ∃ retained assessments, (∀ id, retained.count id ≤ a.retained.count id) ∧
        state.scrum.memberIdentities.mapM
          (assessMember state assigned.visit segment consumption retained) = .ok assessments ∧
        candidates assessments = [] ∧
        assigned.deniedReason = some (assignmentDenialReason assessments)) hassignment ?_ ?_
    · exact fun _ hmem => absurd hmem List.not_mem_nil
    intro start visit next _ hstart hstep assigned hassigned hnone
    unfold assignVisit at hstep
    cases howner : visit.memberId with
    | some owner =>
      simp only [howner, Except.ok.injEq] at hstep
      subst hstep
      rcases List.mem_append.mp hassigned with hold | hnew
      · exact hstart assigned hold hnone
      · rw [List.mem_singleton.mp hnew, howner] at hnone
        cases hnone
    | none =>
      simp only [howner] at hstep
      obtain ⟨assessments, hassess, ⟨hcandidates, rfl⟩ | ⟨identity, -, value, -, -, rfl⟩⟩ :=
        assignOwner_eq_ok hstep
      · rcases List.mem_append.mp hassigned with hold | hnew
        · exact hstart assigned hold hnone
        · rw [List.mem_singleton.mp hnew]
          exact ⟨start.retained, assessments, fun _ => le_rfl, hassess, hcandidates, rfl⟩
      · rcases List.mem_append.mp hassigned with hold | hnew
        · obtain ⟨retained, assessments, hle, hfound⟩ := hstart assigned hold hnone
          refine ⟨retained, assessments, fun id => (hle id).trans ?_, hfound⟩
          rw [List.count_append]
          omega
        · rw [List.mem_singleton.mp hnew] at hnone
          cases hnone
  obtain ⟨retained, assessments, hle, hassess, hcandidates, hreason⟩ :=
    hsearch assigned hassigned hnone
  obtain ⟨hnoRoom, hnames⟩ := assignmentDenialReason_names hassess hcandidates fun id =>
    hcounts id ▸ hle id
  exact ⟨hnoRoom, _, hreason, hnames⟩

end owners

/-! ### The order of the labor -/

/-- The member can credit no more labor in the segment. -/
def SpentIn (state : LiveTeamState p) (segment : BusinessSegment)
    (starting consumption : Consumption) (owner : Uuid) : Prop :=
  ∀ identity ∈ state.scrum.memberIdentities, identity.id = owner → ∀ capacity,
    segmentCapacity state identity segment starting consumption = .ok capacity →
      capacity.microseconds = 0

section labor

variable {state : LiveTeamState p} {segment : BusinessSegment}
  {starting before after : Consumption} {assignment : AssignedVisit} {updated : StatusVisitState}
  {causes : List QueueCause}

/-- A member without capacity has none after more consumption. -/
theorem SpentIn.mono {owner : Uuid} (h : SpentIn state segment starting before owner)
    (hle : ∀ key, before.get key ≤ after.get key) : SpentIn state segment starting after owner := by
  intro identity hmem hid capacity hcapacity
  obtain ⟨available, ceiling, havailable, hceiling, hmicroseconds⟩ :=
    segmentCapacity_eq_ok hcapacity
  obtain ⟨earlier, hearlier⟩ : ∃ earlier,
      segmentCapacity state identity segment starting before = .ok earlier := by
    rw [segmentCapacity, havailable, hceiling, ok_bind, ok_bind]
    dsimp only
    split_ifs
    all_goals exact ⟨_, rfl⟩
  have hzero := h identity hmem hid earlier hearlier
  obtain ⟨available', ceiling', havailable', hceiling', hmicroseconds'⟩ :=
    segmentCapacity_eq_ok hearlier
  rw [havailable] at havailable'
  rw [hceiling] at hceiling'
  cases havailable'
  cases hceiling'
  have hkey := hle (identity.id, segment.businessDate)
  omega

/-- The consumption never goes back. -/
theorem VisitAdvance.get_le (h : VisitAdvance state segment starting before assignment updated after
    causes) (hremaining : 0 ≤ assignment.visit.remainingWorkMicroseconds) (key : Uuid × ℤ) :
    before.get key ≤ after.get key := by
  cases h with
  | pauses => exact le_rfl
  | waits => exact le_rfl
  | works identity capacity credited causes _ _ _ _ hcapacity hcredited =>
    have hnonneg := segmentCapacity_nonneg hcapacity
    rw [Consumption.get_credit]
    split_ifs <;> omega

/-- A visit that keeps work has used all capacity of its owner. -/
theorem VisitAdvance.spent (h : VisitAdvance state segment starting before assignment updated after
    causes) {owner : Uuid} (howner : assignment.visit.memberId = some owner)
    (hruns : intrinsicallyPaused state assignment.visit = .ok false)
    (hremains : updated.remainingWorkMicroseconds ≠ 0) :
    SpentIn state segment starting after owner := by
  cases h with
  | pauses hclock =>
    rw [hclock] at hruns
    cases hruns
  | waits queue causes _ hidle =>
    rcases hidle with hnone | hdone
    · rw [hnone] at howner
      cases howner
    · exact absurd hdone hremains
  | works identity capacity credited causes _ hmem howner' _ hcapacity hcredited =>
    intro other hother hid later hlater
    rw [howner'] at howner
    obtain rfl : other = identity := Collection.memberIdentities.eq_of_key_eq
      state.scrum.complete.toConsistent hother hmem (hid.trans (Option.some.inj howner).symm)
    obtain ⟨available, ceiling, havailable, hceiling, hmicroseconds⟩ :=
      segmentCapacity_eq_ok hcapacity
    obtain ⟨available', ceiling', havailable', hceiling', hmicroseconds'⟩ :=
      segmentCapacity_eq_ok hlater
    rw [havailable] at havailable'
    rw [hceiling] at hceiling'
    cases havailable'
    cases hceiling'
    have hall : credited = capacity.microseconds := by
      simp only [creditedVisit] at hremains
      omega
    rw [Consumption.get_credit, if_pos rfl] at hmicroseconds'
    omega

/-- A member without capacity credits nothing. -/
theorem VisitAdvance.credited_eq (h : VisitAdvance state segment starting before assignment updated
    after causes) {owner : Uuid} (howner : assignment.visit.memberId = some owner)
    (hspent : SpentIn state segment starting before owner)
    (hremaining : 0 ≤ assignment.visit.remainingWorkMicroseconds) :
    updated.creditedLaborMicroseconds = assignment.visit.creditedLaborMicroseconds := by
  cases h with
  | pauses => rfl
  | waits => rfl
  | works identity capacity credited causes _ hmem howner' _ hcapacity hcredited =>
    rw [howner'] at howner
    have hzero := hspent identity hmem (Option.some.inj howner) capacity hcapacity
    simp only [creditedVisit]
    omega

/-- Labor reaches the second of two visits of a member only if the first one ends without work. -/
def LaborInOrder (state : LiveTeamState p) (first second : StatusVisitState × StatusVisitState) :
    Prop :=
  ∀ owner, first.2.memberId = some owner → second.2.memberId = some owner →
    intrinsicallyPaused state first.1 = .ok false →
    intrinsicallyPaused state second.1 = .ok false →
    second.2.creditedLaborMicroseconds ≠ second.1.creditedLaborMicroseconds →
      first.2.remainingWorkMicroseconds = 0

/-- The loop over the visits of a segment reaches them in order. -/
theorem advanceVisits_laborInOrder {assignments : List AssignedVisit}
    {advance advance' : SegmentAdvance}
    (h : assignments.foldlM (advanceVisit state segment starting) advance = .ok advance')
    (hremaining : ∀ assignment ∈ assignments, 0 ≤ assignment.visit.remainingWorkMicroseconds) :
    ∃ updated, advance'.visits = advance.visits ++ updated ∧
      List.Forall₂ (fun assignment updated => Progressed assignment.visit updated) assignments
        updated ∧
      (((assignments.map (·.visit)).zip updated).Pairwise (LaborInOrder state)) ∧
      ∀ owner, SpentIn state segment starting advance.consumption owner →
        ∀ move ∈ (assignments.map (·.visit)).zip updated, move.2.memberId = some owner →
          move.2.creditedLaborMicroseconds = move.1.creditedLaborMicroseconds := by
  induction assignments generalizing advance with
  | nil =>
    rw [List.foldlM_nil, pure_eq_ok] at h
    subst h
    exact ⟨[], by simp, .nil, .nil, fun _ _ _ hmem => absurd hmem List.not_mem_nil⟩
  | cons assignment assignments ih =>
    simp only [List.foldlM_cons, bind_eq_ok] at h
    obtain ⟨next, hnext, hrest⟩ := h
    have hfirst := hremaining assignment List.mem_cons_self
    obtain ⟨updated, hvisits, hprogressed, -⟩ := advanceVisit_eq_ok hnext
    obtain ⟨row, causes, -, hrow, -, hadvance⟩ := advanceVisit_cases hnext
    obtain rfl : row = updated := by
      rw [hrow] at hvisits
      exact List.singleton_inj.mp (List.append_cancel_left hvisits)
    obtain ⟨rest, hrestVisits, hall, hordered, hspent⟩ := ih hrest
      fun a ha => hremaining a (List.mem_cons_of_mem _ ha)
    refine ⟨row :: rest, ?_, .cons hprogressed hall, ?_, fun owner hnone move hmove howner => ?_⟩
    · rw [hrestVisits, hvisits, List.append_assoc, List.singleton_append]
    · rw [List.map_cons, List.zip_cons_cons]
      refine .cons (fun move hmove owner hhead howner hruns _ hcredits => ?_) hordered
      rw [hprogressed.memberId] at hhead
      -- a first visit that keeps labor has spent the time of its owner
      by_contra hkeeps
      exact hcredits (hspent owner (hadvance.spent hhead hruns hkeeps) move hmove howner)
    · rw [List.map_cons, List.zip_cons_cons] at hmove
      rcases List.mem_cons.mp hmove with rfl | htail
      · rw [hprogressed.memberId] at howner
        exact hadvance.credited_eq howner hnone hfirst
      · exact hspent owner (hnone.mono (hadvance.get_le hfirst)) move htail howner

/-- The work item of the first visit comes before that of the second one in the ranking. -/
def RankedAbove (state : LiveTeamState p) (high low : StatusVisitState) : Prop :=
  ∃ above below, getItem (·.id) state.scrum.workItems high.workItemId = .ok above ∧
    getItem (·.id) state.scrum.workItems low.workItemId = .ok below ∧
    Ordering.lexLe (simulatorRank p below) (simulatorRank p above) = false

/-- The visits of a segment are in the order of their ranks. -/
theorem rankedVisits_pairwise {visits ordered : List StatusVisitState}
    (h : rankedVisits state visits = .ok ordered) :
    ordered.Pairwise fun first second => ¬ RankedAbove state second first := by
  simp only [rankedVisits, bind_eq_ok, pure_eq_ok] at h
  obtain ⟨pairs, hpairs, rfl⟩ := h
  have hrank : ∀ pair ∈ Ordering.sortOn (·.1) pairs, ∀ work,
      getItem (·.id) state.scrum.workItems pair.2.workItemId = .ok work →
        simulatorRank p work = pair.1 := by
    intro pair hpair work hwork
    obtain ⟨visit, -, hvisit⟩ := exists_of_mem_mapM hpairs (Ordering.mem_sortOn.mp hpair)
    simp only [bind_eq_ok, pure_eq_ok] at hvisit
    obtain ⟨work', hwork', rfl⟩ := hvisit
    rw [hwork] at hwork'
    cases hwork'
    rfl
  rw [List.pairwise_map]
  refine (Ordering.sortOn_pairwise (·.1) pairs).imp_of_mem ?_
  rintro first second hfirst hsecond hle ⟨above, below, habove, hbelow, hnot⟩
  rw [hrank second hsecond above habove, hrank first hfirst below hbelow, hle] at hnot
  cases hnot

/-- Over a segment labor reaches the visits of a member in the order of their ranks. -/
theorem advanceSegment_ranked {visits : List StatusVisitState} {consumption : Consumption}
    {blocked : List Uuid} {advance : SegmentAdvance}
    (h : advanceSegment state visits consumption segment blocked = .ok advance)
    (hremaining : ∀ visit ∈ visits, 0 ≤ visit.remainingWorkMicroseconds) :
    ∃ moves : List (StatusVisitState × StatusVisitState),
      (moves.map Prod.fst).Perm (visits.filter fun visit => visit.id ∉ blocked) ∧
      advance.visits = (visits.filter fun visit => visit.id ∈ blocked) ++ moves.map Prod.snd ∧
      (∀ move ∈ moves, SameVisit move.1 move.2) ∧
      ∀ high ∈ moves, ∀ low ∈ moves, RankedAbove state high.1 low.1 →
        LaborInOrder state high low := by
  simp only [advanceSegment, bind_eq_ok] at h
  obtain ⟨ordered, hordered, assignments, hassignments, hadvance⟩ := h
  have hperm := rankedVisits_perm hordered
  have hassigned := assignOwners_forall₂ hassignments
  have hnonneg : ∀ assignment ∈ assignments,
      0 ≤ assignment.visit.remainingWorkMicroseconds := by
    intro assignment hassignment
    obtain ⟨visit, hvisit, hassign⟩ := forall₂_exists_left hassigned hassignment
    rw [hassign.visit_eq]
    exact hremaining visit (List.mem_filter.mp (hperm.mem_iff.mp hvisit)).1
  obtain ⟨updated, hvisits, hall, hlabor, -⟩ := advanceVisits_laborInOrder hadvance hnonneg
  have hsame : List.Forall₂ SameVisit ordered updated := by
    refine forall₂_comp hassigned hall fun visit assignment row hassign hprogressed => ?_
    refine SameVisit.trans ?_ hprogressed.toSameVisit
    rw [hassign.visit_eq]
    exact ⟨rfl, rfl, rfl, rfl, rfl, rfl, rfl, rfl, rfl, rfl, rfl⟩
  have hlength : ordered.length = updated.length := hsame.length_eq
  have hfst : (ordered.zip updated).map Prod.fst = ordered := List.map_fst_zip hlength.le
  have hsnd : (ordered.zip updated).map Prod.snd = updated := List.map_snd_zip hlength.ge
  -- an assignment changes neither the status nor the labor of a visit
  have hpairs : (ordered.zip updated).Pairwise (LaborInOrder state) := by
    have hmoves : List.Forall₂ (fun assigned move : StatusVisitState × StatusVisitState =>
        move.2 = assigned.2 ∧ assigned.1 = { move.1 with memberId := assigned.1.memberId })
        ((assignments.map (·.visit)).zip updated) (ordered.zip updated) := by
      clear hlabor hsame hlength hfst hsnd hvisits hnonneg hperm hadvance hassignments hordered
      induction hassigned generalizing updated with
      | nil => exact .nil
      | cons hassign _ ih =>
        cases hall with
        | cons _ hrest => exact .cons ⟨rfl, hassign.visit_eq⟩ (ih _ hrest)
    refine pairwise_of_forall₂ hmoves hlabor ?_
    rintro assigned assigned' ⟨visit, row⟩ ⟨visit', row'⟩ hlabor ⟨hrow, hvisit⟩ ⟨hrow', hvisit'⟩ owner
      howner howner' hruns hruns' hcredits
    rw [LaborInOrder, hvisit, hvisit', ← hrow, ← hrow'] at hlabor
    exact hlabor owner howner howner' hruns hruns' hcredits
  have hranked : (ordered.zip updated).Pairwise fun first second =>
      ¬ RankedAbove state second.1 first.1 := by
    have h := rankedVisits_pairwise hordered
    rw [← hfst] at h
    exact List.pairwise_map.mp h
  refine ⟨ordered.zip updated, ?_, ?_, ?_, ?_⟩
  · rw [hfst]
    exact hperm
  · rw [hsnd, hvisits]
  · rintro ⟨visit, row⟩ hmove
    exact (List.forall₂_iff_zip.mp hsame).2 hmove
  · have hirrefl : ∀ visit : StatusVisitState, ¬ RankedAbove state visit visit := by
      rintro visit ⟨work, work', hwork, hwork', hnot⟩
      rw [hwork] at hwork'
      cases hwork'
      have hrefl := (Ordering.lexLe_total (simulatorRank p work) (simulatorRank p work)).elim id id
      rw [hrefl] at hnot
      cases hnot
    let ordersLabor (a b : StatusVisitState × StatusVisitState) : Prop :=
      RankedAbove state a.1 b.1 → LaborInOrder state a b
    have hsymm : Std.Symm fun a b => ordersLabor a b ∧ ordersLabor b a := ⟨fun _ _ => And.symm⟩
    have hboth := List.Pairwise.forall_of_forall (l := ordered.zip updated)
      (R := fun a b => ordersLabor a b ∧ ordersLabor b a)
      (fun a _ => ⟨fun h => absurd h (hirrefl a.1), fun h => absurd h (hirrefl a.1)⟩)
      ((hpairs.and hranked).imp fun hlabor => ⟨fun _ => hlabor.1, fun h => absurd h hlabor.2⟩)
    exact fun high hhigh low hlow => (hboth hhigh hlow).1

end labor

/-- Owners are chosen in order: a visit without an owner has a reason that names the first check
that every member fails, and labor reaches the visits of a member in the order of their ranks. -/
theorem owners_chosen_in_order (state : LiveTeamState p) :
    (∀ visits segment consumption assignments,
      assignOwners state visits segment consumption = .ok assignments →
      ∀ assigned ∈ assignments, assigned.visit.memberId = none →
        (∀ identity ∈ state.scrum.memberIdentities,
          ¬ HasRoom state segment consumption (ownersOf (assignments.map (·.visit))) assigned.visit
            identity) ∧
        ∃ reason, assigned.deniedReason = some reason ∧
          NamesFirstFailure state segment consumption (ownersOf (assignments.map (·.visit)))
            assigned.visit reason) ∧
    ∀ visits consumption segment blocked advance, (∀ visit ∈ visits, visit.Valid) →
      advanceSegment state visits consumption segment blocked = .ok advance →
      ∃ moves : List (StatusVisitState × StatusVisitState),
        (moves.map Prod.fst).Perm (visits.filter fun visit => visit.id ∉ blocked) ∧
        advance.visits = (visits.filter fun visit => visit.id ∈ blocked) ++ moves.map Prod.snd ∧
        (∀ move ∈ moves, SameVisit move.1 move.2) ∧
        ∀ high ∈ moves, ∀ low ∈ moves, RankedAbove state high.1 low.1 →
          LaborInOrder state high low := by
  constructor
  · intro visits segment consumption assignments h assigned hassigned hnone
    exact assignOwners_denied h hassigned hnone
  · intro visits consumption segment blocked advance hvalid h
    exact advanceSegment_ranked h fun visit hvisit => (hvalid visit hvisit).remaining.1

/-! ### A segment without time -/

/-- The small team with two stories in its sprint, each with one hour of development. -/
def pairDocument : BlueprintDocument :=
  let document := smallDocument [{ rejectionRule with baseProbability := 0 }] 0 0 0
  { document with
    scrum := { document.scrum with capacityMinPoints := 2 }
    timing := { document.timing with
      entries := [
        { dwellTiming "DEV" 0 with touchMin := 1, touchMax := 1 },
        dwellTiming "CODE_REVIEW" 0, dwellTiming "QA" 0] } }

theorem pairDocument_accepted : pairDocument.validate = .ok () := by
  decide +kernel

def pairBlueprint : ResolvedTeamBlueprint where
  toBlueprintDocument := pairDocument
  accepted := pairDocument_accepted

/-- What the first segment of the second tick finds: its owners, and one visit with one member. -/
structure SegmentFinding where
  store : TeamStore utcPlatform
  outcome : SegmentsOutcome
  segment : BusinessSegment
  consumption : Consumption
  assignments : List AssignedVisit
  assigned : AssignedVisit
  identity : MemberIdentity
  member : MemberBlueprint
  fraction : ℚ
  ceiling : ℤ

/-- The first story has left development, and its review completes as soon as the second tick
starts: the tick plays a segment without time. -/
def emptySegment : Result SegmentFinding := do
  let store ← runTeam utcPlatform (startAfter pairBlueprint 0) [tickUntil utcPlatform pairBlueprint 3]
  let calendar ← store.state.calendar
  let endsAt := firstMonday + 3 * microsecondsPerHour
  let segments ← businessSegments store.state calendar (cursor store.state) endsAt
  let outcome ← runSegments store.state calendar [] endsAt segments (openVisits store.state)
    (consumptionMap store.state)
  let played ← getIndex outcome.played 0
  let (segment, visits, consumption, _) := played
  let ordered ← rankedVisits store.state visits
  let assignments ← assignOwners store.state ordered segment consumption
  let assigned ← next (fun assigned => assigned.visit.memberId = none &&
    assigned.visit.statusKey = "DEV") assignments
  let identity ← getIndex store.state.scrum.memberIdentities 0
  let member ← memberBlueprint store.state identity
  let fraction ← effectiveFraction store.state identity segment
  let ceiling ← dailyCeiling store.state identity segment
  return { store, outcome, segment, consumption, assignments, assigned, identity, member, fraction,
           ceiling }

/-- In a segment without time a visit has no owner although a member who carries its activity is
available, has not reached the ceiling of the day and has room. -/
theorem unowned_beside_idle_member :
    ∃ (store : TeamStore utcPlatform) (visits : List StatusVisitState) (segment : BusinessSegment)
      (consumption : Consumption) (assignments : List AssignedVisit),
      runTeam utcPlatform (startAfter pairBlueprint 0) [tickUntil utcPlatform pairBlueprint 3] =
        .ok store ∧
      assignOwners store.state visits segment consumption = .ok assignments ∧
      ∃ assigned ∈ assignments, assigned.visit.memberId = none ∧
        assigned.deniedReason = some .DAILY_CAPACITY ∧
        ∃ identity ∈ store.state.scrum.memberIdentities, ∃ member fraction ceiling,
          memberBlueprint store.state identity = .ok member ∧
          (proficiency member assigned.visit.activityKey).isSome ∧
          effectiveFraction store.state identity segment = .ok fraction ∧ 0 < fraction ∧
          dailyCeiling store.state identity segment = .ok ceiling ∧
          0 < ceiling - consumption.get (identity.id, segment.businessDate) ∧
          (ownersOf (assignments.map (·.visit))).count identity.id < member.maxConcurrentWip := by
  obtain ⟨found, hfound, hholds⟩ := @exists_of_any _ emptySegment
    (fun found => found.assigned.deniedReason = some .DAILY_CAPACITY ∧
      (proficiency found.member found.assigned.visit.activityKey).isSome ∧ 0 < found.fraction ∧
      0 < found.ceiling - found.consumption.get (found.identity.id, found.segment.businessDate) ∧
      (ownersOf (found.assignments.map (·.visit))).count found.identity.id <
        found.member.maxConcurrentWip) (by decide +kernel)
  obtain ⟨hdenied, hcapable, hpos, hcapacity, hroom⟩ := of_decide_eq_true hholds
  simp only [emptySegment, bind_eq_ok, pure_eq_ok] at hfound
  obtain ⟨store, hrun, calendar, -, segments, -, outcome, -, ⟨segment, visits, consumption, advance⟩, -,
    ordered, -, assignments, hassignments, assigned, hassigned, identity, hidentity, member, hmember,
    fraction, hfraction, ceiling, hceiling, rfl⟩ := hfound
  obtain ⟨hmem, hnone⟩ := mem_of_next hassigned
  refine ⟨store, ordered, segment, consumption, assignments, hrun, hassignments, assigned, hmem, ?_,
    hdenied, identity, ?_, member, fraction, ceiling, hmember, hcapable, hfraction, hpos, hceiling,
    hcapacity, hroom⟩
  · rw [Bool.and_eq_true] at hnone
    exact of_decide_eq_true hnone.1
  · exact List.mem_of_getElem? (getIndex_eq_ok.mp hidentity)

end JiraSimulator
