import JiraSimulator.Correctness.LaborBalance
import JiraSimulator.Correctness.OwnerChoice

/-!
# The limits of capacity

No member works beyond its capacity.  In a segment it is credited at most its fraction of the
segment, its consumption on the date stays below the daily ceiling unless it was above it before,
and labor is credited only to visits that the member may work on.  So no row of the consumption
exceeds the daily capacity of its member, in any reachable state.

* `dailyCeiling_le_capacity`: no ceiling exceeds the daily capacity.
* `keepsCapacity_of_advance`: the limits of one segment.
* `capacity_kept`: the limits of every tick, and of the rows of every reachable state.
-/

namespace JiraSimulator

open Library Library.Outcome Library.Transition ScrumCollections

variable {p : Platform}

/-! ### The daily capacity -/

section ceiling

variable {state : LiveTeamState p} {identity : MemberIdentity} {segment : BusinessSegment}

/-- The daily capacity of a member in microseconds. -/
def dailyCapacity (member : MemberBlueprint) : ℤ :=
  hoursToRoundedMicroseconds member.dailyCapacityHours

/-- No ceiling exceeds the daily capacity: the fraction of the time is at most one. -/
theorem dailyCeiling_le_capacity {member : MemberBlueprint} {ceiling : ℤ}
    (hmember : memberBlueprint state identity = .ok member)
    (h : dailyCeiling state identity segment = .ok ceiling) : ceiling ≤ dailyCapacity member := by
  simp only [dailyCeiling, hmember, ok_bind, bind_eq_ok, pure_eq_ok] at h
  obtain ⟨fraction, hfraction, rfl⟩ := h
  have hmem := memberBlueprint_mem hmember
  obtain ⟨hpos, hhours⟩ := state.aggregate.blueprint.dailyCapacityHours_le hmem
  obtain ⟨hnonneg, hone⟩ := effectiveFraction_mem hfraction
  set least := (activeCeilings state member identity.id segment).foldl min
    (hoursToRoundedMicroseconds member.dailyCapacityHours)
  have hle : least ≤ dailyCapacity member := Ordering.foldl_min_le _ _
  have hday : dailyCapacity member ≤ 86400000000 := hoursToRoundedMicroseconds_le hpos.le hhours
  have hge : 0 ≤ least := by
    refine Ordering.le_foldl_min (hoursToRoundedMicroseconds_nonneg hpos.le) fun value hvalue => ?_
    rcases List.mem_append.mp hvalue with hconfigured | hoverlay
    · obtain ⟨interval, hinterval, rfl⟩ := List.mem_map.mp hconfigured
      exact hoursToRoundedMicroseconds_nonneg (state.aggregate.blueprint.override_pos hmem
        (List.mem_filter.mp hinterval).1).le
    · obtain ⟨overlay, hoverlay, hceiling⟩ := List.mem_filterMap.mp hoverlay
      exact (overlay_bounds (List.mem_filter.mp (List.mem_filter.mp hoverlay).1).1).2 value hceiling
  exact (scaled_le hge (by omega) hnonneg hone).trans hle

theorem dailyCapacity_nonneg {member : MemberBlueprint}
    (hmember : memberBlueprint state identity = .ok member) : 0 ≤ dailyCapacity member :=
  hoursToRoundedMicroseconds_nonneg
    (state.aggregate.blueprint.dailyCapacityHours_le (memberBlueprint_mem hmember)).1.le

/-- The capacity of a member whose blueprint exists is defined in every segment. -/
theorem capacity_defined {member : MemberBlueprint}
    (hmember : memberBlueprint state identity = .ok member) :
    ∃ fraction available ceiling, effectiveFraction state identity segment = .ok fraction ∧
      availableMicroseconds state identity segment = .ok available ∧
      dailyCeiling state identity segment = .ok ceiling := by
  have hfraction : effectiveFraction state identity segment =
      .ok ((activeFractions state member identity.id segment).foldl min 1) := by
    rw [effectiveFraction, hmember, ok_bind]
    rfl
  have havailable : ∃ available, availableMicroseconds state identity segment = .ok available := by
    rw [availableMicroseconds, hfraction]
    exact ⟨_, rfl⟩
  have hceiling : ∃ ceiling, dailyCeiling state identity segment = .ok ceiling := by
    rw [dailyCeiling, hmember, ok_bind, hfraction]
    exact ⟨_, rfl⟩
  obtain ⟨available, havailable⟩ := havailable
  obtain ⟨ceiling, hceiling⟩ := hceiling
  exact ⟨_, available, ceiling, hfraction, havailable, hceiling⟩

/-- Time is available in a segment that is not reversed. -/
theorem availableMicroseconds_nonneg {available : ℤ}
    (h : availableMicroseconds state identity segment = .ok available)
    (hsegment : segment.start ≤ segment.finish) : 0 ≤ available := by
  simp only [availableMicroseconds, bind_eq_ok, pure_eq_ok] at h
  obtain ⟨fraction, hfraction, rfl⟩ := h
  obtain ⟨hnonneg, -⟩ := effectiveFraction_mem hfraction
  have htime : 0 ≤ segment.microseconds := by
    unfold BusinessSegment.microseconds
    omega
  have hfloat : 0 ≤ floatOfInt segment.microseconds :=
    Rounding.roundToPrecision_nonneg (by exact_mod_cast htime)
  exact Rounding.roundHalfEven_nonneg (Rounding.roundToPrecision_nonneg (mul_nonneg hfloat hnonneg))

end ceiling

/-! ### The limits of a segment -/

/-- A member of the state works on a visit in a segment. -/
structure WorksOn (state : LiveTeamState p) (segment : BusinessSegment) (visit : StatusVisitState)
    (identity : MemberIdentity) : Prop where
  owner : visit.memberId = some identity.id
  capable : Capable state visit identity
  available : ∃ fraction, effectiveFraction state identity segment = .ok fraction ∧ 0 < fraction

/-- The limits of a segment: each member is credited at most its time in the segment, its
consumption grows no further than its ceiling, and labor is credited only to visits that their owner
works on. -/
structure KeepsCapacity (state : LiveTeamState p) (entry : PlayedSegment) : Prop where
  members : ∀ identity ∈ state.scrum.memberIdentities, ∃ available ceiling,
    availableMicroseconds state identity entry.1 = .ok available ∧
    dailyCeiling state identity entry.1 = .ok ceiling ∧
    segmentLabor entry.2.1 entry.2.2.2.visits identity.id ≤ available ∧
    entry.2.2.2.consumption.get (identity.id, entry.1.businessDate) ≤
      max (entry.2.2.1.get (identity.id, entry.1.businessDate)) ceiling
  credits : ∀ before ∈ entry.2.1, ∀ after ∈ entry.2.2.2.visits, after.id = before.id →
    after.creditedLaborMicroseconds ≠ before.creditedLaborMicroseconds →
    ∃ identity ∈ state.scrum.memberIdentities, WorksOn state entry.1 after identity

theorem keepsCapacity_of_advance {state : LiveTeamState p} {visits : List StatusVisitState}
    {consumption : Consumption} {segment : BusinessSegment} {blocked : List Uuid}
    {advance : SegmentAdvance}
    (h : advanceSegment state visits consumption segment blocked = .ok advance)
    (hmembers : ∀ identity ∈ state.scrum.memberIdentities,
      identity.blueprintIndex < state.aggregate.blueprint.members.length)
    (hordered : segment.start ≤ segment.finish) (hnodup : (visits.map (·.id)).Nodup) :
    KeepsCapacity state (segment, visits, consumption, advance) := by
  obtain ⟨moves, hmoves⟩ := advanceSegment_eq_ok h
  constructor
  · intro identity hidentity
    have hmember : memberBlueprint state identity = .ok
        (state.aggregate.blueprint.members.get
          ⟨identity.blueprintIndex, hmembers identity hidentity⟩) :=
      getIndex_eq_ok.mpr (List.getElem?_eq_getElem _)
    obtain ⟨fraction, available, ceiling, -, havailable, hceiling⟩ := capacity_defined hmember
    obtain ⟨hsegment, hday⟩ := hmoves.capacity identity hidentity available ceiling havailable
      (availableMicroseconds_nonneg havailable hordered) hceiling
    refine ⟨available, ceiling, havailable, hceiling, ?_, hday⟩
    -- what the segment credits to the visits of the member is what it consumes
    have hlabor := hmoves.labor (identity.id, segment.businessDate)
    rw [if_pos rfl, ← hmoves.segmentLabor_eq hnodup] at hlabor
    dsimp only at hsegment hlabor ⊢
    omega
  · intro before hbefore after hafter hid hcredited
    rw [hmoves.after, List.mem_append] at hafter
    rcases hafter with hblocked | hmoved
    · have hmem := (List.mem_filter.mp hblocked).1
      obtain rfl : after = before := List.inj_on_of_nodup_map hnodup hmem hbefore hid
      exact absurd rfl hcredited
    · obtain ⟨move, hmove, rfl⟩ := List.mem_map.mp hmoved
      obtain ⟨hsame, -⟩ := hmoves.same move hmove
      have hmem : move.1 ∈ visits :=
        (List.mem_filter.mp (hmoves.before.mem_iff.mp (List.mem_map_of_mem hmove))).1
      obtain rfl : move.1 = before :=
        List.inj_on_of_nodup_map hnodup hmem hbefore (hsame.id.symm.trans hid)
      obtain ⟨owner, howner⟩ := Option.ne_none_iff_exists'.mp (hmoves.gain move hmove hcredited)
      obtain ⟨identity, hidentity, rfl, member, fraction, hmember, hcapable, hfraction, hne⟩ :=
        hmoves.owners move hmove owner howner
      refine ⟨identity, hidentity, howner, ⟨member, hmember, ?_⟩, fraction, hfraction,
        (effectiveFraction_pos_iff hfraction).mpr hne⟩
      rwa [hsame.activityKey]

/-! ### The limits of a tick -/

section tick

variable {state : LiveTeamState p} {visits visits' : List StatusVisitState}
  {consumption consumption' : Consumption} {blocked : List Uuid} {played : List PlayedSegment}

theorem Plays.keepsCapacity (h : Plays state blocked visits consumption played visits' consumption')
    (hmembers : ∀ identity ∈ state.scrum.memberIdentities,
      identity.blueprintIndex < state.aggregate.blueprint.members.length)
    (hordered : ∀ entry ∈ played, entry.1.start ≤ entry.1.finish)
    (hvalid : ∀ visit ∈ visits, visit.Valid) (hnodup : (visits.map (·.id)).Nodup) :
    ∀ entry ∈ played, KeepsCapacity state entry := by
  induction h with
  | done =>
    intro entry hentry
    cases hentry
  | @play visits visits' consumption consumption' segment advance played hadvance _ ih =>
    obtain ⟨moves, hmoves⟩ := advanceSegment_eq_ok hadvance
    have hsame := hmoves.sameVisits hvalid
    have hrest := ih (fun entry he => hordered entry (List.mem_cons_of_mem _ he))
      (fun visit hvisit => (hsame.same visit hvisit).1) (hsame.nodup hnodup)
    have hfirst := keepsCapacity_of_advance hadvance hmembers (hordered _ List.mem_cons_self) hnodup
    exact List.forall_mem_cons.mpr ⟨hfirst, hrest⟩

/-- No member consumes beyond its daily capacity. -/
def WithinDay (state : LiveTeamState p) (consumption : Consumption) : Prop :=
  ∀ identity ∈ state.scrum.memberIdentities, ∀ member, memberBlueprint state identity = .ok member →
    ∀ date, consumption.get (identity.id, date) ≤ dailyCapacity member

theorem Plays.withinDay (h : Plays state blocked visits consumption played visits' consumption')
    (hordered : ∀ entry ∈ played, entry.1.start ≤ entry.1.finish)
    (hwithin : WithinDay state consumption) : WithinDay state consumption' := by
  induction h with
  | done => exact hwithin
  | @play visits visits' consumption consumption' segment advance played hadvance _ ih =>
    obtain ⟨moves, hmoves⟩ := advanceSegment_eq_ok hadvance
    refine ih (fun entry he => hordered entry (List.mem_cons_of_mem _ he)) ?_
    intro identity hidentity member hmember date
    have hbefore := hwithin identity hidentity member hmember date
    by_cases hdate : date = segment.businessDate
    · subst hdate
      obtain ⟨fraction, available, ceiling, -, havailable, hceiling⟩ := capacity_defined hmember
      obtain ⟨-, hday⟩ := hmoves.capacity identity hidentity available ceiling havailable
        (availableMicroseconds_nonneg havailable (hordered _ List.mem_cons_self)) hceiling
      have hle := dailyCeiling_le_capacity hmember hceiling
      omega
    · have hlabor := hmoves.labor (identity.id, date)
      rw [if_neg hdate, add_zero] at hlabor
      omega

end tick

/-! ### The members of a run -/

/-- The boundary of a sprint leaves the members alone. -/
theorem BoundaryStep.memberIdentities {state : LiveTeamState p} {boundary : ℤ}
    {transition : SprintTransition p} (h : BoundaryStep state boundary transition) :
    transition.state.memberIdentities = [] := by
  cases h with
  | quiet h => rw [h]; rfl
  | activates _ _ _ _ _ _ _ _ _ _ hframe _ _ _ _ h =>
    rw [h]
    exact hframe.memberIdentities
  | rolls _ _ _ _ _ _ _ _ _ _ _ _ _ _ hframe _ _ _ _ _ _ _ h =>
    rw [h]
    exact hframe.memberIdentities

section members

variable {store store' : TeamStore p} {command : AuthoritativeTickSliceCommit p}
  {draws : DrawSource} {advance : RiskAdvance p} {outcome : SegmentsOutcome}
  {finish : StatusVisitState → FinishedVisit}

theorem TickRun.risks_members (hrun : TickRun store.state draws advance outcome finish) :
    advance.state.scrum.memberIdentities = store.scrum.memberIdentities := by
  have hframe : RiskFrame store.scrum.toScrumCollections advance.state.scrum.toScrumCollections :=
    riskSteps_induction (motive := fun w => RiskFrame store.scrum.toScrumCollections
      w.scrum.toScrumCollections) (evaluateDueRisks_working hrun.risks hrun.working)
      (RiskFrame.refl _) fun _ _ _ _ hw _ hstep _ => hw.trans hstep
  exact hframe.memberIdentities

/-- No commit adds or drops a member. -/
theorem Committed.mem_members {event : TeamEvent} (h : Committed store command store')
    (hof : CommandOf store.state event command) (identity : MemberIdentity) :
    identity ∈ store'.scrum.memberIdentities ↔ identity ∈ store.scrum.memberIdentities := by
  cases hof with
  | tick request draws advance _ _ hadvance _ _ hassembled =>
    obtain ⟨outcome, finish, hrun⟩ := tickAdvance_eq_ok hadvance
    rw [show identity ∈ store'.scrum.memberIdentities ↔ _ from
      h.mem_tick Collection.memberIdentities hrun.working hassembled (fun _ _ _ => rfl)]
    simp [progressRows, hrun.risks_members]
  | boundary instant transition _ hstep _ hstate =>
    have hnone : command.state.memberIdentities = [] := hstate ▸ hstep.memberIdentities
    rw [show identity ∈ store'.scrum.memberIdentities ↔ _ from
      h.mem_rows Collection.memberIdentities (fun _ _ _ => rfl)]
    simp [hnone]
  | downtime hstate =>
    exact h.mem_of_empty Collection.memberIdentities (fun _ _ _ => rfl) hstate

/-- The members of a loaded store have blueprints. -/
theorem TeamStore.Loaded.member_lt (h : store.Loaded) :
    ∀ identity ∈ store.scrum.memberIdentities,
      identity.blueprintIndex < store.aggregate.blueprint.members.length := by
  have hvalid := h.validateAgainst
  simp only [ScrumCollections.validateAgainst, validateBlueprintMembers, bind_eq_ok, exists_unit,
    forM_eq_ok, require_eq_ok] at hvalid
  exact hvalid.2.1

end members

/-! ### Runs -/

theorem TeamStore.consumption_get (store : TeamStore p) (member : Uuid) (date : ℤ) :
    (consumptionMap store.state).get (member, date) =
      consumedAt store.scrum.memberBusinessDateConsumption member date :=
  consumptionMap_get store.state member date

/-- In every reachable state no member has consumed beyond its daily capacity. -/
theorem withinDay_of_reachable {store : TeamStore p} (h : (teamRuns p).Reachable store) :
    WithinDay store.state (consumptionMap store.state) := by
  refine run_induction (I := fun store => WithinDay store.state (consumptionMap store.state)) h
    ?_ ?_ ?_
  · intro start draws context picked initial store _ hboot identity _ member hmember date
    have hnone : store.scrum.memberBusinessDateConsumption = [] := by
      refine List.eq_nil_iff_forall_not_mem.mpr fun row hrow => ?_
      have hmem := (hboot.mem_rows Collection.consumption).mp hrow
      rw [show Collection.consumption.rows initial.toScrumCollections = [] from
        hboot.initialRows.consumption] at hmem
      cases hmem
    have hzero : (consumptionMap store.state).get (identity.id, date) = 0 := by
      rw [consumptionMap, show store.state.scrum.memberBusinessDateConsumption = [] from hnone]
      rfl
    rw [hzero]
    exact dailyCapacity_nonneg hmember
  · intro store store' _ hwithin hprovision
    rw [hprovision.same]
    exact hwithin
  · intro store event command store' hreach hwithin _ _ hof hcommitted identity hidentity member
      hmember date
    have hmem := (hcommitted.mem_members hof identity).mp hidentity
    have hblueprint : memberBlueprint store.state identity = .ok member := by
      rw [← hmember]
      show getIndex store.aggregate.blueprint.members _ =
        getIndex store'.aggregate.blueprint.members _
      rw [hcommitted.blueprint_eq]
    rw [store'.consumption_get]
    cases hof with
    | tick request draws advance _ _ hadvance _ _ hassembled =>
      obtain ⟨outcome, finish, hrun⟩ := tickAdvance_eq_ok hadvance
      have haggregate : advance.state.aggregate = store.aggregate :=
        (LiveTeamState.withWriteSet_eq_ok.mp hrun.working).1
      -- the risks leave the members and the consumption alone
      have hworking : WithinDay advance.state (consumptionMap advance.state) := by
        intro other hother member' hmember' date'
        rw [hrun.risks_members] at hother
        rw [memberBlueprint, haggregate] at hmember'
        have hbefore := hwithin other hother member' hmember' date'
        rwa [consumptionMap_get, hrun.risks_consumption, ← store.consumption_get]
      have hplayed := hrun.plays.withinDay (fun entry hentry => (hrun.within entry hentry).ordered)
        hworking
      rw [hrun.consumption_eq hcommitted hassembled]
      refine hplayed identity ?_ member ?_ date
      · rw [hrun.risks_members]
        exact hmem
      · rw [memberBlueprint, haggregate]
        exact hblueprint
    | boundary instant transition _ hstep _ hstate =>
      have hperm := hcommitted.consumption_perm (hstate ▸ hstep.consumption)
      have hbefore := hwithin identity hmem member hblueprint date
      rw [store.consumption_get] at hbefore
      unfold consumedAt at hbefore ⊢
      rwa [Keyed.sumAt_perm _ _ hperm]
    | downtime hstate =>
      have hperm := hcommitted.consumption_perm (by rw [hstate])
      have hbefore := hwithin identity hmem member hblueprint date
      rw [store.consumption_get] at hbefore
      unfold consumedAt at hbefore ⊢
      rwa [Keyed.sumAt_perm _ _ hperm]

/-- Every row is of a member, and within its daily capacity. -/
def RowsWithinCapacity (state : LiveTeamState p) : Prop :=
  ∀ row ∈ state.scrum.memberBusinessDateConsumption, ∃ identity ∈ state.scrum.memberIdentities,
    identity.id = row.memberId ∧ ∃ member, memberBlueprint state identity = .ok member ∧
      row.consumedLaborMicroseconds ≤ dailyCapacity member

theorem rowsWithinCapacity_of_reachable {store : TeamStore p} (h : (teamRuns p).Reachable store) :
    RowsWithinCapacity store.state := by
  intro row hrow
  have hcomplete := store.scrum.complete
  obtain ⟨identity, hidentity, hid⟩ := List.mem_map.mp (hcomplete.consumptionMember row hrow)
  have hlt := (Based.of_reachable h).loaded.member_lt identity hidentity
  have hmember : memberBlueprint store.state identity = .ok
      store.aggregate.blueprint.members[identity.blueprintIndex] :=
    getIndex_eq_ok.mpr (List.getElem?_eq_getElem hlt)
  have hwithin := withinDay_of_reachable h identity hidentity _ hmember row.businessDate
  rw [store.consumption_get] at hwithin
  have hat : consumedAt store.scrum.memberBusinessDateConsumption row.memberId row.businessDate =
      row.consumedLaborMicroseconds :=
    Keyed.sumAt_of_mem _ _ hcomplete.toConsistent.consumption_nodup hrow
  refine ⟨identity, hidentity, hid, _, hmember, ?_⟩
  rwa [hid, hat] at hwithin

/-- Every segment of the tick keeps the capacity of the members. -/
def TickKeepsCapacity (store : TeamStore p) (request : TickRequest) (draws : DrawSource) : Prop :=
  ∃ working played, tickSegments store.state request draws = .ok (working, played) ∧
    ∀ entry ∈ played, KeepsCapacity working entry

theorem tickKeepsCapacity_of_step {store store' : TeamStore p} {request : TickRequest}
    {draws : DrawSource} (hreach : (teamRuns p).Reachable store)
    (hstep : (teamRuns p).step store (.tick request draws) store') :
    TickKeepsCapacity store request draws := by
  rcases tickSegments_of_step hreach hstep with ⟨hsegments, -⟩ |
    ⟨command, advance, outcome, finish, hcommitted, hassembled, hrun, hsegments⟩
  · exact ⟨store.state, [], hsegments, by simp⟩
  · refine ⟨advance.state, outcome.played, hsegments, ?_⟩
    have haggregate : advance.state.aggregate = store.aggregate :=
      (LiveTeamState.withWriteSet_eq_ok.mp hrun.working).1
    refine hrun.plays.keepsCapacity ?_ (fun entry hentry => (hrun.within entry hentry).ordered)
      (fun visit hvisit => advance.state.scrum.complete.visit_valid (mem_openVisits.mp hvisit).1)
      (openVisits_nodup advance.state)
    rw [hrun.risks_members, haggregate]
    exact (Based.of_reachable hreach).loaded.member_lt

/-- No member works beyond its capacity: neither on a date of any reachable state, nor in any
segment of any tick. -/
theorem capacity_kept :
    (∀ store : TeamStore p, (teamRuns p).Reachable store → RowsWithinCapacity store.state) ∧
    ∀ (store store' : TeamStore p) (request : TickRequest) (draws : DrawSource),
      (teamRuns p).Reachable store → (teamRuns p).step store (.tick request draws) store' →
      TickKeepsCapacity store request draws :=
  ⟨fun _ h => rowsWithinCapacity_of_reachable h,
    fun _ _ _ _ hreach hstep => tickKeepsCapacity_of_step hreach hstep⟩

end JiraSimulator
