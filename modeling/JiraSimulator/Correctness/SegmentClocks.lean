import JiraSimulator.Correctness.BusinessTime

/-!
# The clocks of a visit over a segment

A visit that is not blocked and whose status does not pause the service clock divides the time of a
segment between credited labor and queue, while work remains.  An owner never credits more than the
segment, because fractions are at most one and a day holds at most twenty-four hours of capacity.

* `segmentCapacity_le`: the labor of an owner in a segment.
* `Plays.clocked`: the clocks of every visit after a run over segments.
-/

namespace JiraSimulator

open Library Library.Outcome Library.Rounding Library.Intervals

variable {p : Platform}

/-! ### Scaled durations -/

/-- A number of microseconds that a double holds exactly, times a fraction. -/
theorem scaled_le {duration : ℤ} {fraction : ℚ} (hduration : 0 ≤ duration)
    (hlt : duration < 2 ^ 53) (hfraction : 0 ≤ fraction) (hone : fraction ≤ 1) :
    pyRound (fmul (floatOfInt duration) fraction) ≤ duration := by
  obtain ⟨n, rfl⟩ := Int.eq_ofNat_of_zero_le hduration
  have hn : n < 2 ^ 53 := by exact_mod_cast hlt
  have hfloat : floatOfInt (n : ℤ) ≤ (n : ℚ) :=
    roundToPrecision_le (by positivity) (by simp) hn
  have hnonneg : 0 ≤ floatOfInt (n : ℤ) := roundToPrecision_nonneg (by positivity)
  have hproduct : floatOfInt (n : ℤ) * fraction ≤ (n : ℚ) :=
    (mul_le_of_le_one_right hnonneg hone).trans hfloat
  have hrounded : fmul (floatOfInt (n : ℤ)) fraction ≤ (n : ℚ) :=
    roundToPrecision_le (mul_nonneg hnonneg hfraction) hproduct hn
  exact roundHalfEven_le (by exact_mod_cast hrounded)

/-- The microseconds of a day. -/
theorem hoursToRoundedMicroseconds_le {hours : ℚ} (hhours : 0 ≤ hours) (hle : hours ≤ 24) :
    hoursToRoundedMicroseconds hours ≤ 86400000000 := by
  have hfloat : floatOfInt microsecondsPerHour ≤ ((3600000000 : ℕ) : ℚ) :=
    roundToPrecision_le (by unfold microsecondsPerHour; norm_num)
      (by unfold microsecondsPerHour; norm_num) (by norm_num)
  have hnonneg : 0 ≤ floatOfInt microsecondsPerHour :=
    roundToPrecision_nonneg (by unfold microsecondsPerHour; norm_num)
  have hproduct : hours * floatOfInt microsecondsPerHour ≤ ((86400000000 : ℕ) : ℚ) := by
    calc hours * floatOfInt microsecondsPerHour ≤ 24 * ((3600000000 : ℕ) : ℚ) :=
          mul_le_mul hle hfloat hnonneg (by norm_num)
      _ = ((86400000000 : ℕ) : ℚ) := by norm_num
  have hrounded : fmul hours (floatOfInt microsecondsPerHour) ≤ ((86400000000 : ℕ) : ℚ) :=
    roundToPrecision_le (mul_nonneg hhours hnonneg) hproduct (by norm_num)
  exact roundHalfEven_le (by exact_mod_cast hrounded)

theorem hoursToRoundedMicroseconds_nonneg {hours : ℚ} (hhours : 0 ≤ hours) :
    0 ≤ hoursToRoundedMicroseconds hours := by
  refine roundHalfEven_nonneg (roundToPrecision_nonneg (mul_nonneg hhours ?_))
  exact roundToPrecision_nonneg (by unfold microsecondsPerHour; norm_num)

/-! ### Capacity -/

section capacity

variable {state : LiveTeamState p} {identity : MemberIdentity} {segment : BusinessSegment}

theorem memberBlueprint_mem {member : MemberBlueprint}
    (h : memberBlueprint state identity = .ok member) :
    member ∈ state.aggregate.blueprint.members :=
  List.mem_of_getElem? (getIndex_eq_ok.mp h)

/-- An accepted overlay has a fraction of the time and a ceiling that is not negative. -/
theorem overlay_bounds {overlay : MemberAvailabilityOverlay}
    (h : overlay ∈ state.scrum.memberAvailabilityOverlays) :
    (0 ≤ overlay.availabilityFraction ∧ overlay.availabilityFraction ≤ 1) ∧
      ∀ ceiling, overlay.dailyCapacityCeilingMicroseconds = some ceiling → 0 ≤ ceiling := by
  have hvalid := state.scrum.complete.toConsistent.rowsValid.memberAvailabilityOverlays overlay h
  simp only [MemberAvailabilityOverlay.validate, requireFraction, requireMicroseconds, bind_eq_ok,
    exists_unit, require_eq_ok, forM_eq_ok, Option.mem_toList] at hvalid
  exact ⟨hvalid.2.2.1, fun ceiling hceiling => (hvalid.2.2.2.1 ceiling hceiling).1⟩

theorem effectiveFraction_mem {fraction : ℚ}
    (h : effectiveFraction state identity segment = .ok fraction) :
    0 ≤ fraction ∧ fraction ≤ 1 := by
  simp only [effectiveFraction, bind_eq_ok, pure_eq_ok] at h
  obtain ⟨member, hmember, rfl⟩ := h
  refine ⟨Ordering.le_foldl_min zero_le_one fun value hvalue => ?_, Ordering.foldl_min_le 1 _⟩
  rcases List.mem_append.mp hvalue with hconfigured | hoverlay
  · obtain ⟨interval, hinterval, rfl⟩ := List.mem_map.mp hconfigured
    exact (state.aggregate.blueprint.availability_mem (memberBlueprint_mem hmember)
      (List.mem_filter.mp hinterval).1).1
  · obtain ⟨overlay, hmem, rfl⟩ := List.mem_map.mp hoverlay
    exact (overlay_bounds (List.mem_filter.mp (List.mem_filter.mp hmem).1).1).1.1

/-- The override of an accepted interval is positive. -/
theorem ResolvedTeamBlueprint.override_pos (blueprint : ResolvedTeamBlueprint)
    {member : MemberBlueprint} (hmember : member ∈ blueprint.members)
    {interval : AvailabilityInterval} (hinterval : interval ∈ member.availability) :
    0 < interval.dailyCapacityHoursOverride := by
  have h := blueprint.accepted_parts.1 member hmember
  simp only [MemberBlueprint.validate, bind_eq_ok, exists_unit, forM_eq_ok] at h
  have hvalid := h.2.2.2.1 interval hinterval
  simp only [AvailabilityInterval.validate, bind_eq_ok, exists_unit, requireField_eq_ok] at hvalid
  exact hvalid.2.1

/-- No member works longer on a date than a day has. -/
theorem dailyCeiling_le {ceiling : ℤ} (h : dailyCeiling state identity segment = .ok ceiling) :
    ceiling ≤ 86400000000 := by
  simp only [dailyCeiling, bind_eq_ok, pure_eq_ok] at h
  obtain ⟨member, hmember, fraction, hfraction, rfl⟩ := h
  have hmem := memberBlueprint_mem hmember
  obtain ⟨hpos, hhours⟩ := state.aggregate.blueprint.dailyCapacityHours_le hmem
  obtain ⟨hnonneg, hone⟩ := effectiveFraction_mem hfraction
  set least := (activeCeilings state member identity.id segment).foldl min
    (hoursToRoundedMicroseconds member.dailyCapacityHours)
  have hle : least ≤ 86400000000 :=
    (Ordering.foldl_min_le _ _).trans (hoursToRoundedMicroseconds_le hpos.le hhours)
  have hge : 0 ≤ least := by
    refine Ordering.le_foldl_min (hoursToRoundedMicroseconds_nonneg hpos.le) fun value hvalue => ?_
    rcases List.mem_append.mp hvalue with hconfigured | hoverlay
    · obtain ⟨interval, hinterval, rfl⟩ := List.mem_map.mp hconfigured
      exact hoursToRoundedMicroseconds_nonneg (state.aggregate.blueprint.override_pos hmem
        (List.mem_filter.mp hinterval).1).le
    · obtain ⟨overlay, hoverlay, hceiling⟩ := List.mem_filterMap.mp hoverlay
      exact (overlay_bounds (List.mem_filter.mp (List.mem_filter.mp hoverlay).1).1).2 value hceiling
  exact (scaled_le hge (by omega) hnonneg hone).trans hle

/-- An owner credits no more labor in a segment than the segment is long. -/
theorem segmentCapacity_le {starting consumption : Consumption} {capacity : Capacity}
    (h : segmentCapacity state identity segment starting consumption = .ok capacity)
    (hsegment : 0 ≤ segment.microseconds) (hstarting : ∀ key, 0 ≤ starting.get key)
    (hgrown : ∀ key, starting.get key ≤ consumption.get key) :
    capacity.microseconds ≤ segment.microseconds := by
  obtain ⟨available, ceiling, havailable, hceiling, hcapacity⟩ := segmentCapacity_eq_ok h
  have hkey := hgrown (identity.id, segment.businessDate)
  have hzero := hstarting (identity.id, segment.businessDate)
  have hday := dailyCeiling_le hceiling
  simp only [availableMicroseconds, bind_eq_ok, pure_eq_ok] at havailable
  obtain ⟨fraction, hfraction, rfl⟩ := havailable
  obtain ⟨hnonneg, hone⟩ := effectiveFraction_mem hfraction
  rw [hcapacity]
  by_cases hlt : segment.microseconds < 2 ^ 53
  · have hscaled := scaled_le hsegment hlt hnonneg hone
    refine (min_le_left _ _).trans (max_le hsegment ?_)
    omega
  · -- a segment too long for a double is longer than any daily capacity
    refine (min_le_right _ _).trans (max_le hsegment ?_)
    omega

end capacity

/-! ### One visit -/

/-- What becomes of the clocks of a visit over some time: while its clock runs and work remains, the
time is divided between labor and queue. -/
structure Clocked (state : LiveTeamState p) (time : ℤ) (visit updated : StatusVisitState) :
    Prop extends SameVisit visit updated where
  nonneg : 0 ≤ updated.remainingWorkMicroseconds
  le : updated.remainingWorkMicroseconds ≤ visit.remainingWorkMicroseconds
  divided : intrinsicallyPaused state visit = .ok false → updated.remainingWorkMicroseconds ≠ 0 →
    updated.creditedLaborMicroseconds + updated.queueMicroseconds =
      visit.creditedLaborMicroseconds + visit.queueMicroseconds + time

theorem intrinsicallyPaused_congr {state : LiveTeamState p} {visit updated : StatusVisitState}
    (h : SameVisit visit updated) :
    intrinsicallyPaused state updated = intrinsicallyPaused state visit := by
  rw [intrinsicallyPaused, intrinsicallyPaused, h.statusKey]

theorem Clocked.refl {state : LiveTeamState p} {visit : StatusVisitState}
    (h : 0 ≤ visit.remainingWorkMicroseconds) : Clocked state 0 visit visit :=
  ⟨.refl visit, h, le_rfl, fun _ _ => (add_zero _).symm⟩

/-- Times that follow one another add up. -/
theorem Clocked.trans {state : LiveTeamState p} {time time' : ℤ} {a b c : StatusVisitState}
    (h : Clocked state time a b) (h' : Clocked state time' b c) :
    Clocked state (time + time') a c where
  toSameVisit := h.toSameVisit.trans h'.toSameVisit
  nonneg := h'.nonneg
  le := h'.le.trans h.le
  divided hclock hremains := by
    have hfirst := h.divided hclock (by have := h'.nonneg; have := h'.le; omega)
    have hsecond := h'.divided ((intrinsicallyPaused_congr h.toSameVisit).trans hclock) hremains
    omega

section segment

variable {state : LiveTeamState p} {segment : BusinessSegment} {starting : Consumption}

theorem advanceVisit_clocked {advance advance' : SegmentAdvance} {assignment : AssignedVisit}
    (h : advanceVisit state segment starting advance assignment = .ok advance')
    (hremaining : 0 ≤ assignment.visit.remainingWorkMicroseconds)
    (hsegment : 0 ≤ segment.microseconds) (hstarting : ∀ key, 0 ≤ starting.get key)
    (hgrown : ∀ key, starting.get key ≤ advance.consumption.get key) :
    ∃ updated, advance'.visits = advance.visits ++ [updated] ∧
      Clocked state segment.microseconds assignment.visit updated ∧
      ∀ key, starting.get key ≤ advance'.consumption.get key := by
  obtain ⟨updated, causes, -, hvisits, -, hadvance⟩ := advanceVisit_cases h
  refine ⟨updated, hvisits, ?_⟩
  generalize advance'.consumption = after at hadvance ⊢
  cases hadvance with
  -- the clock of the visit stands
  | pauses hclock =>
    refine ⟨⟨⟨rfl, rfl, rfl, rfl, rfl, rfl, rfl, rfl, rfl, rfl, rfl⟩, hremaining, le_rfl,
      fun hruns => ?_⟩, hgrown⟩
    rw [hclock] at hruns
    cases hruns
  -- all of the segment goes to the queue, if work remains
  | waits queue causes _ _ hqueue =>
    refine ⟨⟨⟨rfl, rfl, rfl, rfl, rfl, rfl, rfl, rfl, rfl, rfl, rfl⟩, hremaining, le_rfl,
      fun _ hremains => ?_⟩, hgrown⟩
    rw [hqueue, if_pos hremains]
    exact (add_assoc _ _ _).symm
  -- the labor and the queue share the segment
  | works identity capacity credited causes _ _ _ _ hcapacity hcredited =>
    have hnonneg := segmentCapacity_nonneg hcapacity
    have hle := segmentCapacity_le hcapacity hsegment hstarting hgrown
    refine ⟨⟨⟨rfl, rfl, rfl, rfl, rfl, rfl, rfl, rfl, rfl, rfl, rfl⟩, ?_, ?_,
      fun _ hremains => ?_⟩, fun key => ?_⟩
    · simp only [creditedVisit]
      omega
    · simp only [creditedVisit]
      omega
    · simp only [creditedVisit] at hremains ⊢
      rw [if_neg hremains]
      omega
    · rw [Consumption.get_credit]
      have hkey := hgrown key
      split_ifs <;> omega

/-- The loop over the visits of a segment. -/
theorem advanceVisits_clocked {assignments : List AssignedVisit} {advance advance' : SegmentAdvance}
    (h : assignments.foldlM (advanceVisit state segment starting) advance = .ok advance')
    (hremaining : ∀ assignment ∈ assignments, 0 ≤ assignment.visit.remainingWorkMicroseconds)
    (hsegment : 0 ≤ segment.microseconds) (hstarting : ∀ key, 0 ≤ starting.get key)
    (hgrown : ∀ key, starting.get key ≤ advance.consumption.get key) :
    ∃ updated, advance'.visits = advance.visits ++ updated ∧
      List.Forall₂ (fun assignment updated =>
        Clocked state segment.microseconds assignment.visit updated) assignments updated ∧
      ∀ key, starting.get key ≤ advance'.consumption.get key := by
  induction assignments generalizing advance with
  | nil =>
    rw [List.foldlM_nil, pure_eq_ok] at h
    subst h
    exact ⟨[], by simp, .nil, hgrown⟩
  | cons assignment assignments ih =>
    simp only [List.foldlM_cons, bind_eq_ok] at h
    obtain ⟨next, hnext, hrest⟩ := h
    obtain ⟨updated, hvisits, hclocked, hgrown'⟩ := advanceVisit_clocked hnext
      (hremaining assignment List.mem_cons_self) hsegment hstarting hgrown
    obtain ⟨rest, hrestVisits, hall, hlast⟩ := ih hrest
      (fun a ha => hremaining a (List.mem_cons_of_mem _ ha)) hgrown'
    refine ⟨updated :: rest, ?_, .cons hclocked hall, hlast⟩
    rw [hrestVisits, hvisits, List.append_assoc, List.singleton_append]

/-! ### One segment -/

/-- A visit after some time: a blocked one stays as it is, and the clocks of another one advance. -/
def ClockedFrom (state : LiveTeamState p) (blocked : List Uuid) (time : ℤ)
    (visits : List StatusVisitState) (updated : StatusVisitState) : Prop :=
  (updated ∈ visits ∧ updated.id ∈ blocked) ∨
    ∃ visit ∈ visits, visit.id ∉ blocked ∧ Clocked state time visit updated

theorem advanceSegment_clocked {visits : List StatusVisitState} {consumption : Consumption}
    {blocked : List Uuid} {advance : SegmentAdvance}
    (h : advanceSegment state visits consumption segment blocked = .ok advance)
    (hremaining : ∀ visit ∈ visits, 0 ≤ visit.remainingWorkMicroseconds)
    (hsegment : 0 ≤ segment.microseconds) (hconsumption : ∀ key, 0 ≤ consumption.get key) :
    (∀ updated ∈ advance.visits,
      ClockedFrom state blocked segment.microseconds visits updated) ∧
      ∀ key, 0 ≤ advance.consumption.get key := by
  simp only [advanceSegment, bind_eq_ok] at h
  obtain ⟨ordered, hordered, assignments, hassignments, hadvance⟩ := h
  have hperm := rankedVisits_perm hordered
  have hassigned := assignOwners_forall₂ hassignments
  have hnonneg : ∀ assignment ∈ assignments,
      0 ≤ assignment.visit.remainingWorkMicroseconds := by
    intro assignment hassignment
    obtain ⟨visit, hvisit, hassign⟩ := forall₂_exists_left hassigned hassignment
    have hmem := (List.mem_filter.mp (hperm.mem_iff.mp hvisit)).1
    rw [hassign.visit_eq]
    exact hremaining visit hmem
  obtain ⟨updated, hvisits, hall, hgrown⟩ :=
    advanceVisits_clocked hadvance hnonneg hsegment hconsumption fun _ => le_rfl
  refine ⟨fun visit' hvisit' => ?_, fun key => (hconsumption key).trans (hgrown key)⟩
  rw [hvisits, List.mem_append] at hvisit'
  rcases hvisit' with hblocked | hmoved
  · obtain ⟨hmem, hid⟩ := List.mem_filter.mp hblocked
    exact .inl ⟨hmem, of_decide_eq_true hid⟩
  · obtain ⟨assignment, hassignment, hclocked⟩ := forall₂_exists_left hall hmoved
    obtain ⟨visit, hvisit, hassign⟩ := forall₂_exists_left hassigned hassignment
    obtain ⟨hmem, hid⟩ := List.mem_filter.mp (hperm.mem_iff.mp hvisit)
    refine .inr ⟨visit, hmem, of_decide_eq_true hid, ?_⟩
    -- an assignment changes the owner only
    rw [hassign.visit_eq] at hclocked
    exact ⟨⟨hclocked.id, hclocked.teamId, hclocked.runId, hclocked.workItemId, hclocked.ordinal,
      hclocked.lifecycle, hclocked.statusKey, hclocked.activityKey, hclocked.enteredAt,
      hclocked.closedAt, hclocked.required⟩, hclocked.nonneg, hclocked.le, hclocked.divided⟩

end segment

/-! ### Runs over segments -/

/-- After a run over segments a visit is blocked and as it was, or its clocks have advanced by the
time of the segments. -/
theorem Plays.clocked {state : LiveTeamState p} {blocked : List Uuid}
    {visits visits' : List StatusVisitState} {consumption consumption' : Consumption}
    {played : List (BusinessSegment × List StatusVisitState × Consumption × SegmentAdvance)}
    (h : Plays state blocked visits consumption played visits' consumption')
    (hremaining : ∀ visit ∈ visits, 0 ≤ visit.remainingWorkMicroseconds)
    (hsegments : ∀ entry ∈ played, entry.1.start ≤ entry.1.finish)
    (hconsumption : ∀ key, 0 ≤ consumption.get key) :
    ∀ updated ∈ visits', ClockedFrom state blocked (playedTime played) visits updated := by
  induction h with
  | done visits consumption =>
    intro updated hupdated
    by_cases hblocked : updated.id ∈ blocked
    · exact .inl ⟨hupdated, hblocked⟩
    · exact .inr ⟨updated, hupdated, hblocked, .refl (hremaining updated hupdated)⟩
  | @play visits visits' consumption consumption' segment advance played hadvance _ ih =>
    have hordered : segment.start ≤ segment.finish :=
      hsegments (segment, visits, consumption, advance) List.mem_cons_self
    obtain ⟨hclocked, hconsumption'⟩ := advanceSegment_clocked hadvance hremaining
      (by unfold BusinessSegment.microseconds; omega) hconsumption
    -- no visit works more than is left, so the next segment starts as this one did
    have hremaining' : ∀ visit ∈ advance.visits, 0 ≤ visit.remainingWorkMicroseconds := by
      intro visit hvisit
      rcases hclocked visit hvisit with ⟨hmem, -⟩ | ⟨earlier, -, -, hclock⟩
      · exact hremaining visit hmem
      · exact hclock.nonneg
    have htime : playedTime ((segment, visits, consumption, advance) :: played) =
        segment.microseconds + playedTime played := by
      simp only [playedTime, segmentsTime, List.map_cons, total_cons, BusinessSegment.microseconds]
    intro updated hupdated
    rw [htime]
    rcases ih hremaining' (fun entry he => hsegments entry (List.mem_cons_of_mem _ he)) hconsumption'
      updated hupdated with ⟨hmem, hblocked⟩ | ⟨middle, hmiddle, hfree, hrest⟩
    · rcases hclocked updated hmem with hstays | ⟨visit, -, hfree, hclock⟩
      · exact .inl hstays
      · exact absurd (hclock.id ▸ hblocked) hfree
    · rcases hclocked middle hmiddle with ⟨-, hblocked⟩ | ⟨visit, hvisit, hfree', hclock⟩
      · exact absurd hblocked hfree
      · exact .inr ⟨visit, hvisit, hfree', hclock.trans hrest⟩

end JiraSimulator
