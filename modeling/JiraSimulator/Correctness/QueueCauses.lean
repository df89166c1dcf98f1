import JiraSimulator.Correctness.VisitPauses

/-!
# The queues of a tick and their causes

Over a segment the pause, the queue and the labor of a visit share the time of the segment, and the
queue is recorded with what limits the labor.  The causes that a tick reports for a visit add up to
what the segments have added to its queue.

* `advanceSegment_sharesTime`: the clocks of a visit over a segment.
* `advanceSegment_avoids`: every queue has a cause.
* `advanceVisits_queued`: the causes of a tick, visit by visit.
-/

namespace JiraSimulator

open Library Library.Outcome ScrumCollections

variable {p : Platform}

/-! ### One visit -/

/-- The time that a visit gains on its three clocks. -/
def clockGain (visit updated : StatusVisitState) : ℤ :=
  (updated.pauseMicroseconds - visit.pauseMicroseconds) +
    (updated.queueMicroseconds - visit.queueMicroseconds) +
    (updated.creditedLaborMicroseconds - visit.creditedLaborMicroseconds)

/-- The clocks of a visit over some time: none of them runs backwards, they share the time, and they
take all of it if work remains or the status pauses the service clock. -/
structure SharesTime (state : LiveTeamState p) (time : ℤ) (visit updated : StatusVisitState) :
    Prop where
  id : updated.id = visit.id
  pause : visit.pauseMicroseconds ≤ updated.pauseMicroseconds
  queue : visit.queueMicroseconds ≤ updated.queueMicroseconds
  labor : visit.creditedLaborMicroseconds ≤ updated.creditedLaborMicroseconds
  within : clockGain visit updated ≤ time
  whole : updated.remainingWorkMicroseconds ≠ 0 ∨ intrinsicallyPaused state visit = .ok true →
    clockGain visit updated = time

/-- The queue that the causes record for a visit. -/
def queuedFor (causes : List QueueCause) (visitId : Uuid) : ℤ :=
  Keyed.sumAt (·.visitId) (·.deltaMicroseconds) causes visitId

/-- The queue of the visit with an id. -/
def queueOf (visits : List StatusVisitState) (visitId : Uuid) : ℤ :=
  Keyed.sumAt (·.id) (·.queueMicroseconds) visits visitId

theorem queuedFor_of_queueCause {visitId id : Uuid} {reason : Option QueueReason} {delta : ℤ}
    {causes : List QueueCause} (h : queueCause visitId reason delta = .ok causes) :
    queuedFor causes id = if visitId = id then delta else 0 := by
  unfold queueCause at h
  by_cases hdelta : delta = 0
  · rw [if_pos hdelta, Except.ok.injEq] at h
    rw [← h, hdelta, ite_self]
    rfl
  · rw [if_neg hdelta] at h
    cases reason with
    | none => cases h
    | some reason =>
      rw [← Except.ok.inj h, queuedFor, Keyed.sumAt_cons, Keyed.sumAt_nil, add_zero]

section segment

variable {state : LiveTeamState p} {segment : BusinessSegment} {starting : Consumption}

/-- The clocks of a visit over a segment, and the queue that its causes record. -/
theorem VisitAdvance.sharesTime {before after : Consumption} {assignment : AssignedVisit}
    {updated : StatusVisitState} {causes : List QueueCause}
    (h : VisitAdvance state segment starting before assignment updated after causes)
    (hremaining : 0 ≤ assignment.visit.remainingWorkMicroseconds)
    (hsegment : 0 ≤ segment.microseconds) (hstarting : ∀ key, 0 ≤ starting.get key)
    (hgrown : ∀ key, starting.get key ≤ before.get key) :
    SharesTime state segment.microseconds assignment.visit updated ∧
      ∀ id, queuedFor causes id = if assignment.visit.id = id then
        updated.queueMicroseconds - assignment.visit.queueMicroseconds else 0 := by
  cases h with
  | pauses hclock =>
    refine ⟨⟨rfl, ?_, le_rfl, le_rfl, ?_, fun _ => ?_⟩, fun id => ?_⟩
    · show assignment.visit.pauseMicroseconds ≤ _ + segment.microseconds
      omega
    · simp only [clockGain]
      omega
    · simp only [clockGain]
      omega
    · rw [sub_self, ite_self]
      rfl
  | waits queue causes hclock hidle hqueue hcauses =>
    have hbounds : 0 ≤ queue ∧ queue ≤ segment.microseconds := by
      rw [hqueue]
      split_ifs <;> omega
    refine ⟨⟨rfl, le_rfl, ?_, le_rfl, ?_, fun hwhole => ?_⟩, fun id => ?_⟩
    · show assignment.visit.queueMicroseconds ≤ _ + queue
      omega
    · simp only [clockGain]
      omega
    · rw [hclock] at hwhole
      have hremains : assignment.visit.remainingWorkMicroseconds ≠ 0 :=
        hwhole.resolve_right (by simp)
      rw [if_pos hremains] at hqueue
      simp only [clockGain]
      omega
    · rw [queuedFor_of_queueCause hcauses]
      show _ = if assignment.visit.id = id then _ + queue - _ else 0
      rw [add_sub_cancel_left]
  | works identity capacity credited causes hclock hmem howner hremains hcapacity hcredited hcauses =>
    have hnonneg := segmentCapacity_nonneg hcapacity
    have hle := segmentCapacity_le hcapacity hsegment hstarting hgrown
    -- the rest of the segment is the queue, while work remains
    have hqueue : (creditedVisit assignment.visit segment credited).queueMicroseconds =
        assignment.visit.queueMicroseconds +
          if assignment.visit.remainingWorkMicroseconds - credited = 0 then 0
          else segment.microseconds - credited := by
      simp only [creditedVisit]
      split_ifs <;> omega
    refine ⟨⟨rfl, le_rfl, ?_, ?_, ?_, fun hwhole => ?_⟩, fun id => ?_⟩
    · rw [hqueue]
      split_ifs <;> omega
    · simp only [creditedVisit]
      omega
    · simp only [clockGain, hqueue]
      simp only [creditedVisit]
      split_ifs <;> omega
    · rw [hclock] at hwhole
      have hleft : assignment.visit.remainingWorkMicroseconds - credited ≠ 0 :=
        hwhole.resolve_right (by simp)
      simp only [clockGain, hqueue, if_neg hleft]
      simp only [creditedVisit]
      omega
    · rw [queuedFor_of_queueCause hcauses, hqueue, add_sub_cancel_left]

/-- The queues of the visits after a loop, beside the causes that it has recorded. -/
theorem advanceVisits_sharesTime {assignments : List AssignedVisit}
    {advance advance' : SegmentAdvance}
    (h : assignments.foldlM (advanceVisit state segment starting) advance = .ok advance')
    (hremaining : ∀ assignment ∈ assignments, 0 ≤ assignment.visit.remainingWorkMicroseconds)
    (hsegment : 0 ≤ segment.microseconds) (hstarting : ∀ key, 0 ≤ starting.get key)
    (hgrown : ∀ key, starting.get key ≤ advance.consumption.get key) :
    ∃ updated, advance'.visits = advance.visits ++ updated ∧
      List.Forall₂ (fun assignment updated =>
        SharesTime state segment.microseconds assignment.visit updated) assignments updated ∧
      ∀ id, queuedFor advance'.queueCauses id + queueOf (assignments.map (·.visit)) id =
        queuedFor advance.queueCauses id + queueOf updated id := by
  induction assignments generalizing advance with
  | nil =>
    rw [List.foldlM_nil, pure_eq_ok] at h
    subst h
    exact ⟨[], by simp, .nil, fun _ => rfl⟩
  | cons assignment assignments ih =>
    simp only [List.foldlM_cons, bind_eq_ok] at h
    obtain ⟨next, hnext, hrest⟩ := h
    have hfirst := hremaining assignment List.mem_cons_self
    obtain ⟨-, -, -, hgrown'⟩ := advanceVisit_clocked hnext hfirst hsegment hstarting hgrown
    obtain ⟨updated, causes, -, hvisits, hcauses, hadvance⟩ := advanceVisit_cases hnext
    obtain ⟨hshares, hqueued⟩ := hadvance.sharesTime hfirst hsegment hstarting hgrown
    obtain ⟨rest, hrestVisits, hall, hqueues⟩ := ih hrest
      (fun a ha => hremaining a (List.mem_cons_of_mem _ ha)) hgrown'
    refine ⟨updated :: rest, ?_, .cons hshares hall, fun id => ?_⟩
    · rw [hrestVisits, hvisits, List.append_assoc, List.singleton_append]
    · have htail := hqueues id
      have hhead := hqueued id
      rw [hcauses] at htail
      simp only [queuedFor, queueOf, List.map_cons, Keyed.sumAt_append, Keyed.sumAt_cons,
        hshares.id] at htail hhead ⊢
      split_ifs at hhead ⊢ <;> omega

/-! ### One segment -/

/-- Over a segment the clocks of a visit that is not blocked share the time of the segment, and the
causes of each visit add up to what the segment adds to its queue. -/
theorem advanceSegment_sharesTime {visits : List StatusVisitState} {consumption : Consumption}
    {blocked : List Uuid} {advance : SegmentAdvance}
    (h : advanceSegment state visits consumption segment blocked = .ok advance)
    (hremaining : ∀ visit ∈ visits, 0 ≤ visit.remainingWorkMicroseconds)
    (hsegment : 0 ≤ segment.microseconds) (hconsumption : ∀ key, 0 ≤ consumption.get key) :
    (∀ visit ∈ visits, visit.id ∉ blocked → ∃ updated ∈ advance.visits,
      SharesTime state segment.microseconds visit updated) ∧
      ∀ id, queueOf advance.visits id = queueOf visits id + queuedFor advance.queueCauses id := by
  simp only [advanceSegment, bind_eq_ok] at h
  obtain ⟨ordered, hordered, assignments, hassignments, hadvance⟩ := h
  have hperm := rankedVisits_perm hordered
  have hassigned := assignOwners_forall₂ hassignments
  have hnonneg : ∀ assignment ∈ assignments,
      0 ≤ assignment.visit.remainingWorkMicroseconds := by
    intro assignment hassignment
    obtain ⟨visit, hvisit, hassign⟩ := forall₂_exists_left hassigned hassignment
    rw [hassign.visit_eq]
    exact hremaining visit (List.mem_filter.mp (hperm.mem_iff.mp hvisit)).1
  obtain ⟨updated, hvisits, hall, hqueues⟩ :=
    advanceVisits_sharesTime hadvance hnonneg hsegment hconsumption fun _ => le_rfl
  -- an assignment changes the owner only
  have hsame : ∀ id, queueOf (assignments.map (·.visit)) id = queueOf ordered id := by
    intro id
    clear hqueues hall hvisits hnonneg hadvance hassignments hordered hperm
    induction hassigned with
    | nil => rfl
    | cons hassign _ ih =>
      rw [queueOf, queueOf] at ih ⊢
      rw [List.map_cons, Keyed.sumAt_cons, Keyed.sumAt_cons, ih, hassign.visit_eq]
  constructor
  · intro visit hvisit hfree
    have hmem : visit ∈ ordered :=
      hperm.mem_iff.mpr (List.mem_filter.mpr ⟨hvisit, decide_eq_true hfree⟩)
    obtain ⟨assignment, hassignment, hassign⟩ := forall₂_exists_right hassigned hmem
    obtain ⟨row, hrow, hshares⟩ := forall₂_exists_right hall hassignment
    rw [hassign.visit_eq] at hshares
    exact ⟨row, hvisits ▸ List.mem_append_right _ hrow, hshares.1, hshares.2, hshares.3, hshares.4,
      hshares.5, hshares.6⟩
  · intro id
    have hqueue := hqueues id
    have hsplit : queueOf visits id = queueOf (visits.filter fun visit => visit.id ∈ blocked) id +
        queueOf ordered id := by
      unfold queueOf
      rw [← Keyed.sumAt_append]
      refine Keyed.sumAt_perm _ _ (List.Perm.symm ?_) id
      refine (hperm.append_left _).trans ?_
      simpa using List.filter_append_perm (fun visit => decide (visit.id ∈ blocked)) visits
    rw [hsame] at hqueue
    rw [hvisits, hsplit]
    simp only [queueOf, queuedFor, Keyed.sumAt_append, Keyed.sumAt_nil] at hqueue ⊢
    omega

end segment

/-! ### Every queue has a cause -/

/-- The error of a queue without a cause. -/
def unlimitedQueue : PyError :=
  .runtimeError "queued labor must have a limiting constraint"

theorem require_avoids {c : Prop} [Decidable c] {message : String} :
    Avoids unlimitedQueue (require c message) := by
  intro h
  exact absurd (check_eq_error h).2 (by simp [unlimitedQueue])

theorem getItem_avoids {α κ : Type} [DecidableEq κ] {key : α → κ} {rows : List α} {k : κ} :
    Avoids unlimitedQueue (getItem key rows k) := by
  unfold getItem
  split <;> simp [unlimitedQueue]

theorem next_avoids {α : Type} {holds : α → Bool} {items : List α} :
    Avoids unlimitedQueue (next holds items) := by
  unfold next
  split <;> simp [unlimitedQueue]

theorem memberBlueprint_avoids {state : LiveTeamState p} {identity : MemberIdentity} :
    Avoids unlimitedQueue (memberBlueprint state identity) := by
  unfold memberBlueprint getIndex
  split <;> simp [unlimitedQueue]

theorem effectiveFraction_avoids {state : LiveTeamState p} {identity : MemberIdentity}
    {segment : BusinessSegment} :
    Avoids unlimitedQueue (effectiveFraction state identity segment) :=
  memberBlueprint_avoids.bind fun _ _ => avoids_pure _

theorem availableMicroseconds_avoids {state : LiveTeamState p} {identity : MemberIdentity}
    {segment : BusinessSegment} :
    Avoids unlimitedQueue (availableMicroseconds state identity segment) :=
  effectiveFraction_avoids.bind fun _ _ => avoids_pure _

theorem dailyCeiling_avoids {state : LiveTeamState p} {identity : MemberIdentity}
    {segment : BusinessSegment} : Avoids unlimitedQueue (dailyCeiling state identity segment) :=
  memberBlueprint_avoids.bind fun _ _ => effectiveFraction_avoids.bind fun _ _ => avoids_pure _

theorem validate_avoids (visit : StatusVisitState) :
    Avoids unlimitedQueue (validated StatusVisitState.validate visit) := by
  refine Avoids.bind ?_ fun _ _ => avoids_pure _
  refine require_avoids.bind fun _ _ => Avoids.bind ?_ fun expected _ => ?_
  · exact require_avoids.bind fun _ _ => avoids_pure _
  refine require_avoids.bind fun _ _ => require_avoids.bind fun _ _ => Avoids.bind ?_ fun _ _ => ?_
  · cases visit.activityKey with
    | none => exact avoids_pure _
    | some activity => exact require_avoids.bind fun _ _ => avoids_pure _
  refine Avoids.bind ?_ fun _ _ => Avoids.bind ?_ fun _ _ => ?_
  · unfold StatusVisitState.validateZeroTouch
    split
    · exact require_avoids.bind fun _ _ => require_avoids
    · exact avoids_pure _
  · exact require_avoids.bind fun _ _ => require_avoids.bind fun _ _ => require_avoids
  · exact require_avoids.bind fun _ _ => require_avoids.bind fun _ _ =>
      require_avoids.bind fun _ _ => require_avoids.bind fun _ _ =>
      require_avoids.bind fun _ _ => require_avoids.bind fun _ _ =>
      require_avoids.bind fun _ _ => require_avoids

section avoids

variable {state : LiveTeamState p} {segment : BusinessSegment} {starting : Consumption}

/-- A visit without an owner has been denied one for a reason. -/
theorem assignVisit_denied {consumption : Consumption} {visits : List StatusVisitState}
    {retained : List Uuid} {assignment : Assignment}
    (h : visits.foldlM (assignVisit state segment consumption) { retained, results := [] } =
      .ok assignment) :
    ∀ assigned ∈ assignment.results, assigned.visit.memberId = none →
      assigned.deniedReason ≠ none := by
  refine foldlM_induction (motive := fun a : Assignment => ∀ assigned ∈ a.results,
    assigned.visit.memberId = none → assigned.deniedReason ≠ none) h ?_ ?_
  · exact fun _ hassigned => absurd hassigned List.not_mem_nil
  · intro start visit next _ hstart hstep assigned hassigned
    rcases assignVisit_eq_ok hstep with ⟨howner, rfl⟩ | ⟨-, reason, rfl⟩ |
      ⟨-, identity, -, -, -, -, rfl⟩
    · rcases List.mem_append.mp hassigned with hold | hnew
      · exact hstart assigned hold
      · rw [List.mem_singleton.mp hnew]
        exact fun hnone => absurd hnone howner
    · rcases List.mem_append.mp hassigned with hold | hnew
      · exact hstart assigned hold
      · rw [List.mem_singleton.mp hnew]
        exact fun _ => Option.some_ne_none reason
    · rcases List.mem_append.mp hassigned with hold | hnew
      · exact hstart assigned hold
      · rw [List.mem_singleton.mp hnew]
        exact fun hnone => absurd hnone (Option.some_ne_none _)

theorem retainOwner_avoids (retention : Retention) (visit : StatusVisitState) :
    Avoids unlimitedQueue (retainOwner state segment retention visit) := by
  have hreleased := validate_avoids { visit with memberId := none }
  unfold retainOwner
  cases visit.memberId with
  | none => exact hreleased.bind fun _ _ => avoids_pure _
  | some owner =>
    refine getItem_avoids.bind fun identity _ => Avoids.bind ?_ fun keeps _ => ?_
    · exact memberBlueprint_avoids.bind fun _ _ =>
        availableMicroseconds_avoids.bind fun _ _ => avoids_pure _
    · exact Avoids.ite (avoids_pure _) (hreleased.bind fun _ _ => avoids_pure _)

theorem assessMember_avoids (visit : StatusVisitState) (consumption : Consumption)
    (retained : List Uuid) (identity : MemberIdentity) :
    Avoids unlimitedQueue (assessMember state visit segment consumption retained identity) := by
  refine memberBlueprint_avoids.bind fun member _ => ?_
  cases proficiency member visit.activityKey with
  | none => exact avoids_pure _
  | some value =>
    refine effectiveFraction_avoids.bind fun fraction _ => ?_
    split
    · exact avoids_pure _
    · refine Avoids.bind ?_ fun remaining _ => ?_
      · exact availableMicroseconds_avoids.bind fun _ _ =>
          dailyCeiling_avoids.bind fun _ _ => avoids_pure _
      · split
        · exact avoids_pure _
        · split <;> exact avoids_pure _

theorem assignVisit_avoids (consumption : Consumption) (assignment : Assignment)
    (visit : StatusVisitState) :
    Avoids unlimitedQueue (assignVisit state segment consumption assignment visit) := by
  unfold assignVisit
  cases visit.memberId with
  | some owner => exact avoids_ok _
  | none =>
    refine (Avoids.mapM fun identity _ => assessMember_avoids visit consumption _ identity).bind
      fun assessments _ => ?_
    cases candidates assessments with
    | nil => exact avoids_pure _
    | cons first rest => exact (validate_avoids _).bind fun _ _ => avoids_pure _

/-- A queue is recorded with the constraint that limits its labor. -/
theorem advanceVisit_avoids (advance : SegmentAdvance) {assignment : AssignedVisit}
    (hdenied : assignment.visit.memberId = none → assignment.deniedReason ≠ none) :
    Avoids unlimitedQueue (advanceVisit state segment starting advance assignment) := by
  have hcause : ∀ visitId delta {reason : Option QueueReason}, delta = 0 ∨ reason ≠ none →
      Avoids unlimitedQueue (queueCause visitId reason delta) := by
    intro visitId delta reason hreason
    unfold queueCause
    by_cases hdelta : delta = 0
    · rw [if_pos hdelta]
      exact avoids_ok _
    · rw [if_neg hdelta]
      cases reason with
      | none => exact absurd rfl (hreason.resolve_left hdelta)
      | some reason => exact avoids_ok _
  have hwaiting : ∀ queue, queue = 0 ∨ assignment.deniedReason ≠ none → Avoids unlimitedQueue
      (advanceVisit.waiting advance assignment assignment.visit queue) := by
    intro queue hreason
    exact (validate_avoids _).bind fun _ _ =>
      (hcause assignment.visit.id queue hreason).bind fun _ _ => avoids_pure _
  refine next_avoids.bind fun status _ => ?_
  split
  · exact (validate_avoids _).bind fun _ _ => avoids_pure _
  · cases howner : assignment.visit.memberId with
    | none => exact hwaiting _ (.inr (hdenied howner))
    | some member =>
      show Avoids unlimitedQueue (if assignment.visit.remainingWorkMicroseconds = 0 then _ else _)
      split
      · exact hwaiting 0 (.inl rfl)
      · refine next_avoids.bind fun identity _ => Avoids.bind ?_ fun capacity _ => ?_
        · exact availableMicroseconds_avoids.bind fun available _ =>
            dailyCeiling_avoids.bind fun ceiling _ => Avoids.ite (avoids_pure _) (avoids_pure _)
        · exact (validate_avoids _).bind fun _ _ =>
            (hcause _ _ (.inr (Option.some_ne_none _))).bind fun _ _ => avoids_pure _

/-- No segment meets a queue without a cause. -/
theorem advanceSegment_avoids (visits : List StatusVisitState) (consumption : Consumption)
    (blocked : List Uuid) :
    Avoids unlimitedQueue (advanceSegment state visits consumption segment blocked) := by
  refine Avoids.bind ?_ fun ordered _ => Avoids.bind ?_ fun assignments hassignments => ?_
  · refine (Avoids.mapM fun visit _ => ?_).bind fun _ _ => avoids_pure _
    exact getItem_avoids.bind fun _ _ => avoids_pure _
  · refine (Avoids.foldlM (fun visit _ retention => retainOwner_avoids retention visit) _).bind
      fun retention _ => ?_
    exact (Avoids.foldlM (fun visit _ assignment =>
      assignVisit_avoids consumption assignment visit) _).bind fun _ _ => avoids_pure _
  · simp only [assignOwners, bind_eq_ok, pure_eq_ok] at hassignments
    obtain ⟨retention, -, assignment, hassignment, rfl⟩ := hassignments
    refine Avoids.foldlM (fun assigned hassigned advance => ?_) _
    exact advanceVisit_avoids advance (assignVisit_denied hassignment assigned hassigned)

end avoids

/-! ### The causes of a tick -/

/-- One total for each visit and reason keeps the queue of each visit. -/
theorem queuedFor_aggregate (causes : List QueueCause) (id : Uuid) :
    queuedFor (aggregateQueueCauses p causes) id = queuedFor causes id := by
  have hkeys : (((causes.map fun cause => (cause.visitId, cause.reason)).dedup.filter
      fun key => key.1 = id).map
        (Keyed.sumAt (fun cause : QueueCause => (cause.visitId, cause.reason))
          (·.deltaMicroseconds) (causes.filter fun cause => cause.visitId = id))).sum =
      ((causes.filter fun cause => cause.visitId = id).map (·.deltaMicroseconds)).sum := by
    refine Keyed.sum_sumAt _ _ ((List.nodup_dedup _).filter _) fun cause hcause => ?_
    obtain ⟨hmem, hid⟩ := List.mem_filter.mp hcause
    exact List.mem_filter.mpr ⟨List.mem_dedup.mpr (List.mem_map.mpr ⟨cause, hmem, rfl⟩), hid⟩
  unfold queuedFor
  rw [aggregateQueueCauses, Keyed.sumAt_perm _ _ (Ordering.sortOn_perm _ _)]
  rw [Keyed.sumAt, Keyed.sumAt, ← hkeys, List.filter_map, List.map_map]
  refine congrArg List.sum (List.map_congr_left fun key hkey => ?_)
  have hid : key.1 = id := of_decide_eq_true (List.mem_filter.mp hkey).2
  subst hid
  show ((causes.filter fun cause =>
    cause.visitId = key.1 && cause.reason = key.2).map (·.deltaMicroseconds)).sum = _
  rw [Keyed.sumAt, List.filter_filter]
  refine congrArg (fun rows => (rows.map QueueCause.deltaMicroseconds).sum)
    (List.filter_congr fun cause _ => ?_)
  simp only [Prod.ext_iff, Bool.decide_and]
  cases decide (cause.visitId = key.1) <;> cases decide (cause.reason = key.2) <;> rfl

/-- The causes of a run are those of its segments. -/
theorem runSegments_causes {state : LiveTeamState p} {calendar : BusinessCalendar}
    {blocked : List Uuid} {effectiveEnd : ℤ} {segments : List BusinessSegment}
    {visits : List StatusVisitState} {consumption : Consumption} {outcome : SegmentsOutcome}
    (h : runSegments state calendar blocked effectiveEnd segments visits consumption =
      .ok outcome) :
    outcome.queueCauses = outcome.played.flatMap fun entry => entry.2.2.2.queueCauses := by
  induction segments generalizing visits consumption outcome with
  | nil =>
    rw [runSegments, Except.ok.injEq] at h
    subst h
    rfl
  | cons segment segments ih =>
    simp only [runSegments, bind_eq_ok] at h
    obtain ⟨probe, -, boundary, -, h⟩ := h
    cases boundary with
    | none =>
      simp only [bind_eq_ok, pure_eq_ok] at h
      obtain ⟨rest, hrest, rfl⟩ := h
      rw [List.flatMap_cons, ← ih hrest]
    | some boundary =>
      simp only [bind_eq_ok, pure_eq_ok] at h
      obtain ⟨advanced, -, rfl⟩ := h
      simp

/-- Over a run the causes of each visit add up to what the segments add to its queue. -/
theorem Plays.queued {state : LiveTeamState p} {blocked : List Uuid}
    {visits visits' : List StatusVisitState} {consumption consumption' : Consumption}
    {played : List (BusinessSegment × List StatusVisitState × Consumption × SegmentAdvance)}
    (h : Plays state blocked visits consumption played visits' consumption')
    (hremaining : ∀ visit ∈ visits, 0 ≤ visit.remainingWorkMicroseconds)
    (hsegments : ∀ entry ∈ played, entry.1.start ≤ entry.1.finish)
    (hconsumption : ∀ key, 0 ≤ consumption.get key) (id : Uuid) :
    queueOf visits' id = queueOf visits id +
      queuedFor (played.flatMap fun entry => entry.2.2.2.queueCauses) id := by
  induction h with
  | done visits consumption => simp [queuedFor]
  | @play visits visits' consumption consumption' segment advance played hadvance _ ih =>
    have hordered : segment.start ≤ segment.finish :=
      hsegments (segment, visits, consumption, advance) List.mem_cons_self
    have hsegment : 0 ≤ segment.microseconds := by
      unfold BusinessSegment.microseconds
      omega
    obtain ⟨hclocked, hconsumption'⟩ :=
      advanceSegment_clocked hadvance hremaining hsegment hconsumption
    have hremaining' : ∀ visit ∈ advance.visits, 0 ≤ visit.remainingWorkMicroseconds := by
      intro visit hvisit
      rcases hclocked visit hvisit with ⟨hmem, -⟩ | ⟨earlier, -, -, hclock⟩
      · exact hremaining visit hmem
      · exact hclock.nonneg
    have hfirst := (advanceSegment_sharesTime hadvance hremaining hsegment hconsumption).2 id
    have hrest := ih hremaining' (fun entry he => hsegments entry (List.mem_cons_of_mem _ he))
      hconsumption'
    rw [hrest, hfirst, List.flatMap_cons]
    simp only [queuedFor, Keyed.sumAt_append]
    omega

/-- The causes that an advance over the segments of an interval reports for an open visit are what
the segments add to its queue. -/
def CausesAddUp (state : LiveTeamState p) : Prop :=
  ∀ calendar startsAt endsAt segments draws blocked result, startsAt ≤ endsAt →
    businessSegments state calendar startsAt endsAt = .ok segments →
    advanceVisits state endsAt segments calendar draws blocked = .ok result →
    ∃ outcome, runSegments state calendar blocked endsAt segments (openVisits state)
        (consumptionMap state) = .ok outcome ∧
      ∀ visit ∈ openVisits state, ∃ x ∈ outcome.visits, x.id = visit.id ∧
        queuedFor result.queueCauses visit.id = x.queueMicroseconds - visit.queueMicroseconds

theorem openVisits_remaining (state : LiveTeamState p) :
    ∀ visit ∈ openVisits state, 0 ≤ visit.remainingWorkMicroseconds := fun _ hvisit =>
  (state.scrum.complete.visit_valid (mem_openVisits.mp hvisit).1).remaining.1

/-- A run over the segments of an interval, from the open visits of a state. -/
theorem queued_of_runSegments {state : LiveTeamState p} {calendar : BusinessCalendar}
    {startsAt endsAt : ℤ} {segments : List BusinessSegment} {blocked : List Uuid}
    {outcome : SegmentsOutcome} (hle : startsAt ≤ endsAt)
    (hsegments : businessSegments state calendar startsAt endsAt = .ok segments)
    (houtcome : runSegments state calendar blocked endsAt segments (openVisits state)
      (consumptionMap state) = .ok outcome) (id : Uuid) :
    queueOf outcome.visits id = queueOf (openVisits state) id +
      queuedFor (aggregateQueueCauses p outcome.queueCauses) id := by
  obtain ⟨hplays, hwithin, -⟩ :=
    runSegments_eq_ok houtcome (businessSegments_eq_ok hsegments) hle
  rw [queuedFor_aggregate, runSegments_causes houtcome]
  exact hplays.queued (openVisits_remaining state)
    (fun entry hentry => (hwithin entry hentry).ordered) (consumptionMap_nonneg state) id

theorem causesAddUp (state : LiveTeamState p) : CausesAddUp state := by
  intro calendar startsAt endsAt segments draws blocked result hle hsegments h
  simp only [advanceVisits, bind_eq_ok, pure_eq_ok] at h
  obtain ⟨outcome, houtcome, finished, hfinished, rfl⟩ := h
  refine ⟨outcome, houtcome, fun visit hvisit => ?_⟩
  obtain ⟨hplays, -⟩ := runSegments_eq_ok houtcome (businessSegments_eq_ok hsegments) hle
  have hsame := hplays.sameVisits fun visit hvisit =>
    state.scrum.complete.visit_valid (mem_openVisits.mp hvisit).1
  have hnodup := openVisits_nodup state
  obtain ⟨x, hx, hxsame⟩ := hsame.exists_after hnodup hvisit
  refine ⟨x, hx, hxsame.id, ?_⟩
  have hqueue := queued_of_runSegments hle hsegments houtcome visit.id
  have hafter : queueOf outcome.visits visit.id = x.queueMicroseconds :=
    hxsame.id ▸ Keyed.sumAt_of_mem _ _ (hsame.nodup hnodup) hx
  have hbefore : queueOf (openVisits state) visit.id = visit.queueMicroseconds :=
    Keyed.sumAt_of_mem _ _ hnodup hvisit
  show queuedFor (aggregateQueueCauses p outcome.queueCauses) visit.id = _
  omega

/-! ### Committed ticks -/

/-- A risk evaluation adds to the queue of a visit what it adds to its pause. -/
theorem RiskRow.queue_eq {state : LiveTeamState p} {asOf : ℤ} {draws : DrawSource}
    {row visit : StatusVisitState} (h : RiskRow state asOf draws row)
    (hvisit : visit ∈ state.scrum.statusVisits) (hid : row.id = visit.id) :
    row.queueMicroseconds - visit.queueMicroseconds =
        row.pauseMicroseconds - visit.pauseMicroseconds ∧
      visit.pauseMicroseconds ≤ row.pauseMicroseconds := by
  have hbegins : ∀ old, Begins state old → old.id = visit.id → old = visit := by
    intro old hold holdId
    cases hold with
    | kept hmem =>
      exact Collection.statusVisits.eq_of_key_eq state.scrum.complete.toConsistent hmem hvisit holdId
    | returned hnew => exact absurd (List.mem_map.mpr ⟨visit, hvisit, holdId.symm⟩) hnew
  cases h with
  | begins hold =>
    rw [hbegins row hold hid, sub_self, sub_self]
    exact ⟨rfl, le_rfl⟩
  | waits old delta context hold _ hwaits heq =>
    subst heq
    rw [hbegins old hold hid]
    have hnonneg := hwaits.nonneg
    simp only [pausedBy]
    omega
  | cancelled old boundary work decision context hold _ _ _ _ heq =>
    subst heq
    rw [hbegins old hold hid]
    simp only [cancelledVisit]
    omega
  | cancelledWaiting old delta boundary work decision waiting context hold _ hwaits _ _ _ _ heq =>
    subst heq
    rw [hbegins old hold hid]
    have hnonneg := hwaits.nonneg
    simp only [cancelledVisit, pausedBy]
    omega

/-- The causes that a tick reports for a visit are what the tick adds to its queue after the risks,
and all that it adds to it unless the risks pause the visit. -/
def QueuesCaused (store : TeamStore p) (advance : RiskAdvance p) (store' : TeamStore p) : Prop :=
  ∀ visit ∈ store.scrum.statusVisits, ∀ row ∈ store'.scrum.statusVisits, row.id = visit.id →
    ∃ working ∈ advance.state.scrum.statusVisits, working.id = visit.id ∧
      queuedFor advance.result.queueCauses visit.id =
        row.queueMicroseconds - working.queueMicroseconds ∧
      (visit.id ∉ riskBlockedVisits store.state advance.risks →
        working.queueMicroseconds = visit.queueMicroseconds)

theorem ProgressTick.queuesCaused {store store' : TeamStore p} {request : TickRequest}
    {draws : DrawSource} {advance : RiskAdvance p} (hreach : (teamRuns p).Reachable store)
    (h : ProgressTick store request draws advance store') : QueuesCaused store advance store' := by
  intro visit hvisit row hrow hid
  have hcounted := ordinalsCounted_of_reachable hreach
  obtain ⟨command, hcommitted, -, hassembled⟩ := h.committed (.of_reachable hreach)
  obtain ⟨outcome, finish, hrun⟩ := tickAdvance_eq_ok h.advance_eq
  have hafter := hcommitted.afterTick hrun.working hassembled
  obtain ⟨calendar, segments, hcalls⟩ := hrun.calls
  have hqueue := queued_of_runSegments hrun.cursor_le hcalls.segments_eq hcalls.outcome_eq
  rw [← hrun.queueCauses] at hqueue
  have hnodup := openVisits_nodup advance.state
  have hworking := advance.state.scrum.complete.toConsistent
  have hrisks := evaluateDueRisks_rows hcounted hrun.risks hrun.working
  -- the row with which the segments start
  have hresult : ∀ working ∈ advance.state.scrum.statusVisits, working.id = visit.id →
      queuedFor advance.result.queueCauses visit.id =
        row.queueMicroseconds - working.queueMicroseconds →
      ∃ working ∈ advance.state.scrum.statusVisits, working.id = visit.id ∧
        queuedFor advance.result.queueCauses visit.id =
          row.queueMicroseconds - working.queueMicroseconds ∧
        (visit.id ∉ riskBlockedVisits store.state advance.risks →
          working.queueMicroseconds = visit.queueMicroseconds) := by
    intro working hmem hwid hqueued
    refine ⟨working, hmem, hwid, hqueued, fun hfree => ?_⟩
    obtain ⟨hsame, hle⟩ := (hrisks working hmem).queue_eq hvisit hwid
    rw [mem_riskBlockedVisits hrun.working hvisit hmem hwid, not_lt] at hfree
    omega
  cases hrun.tickRow hafter hcounted hrow with
  | closed hmem hclosed =>
    refine hresult row hmem hid ?_
    -- no segment plays a closed visit
    have habsent : visit.id ∉ (openVisits advance.state).map (·.id) := by
      intro hopen
      obtain ⟨open_, hopen, hoid⟩ := List.mem_map.mp hopen
      obtain ⟨hopenMem, hopenLifecycle⟩ := mem_openVisits.mp hopen
      have heq : open_ = row :=
        Collection.statusVisits.eq_of_key_eq hworking hopenMem hmem (hoid.trans hid.symm)
      rw [heq, hclosed] at hopenLifecycle
      cases hopenLifecycle
    have hgone : visit.id ∉ outcome.visits.map (·.id) := fun hmem =>
      habsent (hrun.sameVisits.ids.mem_iff.mp hmem)
    have hplayed := hqueue visit.id
    rw [queueOf, queueOf, Keyed.sumAt_of_not_mem _ _ hgone, Keyed.sumAt_of_not_mem _ _ habsent]
      at hplayed
    omega
  | progresses x hx hplayed =>
    obtain ⟨before, hbefore, hsame⟩ := hrun.exists_before hx
    have hkept : row.queueMicroseconds = x.queueMicroseconds ∧ row.id = x.id := by
      rcases hplayed with rfl | ⟨rfl, -⟩
      · exact ⟨rfl, rfl⟩
      · exact ⟨rfl, rfl⟩
    have hbid : before.id = visit.id := by rw [← hsame.id, ← hkept.2, hid]
    refine hresult before (mem_openVisits.mp hbefore).1 hbid ?_
    have hplayed := hqueue visit.id
    have hlast : queueOf outcome.visits visit.id = x.queueMicroseconds := by
      rw [← hbid, ← hsame.id]
      exact Keyed.sumAt_of_mem _ _ (hrun.sameVisits.nodup hnodup) hx
    have hfirst : queueOf (openVisits advance.state) visit.id = before.queueMicroseconds := by
      rw [← hbid]
      exact Keyed.sumAt_of_mem _ _ hnodup hbefore
    omega
  | enters hnew => exact absurd (List.mem_map.mpr ⟨visit, hvisit, hid.symm⟩) hnew

/-- The visits of a segment share its time between pause, queue and labor. -/
def SegmentsShareTime (state : LiveTeamState p) : Prop :=
  ∀ visits consumption segment blocked advance, (∀ visit ∈ visits, visit.Valid) →
    segment.start ≤ segment.finish → (∀ key, 0 ≤ consumption.get key) →
    advanceSegment state visits consumption segment blocked = .ok advance →
    ∀ visit ∈ visits, visit.id ∉ blocked → ∃ updated ∈ advance.visits,
      SharesTime state segment.microseconds visit updated

/-- No segment fails for a queue without a cause. -/
def QueuesLimited (state : LiveTeamState p) : Prop :=
  ∀ visits consumption segment blocked,
    advanceSegment state visits consumption segment blocked ≠ .error unlimitedQueue

/-- The clocks of a visit share the time of every segment, every queue has a cause, and the causes
of a tick add up to the queues of its visits. -/
theorem queues_accounted :
    (∀ state : LiveTeamState p,
      SegmentsShareTime state ∧ CausesAddUp state ∧ QueuesLimited state) ∧
    ∀ (store store' : TeamStore p) (request : TickRequest) (draws : DrawSource)
      (advance : RiskAdvance p), (teamRuns p).Reachable store →
      ProgressTick store request draws advance store' → QueuesCaused store advance store' := by
  refine ⟨fun state => ⟨?_, causesAddUp state, ?_⟩, fun store store' request draws advance hreach
    htick => htick.queuesCaused hreach⟩
  · intro visits consumption segment blocked advance hvalid hordered hconsumption h
    have hsegment : 0 ≤ segment.microseconds := by
      unfold BusinessSegment.microseconds
      omega
    exact (advanceSegment_sharesTime h (fun visit hvisit => (hvalid visit hvisit).remaining.1)
      hsegment hconsumption).1
  · intro visits consumption segment blocked
    exact advanceSegment_avoids visits consumption blocked

end JiraSimulator
