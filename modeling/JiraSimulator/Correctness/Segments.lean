import JiraSimulator.Correctness.Allocation

/-!
# The labor of a segment

An advance over a segment moves every visit that is not blocked and credits the labor of its owner.

* `advanceVisits_moves`: the consumption grows by the labor credited to the visits.
* `advanceSegment_eq_ok`: the visits and the consumption after a segment.
-/

namespace JiraSimulator

open Library Library.Outcome

variable {p : Platform}

/-! ### Progress of a visit -/

/-- The visits are one visit at two times: only its owner and its clocks may differ. -/
structure SameVisit (visit visit' : StatusVisitState) : Prop where
  id : visit'.id = visit.id
  teamId : visit'.teamId = visit.teamId
  runId : visit'.runId = visit.runId
  workItemId : visit'.workItemId = visit.workItemId
  ordinal : visit'.ordinal = visit.ordinal
  lifecycle : visit'.lifecycle = visit.lifecycle
  statusKey : visit'.statusKey = visit.statusKey
  activityKey : visit'.activityKey = visit.activityKey
  enteredAt : visit'.enteredAt = visit.enteredAt
  closedAt : visit'.closedAt = visit.closedAt
  required : visit'.requiredWorkMicroseconds = visit.requiredWorkMicroseconds

theorem SameVisit.refl (visit : StatusVisitState) : SameVisit visit visit :=
  ⟨rfl, rfl, rfl, rfl, rfl, rfl, rfl, rfl, rfl, rfl, rfl⟩

theorem SameVisit.trans {a b c : StatusVisitState} (h : SameVisit a b) (h' : SameVisit b c) :
    SameVisit a c :=
  ⟨h'.1.trans h.1, h'.2.trans h.2, h'.3.trans h.3, h'.4.trans h.4, h'.5.trans h.5,
    h'.6.trans h.6, h'.7.trans h.7, h'.8.trans h.8, h'.9.trans h.9, h'.10.trans h.10,
    h'.11.trans h.11⟩

/-- A visit that progressed keeps its owner and passes its checks. -/
structure Progressed (visit updated : StatusVisitState) : Prop extends
    SameVisit visit updated where
  memberId : updated.memberId = visit.memberId
  valid : updated.Valid

/-! ### Consumption -/

namespace Consumption

theorem get_credit (consumption : Consumption) (key : Uuid × ℤ) (credited : ℤ) (k : Uuid × ℤ) :
    (consumption.credit key credited).get k =
      consumption.get k + if key = k then credited else 0 := by
  rw [credit, get, Keyed.lookup_assign]
  by_cases hk : key = k
  · subst hk
    simp
  · rw [if_neg hk, if_neg hk, add_zero]
    rfl

theorem nodup_credit {consumption : Consumption} (h : (consumption.map Prod.fst).Nodup)
    (key : Uuid × ℤ) (credited : ℤ) : ((consumption.credit key credited).map Prod.fst).Nodup :=
  Keyed.nodup_assign _ h

theorem get_eq_valueAt (consumption : Consumption) (key : Uuid × ℤ) :
    consumption.get key = Keyed.valueAt Prod.fst Prod.snd consumption key := by
  rw [get, Keyed.valueAt]
  cases Keyed.lookup Prod.fst consumption key <;> rfl

/-- The members of all keys satisfy what the credited members do. -/
theorem mem_credit {consumption : Consumption} {key : Uuid × ℤ} {credited : ℤ}
    {entry : (Uuid × ℤ) × ℤ} (h : entry ∈ consumption.credit key credited) :
    entry.1 = key ∨ entry ∈ consumption := by
  rcases (Keyed.mem_assign _).mp h with rfl | ⟨hmem, -⟩
  · exact .inl rfl
  · exact .inr hmem

end Consumption

/-! ### Capacity -/

theorem segmentCapacity_eq_ok {state : LiveTeamState p} {identity : MemberIdentity}
    {segment : BusinessSegment} {starting consumption : Consumption} {capacity : Capacity}
    (h : segmentCapacity state identity segment starting consumption = .ok capacity) :
    ∃ available ceiling, availableMicroseconds state identity segment = .ok available ∧
      dailyCeiling state identity segment = .ok ceiling ∧
      capacity.microseconds = min
        (max 0 (available - (consumption.get (identity.id, segment.businessDate) -
          starting.get (identity.id, segment.businessDate))))
        (max 0 (ceiling - consumption.get (identity.id, segment.businessDate))) := by
  simp only [segmentCapacity, bind_eq_ok] at h
  obtain ⟨available, havailable, ceiling, hceiling, h⟩ := h
  refine ⟨available, ceiling, havailable, hceiling, ?_⟩
  set remaining := max 0 (available - (consumption.get (identity.id, segment.businessDate) -
    starting.get (identity.id, segment.businessDate)))
  set dailyRemaining := max 0 (ceiling - consumption.get (identity.id, segment.businessDate))
  by_cases hle : remaining ≤ dailyRemaining
  · rw [if_pos hle, pure_eq_ok] at h
    rw [← h, min_eq_left hle]
  · rw [if_neg hle, pure_eq_ok] at h
    rw [← h, min_eq_right (not_le.mp hle).le]

theorem segmentCapacity_nonneg {state : LiveTeamState p} {identity : MemberIdentity}
    {segment : BusinessSegment} {starting consumption : Consumption} {capacity : Capacity}
    (h : segmentCapacity state identity segment starting consumption = .ok capacity) :
    0 ≤ capacity.microseconds := by
  obtain ⟨available, ceiling, -, -, hcapacity⟩ := segmentCapacity_eq_ok h
  rw [hcapacity]
  exact le_min (le_max_left _ _) (le_max_left _ _)

/-! ### One visit -/

/-- What a segment does to one visit: its row, the consumption and the causes of its queue after it.
-/
inductive VisitAdvance (state : LiveTeamState p) (segment : BusinessSegment)
    (starting before : Consumption) (assignment : AssignedVisit) :
    StatusVisitState → Consumption → List QueueCause → Prop
  | pauses (hclock : intrinsicallyPaused state assignment.visit = .ok true) :
      VisitAdvance state segment starting before assignment
        { assignment.visit with
          pauseMicroseconds := assignment.visit.pauseMicroseconds + segment.microseconds } before []
  | waits (queue : ℤ) (causes : List QueueCause)
      (hclock : intrinsicallyPaused state assignment.visit = .ok false)
      (hidle : assignment.visit.memberId = none ∨ assignment.visit.remainingWorkMicroseconds = 0)
      (hqueue : queue = if assignment.visit.remainingWorkMicroseconds ≠ 0 then segment.microseconds
        else 0)
      (hcauses : queueCause assignment.visit.id assignment.deniedReason queue = .ok causes) :
      VisitAdvance state segment starting before assignment
        { assignment.visit with
          queueMicroseconds := assignment.visit.queueMicroseconds + queue } before causes
  | works (identity : MemberIdentity) (capacity : Capacity) (credited : ℤ)
      (causes : List QueueCause)
      (hclock : intrinsicallyPaused state assignment.visit = .ok false)
      (hmem : identity ∈ state.scrum.memberIdentities)
      (howner : assignment.visit.memberId = some identity.id)
      (hremains : assignment.visit.remainingWorkMicroseconds ≠ 0)
      (hcapacity : segmentCapacity state identity segment starting before = .ok capacity)
      (hcredited : credited =
        min capacity.microseconds assignment.visit.remainingWorkMicroseconds)
      (hcauses : queueCause assignment.visit.id (some capacity.limitingConstraint)
        (if assignment.visit.remainingWorkMicroseconds - credited = 0 then 0
          else segment.microseconds - credited) = .ok causes) :
      VisitAdvance state segment starting before assignment
        (creditedVisit assignment.visit segment credited)
        (before.credit (identity.id, segment.businessDate) credited) causes

/-- Every advance of a visit pauses it, lets it wait, or credits labor to it. -/
theorem advanceVisit_cases {state : LiveTeamState p} {segment : BusinessSegment}
    {starting : Consumption} {advance advance' : SegmentAdvance} {assignment : AssignedVisit}
    (h : advanceVisit state segment starting advance assignment = .ok advance') :
    ∃ updated causes, updated.Valid ∧ advance'.visits = advance.visits ++ [updated] ∧
      advance'.queueCauses = advance.queueCauses ++ causes ∧
      VisitAdvance state segment starting advance.consumption assignment updated
        advance'.consumption causes := by
  simp only [advanceVisit, bind_eq_ok] at h
  obtain ⟨status, hstatus, h⟩ := h
  have hclock : intrinsicallyPaused state assignment.visit = .ok status.pausesServiceClock := by
    rw [intrinsicallyPaused, hstatus, ok_bind]
    rfl
  by_cases hpauses : status.pausesServiceClock = true
  · rw [if_pos hpauses] at h
    simp only [bind_eq_ok, validated_eq_ok, StatusVisitState.validate_eq_ok, pure_eq_ok] at h
    obtain ⟨updated, ⟨hvalid, rfl⟩, rfl⟩ := h
    exact ⟨_, [], hvalid, rfl, (List.append_nil _).symm, .pauses (hpauses ▸ hclock)⟩
  rw [if_neg hpauses] at h
  have hruns : intrinsicallyPaused state assignment.visit = .ok false := by
    rw [hclock, Bool.eq_false_of_not_eq_true hpauses]
  -- a visit without an owner and one without work wait in the same way
  have hwaiting : ∀ queue,
      advanceVisit.waiting advance assignment assignment.visit queue = .ok advance' →
      (assignment.visit.memberId = none ∨ assignment.visit.remainingWorkMicroseconds = 0) →
      queue = (if assignment.visit.remainingWorkMicroseconds ≠ 0 then segment.microseconds else 0) →
      ∃ updated causes, updated.Valid ∧ advance'.visits = advance.visits ++ [updated] ∧
        advance'.queueCauses = advance.queueCauses ++ causes ∧
        VisitAdvance state segment starting advance.consumption assignment updated
          advance'.consumption causes := by
    intro queue hwaits hidle hqueue
    simp only [advanceVisit.waiting, bind_eq_ok, validated_eq_ok, StatusVisitState.validate_eq_ok,
      pure_eq_ok] at hwaits
    obtain ⟨updated, ⟨hvalid, rfl⟩, causes, hcauses, rfl⟩ := hwaits
    exact ⟨_, causes, hvalid, rfl, rfl, .waits queue causes hruns hidle hqueue hcauses⟩
  cases howner : assignment.visit.memberId with
  | none =>
    rw [howner] at h
    exact hwaiting _ h (.inl howner) rfl
  | some member =>
    simp only [howner] at h
    by_cases hdone : assignment.visit.remainingWorkMicroseconds = 0
    · rw [if_pos hdone] at h
      exact hwaiting _ h (.inr hdone) (if_neg (not_not.mpr hdone)).symm
    · rw [if_neg hdone] at h
      simp only [bind_eq_ok, validated_eq_ok, StatusVisitState.validate_eq_ok, pure_eq_ok] at h
      obtain ⟨identity, hidentity, capacity, hcapacity, updated, ⟨hvalid, rfl⟩, causes, hcauses,
        rfl⟩ := h
      obtain ⟨hmem, hid⟩ := mem_of_next hidentity
      refine ⟨_, causes, hvalid, rfl, rfl, .works identity capacity _ causes hruns hmem ?_ hdone
        hcapacity rfl hcauses⟩
      rw [howner, of_decide_eq_true hid]

/-- What a segment credits to one visit: nothing, or what the owner has left for it. -/
inductive Credit (state : LiveTeamState p) (segment : BusinessSegment)
    (starting before : Consumption) (visit updated : StatusVisitState) (after : Consumption) : Prop
  | waits (hcredited : updated.creditedLaborMicroseconds = visit.creditedLaborMicroseconds)
      (hremaining : updated.remainingWorkMicroseconds = visit.remainingWorkMicroseconds)
      (hafter : after = before)
  | works (identity : MemberIdentity) (capacity : Capacity)
      (hmem : identity ∈ state.scrum.memberIdentities)
      (howner : visit.memberId = some identity.id)
      (hcapacity : segmentCapacity state identity segment starting before = .ok capacity)
      (hcredited : updated.creditedLaborMicroseconds = visit.creditedLaborMicroseconds +
        min capacity.microseconds visit.remainingWorkMicroseconds)
      (hremaining : updated.remainingWorkMicroseconds = visit.remainingWorkMicroseconds -
        min capacity.microseconds visit.remainingWorkMicroseconds)
      (hafter : after = before.credit (identity.id, segment.businessDate)
        (min capacity.microseconds visit.remainingWorkMicroseconds))

theorem advanceVisit_eq_ok {state : LiveTeamState p} {segment : BusinessSegment}
    {starting : Consumption} {advance advance' : SegmentAdvance} {assignment : AssignedVisit}
    (h : advanceVisit state segment starting advance assignment = .ok advance') :
    ∃ updated, advance'.visits = advance.visits ++ [updated] ∧
      Progressed assignment.visit updated ∧
      Credit state segment starting advance.consumption assignment.visit updated
        advance'.consumption := by
  obtain ⟨updated, causes, hvalid, hvisits, -, hadvance⟩ := advanceVisit_cases h
  refine ⟨updated, hvisits, ?_⟩
  generalize advance'.consumption = after at hadvance ⊢
  constructor
  · cases hadvance <;>
      exact ⟨⟨rfl, rfl, rfl, rfl, rfl, rfl, rfl, rfl, rfl, rfl, rfl⟩, rfl, hvalid⟩
  · cases hadvance with
    | pauses => exact .waits rfl rfl rfl
    | waits => exact .waits rfl rfl rfl
    | works identity capacity credited causes hclock hmem howner _ hcapacity hcredited =>
      subst hcredited
      exact .works identity capacity hmem howner hcapacity rfl rfl rfl

/-! ### The visits of a segment -/

/-- The labor that a list of moves credits to the visits of a member. -/
def laborBy (moves : List (StatusVisitState × StatusVisitState)) (member : Uuid) : ℤ :=
  ((moves.filter fun move => move.2.memberId = some member).map fun move =>
    move.2.creditedLaborMicroseconds - move.1.creditedLaborMicroseconds).sum

@[simp] theorem laborBy_nil (member : Uuid) : laborBy [] member = 0 := rfl

theorem laborBy_cons (move : StatusVisitState × StatusVisitState)
    (moves : List (StatusVisitState × StatusVisitState)) (member : Uuid) :
    laborBy (move :: moves) member = (if move.2.memberId = some member then
      move.2.creditedLaborMicroseconds - move.1.creditedLaborMicroseconds else 0) +
        laborBy moves member := by
  by_cases howner : move.2.memberId = some member <;> simp [laborBy, howner]

/-- The loop over the visits: the consumption grows by the labor credited to them. -/
theorem advanceVisits_moves {state : LiveTeamState p} {segment : BusinessSegment}
    {starting : Consumption} {assignments : List AssignedVisit} {advance advance' : SegmentAdvance}
    (h : assignments.foldlM (advanceVisit state segment starting) advance = .ok advance') :
    ∃ updated, advance'.visits = advance.visits ++ updated ∧
      List.Forall₂ (fun assignment updated => Progressed assignment.visit updated ∧
        ∃ before after, Credit state segment starting before assignment.visit updated after)
        assignments updated ∧
      ∀ key, advance'.consumption.get key = advance.consumption.get key +
        if key.2 = segment.businessDate then
          laborBy ((assignments.map (·.visit)).zip updated) key.1 else 0 := by
  induction assignments generalizing advance with
  | nil =>
    rw [List.foldlM_nil, pure_eq_ok] at h
    subst h
    exact ⟨[], by simp, .nil, by simp⟩
  | cons assignment assignments ih =>
    simp only [List.foldlM_cons, bind_eq_ok] at h
    obtain ⟨next, hnext, hrest⟩ := h
    obtain ⟨updated, hvisits, hprogressed, hcredit⟩ := advanceVisit_eq_ok hnext
    obtain ⟨rest, hrestVisits, hall, hget⟩ := ih hrest
    refine ⟨updated :: rest, ?_, .cons ⟨hprogressed, _, _, hcredit⟩ hall, fun key => ?_⟩
    · rw [hrestVisits, hvisits, List.append_assoc, List.singleton_append]
    rw [hget key, List.map_cons, List.zip_cons_cons, laborBy_cons]
    rcases hcredit with ⟨hcredited, -, hafter⟩ | ⟨identity, capacity, -, howner, -, hcredited, -,
      hafter⟩
    · rw [hafter, hcredited, sub_self]
      simp
    · have hgain : updated.creditedLaborMicroseconds -
          assignment.visit.creditedLaborMicroseconds =
            min capacity.microseconds assignment.visit.remainingWorkMicroseconds := by omega
      rw [hafter, Consumption.get_credit, hprogressed.memberId, howner, hgain]
      simp only [Option.some.injEq, Prod.ext_iff]
      by_cases hdate : key.2 = segment.businessDate
      · by_cases hmember : identity.id = key.1
        · rw [if_pos ⟨hmember, hdate.symm⟩, if_pos hdate, if_pos hdate, if_pos hmember]
          omega
        · rw [if_neg fun hkey => hmember hkey.1, if_pos hdate, if_pos hdate, if_neg hmember]
          omega
      · rw [if_neg fun hkey => hdate hkey.2.symm, if_neg hdate, if_neg hdate, add_zero]

/-- The bounds of the labor of a member in a segment. -/
def WithinCapacity (state : LiveTeamState p) (segment : BusinessSegment)
    (starting consumption : Consumption) : Prop :=
  ∀ identity ∈ state.scrum.memberIdentities, ∀ available ceiling,
    availableMicroseconds state identity segment = .ok available → 0 ≤ available →
    dailyCeiling state identity segment = .ok ceiling →
      consumption.get (identity.id, segment.businessDate) -
          starting.get (identity.id, segment.businessDate) ≤ available ∧
        consumption.get (identity.id, segment.businessDate) ≤
          max (starting.get (identity.id, segment.businessDate)) ceiling

theorem Credit.withinCapacity {state : LiveTeamState p} {segment : BusinessSegment}
    {starting before after : Consumption} {visit updated : StatusVisitState}
    (h : Credit state segment starting before visit updated after)
    (hbefore : WithinCapacity state segment starting before) :
    WithinCapacity state segment starting after := by
  rcases h with ⟨-, -, rfl⟩ | ⟨worker, capacity, hworker, -, hcapacity, -, -, rfl⟩
  · exact hbefore
  intro identity hmem available ceiling havailable hnonneg hceiling
  obtain ⟨hsegment, hday⟩ := hbefore identity hmem available ceiling havailable hnonneg hceiling
  rw [Consumption.get_credit]
  by_cases hid : worker.id = identity.id
  · obtain rfl : worker = identity := Collection.memberIdentities.eq_of_key_eq
      state.scrum.complete.toConsistent hworker hmem hid
    obtain ⟨available', ceiling', havailable', hceiling', hmicroseconds⟩ :=
      segmentCapacity_eq_ok hcapacity
    rw [havailable] at havailable'
    rw [hceiling] at hceiling'
    cases havailable'
    cases hceiling'
    rw [if_pos rfl, hmicroseconds]
    omega
  · rw [if_neg fun hkey => hid (Prod.ext_iff.mp hkey).1, add_zero]
    exact ⟨hsegment, hday⟩

theorem advanceVisits_withinCapacity {state : LiveTeamState p} {segment : BusinessSegment}
    {starting : Consumption} {assignments : List AssignedVisit} {advance advance' : SegmentAdvance}
    (h : assignments.foldlM (advanceVisit state segment starting) advance = .ok advance')
    (init : WithinCapacity state segment starting advance.consumption) :
    WithinCapacity state segment starting advance'.consumption := by
  refine foldlM_induction (motive := fun advance : SegmentAdvance =>
    WithinCapacity state segment starting advance.consumption) h init ?_
  intro advance assignment advance' _ hadvance hstep
  obtain ⟨updated, -, -, hcredit⟩ := advanceVisit_eq_ok hstep
  exact hcredit.withinCapacity hadvance

/-- Keys stay, and every new entry is of a member on the date of the segment. -/
structure EntriesGrow (state : LiveTeamState p) (segment : BusinessSegment)
    (consumption consumption' : Consumption) : Prop where
  nodup : (consumption'.map Prod.fst).Nodup
  keys : ∀ key ∈ consumption.map Prod.fst, key ∈ consumption'.map Prod.fst
  entries : ∀ entry ∈ consumption', entry ∈ consumption ∨
    ∃ identity ∈ state.scrum.memberIdentities, entry.1 = (identity.id, segment.businessDate)

theorem advanceVisits_entries {state : LiveTeamState p} {segment : BusinessSegment}
    {starting : Consumption} {assignments : List AssignedVisit} {advance advance' : SegmentAdvance}
    (h : assignments.foldlM (advanceVisit state segment starting) advance = .ok advance')
    (init : (advance.consumption.map Prod.fst).Nodup) :
    EntriesGrow state segment advance.consumption advance'.consumption := by
  refine foldlM_induction (motive := fun next : SegmentAdvance =>
    EntriesGrow state segment advance.consumption next.consumption) h
    ⟨init, fun _ hkey => hkey, fun entry he => .inl he⟩ ?_
  intro next assignment next' _ ⟨hnodup, hkeys, hentries⟩ hstep
  obtain ⟨updated, -, -, hcredit⟩ := advanceVisit_eq_ok hstep
  rcases hcredit with ⟨-, -, hafter⟩ | ⟨identity, capacity, hmem, -, -, -, -, hafter⟩
  · rw [hafter]
    exact ⟨hnodup, hkeys, hentries⟩
  · rw [hafter]
    refine ⟨Consumption.nodup_credit hnodup _ _, fun key hkey => ?_, fun entry hentry => ?_⟩
    · exact (Keyed.mem_map_key_assign _).mpr (.inl (hkeys key hkey))
    · rcases Consumption.mem_credit hentry with hkey | hold
      · exact .inr ⟨identity, hmem, hkey⟩
      · exact hentries entry hold

/-- The labor credited to a list of visits. -/
def creditedLabor (visits : List StatusVisitState) : ℤ :=
  (visits.map (·.creditedLaborMicroseconds)).sum

/-- The labor of all entries. -/
def Consumption.total (consumption : Consumption) : ℤ :=
  (consumption.map Prod.snd).sum

/-- The total consumption grows by the labor credited to the visits. -/
theorem advanceVisits_total {state : LiveTeamState p} {segment : BusinessSegment}
    {starting : Consumption} {assignments : List AssignedVisit} {advance advance' : SegmentAdvance}
    (h : assignments.foldlM (advanceVisit state segment starting) advance = .ok advance')
    (init : (advance.consumption.map Prod.fst).Nodup) :
    advance'.consumption.total + creditedLabor (advance.visits ++ assignments.map (·.visit)) =
      advance.consumption.total + creditedLabor advance'.visits := by
  simp only [creditedLabor, Consumption.total] at *
  induction assignments generalizing advance with
  | nil =>
    rw [List.foldlM_nil, pure_eq_ok] at h
    subst h
    simp
  | cons assignment assignments ih =>
    simp only [List.foldlM_cons, bind_eq_ok] at h
    obtain ⟨next, hnext, hrest⟩ := h
    obtain ⟨updated, hvisits, -, hcredit⟩ := advanceVisit_eq_ok hnext
    rcases hcredit with ⟨hcredited, -, hafter⟩ | ⟨identity, capacity, -, -, -, hcredited, -, hafter⟩
    · have htotal := ih hrest (hafter ▸ init)
      rw [hafter, hvisits] at htotal
      simp only [List.map_append, List.map_cons, List.sum_append, List.sum_cons, List.map_nil,
        List.sum_nil] at htotal ⊢
      omega
    · have htotal := ih hrest (hafter ▸ Consumption.nodup_credit init _ _)
      have hsum := Keyed.sum_assign Prod.fst Prod.snd init ((identity.id, segment.businessDate),
        advance.consumption.get (identity.id, segment.businessDate) +
          min capacity.microseconds assignment.visit.remainingWorkMicroseconds)
      rw [← Consumption.get_eq_valueAt] at hsum
      rw [hafter, Consumption.credit, hsum, hvisits] at htotal
      simp only [List.map_append, List.map_cons, List.sum_append, List.sum_cons, List.map_nil,
        List.sum_nil] at htotal ⊢
      omega

/-! ### One segment -/

/-- What an advance over a segment does: the blocked visits stay, and every other visit moves. -/
structure SegmentMoves (state : LiveTeamState p) (visits : List StatusVisitState)
    (consumption : Consumption) (segment : BusinessSegment) (blocked : List Uuid)
    (advance : SegmentAdvance) (moves : List (StatusVisitState × StatusVisitState)) : Prop where
  before : (moves.map Prod.fst).Perm (visits.filter fun visit => visit.id ∉ blocked)
  after : advance.visits = (visits.filter fun visit => visit.id ∈ blocked) ++ moves.map Prod.snd
  same : ∀ move ∈ moves, SameVisit move.1 move.2 ∧ move.2.Valid
  owners : ∀ move ∈ moves, ∀ owner, move.2.memberId = some owner →
    CanOwn state segment move.1 owner
  gain : ∀ move ∈ moves, move.2.creditedLaborMicroseconds ≠ move.1.creditedLaborMicroseconds →
    move.2.memberId ≠ none
  limits : WithinLimits state (ownersOf (moves.map Prod.snd))
  labor : ∀ key, advance.consumption.get key = consumption.get key +
    if key.2 = segment.businessDate then laborBy moves key.1 else 0
  capacity : WithinCapacity state segment consumption advance.consumption
  total : (consumption.map Prod.fst).Nodup → advance.consumption.total + creditedLabor visits =
    consumption.total + creditedLabor advance.visits
  entries : (consumption.map Prod.fst).Nodup →
    EntriesGrow state segment consumption advance.consumption

theorem rankedVisits_perm {state : LiveTeamState p} {visits ordered : List StatusVisitState}
    (h : rankedVisits state visits = .ok ordered) : ordered.Perm visits := by
  simp only [rankedVisits, bind_eq_ok, pure_eq_ok] at h
  obtain ⟨pairs, hpairs, rfl⟩ := h
  have hsnd : pairs.map Prod.snd = visits := by
    have hall := mapM_eq_ok.mp hpairs
    clear hpairs
    induction hall with
    | nil => rfl
    | cons hpair _ ih =>
      simp only [bind_eq_ok, pure_eq_ok] at hpair
      obtain ⟨work, -, rfl⟩ := hpair
      rw [List.map_cons, ih]
  have hperm := (Ordering.sortOn_perm (fun pair : List ℤ × StatusVisitState => pair.1) pairs).map
    Prod.snd
  rwa [hsnd] at hperm

theorem advanceSegment_eq_ok {state : LiveTeamState p} {visits : List StatusVisitState}
    {consumption : Consumption} {segment : BusinessSegment} {blocked : List Uuid}
    {advance : SegmentAdvance}
    (h : advanceSegment state visits consumption segment blocked = .ok advance) :
    ∃ moves, SegmentMoves state visits consumption segment blocked advance moves := by
  simp only [advanceSegment, bind_eq_ok] at h
  obtain ⟨ordered, hordered, assignments, hassignments, hadvance⟩ := h
  obtain ⟨updated, hvisits, hall, hlabor⟩ := advanceVisits_moves hadvance
  have hassigned := assignOwners_forall₂ hassignments
  -- a visit is first assigned and then advanced
  have hmoves : List.Forall₂ (fun visit updated => SameVisit visit updated ∧ updated.Valid ∧
      (∀ owner, updated.memberId = some owner → CanOwn state segment visit owner) ∧
      (updated.creditedLaborMicroseconds ≠ visit.creditedLaborMicroseconds →
        updated.memberId ≠ none)) ordered updated := by
    refine forall₂_comp hassigned hall fun visit assignment updated hassign hprogress => ?_
    obtain ⟨hprogressed, before, after, hcredit⟩ := hprogress
    have hsame : SameVisit visit assignment.visit := by
      rw [hassign.visit_eq]
      exact ⟨rfl, rfl, rfl, rfl, rfl, rfl, rfl, rfl, rfl, rfl, rfl⟩
    refine ⟨hsame.trans hprogressed.toSameVisit, hprogressed.valid, fun owner howner => ?_,
      fun hgain => ?_⟩
    · exact hassign.canOwn owner (hprogressed.memberId ▸ howner)
    · rcases hcredit with ⟨hcredited, -, -⟩ | ⟨identity, capacity, -, howner, -, -, -, -⟩
      · rw [hcredited, hassign.visit_eq] at hgain
        exact absurd rfl hgain
      · rw [hprogressed.memberId, howner]
        exact Option.some_ne_none _
  have hlength : ordered.length = updated.length := hmoves.length_eq
  have hfst : (ordered.zip updated).map Prod.fst = ordered :=
    List.map_fst_zip hlength.le
  have hsnd : (ordered.zip updated).map Prod.snd = updated :=
    List.map_snd_zip hlength.ge
  have hmove : ∀ move ∈ ordered.zip updated, SameVisit move.1 move.2 ∧ move.2.Valid ∧
      (∀ owner, move.2.memberId = some owner → CanOwn state segment move.1 owner) ∧
      (move.2.creditedLaborMicroseconds ≠ move.1.creditedLaborMicroseconds →
        move.2.memberId ≠ none) := by
    rintro ⟨visit, update⟩ hmem
    exact (List.forall₂_iff_zip.mp hmoves).2 hmem
  -- the assignment keeps the credited labor
  have howners : ∀ member, laborBy ((assignments.map (·.visit)).zip updated) member =
      laborBy (ordered.zip updated) member := by
    intro member
    clear hlabor hvisits hmove hsnd hfst hlength hmoves hadvance hassignments hordered
    induction hassigned generalizing updated with
    | nil => rfl
    | @cons visit assignment _ _ hassign _ ih =>
      cases hall with
      | cons _ hrest =>
        rw [List.map_cons, List.zip_cons_cons, List.zip_cons_cons, laborBy_cons, laborBy_cons,
          ih _ hrest, hassign.visit_eq]
  have hassignedCredit : creditedLabor ((visits.filter fun visit => visit.id ∈ blocked) ++
      assignments.map (·.visit)) = creditedLabor visits := by
    have hcredits : (assignments.map (·.visit)).map (·.creditedLaborMicroseconds) =
        ordered.map (·.creditedLaborMicroseconds) := by
      clear hlabor hvisits hmove hsnd hfst hlength hmoves hadvance hassignments howners hall hordered
      induction hassigned with
      | nil => rfl
      | cons hassign _ ih => rw [List.map_cons, List.map_cons, ih, hassign.visit_eq, List.map_cons]
    -- the blocked visits are set apart, the others are ranked
    have hperm : ((visits.filter fun visit => visit.id ∈ blocked) ++ ordered).Perm visits := by
      refine ((rankedVisits_perm hordered).append_left _).trans ?_
      have hsplit := List.filter_append_perm (fun visit => decide (visit.id ∈ blocked)) visits
      simpa using hsplit
    rw [creditedLabor, List.map_append, hcredits, ← List.map_append]
    exact (hperm.map _).sum_eq
  refine ⟨ordered.zip updated, ?_, ?_, fun move hm => ⟨(hmove move hm).1, (hmove move hm).2.1⟩,
    fun move hm => (hmove move hm).2.2.1, fun move hm => (hmove move hm).2.2.2, ?_, fun key => ?_,
    ?_, fun hnodup => ?_, fun hnodup => ?_⟩
  · rw [hfst]
    exact rankedVisits_perm hordered
  · rw [hsnd, hvisits]
  · rw [hsnd]
    have hlimits := assignOwners_withinLimits hassignments
    have hsame : ownersOf updated = ownersOf (assignments.map (·.visit)) := by
      clear hlabor hvisits hmove hsnd hfst hlength hmoves hadvance hassignments hassigned howners
        hlimits hassignedCredit
      induction hall with
      | nil => rfl
      | @cons assignment update _ _ hprogress _ ih =>
        rw [ownersOf, List.map_cons, ownersOf, List.filterMap_cons, List.filterMap_cons,
          hprogress.1.memberId]
        rw [ownersOf, ownersOf] at ih
        rw [ih]
    rwa [hsame]
  · rw [hlabor key, howners]
  · refine advanceVisits_withinCapacity hadvance ?_
    intro identity _ available ceiling _ hnonneg _
    rw [sub_self]
    exact ⟨hnonneg, le_max_left _ _⟩
  · have htotal := advanceVisits_total hadvance hnodup
    rw [hassignedCredit] at htotal
    exact htotal
  · exact advanceVisits_entries hadvance hnodup

end JiraSimulator
