import JiraSimulator.Correctness.OwnerChoice

/-!
# Visits that keep their owner

A visit keeps its owner over a segment if the owner carries its activity, has room, and has time
that does not round to nothing; a positive fraction of a short segment may round to nothing.

* `assignOwners_keeps`: the visit is among the assignments as it was.
* `Plays.keeps_owner`: the owner after a run over segments.
* `owner_kept`: the owner after a tick.
-/

namespace JiraSimulator

open Library Library.Outcome ScrumCollections

variable {p : Platform}

/-! ### One segment -/

/-- The visits of an owner in a list whose activities it carries. -/
def heldBy (member : MemberBlueprint) (owner : Uuid) (visits : List StatusVisitState) :
    List StatusVisitState :=
  visits.filter fun visit =>
    visit.memberId = some owner && (proficiency member visit.activityKey).isSome

/-- In a segment the owner of a visit carries its activity, has a positive fraction, and owns fewer
visits than its limit among those that are ranked above it. -/
structure StaysEligible (state : LiveTeamState p) (blocked : List Uuid) (segment : BusinessSegment)
    (visits : List StatusVisitState) (visit : StatusVisitState) (owner : Uuid) : Prop where
  available : ∃ identity ∈ state.scrum.memberIdentities, identity.id = owner ∧
    Available state segment visit identity
  room : ∀ identity ∈ state.scrum.memberIdentities, identity.id = owner → ∀ member,
    memberBlueprint state identity = .ok member → ∀ before current after,
    rankedVisits state (visits.filter fun other => other.id ∉ blocked) =
      .ok (before ++ current :: after) → current.id = visit.id →
    (heldBy member owner before).length < member.maxConcurrentWip

/-- The time of the owner in the segment does not round to nothing. -/
def HasTime (state : LiveTeamState p) (segment : BusinessSegment) (owner : Uuid) : Prop :=
  ∃ identity ∈ state.scrum.memberIdentities, identity.id = owner ∧
    ∃ available, availableMicroseconds state identity segment = .ok available ∧ 0 < available

section segment

variable {state : LiveTeamState p} {segment : BusinessSegment} {consumption : Consumption}

/-- The first loop counts an owner at most once for each of its visits that it may keep. -/
theorem retainOwner_count_le {identity : MemberIdentity} {member : MemberBlueprint}
    (hmem : identity ∈ state.scrum.memberIdentities)
    (hmember : memberBlueprint state identity = .ok member) {visits : List StatusVisitState}
    {start retention : Retention}
    (h : visits.foldlM (retainOwner state segment) start = .ok retention) :
    retention.retained.count identity.id ≤
      start.retained.count identity.id + (heldBy member identity.id visits).length := by
  induction visits generalizing start with
  | nil =>
    rw [List.foldlM_nil, pure_eq_ok] at h
    subst h
    exact Nat.le_add_right _ _
  | cons visit visits ih =>
    simp only [List.foldlM_cons, bind_eq_ok] at h
    obtain ⟨next, hnext, hrest⟩ := h
    have hle := ih hrest
    have hhead : (heldBy member identity.id visits).length ≤
        (heldBy member identity.id (visit :: visits)).length :=
      ((List.sublist_cons_self visit visits).filter _).length_le
    rcases retainOwner_eq_ok hnext with ⟨other, hother, howner, hretain, rfl⟩ | ⟨-, rfl⟩
    · rw [List.count_append, List.count_singleton] at hle
      by_cases hid : other.id = identity.id
      · -- a kept visit of the owner is one whose activity it carries
        obtain rfl : other = identity := Collection.memberIdentities.eq_of_key_eq
          state.scrum.complete.toConsistent hother hmem hid
        simp only [canRetain, hmember, ok_bind, bind_eq_ok, pure_eq_ok, Bool.and_eq_true] at hretain
        obtain ⟨available, -, ⟨hcapable, -⟩, -⟩ := hretain
        have hheld : heldBy member other.id (visit :: visits) =
            visit :: heldBy member other.id visits :=
          List.filter_cons_of_pos (by simp [howner, hcapable])
        rw [hheld, List.length_cons]
        simp only [beq_self_eq_true, if_true] at hle
        omega
      · rw [if_neg (by simpa using hid)] at hle
        omega
    · exact hle.trans (Nat.add_le_add_left hhead _)

/-- A visit whose owner is eligible and has time is among the assignments as it was. -/
theorem assignOwners_keeps {before after : List StatusVisitState} {visit : StatusVisitState}
    {assignments : List AssignedVisit} {identity : MemberIdentity} {member : MemberBlueprint}
    {available : ℤ}
    (h : assignOwners state (before ++ visit :: after) segment consumption = .ok assignments)
    (howner : visit.memberId = some identity.id)
    (hmem : identity ∈ state.scrum.memberIdentities)
    (hmember : memberBlueprint state identity = .ok member)
    (hcapable : (proficiency member visit.activityKey).isSome)
    (havailable : availableMicroseconds state identity segment = .ok available)
    (hpos : 0 < available)
    (hroom : (heldBy member identity.id before).length < member.maxConcurrentWip) :
    ⟨visit, none⟩ ∈ assignments := by
  obtain ⟨retention, assignment, hretention, hassignment, rfl, -⟩ := assignOwners_eq_ok h
  have hkept : visit ∈ retention.visits := by
    obtain ⟨middle, hbefore, hrest⟩ := foldlM_append_eq_ok.mp hretention
    simp only [List.foldlM_cons, bind_eq_ok] at hrest
    obtain ⟨next, hnext, hrest⟩ := hrest
    have hcount := retainOwner_count_le hmem hmember hbefore
    rw [List.count_nil, Nat.zero_add] at hcount
    have hstays : next.visits = middle.visits ++ [visit] := by
      rw [retainOwner, howner] at hnext
      simp only [bind_eq_ok] at hnext
      obtain ⟨found, hfound, keeps, hkeeps, hnext⟩ := hnext
      obtain ⟨hfoundMem, hfoundId⟩ := getItem_eq_ok hfound
      obtain rfl : found = identity := Collection.memberIdentities.eq_of_key_eq
        state.scrum.complete.toConsistent hfoundMem hmem hfoundId
      simp only [canRetain, hmember, havailable, ok_bind, pure_eq_ok] at hkeeps
      have hlt : middle.retained.count found.id < member.maxConcurrentWip := by omega
      have htrue : keeps = true := by
        rw [← hkeeps]
        simp [hcapable, hpos, hlt]
      rw [htrue, if_pos rfl, pure_eq_ok] at hnext
      rw [← hnext]
    have hgrows : ∀ v ∈ next.visits, v ∈ retention.visits := by
      obtain ⟨rows, hrows, -⟩ := foldlM_append_forall₂ Retention.visits
        (R := fun _ _ => True) hrest fun retention visit retention' _ hstep => by
          rcases retainOwner_eq_ok hstep with ⟨-, -, -, -, rfl⟩ | ⟨-, rfl⟩
          · exact ⟨_, rfl, trivial⟩
          · exact ⟨_, rfl, trivial⟩
      intro v hv
      rw [hrows]
      exact List.mem_append_left _ hv
    exact hgrows visit (hstays ▸ List.mem_append_right _ (List.mem_singleton_self visit))
  -- the second loop passes over a visit with an owner
  obtain ⟨results, hresults, hall⟩ := foldlM_append_forall₂ Assignment.results
    (R := fun kept assigned => kept.memberId ≠ none → assigned = ⟨kept, none⟩) hassignment
    fun assignment visit assignment' _ hstep => by
      rcases assignVisit_eq_ok hstep with ⟨-, rfl⟩ | ⟨hnone, reason, rfl⟩ |
        ⟨hnone, identity, -, -, -, -, rfl⟩
      · exact ⟨_, rfl, fun _ => rfl⟩
      · exact ⟨_, rfl, fun hsome => absurd hnone hsome⟩
      · exact ⟨_, rfl, fun hsome => absurd hnone hsome⟩
  obtain ⟨assigned, hassigned, hsame⟩ := forall₂_exists_right hall hkept
  rw [hresults, List.nil_append, ← hsame (by rw [howner]; exact Option.some_ne_none _)]
  exact hassigned

/-- Every owner in a segment has time in it. -/
theorem assignOwners_hasTime {visits : List StatusVisitState} {assignments : List AssignedVisit}
    (h : assignOwners state visits segment consumption = .ok assignments) {assigned : AssignedVisit}
    (hassigned : assigned ∈ assignments) {owner : Uuid}
    (howner : assigned.visit.memberId = some owner) : HasTime state segment owner := by
  obtain ⟨retention, assignment, hretention, hassignment, rfl, -⟩ := assignOwners_eq_ok h
  have hkept : ∀ visit ∈ retention.visits, ∀ owner, visit.memberId = some owner →
      HasTime state segment owner := by
    refine foldlM_induction (motive := fun r : Retention => ∀ visit ∈ r.visits, ∀ owner,
      visit.memberId = some owner → HasTime state segment owner) hretention ?_ ?_
    · exact fun _ hmem => absurd hmem List.not_mem_nil
    intro start visit next _ hstart hstep kept hkept owner howner
    rcases retainOwner_eq_ok hstep with ⟨identity, hmem, hsome, hretain, rfl⟩ | ⟨-, rfl⟩
    · rcases List.mem_append.mp hkept with hold | hnew
      · exact hstart kept hold owner howner
      · rw [List.mem_singleton.mp hnew, hsome] at howner
        simp only [canRetain, bind_eq_ok, pure_eq_ok, Bool.and_eq_true, decide_eq_true_eq] at hretain
        obtain ⟨member, -, available, havailable, ⟨-, hpos⟩, -⟩ := hretain
        exact ⟨identity, hmem, Option.some.inj howner, available, havailable, hpos⟩
    · rcases List.mem_append.mp hkept with hold | hnew
      · exact hstart kept hold owner howner
      · rw [List.mem_singleton.mp hnew] at howner
        cases howner
  refine foldlM_induction (motive := fun a : Assignment => ∀ assigned ∈ a.results, ∀ owner,
    assigned.visit.memberId = some owner → HasTime state segment owner) hassignment ?_ ?_ assigned
      hassigned owner howner
  · exact fun _ hmem => absurd hmem List.not_mem_nil
  intro start visit next hvisit hstart hstep assigned hassigned owner howner
  unfold assignVisit at hstep
  cases hsome : visit.memberId with
  | some other =>
    simp only [hsome, Except.ok.injEq] at hstep
    subst hstep
    rcases List.mem_append.mp hassigned with hold | hnew
    · exact hstart assigned hold owner howner
    · rw [List.mem_singleton.mp hnew] at howner
      exact hkept visit hvisit owner howner
  | none =>
    simp only [hsome] at hstep
    obtain ⟨assessments, -, ⟨-, rfl⟩ | ⟨identity, hmem, value, hassess, -, rfl⟩⟩ :=
      assignOwner_eq_ok hstep
    · rcases List.mem_append.mp hassigned with hold | hnew
      · exact hstart assigned hold owner howner
      · rw [List.mem_singleton.mp hnew, hsome] at howner
        cases howner
    · rcases List.mem_append.mp hassigned with hold | hnew
      · exact hstart assigned hold owner howner
      · rw [List.mem_singleton.mp hnew] at howner
        -- a candidate has capacity left, which is at most its time
        cases assessMember_eq_ok hassess with
        | candidate _ hroom =>
          obtain ⟨⟨-, remaining, hremaining, hpos⟩, -⟩ := hroom
          simp only [remainingCapacity, bind_eq_ok, pure_eq_ok] at hremaining
          obtain ⟨available, havailable, ceiling, -, rfl⟩ := hremaining
          exact ⟨identity, hmem, Option.some.inj howner, available, havailable, by omega⟩

/-- Over a segment a visit keeps an owner that is eligible and has time. -/
theorem advanceSegment_keeps {visits : List StatusVisitState} {blocked : List Uuid}
    {advance : SegmentAdvance}
    (h : advanceSegment state visits consumption segment blocked = .ok advance)
    {visit : StatusVisitState} (hvisit : visit ∈ visits) (hfree : visit.id ∉ blocked) {owner : Uuid}
    (howner : visit.memberId = some owner)
    (heligible : StaysEligible state blocked segment visits visit owner)
    (htime : HasTime state segment owner) :
    ∃ updated ∈ advance.visits, SameVisit visit updated ∧ updated.memberId = some owner := by
  simp only [advanceSegment, bind_eq_ok] at h
  obtain ⟨ordered, hordered, assignments, hassignments, hadvance⟩ := h
  have hmem : visit ∈ ordered := (rankedVisits_perm hordered).mem_iff.mpr
    (List.mem_filter.mpr ⟨hvisit, decide_eq_true hfree⟩)
  obtain ⟨before, after, rfl⟩ := List.append_of_mem hmem
  obtain ⟨identity, hidentity, rfl, ⟨member, hmember, hcapable⟩, -⟩ := heligible.available
  obtain ⟨found, hfound, hid, available, havailable, hpos⟩ := htime
  obtain rfl : found = identity := Collection.memberIdentities.eq_of_key_eq
    state.scrum.complete.toConsistent hfound hidentity hid
  have hroom := heligible.room found hfound rfl member hmember before visit after hordered rfl
  have hassigned := assignOwners_keeps hassignments howner hfound hmember hcapable havailable hpos
    hroom
  obtain ⟨updated, hvisits, hall, -⟩ := advanceVisits_moves hadvance
  obtain ⟨row, hrow, hprogressed, -⟩ := forall₂_exists_right hall hassigned
  refine ⟨row, hvisits ▸ List.mem_append_right _ hrow, hprogressed.toSameVisit, ?_⟩
  rw [hprogressed.memberId]
  exact howner

/-- Over a segment in which an owner has no time it loses every visit. -/
theorem advanceSegment_loses {visits : List StatusVisitState} {blocked : List Uuid}
    {advance : SegmentAdvance}
    (h : advanceSegment state visits consumption segment blocked = .ok advance) {owner : Uuid}
    (htime : ¬ HasTime state segment owner) {updated : StatusVisitState}
    (hupdated : updated ∈ advance.visits) (hfree : updated.id ∉ blocked) :
    updated.memberId ≠ some owner := by
  simp only [advanceSegment, bind_eq_ok] at h
  obtain ⟨ordered, -, assignments, hassignments, hadvance⟩ := h
  obtain ⟨rows, hvisits, hall, -⟩ := advanceVisits_moves hadvance
  rw [hvisits] at hupdated
  rcases List.mem_append.mp hupdated with hblocked | hrow
  · exact absurd (of_decide_eq_true (List.mem_filter.mp hblocked).2) hfree
  · obtain ⟨assigned, hassigned, hprogressed, -⟩ := forall₂_exists_left hall hrow
    intro howner
    rw [hprogressed.memberId] at howner
    exact htime (assignOwners_hasTime hassignments hassigned howner)

end segment

/-! ### Runs over segments -/

theorem StaysEligible.congr {state : LiveTeamState p} {blocked : List Uuid}
    {segment : BusinessSegment} {visits : List StatusVisitState} {visit visit' : StatusVisitState}
    {owner : Uuid} (h : StaysEligible state blocked segment visits visit owner)
    (hsame : SameVisit visit visit') : StaysEligible state blocked segment visits visit' owner := by
  obtain ⟨⟨identity, hmem, hid, ⟨member, hmember, hcapable⟩, hfraction⟩, hroom⟩ := h
  refine ⟨⟨identity, hmem, hid, ⟨member, hmember, ?_⟩, hfraction⟩, ?_⟩
  · rw [hsame.activityKey]
    exact hcapable
  · rw [hsame.id]
    exact hroom

/-- Over a run a visit keeps an owner that is eligible and has time in every segment. -/
theorem Plays.keeps_owner {state : LiveTeamState p} {blocked : List Uuid}
    {visits visits' : List StatusVisitState} {consumption consumption' : Consumption}
    {played : List (BusinessSegment × List StatusVisitState × Consumption × SegmentAdvance)}
    (h : Plays state blocked visits consumption played visits' consumption')
    {visit : StatusVisitState} (hvisit : visit ∈ visits) (hfree : visit.id ∉ blocked) {owner : Uuid}
    (howner : visit.memberId = some owner)
    (heligible : ∀ entry ∈ played, StaysEligible state blocked entry.1 entry.2.1 visit owner)
    (htime : ∀ entry ∈ played, HasTime state entry.1 owner) :
    ∃ updated ∈ visits', SameVisit visit updated ∧ updated.memberId = some owner := by
  induction h generalizing visit with
  | done visits consumption => exact ⟨visit, hvisit, .refl visit, howner⟩
  | @play visits visits' consumption consumption' segment advance played hadvance _ ih =>
    obtain ⟨middle, hmiddle, hsame, hkept⟩ := advanceSegment_keeps hadvance hvisit hfree howner
      (heligible _ List.mem_cons_self) (htime _ List.mem_cons_self)
    obtain ⟨updated, hupdated, hsame', hkept'⟩ := ih hmiddle (hsame.id ▸ hfree) hkept
      (fun entry hentry => (heligible entry (List.mem_cons_of_mem _ hentry)).congr hsame)
      fun entry hentry => htime entry (List.mem_cons_of_mem _ hentry)
    exact ⟨updated, hupdated, hsame.trans hsame', hkept'⟩

/-- After a run the visits are as its last segment leaves them. -/
theorem Plays.last {state : LiveTeamState p} {blocked : List Uuid}
    {visits visits' : List StatusVisitState} {consumption consumption' : Consumption}
    {played : List (BusinessSegment × List StatusVisitState × Consumption × SegmentAdvance)}
    (h : Plays state blocked visits consumption played visits' consumption')
    {entry : BusinessSegment × List StatusVisitState × Consumption × SegmentAdvance}
    (hlast : played.getLast? = some entry) :
    advanceSegment state entry.2.1 entry.2.2.1 entry.1 blocked = .ok entry.2.2.2 ∧
      entry.2.2.2.visits = visits' := by
  induction h with
  | done visits consumption => cases hlast
  | @play visits visits' consumption consumption' segment advance played hadvance hrest ih =>
    cases hrest with
    | done =>
      rw [List.getLast?_singleton, Option.some.injEq] at hlast
      subst hlast
      exact ⟨hadvance, rfl⟩
    | play =>
      rw [List.getLast?_cons_cons] at hlast
      exact ih hlast

/-! ### One tick -/

/-- The tick commits this advance, over these segments. -/
structure TickPlays (store : TeamStore p) (request : TickRequest) (draws : DrawSource)
    (store' : TeamStore p) (advance : RiskAdvance p) (outcome : SegmentsOutcome) : Prop where
  progress : ProgressTick store request draws advance store'
  segments : ∃ calendar segments, store.state.calendar = .ok calendar ∧
    businessSegments advance.state calendar (cursor store.state) advance.result.endsAt =
      .ok segments ∧
    runSegments advance.state calendar (riskBlockedVisits store.state advance.risks)
      advance.result.endsAt segments (openVisits advance.state) (consumptionMap advance.state) =
        .ok outcome

section tick

variable {store store' : TeamStore p} {request : TickRequest} {draws : DrawSource}

/-- The rows around the segments of a tick, of an open visit that its risks do not pause. -/
theorem TickPlays.rows {advance : RiskAdvance p} {outcome : SegmentsOutcome}
    (hreach : (teamRuns p).Reachable store)
    (h : TickPlays store request draws store' advance outcome) {visit row : StatusVisitState}
    (hvisit : visit ∈ openVisits store.state)
    (hfree : visit.id ∉ riskBlockedVisits store.state advance.risks)
    (hrow : row ∈ store'.scrum.statusVisits) (hid : row.id = visit.id)
    (hopen : row.lifecycle = .OPEN) :
    Plays advance.state (riskBlockedVisits store.state advance.risks) (openVisits advance.state)
        (consumptionMap advance.state) outcome.played outcome.visits outcome.consumption ∧
      visit ∈ openVisits advance.state ∧ row ∈ outcome.visits ∧
      (outcome.visits.map (·.id)).Nodup := by
  have hcounted := ordinalsCounted_of_reachable hreach
  obtain ⟨command, hcommitted, -, hassembled⟩ := h.progress.committed (.of_reachable hreach)
  obtain ⟨outcome', finish, hrun⟩ := tickAdvance_eq_ok h.progress.advance_eq
  have hsame : outcome' = outcome := by
    obtain ⟨calendar, segments, hcalls⟩ := hrun.calls
    obtain ⟨calendar', segments', hcalendar, hsegments, houtcome⟩ := h.segments
    rw [hcalls.calendar_eq, Except.ok.injEq] at hcalendar
    subst hcalendar
    rw [hcalls.segments_eq, Except.ok.injEq] at hsegments
    subst hsegments
    rw [hcalls.outcome_eq] at houtcome
    exact Except.ok.inj houtcome
  subst hsame
  have hafter := hcommitted.afterTick hrun.working hassembled
  have hmem := (mem_openVisits.mp hvisit).1
  cases hrun.tickRow hafter hcounted hrow with
  | closed _ hclosed =>
    rw [hopen] at hclosed
    cases hclosed
  | enters hnew => exact absurd (List.mem_map.mpr ⟨visit, hmem, hid.symm⟩) hnew
  | progresses x hx hplayed =>
    rcases hplayed with rfl | ⟨rfl, -⟩
    · obtain ⟨before, hbefore, hsame⟩ := hrun.exists_before hx
      obtain ⟨hbeforeMem, hbeforeOpen⟩ := mem_openVisits.mp hbefore
      have hbid : before.id = visit.id := by rw [← hsame.id, hid]
      have hpause := (mem_riskBlockedVisits hrun.working hmem hbeforeMem hbid).not.mp hfree
      have hbegins : ∀ old, Begins store.state old → old.id = visit.id → old = visit := by
        intro old hold holdId
        cases hold with
        | kept hold =>
          exact Collection.statusVisits.eq_of_key_eq store.state.scrum.complete.toConsistent hold
            hmem holdId
        | returned hnew => exact absurd (List.mem_map.mpr ⟨visit, hmem, holdId.symm⟩) hnew
      have heq : before = visit := by
        cases evaluateDueRisks_rows hcounted hrun.risks hrun.working before hbeforeMem with
        | begins hold => exact hbegins before hold hbid
        | waits old delta context hold _ hwaits heq =>
          -- a visit that waits is paused
          subst heq
          rw [hbegins old hold hbid] at hpause
          have hnonneg := hwaits.nonneg
          have hne := hwaits.ne_zero
          simp only [pausedBy] at hpause
          omega
        | cancelled _ _ _ _ _ _ _ _ _ _ heq =>
          rw [heq] at hbeforeOpen
          cases hbeforeOpen
        | cancelledWaiting _ _ _ _ _ _ _ _ _ _ _ _ _ _ heq =>
          rw [heq] at hbeforeOpen
          cases hbeforeOpen
      exact ⟨hrun.plays, heq ▸ hbefore, hx, hrun.sameVisits.nodup (openVisits_nodup advance.state)⟩
    · cases hopen

/-- A tick that crosses a sprint boundary keeps the row of every visit. -/
theorem row_eq_of_boundary (hreach : (teamRuns p).Reachable store)
    (hstep : stepTeam store (.tick request draws) = .ok store') {transition : SprintTransition p}
    (hcross : crossSprintBoundary store.state (cursor store.state) = .ok transition)
    (hactivity : transition.activity ≠ []) {visit row : StatusVisitState}
    (hvisit : visit ∈ store.scrum.statusVisits) (hrow : row ∈ store'.scrum.statusVisits)
    (hid : row.id = visit.id) : row = visit := by
  have hbased := Based.of_reachable hreach
  rcases stepTeam_eq_ok hbased.loaded hstep with ⟨startedAt, hevent, -⟩ | rfl |
    ⟨command, -, hof, hcommitted⟩
  · cases hevent
  · exact Collection.statusVisits.eq_of_key_eq store'.scrum.complete.toConsistent hrow hvisit hid
  · cases hof with
    | tick request' draws' advance _ hquiet =>
      obtain ⟨transition', hcross', hquiet⟩ := hquiet
      rw [hcross, Except.ok.injEq] at hcross'
      exact absurd (hcross' ▸ hquiet) hactivity
    | boundary instant transition' _ hboundary _ hstate =>
      rcases boundary_visits hreach hcommitted hboundary hstate hrow with hold | ⟨hnew, -⟩
      · exact Collection.statusVisits.eq_of_key_eq store.scrum.complete.toConsistent hold hvisit hid
      · exact absurd (List.mem_map.mpr ⟨visit, hvisit, hid.symm⟩) hnew
    | downtime hempty =>
      have hold := (hcommitted.mem_of_empty Collection.statusVisits (fun _ _ _ => rfl) hempty).mp hrow
      exact Collection.statusVisits.eq_of_key_eq store.scrum.complete.toConsistent hold hvisit hid

/-- A tick keeps the owner of an open visit if the owner stays eligible and has time in every
segment; an owner without time in the last segment is lost. -/
theorem owner_kept (hreach : (teamRuns p).Reachable store)
    (hstep : stepTeam store (.tick request draws) = .ok store') {visit row : StatusVisitState}
    (hvisit : visit ∈ openVisits store.state) {owner : Uuid} (howner : visit.memberId = some owner)
    (hrow : row ∈ store'.scrum.statusVisits) (hid : row.id = visit.id)
    (hopen : row.lifecycle = .OPEN) :
    (∀ transition, crossSprintBoundary store.state (cursor store.state) = .ok transition →
      transition.activity ≠ [] → row.memberId = visit.memberId) ∧
    ∀ advance outcome, TickPlays store request draws store' advance outcome →
      visit.id ∉ riskBlockedVisits store.state advance.risks →
      (∀ entry ∈ outcome.played, StaysEligible advance.state
        (riskBlockedVisits store.state advance.risks) entry.1 entry.2.1 visit owner) →
      ((∀ entry ∈ outcome.played, HasTime advance.state entry.1 owner) →
        row.memberId = visit.memberId) ∧
      ∀ entry, outcome.played.getLast? = some entry → ¬ HasTime advance.state entry.1 owner →
        row.memberId ≠ visit.memberId := by
  refine ⟨fun transition hcross hactivity => ?_, fun advance outcome hplays hfree heligible => ?_⟩
  · rw [row_eq_of_boundary hreach hstep hcross hactivity (mem_openVisits.mp hvisit).1 hrow hid]
  obtain ⟨hrun, hworking, hplayed, hnodup⟩ := hplays.rows hreach hvisit hfree hrow hid hopen
  rw [howner]
  refine ⟨fun htime => ?_, fun entry hlast htime => ?_⟩
  · obtain ⟨updated, hupdated, hsame, hkept⟩ :=
      hrun.keeps_owner hworking hfree howner heligible htime
    have heq : updated = row :=
      List.inj_on_of_nodup_map hnodup hupdated hplayed (hsame.id.trans hid.symm)
    rw [← heq, hkept]
  · obtain ⟨hadvance, hvisits⟩ := hrun.last hlast
    exact advanceSegment_loses hadvance htime (hvisits ▸ hplayed) (hid ▸ hfree)

end tick

/-! ### One microsecond of half a member -/

/-- The small team with an hour of development and a member who is there half of the time. -/
def halfTimeDocument : BlueprintDocument :=
  let document := smallDocument [{ rejectionRule with baseProbability := 0 }] 0 0 0
  { document with
    members := document.members.map fun member =>
      { member with availability := [{
          startsAt := 0, endsAt := 2 * firstMonday, availabilityFraction := 1 / 2
          dailyCapacityHoursOverride := 8 }] }
    timing := { document.timing with
      entries := [
        { dwellTiming "DEV" 0 with touchMin := 1, touchMax := 1 },
        dwellTiming "CODE_REVIEW" 0, dwellTiming "QA" 0] } }

theorem halfTimeDocument_accepted : halfTimeDocument.validate = .ok () := by
  decide +kernel

def halfTimeBlueprint : ResolvedTeamBlueprint where
  toBlueprintDocument := halfTimeDocument
  accepted := halfTimeDocument_accepted

/-- A tick of one microsecond. -/
def shortRequest : TickRequest :=
  { requestUntil halfTimeBlueprint 0 with endsAt := firstMonday + 1 }

/-- A tick with one segment, and what it does to the visit in development. -/
structure ShortTick where
  store : TeamStore utcPlatform
  store' : TeamStore utcPlatform
  advance : RiskAdvance utcPlatform
  outcome : SegmentsOutcome
  visit : StatusVisitState
  row : StatusVisitState
  identity : MemberIdentity
  member : MemberBlueprint
  segment : BusinessSegment
  fraction : ℚ
  available : ℤ
  ordered : List StatusVisitState

def shortTick : Result ShortTick := do
  let store ← runTeam utcPlatform (startAfter halfTimeBlueprint 0) []
  let played ← playTick store shortRequest (teamDraws utcPlatform halfTimeBlueprint)
  let (advance, store') := played
  let blocked := riskBlockedVisits store.state advance.risks
  let calendar ← store.state.calendar
  let segments ← businessSegments advance.state calendar (cursor store.state) advance.result.endsAt
  let outcome ← runSegments advance.state calendar blocked advance.result.endsAt segments
    (openVisits advance.state) (consumptionMap advance.state)
  let entry ← getIndex outcome.played 0
  let visit ← next (fun visit => visit.statusKey = "DEV") (openVisits store.state)
  let row ← next (fun row => row.id = visit.id) store'.scrum.statusVisits
  let identity ← next (fun identity => visit.memberId = some identity.id)
    advance.state.scrum.memberIdentities
  let member ← memberBlueprint advance.state identity
  let fraction ← effectiveFraction advance.state identity entry.1
  let available ← availableMicroseconds advance.state identity entry.1
  let ordered ← rankedVisits advance.state (entry.2.1.filter fun other => other.id ∉ blocked)
  require (outcome.played.length = 1) "the tick plays another segment"
  return { store, store', advance, outcome, visit, row, identity, member, segment := entry.1,
           fraction, available, ordered }

/-- In the short tick the owner stays eligible, but its half of a microsecond rounds to nothing. -/
theorem shortTick_eligible :
    ∃ (store store' : TeamStore utcPlatform) (advance : RiskAdvance utcPlatform)
      (outcome : SegmentsOutcome) (visit row : StatusVisitState) (owner : Uuid),
      (teamRuns utcPlatform).Reachable store ∧
      stepTeam store (.tick shortRequest (teamDraws utcPlatform halfTimeBlueprint)) = .ok store' ∧
      TickPlays store shortRequest (teamDraws utcPlatform halfTimeBlueprint) store' advance outcome ∧
      visit ∈ openVisits store.state ∧ visit.memberId = some owner ∧
      row ∈ store'.scrum.statusVisits ∧ row.id = visit.id ∧ row.lifecycle = .OPEN ∧
      visit.id ∉ riskBlockedVisits store.state advance.risks ∧
      (∀ entry ∈ outcome.played, StaysEligible advance.state
        (riskBlockedVisits store.state advance.risks) entry.1 entry.2.1 visit owner) ∧
      ∃ entry, outcome.played.getLast? = some entry ∧ ¬ HasTime advance.state entry.1 owner := by
  obtain ⟨tick, htick, hholds⟩ := @exists_of_any _ shortTick
    (fun tick => (tick.row.lifecycle = .OPEN ∧
      tick.visit.id ∉ riskBlockedVisits tick.store.state tick.advance.risks) ∧
      (proficiency tick.member tick.visit.activityKey).isSome ∧ 0 < tick.fraction ∧
      tick.available = 0 ∧ tick.ordered.length ≤ 1 ∧ 0 < tick.member.maxConcurrentWip)
    (by decide +kernel)
  obtain ⟨⟨hopen, hfree⟩, hcapable, hpos, hnone, hsingle, hroom⟩ := of_decide_eq_true hholds
  simp only [shortTick, bind_eq_ok, exists_unit, require_eq_ok, pure_eq_ok] at htick
  obtain ⟨store, hrun, ⟨advance, store'⟩, hplay, calendar, hcalendar, segments, hsegments, outcome,
    houtcome, entry, hentry, visit, hvisit, row, hrow, identity, hidentity, member, hmember, fraction,
    hfraction, available, havailable, ordered, hordered, hone, rfl⟩ := htick
  have hprogress := playTick_eq_ok hplay
  obtain ⟨hvisitMem, -⟩ := mem_of_next hvisit
  obtain ⟨hrowMem, hrowId⟩ := mem_of_next hrow
  obtain ⟨hmem, howner⟩ := mem_of_next hidentity
  have hplayed : outcome.played = [entry] := by
    obtain ⟨first, heq⟩ := List.length_eq_one_iff.mp hone
    rw [heq, getIndex_eq_ok, List.getElem?_cons_zero, Option.some.injEq] at hentry
    rw [heq, hentry]
  have hunique : ∀ other ∈ advance.state.scrum.memberIdentities, other.id = identity.id →
      other = identity := fun other hother hid =>
    Collection.memberIdentities.eq_of_key_eq advance.state.scrum.complete.toConsistent hother hmem hid
  refine ⟨store, store', advance, outcome, visit, row, identity.id, reachable_of_runTeam hrun,
    hprogress.step, ⟨hprogress, calendar, segments, hcalendar, hsegments, houtcome⟩, hvisitMem,
    of_decide_eq_true howner, hrowMem, of_decide_eq_true hrowId, hopen, hfree, ?_, entry, ?_, ?_⟩
  · intro played hmemPlayed
    rw [hplayed, List.mem_singleton] at hmemPlayed
    subst hmemPlayed
    refine ⟨⟨identity, hmem, rfl, ⟨member, hmember, hcapable⟩, fraction, hfraction, hpos⟩, ?_⟩
    intro other hother hid member' hmember' before current after hranked _
    obtain rfl := hunique other hother hid
    rw [hmember, Except.ok.injEq] at hmember'
    subst hmember'
    -- no visit is ranked above the only one
    rw [hordered, Except.ok.injEq] at hranked
    have hlength : before.length + (after.length + 1) ≤ 1 := by
      rw [hranked, List.length_append, List.length_cons] at hsingle
      exact hsingle
    have hbefore : before = [] := List.length_eq_zero_iff.mp (by omega)
    rw [hbefore]
    exact hroom
  · rw [hplayed]
    rfl
  · rintro ⟨other, hother, hid, time, htime, htimePos⟩
    obtain rfl := hunique other hother hid
    rw [havailable, Except.ok.injEq] at htime
    have hzero : available = 0 := hnone
    omega

/-- The theorem at the short tick. -/
theorem owner_kept_smallTeam :
    ∃ (store store' : TeamStore utcPlatform) (advance : RiskAdvance utcPlatform)
      (outcome : SegmentsOutcome) (visit row : StatusVisitState) (owner : Uuid),
      TickPlays store shortRequest (teamDraws utcPlatform halfTimeBlueprint) store' advance outcome ∧
      visit.memberId = some owner ∧
      ((∀ entry ∈ outcome.played, HasTime advance.state entry.1 owner) →
        row.memberId = visit.memberId) ∧
      ∀ entry, outcome.played.getLast? = some entry → ¬ HasTime advance.state entry.1 owner →
        row.memberId ≠ visit.memberId := by
  obtain ⟨store, store', advance, outcome, visit, row, owner, hreach, hstep, hplays, hvisit, howner,
    hrow, hid, hopen, hfree, heligible, -⟩ := shortTick_eligible
  exact ⟨store, store', advance, outcome, visit, row, owner, hplays, howner,
    (owner_kept hreach hstep hvisit howner hrow hid hopen).2 advance outcome hplays hfree heligible⟩

/-- An eligible owner is lost in a tick of one microsecond. -/
theorem eligible_owner_lost :
    ∃ (store store' : TeamStore utcPlatform) (advance : RiskAdvance utcPlatform)
      (outcome : SegmentsOutcome) (visit row : StatusVisitState) (owner : Uuid),
      (teamRuns utcPlatform).Reachable store ∧
      TickPlays store shortRequest (teamDraws utcPlatform halfTimeBlueprint) store' advance outcome ∧
      visit ∈ openVisits store.state ∧ visit.memberId = some owner ∧
      row ∈ store'.scrum.statusVisits ∧ row.id = visit.id ∧ row.lifecycle = .OPEN ∧
      visit.id ∉ riskBlockedVisits store.state advance.risks ∧
      (∀ entry ∈ outcome.played, StaysEligible advance.state
        (riskBlockedVisits store.state advance.risks) entry.1 entry.2.1 visit owner) ∧
      row.memberId ≠ visit.memberId := by
  obtain ⟨store, store', advance, outcome, visit, row, owner, hreach, -, hplays, hvisit, howner, hrow,
    hid, hopen, hfree, heligible, entry, hlast, htime⟩ := shortTick_eligible
  obtain ⟨hrun, -, hplayed, -⟩ := hplays.rows hreach hvisit hfree hrow hid hopen
  obtain ⟨hadvance, hvisits⟩ := hrun.last hlast
  refine ⟨store, store', advance, outcome, visit, row, owner, hreach, hplays, hvisit, howner, hrow,
    hid, hopen, hfree, heligible, ?_⟩
  rw [howner]
  exact advanceSegment_loses hadvance htime (hvisits ▸ hplayed) (hid ▸ hfree)

end JiraSimulator
