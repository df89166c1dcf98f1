import JiraSimulator.Correctness.CapacityLimits

/-!
# The limit of work in progress

A sprint boundary assigns the items that it activates without looking at the limit of their member.
Ticks only ever bring the members back to their limits: the risks assign nobody, and a segment
retains and assigns visits of a member up to its limit, whatever it owned before.

* `count_ownersOf_le`: visits that were owned before are no more than before.
* `Plays.owned_le`, `TickRun.owned_le`: the limit after the segments, and after the tick.
* `wip_limit_kept`: the limit over runs without a sprint boundary.
-/

namespace JiraSimulator

open Library Library.Outcome Library.Transition ScrumCollections

variable {p : Platform}

/-! ### Owners -/

theorem count_ownersOf (visits : List StatusVisitState) (owner : Uuid) :
    (ownersOf visits).count owner =
      (visits.filter fun visit => visit.memberId = some owner).length := by
  unfold ownersOf
  rw [List.count_filterMap, List.countP_eq_length_filter]
  simp only [beq_eq_decide]

/-- Where every owned visit was owned before, a member owns no more visits than before. -/
theorem count_ownersOf_le {visits before : List StatusVisitState} {owner : Uuid}
    (hnodup : (visits.map (·.id)).Nodup)
    (h : ∀ visit ∈ visits, visit.memberId = some owner →
      ∃ old ∈ before, old.id = visit.id ∧ old.memberId = some owner) :
    (ownersOf visits).count owner ≤ (ownersOf before).count owner := by
  rw [count_ownersOf, count_ownersOf]
  have hids : ((visits.filter fun visit => visit.memberId = some owner).map (·.id)).Nodup :=
    (List.filter_sublist.map _).nodup hnodup
  have hsubset : (visits.filter fun visit => visit.memberId = some owner).map (·.id) ⊆
      (before.filter fun visit => visit.memberId = some owner).map (·.id) := by
    intro id hid
    obtain ⟨visit, hvisit, rfl⟩ := List.mem_map.mp hid
    obtain ⟨hmem, howner⟩ := List.mem_filter.mp hvisit
    obtain ⟨old, hold, hsame, howned⟩ := h visit hmem (of_decide_eq_true howner)
    exact List.mem_map.mpr ⟨old, List.mem_filter.mpr ⟨hold, decide_eq_true howned⟩, hsame⟩
  have hlength := (List.subperm_of_subset hids hsubset).length_le
  rwa [List.length_map, List.length_map] at hlength

/-! ### Segments -/

section plays

variable {state : LiveTeamState p} {visits visits' : List StatusVisitState}
  {consumption consumption' : Consumption} {blocked : List Uuid} {played : List PlayedSegment}

/-- After a segment every member is within its limit, provided that nobody owns a blocked visit. -/
theorem SegmentMoves.withinLimits {segment : BusinessSegment} {advance : SegmentAdvance}
    {moves : List (StatusVisitState × StatusVisitState)}
    (h : SegmentMoves state visits consumption segment blocked advance moves)
    (hblocked : ∀ visit ∈ visits, visit.id ∈ blocked → visit.memberId = none) :
    WithinLimits state (ownersOf advance.visits) := by
  have hnone : ownersOf (visits.filter fun visit => visit.id ∈ blocked) = [] := by
    unfold ownersOf
    rw [List.filterMap_eq_nil_iff]
    intro visit hvisit
    obtain ⟨hmem, hin⟩ := List.mem_filter.mp hvisit
    exact hblocked visit hmem (of_decide_eq_true hin)
  have howners : ownersOf advance.visits = ownersOf (moves.map Prod.snd) := by
    rw [h.after]
    show List.filterMap _ (_ ++ _) = _
    rw [List.filterMap_append]
    exact (congrArg (· ++ _) hnone).trans (List.nil_append _)
  rw [howners]
  exact h.limits

/-- Nobody owns a blocked visit after a segment. -/
theorem SegmentMoves.blocked_unowned {segment : BusinessSegment} {advance : SegmentAdvance}
    {moves : List (StatusVisitState × StatusVisitState)}
    (h : SegmentMoves state visits consumption segment blocked advance moves)
    (hblocked : ∀ visit ∈ visits, visit.id ∈ blocked → visit.memberId = none) :
    ∀ visit ∈ advance.visits, visit.id ∈ blocked → visit.memberId = none := by
  intro visit hvisit hin
  rw [h.after, List.mem_append] at hvisit
  rcases hvisit with hstays | hmoved
  · exact hblocked visit (List.mem_filter.mp hstays).1 hin
  · obtain ⟨move, hmove, rfl⟩ := List.mem_map.mp hmoved
    have hbefore := h.before.mem_iff.mp (List.mem_map_of_mem hmove)
    have hfree := of_decide_eq_true (List.mem_filter.mp hbefore).2
    rw [(h.same move hmove).1.id] at hin
    exact absurd hin hfree

/-- The segments of a tick leave every member within its limit, if there is one. -/
theorem Plays.withinLimits (h : Plays state blocked visits consumption played visits' consumption')
    (hblocked : ∀ visit ∈ visits, visit.id ∈ blocked → visit.memberId = none)
    (hplayed : played ≠ []) : WithinLimits state (ownersOf visits') := by
  induction h with
  | done => exact absurd rfl hplayed
  | @play visits visits' consumption consumption' segment advance played hadvance rest ih =>
    obtain ⟨moves, hmoves⟩ := advanceSegment_eq_ok hadvance
    cases rest with
    | done => exact hmoves.withinLimits hblocked
    | play _ _ => exact ih (hmoves.blocked_unowned hblocked) (List.cons_ne_nil _ _)

/-- After the segments of a tick a member owns at most as many visits as its limit says, or as it
owned before. -/
theorem Plays.owned_le (h : Plays state blocked visits consumption played visits' consumption')
    (hblocked : ∀ visit ∈ visits, visit.id ∈ blocked → visit.memberId = none)
    {identity : MemberIdentity} {member : MemberBlueprint}
    (hidentity : identity ∈ state.scrum.memberIdentities)
    (hmember : memberBlueprint state identity = .ok member) :
    (ownersOf visits').count identity.id ≤
      max member.maxConcurrentWip ((ownersOf visits).count identity.id) := by
  by_cases hplayed : played = []
  · subst hplayed
    cases h
    exact le_max_right _ _
  · exact (h.withinLimits hblocked hplayed identity hidentity member hmember).trans
      (le_max_left _ _)

end plays

/-! ### Ticks -/

/-- A rule writes no open visit with an owner. -/
theorem RiskStep.owned_mem {context : RiskContext p} {c' : ScrumCollections}
    (h : RiskStep context c') {visit : StatusVisitState} (hvisit : visit ∈ c'.statusVisits)
    (hopen : visit.lifecycle = .OPEN) (howner : visit.memberId ≠ none) :
    visit ∈ context.state.scrum.statusVisits := by
  cases h with
  | silent h => exact h ▸ hvisit
  | reviews hkey htrigger h =>
    rcases (h.statusVisits visit).mp hvisit with ⟨work, decision, sample, hreturns⟩ | ⟨hstays, -⟩
    · obtain ⟨review, step, counter, hreturn⟩ := hreturns
      exact absurd hreturn.enters.memberId_eq howner
    · exact hstays
  | cancellations hkey boundary hboundary h =>
    rcases (h.statusVisits visit).mp hvisit with ⟨work, decision, hcancels, rfl⟩ | ⟨hstays, -⟩
    · cases hopen
    · exact hstays
  | pauses h =>
    rcases h.mem_of_mem visit hvisit with hmem | ⟨old, hmem, _, delta, rfl, -⟩
    · exact hmem
    · exact absurd rfl howner
  | absences h => exact h.statusVisits ▸ hvisit

section tick

variable {state : LiveTeamState p} {draws : DrawSource} {advance : RiskAdvance p}
  {outcome : SegmentsOutcome} {finish : StatusVisitState → FinishedVisit} {c' : ScrumCollections}
  (hrun : TickRun state draws advance outcome finish)

include hrun

/-- The risks of a tick write no open visit with an owner. -/
theorem TickRun.owned_mem {visit : StatusVisitState} (hvisit : visit ∈ openVisits advance.state)
    (howner : visit.memberId ≠ none) : visit ∈ openVisits state := by
  obtain ⟨hmem, hopen⟩ := mem_openVisits.mp hvisit
  refine mem_openVisits.mpr ⟨?_, hopen⟩
  refine riskSteps_induction (motive := fun working => visit ∈ working.scrum.statusVisits →
    visit ∈ state.scrum.statusVisits) (evaluateDueRisks_working hrun.risks hrun.working) id ?_ hmem
  intro _ _ _ _ hbefore _ _ hstep hafter
  exact hbefore (hstep.owned_mem hafter hopen howner)

/-- Nobody owns a visit that the risks of the tick let wait. -/
theorem TickRun.blocked_unowned : ∀ visit ∈ openVisits advance.state,
    visit.id ∈ riskBlockedVisits state advance.risks → visit.memberId = none := by
  intro visit hvisit hblocked
  by_contra howner
  have hbefore := (mem_openVisits.mp (hrun.owned_mem hvisit howner)).1
  have hlt := (mem_riskBlockedVisits hrun.working hbefore (mem_openVisits.mp hvisit).1 rfl).mp
    hblocked
  exact lt_irrefl _ hlt

/-- An open visit with an owner after a tick is one of the visits after its segments. -/
theorem TickRun.owned_played (hafter : AfterTick advance c')
    (hcounted : OrdinalsCounted state.scrum.toScrumCollections) {visit : StatusVisitState}
    (hvisit : visit ∈ c'.openVisits) (howner : visit.memberId ≠ none) :
    visit ∈ outcome.visits := by
  obtain ⟨hmem, hopen⟩ := List.mem_filter.mp hvisit
  have hopen : visit.lifecycle = .OPEN := of_decide_eq_true hopen
  cases hrun.tickRow hafter hcounted hmem with
  | closed _ hclosed =>
    rw [hclosed] at hopen
    cases hopen
  | progresses x hx h =>
    rcases h with rfl | ⟨rfl, -⟩
    · exact hx
    · cases hopen
  | enters _ _ _ _ _ henters => exact absurd henters.memberId_eq howner

end tick

/-! ### Commits -/

/-- The open visits that a member owns. -/
def ownedCount (store : TeamStore p) (identity : MemberIdentity) : ℕ :=
  (ownersOf store.scrum.openVisits).count identity.id

/-- A member of the team with its blueprint. -/
structure MemberOf (store : TeamStore p) (identity : MemberIdentity) (member : MemberBlueprint) :
    Prop where
  mem : identity ∈ store.scrum.memberIdentities
  blueprint : memberBlueprint store.state identity = .ok member

/-- The event crosses no sprint boundary. -/
def KeepsSprint (store : TeamStore p) : TeamEvent → Prop
  | .tick _ _ => ∃ transition,
      crossSprintBoundary store.state (cursor store.state) = .ok transition ∧
        transition.activity = []
  | .lifecycleBoundary _ => False
  | _ => True

/-- A tick that crosses no sprint boundary commits its advance. -/
theorem exists_progressTick {store store' : TeamStore p} {request : TickRequest}
    {draws : DrawSource} (hbased : Based store) (hquiet : KeepsSprint store (.tick request draws))
    (hstep : (teamRuns p).step store (.tick request draws) store') :
    ∃ advance, ProgressTick store request draws advance store' := by
  obtain ⟨transition, hcross, hactivity⟩ := hquiet
  have hcommand := hstep
  simp only [teamRuns, stepTeam, hbased.loaded.load, ok_bind, commandFor, calculateScrumTick,
    hcross, bind_eq_ok, map_eq_ok] at hcommand
  obtain ⟨-, ⟨command, ⟨-, -, hcommand⟩, rfl⟩, -⟩ := hcommand
  rw [if_neg (by simp [hactivity]), bind_eq_ok] at hcommand
  obtain ⟨advance, hadvance, -⟩ := hcommand
  exact ⟨advance, ⟨transition, hcross, hactivity⟩, hadvance, hstep⟩

section commits

variable {store store' : TeamStore p} {command : AuthoritativeTickSliceCommit p}
  {identity : MemberIdentity} {member : MemberBlueprint}

theorem MemberOf.of_commit {event : TeamEvent} (h : MemberOf store identity member)
    (hcommitted : Committed store command store') (hof : CommandOf store.state event command) :
    MemberOf store' identity member := by
  refine ⟨(hcommitted.mem_members hof identity).mpr h.mem, ?_⟩
  rw [← h.blueprint]
  show getIndex store'.aggregate.blueprint.members _ = getIndex store.aggregate.blueprint.members _
  rw [hcommitted.blueprint_eq]

section progress

variable {draws : DrawSource} {advance : RiskAdvance p} {outcome : SegmentsOutcome}
  {finish : StatusVisitState → FinishedVisit}
  (hrun : TickRun store.state draws advance outcome finish)

include hrun

theorem TickRun.memberOf (h : MemberOf store identity member) :
    identity ∈ advance.state.scrum.memberIdentities ∧
      memberBlueprint advance.state identity = .ok member := by
  rw [hrun.risks_members, memberBlueprint, (LiveTeamState.withWriteSet_eq_ok.mp hrun.working).1]
  exact ⟨h.mem, h.blueprint⟩

/-- After a tick a member owns at most the visits that it owns after the segments. -/
theorem TickRun.ownedCount_le (hreach : (teamRuns p).Reachable store)
    (hcommitted : Committed store command store')
    (hassembled : Assembled command.liveSlice advance command) :
    ownedCount store' identity ≤ (ownersOf outcome.visits).count identity.id := by
  have hafter := hcommitted.afterTick hrun.working hassembled
  have hcounted := ordinalsCounted_of_reachable hreach
  refine count_ownersOf_le ((List.filter_sublist.map _).nodup
    store'.scrum.complete.keysUnique.statusVisits) fun visit hvisit howner => ?_
  have hne : visit.memberId ≠ none := by
    rw [howner]
    exact Option.some_ne_none _
  exact ⟨visit, hrun.owned_played hafter hcounted hvisit hne, rfl, howner⟩

/-- When its segments start, a member owns at most the visits that it owned before the tick. -/
theorem TickRun.owned_start_le :
    (ownersOf (openVisits advance.state)).count identity.id ≤ ownedCount store identity := by
  refine count_ownersOf_le (openVisits_nodup advance.state) fun visit hvisit howner => ?_
  have hne : visit.memberId ≠ none := by
    rw [howner]
    exact Option.some_ne_none _
  exact ⟨visit, hrun.owned_mem hvisit hne, rfl, howner⟩

end progress

/-- A commit that writes no rows leaves the open visits alone. -/
theorem Committed.ownedCount_of_empty (hcommitted : Committed store command store')
    (hstate : command.state.toScrumCollections = {}) :
    ownedCount store' identity ≤ ownedCount store identity := by
  refine count_ownersOf_le ((List.filter_sublist.map _).nodup
    store'.scrum.complete.keysUnique.statusVisits) fun visit hvisit howner => ?_
  obtain ⟨hmem, hopen⟩ := List.mem_filter.mp hvisit
  have hold := (hcommitted.mem_of_empty Collection.statusVisits (fun _ _ _ => rfl) hstate).mp hmem
  exact ⟨visit, List.mem_filter.mpr ⟨hold, hopen⟩, rfl, howner⟩

end commits

/-! ### Runs -/

/-- The commits of a restart that record or skip downtime write no rows. -/
theorem commandFor_state {state : LiveTeamState p} {event : TeamEvent}
    {command : AuthoritativeTickSliceCommit p} (h : commandFor state event = .ok (some command))
    (htick : ∀ request draws, event ≠ .tick request draws)
    (hboundary : ∀ asOf, event ≠ .lifecycleBoundary asOf) :
    command.state.toScrumCollections = {} := by
  cases event with
  | tick request draws => exact absurd rfl (htick request draws)
  | lifecycleBoundary asOf => exact absurd rfl (hboundary asOf)
  | bootstrap startedAt => simp [commandFor] at h
  | downtimeEvidence asOf =>
    simp only [commandFor] at h
    split_ifs at h
    · simp only [downtimeEvidenceCommand, downtimeCommand, AuthoritativeTickSliceCommit.create,
        map_eq_ok, Option.some.injEq, bind_eq_ok, validated_eq_ok] at h
      obtain ⟨-, ⟨-, -, -, rfl⟩, rfl⟩ := h
      rfl
    · cases h
  | skipDowntime asOf =>
    simp only [commandFor] at h
    split_ifs at h
    · simp only [skipDowntimeCommand, downtimeCommand, AuthoritativeTickSliceCommit.create,
        map_eq_ok, Option.some.injEq, bind_eq_ok, validated_eq_ok] at h
      obtain ⟨-, ⟨-, -, -, rfl⟩, rfl⟩ := h
      rfl
    · cases h

/-- A step that crosses no sprint boundary gives a member no visit beyond its limit. -/
theorem ownedCount_step {store store' : TeamStore p} {event : TeamEvent}
    {identity : MemberIdentity} {member : MemberBlueprint} (hreach : (teamRuns p).Reachable store)
    (hquiet : KeepsSprint store event) (hstep : (teamRuns p).step store event store')
    (hmember : MemberOf store identity member) :
    ownedCount store' identity ≤ max member.maxConcurrentWip (ownedCount store identity) := by
  have hbased := Based.of_reachable hreach
  by_cases htick : ∃ request draws, event = .tick request draws
  · obtain ⟨request, draws, rfl⟩ := htick
    obtain ⟨advance, hprogress⟩ := exists_progressTick hbased hquiet hstep
    obtain ⟨command, hcommitted, -, hassembled⟩ := hprogress.committed hbased
    obtain ⟨outcome, finish, hrun⟩ := tickAdvance_eq_ok hprogress.advance_eq
    obtain ⟨hmem, hblueprint⟩ := hrun.memberOf hmember
    -- a kept owner counts as before, and a new one was below the limit
    calc ownedCount store' identity
        ≤ (ownersOf outcome.visits).count identity.id :=
          hrun.ownedCount_le hreach hcommitted hassembled
      _ ≤ max member.maxConcurrentWip ((ownersOf (openVisits advance.state)).count identity.id) :=
          hrun.plays.owned_le hrun.blocked_unowned hmem hblueprint
      _ ≤ max member.maxConcurrentWip (ownedCount store identity) :=
          max_le_max le_rfl hrun.owned_start_le
  · rcases stepTeam_command hbased hstep with hprovision | ⟨command, hcommand, hcommit⟩
    · rw [hprovision]
      exact le_max_right _ _
    · have hstate := commandFor_state hcommand (fun request draws h => htick ⟨request, draws, h⟩)
        fun asOf h => by rw [h] at hquiet; exact hquiet
      exact le_max_of_le_right ((commit_eq_ok hcommit).ownedCount_of_empty hstate)

/-- No step adds or drops a member. -/
theorem MemberOf.of_step {store store' : TeamStore p} {event : TeamEvent}
    {identity : MemberIdentity} {member : MemberBlueprint} (hreach : (teamRuns p).Reachable store)
    (hstep : (teamRuns p).step store event store') (h : MemberOf store identity member) :
    MemberOf store' identity member := by
  have hbased := Based.of_reachable hreach
  rcases stepTeam_eq_ok hbased.loaded hstep with ⟨startedAt, -, hprovision⟩ | rfl |
    ⟨command, -, hof, hcommitted⟩
  · rw [(provision_eq_ok hbased hprovision).same]
    exact ⟨h.mem, h.blueprint⟩
  · exact h
  · exact h.of_commit hcommitted hof

/-- Until a sprint boundary is crossed no member comes to own more visits than its limit, or than it
owned before. -/
theorem ownedCount_of_reachesBy {store later : TeamStore p} {identity : MemberIdentity}
    {member : MemberBlueprint} (hreach : (teamRuns p).Reachable store)
    (hlater : (teamRuns p).ReachesBy KeepsSprint store later)
    (hmember : MemberOf store identity member) :
    ownedCount later identity ≤ max member.maxConcurrentWip (ownedCount store identity) := by
  suffices h : MemberOf later identity member ∧
      ownedCount later identity ≤ max member.maxConcurrentWip (ownedCount store identity) from h.2
  refine hlater.invariant (I := fun later => MemberOf later identity member ∧
    ownedCount later identity ≤ max member.maxConcurrentWip (ownedCount store identity)) hreach
    ⟨hmember, le_max_right _ _⟩ ?_
  intro s event s' hs hbefore hquiet hstep
  obtain ⟨hmem, hle⟩ := hbefore
  have hcount := ownedCount_step hs hquiet hstep hmem
  refine ⟨hmem.of_step hs hstep, ?_⟩
  omega

/-- A tick that plays a segment leaves every member within its limit. -/
theorem ownedCount_of_played {store store' : TeamStore p} {request : TickRequest}
    {draws : DrawSource} {working : LiveTeamState p} {played : List PlayedSegment}
    {identity : MemberIdentity} {member : MemberBlueprint} (hreach : (teamRuns p).Reachable store)
    (hstep : (teamRuns p).step store (.tick request draws) store')
    (hplayed : tickSegments store.state request draws = .ok (working, played)) (hne : played ≠ [])
    (hmember : MemberOf store identity member) :
    ownedCount store' identity ≤ member.maxConcurrentWip := by
  rcases tickSegments_of_step hreach hstep with ⟨hsegments, -⟩ |
    ⟨command, advance, outcome, finish, hcommitted, hassembled, hrun, hsegments⟩
  · rw [hplayed] at hsegments
    cases hsegments
    exact absurd rfl hne
  · rw [hplayed] at hsegments
    cases hsegments
    obtain ⟨hmem, hblueprint⟩ := hrun.memberOf hmember
    have hlimit := hrun.plays.withinLimits hrun.blocked_unowned hne identity hmem member hblueprint
    exact (hrun.ownedCount_le hreach hcommitted hassembled).trans hlimit

/-- Between sprint boundaries no member comes to own more open visits than its limit, or than it
owned before; and a tick that plays a segment brings every member back to its limit. -/
theorem wip_limit_kept :
    (∀ store later : TeamStore p, (teamRuns p).Reachable store →
      (teamRuns p).ReachesBy KeepsSprint store later → ∀ identity member,
      MemberOf store identity member →
      ownedCount later identity ≤ max member.maxConcurrentWip (ownedCount store identity)) ∧
    ∀ (store store' : TeamStore p) (request : TickRequest) (draws : DrawSource)
      (working : LiveTeamState p) (played : List PlayedSegment),
      (teamRuns p).Reachable store → (teamRuns p).step store (.tick request draws) store' →
      tickSegments store.state request draws = .ok (working, played) → played ≠ [] →
      ∀ identity member, MemberOf store identity member →
      ownedCount store' identity ≤ member.maxConcurrentWip :=
  ⟨fun _ _ hreach hlater _ _ hmember => ownedCount_of_reachesBy hreach hlater hmember,
    fun _ _ _ _ _ _ hreach hstep hplayed hne _ _ hmember =>
      ownedCount_of_played hreach hstep hplayed hne hmember⟩

end JiraSimulator
