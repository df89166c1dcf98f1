import JiraSimulator.Application.Restart
import JiraSimulator.Correctness.LaborBalance
import JiraSimulator.Correctness.SprintTimeline

/-!
# Restarts

The loop of a restart crosses the boundaries of the sprints one after another.  Each lies after the
last one, so the loop ends; and nobody works meanwhile.

* `Idle`: no labor is credited.
* `crosses_next`: one round of the loop.
* `resume_catches_up`: the whole restart, and what it leaves when it fails.
-/

namespace JiraSimulator

open Library Library.Outcome Library.Transition

variable {p : Platform}

/-! ### Steps of a restart -/

/-- No labor is credited to a visit or charged to a member. -/
structure Idle (store store' : TeamStore p) : Prop where
  credited : ∀ id, creditedAt store'.scrum.statusVisits id = creditedAt store.scrum.statusVisits id
  consumption : store'.scrum.memberBusinessDateConsumption.Perm
    store.scrum.memberBusinessDateConsumption

theorem Idle.refl (store : TeamStore p) : Idle store store :=
  ⟨fun _ => rfl, .refl _⟩

theorem Idle.trans {first second third : TeamStore p} (h : Idle first second)
    (h' : Idle second third) : Idle first third :=
  ⟨fun id => (h'.credited id).trans (h.credited id), h'.consumption.trans h.consumption⟩

theorem idle_of_step {store store' : TeamStore p} {event : TeamEvent}
    (hreach : (teamRuns p).Reachable store) (hevent : ∀ request draws, event ≠ .tick request draws)
    (h : stepTeam store event = .ok store') : Idle store store' := by
  have hbased := Based.of_reachable hreach
  rcases stepTeam_eq_ok hbased.loaded h with ⟨startedAt, -, hprovision⟩ | rfl |
    ⟨command, -, hof, hcommitted⟩
  · rw [(provision_eq_ok hbased hprovision).same]
    exact ⟨fun _ => rfl, .refl _⟩
  · exact .refl _
  · cases hof with
    | tick request draws _ hsame => exact absurd hsame (hevent request draws)
    | boundary instant transition _ hstep _ hstate =>
      exact ⟨boundary_credited hreach hcommitted hstep hstate,
        hcommitted.consumption_perm (hstate ▸ hstep.consumption)⟩
    | downtime hstate =>
      have hsame : ∀ visit, visit ∈ store'.scrum.statusVisits ↔ visit ∈ store.scrum.statusVisits :=
        fun visit => hcommitted.mem_of_empty Collection.statusVisits (fun _ _ _ => rfl) hstate
      have hnodup := Collection.statusVisits.nodup store.scrum.complete.toConsistent
      have hnodup' := Collection.statusVisits.nodup store'.scrum.complete.toConsistent
      have hperm : store'.scrum.statusVisits.Perm store.scrum.statusVisits :=
        (List.perm_ext_iff_of_nodup hnodup'.of_map hnodup.of_map).mpr hsame
      exact ⟨fun id => Keyed.sumAt_perm _ _ hperm id,
        hcommitted.consumption_perm (by rw [hstate])⟩

/-- The boundaries of the sprints that are not completed come after the instant. -/
def BoundariesAfter (store : TeamStore p) (instant : ℤ) : Prop :=
  ∀ sprint ∈ store.scrum.sprints, ∀ boundary, boundaryFor sprint = some boundary →
    instant < boundary

theorem exists_timeline {store : TeamStore p} (h : (teamRuns p).Reachable store) :
    ∃ initial current, Timeline store initial current := by
  obtain ⟨start, -, hrun⟩ := h.exists_start
  obtain ⟨initial, current, -, htimeline⟩ := Timeline.of_reachableBy hrun
  exact ⟨initial, current, htimeline⟩

theorem Timeline.current_of_boundary {store : TeamStore p} {initial current sprint : SprintState}
    (h : Timeline store initial current) (hsprint : sprint ∈ store.scrum.sprints) {boundary : ℤ}
    (hboundary : boundaryFor sprint = some boundary) : sprint = current := by
  refine h.unique sprint hsprint fun hcompleted => ?_
  simp [boundaryFor, hcompleted] at hboundary

/-- One round of the loop: the boundary is crossed, and the next one comes after it. -/
theorem crosses_next {store store' : TeamStore p} {asOf boundary : ℤ}
    (hreach : (teamRuns p).Reachable store) (hcursor : cursor store.state < asOf)
    (hnext : nextBoundary store.state asOf = some boundary)
    (h : stepTeam store (.lifecycleBoundary asOf) = .ok store') :
    cursor store'.state = cursor store.state ∧ BoundariesAfter store' boundary := by
  have hbased := Based.of_reachable hreach
  have hreach' : (teamRuns p).Reachable store' := .step hreach trivial h
  obtain ⟨initial, current, htimeline⟩ := exists_timeline hreach
  obtain ⟨initial', current', htimeline'⟩ := exists_timeline hreach'
  obtain ⟨sprint, hsprint, hboundary⟩ : ∃ sprint ∈ store.scrum.sprints,
      boundaryFor sprint = some boundary := by
    have hmem := List.mem_of_mem_filter (List.min?_mem hnext)
    exact List.mem_filterMap.mp hmem
  simp only [stepTeam, hbased.loaded.load, ok_bind, commandFor, hnext, if_pos hcursor, bind_eq_ok,
    map_eq_ok] at h
  obtain ⟨command?, ⟨command, hcommand, rfl⟩, hcommit⟩ := h
  have hcommitted := commit_eq_ok hcommit
  simp only [lifecycleBoundaryCommand, AuthoritativeTickSliceCommit.create, bind_eq_ok,
    validated_eq_ok] at hcommand
  obtain ⟨transition, hcross, slice, ⟨-, rfl⟩, -, rfl⟩ := hcommand
  have hcursor' : cursor store'.state = cursor store.state := hcommitted.runtime_eq.2.2.2.2
  refine ⟨hcursor', fun other hother instant hinstant => ?_⟩
  -- the sprint that begins at the boundary is the one that is not completed
  obtain ⟨next, hbegins, hactive, hstart⟩ : ∃ next ∈ store'.scrum.sprints,
      next.lifecycle = .ACTIVE ∧ next.plannedStartAt = boundary := by
    have hstep := crossSprintBoundary_eq_ok hcross
    cases hstep with
    | quiet hquiet =>
      subst hquiet
      exact absurd hboundary (not_boundary_of_quiet hcross rfl hsprint)
    | activates planned draws selected context _ _ hstart _ _ _ _ _ hsprints _ _ htransition =>
      subst htransition
      refine ⟨activatedSprint planned boundary, ?_, rfl, hstart⟩
      refine (hcommitted.mem_rows Collection.sprints fun _ _ _ => rfl).mpr (.inl ?_)
      show _ ∈ context.writeSet.sprints
      rw [hsprints]
      exact List.mem_singleton_self _
    | rolls active successor draws carryIds backlogIds context counter hmem hactive hend _ _ _ _ _ _
        hcounter hsuccessor _ hsprints _ _ htransition =>
      subst htransition
      have hcrosses :=
        htimeline.crosses_rollover hcommitted hmem hactive hcounter hsuccessor hsprints
      have hcurrent := htimeline.unique active hmem (by rw [hactive]; decide)
      refine ⟨successor, hcrosses.mem, hcrosses.lifecycle, ?_⟩
      rw [← hend]
      refine (htimeline.windows active hmem).tile hcrosses.window ?_
      rw [hcrosses.ordinal, ← hcurrent, nextOrdinal, hactive]
      exact if_neg (by decide)
  have hsame : other = next := by
    rw [htimeline'.current_of_boundary hother hinstant]
    exact (htimeline'.unique next hbegins (by rw [hactive]; decide)).symm
  subst hsame
  simp only [boundaryFor, hactive, Option.some.injEq] at hinstant
  have hinterval := (store'.scrum.complete.toConsistent.sprint_valid hbegins).interval
  omega

/-! ### The loop -/

/-- What a restart leaves: a later store of the run without labor; and when it ends well, the cursor
is at the present, the next boundary after it, and every boundary until then is recorded. -/
structure Resumed (store : TeamStore p) (asOf : ℤ) (outcome : TeamStore p × Result Unit) :
    Prop where
  later : (teamRuns p).ReachesBy (fun _ event => ∀ request draws, event ≠ .tick request draws) store
    outcome.1
  idle : Idle store outcome.1
  cursor_eq : outcome.2 = .ok () → cursor outcome.1.state = asOf
  boundaries : outcome.2 = .ok () → BoundariesAfter outcome.1 asOf
  crossed : outcome.2 = .ok () → ∀ sprint ∈ outcome.1.scrum.sprints, sprint.plannedEndAt ≤ asOf →
    (sprint.ordinal + 1, sprint.plannedEndAt) ∈ crossings outcome.1.groundTruth

theorem Resumed.failed (store : TeamStore p) (asOf : ℤ) (error : PyError) :
    Resumed store asOf (store, .error error) :=
  ⟨.refl, .refl _, (fun h => by cases h), (fun h => by cases h), (fun h => by cases h)⟩

theorem Resumed.after {store store' : TeamStore p} {asOf : ℤ} {outcome : TeamStore p × Result Unit}
    {event : TeamEvent} (hreach : (teamRuns p).Reachable store)
    (hevent : ∀ request draws, event ≠ .tick request draws)
    (hstep : stepTeam store event = .ok store') (h : Resumed store' asOf outcome) :
    Resumed store asOf outcome :=
  ⟨.head ⟨event, hevent, hstep⟩ h.later, (idle_of_step hreach hevent hstep).trans h.idle,
    h.cursor_eq, h.boundaries, h.crossed⟩

theorem transact_of_ok {store store' : TeamStore p} {event : TeamEvent}
    (h : stepTeam store event = .ok store') : store.transact event = (store', .ok ()) := by
  unfold TeamStore.transact
  rw [h]

theorem transact_of_error {store : TeamStore p} {event : TeamEvent} {error : PyError}
    (h : stepTeam store event = .error error) : store.transact event = (store, .error error) := by
  unfold TeamStore.transact
  rw [h]

/-- A boundary that is not after the present was crossed, once the next one is after it. -/
theorem crossed_of_boundariesAfter {store : TeamStore p} (hreach : (teamRuns p).Reachable store)
    {asOf : ℤ} (hafter : BoundariesAfter store asOf) {sprint : SprintState}
    (hsprint : sprint ∈ store.scrum.sprints) (hended : sprint.plannedEndAt ≤ asOf) :
    (sprint.ordinal + 1, sprint.plannedEndAt) ∈ crossings store.groundTruth := by
  obtain ⟨initial, current, h⟩ := exists_timeline hreach
  have hinterval := (store.scrum.complete.toConsistent.sprint_valid hsprint).interval
  refine h.crossed_of_ne (.of_reachable hreach) hsprint ?_
  rintro rfl
  rcases h.nextOrdinal_cases with ⟨hlifecycle, -⟩ | ⟨hlifecycle, -⟩
  · have := hafter sprint hsprint sprint.plannedStartAt (by simp [boundaryFor, hlifecycle])
    omega
  · have := hafter sprint hsprint sprint.plannedEndAt (by simp [boundaryFor, hlifecycle])
    omega

/-- The last step of the loop skips to the present. -/
theorem resumed_skip {store : TeamStore p} {asOf : ℤ} (hreach : (teamRuns p).Reachable store)
    (hcursor : cursor store.state < asOf) (hnext : nextBoundary store.state asOf = none) :
    Resumed store asOf (store.transact (.skipDowntime asOf)) := by
  have hbased := Based.of_reachable hreach
  cases hstep : stepTeam store (.skipDowntime asOf) with
  | error error =>
    rw [transact_of_error hstep]
    exact .failed store asOf error
  | ok store' =>
    rw [transact_of_ok hstep]
    have hreach' : (teamRuns p).Reachable store' := .step hreach trivial hstep
    have hcommit := hstep
    simp only [stepTeam, hbased.loaded.load, ok_bind, commandFor, if_pos (And.intro hcursor hnext),
      bind_eq_ok, map_eq_ok] at hcommit
    obtain ⟨command?, ⟨command, hcommand, rfl⟩, hcommit⟩ := hcommit
    have hcommitted := commit_eq_ok hcommit
    simp only [skipDowntimeCommand, downtimeCommand, AuthoritativeTickSliceCommit.create,
      bind_eq_ok, validated_eq_ok] at hcommand
    obtain ⟨slice, ⟨-, rfl⟩, -, rfl⟩ := hcommand
    have hcursor' : cursor store'.state = asOf := hcommitted.runtime_eq.2.2.2.2
    have hafter : BoundariesAfter store' asOf := by
      intro sprint hsprint boundary hboundary
      have hold := (hcommitted.mem_of_empty Collection.sprints (fun _ _ _ => rfl) rfl).mp hsprint
      obtain ⟨initial, current, htimeline⟩ := exists_timeline hreach
      have hcurrent := htimeline.current_of_boundary hold hboundary
      have hclock := htimeline.clock boundary (hcurrent ▸ hboundary)
      exact lt_of_nextBoundary hnext hold hboundary hclock
    have hevent : ∀ request draws, TeamEvent.skipDowntime asOf ≠ .tick request draws := by
      intro request draws h
      cases h
    exact .after hreach hevent hstep ⟨.refl, .refl _, fun _ => hcursor', fun _ => hafter,
      fun _ sprint hsprint hended => crossed_of_boundariesAfter hreach' hafter hsprint hended⟩

/-- The loop from a store whose boundaries are not before `since`, with enough rounds. -/
theorem resumeFrom_resumed {asOf since : ℤ} {fuel : ℕ} {store : TeamStore p}
    (hreach : (teamRuns p).Reachable store) (hcursor : cursor store.state < asOf)
    (hsince : BoundariesAfter store (since - 1)) (hfuel : resumeRounds since asOf ≤ fuel) :
    Resumed store asOf (store.resumeFrom asOf fuel) ∧
      store.resumeFrom asOf (fuel + 1) = store.resumeFrom asOf fuel := by
  -- each round crosses a boundary later than the one before
  induction fuel generalizing store since with
  | zero => simp [resumeRounds] at hfuel
  | succ fuel ih =>
    have hload := (Based.of_reachable hreach).loaded.load
    cases hnext : nextBoundary store.state asOf with
    | none =>
      have hone : ∀ fuel,
          store.resumeFrom asOf (fuel + 1) = store.transact (.skipDowntime asOf) := by
        intro fuel
        simp only [TeamStore.resumeFrom, hload, hnext]
      rw [hone, hone]
      exact ⟨resumed_skip hreach hcursor hnext, rfl⟩
    | some boundary =>
      cases hstep : stepTeam store (.lifecycleBoundary asOf) with
      | error error =>
        have hone : ∀ fuel, store.resumeFrom asOf (fuel + 1) = (store, .error error) := by
          intro fuel
          simp only [TeamStore.resumeFrom, hload, hnext, transact_of_error hstep]
        rw [hone, hone]
        exact ⟨.failed store asOf error, rfl⟩
      | ok store' =>
        have hone : ∀ fuel, store.resumeFrom asOf (fuel + 1) = store'.resumeFrom asOf fuel := by
          intro fuel
          simp only [TeamStore.resumeFrom, hload, hnext, transact_of_ok hstep]
        obtain ⟨hsame, hafter⟩ := crosses_next hreach hcursor hnext hstep
        obtain ⟨hge, hle⟩ : since ≤ boundary ∧ boundary ≤ asOf := by
          have hmem := List.min?_mem hnext
          simp only [List.mem_filter, Bool.and_eq_true, decide_eq_true_eq] at hmem
          obtain ⟨sprint, hsprint, hboundary⟩ := List.mem_filterMap.mp hmem.1
          have := hsince sprint hsprint boundary hboundary
          exact ⟨by omega, hmem.2.2⟩
        have hreach' : (teamRuns p).Reachable store' := .step hreach trivial hstep
        have hafter' : BoundariesAfter store' (boundary + 1 - 1) := by
          rw [add_sub_cancel_right]
          exact hafter
        have hrounds : resumeRounds (boundary + 1) asOf ≤ fuel := by
          unfold resumeRounds at hfuel ⊢
          omega
        obtain ⟨hresumed, hmore⟩ := ih hreach' (hsame ▸ hcursor) hafter' hrounds
        rw [hone, hone]
        have hevent : ∀ request draws, TeamEvent.lifecycleBoundary asOf ≠ .tick request draws := by
          intro request draws h
          cases h
        exact ⟨hresumed.after hreach hevent hstep, hmore⟩

/-- The evidence of a downtime leaves the cursor. -/
theorem cursor_of_evidence {store store' : TeamStore p} {asOf : ℤ}
    (hreach : (teamRuns p).Reachable store) (hcursor : cursor store.state < asOf)
    (h : stepTeam store (.downtimeEvidence asOf) = .ok store') :
    cursor store'.state = cursor store.state := by
  simp only [stepTeam, (Based.of_reachable hreach).loaded.load, ok_bind, commandFor, if_pos hcursor,
    bind_eq_ok, map_eq_ok] at h
  obtain ⟨command?, ⟨command, hcommand, rfl⟩, hcommit⟩ := h
  simp only [downtimeEvidenceCommand, downtimeCommand, AuthoritativeTickSliceCommit.create,
    bind_eq_ok, validated_eq_ok] at hcommand
  obtain ⟨slice, ⟨-, rfl⟩, -, rfl⟩ := hcommand
  exact (commit_eq_ok hcommit).runtime_eq.2.2.2.2

theorem boundariesAfter_cursor {store : TeamStore p} (hreach : (teamRuns p).Reachable store) :
    BoundariesAfter store (cursor store.state - 1) := by
  intro sprint hsprint boundary hboundary
  obtain ⟨initial, current, htimeline⟩ := exists_timeline hreach
  have hcurrent := htimeline.current_of_boundary hsprint hboundary
  have := htimeline.clock boundary (hcurrent ▸ hboundary)
  omega

/-- A restart of a reachable store ends, however many rounds its loop may take.  It passes through
transactions of the team alone, in which nobody works, also when one of them fails; and when it ends
well, it has caught up with the present and crossed every sprint boundary on its way. -/
theorem resume_catches_up :
    ∀ (store : TeamStore p) (asOf : ℤ), (teamRuns p).Reachable store → cursor store.state < asOf →
      Resumed store asOf (store.resume asOf) ∧
      ∀ store' more, stepTeam store (.downtimeEvidence asOf) = .ok store' →
        store'.resumeFrom asOf (resumeRounds (cursor store.state) asOf + more) =
          store'.resumeFrom asOf (resumeRounds (cursor store.state) asOf) := by
  intro store asOf hreach hcursor
  have hload := (Based.of_reachable hreach).loaded.load
  have hloop : ∀ store' fuel, stepTeam store (.downtimeEvidence asOf) = .ok store' →
      resumeRounds (cursor store.state) asOf ≤ fuel →
      Resumed store' asOf (store'.resumeFrom asOf fuel) ∧
        store'.resumeFrom asOf (fuel + 1) = store'.resumeFrom asOf fuel := by
    intro store' fuel hstep hfuel
    have hreach' : (teamRuns p).Reachable store' := .step hreach trivial hstep
    -- the evidence moves no cursor, so the loop starts where the team stood
    have hsame := cursor_of_evidence hreach hcursor hstep
    refine resumeFrom_resumed hreach' (hsame ▸ hcursor) (boundariesAfter_cursor hreach') ?_
    rw [hsame]
    exact hfuel
  constructor
  · cases hstep : stepTeam store (.downtimeEvidence asOf) with
    | error error =>
      simp only [TeamStore.resume, hload, if_neg (not_le.mpr hcursor), transact_of_error hstep]
      exact .failed store asOf error
    | ok store' =>
      simp only [TeamStore.resume, hload, if_neg (not_le.mpr hcursor), transact_of_ok hstep]
      have hevent : ∀ request draws, TeamEvent.downtimeEvidence asOf ≠ .tick request draws := by
        intro request draws h
        cases h
      exact (hloop store' _ hstep le_rfl).1.after hreach hevent hstep
  · intro store' more hstep
    induction more with
    | zero => rfl
    | succ more ih =>
      rw [← ih]
      exact (hloop store' _ hstep (Nat.le_add_right _ _)).2

/-- The restart of the small team after its first sprint. -/
theorem resume_catches_up_smallTeam :
    ∃ store, runTeam utcPlatform (startAfter rejectingBlueprint (-1)) [] = .ok store ∧
      let outcome := store.resume (firstMonday + 400 * microsecondsPerHour)
      cursor outcome.1.state = firstMonday + 400 * microsecondsPerHour ∧
        crossings outcome.1.groundTruth =
          [(0, firstMonday), (1, firstMonday + 14 * microsecondsPerDay)] := by
  obtain ⟨_, h⟩ := exists_of_succeeds (do
    let store ← runTeam utcPlatform (startAfter rejectingBlueprint (-1)) []
    let outcome := store.resume (firstMonday + 400 * microsecondsPerHour)
    require (cursor store.state < firstMonday + 400 * microsecondsPerHour) "later"
    require (outcome.2 = .ok ()) "failed"
    require (crossings outcome.1.groundTruth =
      [(0, firstMonday), (1, firstMonday + 14 * microsecondsPerDay)]) "other crossings")
    (by decide +kernel)
  simp only [bind_eq_ok, require_eq_ok, exists_unit] at h
  obtain ⟨store, hrun, hcursor, hended, hcrossings⟩ := h
  have hreach : (teamRuns utcPlatform).Reachable store := by
    simp only [runTeam, bind_eq_ok] at hrun
    obtain ⟨first, hfirst, hevents⟩ := hrun
    exact reachableBy_of_foldlM hevents (scriptMeets_true first _) (.start hfirst trivial)
  obtain ⟨hresumed, -⟩ := resume_catches_up store _ hreach hcursor
  exact ⟨store, hrun, hresumed.cursor_eq hended, hcrossings⟩

end JiraSimulator
