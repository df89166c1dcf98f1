import JiraSimulator.Correctness.ProgressLedger
import JiraSimulator.Correctness.RiskActivity
import JiraSimulator.Correctness.TimePartition

/-!
# The evidence of downtime

A restart records the downtime before it moves the cursor over it.  While the cursor still stands
before the end of a recorded downtime, another restart records an interval that overlaps it, and a
tick makes progress inside it; only a retry with the same end is recognised by its key.

* `downtime_apart`: the recorded intervals are apart in runs that leave no downtime open.
* `downtime_overlaps`: a restart that fails before its last commit, a tick, and a later restart.
-/

namespace JiraSimulator

open Library Library.Outcome Library.Transition

variable {p : Platform}

/-! ### Recorded intervals -/

/-- The instant lies in the interval. -/
def UtcInterval.Covers (interval : UtcInterval) (instant : ℤ) : Prop :=
  interval.start ≤ instant ∧ instant < interval.finish

/-- No instant lies in both intervals. -/
def UtcInterval.Apart (a b : UtcInterval) : Prop :=
  ∀ instant, a.Covers instant → ¬ b.Covers instant

/-- The interval that an event `DOWNTIME_SKIPPED` records. -/
def ActivityEventDraft.downtime? (draft : ActivityEventDraft) : Option UtcInterval :=
  match draft.eventType, draft.payload with
  | .DOWNTIME_SKIPPED, .downtime startsAt endsAt => some { start := startsAt, finish := endsAt }
  | _, _ => none

/-- The interval that a ground truth record of a downtime records. -/
def GroundTruthRecordDraft.downtime? (draft : GroundTruthRecordDraft) : Option UtcInterval :=
  match draft.payload with
  | .downtime startsAt endsAt => some { start := startsAt, finish := endsAt }
  | _ => none

/-- The downtimes of the activity ledger. -/
def TeamStore.skippedActivity (store : TeamStore p) : List UtcInterval :=
  store.activity.filterMap (·.downtime?)

/-- The downtimes of the ground truth ledger. -/
def TeamStore.skippedGroundTruth (store : TeamStore p) : List UtcInterval :=
  store.groundTruth.filterMap (·.downtime?)

/-! ### Histories -/

/-- The store of a run, and the intervals over which its ticks have moved the cursor. -/
structure TeamHistory (p : Platform) where
  store : TeamStore p
  progressed : List UtcInterval

/-- The interval that a transaction progresses over. -/
def progressOf (store store' : TeamStore p) : TeamEvent → List UtcInterval
  | .tick _ _ => [{ start := cursor store.state, finish := cursor store'.state }]
  | _ => []

/-- The runs of a team with their histories. -/
def teamHistories (p : Platform) : System TeamStart (TeamHistory p) TeamEvent where
  start team history := (teamRuns p).start team history.store ∧ history.progressed = []
  step history event history' := (teamRuns p).step history.store event history'.store ∧
    history'.progressed = history.progressed ++ progressOf history.store history'.store event

/-- No instant is covered by two records of downtime, or by a record and by the progress of a
tick. -/
structure DowntimeApart (history : TeamHistory p) : Prop where
  activity : history.store.skippedActivity.Pairwise UtcInterval.Apart
  groundTruth : history.store.skippedGroundTruth.Pairwise UtcInterval.Apart
  progressed : ∀ window ∈ history.progressed,
    ∀ gap ∈ history.store.skippedActivity ++ history.store.skippedGroundTruth, window.Apart gap

/-- The event commits and moves the cursor. -/
def MovesCursor (store : TeamStore p) (event : TeamEvent) : Prop :=
  (stepTeam store event).toOption.any (fun store' => cursor store.state < cursor store'.state) = true

instance (store : TeamStore p) (event : TeamEvent) : Decidable (MovesCursor store event) :=
  inferInstanceAs (Decidable (_ = true))

theorem movesCursor_iff {store store' : TeamStore p} {event : TeamEvent}
    (hstep : (teamRuns p).step store event store') :
    MovesCursor store event ↔ cursor store.state < cursor store'.state := by
  have hteam : stepTeam store event = .ok store' := hstep
  unfold MovesCursor
  rw [hteam]
  exact decide_eq_true_iff

/-- Downtime is recorded, and a tick progresses, only when the cursor stands at the end of all
recorded downtime; the downtime from the cursor on may be recorded again with the same end. -/
def NoOpenDowntime (store : TeamStore p) : TeamEvent → Prop
  | .downtimeEvidence asOf => cursor store.state < asOf →
      ∀ gap ∈ store.skippedActivity ++ store.skippedGroundTruth,
        gap.finish ≤ cursor store.state ∨ gap = { start := cursor store.state, finish := asOf }
  | .tick request draws => MovesCursor store (.tick request draws) →
      ∀ gap ∈ store.skippedActivity ++ store.skippedGroundTruth, gap.finish ≤ cursor store.state
  | _ => True

instance (store : TeamStore p) (event : TeamEvent) : Decidable (NoOpenDowntime store event) := by
  unfold NoOpenDowntime
  split <;> infer_instance

/-! ### One ledger -/

section ledger

variable {α : Type} [DecidableEq α] {key : α → SemanticKey} {gapOf : α → Option UtcInterval}
  {runtime : TeamRuntime} {ledger ledger' drafts : List α} {cursor cursor' : ℤ}

/-- A ledger whose records of downtime begin at the cursor or before, are apart and are known by
their ends. -/
structure GapsApart (key : α → SemanticKey) (gapOf : α → Option UtcInterval) (team run : Uuid)
    (cursor : ℤ) (ledger : List α) : Prop where
  keyed : ∀ draft ∈ ledger, ∀ gap ∈ gapOf draft,
    key draft = .restartGap team run gap.start gap.finish
  begun : ∀ gap ∈ ledger.filterMap gapOf, gap.start ≤ cursor
  apart : (ledger.filterMap gapOf).Pairwise UtcInterval.Apart

variable {team run : Uuid}

/-- Drafts without downtime keep the intervals. -/
theorem GapsApart.append (h : GapsApart key gapOf team run cursor ledger)
    (happend : appendDrafts key ledger drafts = .ok ledger')
    (hdrafts : ∀ draft ∈ drafts, gapOf draft = none) (hle : cursor ≤ cursor') :
    GapsApart key gapOf team run cursor' ledger' ∧
      ledger'.filterMap gapOf = ledger.filterMap gapOf := by
  obtain ⟨added, rfl, hsublist, -⟩ := appendDrafts_eq_ok happend
  have hnone : ∀ draft ∈ added, gapOf draft = none :=
    fun draft hdraft => hdrafts draft (hsublist.subset hdraft)
  have hsame : (ledger ++ added).filterMap gapOf = ledger.filterMap gapOf := by
    rw [List.filterMap_append, List.filterMap_eq_nil_iff.mpr hnone, List.append_nil]
  refine ⟨⟨fun draft hdraft gap hgap => ?_, fun gap hgap => ?_, ?_⟩, hsame⟩
  · rcases List.mem_append.mp hdraft with hold | hnew
    · exact h.keyed draft hold gap hgap
    · rw [hnone draft hnew] at hgap
      cases hgap
  · rw [hsame] at hgap
    exact (h.begun gap hgap).trans hle
  · rw [hsame]
    exact h.apart

/-- The downtime from the cursor on is apart from those recorded before, unless it was recorded. -/
theorem GapsApart.record (h : GapsApart key gapOf team run cursor ledger) {draft : α} {asOf : ℤ}
    (happend : appendDrafts key ledger [draft] = .ok ledger')
    (hgap : gapOf draft = some { start := cursor, finish := asOf })
    (hkey : key draft = .restartGap team run cursor asOf)
    (hopen : ∀ gap ∈ ledger.filterMap gapOf,
      gap.finish ≤ cursor ∨ gap = { start := cursor, finish := asOf }) :
    GapsApart key gapOf team run cursor ledger' ∧
      ∀ gap ∈ ledger'.filterMap gapOf, gap ∈ ledger.filterMap gapOf ∨ gap.start = cursor := by
  simp only [appendDrafts, List.foldlM_cons, List.foldlM_nil, bind_eq_ok, pure_eq_ok] at happend
  obtain ⟨_, happend, rfl⟩ := happend
  rcases appendDraft_eq_ok happend with ⟨rfl, -⟩ | ⟨rfl, hfresh⟩
  · exact ⟨h, fun gap hgap => .inl hgap⟩
  have hadded : (ledger ++ [draft]).filterMap gapOf =
      ledger.filterMap gapOf ++ [{ start := cursor, finish := asOf }] := by
    rw [List.filterMap_append, List.filterMap_cons_some hgap, List.filterMap_nil]
  -- a recorded interval with the same ends would have the same key
  have hbefore : ∀ gap ∈ ledger.filterMap gapOf, gap.finish ≤ cursor := by
    intro gap hmem
    rcases hopen gap hmem with hle | rfl
    · exact hle
    · obtain ⟨old, hold, hsome⟩ := List.mem_filterMap.mp hmem
      refine absurd (List.mem_map.mpr ⟨old, hold, ?_⟩) hfresh
      rw [h.keyed old hold _ hsome, hkey]
  refine ⟨⟨fun other hother gap hsome => ?_, fun gap hmem => ?_, ?_⟩, fun gap hmem => ?_⟩
  · rcases List.mem_append.mp hother with hold | hnew
    · exact h.keyed other hold gap hsome
    · obtain rfl := List.mem_singleton.mp hnew
      rw [hgap] at hsome
      obtain rfl := Option.some.inj hsome
      exact hkey
  · rw [hadded, List.mem_append, List.mem_singleton] at hmem
    rcases hmem with hold | rfl
    · exact h.begun gap hold
    · exact le_refl cursor
  · rw [hadded, List.pairwise_append]
    refine ⟨h.apart, List.pairwise_singleton _ _, fun gap hmem new hnew instant hin hin' => ?_⟩
    obtain rfl := List.mem_singleton.mp hnew
    have hle := hbefore gap hmem
    unfold UtcInterval.Covers at hin hin'
    simp only at hin'
    omega
  · rw [hadded, List.mem_append, List.mem_singleton] at hmem
    rcases hmem with hold | rfl
    · exact .inl hold
    · exact .inr rfl

/-- A downtime recorded before the end of another one overlaps it. -/
theorem GapsApart.overlaps (h : GapsApart key gapOf team run cursor ledger) {draft : α} {asOf : ℤ}
    (happend : appendDrafts key ledger [draft] = .ok ledger')
    (hnew : gapOf draft = some { start := cursor, finish := asOf }) (hlt : cursor < asOf)
    {gap : UtcInterval} (hgap : gap ∈ ledger.filterMap gapOf) (hafter : cursor < gap.finish)
    (hne : gap ≠ { start := cursor, finish := asOf }) :
    ¬ (ledger'.filterMap gapOf).Pairwise UtcInterval.Apart := by
  intro hapart
  obtain ⟨added, rfl, -, hall⟩ := appendDrafts_eq_ok happend
  have hmem : gap ∈ (ledger ++ added).filterMap gapOf := by
    rw [List.filterMap_append]
    exact List.mem_append_left _ hgap
  have hmem' : { start := cursor, finish := asOf : UtcInterval } ∈
      (ledger ++ added).filterMap gapOf :=
    List.mem_filterMap.mpr ⟨draft, hall draft (List.mem_singleton_self _), hnew⟩
  -- both intervals cover the cursor
  have hcovers : gap.Covers cursor := ⟨h.begun gap hgap, hafter⟩
  have hcovers' : { start := cursor, finish := asOf : UtcInterval }.Covers cursor :=
    ⟨le_refl cursor, hlt⟩
  have hsymm : Std.Symm UtcInterval.Apart := ⟨fun a b hab instant hb ha => hab instant ha hb⟩
  exact hapart.forall hmem hmem' hne cursor hcovers hcovers'

omit [DecidableEq α] in
theorem GapsApart.mono (h : GapsApart key gapOf team run cursor ledger) (hle : cursor ≤ cursor') :
    GapsApart key gapOf team run cursor' ledger where
  keyed := h.keyed
  begun gap hgap := (h.begun gap hgap).trans hle
  apart := h.apart

end ledger

/-! ### The drafts of a command -/

theorem visitDrafts_activity {state : LiveTeamState p} {endsAt : ℤ} {result : TickResult}
    {visit : StatusVisitState} {drafts : VisitDrafts}
    (h : visitDrafts state endsAt result visit = .ok drafts) {draft : ActivityEventDraft}
    (hdraft : draft ∈ drafts.activity) : draft.eventType = .ISSUE_UPDATED := by
  unfold visitDrafts at h
  by_cases hskip : 0 < visit.ordinal ∧ visit.lifecycle = .OPEN
  · rw [if_pos hskip, pure_eq_ok] at h
    subst h
    cases hdraft
  · rw [if_neg hskip] at h
    simp only [bind_eq_ok] at h
    obtain ⟨before, -, original, -, summary, -, truth, -, h⟩ := h
    split_ifs at h <;>
    · simp only [bind_eq_ok, pure_eq_ok] at h
      obtain ⟨projection, -, rfl⟩ := h
      rw [List.mem_singleton.mp hdraft]
      rfl

/-- The activity of a tick: updates of the visits that it writes, and the activity of its risks. -/
theorem tickSlice_activity {request : TickRequest} {advance : RiskAdvance p}
    {slice : TickSliceCommit} (h : tickSlice request advance = .ok slice) :
    ∃ updates, slice.activity = updates ++ advance.risks.activity ∧
      ∀ draft ∈ updates, draft.eventType = .ISSUE_UPDATED := by
  simp only [tickSlice, liveSlice, withRiskLedgers, ledgerDrafts, bind_eq_ok, pure_eq_ok,
    validated_eq_ok] at h
  obtain ⟨live, ⟨drafts, ⟨lists, hlists, rfl⟩, -, rfl⟩, -, rfl⟩ := h
  refine ⟨lists.flatMap (·.activity), rfl, fun draft hdraft => ?_⟩
  obtain ⟨list, hlist, hmem⟩ := List.mem_flatMap.mp hdraft
  obtain ⟨visit, -, hvisit⟩ := exists_of_mem_mapM hlists hlist
  exact visitDrafts_activity hvisit hmem

/-- The drafts of a tick record no downtime. -/
theorem tickSlice_downtime {state : LiveTeamState p} {draws : DrawSource} {request : TickRequest}
    {advance : RiskAdvance p} {slice : TickSliceCommit}
    (hrisks : evaluateDueRisks state advance.result.endsAt draws = .ok advance.risks)
    (h : tickSlice request advance = .ok slice) :
    (∀ draft ∈ slice.activity, draft.downtime? = none) ∧
      ∀ draft ∈ slice.groundTruth, draft.downtime? = none := by
  refine ⟨fun draft hdraft => ?_, fun draft hdraft => ?_⟩
  · obtain ⟨updates, hactivity, hupdates⟩ := tickSlice_activity h
    rw [hactivity, List.mem_append] at hdraft
    rcases hdraft with hupdate | hrisk
    · unfold ActivityEventDraft.downtime?
      rw [hupdates draft hupdate]
    · obtain ⟨working, batch, -, rfl⟩ := evaluateDueRisks_activity hrisks hrisk
      unfold ActivityEventDraft.downtime? decisionActivity
      cases batch.eventType <;> rfl
  · obtain ⟨truths, htruths, hall⟩ := tickSlice_groundTruth h
    rw [htruths, List.mem_append] at hdraft
    rcases hdraft with hprogress | hrisk
    · obtain ⟨truth, htruth, hmem⟩ := List.mem_flatten.mp hprogress
      obtain ⟨visit, -, hvisit⟩ := forall₂_exists_left hall htruth
      by_cases hskip : 0 < visit.ordinal ∧ visit.lifecycle = .OPEN
      · rw [hvisit.skipped hskip] at hmem
        cases hmem
      · obtain ⟨-, -, -, draft', record, rfl, -, hpayload, -⟩ := hvisit.recorded hskip
        rw [List.mem_singleton.mp hmem, GroundTruthRecordDraft.downtime?, hpayload]
    · obtain ⟨_, _, _, _, evidence, -, -, -, rfl⟩ := evaluateDueRisks_groundTruth hrisks hrisk
      rfl

/-- A sprint boundary records no downtime. -/
theorem BoundaryStep.no_downtime {state : LiveTeamState p} {boundary : ℤ}
    {transition : SprintTransition p} (h : BoundaryStep state boundary transition) :
    (∀ draft ∈ transition.activity, draft.downtime? = none) ∧
      ∀ draft ∈ transition.groundTruth, draft.downtime? = none := by
  cases h with
  | quiet h =>
    subst h
    exact ⟨by simp [emptyTransition], by simp [emptyTransition]⟩
  | activates =>
    rename_i h
    subst h
    exact ⟨List.forall_mem_singleton.mpr rfl, List.forall_mem_singleton.mpr rfl⟩
  | rolls =>
    rename_i h
    subst h
    exact ⟨List.forall_mem_singleton.mpr rfl, List.forall_mem_singleton.mpr rfl⟩

theorem downtimeCommand_drafts {state : LiveTeamState p} {runtimeAfter : RuntimeAdvance}
    {recordedAt : ℤ} {activity : List ActivityEventDraft}
    {groundTruth : List GroundTruthRecordDraft} {command : AuthoritativeTickSliceCommit p}
    (h : downtimeCommand state runtimeAfter recordedAt activity groundTruth = .ok command) :
    command.liveSlice.activity = activity ∧ command.liveSlice.groundTruth = groundTruth := by
  simp only [downtimeCommand, AuthoritativeTickSliceCommit.create, bind_eq_ok, validated_eq_ok] at h
  obtain ⟨slice, ⟨-, rfl⟩, -, rfl⟩ := h
  exact ⟨rfl, rfl⟩

/-- Only the evidence of a restart records downtime, from the cursor on. -/
theorem commandFor_downtime {state : LiveTeamState p} {event : TeamEvent}
    {command : AuthoritativeTickSliceCommit p} (h : commandFor state event = .ok (some command)) :
    (∃ asOf, event = .downtimeEvidence asOf ∧ cursor state < asOf ∧
      command.liveSlice.activity = [downtimeActivity state (cursor state) asOf] ∧
      command.liveSlice.groundTruth = [downtimeGroundTruth state (cursor state) asOf]) ∨
    ((∀ draft ∈ command.liveSlice.activity, draft.downtime? = none) ∧
      ∀ draft ∈ command.liveSlice.groundTruth, draft.downtime? = none) := by
  -- a boundary of the sprint writes no evidence of downtime
  have hnone : ∀ transition : SprintTransition p, ∀ boundary,
      crossSprintBoundary state boundary = .ok transition →
      command.liveSlice.activity = transition.activity →
      command.liveSlice.groundTruth = transition.groundTruth →
      (∀ draft ∈ command.liveSlice.activity, draft.downtime? = none) ∧
        ∀ draft ∈ command.liveSlice.groundTruth, draft.downtime? = none := by
    intro transition boundary hcross hactivity hgroundTruth
    rw [hactivity, hgroundTruth]
    exact (crossSprintBoundary_eq_ok hcross).no_downtime
  cases event with
  | downtimeEvidence asOf =>
    simp only [commandFor] at h
    split_ifs at h with hlt
    · simp only [map_eq_ok, Option.some.injEq] at h
      obtain ⟨command', hcommand, rfl⟩ := h
      exact .inl ⟨asOf, rfl, hlt, downtimeCommand_drafts hcommand⟩
    · cases h
  | skipDowntime asOf =>
    simp only [commandFor] at h
    split_ifs at h
    · simp only [map_eq_ok, Option.some.injEq] at h
      obtain ⟨command', hcommand, rfl⟩ := h
      obtain ⟨hactivity, hgroundTruth⟩ := downtimeCommand_drafts hcommand
      rw [hactivity, hgroundTruth]
      exact .inr ⟨by simp, by simp⟩
    · cases h
  | tick request draws =>
    refine .inr ?_
    simp only [commandFor, map_eq_ok, Option.some.injEq] at h
    obtain ⟨command', hcommand, rfl⟩ := h
    simp only [calculateScrumTick, bind_eq_ok, exists_unit] at hcommand
    obtain ⟨-, transition, hcross, hcommand⟩ := hcommand
    -- the tick stops at a boundary, or it advances
    by_cases hactivity : transition.activity ≠ []
    · rw [if_pos hactivity] at hcommand
      simp only [lifecycleCommit, AuthoritativeTickSliceCommit.create, bind_eq_ok,
        validated_eq_ok] at hcommand
      obtain ⟨slice, ⟨-, rfl⟩, -, rfl⟩ := hcommand
      exact hnone transition _ hcross rfl rfl
    · rw [if_neg hactivity, bind_eq_ok] at hcommand
      obtain ⟨advance, hadvance, hfinal⟩ := hcommand
      obtain ⟨outcome, finish, hrun⟩ := tickAdvance_eq_ok hadvance
      simp only [finalizeTick, bind_eq_ok] at hfinal
      obtain ⟨slice, hslice, hassemble⟩ := hfinal
      rw [(assembleTick_eq_ok hassemble).slice_eq]
      exact tickSlice_downtime hrun.risks hslice
  | lifecycleBoundary asOf =>
    refine .inr ?_
    simp only [commandFor] at h
    split at h
    · split_ifs at h
      · simp only [map_eq_ok, Option.some.injEq, lifecycleBoundaryCommand,
          AuthoritativeTickSliceCommit.create, bind_eq_ok, validated_eq_ok] at h
        obtain ⟨command', ⟨transition, hcross, slice, ⟨-, rfl⟩, -, rfl⟩, rfl⟩ := h
        exact hnone transition _ hcross rfl rfl
      · cases h
    · cases h
  | bootstrap startedAt => simp [commandFor] at h

/-! ### Runs -/

theorem reachable_of_history {history : TeamHistory p}
    (h : (teamHistories p).Reachable history) : (teamRuns p).Reachable history.store := by
  refine h.invariant (I := fun history => (teamRuns p).Reachable history.store) ?_ ?_
  · intro team history hstart
    exact .start hstart.1 trivial
  · intro history event history' _ ih hstep
    exact .step ih trivial hstep.1

/-- The recorded downtimes of a history begin at the cursor or before it, and what its ticks have
progressed over lies before it. -/
structure GapsBehind (history : TeamHistory p) : Prop where
  activity : GapsApart (·.semanticKey) (·.downtime?) history.store.aggregate.runtime.teamId
    history.store.aggregate.runtime.runId (cursor history.store.state) history.store.activity
  groundTruth : GapsApart (·.semanticKey) (·.downtime?) history.store.aggregate.runtime.teamId
    history.store.aggregate.runtime.runId (cursor history.store.state) history.store.groundTruth
  windows : ∀ window ∈ history.progressed, window.finish ≤ cursor history.store.state
  progressed : ∀ window ∈ history.progressed,
    ∀ gap ∈ history.store.skippedActivity ++ history.store.skippedGroundTruth, window.Apart gap

/-- An interval that ends before another one begins is apart from it. -/
theorem UtcInterval.apart_of_le {a b : UtcInterval} (h : a.finish ≤ b.start) : a.Apart b := by
  intro instant ha hb
  unfold UtcInterval.Covers at ha hb
  omega

/-- A step that meets the condition keeps the intervals apart. -/
theorem GapsBehind.step {history history' : TeamHistory p} {event : TeamEvent}
    (hbased : Based history.store) (h : GapsBehind history)
    (hopen : NoOpenDowntime history.store event)
    (hstep : (teamHistories p).step history event history') : GapsBehind history' := by
  obtain ⟨hteam, hprogressed⟩ := hstep
  obtain ⟨store, progressed⟩ := history
  obtain ⟨store', progressed'⟩ := history'
  simp only at hbased hopen hteam hprogressed
  subst hprogressed
  -- where the cursor stands after the step, and the identities of the runtime
  have hruntime : store'.aggregate.runtime.teamId = store.aggregate.runtime.teamId ∧
      store'.aggregate.runtime.runId = store.aggregate.runtime.runId ∧
      cursor store.state ≤ cursor store'.state := by
    rcases stepTeam_command hbased hteam with hsame | ⟨command, hcommand, hcommit⟩
    · rw [hsame]
      exact ⟨rfl, rfl, le_refl (cursor store.state)⟩
    · obtain ⟨hteamId, hrunId, -, -, htime⟩ := (commit_eq_ok hcommit).runtime_eq
      exact ⟨hteamId, hrunId, ((commandFor_eq_ok hcommand).1.cursor_le).trans_eq htime.symm⟩
  obtain ⟨hteamId, hrunId, hle⟩ := hruntime
  have hwindows : ∀ window ∈ progressed ++ progressOf store store' event,
      window.finish ≤ cursor store'.state := by
    intro window hwindow
    rcases List.mem_append.mp hwindow with hold | hnew
    · exact (h.windows window hold).trans hle
    · cases event <;> simp only [progressOf, List.mem_singleton, List.not_mem_nil] at hnew
      rw [hnew]
  -- without a new record, a tick that progresses starts at the end of all downtime
  have hquiet : store'.skippedActivity = store.skippedActivity →
      store'.skippedGroundTruth = store.skippedGroundTruth →
      ∀ window ∈ progressed ++ progressOf store store' event,
        ∀ gap ∈ store'.skippedActivity ++ store'.skippedGroundTruth, window.Apart gap := by
    intro hactivity hgroundTruth window hwindow gap hgap
    rw [hactivity, hgroundTruth] at hgap
    rcases List.mem_append.mp hwindow with hold | hnew
    · exact h.progressed window hold gap hgap
    · cases event <;> simp only [progressOf, List.mem_singleton, List.not_mem_nil] at hnew
      rw [hnew]
      intro instant hin hin'
      have hmoves : cursor store.state < cursor store'.state := hin.1.trans_lt hin.2
      have hclosed := hopen ((movesCursor_iff hteam).mpr hmoves) gap hgap
      exact UtcInterval.apart_of_le hclosed instant hin' hin
  rcases stepTeam_command hbased hteam with hsame | ⟨command, hcommand, hcommit⟩
  · have hactivity : store'.activity = store.activity := by rw [hsame]
    have hgroundTruth : store'.groundTruth = store.groundTruth := by rw [hsame]
    refine ⟨?_, ?_, hwindows, hquiet ?_ ?_⟩
    · rw [hteamId, hrunId, hactivity]
      exact h.activity.mono hle
    · rw [hteamId, hrunId, hgroundTruth]
      exact h.groundTruth.mono hle
    · rw [TeamStore.skippedActivity, hactivity, TeamStore.skippedActivity]
    · rw [TeamStore.skippedGroundTruth, hgroundTruth, TeamStore.skippedGroundTruth]
  have hA := (commit_eq_ok hcommit).activity
  have hT := (commit_eq_ok hcommit).groundTruth
  rcases commandFor_downtime hcommand with ⟨asOf, rfl, hlt, hactivity, hgroundTruth⟩ | ⟨hA', hT'⟩
  · rw [hactivity] at hA
    rw [hgroundTruth] at hT
    obtain ⟨hgapsA, hnewA⟩ := h.activity.record hA rfl rfl fun gap hgap =>
      hopen hlt gap (List.mem_append_left _ hgap)
    obtain ⟨hgapsT, hnewT⟩ := h.groundTruth.record hT rfl rfl fun gap hgap =>
      hopen hlt gap (List.mem_append_right _ hgap)
    refine ⟨?_, ?_, hwindows, fun window hwindow gap hgap => ?_⟩
    · rw [hteamId, hrunId]
      exact hgapsA.mono hle
    · rw [hteamId, hrunId]
      exact hgapsT.mono hle
    · rw [show progressed ++ progressOf store store' (.downtimeEvidence asOf) = progressed from
        List.append_nil _] at hwindow
      have hcases : gap ∈ store.skippedActivity ++ store.skippedGroundTruth ∨
          gap.start = cursor store.state := by
        rcases List.mem_append.mp hgap with hgap | hgap
        · exact (hnewA gap hgap).imp_left (List.mem_append_left _)
        · exact (hnewT gap hgap).imp_left (List.mem_append_right _)
      rcases hcases with hold | hstart
      · exact h.progressed window hwindow gap hold
      · exact UtcInterval.apart_of_le ((h.windows window hwindow).trans_eq hstart.symm)
  · obtain ⟨hgapsA, hsameA⟩ := h.activity.append hA hA' hle
    obtain ⟨hgapsT, hsameT⟩ := h.groundTruth.append hT hT' hle
    refine ⟨?_, ?_, hwindows, hquiet hsameA hsameT⟩
    · rw [hteamId, hrunId]
      exact hgapsA
    · rw [hteamId, hrunId]
      exact hgapsT

theorem gapsBehind_of_reachableBy {history : TeamHistory p}
    (h : (teamHistories p).ReachableBy (fun _ => True)
      (fun history event => NoOpenDowntime history.store event) history) :
    GapsBehind history := by
  refine h.invariant ?_ ?_
  · rintro team ⟨store, progressed⟩ ⟨hstart, rfl⟩ -
    obtain ⟨draws, context, picked, initial, hboot⟩ := bootstrap_eq_ok hstart
    have hempty : ∀ {α : Type} [DecidableEq α] (key : α → SemanticKey)
        (gapOf : α → Option UtcInterval) team run cursor,
        GapsApart key gapOf team run cursor [] := fun _ _ _ _ _ =>
      ⟨by simp, by simp, by simp⟩
    refine ⟨?_, ?_, by simp, by simp⟩
    · rw [hboot.activity]
      exact hempty _ _ _ _ _
    · rw [hboot.groundTruth]
      exact hempty _ _ _ _ _
  · intro history event history' hreach hbehind hopen hstep
    exact hbehind.step (Based.of_reachable (reachable_of_history hreach)) hopen hstep

/-- In every run that leaves no recorded downtime open, no instant is covered by two records of
downtime, and none by a record and by the progress of a tick. -/
theorem downtime_apart {history : TeamHistory p}
    (h : (teamHistories p).ReachableBy (fun _ => True)
      (fun history event => NoOpenDowntime history.store event) history) :
    DowntimeApart history := by
  have hbehind := gapsBehind_of_reachableBy h
  exact ⟨hbehind.activity.apart, hbehind.groundTruth.apart, hbehind.progressed⟩

/-- The condition is needed: a downtime that is recorded, and a tick that makes progress, before the
end of a recorded downtime overlap it. -/
theorem open_downtime_overlaps {history history' : TeamHistory p} {event : TeamEvent}
    (hreach : (teamHistories p).ReachableBy (fun _ => True)
      (fun history event => NoOpenDowntime history.store event) history)
    (hstep : (teamHistories p).step history event history')
    (hopen : ¬ NoOpenDowntime history.store event) : ¬ DowntimeApart history' := by
  intro happart
  have hbehind := gapsBehind_of_reachableBy hreach
  have hbased := Based.of_reachable (reachable_of_history hreach.reachable)
  obtain ⟨hteam, hprogressed⟩ := hstep
  cases event with
  | downtimeEvidence asOf =>
    unfold NoOpenDowntime at hopen
    push Not at hopen
    obtain ⟨hlt, gap, hgap, hafter, hne⟩ := hopen
    have hteam : stepTeam history.store (.downtimeEvidence asOf) = .ok history'.store := hteam
    simp only [stepTeam, hbased.loaded.load, ok_bind, commandFor, if_pos hlt, bind_eq_ok,
      map_eq_ok] at hteam
    obtain ⟨_, ⟨command, hcommand, rfl⟩, hcommit⟩ := hteam
    have hcommitted := commit_eq_ok hcommit
    obtain ⟨hactivity, hgroundTruth⟩ := downtimeCommand_drafts hcommand
    have hA := hcommitted.activity
    have hT := hcommitted.groundTruth
    rw [hactivity] at hA
    rw [hgroundTruth] at hT
    rcases List.mem_append.mp hgap with hold | hold
    · exact hbehind.activity.overlaps hA rfl hlt hold hafter hne happart.activity
    · exact hbehind.groundTruth.overlaps hT rfl hlt hold hafter hne happart.groundTruth
  | tick request draws =>
    unfold NoOpenDowntime at hopen
    push Not at hopen
    obtain ⟨hmoves, gap, hgap, hafter⟩ := hopen
    have hlt := (movesCursor_iff hteam).mp hmoves
    have hbegun : gap.start ≤ cursor history.store.state := by
      rcases List.mem_append.mp hgap with hold | hold
      · exact hbehind.activity.begun gap hold
      · exact hbehind.groundTruth.begun gap hold
    -- a tick keeps the records, and its progress covers the cursor
    have hmem : gap ∈ history'.store.skippedActivity ++ history'.store.skippedGroundTruth := by
      rcases stepTeam_command hbased hteam with hsame | ⟨command, -, hcommit⟩
      · rw [hsame]
        exact hgap
      · obtain ⟨addedA, hA, -⟩ := appendDrafts_eq_ok (commit_eq_ok hcommit).activity
        obtain ⟨addedT, hT, -⟩ := appendDrafts_eq_ok (commit_eq_ok hcommit).groundTruth
        rw [TeamStore.skippedActivity, TeamStore.skippedGroundTruth, hA, hT,
          List.filterMap_append, List.filterMap_append]
        rcases List.mem_append.mp hgap with hold | hold
        · exact List.mem_append_left _ (List.mem_append_left _ hold)
        · exact List.mem_append_right _ (List.mem_append_left _ hold)
    have hwindow : { start := cursor history.store.state, finish := cursor history'.store.state :
        UtcInterval } ∈ history'.progressed := by
      rw [hprogressed]
      exact List.mem_append_right _ (List.mem_singleton_self _)
    exact happart.progressed _ hwindow gap hmem (cursor history.store.state) ⟨le_refl _, hlt⟩
      ⟨hbegun, hafter⟩
  | lifecycleBoundary asOf => exact hopen trivial
  | skipDowntime asOf => exact hopen trivial
  | bootstrap startedAt => exact hopen trivial

/-! ### Restarts of a small team -/

/-- The history of a script whose events all meet a condition. -/
def historyOf (p : Platform) (ok : TeamStore p → TeamEvent → Prop)
    [∀ store event, Decidable (ok store event)] (start : TeamStart) (events : List TeamEvent) :
    Result (TeamHistory p) := do
  let store ← ensureBootstrapped (createdStore p start) start.startedAt
  events.foldlM (fun history event => do
    require (ok history.store event) "the event does not meet the condition"
    let store ← stepTeam history.store event
    return {
      store, progressed := history.progressed ++ progressOf history.store store event })
    { store, progressed := [] }

theorem reachableBy_of_historyOf {ok : TeamStore p → TeamEvent → Prop}
    [∀ store event, Decidable (ok store event)] {start : TeamStart} {events : List TeamEvent}
    {history : TeamHistory p} (h : historyOf p ok start events = .ok history) :
    (teamHistories p).ReachableBy (fun _ => True) (fun history event => ok history.store event)
      history := by
  simp only [historyOf, bind_eq_ok] at h
  obtain ⟨store, hstore, h⟩ := h
  refine foldlM_induction h (.start ⟨hstore, rfl⟩ trivial) ?_
  intro history event history' _ ih hstep
  simp only [bind_eq_ok, exists_unit, require_eq_ok, pure_eq_ok] at hstep
  obtain ⟨hok, store', hstore', rfl⟩ := hstep
  exact .step ih hok ⟨hstore', rfl⟩

/-- Some hours after the first boundary. -/
def afterBoundary (hours : ℤ) : ℤ :=
  firstMonday + hours * microsecondsPerHour

/-- Two restarts, each up to its last commit, with a tick between them; the evidence of the second
one is recorded by a first attempt that fails. -/
def completedRestarts : List TeamEvent :=
  [.downtimeEvidence (afterBoundary 2), .skipDowntime (afterBoundary 2),
    tickUntil utcPlatform waitingBlueprint 3, .downtimeEvidence (afterBoundary 5),
    .downtimeEvidence (afterBoundary 5), .skipDowntime (afterBoundary 5)]

theorem downtime_apart_smallTeam :
    ∃ history, historyOf utcPlatform NoOpenDowntime (startAfter waitingBlueprint 0)
        completedRestarts = .ok history ∧ history.store.skippedActivity.length = 2 ∧
      DowntimeApart history := by
  obtain ⟨history, hhistory, hlength⟩ := @exists_of_any _ (historyOf utcPlatform
    NoOpenDowntime (startAfter waitingBlueprint 0) completedRestarts)
    (fun history => history.store.skippedActivity.length = 2) (by decide +kernel)
  exact ⟨history, hhistory, of_decide_eq_true hlength,
    downtime_apart (reachableBy_of_historyOf hhistory)⟩

/-- A restart fails after its evidence, a tick progresses for an hour, and another restart records
its downtime. -/
def interruptedRestart : List TeamEvent :=
  [.downtimeEvidence (afterBoundary 2), tickUntil utcPlatform waitingBlueprint 1,
    .downtimeEvidence (afterBoundary 3)]

/-- The two records of an interrupted restart overlap, and so do the first one and the tick. -/
theorem downtime_overlaps :
    ∃ history, (teamHistories utcPlatform).Reachable history ∧
      history.store.skippedActivity = [
        { start := afterBoundary 0, finish := afterBoundary 2 },
        { start := afterBoundary 1, finish := afterBoundary 3 }] ∧
      history.progressed = [{ start := afterBoundary 0, finish := afterBoundary 1 }] ∧
      ¬ history.store.skippedActivity.Pairwise UtcInterval.Apart ∧
      (∃ window ∈ history.progressed, ∃ gap ∈ history.store.skippedActivity,
        ¬ window.Apart gap) ∧ ¬ DowntimeApart history := by
  obtain ⟨history, hhistory, hholds⟩ := @exists_of_any _ (historyOf utcPlatform
    (fun _ _ => True) (startAfter waitingBlueprint 0) interruptedRestart)
    (fun history => history.store.skippedActivity = [
        { start := afterBoundary 0, finish := afterBoundary 2 },
        { start := afterBoundary 1, finish := afterBoundary 3 }] ∧
      history.progressed = [{ start := afterBoundary 0, finish := afterBoundary 1 }])
    (by decide +kernel)
  obtain ⟨hskipped, hprogressed⟩ := of_decide_eq_true hholds
  have hoverlap : ¬ history.store.skippedActivity.Pairwise UtcInterval.Apart := by
    rw [hskipped]
    intro hapart
    have hnone := (List.pairwise_cons.mp hapart).1 _ (List.mem_singleton_self _)
    exact hnone (afterBoundary 1) (by unfold UtcInterval.Covers; decide)
      (by unfold UtcInterval.Covers; decide)
  have hprogress : ∃ window ∈ history.progressed, ∃ gap ∈ history.store.skippedActivity,
      ¬ window.Apart gap := by
    rw [hskipped, hprogressed]
    refine ⟨_, List.mem_singleton_self _, _, List.mem_cons_self, fun hapart => ?_⟩
    exact hapart (afterBoundary 0) (by unfold UtcInterval.Covers; decide)
      (by unfold UtcInterval.Covers; decide)
  exact ⟨history, reachableBy_of_historyOf hhistory, hskipped, hprogressed, hoverlap, hprogress,
    fun happart => hoverlap happart.activity⟩

end JiraSimulator
