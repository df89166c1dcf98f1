import JiraSimulator.Correctness.ItemRuns
import JiraSimulator.Correctness.Scripts

/-!
# Items and their open visits

An item is active exactly while it has an open visit, and that visit is in the current status of the
item.  Every move of an item keeps this.
-/

namespace JiraSimulator

open Library Library.Outcome Library.Transition ScrumCollections

variable {p : Platform}

/-- An item is active exactly while it has an open visit, and has no visits in the backlog. -/
structure ItemView.Matched (item : ItemView) : Prop where
  active_iff : item.work.lifecycle = .ACTIVE ↔ ∃ visit ∈ item.visits, visit.lifecycle = .OPEN
  backlog : item.work.lifecycle = .BACKLOG → item.visits = ∅

theorem ItemView.Matched.active {item : ItemView} (h : item.Matched) {visit : StatusVisitState}
    (hvisit : visit ∈ item.visits) (hopen : visit.lifecycle = .OPEN) :
    item.work.lifecycle = .ACTIVE :=
  h.active_iff.mpr ⟨visit, hvisit, hopen⟩

/-! ### Moves keep the match -/

/-- An active item with an open visit is matched. -/
theorem matched_of_active {item : ItemView} {visit : StatusVisitState}
    (hactive : item.work.lifecycle = .ACTIVE) (hvisit : visit ∈ item.visits)
    (hopen : visit.lifecycle = .OPEN) : item.Matched where
  active_iff := ⟨fun _ => ⟨visit, hvisit, hopen⟩, fun _ => hactive⟩
  backlog h := by
    rw [hactive] at h
    cases h

/-- An item whose open visit was just closed has no open visit. -/
theorem not_open_of_closed {item : ItemView} (hvalid : item.Valid) {visit closed : StatusVisitState}
    (hvisit : visit ∈ item.visits) (hopen : visit.lifecycle = .OPEN) (hid : closed.id = visit.id)
    (hclosed : closed.lifecycle = .CLOSED) :
    ∀ v ∈ putVisit item.visits closed, v.lifecycle ≠ .OPEN := by
  rintro v (rfl | ⟨hv, hne⟩) hvo
  · rw [hclosed] at hvo
    cases hvo
  · exact hne (by rw [hvalid.openUnique v hv visit hvisit hvo hopen, hid])

theorem matched_of_not_active {item : ItemView} (hactive : item.work.lifecycle ≠ .ACTIVE)
    (hbacklog : item.work.lifecycle ≠ .BACKLOG)
    (hclosed : ∀ visit ∈ item.visits, visit.lifecycle ≠ .OPEN) : item.Matched where
  active_iff := ⟨fun h => absurd h hactive, fun ⟨visit, hvisit, hopen⟩ =>
    absurd hopen (hclosed visit hvisit)⟩
  backlog h := absurd h hbacklog

theorem matched_of_backlog {work : WorkItemState} (hbacklog : work.lifecycle = .BACKLOG) :
    ItemView.Matched { work, visits := ∅ } where
  active_iff := by
    refine ⟨fun hactive => ?_, fun ⟨_, hvisit, _⟩ => hvisit.elim⟩
    rw [hbacklog] at hactive
    cases hactive
  backlog _ := rfl

theorem RiskMove.matched {blueprint : ResolvedTeamBlueprint} {startsAt endsAt : ℤ}
    {item item' : ItemView} (h : RiskMove p blueprint startsAt endsAt item item')
    (hvalid : item.Valid) (hitem : item.Matched) : item'.Matched := by
  cases h with
  | pauses visit paused hvisit hopen same _ =>
    exact matched_of_active (hitem.active hvisit hopen) (.inl rfl) (same.lifecycle.trans hopen)
  | returns review visit step draws ordinal sample _ _ _ enters =>
    exact matched_of_active rfl (.inl rfl) enters.lifecycle_eq
  | cancels visit target boundary _ hvisit hopen _ _ =>
    refine matched_of_not_active (by simp [cancelledWork]) (by simp [cancelledWork]) ?_
    exact not_open_of_closed hvalid hvisit hopen rfl rfl

theorem RiskMoves.matched {blueprint : ResolvedTeamBlueprint} {startsAt endsAt : ℤ}
    {item item' : ItemView} (h : RiskMoves p blueprint startsAt endsAt item item')
    (hvalid : item.Valid) (hitem : item.Matched) : item'.Valid ∧ item'.Matched := by
  induction h with
  | refl => exact ⟨hvalid, hitem⟩
  | tail _ hmove ih => exact ⟨hmove.2, hmove.1.matched ih.1 ih.2⟩

theorem ProgressMove.matched {blueprint : ResolvedTeamBlueprint} {endsAt : ℤ}
    {item item' : ItemView} (h : ProgressMove p blueprint endsAt item item') (hvalid : item.Valid)
    (hitem : item.Matched) : item'.Matched := by
  cases h with
  | idles => exact hitem
  | continues visit updated hvisit hopen same =>
    exact matched_of_active (hitem.active hvisit hopen) (.inl rfl) (same.lifecycle.trans hopen)
  | finishes visit updated status hvisit hopen same =>
    refine matched_of_not_active (by simp [doneWork]) (by simp [doneWork]) ?_
    exact not_open_of_closed hvalid hvisit hopen same.id rfl
  | advances visit updated next step draws ordinal sample hvisit hopen same enters =>
    exact matched_of_active (hitem.active hvisit hopen) (.inl rfl) enters.lifecycle_eq

theorem ActivationMove.matched {blueprint : ResolvedTeamBlueprint} {instant : ℤ}
    {item item' : ItemView} (h : ActivationMove p blueprint instant item item')
    (hitem : item.Matched) : item'.Matched := by
  cases h with
  | finishes status hbacklog =>
    refine matched_of_not_active (by simp [doneWork]) (by simp [doneWork]) ?_
    intro visit hvisit
    rw [hitem.backlog hbacklog] at hvisit
    cases hvisit
  | enters step draws member visit sample _ enters =>
    exact matched_of_active rfl (.inl rfl) enters.lifecycle_eq

/-! ### Runs -/

theorem matched_of_reachable {store : TeamStore p} (h : (teamRuns p).Reachable store) :
    ∀ work ∈ store.scrum.workItems, (store.scrum.viewOf work).Matched := by
  refine items_induction (I := fun _ item => item.Matched) h (fun _ _ _ _ hitem => hitem)
    ?_ ?_ ?_
  · exact fun _ _ hbacklog => matched_of_backlog hbacklog
  · exact fun _ _ _ _ _ _ hitem hmove => hmove.matched hitem
  · intro _ _ _ _ _ _ _ hvalid _ hitem hmoves hmove
    obtain ⟨hmid, hmatched⟩ := hmoves.matched hvalid hitem
    exact hmove.matched hmid hmatched

/-- The open visits of an item. -/
def openVisitsOf (store : TeamStore p) (work : WorkItemState) : List StatusVisitState :=
  store.scrum.openVisits.filter fun visit => visit.workItemId = work.id

theorem mem_openVisitsOf {store : TeamStore p} {work : WorkItemState} {visit : StatusVisitState} :
    visit ∈ openVisitsOf store work ↔
      visit ∈ (store.scrum.viewOf work).visits ∧ visit.lifecycle = .OPEN := by
  rw [openVisitsOf, List.mem_filter, ScrumCollections.openVisits, List.mem_filter,
    decide_eq_true_eq, decide_eq_true_eq]
  exact and_right_comm

/-- In every reachable state an active item has exactly one open visit, in its current status, and
every other item has none. -/
theorem openVisits_match_of_reachable {store : TeamStore p} (h : (teamRuns p).Reachable store)
    (work : WorkItemState) (hwork : work ∈ store.scrum.workItems) :
    (work.lifecycle = .ACTIVE → ∃ visit, openVisitsOf store work = [visit] ∧
      visit.statusKey = work.currentStatusKey) ∧
    (work.lifecycle ≠ .ACTIVE → openVisitsOf store work = []) := by
  have hmatched := matched_of_reachable h work hwork
  have hvalid := store.scrum.complete.viewOf_valid hwork
  constructor
  · intro hactive
    obtain ⟨visit, hvisit, hopen⟩ := hmatched.active_iff.mp hactive
    refine ⟨visit, ?_, hvalid.openStatus visit hvisit hopen⟩
    have hnodup : (openVisitsOf store work).Nodup :=
      ((store.scrum.complete.keysUnique.statusVisits.of_map _).filter _).filter _
    refine List.perm_singleton.mp ((List.perm_ext_iff_of_nodup hnodup (List.nodup_singleton _)).mpr
      fun v => ?_)
    rw [mem_openVisitsOf, List.mem_singleton]
    constructor
    · exact fun hv => hvalid.openUnique v hv.1 visit hvisit hv.2 hopen
    · rintro rfl
      exact ⟨hvisit, hopen⟩
  · intro hnot
    refine List.eq_nil_iff_forall_not_mem.mpr fun visit hvisit => hnot ?_
    exact hmatched.active_iff.mpr ⟨visit, mem_openVisitsOf.mp hvisit⟩

/-- The match after the first hour of the small team. -/
theorem openVisits_match_smallTeam :
    ∃ store, runTeam utcPlatform (startAfter rejectingBlueprint 0)
        [tickUntil utcPlatform rejectingBlueprint 1] = .ok store ∧
      ∀ work ∈ store.scrum.workItems,
        (work.lifecycle = .ACTIVE → ∃ visit, openVisitsOf store work = [visit] ∧
          visit.statusKey = work.currentStatusKey) ∧
        (work.lifecycle ≠ .ACTIVE → openVisitsOf store work = []) := by
  obtain ⟨store, hrun⟩ := exists_of_succeeds (runTeam utcPlatform
    (startAfter rejectingBlueprint 0) [tickUntil utcPlatform rejectingBlueprint 1])
    (by decide +kernel)
  exact ⟨store, hrun, fun work hwork =>
    openVisits_match_of_reachable (reachable_of_runTeam hrun) work hwork⟩

end JiraSimulator
