import JiraSimulator.Correctness.TickRuns

/-!
# The items of one tick

An item has at most one open visit, so a tick writes at most the rows of one finish for it.
* `TickRun.finish_of_open`: the rows that a tick writes for an item with an open visit.
* `TickRun.no_rows_of_item`: a tick writes nothing for an item without one.
-/

namespace JiraSimulator

open Library Library.Outcome ScrumCollections

variable {p : Platform}

theorem mem_openVisits {state : LiveTeamState p} {visit : StatusVisitState} :
    visit ∈ openVisits state ↔ visit ∈ state.scrum.statusVisits ∧ visit.lifecycle = .OPEN := by
  rw [openVisits, ScrumCollections.openVisits, List.mem_filter, decide_eq_true_eq]

theorem openVisits_nodup (state : LiveTeamState p) : ((openVisits state).map (·.id)).Nodup :=
  (List.filter_sublist.map _).nodup state.scrum.complete.keysUnique.statusVisits

/-! ### The rows of one finish -/

section finish

variable {state : LiveTeamState p} {instant : ℤ} {draws : DrawSource} {visit : StatusVisitState}
  {finished : FinishedVisit}

theorem VisitFinish.visit_workItemId (h : VisitFinish state instant draws visit finished)
    {v : StatusVisitState} (hv : v ∈ finished.visits) : v.workItemId = visit.workItemId := by
  cases h with
  | kept _ h => simp [h] at hv
  | advanced _ _ _ _ h => simp_all
  | done _ _ _ _ _ _ _ h =>
    simp only [h, List.mem_singleton] at hv
    rw [hv]
    rfl
  | moved work _ _ _ _ _ completion _ _ _ enters _ h =>
    simp only [h, List.mem_cons, List.not_mem_nil, or_false] at hv
    rcases hv with rfl | rfl
    · rfl
    · exact enters.workItemId_eq.trans completion.work_id

theorem VisitFinish.workItem_id (h : VisitFinish state instant draws visit finished)
    {w : WorkItemState} (hw : w ∈ finished.workItems) : w.id = visit.workItemId := by
  cases h with
  | kept _ h => simp [h] at hw
  | advanced _ _ _ _ h => simp [h] at hw
  | done _ _ _ completion _ _ _ h =>
    simp only [h, List.mem_singleton] at hw
    rw [hw]
    exact completion.work_id
  | moved _ _ _ _ _ _ completion _ _ _ _ _ h =>
    simp only [h, List.mem_singleton] at hw
    rw [hw]
    exact completion.work_id

end finish

/-! ### The rows of one item -/

section item

variable {state : LiveTeamState p} {draws : DrawSource} {advance : RiskAdvance p}
  {outcome : SegmentsOutcome} {finish : StatusVisitState → FinishedVisit}
  (h : TickRun state draws advance outcome finish)

include h

theorem TickRun.mem_visits {v : StatusVisitState} :
    v ∈ advance.result.visits ↔ ∃ x ∈ outcome.visits, v ∈ (finish x).visits := by
  rw [h.visits, List.mem_flatMap]

theorem TickRun.mem_workItems {w : WorkItemState} :
    w ∈ advance.result.workItems ↔ ∃ x ∈ outcome.visits, w ∈ (finish x).workItems := by
  rw [h.workItems, List.mem_flatMap]

theorem TickRun.sameVisits : SameVisits (openVisits advance.state) outcome.visits := by
  exact h.plays.sameVisits fun visit hvisit =>
    advance.state.scrum.complete.visit_valid (mem_openVisits.mp hvisit).1

/-- An item has one visit after the segments. -/
theorem TickRun.visit_unique {x y : StatusVisitState} (hx : x ∈ outcome.visits)
    (hy : y ∈ outcome.visits) (hwork : x.workItemId = y.workItemId) : x = y := by
  obtain ⟨-, u, hu, hux⟩ := h.sameVisits.same x hx
  obtain ⟨-, v, hv, hvy⟩ := h.sameVisits.same y hy
  obtain ⟨hu, huo⟩ := mem_openVisits.mp hu
  obtain ⟨hv, hvo⟩ := mem_openVisits.mp hv
  have huv : u = v := advance.state.scrum.complete.toConsistent.openVisit_unique hu hv huo hvo
    (by rw [← hux.workItemId, ← hvy.workItemId, hwork])
  refine List.inj_on_of_nodup_map (h.sameVisits.nodup (openVisits_nodup advance.state)) hx hy ?_
  rw [hux.id, hvy.id, huv]

/-- What a tick writes for an item with an open visit: the rows of the finish of that visit. -/
theorem TickRun.finish_of_open {visit : StatusVisitState}
    (hvisit : visit ∈ openVisits advance.state) :
    ∃ x ∈ outcome.visits, SameVisit visit x ∧ x.Valid ∧
      VisitFinish advance.state advance.result.endsAt draws x (finish x) ∧
      (∀ v, v.workItemId = visit.workItemId →
        (v ∈ advance.result.visits ↔ v ∈ (finish x).visits)) ∧
      ∀ w, w.id = visit.workItemId → (w ∈ advance.result.workItems ↔ w ∈ (finish x).workItems) := by
  obtain ⟨x, hx, hsame⟩ := h.sameVisits.exists_after (openVisits_nodup advance.state) hvisit
  refine ⟨x, hx, hsame, (h.sameVisits.same x hx).1, h.finishes x hx, fun v hv => ?_, fun w hw => ?_⟩
  · rw [h.mem_visits]
    refine ⟨?_, fun hmem => ⟨x, hx, hmem⟩⟩
    rintro ⟨y, hy, hmem⟩
    have hwork := (h.finishes y hy).visit_workItemId hmem
    rwa [h.visit_unique hx hy (by rw [hsame.workItemId, ← hv, hwork])]
  · rw [h.mem_workItems]
    refine ⟨?_, fun hmem => ⟨x, hx, hmem⟩⟩
    rintro ⟨y, hy, hmem⟩
    have hwork := (h.finishes y hy).workItem_id hmem
    rwa [h.visit_unique hx hy (by rw [hsame.workItemId, ← hw, hwork])]

/-- A tick writes nothing for an item without an open visit. -/
theorem TickRun.no_rows_of_item {item : Uuid}
    (hitem : ∀ visit ∈ openVisits advance.state, visit.workItemId ≠ item) :
    (∀ v ∈ advance.result.visits, v.workItemId ≠ item) ∧
      ∀ w ∈ advance.result.workItems, w.id ≠ item := by
  refine ⟨fun v hv hwork => ?_, fun w hw hwork => ?_⟩
  · obtain ⟨x, hx, hmem⟩ := h.mem_visits.mp hv
    obtain ⟨-, u, hu, hux⟩ := h.sameVisits.same x hx
    refine hitem u hu ?_
    rw [← hux.workItemId, ← (h.finishes x hx).visit_workItemId hmem, hwork]
  · obtain ⟨x, hx, hmem⟩ := h.mem_workItems.mp hw
    obtain ⟨-, u, hu, hux⟩ := h.sameVisits.same x hx
    refine hitem u hu ?_
    rw [← hux.workItemId, ← (h.finishes x hx).workItem_id hmem, hwork]

end item

end JiraSimulator
