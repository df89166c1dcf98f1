import JiraSimulator.Correctness.Enterable
import JiraSimulator.Correctness.TimePartition
import JiraSimulator.Library.DoubleRounding
import JiraSimulator.Library.GreedyPrefix

/-!
# Scope selection

The initial activation and the rollover fill a sprint from the ranked items: each takes items until
the minimum is reached and the next item would pass the drawn target.  Both loops take the greedy
prefix of their candidates.

* `scope_selection`: the target lies in the capacity range, and both selections are the longest
  prefixes that fit.
-/

namespace JiraSimulator

open Library Library.Outcome Library.Rounding Library.GreedyPrefix

variable {p : Platform}

/-! ### The target -/

/-- The draws are numbers of fifty-three bits. -/
def DrawSource.Valid (draws : DrawSource) : Prop :=
  ∀ decision, (draws decision).u53Integer ≤ maxSafeInteger

theorem capacity_ordered (blueprint : ResolvedTeamBlueprint) :
    blueprint.scrum.capacityMinPoints ≤ blueprint.scrum.capacityMaxPoints := by
  have h := blueprint.accepted
  simp only [BlueprintDocument.validate, ScrumBlueprint.validate, bind_eq_ok, exists_unit,
    require_eq_ok] at h
  obtain ⟨-, -, -, -, -, ⟨-, hordered⟩, -⟩ := h
  exact hordered

theorem capacityTarget_mem {draws : DrawSource} (hdraws : DrawSource.Valid draws)
    {scrum : ScrumBlueprint} (hordered : scrum.capacityMinPoints ≤ scrum.capacityMaxPoints)
    (sprintId : Uuid) : scrum.capacityMinPoints ≤ capacityTarget scrum draws sprintId ∧
      capacityTarget scrum draws sprintId ≤ scrum.capacityMaxPoints := by
  set range : ℤ := scrum.capacityMaxPoints - scrum.capacityMinPoints + 1 with hrange
  set n := (draws (.first sprintId .SCRUM_CAPACITY_TARGET)).u53Integer
  have hpos : (0 : ℚ) < range := by
    have : 0 < range := by omega
    exact_mod_cast this
  have hn : n < 2 ^ 53 := by
    have hle := hdraws (.first sprintId .SCRUM_CAPACITY_TARGET)
    unfold maxSafeInteger at hle
    omega
  have hlt : fmul (drawUnit draws sprintId .SCRUM_CAPACITY_TARGET) (floatOfInt range) < range :=
    roundToPrecision_fraction_lt (by norm_num) hn hpos
  have hnonneg : 0 ≤ fmul (drawUnit draws sprintId .SCRUM_CAPACITY_TARGET) (floatOfInt range) := by
    refine roundToPrecision_nonneg (mul_nonneg ?_ (roundToPrecision_nonneg hpos.le))
    unfold drawUnit UniformDraw.unitValue
    positivity
  have hfloor : 0 ≤ pyInt (fmul (drawUnit draws sprintId .SCRUM_CAPACITY_TARGET)
      (floatOfInt range)) ∧ pyInt (fmul (drawUnit draws sprintId .SCRUM_CAPACITY_TARGET)
      (floatOfInt range)) < range := by
    rw [pyInt, if_pos hnonneg]
    exact ⟨Int.floor_nonneg.mpr hnonneg, Int.floor_lt.mpr hlt⟩
  unfold capacityTarget
  dsimp only
  rw [← hrange]
  omega

/-! ### The loops -/

theorem takeWithinCapacity_eq (minPoints : ℕ) (target : ℤ) (used : ℕ)
    (items : List WorkItemState) : takeWithinCapacity minPoints target used items =
      (takeGreedy (·.storyPoints) minPoints target used items).map (·.id) := by
  induction items generalizing used with
  | nil => rfl
  | cons item items ih =>
    unfold takeWithinCapacity takeGreedy
    dsimp only
    push_cast
    split_ifs
    · rfl
    · rw [ih, List.map_cons]

theorem takeBacklog_eq (minPoints : ℕ) (target : ℤ) (used : ℕ) (items : List WorkItemState) :
    takeBacklog minPoints target used items =
      (takeGreedy (·.storyPoints) minPoints target used
        (items.filter fun item => item.lifecycle = .BACKLOG)).map (·.id) := by
  induction items generalizing used with
  | nil => rfl
  | cons item items ih =>
    unfold takeBacklog
    by_cases hbacklog : item.lifecycle = .BACKLOG
    · rw [if_neg (not_not.mpr hbacklog), List.filter_cons_of_pos (by simpa using hbacklog),
        takeGreedy]
      split_ifs
      · rfl
      · rw [ih, List.map_cons]
    · rw [if_pos hbacklog, List.filter_cons_of_neg (by simpa using hbacklog), ih]

/-! ### The selections -/

/-- The selected identifiers are those of a prefix of the candidates that fits the capacity, and no
longer prefix does. -/
def SelectsPrefix (minPoints : ℕ) (target : ℤ) (used : ℕ) (candidates : List WorkItemState)
    (selected : List Uuid) : Prop :=
  ∃ taken, selected = taken.map (·.id) ∧ taken <+: candidates ∧
    Fits (·.storyPoints) minPoints target used taken ∧
    ∀ longer, longer <+: candidates → Fits (·.storyPoints) minPoints target used longer →
      longer <+: taken

theorem selectsPrefix_takeGreedy (minPoints : ℕ) (target : ℤ) (used : ℕ)
    (candidates : List WorkItemState) : SelectsPrefix minPoints target used candidates
      ((takeGreedy (·.storyPoints) minPoints target used candidates).map (·.id)) :=
  ⟨_, rfl, takeGreedy_prefix, takeGreedy_fits, fun _ => takeGreedy_maximal⟩

/-- The items in the order of their ranks. -/
def rankedItems (p : Platform) (items : List WorkItemState) : List WorkItemState :=
  Ordering.sortOn (simulatorRank p) items

/-- The target lies in the capacity range.  The activation selects the longest prefix of the ranked
items that fits it, the rollover that of the ranked backlog items on top of the carryover, and
without carryover both select the same items of a backlog. -/
theorem scope_selection {draws : DrawSource} (hdraws : DrawSource.Valid draws) :
    (∀ (blueprint : ResolvedTeamBlueprint) sprintId,
      blueprint.scrum.capacityMinPoints ≤ capacityTarget blueprint.scrum draws sprintId ∧
        capacityTarget blueprint.scrum draws sprintId ≤ blueprint.scrum.capacityMaxPoints) ∧
    (∀ (aggregate : PersistedTeamAggregate) sprintId items,
      SelectsPrefix aggregate.blueprint.scrum.capacityMinPoints
        (capacityTarget aggregate.blueprint.scrum draws sprintId) 0 (rankedItems p items)
        (selectedScopeIds p aggregate sprintId items draws)) ∧
    (∀ (state : LiveTeamState p) sprintId carryIds selected,
      rankedBacklogIds state sprintId carryIds draws = .ok selected →
      ∃ carried, carryIds.mapM (getItem (·.id) state.scrum.workItems) = .ok carried ∧
        SelectsPrefix state.aggregate.blueprint.scrum.capacityMinPoints
          (capacityTarget state.aggregate.blueprint.scrum draws sprintId)
          (carried.map (·.storyPoints)).sum
          ((rankedItems p state.scrum.workItems).filter fun item => item.lifecycle = .BACKLOG)
          selected) ∧
    ∀ (state : LiveTeamState p) sprintId,
      (∀ item ∈ state.scrum.workItems, item.lifecycle = .BACKLOG) →
      rankedBacklogIds state sprintId [] draws =
        .ok (selectedScopeIds p state.aggregate sprintId state.scrum.workItems draws) := by
  refine ⟨fun blueprint => capacityTarget_mem hdraws (capacity_ordered blueprint), ?_, ?_, ?_⟩
  · intro aggregate sprintId items
    unfold selectedScopeIds
    rw [takeWithinCapacity_eq]
    exact selectsPrefix_takeGreedy _ _ _ _
  · intro state sprintId carryIds selected h
    simp only [rankedBacklogIds, bind_eq_ok, pure_eq_ok] at h
    obtain ⟨carried, hcarried, rfl⟩ := h
    rw [takeBacklog_eq]
    exact ⟨carried, hcarried, selectsPrefix_takeGreedy _ _ _ _⟩
  · -- with nothing carried over both selectors see the same items
    intro state sprintId hbacklog
    have hall : ∀ item ∈ rankedItems p state.scrum.workItems,
        decide (item.lifecycle = .BACKLOG) = true := by
      intro item hitem
      exact decide_eq_true (hbacklog item (Ordering.mem_sortOn.mp hitem))
    have hbacklogItems : (Ordering.sortOn (simulatorRank p) state.scrum.workItems).filter
        (fun item => item.lifecycle = .BACKLOG) =
          Ordering.sortOn (simulatorRank p) state.scrum.workItems :=
      List.filter_eq_self.mpr hall
    simp only [rankedBacklogIds, selectedScopeIds, List.mapM_nil, pure_bind, List.map_nil,
      List.sum_nil, takeWithinCapacity_eq, takeBacklog_eq, hbacklogItems]
    rfl

theorem teamDraws_valid (p : Platform) (blueprint : ResolvedTeamBlueprint) :
    DrawSource.Valid (teamDraws p blueprint) :=
  fun decision => u53_le_of_draw _ decision

/-- The selection of the small team from its items. -/
theorem scope_selection_smallTeam :
    ∃ store, runTeam utcPlatform (startAfter waitingBlueprint 0) [] = .ok store ∧
      SelectsPrefix store.state.aggregate.blueprint.scrum.capacityMinPoints
        (capacityTarget store.state.aggregate.blueprint.scrum
          (teamDraws utcPlatform waitingBlueprint) (.sprint store.state.aggregate.team.id 1)) 0
        (rankedItems utcPlatform store.scrum.workItems)
        (selectedScopeIds utcPlatform store.state.aggregate
          (.sprint store.state.aggregate.team.id 1) store.scrum.workItems
          (teamDraws utcPlatform waitingBlueprint)) := by
  obtain ⟨store, hstore⟩ := exists_of_succeeds
    (runTeam utcPlatform (startAfter waitingBlueprint 0) []) (by decide +kernel)
  exact ⟨store, hstore, (scope_selection (teamDraws_valid _ _)).2.1 _ _ _⟩

end JiraSimulator
