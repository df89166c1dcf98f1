import JiraSimulator.Correctness.ReworkCounts

/-!
# Prior rework

The factor for the prior rework of an item is computed from its closed visits.  A visit is closed
when the item moves on along its route, when it is cancelled, and before a review is decided, so the
factor follows these rows and not the rejections.

* `thirds_eq_iff`: what the factor tells apart.
* `reworkCounted_iff`: the factors of a state are right exactly when the counts of rows and records
  agree up to three.
* `reworkCounted_step`: when a step keeps them right.
* `prior_rework`: the runs in which they are right.
* `prior_rework_overcounted`: an item that was never rejected has rework.
-/

namespace JiraSimulator

open Library Library.Outcome Library.Transition ScrumCollections

variable {p : Platform}

/-! ### Counts -/

/-- The closed visits of an item behind its first one. -/
def furtherVisits (store : TeamStore p) (item : Uuid) : ℕ :=
  closedVisitCount store.state item - 1

/-- `min(1.0, rework / 3)`. -/
def thirds (rework : ℕ) : ℚ :=
  min 1 (toDouble ((rework : ℚ) / 3))

/-- The factor of every item tells how often it was rejected. -/
def ReworkCounted (store : TeamStore p) : Prop :=
  ∀ work ∈ store.scrum.workItems, ∀ visit : StatusVisitState,
    factor (factorsOf store.state work visit) "prior_rework" = thirds (rejections store work.id)

theorem factor_priorRework (store : TeamStore p) (work : WorkItemState)
    (visit : StatusVisitState) :
    factor (factorsOf store.state work visit) "prior_rework" =
      thirds (furtherVisits store work.id) := by
  unfold factor factorsOf
  simp only [List.find?_cons]
  rfl

/-! ### Thirds -/

/-- A number from one on is rounded to one from one on. -/
theorem one_le_toDouble {q : ℚ} (h : 1 ≤ q) : 1 ≤ toDouble q := by
  have hpos : 0 < q := by linarith
  have hexponent : 0 ≤ Rounding.leadingExponent q := by
    by_contra hneg
    have hle : Rounding.powTwo (Rounding.leadingExponent q + 1) ≤ 1 := by
      rw [Rounding.powTwo_eq_zpow]
      exact zpow_le_one_of_nonpos₀ one_le_two (by omega)
    have hlt := Rounding.lt_powTwo_leadingExponent hpos
    linarith
  have hone : 1 ≤ Rounding.powTwo (Rounding.leadingExponent q) := by
    rw [Rounding.powTwo_eq_zpow]
    exact one_le_zpow₀ one_le_two hexponent
  have hpositive : 0 < 53 := by norm_num
  exact hone.trans (Rounding.roundToPrecision_binade hpositive hpos).1

theorem thirds_of_ge {rework : ℕ} (h : 3 ≤ rework) : thirds rework = 1 := by
  have hcast : (3 : ℚ) ≤ rework := by exact_mod_cast h
  have hle : (1 : ℚ) ≤ (rework : ℚ) / 3 := by linarith
  exact min_eq_left (one_le_toDouble hle)

/-- Up to three, a further visit raises the factor: the rounding is finer than a third. -/
theorem thirds_lt {a b : ℕ} (hab : a < b) (hb : b ≤ 3) : thirds a < thirds b := by
  have hlow : (a : ℚ) + 1 ≤ b := by exact_mod_cast hab
  have hhigh : (b : ℚ) ≤ 3 := by exact_mod_cast hb
  have hnonneg : (0 : ℚ) ≤ a := a.cast_nonneg
  have hround : ∀ q : ℚ, 0 ≤ q → q ≤ 1 → |toDouble q - q| ≤ 1 / 2 ^ 53 := by
    intro q hq hone
    refine (Rounding.abs_roundToPrecision_sub_le hq).trans ?_
    exact div_le_div_of_nonneg_right hone (by positivity)
  have habove := (abs_le.mp (hround (a / 3) (by linarith) (by linarith))).2
  have hbelow := (abs_le.mp (hround (b / 3) (by linarith) (by linarith))).1
  have htiny : (1 : ℚ) / 2 ^ 53 < 1 / 9 := by norm_num
  refine (min_le_right _ _).trans_lt (lt_min ?_ ?_)
  · linarith
  · linarith

theorem thirds_min (rework : ℕ) : thirds rework = thirds (min 3 rework) := by
  rcases le_total 3 rework with h | h
  · rw [min_eq_left h, thirds_of_ge h, thirds_of_ge le_rfl]
  · rw [min_eq_right h]

/-- The factor tells counts apart up to three. -/
theorem thirds_eq_iff {a b : ℕ} : thirds a = thirds b ↔ min 3 a = min 3 b := by
  constructor
  · intro h
    rw [thirds_min a, thirds_min b] at h
    rcases lt_trichotomy (min 3 a) (min 3 b) with hlt | heq | hlt
    · exact absurd h (thirds_lt hlt (min_le_left 3 b)).ne
    · exact heq
    · exact absurd h.symm (thirds_lt hlt (min_le_left 3 a)).ne
  · intro h
    rw [thirds_min a, thirds_min b, h]

/-! ### States -/

/-- A row of a visit, for the factors that read no visit. -/
def blankVisit (item : Uuid) : StatusVisitState where
  id := .visit item 0
  teamId := item
  runId := item
  workItemId := item
  ordinal := 0
  lifecycle := .OPEN
  statusKey := ""
  activityKey := none
  memberId := none
  enteredAt := 0
  closedAt := none
  requiredWorkMicroseconds := 0
  elapsedWorkMicroseconds := 0
  remainingWorkMicroseconds := 0
  queueMicroseconds := 0
  pauseMicroseconds := 0
  creditedLaborMicroseconds := 0

theorem reworkCounted_iff {store : TeamStore p} : ReworkCounted store ↔
    ∀ work ∈ store.scrum.workItems,
      min 3 (furtherVisits store work.id) = min 3 (rejections store work.id) := by
  constructor
  · intro h work hwork
    have hfactor := h work hwork (blankVisit work.id)
    rw [factor_priorRework] at hfactor
    exact thirds_eq_iff.mp hfactor
  · intro h work hwork visit
    rw [factor_priorRework]
    exact thirds_eq_iff.mpr (h work hwork)

/-- An identifier without an item has no visits, and so no rejections. -/
theorem counts_of_missing {store : TeamStore p} {item : Uuid}
    (h : item ∉ store.scrum.workItems.map (·.id)) :
    furtherVisits store item = 0 ∧ rejections store item = 0 := by
  have hnone : closedIds store.scrum.statusVisits item = ∅ := by
    refine Set.eq_empty_iff_forall_notMem.mpr ?_
    rintro id ⟨visit, hvisit, hclosed, -⟩
    have hwork := store.scrum.complete.visitWork visit hvisit
    rw [(isClosedOf_eq_true.mp hclosed).1] at hwork
    exact h hwork
  constructor
  · have hclosed : closedVisitCount store.state item = 0 := by
      rw [closedVisitCount_eq_ncard, show store.state.scrum = store.scrum from rfl, hnone,
        Set.ncard_empty]
    rw [furtherVisits, hclosed]
  · refine List.countP_eq_zero.mpr fun draft _ hrejects => ?_
    obtain ⟨review, -, hclosed⟩ := rejects_eq_true.mp hrejects
    rw [hnone] at hclosed
    exact hclosed

/-- The factors of a state are right exactly when the counts agree for every identifier. -/
theorem reworkCounted_iff_counts {store : TeamStore p} : ReworkCounted store ↔
    ∀ item, min 3 (furtherVisits store item) = min 3 (rejections store item) := by
  rw [reworkCounted_iff]
  constructor
  · intro h item
    by_cases hitem : item ∈ store.scrum.workItems.map (·.id)
    · obtain ⟨work, hwork, rfl⟩ := List.mem_map.mp hitem
      exact h work hwork
    · obtain ⟨hvisits, hrejections⟩ := counts_of_missing hitem
      rw [hvisits, hrejections]
  · exact fun h work _ => h work.id

/-! ### Steps -/

/-- The closings of an item with so many closed visits weigh as its rejections.  Its first closed
visit does not count, and the factor tells no more than three others. -/
def WeighAlike (closed closes rejects : ℕ) : Prop :=
  if closed = 0 then min 3 (closes - 1) = min 3 rejects
  else min (4 - closed) closes = min (4 - closed) rejects

/-- For every item the step closes as many visits, but for the first one of the item, as it rejects
reviews of it. -/
def ReworkStep (store : TeamStore p) (event : TeamEvent) : Prop :=
  ∀ item, WeighAlike (closedVisitCount store.state item) (closings store event item).ncard
    (sentBack store event item).ncard

/-- A step from a state with right factors leads to one exactly when its closings and its rejections
weigh alike. -/
theorem reworkCounted_step {store store' : TeamStore p} {event : TeamEvent}
    (hreach : (teamRuns p).Reachable store) (hstep : (teamRuns p).step store event store')
    (hcounted : ReworkCounted store) : ReworkCounted store' ↔ ReworkStep store event := by
  rw [reworkCounted_iff_counts] at hcounted ⊢
  refine forall_congr' fun item => ?_
  have hbefore := hcounted item
  have hclosed := closedVisitCount_step hreach hstep item
  have hrejected := rejections_step hreach hstep item
  unfold furtherVisits at hbefore ⊢
  unfold WeighAlike
  split_ifs with hnone <;> omega

/-! ### Runs -/

theorem closedVisitCount_of_open {store : TeamStore p}
    (hopen : ∀ visit ∈ store.scrum.statusVisits, visit.lifecycle = .OPEN) (item : Uuid) :
    closedVisitCount store.state item = 0 := by
  refine List.countP_eq_zero.mpr fun visit hvisit => ?_
  simp [hopen visit hvisit]

theorem Bootstrapped.reworkCounted {start : TeamStart} {draws : DrawSource}
    {context : BootstrapContext} {picked : List Uuid} {initial : ScrumStateWriteSet p}
    {store : TeamStore p} (h : Bootstrapped start draws context picked initial store) :
    ReworkCounted store := by
  refine reworkCounted_iff.mpr fun work _ => ?_
  have hclosed : closedVisitCount store.state work.id = 0 := by
    refine closedVisitCount_of_open (fun visit hvisit => ?_) work.id
    obtain ⟨item, -, -, activated, hactivated, hmem⟩ := (h.initialRows.visits visit).mp
      ((h.mem_rows Collection.statusVisits).mp hvisit)
    exact (activateItem_first hactivated visit hmem).2.2.1
  have hrejections : rejections store work.id = 0 := by
    rw [rejections, h.groundTruth]
    rfl
  rw [furtherVisits, hclosed, hrejections]

/-- The factor for prior rework is a third of the recorded rejections, up to one, in all states of
the runs whose steps close as many visits of an item, but for its first one, as they reject reviews
of it; the first step that does not leads to a state with a wrong factor. -/
theorem prior_rework (p : Platform) :
    (∀ {store : TeamStore p},
      (teamRuns p).ReachableBy (fun _ => True) ReworkStep store → ReworkCounted store) ∧
    ∀ {store store' : TeamStore p} {event : TeamEvent},
      (teamRuns p).Reachable store → ReworkCounted store →
      (teamRuns p).step store event store' →
      (ReworkCounted store' ↔ ReworkStep store event) := by
  constructor
  · intro store h
    refine h.invariant ?_ ?_
    · intro start store hstart _
      obtain ⟨draws, context, picked, initial, hboot⟩ := bootstrap_eq_ok hstart
      exact hboot.reworkCounted
    · intro store event store' hreach hcounted hok hstep
      exact (reworkCounted_step hreach hstep hcounted).mpr hok
  · intro store store' event hreach hcounted hstep
    exact reworkCounted_step hreach hstep hcounted

/-! ### Teams without rejections -/

/-- The closed visits of the items of a team. -/
def closedVisits (store : TeamStore p) : List ℕ :=
  store.scrum.workItems.map fun work => closedVisitCount store.state work.id

/-- Before any visit is closed, a team that only decides reviews closes at most the first visit of
an item. -/
theorem reworkStep_of_open {store : TeamStore p} {event : TeamEvent} {rule : RiskRule}
    (hrules : store.aggregate.blueprint.risks.rules = [rule]) (hkey : rule.key = "REVIEW_REJECTION")
    (hopen : ∀ visit ∈ store.scrum.statusVisits, visit.lifecycle = .OPEN) :
    ReworkStep store event := by
  intro item
  have hclosed := closedVisitCount_of_open hopen item
  have hsent : sentBack store event item = ∅ := by
    refine Set.eq_empty_iff_forall_notMem.mpr ?_
    rintro id ⟨context, review, work, decision, hevaluates, -, -, hverdict, -, -⟩
    have hdue := hverdict.due
    have hmem := hverdict.mem
    rw [(hevaluates.of_singleton hrules).2] at hmem
    rw [reviewDue, hopen review hmem] at hdue
    simp at hdue
  have hcloses : (closings store event item).Subsingleton := by
    rintro id (⟨context, boundary, work, decision, hevaluates, hcancels, -, -, -⟩ |
      ⟨draws, advance, visit, hadvances, hcompletes, hitem⟩)
    · rw [(hevaluates.of_singleton hrules).1, hkey] at hcancels
      exact absurd hcancels (by decide)
    rintro id' (⟨context, boundary, work, decision, hevaluates, hcancels, -, -, -⟩ |
      ⟨draws', advance', visit', hadvances', hcompletes', hitem'⟩)
    · rw [(hevaluates.of_singleton hrules).1, hkey] at hcancels
      exact absurd hcancels (by decide)
    -- an item has one open visit to complete
    obtain ⟨rfl, rfl⟩ := hadvances.unique hadvances'
    obtain ⟨outcome, finish, hrun⟩ := hadvances.tickRun
    obtain ⟨-, before, hbefore, same⟩ := hrun.closes_complete hcompletes
    obtain ⟨-, before', hbefore', same'⟩ := hrun.closes_complete hcompletes'
    obtain ⟨hmem, hbeforeOpen⟩ := mem_openVisits.mp hbefore
    obtain ⟨hmem', hbeforeOpen'⟩ := mem_openVisits.mp hbefore'
    have hwork : before.workItemId = before'.workItemId := by
      rw [← same.workItemId, ← same'.workItemId, hitem, hitem']
    obtain rfl := advance.state.scrum.complete.toConsistent.openVisit_unique hmem hmem' hbeforeOpen
      hbeforeOpen' hwork
    exact same.id.trans same'.id.symm
  have hone : (closings store event item).ncard ≤ 1 :=
    (Set.ncard_le_one hcloses.finite).mpr fun a ha b hb => hcloses ha hb
  rw [hclosed, hsent, Set.ncard_empty, WeighAlike, if_pos rfl]
  omega

/-- The first item of the small team closes its first visit. -/
theorem prior_rework_smallTeam :
    ∃ store, runTeam utcPlatform (startAfter slowReviewBlueprint 0)
        [tickUntil utcPlatform slowReviewBlueprint 1] = .ok store ∧
      closedVisits store = [1, 0] ∧ ReworkCounted store := by
  obtain ⟨store, h⟩ := exists_of_succeeds (do
    let first ← ensureBootstrapped (createdStore utcPlatform (startAfter slowReviewBlueprint 0))
      (startAfter slowReviewBlueprint 0).startedAt
    require (first.aggregate.blueprint.risks.rules = [{ rejectionRule with baseProbability := 0 }] ∧
      ∀ visit ∈ first.scrum.statusVisits, visit.lifecycle = .OPEN) ""
    let store ← stepTeam first (tickUntil utcPlatform slowReviewBlueprint 1)
    require (closedVisits store = [1, 0]) ""
    return store) (by decide +kernel)
  simp only [bind_eq_ok, exists_unit, require_eq_ok, pure_eq_ok] at h
  obtain ⟨first, hfirst, ⟨hrules, hopen⟩, store', hstore, hclosed, rfl⟩ := h
  have hmeets : ReworkStep first (tickUntil utcPlatform slowReviewBlueprint 1) :=
    reworkStep_of_open hrules rfl hopen
  have hrun : runTeam utcPlatform (startAfter slowReviewBlueprint 0)
      [tickUntil utcPlatform slowReviewBlueprint 1] = .ok store' := by
    simp only [runTeam, bind_eq_ok]
    refine ⟨first, hfirst, ?_⟩
    simp only [List.foldlM_cons, List.foldlM_nil, bind_eq_ok, pure_eq_ok]
    exact ⟨store', hstore, rfl⟩
  exact ⟨store', hrun, hclosed,
    (prior_rework utcPlatform).1 (.step (.start hfirst trivial) hmeets hstore)⟩

/-- Without rejections, the items that have been developed and reviewed have rework. -/
theorem prior_rework_overcounted :
    ∃ store, runTeam utcPlatform (startAfter slowReviewBlueprint 0) slowReviewTicks = .ok store ∧
      ∃ work ∈ store.scrum.workItems, rejections store work.id = 0 ∧
        ∃ visit ∈ store.scrum.statusVisits,
          factor (factorsOf store.state work visit) "prior_rework" ≠ 0 := by
  have hplayed : (runTeam utcPlatform (startAfter slowReviewBlueprint 0)
      slowReviewTicks).toOption.any (fun store => store.scrum.workItems.any fun work =>
        rejections store work.id = 0 && store.scrum.statusVisits.any fun visit =>
          factor (factorsOf store.state work visit) "prior_rework" ≠ 0) = true := by
    decide +kernel
  obtain ⟨store, hrun, hplayed⟩ := exists_of_any hplayed
  simp only [List.any_eq_true, Bool.and_eq_true, decide_eq_true_eq] at hplayed
  obtain ⟨work, hwork, hnone, visit, hvisit, hfactor⟩ := hplayed
  exact ⟨store, hrun, work, hwork, hnone, visit, hvisit, hfactor⟩

end JiraSimulator
