import JiraSimulator.Correctness.EventStreams
import JiraSimulator.Engine.Simulation

/-!
# The order of the planning

The backlog of a new sprint is loaded with the carried-over issues first and then by priority.
`plan_sprint` sorts it again, by priority and identifier, where a missing priority and a priority of
zero count as 999, and takes the first items of this order.

* `planSprint_unshuffled`: what is selected without randomization.
* `planning_follows_backlog`: the selection follows the loaded backlog exactly when the second sort
  leaves it as it is.
* `carriedOver_left_behind`: a carried-over issue that waits behind a new one.
-/

namespace JiraSimulator.Engine

open Library Library.Outcome

/-! ### The loaded backlog -/

/-- The item that stands for an issue. -/
def IssueRow.item (issue : IssueRow) : BacklogItem where
  id := issue.id
  storyPoints := issue.points
  backlogPriority := issue.backlogPriority

/-- The items of the backlog in the order in which `compute_and_schedule_sprint` loads them. -/
def Database.loadedBacklog (db : Database) (teamId : ℤ) (finalStatus : String) :
    List BacklogItem :=
  (db.backlog teamId finalStatus none).map IssueRow.item

/-- The precomputation of a new sprint plans the loaded backlog. -/
theorem sprintInput_backlog (db : Database) (team : TeamRow) (steps : List WorkflowStepSnapshot)
    (finalStep : WorkflowStepSnapshot) (sprint : SprintRow) (sprintStart : Moment) :
    (db.sprintInput team steps finalStep sprint sprintStart none).backlog =
      db.loadedBacklog team.id finalStep.jiraStatus := by
  unfold SprintInput.backlog Database.sprintInput Database.loadedBacklog
  rw [List.map_map]
  rfl

theorem loadedBacklog_distinct (db : Database) (teamId : ℤ) (finalStatus : String) :
    (db.loadedBacklog teamId finalStatus).Nodup := by
  have hids := db.backlog_distinct teamId finalStatus none
  rw [List.map_map] at hids
  refine List.Nodup.of_map (·.id) ?_
  show (((db.backlog teamId finalStatus none).map IssueRow.item).map (·.id)).Nodup
  rw [List.map_map]
  exact hids

/-! ### Two orders -/

/-- The key by which `plan_sprint` sorts. -/
def planKey (item : BacklogItem) : List ℤ :=
  [item.rank, item.id]

/-- The items are in the order of their priorities, missing ones and zeros as 999, and of their
identifiers. -/
def InPlanOrder (backlog : List BacklogItem) : Prop :=
  backlog.Pairwise fun a b => a.rank < b.rank ∨ a.rank = b.rank ∧ a.id ≤ b.id

/-- No item is selected while an earlier one is left out. -/
def LeavesNoneBehind (backlog selected : List BacklogItem) : Prop :=
  ∀ before item after, backlog = before ++ item :: after →
    ∀ later ∈ after, later ∈ selected → item ∈ selected

theorem inPlanOrder_iff {backlog : List BacklogItem} :
    InPlanOrder backlog ↔ Ordering.sortOn planKey backlog = backlog := by
  have hkey : ∀ a b : BacklogItem,
      (a.rank < b.rank ∨ a.rank = b.rank ∧ a.id ≤ b.id) ↔
        Ordering.lexLe (planKey a) (planKey b) = true := by
    intro a b
    simp only [planKey, Ordering.lexLe, Bool.or_eq_true, Bool.and_eq_true, decide_eq_true_eq,
      and_true, le_iff_lt_or_eq]
  constructor
  · intro h
    exact Ordering.sortOn_of_pairwise (h.imp fun {a b} => (hkey a b).mp)
  · intro h
    have hsorted := Ordering.sortOn_pairwise planKey backlog
    rw [h] at hsorted
    exact hsorted.imp fun {a b} => (hkey a b).mpr

/-- The first items of a backlog leave none behind. -/
theorem leavesNoneBehind_of_prefix {backlog selected : List BacklogItem}
    (hdistinct : backlog.Nodup) (h : selected <+: backlog) : LeavesNoneBehind backlog selected := by
  intro before item after hsplit later hlater hselected
  obtain ⟨rest, hrest⟩ := h
  subst hsplit
  rcases List.append_eq_append_iff.mp hrest with ⟨gap, hbefore, -⟩ | ⟨gap, hgap, hafter⟩
  · -- the selection ends before the item, so that it has nothing behind the item
    have hmem : later ∈ before := by
      rw [hbefore]
      exact List.mem_append_left gap hselected
    have hdisjoint := List.disjoint_of_nodup_append hdistinct
    exact absurd (List.mem_cons_of_mem item hlater) (hdisjoint hmem)
  · cases gap with
    | nil =>
      rw [List.append_nil] at hgap
      subst hgap
      have hdisjoint := List.disjoint_of_nodup_append hdistinct
      exact absurd (List.mem_cons_of_mem item hlater) (hdisjoint hselected)
    | cons first gap =>
      obtain ⟨rfl, -⟩ := List.cons.inj hafter
      rw [hgap]
      exact List.mem_append_right _ List.mem_cons_self

/-- Items that leave none behind are the first ones of the backlog, in some order. -/
theorem LeavesNoneBehind.perm_take {backlog selected : List BacklogItem}
    (h : LeavesNoneBehind backlog selected) (hbacklog : backlog.Nodup)
    (hdistinct : selected.Nodup) (hsubset : selected ⊆ backlog) :
    selected.Perm (backlog.take selected.length) := by
  have hfirst : backlog.take selected.length ⊆ selected := by
    intro item hitem
    by_contra hleft
    obtain ⟨before, after, hbefore⟩ := List.append_of_mem hitem
    -- whatever is selected stands before the item that was left out
    have hall : selected ⊆ before := by
      intro other hother
      have hsplit : backlog = before ++ item :: (after ++ backlog.drop selected.length) := by
        rw [← List.cons_append, ← List.append_assoc, ← hbefore, List.take_append_drop]
      have hmem := hsubset hother
      rw [hsplit] at hmem
      rcases List.mem_append.mp hmem with hin | hbehind
      · exact hin
      · rcases List.mem_cons.mp hbehind with rfl | hlater
        · exact absurd hother hleft
        · exact absurd (h before item _ hsplit other hlater hother) hleft
    have hle : selected.length ≤ before.length := (hdistinct.subperm hall).length_le
    have hlength := congrArg List.length hbefore
    rw [List.length_take, List.length_append, List.length_cons] at hlength
    omega
  have hlength : selected.length ≤ backlog.length := (hdistinct.subperm hsubset).length_le
  have htake : (backlog.take selected.length).Nodup := hbacklog.sublist (List.take_sublist _ _)
  refine ((htake.subperm hfirst).perm_of_length_le ?_).symm
  rw [List.length_take, min_eq_left hlength]

/-! ### What is selected -/

section selection

variable {source : RandomSource} {backlog selected : List BacklogItem}
  {capacityMin capacityMax target : ℤ} {rng rng' : source.State}

/-- Without randomization the selected items are the first ones of the plan order. -/
theorem planSprint_prefix
    (h : planSprint source backlog capacityMin capacityMax false rng =
      .ok (selected, target, rng')) : selected <+: Ordering.sortOn planKey backlog := by
  unfold planSprint at h
  simp only [Bool.false_eq_true, if_false] at h
  split_ifs at h with hempty hle
  · simp only [bind_eq_ok, pure_eq_ok, Prod.mk.injEq] at h
    obtain ⟨-, -, rfl, -⟩ := h
    exact List.nil_prefix
  · cases h
    exact List.nil_prefix
  · simp only [bind_eq_ok, pure_eq_ok, Prod.mk.injEq] at h
    obtain ⟨-, -, rfl, -⟩ := h
    exact selectItems_prefix _ _ _ _

/-- What is selected for a capacity range that is not empty. -/
theorem planSprint_unshuffled (hne : backlog ≠ []) (hle : capacityMin ≤ capacityMax) :
    ∃ target rng', capacityMin ≤ target ∧ target ≤ capacityMax ∧
      planSprint source backlog capacityMin capacityMax false rng =
        .ok (selectItems capacityMin target 0 (Ordering.sortOn planKey backlog), target, rng') := by
  let drawn := source.randbelow (capacityMax - capacityMin + 1).toNat rng
  have hdraw : drawn.1 < (capacityMax - capacityMin + 1).toNat :=
    source.randbelow_lt _ rng (by omega)
  refine ⟨capacityMin + drawn.1, drawn.2, by omega, by omega, ?_⟩
  have hempty : backlog.isEmpty = false := by
    rwa [List.isEmpty_eq_false_iff]
  have hrequire : require (capacityMin ≤ capacityMax) "empty range for randrange()" = .ok () :=
    check_of hle
  unfold planSprint RandomSource.randint
  simp only [hempty, Bool.false_eq_true, if_false, hrequire, ok_bind]
  rfl

/-- A minimum above the points of all items selects all of them. -/
theorem selectItems_all {items : List BacklogItem} {total : ℤ}
    (h : total + (items.map fun item => |item.storyPoints|).sum < capacityMin) :
    selectItems capacityMin target total items = items := by
  induction items generalizing total with
  | nil => rfl
  | cons item items ih =>
    rw [List.map_cons, List.sum_cons] at h
    have hrest : 0 ≤ (items.map fun item => |item.storyPoints|).sum :=
      List.sum_nonneg (by simp)
    have hitem : item.storyPoints ≤ |item.storyPoints| := le_abs_self _
    have hpoints : 0 ≤ |item.storyPoints| := abs_nonneg _
    unfold selectItems
    rw [if_neg (by omega), ih (by omega)]

/-- A capacity of the points of the first items selects these. -/
theorem selectItems_take {items : List BacklogItem} {total : ℤ} {n : ℕ}
    (hpoints : ∀ item ∈ items, 0 < item.storyPoints)
    (htarget : target = total + ((items.take n).map (·.storyPoints)).sum) :
    selectItems target target total items = items.take n := by
  induction items generalizing total n with
  | nil => rw [List.take_nil, selectItems]
  | cons item items ih =>
    have hitem := hpoints item List.mem_cons_self
    have hitems : ∀ other ∈ items, 0 < other.storyPoints := fun other hother =>
      hpoints other (List.mem_cons_of_mem item hother)
    unfold selectItems
    cases n with
    | zero =>
      have htotal : target = total := by simpa using htarget
      rw [if_pos (by omega), List.take_zero]
    | succ n =>
      rw [List.take_succ_cons, List.map_cons, List.sum_cons] at htarget
      have hsum : 0 ≤ ((items.take n).map (·.storyPoints)).sum := by
        refine List.sum_nonneg fun points hmem => ?_
        obtain ⟨other, hother, rfl⟩ := List.mem_map.mp hmem
        exact (hitems other (List.mem_of_mem_take hother)).le
      rw [if_neg (by omega), List.take_succ_cons, ih (n := n) hitems (by omega)]

end selection

/-! ### Following the backlog -/

/-- Every selection without randomization has the property: of every capacity range and seed. -/
def EverySelection (source : RandomSource) (backlog : List BacklogItem)
    (P : List BacklogItem → Prop) : Prop :=
  ∀ capacityMin capacityMax rngSeed selected target rng',
    planSprint source backlog capacityMin capacityMax false (source.seeded rngSeed) =
      .ok (selected, target, rng') → P selected

theorem everySelection_prefix_iff {source : RandomSource} {backlog : List BacklogItem} :
    EverySelection source backlog (· <+: backlog) ↔ InPlanOrder backlog := by
  rw [inPlanOrder_iff]
  constructor
  · intro h
    by_cases hne : backlog = []
    · rw [hne]
      rfl
    -- a minimum above all points selects everything, in the plan order
    let bound := ((Ordering.sortOn planKey backlog).map fun item => |item.storyPoints|).sum + 1
    obtain ⟨target, rng', -, -, hplan⟩ :=
      @planSprint_unshuffled source backlog bound bound (source.seeded 0) hne le_rfl
    have hinitial := h bound bound 0 _ _ _ hplan
    rw [selectItems_all (by omega)] at hinitial
    exact hinitial.eq_of_length (Ordering.sortOn_perm planKey backlog).length_eq
  · intro h low high rngSeed selected target rng' hplan
    have hinitial := planSprint_prefix hplan
    rwa [h] at hinitial

theorem everySelection_leaves_iff {source : RandomSource} {backlog : List BacklogItem}
    (hdistinct : backlog.Nodup) (hpoints : ∀ item ∈ backlog, 0 < item.storyPoints) :
    EverySelection source backlog (LeavesNoneBehind backlog) ↔ InPlanOrder backlog := by
  constructor
  · intro h
    rw [inPlanOrder_iff]
    by_cases hne : backlog = []
    · rw [hne]
      rfl
    have hperm := Ordering.sortOn_perm planKey backlog
    have hsorted : (Ordering.sortOn planKey backlog).Nodup := hperm.nodup_iff.mpr hdistinct
    refine Ordering.eq_of_take_perm hperm.length_eq fun n => ?_
    -- the capacity of the first items in the plan order selects just these
    let bound := (((Ordering.sortOn planKey backlog).take n).map (·.storyPoints)).sum
    obtain ⟨target, rng', hlow, hhigh, hplan⟩ :=
      @planSprint_unshuffled source backlog bound bound (source.seeded 0) hne le_rfl
    have htarget : target = bound := le_antisymm hhigh hlow
    subst htarget
    rw [selectItems_take (n := n) (fun item hitem => hpoints item (hperm.subset hitem))
      (zero_add bound).symm] at hplan
    have hleaves := h bound bound 0 _ _ _ hplan
    have htake := hleaves.perm_take hdistinct (hsorted.sublist (List.take_sublist _ _))
      fun item hitem => hperm.subset (List.mem_of_mem_take hitem)
    rw [List.length_take] at htake
    rcases le_total n (Ordering.sortOn planKey backlog).length with hle | hle
    · rwa [min_eq_left hle] at htake
    · rw [List.take_of_length_le hle, List.take_of_length_le (hperm.length_eq ▸ hle)]
      exact hperm
  · intro h low high rngSeed selected target rng' hplan
    exact leavesNoneBehind_of_prefix hdistinct
      (everySelection_prefix_iff.mpr h low high rngSeed selected target rng' hplan)

/-- A selection that leaves none behind has the carried-over issues before any other. -/
theorem LeavesNoneBehind.carriedOver {db : Database} {teamId : ℤ} {finalStatus : String}
    {selected : List BacklogItem}
    (h : LeavesNoneBehind (db.loadedBacklog teamId finalStatus) selected)
    {carried other : IssueRow} (hcarried : carried ∈ db.backlog teamId finalStatus none)
    (hother : other ∈ db.backlog teamId finalStatus none) (hflag : carried.carriedOver = true)
    (hflag' : other.carriedOver = false) (hselected : other.item ∈ selected) :
    carried.item ∈ selected := by
  obtain ⟨before, after, hsplit⟩ := List.append_of_mem hcarried
  have hsorted : (db.backlog teamId finalStatus none).Pairwise fun a b =>
      Ordering.lexLe (Database.backlogOrder a) (Database.backlogOrder b) = true :=
    Ordering.sortOn_pairwise Database.backlogOrder _
  rw [hsplit] at hother hsorted
  have hloaded : db.loadedBacklog teamId finalStatus =
      before.map IssueRow.item ++ carried.item :: after.map IssueRow.item := by
    unfold Database.loadedBacklog
    rw [hsplit, List.map_append, List.map_cons]
  rcases List.mem_append.mp hother with hbefore | hbehind
  · -- an issue that is not carried over is not loaded before one that is
    have hle := (List.pairwise_append.mp hsorted).2.2 other hbefore carried List.mem_cons_self
    simp [Database.backlogOrder, Ordering.lexLe, hflag, hflag'] at hle
  · rcases List.mem_cons.mp hbehind with rfl | hafter
    · rw [hflag] at hflag'
      cases hflag'
    · exact h _ _ _ hloaded other.item (List.mem_map_of_mem hafter) hselected

/-- The selections follow the loaded backlog exactly when the items are loaded in the plan order.
When every item has points, this is also when no selection leaves an item behind. -/
theorem planning_follows_backlog (source : RandomSource) (db : Database) (teamId : ℤ)
    (finalStatus : String) :
    (EverySelection source (db.loadedBacklog teamId finalStatus)
        (· <+: db.loadedBacklog teamId finalStatus) ↔
      InPlanOrder (db.loadedBacklog teamId finalStatus)) ∧
    ((∀ item ∈ db.loadedBacklog teamId finalStatus, 0 < item.storyPoints) →
      (EverySelection source (db.loadedBacklog teamId finalStatus)
          (LeavesNoneBehind (db.loadedBacklog teamId finalStatus)) ↔
        InPlanOrder (db.loadedBacklog teamId finalStatus))) :=
  ⟨everySelection_prefix_iff,
    everySelection_leaves_iff (loadedBacklog_distinct db teamId finalStatus)⟩

/-! ### A carried-over issue -/

/-- A story of three points in the backlog of the first team. -/
def waitingStory (priority : ℤ) (carriedOver : Bool) (id : ℤ) : IssueRow :=
  { newIssue id with
    teamId := 1, carriedOver, epicId := none, backlogPriority := some priority }

/-- A carried-over story, and a new one with a lower number. -/
def carriedBacklog : Database :=
  .fresh [] ((Table.empty _).insertAll (fun (make : ℤ → IssueRow) id => { make id with id })
    (fun _ _ => rfl) [waitingStory 5 true, waitingStory 1 false])

/-- The carried-over story is loaded first, and it is left out for the new one. -/
theorem carriedOver_left_behind :
    ∃ selected target rng', planSprint leastDraws.toRandomSource
        (carriedBacklog.loadedBacklog 1 "Done") 3 3 false (leastDraws.seeded 0) =
          .ok (selected, target, rng') ∧
      ¬ selected <+: carriedBacklog.loadedBacklog 1 "Done" ∧
      ¬ LeavesNoneBehind (carriedBacklog.loadedBacklog 1 "Done") selected := by
  have hloaded : carriedBacklog.loadedBacklog 1 "Done" = [⟨1, 3, some 5⟩, ⟨2, 3, some 1⟩] := by
    decide
  rw [hloaded]
  refine ⟨[⟨2, 3, some 1⟩], 3, (), by rfl, by decide, fun h => ?_⟩
  have hleft := h [] ⟨1, 3, some 5⟩ [⟨2, 3, some 1⟩] rfl _ List.mem_cons_self List.mem_cons_self
  revert hleft
  decide

/-- So not every selection from it leaves none behind: it is not in the plan order. -/
theorem planning_follows_backlog_carried :
    ¬ EverySelection leastDraws.toRandomSource (carriedBacklog.loadedBacklog 1 "Done")
      (LeavesNoneBehind (carriedBacklog.loadedBacklog 1 "Done")) := by
  have hpoints : ∀ item ∈ carriedBacklog.loadedBacklog 1 "Done", 0 < item.storyPoints := by
    decide
  rw [(planning_follows_backlog leastDraws.toRandomSource carriedBacklog 1 "Done").2 hpoints]
  unfold InPlanOrder
  decide

end JiraSimulator.Engine
