import JiraSimulator.Correctness.Collections
import JiraSimulator.Domain.ScrumTick

/-!
# The records of a risk evaluation

The records of a handler are the merged records of its elements, and the records of an evaluation
the merged records of its rules; the working state of an evaluation is the first state updated with
the records merged so far.

* `collectRecords_eq_ok`: the records of a loop over elements.
* `applyRules_induction`: what every handler keeps holds after the loop over the rules.
* `evaluateDueRisks_working`: the state that the tick works on is the last working state.
-/

namespace JiraSimulator

open Library Library.Outcome ScrumCollections

variable {p : Platform}

/-! ### States with a write set -/

theorem ScrumStateSnapshot.eq_of_collections {a b : ScrumStateSnapshot p}
    (h : a.toScrumCollections = b.toScrumCollections) : a = b := by
  cases a
  cases b
  simp only [ScrumStateSnapshot.mk.injEq]
  exact h

theorem LiveTeamState.eq_of_collections {a b : LiveTeamState p} (hagg : a.aggregate = b.aggregate)
    (h : a.scrum.toScrumCollections = b.scrum.toScrumCollections) : a = b := by
  cases a
  cases b
  simp only [LiveTeamState.mk.injEq]
  exact ⟨hagg, ScrumStateSnapshot.eq_of_collections h⟩

theorem LiveTeamState.withWriteSet_eq_ok {state state' : LiveTeamState p}
    {w : ScrumStateWriteSet p} : state.withWriteSet w = .ok state' ↔
      state'.aggregate = state.aggregate ∧
        state'.scrum.toScrumCollections = state.scrum.updateWith w.toScrumCollections := by
  simp only [LiveTeamState.withWriteSet, ScrumStateSnapshot.withWriteSet, bind_eq_ok, pure_eq_ok,
    ScrumStateSnapshot.create_eq_ok]
  constructor
  · rintro ⟨scrum, hscrum, rfl⟩
    exact ⟨rfl, hscrum⟩
  · rintro ⟨hagg, hscrum⟩
    exact ⟨state'.scrum, hscrum, LiveTeamState.eq_of_collections hagg.symm rfl⟩

/-! ### Merged records -/

/-- The records `out` are the records `rs` merged in order. -/
structure Merged (rs : List (RiskRecords p)) (out : RiskRecords p) : Prop where
  rows : ∀ {α κ : Type} [DecidableEq κ] (col : Collection α κ),
    col.rows out.state.toScrumCollections =
      Keyed.ofList col.key (rs.flatMap fun r => col.rows r.state.toScrumCollections)
  activity : out.activity = rs.flatMap (·.activity)
  groundTruth : out.groundTruth = rs.flatMap (·.groundTruth)
  projectionIntents : out.projectionIntents = rs.flatMap (·.projectionIntents)
  counterClaims : out.counterClaims = rs.flatMap (·.counterClaims)
  naturalDecisionClaims : out.naturalDecisionClaims = rs.flatMap (·.naturalDecisionClaims)

theorem Merged.nil : Merged [] ({} : RiskRecords p) where
  rows col := col.rows_empty
  activity := rfl
  groundTruth := rfl
  projectionIntents := rfl
  counterClaims := rfl
  naturalDecisionClaims := rfl

theorem RiskRecords.merge_eq_ok {left right out : RiskRecords p} (h : left.merge right = .ok out) :
    out.state.toScrumCollections =
        left.state.toScrumCollections.updateWith right.state.toScrumCollections ∧
      out.activity = left.activity ++ right.activity ∧
      out.groundTruth = left.groundTruth ++ right.groundTruth ∧
      out.projectionIntents = left.projectionIntents ++ right.projectionIntents ∧
      out.counterClaims = left.counterClaims ++ right.counterClaims ∧
      out.naturalDecisionClaims = left.naturalDecisionClaims ++ right.naturalDecisionClaims := by
  simp only [RiskRecords.merge, mergeWriteSets, bind_eq_ok, pure_eq_ok,
    ScrumStateWriteSet.create_eq_ok] at h
  obtain ⟨state, hstate, rfl⟩ := h
  exact ⟨hstate, rfl, rfl, rfl, rfl, rfl⟩

theorem Merged.snoc {rs : List (RiskRecords p)} {left right out : RiskRecords p}
    (h : Merged rs left) (hmerge : left.merge right = .ok out) : Merged (rs ++ [right]) out := by
  obtain ⟨hstate, h₁, h₂, h₃, h₄, h₅⟩ := RiskRecords.merge_eq_ok hmerge
  refine ⟨fun col => ?_, ?_, ?_, ?_, ?_, ?_⟩
  · rw [hstate, col.rows_updateWith, h.rows,
      Keyed.ofList_of_nodup col.key (Keyed.nodup_ofList _ _), List.flatMap_append, Keyed.ofList,
      Keyed.ofList, ← Keyed.update_append]
    simp
  all_goals simp only [*, h.activity, h.groundTruth, h.projectionIntents, h.counterClaims,
    h.naturalDecisionClaims, List.flatMap_append, List.flatMap_singleton]

/-- A row of the merged records is a row of one of them. -/
theorem Merged.exists_of_mem {rs : List (RiskRecords p)} {out : RiskRecords p} (h : Merged rs out)
    {α κ : Type} [DecidableEq κ] (col : Collection α κ) {a : α}
    (ha : a ∈ col.rows out.state.toScrumCollections) :
    ∃ r ∈ rs, a ∈ col.rows r.state.toScrumCollections := by
  rw [h.rows] at ha
  exact List.mem_flatMap.mp (Keyed.mem_of_mem_ofList _ ha)

/-- The identity of a row of one of the records is that of a row of the merged records. -/
theorem Merged.key_mem {rs : List (RiskRecords p)} {out : RiskRecords p} (h : Merged rs out)
    {α κ : Type} [DecidableEq κ] (col : Collection α κ) {r : RiskRecords p} (hr : r ∈ rs) {a : α}
    (ha : a ∈ col.rows r.state.toScrumCollections) :
    col.key a ∈ (col.rows out.state.toScrumCollections).map col.key := by
  rw [h.rows, Keyed.mem_map_key_ofList]
  exact List.mem_map_of_mem (List.mem_flatMap.mpr ⟨r, hr, ha⟩)

theorem Merged.rows_eq_nil {rs : List (RiskRecords p)} {out : RiskRecords p} (h : Merged rs out)
    {α κ : Type} [DecidableEq κ] (col : Collection α κ)
    (hnil : ∀ r ∈ rs, col.rows r.state.toScrumCollections = []) :
    col.rows out.state.toScrumCollections = [] := by
  rw [h.rows, List.flatMap_eq_nil_iff.mpr hnil]
  rfl

/-! ### Loops over elements -/

theorem collectRecords_eq_ok {α : Type} {record : α → Result (RiskRecords p)} {items : List α}
    {out : RiskRecords p} (h : collectRecords record items = .ok out) :
    ∃ rs, List.Forall₂ (fun x r => record x = .ok r) items rs ∧ Merged rs out := by
  -- the records merged so far are an argument of the induction
  suffices hgen : ∀ (done : List (RiskRecords p)) (start : RiskRecords p), Merged done start →
      items.foldlM (fun records item => do records.merge (← record item)) start = .ok out →
        ∃ rs, List.Forall₂ (fun x r => record x = .ok r) items rs ∧ Merged (done ++ rs) out by
    simpa using hgen [] {} Merged.nil h
  clear h
  induction items with
  | nil =>
    intro done start hdone h
    rw [List.foldlM_nil, pure_eq_ok] at h
    exact ⟨[], .nil, by simpa [← h] using hdone⟩
  | cons x xs ih =>
    intro done start hdone h
    simp only [List.foldlM_cons, bind_eq_ok] at h
    obtain ⟨next, ⟨r, hr, hmerge⟩, hrest⟩ := h
    obtain ⟨rs, hall, hmerged⟩ := ih (done ++ [r]) next (hdone.snoc hmerge) hrest
    exact ⟨r :: rs, .cons hr hall, by simpa using hmerged⟩

/-- A row of the collected records is written for one of the elements. -/
theorem collectRecords_exists_of_mem {α β κ : Type} [DecidableEq κ]
    {record : α → Result (RiskRecords p)} {items : List α} {out : RiskRecords p}
    (h : collectRecords record items = .ok out) (col : Collection β κ) {a : β}
    (ha : a ∈ col.rows out.state.toScrumCollections) :
    ∃ x ∈ items, ∃ r, record x = .ok r ∧ a ∈ col.rows r.state.toScrumCollections := by
  obtain ⟨rs, hall, hmerged⟩ := collectRecords_eq_ok h
  obtain ⟨r, hr, ha⟩ := hmerged.exists_of_mem col ha
  obtain ⟨x, hx, hxr⟩ := forall₂_exists_left hall hr
  exact ⟨x, hx, r, hxr, ha⟩

/-- The identity of a row written for an element is that of a row of the collected records. -/
theorem collectRecords_key_mem {α β κ : Type} [DecidableEq κ]
    {record : α → Result (RiskRecords p)} {items : List α} {out : RiskRecords p}
    (h : collectRecords record items = .ok out) (col : Collection β κ) {x : α} (hx : x ∈ items)
    {r : RiskRecords p} (hr : record x = .ok r) {a : β}
    (ha : a ∈ col.rows r.state.toScrumCollections) :
    col.key a ∈ (col.rows out.state.toScrumCollections).map col.key := by
  obtain ⟨rs, hall, hmerged⟩ := collectRecords_eq_ok h
  obtain ⟨r', hr', hxr⟩ := forall₂_exists_right hall hx
  obtain rfl : r' = r := by
    rw [hxr] at hr
    exact Except.ok.inj hr
  exact hmerged.key_mem col hr' ha

theorem collectRecords_exists_ok {α : Type} {record : α → Result (RiskRecords p)} {items : List α}
    {out : RiskRecords p} (h : collectRecords record items = .ok out) {x : α} (hx : x ∈ items) :
    ∃ r, record x = .ok r := by
  obtain ⟨rs, hall, -⟩ := collectRecords_eq_ok h
  obtain ⟨r, -, hr⟩ := forall₂_exists_right hall hx
  exact ⟨r, hr⟩

/-- The rows of the collected records, when rows of one identity agree. -/
theorem collectRecords_mem_rows {α β κ : Type} [DecidableEq κ]
    {record : α → Result (RiskRecords p)} {items : List α} {out : RiskRecords p}
    (h : collectRecords record items = .ok out) (col : Collection β κ)
    (hagree : ∀ x ∈ items, ∀ y ∈ items, ∀ r s, record x = .ok r → record y = .ok s →
      ∀ a ∈ col.rows r.state.toScrumCollections, ∀ b ∈ col.rows s.state.toScrumCollections,
        col.key a = col.key b → a = b) {a : β} :
    a ∈ col.rows out.state.toScrumCollections ↔
      ∃ x ∈ items, ∃ r, record x = .ok r ∧ a ∈ col.rows r.state.toScrumCollections := by
  refine ⟨collectRecords_exists_of_mem h col, ?_⟩
  rintro ⟨x, hx, r, hr, ha⟩
  obtain ⟨b, hb, hkey⟩ := List.mem_map.mp (collectRecords_key_mem h col hx hr ha)
  obtain ⟨y, hy, s, hs, hbs⟩ := collectRecords_exists_of_mem h col hb
  rw [hagree x hx y hy r s hr hs a ha b hbs hkey.symm]
  exact hb

/-- A collection that no element writes stays empty. -/
theorem collectRecords_rows_eq_nil {α β κ : Type} [DecidableEq κ]
    {record : α → Result (RiskRecords p)} {items : List α} {out : RiskRecords p}
    (h : collectRecords record items = .ok out) (col : Collection β κ)
    (hnil : ∀ x ∈ items, ∀ r, record x = .ok r → col.rows r.state.toScrumCollections = []) :
    col.rows out.state.toScrumCollections = [] := by
  obtain ⟨rs, hall, hmerged⟩ := collectRecords_eq_ok h
  refine hmerged.rows_eq_nil col fun r hr => ?_
  obtain ⟨x, hx, hxr⟩ := forall₂_exists_left hall hr
  exact hnil x hx r hxr

/-! ### The loop over the rules -/

theorem handlerFor_eq_some {key : String} {handler : RiskContext p → Result (RiskRecords p)}
    (h : handlerFor key = some handler) :
    (key = "LONG_STAY" ∧ handler = longStay) ∨
      (key = "REVIEW_REJECTION" ∧ handler = reviewRejection) ∨
      (key = "CANCELLATION" ∧ handler = cancellation) ∨
      (key = "EXTERNAL_DEPENDENCY" ∧ handler = externalDependency) ∨
      (key = "MEMBER_UNAVAILABLE" ∧ handler = memberUnavailability) := by
  unfold handlerFor at h
  split_ifs at h with h₁ h₂ h₃ h₄ h₅ <;> cases h <;> simp_all

/-- One step of the loop: the rule has no handler, or its handler's records are applied. -/
theorem applyRule_eq_ok {asOf : ℤ} {draws : DrawSource} {progress progress' : RiskProgress p}
    {rule : RiskRule} (h : applyRule asOf draws progress rule = .ok progress') :
    progress' = progress ∨ ∃ handler outcome, handlerFor rule.key = some handler ∧
      handler { state := progress.working, asOf, draws, rule } = .ok outcome ∧
      progress.records.merge outcome = .ok progress'.records ∧
      progress.working.withWriteSet outcome.state = .ok progress'.working := by
  unfold applyRule at h
  cases hhandler : handlerFor (p := p) rule.key with
  | none =>
    simp only [hhandler, Except.ok.injEq] at h
    exact .inl h.symm
  | some handler =>
    simp only [hhandler, bind_eq_ok, pure_eq_ok] at h
    obtain ⟨outcome, houtcome, records, hrecords, working, hworking, rfl⟩ := h
    exact .inr ⟨handler, outcome, rfl, houtcome, hrecords, hworking⟩

/-- The rule for the loop over the rules: what every handler keeps holds of the last working
state. -/
theorem applyRules_induction {asOf : ℤ} {draws : DrawSource} {progress progress' : RiskProgress p}
    {rules : List RiskRule} {motive : LiveTeamState p → Prop}
    (h : applyRules asOf draws progress rules = .ok progress') (init : motive progress.working)
    (step : ∀ rule ∈ rules, ∀ working handler outcome working', motive working →
      handlerFor rule.key = some handler →
      handler { state := working, asOf, draws, rule } = .ok outcome →
      working.withWriteSet outcome.state = .ok working' → motive working') :
    motive progress'.working := by
  refine foldlM_induction (motive := fun progress => motive progress.working) h init ?_
  intro progress rule next hrule hmotive hstep
  rcases applyRule_eq_ok hstep with rfl | ⟨handler, outcome, hhandler, houtcome, -, hworking⟩
  · exact hmotive
  · exact step rule hrule _ handler outcome _ hmotive hhandler houtcome hworking

/-- The working state is the first state updated with the records merged so far. -/
def WorkingState (state : LiveTeamState p) (progress : RiskProgress p) : Prop :=
  progress.working.aggregate = state.aggregate ∧
    progress.working.scrum.toScrumCollections =
      state.scrum.updateWith progress.records.state.toScrumCollections

theorem workingState_init (state : LiveTeamState p) :
    WorkingState state { working := state, records := {} } :=
  ⟨rfl, (updateWith_empty state.scrum.complete.toConsistent).symm⟩

theorem WorkingState.applyRules {state : LiveTeamState p} {asOf : ℤ} {draws : DrawSource}
    {progress progress' : RiskProgress p} {rules : List RiskRule}
    (h : applyRules asOf draws progress rules = .ok progress') (init : WorkingState state progress) :
    WorkingState state progress' := by
  refine foldlM_induction h init ?_
  intro progress rule next _ hprogress hstep
  rcases applyRule_eq_ok hstep with rfl | ⟨handler, outcome, -, -, hrecords, hworking⟩
  · exact hprogress
  · obtain ⟨hagg, hscrum⟩ := LiveTeamState.withWriteSet_eq_ok.mp hworking
    refine ⟨hagg.trans hprogress.1, ?_⟩
    rw [hscrum, hprogress.2, (RiskRecords.merge_eq_ok hrecords).1,
      updateWith_updateWith _ progress.records.state.consistent]

/-- The working state of a tick is the last working state of its risk evaluation. -/
theorem evaluateDueRisks_working {state working : LiveTeamState p} {asOf : ℤ} {draws : DrawSource}
    {risks : RiskRecords p} (h : evaluateDueRisks state asOf draws = .ok risks)
    (hworking : state.withWriteSet risks.state = .ok working) :
    applyRules asOf draws { working := state, records := {} }
      state.aggregate.blueprint.risks.rules = .ok { working, records := risks } := by
  simp only [evaluateDueRisks, bind_eq_ok, pure_eq_ok] at h
  obtain ⟨progress, hprogress, rfl⟩ := h
  obtain ⟨hagg, hscrum⟩ := (workingState_init state).applyRules hprogress
  obtain ⟨hagg', hscrum'⟩ := LiveTeamState.withWriteSet_eq_ok.mp hworking
  have heq : working = progress.working :=
    LiveTeamState.eq_of_collections (hagg'.trans hagg.symm) (hscrum'.trans hscrum.symm)
  rw [hprogress, heq]

end JiraSimulator
