import JiraSimulator.Correctness.Enterable
import JiraSimulator.Correctness.Scripts
import JiraSimulator.Library.Walk

/-!
# Progress along a route

The code does not remember the position of an item on its route: a completed visit looks up the
first step with its status and moves on to the next timed step behind it, or to the last step when
there is none.  So the statuses of the completed visits are a walk along the steps of the route.
-/

namespace JiraSimulator

open Library Library.Outcome

variable {p : Platform}

/-! ### Timed steps -/

/-- Does an item spend time in the step? -/
def isTimed (blueprint : ResolvedTeamBlueprint) (step : WorkflowRouteStep) : Bool :=
  consumesCapacity blueprint.toBlueprintDocument step && step.requiredActivity.isSome

theorem isTimedStep_eq {blueprint : ResolvedTeamBlueprint} {route : WorkflowRoute}
    (hroute : route ∈ blueprint.workflow.routes) {step : WorkflowRouteStep}
    (hstep : step ∈ route.steps) : isTimedStep blueprint step = .ok (isTimed blueprint step) := by
  obtain ⟨status, hstatus, hkey, -⟩ := blueprint.routeStep_status hroute hstep
  have hfilter := filter_eq_singleton blueprint.statusKeys_nodup hstatus
  rw [hkey] at hfilter
  have hnext : next (fun status => status.key = step.statusKey) blueprint.workflow.statuses =
      .ok status := by
    rw [next_eq_ok, ← List.head?_filter, hfilter, List.head?_cons]
  have hconsumes : consumesCapacity blueprint.toBlueprintDocument step = status.consumesCapacity := by
    unfold consumesCapacity
    rw [Bool.eq_iff_iff, List.any_eq_true]
    constructor
    · rintro ⟨other, hother, hboth⟩
      rw [Bool.and_eq_true, decide_eq_true_eq] at hboth
      rw [blueprint.status_unique hstatus hother (hkey.trans hboth.1.symm)]
      exact hboth.2
    · intro h
      exact ⟨status, hstatus, by rw [Bool.and_eq_true, decide_eq_true_eq]; exact ⟨hkey, h⟩⟩
  unfold isTimedStep isTimed
  rw [hnext, hconsumes]
  rfl

theorem firstTimedStep_eq {blueprint : ResolvedTeamBlueprint} {route : WorkflowRoute}
    (hroute : route ∈ blueprint.workflow.routes) {steps : List WorkflowRouteStep}
    (hsteps : steps ⊆ route.steps) :
    firstTimedStep blueprint steps = .ok (Walk.fromFirst (isTimed blueprint) steps).head? := by
  induction steps with
  | nil => rfl
  | cons step steps ih =>
    rw [List.cons_subset] at hsteps
    rw [firstTimedStep, isTimedStep_eq hroute hsteps.1, ok_bind]
    unfold Walk.fromFirst at ih ⊢
    by_cases htimed : isTimed blueprint step = true
    · rw [if_pos htimed, List.dropWhile_cons_of_neg (by simp [htimed]), List.head?_cons]
      rfl
    · rw [if_neg htimed, List.dropWhile_cons_of_pos (by simp [htimed])]
      exact ih hsteps.2

theorem laterSteps_eq {steps : List WorkflowRouteStep} {step : WorkflowRouteStep}
    (hstep : step ∈ steps) :
    laterSteps steps step.statusKey = .ok (Walk.behind (·.statusKey) steps step.statusKey) := by
  unfold laterSteps Walk.behind
  cases hdrop : steps.dropWhile fun other => other.statusKey ≠ step.statusKey with
  | nil =>
    rw [List.dropWhile_eq_nil_iff] at hdrop
    simpa using hdrop step hstep
  | cons _ _ => rfl

/-! ### Completions -/

/-- A completed visit of an item, as `_transition` receives it. -/
structure RouteCompletion (p : Platform) where
  state : LiveTeamState p
  work : WorkItemState
  closed : StatusVisitState
  closedAt : ℤ

namespace RouteCompletion

/-- The transition of the completion, with the seeded draws of the team run. -/
def run (c : RouteCompletion p) : Result Transition :=
  transition c.state c.work c.closed c.closedAt
    (seededDraws p c.state.aggregate.blueprint c.work)

/-- An item on the route completes its visit of the step. -/
structure At (c : RouteCompletion p) (blueprint : ResolvedTeamBlueprint) (route : WorkflowRoute)
    (step : WorkflowRouteStep) : Prop where
  accepted : c.state.aggregate.blueprint = blueprint
  issueType : route.issueType = c.work.issueType
  status : c.closed.statusKey = step.statusKey
  valid : c.work.Valid
  team : SampledTeam blueprint c.work
  created : c.work.createdAt ≤ c.closedAt

/-- The item can enter its next step: it has a visit counter, and the visit is enterable. -/
def CanMove (c : RouteCompletion p) (blueprint : ResolvedTeamBlueprint)
    (next : WorkflowRouteStep) : Prop :=
  ∃ counter, visitCounter c.state c.work.id = .ok counter ∧
    Enterable p blueprint (movedWork c.work next.statusKey c.closedAt) next counter.nextValue

/-- The transition moves the item to the step and opens its visit there. -/
def Moves (c : RouteCompletion p) (next : WorkflowRouteStep) (t : Transition) : Prop :=
  t.work = movedWork c.work next.statusKey c.closedAt ∧
    ∃ entered, t.next = some entered ∧ entered.visit.lifecycle = .OPEN ∧
      entered.visit.statusKey = next.statusKey

/-- The transition ends the route of the item at the step. -/
def Ends (c : RouteCompletion p) (terminal : WorkflowRouteStep) (t : Transition) : Prop :=
  t.work = doneWork c.work terminal.statusKey c.closedAt ∧ t.next = none

section spec

variable {c : RouteCompletion p} {blueprint : ResolvedTeamBlueprint} {route : WorkflowRoute}
  {step : WorkflowRouteStep}

/-- The route of the item is the one that the code finds. -/
theorem At.route_eq (h : c.At blueprint route step) (hroute : route ∈ blueprint.workflow.routes) :
    routeForIssueType blueprint c.work.issueType = .ok route := by
  have hfilter := filter_eq_singleton blueprint.routeTypes_nodup hroute
  rw [h.issueType] at hfilter
  rw [routeForIssueType, next_eq_ok, ← List.head?_filter, hfilter, List.head?_cons]

theorem movedWork_valid {work : WorkItemState} (hvalid : work.Valid) {status : String}
    {instant : ℤ} (hcreated : work.createdAt ≤ instant) :
    (movedWork work status instant).Valid ↔ isCanonicalText status = true := by
  constructor
  · exact fun h => h.status
  · exact fun h => { hvalid with status := h, times := hcreated }

theorem doneWork_valid {work : WorkItemState} (hvalid : work.Valid) {status : String}
    {instant : ℤ} (hcreated : work.createdAt ≤ instant) :
    (doneWork work status instant).Valid ↔ isCanonicalText status = true := by
  constructor
  · exact fun h => h.status
  · exact fun h => { hvalid with status := h, times := hcreated }

theorem claim_one_isOk {scope : SemanticCounterScope} {ordinal : ℕ}
    (h : ordinal ≤ maxSafeInteger) :
    SemanticCounterClaim.one scope ordinal = .ok { scope, expectedNext := ordinal, count := 1 } := by
  have hone : 1 ≤ maxSafeInteger := by decide
  simp only [SemanticCounterClaim.one, validated_eq_ok, SemanticCounterClaim.validate, bind_eq_ok,
    exists_unit, require_eq_ok]
  exact ⟨⟨h, hone, one_ne_zero, by omega⟩, trivial⟩

/-- What the transition does when it has found the next timed step. -/
theorem At.run_eq (h : c.At blueprint route step) (hroute : route ∈ blueprint.workflow.routes)
    (hstep : step ∈ route.steps) {t : Transition} : c.run = .ok t ↔
      match Walk.fromFirst (isTimed blueprint)
        (Walk.behind (·.statusKey) route.steps step.statusKey) with
      | [] => ∃ terminal, (Walk.behind (·.statusKey) route.steps step.statusKey).getLast? =
            some terminal ∧ isCanonicalText terminal.statusKey = true ∧ c.Ends terminal t
      | next :: _ => ∃ counter visit sample, visitCounter c.state c.work.id = .ok counter ∧
          isCanonicalText next.statusKey = true ∧
          newSampledVisit p blueprint (movedWork c.work next.statusKey c.closedAt) next
            counter.nextValue c.closedAt (seededDraws p blueprint c.work) = .ok (visit, sample) ∧
          t = { work := movedWork c.work next.statusKey c.closedAt
                next := some { visit, sample, claim :=
                  { scope := counter.scope, expectedNext := counter.nextValue, count := 1 } } } := by
  obtain rfl := h.accepted
  have hbehind := laterSteps_eq hstep
  have hfirst := firstTimedStep_eq hroute
    (Walk.behind_suffix (·.statusKey) route.steps step.statusKey).subset
  unfold run transition
  rw [h.route_eq hroute, ok_bind, h.status, hbehind, ok_bind, hfirst, ok_bind]
  -- no timed step is left, so the item ends at the last step of its route
  cases Walk.fromFirst (isTimed c.state.aggregate.blueprint)
    (Walk.behind (·.statusKey) route.steps step.statusKey) with
  | nil =>
    simp only [List.head?_nil]
    cases (Walk.behind (·.statusKey) route.steps step.statusKey).getLast? with
    | none => simp
    | some terminal =>
      simp only [bind_eq_ok, validated_eq_ok, WorkItemState.validate_eq_ok, pure_eq_ok,
        Option.some.injEq]
      constructor
      · rintro ⟨done, ⟨hvalid, rfl⟩, rfl⟩
        exact ⟨terminal, rfl, hvalid.status, rfl, rfl⟩
      · rintro ⟨terminal', rfl, hstatus, hwork, hnext⟩
        refine ⟨_, ⟨(doneWork_valid h.valid h.created).mpr hstatus, rfl⟩, ?_⟩
        cases t
        simp only at hwork hnext
        rw [hwork, hnext]
        rfl
  | cons next rest =>
    simp only [List.head?_cons, bind_eq_ok, validated_eq_ok, WorkItemState.validate_eq_ok,
      pure_eq_ok]
    constructor
    · rintro ⟨counter, hcounter, work, ⟨hvalid, rfl⟩, pair, hpair, claim, hclaim, rfl⟩
      -- the ordinal of an enterable visit can be claimed
      have hsafe := (EntersVisit.enterable hpair).safe
      rw [claim_one_isOk hsafe, Except.ok.injEq] at hclaim
      subst hclaim
      exact ⟨counter, pair.1, pair.2, hcounter, hvalid.status, hpair, rfl⟩
    · rintro ⟨counter, visit, sample, hcounter, hstatus, hpair, rfl⟩
      have hsafe := (EntersVisit.enterable hpair).safe
      exact ⟨counter, hcounter, _, ⟨(movedWork_valid h.valid h.created).mpr hstatus, rfl⟩,
        (visit, sample), hpair, _, claim_one_isOk hsafe, rfl⟩

/-- A completion with a timed step behind moves the item there exactly when it can be entered. -/
theorem At.moves_iff (h : c.At blueprint route step) (hroute : route ∈ blueprint.workflow.routes)
    (hstep : step ∈ route.steps) {next : WorkflowRouteStep} {rest : List WorkflowRouteStep}
    (hnext : Walk.fromFirst (isTimed blueprint)
      (Walk.behind (·.statusKey) route.steps step.statusKey) = next :: rest) :
    (∃ t, c.run = .ok t ∧ c.Moves next t) ↔ c.CanMove blueprint next := by
  have hteam : SampledTeam blueprint (movedWork c.work next.statusKey c.closedAt) :=
    { h.team with team := h.team.team }
  constructor
  · rintro ⟨t, hrun, -⟩
    rw [h.run_eq hroute hstep, hnext] at hrun
    obtain ⟨counter, visit, sample, hcounter, -, hpair, -⟩ := hrun
    exact ⟨counter, hcounter, EntersVisit.enterable hpair⟩
  · rintro ⟨counter, hcounter, henterable⟩
    have hvalid := (movedWork_valid h.valid h.created).mpr henterable.status
    obtain ⟨visit, sample, hpair⟩ := henterable.newSampledVisit_isOk hvalid rfl hteam
    have henters := newSampledVisit_eq_ok hpair
    obtain ⟨t, ht⟩ : ∃ t : Transition, t = {
        work := movedWork c.work next.statusKey c.closedAt
        next := some { visit, sample, claim :=
          { scope := counter.scope, expectedNext := counter.nextValue, count := 1 } } } :=
      ⟨_, rfl⟩
    refine ⟨t, (h.run_eq hroute hstep).mpr ?_, ?_⟩
    · rw [hnext]
      exact ⟨counter, visit, sample, hcounter, henterable.status, hpair, ht⟩
    · subst ht
      exact ⟨rfl, _, rfl, henters.lifecycle_eq, henters.statusKey_eq⟩

/-- It ends the route at the last of them, when the text of its status can be stored. -/
theorem At.ends_iff (h : c.At blueprint route step) (hroute : route ∈ blueprint.workflow.routes)
    (hstep : step ∈ route.steps) (hnext : Walk.fromFirst (isTimed blueprint)
      (Walk.behind (·.statusKey) route.steps step.statusKey) = []) {terminal : WorkflowRouteStep}
    (hlast : (Walk.behind (·.statusKey) route.steps step.statusKey).getLast? = some terminal) :
    (∃ t, c.run = .ok t ∧ c.Ends terminal t) ↔ isCanonicalText terminal.statusKey = true := by
  constructor
  · rintro ⟨t, hrun, -⟩
    rw [h.run_eq hroute hstep, hnext] at hrun
    obtain ⟨terminal', hlast', hstatus, -⟩ := hrun
    rw [hlast, Option.some.injEq] at hlast'
    exact hlast' ▸ hstatus
  · intro hstatus
    obtain ⟨t, ht⟩ : ∃ t, c.Ends terminal t := ⟨{ work := _, next := none }, rfl, rfl⟩
    refine ⟨t, (h.run_eq hroute hstep).mpr ?_, ht⟩
    rw [hnext]
    exact ⟨terminal, hlast, hstatus, ht⟩

end spec

end RouteCompletion

/-! ### Routes -/

section routes

variable (blueprint : ResolvedTeamBlueprint) (route : WorkflowRoute)

/-- The rest of the route from the step that an item reaches by its first `k` completions. -/
def stepsFrom (k : ℕ) : List WorkflowRouteStep :=
  Walk.position (·.statusKey) (isTimed blueprint) route.steps k

/-- The number of timed steps of the route. -/
def timedSteps : ℕ :=
  (route.steps.filter (isTimed blueprint)).length

/-- Every completion moves the item to a strictly later step, without raising, and after at most as
many completions as the route has timed steps the item is done in the last step. -/
def RouteLaw (completions : ℕ → RouteCompletion p) : Prop :=
  ∀ k step rest, stepsFrom blueprint route k = step :: rest →
    k < timedSteps blueprint route ∧
    match stepsFrom blueprint route (k + 1) with
    | next :: rest' => rest'.length < rest.length ∧
        ∃ t, (completions k).run = .ok t ∧ (completions k).Moves next t
    | [] => ∃ terminal, rest.getLast? = some terminal ∧
        ∃ t, (completions k).run = .ok t ∧ (completions k).Ends terminal t

/-- No timed step repeats the status of an earlier step, and the last step is not timed. -/
structure RouteOpen : Prop where
  forward : Walk.Forward (·.statusKey) (isTimed blueprint) route.steps
  ends : ∀ before step, route.steps = before ++ [step] → isTimed blueprint step = false

/-- Every next visit can be entered, and the status of the last step can be stored. -/
def RouteEnterable (completions : ℕ → RouteCompletion p) : Prop :=
  ∀ k step rest, stepsFrom blueprint route k = step :: rest →
    match stepsFrom blueprint route (k + 1) with
    | next :: _ => (completions k).CanMove blueprint next
    | [] => ∀ terminal, rest.getLast? = some terminal → isCanonicalText terminal.statusKey = true

variable {blueprint route}

/-- A timed step of an open route has a step behind it. -/
theorem RouteOpen.rest_ne_nil (h : RouteOpen blueprint route) {k : ℕ} {step : WorkflowRouteStep}
    {rest : List WorkflowRouteStep} (hk : stepsFrom blueprint route k = step :: rest) :
    rest ≠ [] := by
  rintro rfl
  obtain ⟨before, hsteps⟩ := Walk.position_suffix (·.statusKey) (isTimed blueprint) route.steps k
  have htimed := Walk.stops_of_position hk
  unfold stepsFrom at hk
  rw [hk] at hsteps
  rw [h.ends before step hsteps.symm] at htimed
  cases htimed

theorem RouteOpen.behind_eq (h : RouteOpen blueprint route) {k : ℕ} {step : WorkflowRouteStep}
    {rest : List WorkflowRouteStep} (hk : stepsFrom blueprint route k = step :: rest) :
    Walk.behind (·.statusKey) route.steps step.statusKey = rest := by
  obtain ⟨before, hsteps⟩ := Walk.position_suffix (·.statusKey) (isTimed blueprint) route.steps k
  have htimed := Walk.stops_of_position hk
  unfold stepsFrom at hk
  rw [hk] at hsteps
  exact Walk.behind_of_first hsteps.symm (h.forward before step rest hsteps.symm htimed)

/-- Each completion uses up one timed step. -/
theorem RouteOpen.lt_timedSteps (h : RouteOpen blueprint route) {k : ℕ} {step : WorkflowRouteStep}
    {rest : List WorkflowRouteStep} (hk : stepsFrom blueprint route k = step :: rest) :
    k < timedSteps blueprint route := by
  unfold stepsFrom at hk
  have hcount := h.forward.count_position (n := k) (by rw [hk]; exact List.cons_ne_nil _ _)
  rw [hk, List.filter_cons_of_pos (Walk.stops_of_position hk), List.length_cons] at hcount
  unfold timedSteps
  omega

theorem mem_of_stepsFrom {k : ℕ} {step : WorkflowRouteStep} {rest : List WorkflowRouteStep}
    (hk : stepsFrom blueprint route k = step :: rest) : step ∈ route.steps :=
  (Walk.position_suffix (·.statusKey) (isTimed blueprint) route.steps k).subset
    (by unfold stepsFrom at hk; rw [hk]; exact List.mem_cons_self)

theorem stepsFrom_succ {k : ℕ} {step : WorkflowRouteStep} {rest : List WorkflowRouteStep}
    (hk : stepsFrom blueprint route k = step :: rest) : stepsFrom blueprint route (k + 1) =
      Walk.fromFirst (isTimed blueprint)
        (Walk.behind (·.statusKey) route.steps step.statusKey) :=
  Walk.position_succ hk

/-- A walk that never raises and always moves on goes forward, and does not end in a timed step. -/
theorem RouteLaw.open {completions : ℕ → RouteCompletion p}
    (h : RouteLaw blueprint route completions) : RouteOpen blueprint route := by
  have hadvances : Walk.Advances (·.statusKey) (isTimed blueprint) route.steps := by
    intro k step rest hk
    have hlaw := (h k step rest hk).2
    show (stepsFrom blueprint route (k + 1)).length ≤ rest.length
    cases hnext : stepsFrom blueprint route (k + 1) with
    | nil => exact Nat.zero_le _
    | cons next rest' =>
      rw [hnext] at hlaw
      exact hlaw.1
  refine ⟨Walk.forward_iff.mpr hadvances, ?_⟩
  intro before step hsteps
  by_contra htimed
  rw [Bool.not_eq_false] at htimed
  obtain ⟨k, hk⟩ := hadvances.exists_position hsteps htimed
  have hlaw := (h k step [] hk).2
  cases hnext : stepsFrom blueprint route (k + 1) with
  | nil =>
    rw [hnext] at hlaw
    obtain ⟨terminal, hlast, -⟩ := hlaw
    cases hlast
  | cons next rest' =>
    rw [hnext] at hlaw
    exact absurd hlaw.1 (Nat.not_lt_zero _)

/-- The completions of an item make progress along its route exactly when no timed step of the route
repeats the status of an earlier step, the last step is not timed, and the next visits can be
entered. -/
theorem route_progress (hroute : route ∈ blueprint.workflow.routes)
    (completions : ℕ → RouteCompletion p)
    (hat : ∀ k step rest, stepsFrom blueprint route k = step :: rest →
      (completions k).At blueprint route step) :
    RouteLaw blueprint route completions ↔
      RouteOpen blueprint route ∧ RouteEnterable blueprint route completions := by
  constructor
  · intro h
    -- each completion is entered or ends the route, so each is asked in turn
    have hopen := h.open
    refine ⟨hopen, fun k step rest hk => ?_⟩
    have hlaw := (h k step rest hk).2
    have hnext := stepsFrom_succ hk
    have hc := hat k step rest hk
    cases hsteps : stepsFrom blueprint route (k + 1) with
    | nil =>
      intro terminal hlast
      rw [hsteps] at hlaw hnext
      obtain ⟨terminal', hlast', hends⟩ := hlaw
      rw [hlast, Option.some.injEq] at hlast'
      subst hlast'
      rw [← hopen.behind_eq hk] at hlast
      exact (hc.ends_iff hroute (mem_of_stepsFrom hk) hnext.symm hlast).mp hends
    | cons next rest' =>
      rw [hsteps] at hlaw hnext
      exact (hc.moves_iff hroute (mem_of_stepsFrom hk) hnext.symm).mp hlaw.2
  · rintro ⟨hopen, henterable⟩ k step rest hk
    have hallowed := henterable k step rest hk
    have hnext := stepsFrom_succ hk
    have hc := hat k step rest hk
    refine ⟨hopen.lt_timedSteps hk, ?_⟩
    cases hsteps : stepsFrom blueprint route (k + 1) with
    | nil =>
      rw [hsteps] at hallowed hnext
      obtain ⟨terminal, hlast⟩ := Option.ne_none_iff_exists'.mp
        (mt List.getLast?_eq_none_iff.mp (hopen.rest_ne_nil hk))
      refine ⟨terminal, hlast, (hc.ends_iff hroute (mem_of_stepsFrom hk) hnext.symm ?_).mpr
        (hallowed terminal hlast)⟩
      rw [hopen.behind_eq hk]
      exact hlast
    | cons next rest' =>
      rw [hsteps] at hallowed hnext
      refine ⟨?_, (hc.moves_iff hroute (mem_of_stepsFrom hk) hnext.symm).mpr hallowed⟩
      rw [hopen.behind_eq hk] at hnext
      have hlength : (Walk.fromFirst (isTimed blueprint) rest).length ≤ rest.length :=
        Walk.fromFirst_suffix.length_le
      rw [← hnext, List.length_cons] at hlength
      exact hlength

end routes

/-! ### The route of the small team -/

/-- The route from the backlog over development and two reviews. -/
def smallRoute : WorkflowRoute where
  issueType := .STORY
  steps := [⟨"BACKLOG", none⟩, ⟨"DEV", some "develop"⟩, ⟨"CODE_REVIEW", some "develop"⟩,
    ⟨"QA", some "develop"⟩, ⟨"DONE", none⟩]

theorem smallRoute_open : RouteOpen rejectingBlueprint smallRoute where
  forward := Walk.forward_of_nodup (by decide)
  ends before step hsteps := by
    have hlast := congrArg List.getLast? hsteps
    rw [List.getLast?_append, List.getLast?_singleton, Option.some_or] at hlast
    cases hlast
    decide +kernel

/-- The completions of an item that keeps its rows and closes its visit in each reached step. -/
def smallCompletions (state : LiveTeamState utcPlatform) (work : WorkItemState)
    (visit : StatusVisitState) (k : ℕ) : RouteCompletion utcPlatform where
  state := state
  work := work
  closed := { visit with
    statusKey := ((stepsFrom rejectingBlueprint smallRoute k).head?.map (·.statusKey)).getD "" }
  closedAt := firstMonday

/-- The completions of the first item of the small team make progress along its route. -/
theorem route_progress_smallTeam :
    ∃ completions : ℕ → RouteCompletion utcPlatform,
      (∀ k, (completions k).state.aggregate.blueprint = rejectingBlueprint) ∧
      RouteLaw rejectingBlueprint smallRoute completions := by
  obtain ⟨result, h⟩ := exists_of_succeeds (do
    let store ← runTeam utcPlatform (startAfter rejectingBlueprint 0) []
    let visit ← getIndex store.scrum.openVisits 0
    let work ← getItem (·.id) store.scrum.workItems visit.workItemId
    require (work.issueType = .STORY ∧ work.teamId = .team rejectingBlueprint.sha256 ∧
      work.createdAt ≤ firstMonday) ""
    let counter ← next (fun item => item.scope = .visitOrdinal work.id) store.scrum.semanticCounters
    let review ← newSampledVisit utcPlatform rejectingBlueprint
      (movedWork work "CODE_REVIEW" firstMonday) ⟨"CODE_REVIEW", some "develop"⟩ counter.nextValue
      firstMonday (seededDraws utcPlatform rejectingBlueprint work)
    let qa ← newSampledVisit utcPlatform rejectingBlueprint
      (movedWork work "QA" firstMonday) ⟨"QA", some "develop"⟩ counter.nextValue
      firstMonday (seededDraws utcPlatform rejectingBlueprint work)
    return ()) (by decide +kernel)
  simp only [bind_eq_ok, exists_unit, require_eq_ok] at h
  obtain ⟨store, -, visit, -, work, hwork, ⟨htype, hteam, hcreated⟩, counter, hcounter, review,
    hreview, qa, hqa, -⟩ := h
  -- the completed visits are those of the first item of a bootstrapped team
  let state : LiveTeamState utcPlatform :=
    { aggregate := newAggregate "key" rejectingBlueprint firstMonday, scrum := store.scrum }
  have hat : ∀ k step rest, stepsFrom rejectingBlueprint smallRoute k = step :: rest →
      (smallCompletions state work visit k).At rejectingBlueprint smallRoute step := by
    intro k step rest hk
    exact {
      accepted := rfl
      issueType := htype.symm
      status := by unfold smallCompletions; rw [hk]; rfl
      valid := store.scrum.complete.workItem_valid (getItem_eq_ok hwork).1
      team := ⟨hteam, by decide, by decide, by decide +kernel, by decide⟩
      created := hcreated }
  -- the route has three timed steps, and the last of them ends it
  have henterable : RouteEnterable rejectingBlueprint smallRoute
      (smallCompletions state work visit) := by
    intro k step rest hk
    have hlt := smallRoute_open.lt_timedSteps hk
    have hcount : timedSteps rejectingBlueprint smallRoute = 3 := by decide +kernel
    rw [hcount] at hlt
    obtain rfl | rfl | rfl : k = 0 ∨ k = 1 ∨ k = 2 := by omega
    · exact ⟨counter, hcounter, EntersVisit.enterable hreview⟩
    · exact ⟨counter, hcounter, EntersVisit.enterable hqa⟩
    · have hsteps : stepsFrom rejectingBlueprint smallRoute 2 =
          [⟨"QA", some "develop"⟩, ⟨"DONE", none⟩] := by decide +kernel
      rw [hsteps, List.cons.injEq] at hk
      obtain ⟨-, rfl⟩ := hk
      intro terminal hlast
      cases hlast
      decide
  exact ⟨_, fun _ => rfl,
    (route_progress List.mem_cons_self _ hat).mpr ⟨smallRoute_open, henterable⟩⟩

/-! ### A route that ends in a timed step -/

/-- The small team on a route from the backlog to development. -/
def endingDocument : BlueprintDocument :=
  let document := smallDocument [rejectionRule] 0 0 0
  { document with workflow := { document.workflow with
      routes := [{ issueType := .STORY, steps := [⟨"BACKLOG", none⟩, ⟨"DEV", some "develop"⟩] }] } }

theorem endingDocument_accepted : endingDocument.validate = .ok () := by
  decide +kernel

def endingBlueprint : ResolvedTeamBlueprint where
  toBlueprintDocument := endingDocument
  accepted := endingDocument_accepted

/-- The completion of a visit in the last step of its route raises, and so does the tick. -/
theorem timedEnd_raises :
    ∃ store, runTeam utcPlatform (startAfter endingBlueprint 0) [] = .ok store ∧
      (∃ work ∈ store.scrum.workItems, ∃ visit ∈ store.scrum.openVisits,
        visit.workItemId = work.id ∧
        transition store.state work (closedVisit visit firstMonday) firstMonday
          (teamDraws utcPlatform endingBlueprint) = .error .indexError) ∧
      calculateScrumTick store.state (requestUntil endingBlueprint 1)
        (teamDraws utcPlatform endingBlueprint) = .error .indexError := by
  obtain ⟨result, h⟩ := exists_of_succeeds (do
    let store ← runTeam utcPlatform (startAfter endingBlueprint 0) []
    let visit ← getIndex store.scrum.openVisits 0
    let work ← getItem (·.id) store.scrum.workItems visit.workItemId
    require (errorOf (transition store.state work (closedVisit visit firstMonday) firstMonday
      (teamDraws utcPlatform endingBlueprint)) = some .indexError) ""
    require (errorOf (calculateScrumTick store.state (requestUntil endingBlueprint 1)
      (teamDraws utcPlatform endingBlueprint)) = some .indexError) "") (by decide +kernel)
  simp only [bind_eq_ok, exists_unit, require_eq_ok, errorOf_eq_some, getIndex_eq_ok] at h
  obtain ⟨store, hrun, visit, hvisit, work, hwork, htransition, htick⟩ := h
  obtain ⟨hmem, hid⟩ := getItem_eq_ok hwork
  exact ⟨store, hrun, ⟨work, hmem, visit, List.mem_of_getElem? hvisit, hid.symm, htransition⟩, htick⟩

end JiraSimulator
