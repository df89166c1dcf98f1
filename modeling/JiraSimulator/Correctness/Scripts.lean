import JiraSimulator.Correctness.Runs

/-!
# Scripted runs

A script is a list of events; `runTeam` bootstraps a team and plays its script.  Every state that a
script reaches is reachable, so facts about all runs can be evaluated on a small team: one member,
one route from the backlog over development and two reviews, and no sampled durations.
-/

namespace JiraSimulator

open Library Library.Outcome Library.Transition

/-! ### Scripts -/

/-- The store after the bootstrap of a team and the events of a script. -/
def runTeam (p : Platform) (start : TeamStart) (events : List TeamEvent) : Result (TeamStore p) := do
  let store ← ensureBootstrapped (createdStore p start) start.startedAt
  events.foldlM stepTeam store

/-- The conditions hold at the start and at every event of the script. -/
def scriptMeets {p : Platform} (okStep : TeamStore p → TeamEvent → Prop) :
    TeamStore p → List TeamEvent → Prop
  | _, [] => True
  | store, event :: events => okStep store event ∧
      ∀ store', stepTeam store event = .ok store' → scriptMeets okStep store' events

theorem reachableBy_of_foldlM {p : Platform} {okStart : TeamStart → Prop}
    {okStep : TeamStore p → TeamEvent → Prop} {store store' : TeamStore p} {events : List TeamEvent}
    (h : events.foldlM stepTeam store = .ok store') (hmeets : scriptMeets okStep store events)
    (hstore : (teamRuns p).ReachableBy okStart okStep store) :
    (teamRuns p).ReachableBy okStart okStep store' := by
  induction events generalizing store with
  | nil =>
    rw [List.foldlM_nil, pure_eq_ok] at h
    exact h ▸ hstore
  | cons event events ih =>
    simp only [List.foldlM_cons, bind_eq_ok] at h
    obtain ⟨next, hnext, h⟩ := h
    exact ih h (hmeets.2 next hnext) (.step hstore hmeets.1 hnext)

theorem scriptMeets_true {p : Platform} (store : TeamStore p) (events : List TeamEvent) :
    scriptMeets (fun _ _ => True) store events := by
  induction events generalizing store with
  | nil => trivial
  | cons event events ih => exact ⟨trivial, fun store' _ => ih store'⟩

/-- Every state that a script reaches is reachable. -/
theorem reachable_of_runTeam {p : Platform} {start : TeamStart} {events : List TeamEvent}
    {store : TeamStore p} (h : runTeam p start events = .ok store) :
    (teamRuns p).Reachable store := by
  simp only [runTeam, bind_eq_ok] at h
  obtain ⟨first, hfirst, h⟩ := h
  exact reachableBy_of_foldlM h (scriptMeets_true first events) (.start hfirst trivial)

/-- A tick that crosses no sprint boundary, with its advance. -/
def playTick {p : Platform} (store : TeamStore p) (request : TickRequest) (draws : DrawSource) :
    Result (RiskAdvance p × TeamStore p) := do
  let transition ← crossSprintBoundary store.state (cursor store.state)
  require (transition.activity = []) "the tick crosses a boundary"
  let advance ← tickAdvance store.state request draws
  let store' ← stepTeam store (.tick request draws)
  return (advance, store')

theorem playTick_eq_ok {p : Platform} {store : TeamStore p} {request : TickRequest}
    {draws : DrawSource} {result : RiskAdvance p × TeamStore p}
    (h : playTick store request draws = .ok result) :
    ProgressTick store request draws result.1 result.2 := by
  simp only [playTick, bind_eq_ok, exists_unit, require_eq_ok, pure_eq_ok] at h
  obtain ⟨transition, hcross, hactivity, advance, hadvance, store', hstep, rfl⟩ := h
  exact ⟨⟨transition, hcross, hactivity⟩, hadvance, hstep⟩

/-- Does the script run to its end? -/
def succeeds {α : Type} : Result α → Bool
  | .ok _ => true
  | .error _ => false

theorem exists_of_succeeds {α : Type} (result : Result α) (h : succeeds result = true) :
    ∃ a, result = .ok a := by
  cases result with
  | ok a => exact ⟨a, rfl⟩
  | error e => cases h

theorem exists_of_any {α : Type} {result : Result α} {holds : α → Bool}
    (h : result.toOption.any holds = true) : ∃ a, result = .ok a ∧ holds a = true := by
  cases result with
  | ok a => exact ⟨a, rfl, h⟩
  | error e => cases h

/-- The command of a tick after the events of a script, with the store that it was computed from. -/
def commandOfTick (p : Platform) (start : TeamStart) (events : List TeamEvent)
    (request : TickRequest) (draws : DrawSource) :
    Result (TeamStore p × AuthoritativeTickSliceCommit p) := do
  let store ← runTeam p start events
  let command ← calculateScrumTick store.state request draws
  return (store, command)

/-- The exception that a computation raises. -/
def errorOf {α : Type} : Result α → Option PyError
  | .ok _ => none
  | .error error => some error

theorem errorOf_eq_some {α : Type} {result : Result α} {error : PyError} :
    errorOf result = some error ↔ result = .error error := by
  cases result with
  | ok a => simp [errorOf]
  | error e => simp [errorOf]

/-! ### A small team -/

/-- The number of a sequence or an ordinal, under its owner. -/
def uuidNumber : Uuid → ℕ
  | .member _ index => index
  | .item _ _ sequence => sequence
  | .visit item ordinal => 1000 * uuidNumber item + ordinal
  | .sprint _ ordinal => ordinal
  | _ => 0

/-- A platform in UTC whose draws are all zero. -/
def utcPlatform : Platform where
  hmacFirstWord _ _ _ := 0
  timeZone _ := some { utcOffset := fun _ _ => 0, fromUtc := fun instant => (instant, false) }
  uuidInt := uuidNumber
  log _ := 0
  exp _ := some 1
  log1p x := x
  expm1 x := x
  floatSum values := values.sum
  floatOfText _ := none

/-- A status without a paused clock. -/
def plainStatus (key jiraName : String) (activities : List String) : WorkflowStatus where
  key := key
  jiraName := jiraName
  category := .TODO
  activities := activities
  consumesCapacity := activities ≠ []
  pausesServiceClock := false

/-- A timing cell with a fixed dwell time and no touch time. -/
def dwellTiming (statusKey : String) (hours : ℚ) : TimingEntry where
  statusKey := statusKey
  issueType := .STORY
  storyPoints := 1
  min := hours
  p25 := hours
  p50 := hours
  p99 := hours
  max := hours
  touchMin := 0
  touchMax := 0

/-- The rule that sends every rejected review back to development. -/
def rejectionRule : RiskRule where
  key := "REVIEW_REJECTION"
  trigger := "STATUS_EXITED"
  baseProbability := 1
  coefficients := []
  clamp := ⟨0, 1⟩
  mechanicalParameters := [("return_status", .str "DEV")]

/-- The rule that cancels every active item at the start of a workday. -/
def cancellationRule : RiskRule where
  key := "CANCELLATION"
  trigger := "WORKDAY_STARTED"
  baseProbability := 1
  coefficients := []
  clamp := ⟨0, 1⟩
  mechanicalParameters := [("target_status", .str "DONE")]

/-- The start of the first sprint: a Monday at nine. -/
def firstMonday : ℤ := 19723 * microsecondsPerDay + 9 * microsecondsPerHour

/-- A team of one member with stories of one point and the given dwell times. -/
def smallDocument (rules : List RiskRule) (dev review qa : ℚ) : BlueprintDocument where
  canonicalDocument := "small"
  team := { name := "Team", methodology := "SCRUM", timezone := "UTC" }
  jira := { projectName := "Project", projectKey := "P" }
  calendar := {
    workingWeekdays := [.MON, .TUE, .WED, .THU, .FRI], workdayStart := 540, workdayEnd := 1020
    holidayCalendarProfile := "none", holidayCalendarVersion := "1"
    holidayHorizonEnd := 100000, holidays := [] }
  members := [{
    name := "Member", roles := ["Developer"], dailyCapacityHours := 8, maxConcurrentWip := 2
    responsibilities := [{ activity := "develop", proficiency := 1 }], availability := [] }]
  workflow := {
    statuses := [
      plainStatus "BACKLOG" "Backlog" [], plainStatus "DEV" "In Development" ["develop"],
      plainStatus "CODE_REVIEW" "Code Review" ["develop"], plainStatus "QA" "QA" ["develop"],
      plainStatus "DONE" "Done" []]
    routes := [{ issueType := .STORY, steps := [
      ⟨"BACKLOG", none⟩, ⟨"DEV", some "develop"⟩, ⟨"CODE_REVIEW", some "develop"⟩,
      ⟨"QA", some "develop"⟩, ⟨"DONE", none⟩] }] }
  timing := {
    profileName := "timing", profileVersion := 1, algorithmVersion := "1"
    entries := [
      dwellTiming "DEV" dev, dwellTiming "CODE_REVIEW" review, dwellTiming "QA" qa] }
  backlog := {
    targetDepth := 2, issueTypeWeights := [(.STORY, 1)], storyPointWeights := [(1, 1)]
    priorityWeights := [("HIGH", 1)] }
  risks := { profileName := "risks", profileVersion := 1, algorithmVersion := "1", rules := rules }
  scrum := {
    cadenceDays := 14, firstBoundary := firstMonday, capacityMinPoints := 1
    capacityMaxPoints := 2, carryoverPolicyVersion := "1" }
  seed := "seed"

theorem smallDocument_rejecting : (smallDocument [rejectionRule] 0 0 0).validate = .ok () := by
  decide +kernel

/-- The small team, with every review rejected. -/
def rejectingBlueprint : ResolvedTeamBlueprint where
  toBlueprintDocument := smallDocument [rejectionRule] 0 0 0
  accepted := smallDocument_rejecting

/-- The small team, started some hours after its first boundary. -/
def startAfter (blueprint : ResolvedTeamBlueprint) (hours : ℤ) : TeamStart :=
  let startedAt := firstMonday + hours * microsecondsPerHour
  { idempotencyKey := "key", blueprint, requestedAt := startedAt, startedAt }

/-- A request for a tick that ends some hours after the first boundary. -/
def requestUntil (blueprint : ResolvedTeamBlueprint) (hours : ℤ) : TickRequest :=
  let endsAt := firstMonday + hours * microsecondsPerHour
  { teamId := .team blueprint.sha256, endsAt, recordedAt := endsAt }

/-- The seeded draws of the team. -/
def teamDraws (p : Platform) (blueprint : ResolvedTeamBlueprint) : DrawSource :=
  let team : Uuid := .team blueprint.sha256
  (DeterministicRandomStream.mk blueprint.seed team (.run team 0)).draw p

/-- The command of the first tick of a team of the given blueprint, for one hour. -/
def firstTick (p : Platform) (blueprint : ResolvedTeamBlueprint) :
    Result (TeamStore p × AuthoritativeTickSliceCommit p) :=
  commandOfTick p (startAfter blueprint 0) [] (requestUntil blueprint 1) (teamDraws p blueprint)

/-- A tick with the seeded draws that is asked to end some hours after the first boundary. -/
def tickUntil (p : Platform) (blueprint : ResolvedTeamBlueprint) (hours : ℤ) : TeamEvent :=
  .tick (requestUntil blueprint hours) (teamDraws p blueprint)

end JiraSimulator
