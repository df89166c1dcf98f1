import JiraSimulator.Correctness.IntentRedelivery

/-!
# The status that a delivered transition reaches

Jira offers the transitions of an issue in an order of its own, each with a name and the status it
leads to.  The adapter takes the first one that leads to the target or is called like it.

* `run_requestTransition`: the matched transition is made, and nothing else.
* `transition_reaches`: the issue ends in the target exactly when it is there already or the first
  match leads to it.
-/

namespace JiraSimulator

open Library.Redelivery Library.Redelivery.Script

/-! ### An issue in Jira -/

/-- A transition that Jira offers for an issue. -/
structure OfferedTransition where
  id : String
  name : String
  destination : String
  deriving DecidableEq, Repr

/-- The document of a transition. -/
def OfferedTransition.shown (item : OfferedTransition) : JiraTransition where
  id := some item.id
  name := some item.name
  toName := .ok (some item.destination)

/-- The transition leads to the status or is called like it. -/
def OfferedTransition.isMatch (target : String) (item : OfferedTransition) : Bool :=
  item.destination = target || item.name = target

/-- Jira answers the requests about an issue: it shows the status and the transitions, and an
offered transition moves the issue to its destination. -/
structure ServesIssue {σ : Type} (jira : JiraService σ) (issueKey : String) (status : σ → String)
    (offered : σ → List OfferedTransition) : Prop where
  issue : ∀ s, run jira (JiraClient.getIssue issueKey) s = (.ok (.ok (some (status s))), s)
  transitions : ∀ s, run jira (JiraClient.getIssueTransitions issueKey) s =
    (.ok ((offered s).map OfferedTransition.shown), s)
  transition : ∀ s, ∀ item ∈ offered s, ∃ s',
    run jira (JiraClient.transitionIssue issueKey item.id) s = (.ok (), s') ∧
      status s' = item.destination

/-- The intent asks for a status of an issue that has a key in Jira. -/
structure AsksFor (library : TextLibrary) (mappings : MappingReader) (intent : JiraIntent)
    (payload : JsonObject) (issueKey target : String) : Prop where
  issue : ∃ issueUuid mapping, uuidField library payload "issue_id" none = .ok issueUuid ∧
    requiredMapping library mappings intent "ISSUE" issueUuid = .ok mapping ∧
    mapping.jiraKey = some issueKey
  status : stringField payload "status" = .ok target

variable {σ : Type} {jira : JiraService σ} {issueKey target : String} {status : σ → String}
  {offered : σ → List OfferedTransition} {library : TextLibrary} {mappings : MappingReader}
  {intent : JiraIntent} {payload : JsonObject}

/-! ### The matched transition -/

theorem matchTransition_shown (target : String) (items : List OfferedTransition) :
    matchTransition target (items.map OfferedTransition.shown) =
      match items.find? (OfferedTransition.isMatch target) with
      | some item => .ok item.shown
      | none => .error (.provider ("no Jira transition reaches " ++ target)) := by
  induction items with
  | nil => rfl
  | cons item rest ih =>
    have hstep : matchTransition target ((item :: rest).map OfferedTransition.shown) =
        if some item.destination = some target ∨ some item.name = some target then .ok item.shown
        else matchTransition target (rest.map OfferedTransition.shown) := rfl
    rw [hstep, List.find?_cons]
    by_cases hmatch : item.destination = target ∨ item.name = target
    · have hfound : item.isMatch target = true := by
        simpa [OfferedTransition.isMatch] using hmatch
      rw [if_pos (by simpa using hmatch), hfound]
    · have hmissed : item.isMatch target = false := by
        simpa [OfferedTransition.isMatch] using hmatch
      rw [if_neg (by simpa using hmatch), ih, hmissed]

theorem run_requestTransition (h : ServesIssue jira issueKey status offered) (s : σ) :
    match (offered s).find? (OfferedTransition.isMatch target) with
    | some item => ∃ s', run jira (requestTransition issueKey target) s = (.ok [], s') ∧
        status s' = item.destination
    | none => ∃ error, run jira (requestTransition issueKey target) s = (.error error, s) := by
  have hmatched : run jira (requestTransition issueKey target) s = _ :=
    run_bind_of_ok (h.transitions s)
  have hsearch := matchTransition_shown target (offered s)
  cases hfind : (offered s).find? (OfferedTransition.isMatch target) with
  | none =>
    rw [hfind] at hsearch
    rw [hsearch] at hmatched
    exact ⟨_, hmatched⟩
  | some item =>
    rw [hfind] at hsearch
    rw [hsearch] at hmatched
    obtain ⟨s', hdone, hstatus⟩ := h.transition s item (List.mem_of_find?_eq_some hfind)
    exact ⟨s', hmatched.trans (run_bind_of_ok hdone), hstatus⟩

/-- Without its lookups in the store, the operation moves the issue. -/
theorem run_transitionIssue (h : AsksFor library mappings intent payload issueKey target) (s : σ) :
    run jira (transitionIssue library mappings intent payload) s =
      run jira (moveIssue issueKey target) s := by
  obtain ⟨issueUuid, mapping, hissue, hmapping, hkey⟩ := h.issue
  unfold transitionIssue
  rw [run_bind_of_ok (run_lift.trans (by rw [hissue])),
    run_bind_of_ok (run_lift.trans (by rw [hmapping]))]
  simp only [hkey]
  rw [run_bind_of_ok (run_lift.trans (by rw [h.status]))]
  rfl

/-! ### The target -/

/-- A delivery that succeeds leaves the issue in the target, and a delivery succeeds when some
transition leads there. -/
structure ReachesTarget (library : TextLibrary) (jira : JiraService σ) (mappings : MappingReader)
    (intent : JiraIntent) (payload : JsonObject) (status : σ → String)
    (offered : σ → List OfferedTransition) (target : String) (s : σ) : Prop where
  reaches : ∀ result s',
    run jira (transitionIssue library mappings intent payload) s = (.ok result, s') →
    status s' = target
  succeeds : (∃ item ∈ offered s, item.destination = target) → ∃ result s',
    run jira (transitionIssue library mappings intent payload) s = (.ok result, s')

/-- The issue is in the target already, or the first transition that leads to the target or is
called like it leads to the target. -/
def FirstMatchLeads (offered : List OfferedTransition) (status target : String) : Prop :=
  status = target ∨
    ∀ item, offered.find? (OfferedTransition.isMatch target) = some item →
      item.destination = target

instance (offered : List OfferedTransition) (status target : String) :
    Decidable (FirstMatchLeads offered status target) :=
  match h : offered.find? (OfferedTransition.isMatch target) with
  | none => .isTrue (.inr fun _ hitem => by
    cases h.symm.trans hitem)
  | some found =>
    decidable_of_iff (status = target ∨ found.destination = target)
      (or_congr_right ⟨fun hleads _ hitem => Option.some.inj (h.symm.trans hitem) ▸ hleads,
        fun hleads => hleads found h⟩)

theorem transition_reaches (hjira : ServesIssue jira issueKey status offered)
    (hasks : AsksFor library mappings intent payload issueKey target) (s : σ) :
    ReachesTarget library jira mappings intent payload status offered target s ↔
      FirstMatchLeads (offered s) (status s) target := by
  have hmove := (run_transitionIssue hasks s).trans (run_moveIssue (hjira.issue s))
  by_cases hcurrent : status s = target
  · -- nothing is requested of an issue that is in the target
    rw [if_pos (by rw [hcurrent])] at hmove
    refine iff_of_true ⟨fun result s' hrun => ?_, fun _ => ⟨[], s, hmove⟩⟩ (.inl hcurrent)
    obtain ⟨-, rfl⟩ := Prod.mk.inj (hmove.symm.trans hrun)
    exact hcurrent
  rw [if_neg (by simpa using hcurrent)] at hmove
  have hrequest := @run_requestTransition _ _ _ target _ _ hjira s
  cases hfind : (offered s).find? (OfferedTransition.isMatch target) with
  -- with no match the run fails, and no transition leads to the target
  | none =>
    simp only [hfind] at hrequest
    obtain ⟨error, hfails⟩ := hrequest
    have hleads : FirstMatchLeads (offered s) (status s) target := by
      refine .inr fun item hitem => ?_
      rw [hfind] at hitem
      cases hitem
    refine iff_of_true ⟨fun result s' hrun => ?_, fun ⟨item, hitem, hto⟩ => ?_⟩ hleads
    · cases (hmove.trans hfails).symm.trans hrun
    · have hmiss := List.find?_eq_none.mp hfind item hitem
      simp [OfferedTransition.isMatch, hto] at hmiss
  -- the first match is requested, and decides where the issue ends
  | some item =>
    simp only [hfind] at hrequest
    obtain ⟨s', hmoved, hstatus⟩ := hrequest
    have hrun := hmove.trans hmoved
    constructor
    · intro h
      refine .inr fun found hfound => ?_
      obtain rfl := Option.some.inj (hfind.symm.trans hfound)
      exact hstatus.symm.trans (h.reaches [] s' hrun)
    · intro hleads
      refine ⟨fun result t ht => ?_, fun _ => ⟨[], s', hrun⟩⟩
      obtain ⟨-, rfl⟩ := Prod.mk.inj (hrun.symm.trans ht)
      exact hstatus.trans (hleads.resolve_left hcurrent item hfind)

/-! ### A transition with a misleading name -/

/-- The transitions of an issue in review: the first one is called after the status that the second
one leads to. -/
def reviewTransitions : List OfferedTransition :=
  [{ id := "11", name := "Done", destination := "Awaiting release" },
    { id := "21", name := "Release", destination := "Done" }]

/-- A Jira with one issue; its state is the status of the issue. -/
def oneIssue : JiraService String
  | .getIssue _, status => (.ok (.ok (some status)), status)
  | .getIssueTransitions _, status =>
    (.ok (reviewTransitions.map OfferedTransition.shown), status)
  | .transitionIssue _ transitionId, status =>
    match reviewTransitions.find? fun item => item.id = transitionId with
    | some item => (.ok (), item.destination)
    | none => (.error (.api "Bad request"), status)
  | _, status => (.error (.api "Not found"), status)

theorem oneIssue_serves :
    ServesIssue oneIssue "ONE-1" (fun status => status) fun _ => reviewTransitions where
  issue _ := rfl
  transitions _ := rfl
  transition := by
    intro status item hitem
    simp only [reviewTransitions, List.mem_cons, List.not_mem_nil, or_false] at hitem
    rcases hitem with rfl | rfl
    · exact ⟨"Awaiting release", rfl, rfl⟩
    · exact ⟨"Done", rfl, rfl⟩

/-- A library that reads one identifier. -/
def storyText : TextLibrary where
  uuidText _ := "00000000-0000-0000-0000-000000000001"
  parseUuid _ := some (.team ⟨"story"⟩)
  parseDatetime _ := none
  parseInt _ := none
  lower text := text

def storyMappings : MappingReader := fun teamId internalKind internalId =>
  some { teamId, internalKind, internalId, jiraId := "10001", jiraKey := some "ONE-1" }

/-- The document of the intent that moves the story to a status. -/
def moveTo (status : String) : JsonObject :=
  [("depends_on", .array []), ("issue_id", .string "00000000-0000-0000-0000-000000000001"),
    ("status", .string status)]

theorem storyIntent_asksFor (status : String) (h : isNonEmptyText status = true) :
    AsksFor storyText storyMappings storyIntent (moveTo status) "ONE-1" status where
  issue := ⟨_, _, rfl, rfl, rfl⟩
  status := by
    show (if isNonEmptyText status then Except.ok status else _) = .ok status
    rw [if_pos h]

/-- The story reaches the status that the first transition leads to. -/
theorem transition_reaches_review :
    ReachesTarget storyText oneIssue storyMappings storyIntent (moveTo "Awaiting release")
      (fun status => status) (fun _ => reviewTransitions) "Awaiting release" "In review" :=
  (transition_reaches oneIssue_serves (storyIntent_asksFor "Awaiting release" (by decide))
    "In review").mpr (by decide)

/-- The story that should be done awaits its release, although a transition leads to done. -/
theorem transition_misses_target :
    ¬ ReachesTarget storyText oneIssue storyMappings storyIntent (moveTo "Done")
      (fun status => status) (fun _ => reviewTransitions) "Done" "In review" := by
  intro h
  have hrun : run oneIssue (transitionIssue storyText storyMappings storyIntent (moveTo "Done"))
      "In review" = (.ok [], "Awaiting release") := rfl
  have hstatus : "Awaiting release" = "Done" := h.reaches [] "Awaiting release" hrun
  exact absurd hstatus (by decide)

end JiraSimulator
