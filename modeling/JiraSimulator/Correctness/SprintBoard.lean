import JiraSimulator.Correctness.Provisioning
import JiraSimulator.Correctness.SprintTimeline
import JiraSimulator.Library.Replay

/-!
# The board that the intents describe

Jira learns of the sprints only through the intents of the ledger.  `JiraBoard` is what they
describe: the projects, boards, issues and sprints that they create, with the phase and the scope of
every sprint.  A board refuses what Jira would refuse: a project, board, issue or sprint that it
has already, an issue or sprint that it does not know, and a second active sprint.  The ledger of
every reachable store is replayed without a refusal, and the board shows the sprints of the
simulator.

* `JiraBoard.replay_begin`: a sprint is created, scoped and started.
* `Mirrors.crosses_activation`, `Mirrors.crosses_rollover`: the boundaries of the sprints.
* `board_mirrors_sprints`: the board of every reachable store.
-/

namespace JiraSimulator

open Library Library.Outcome Library.Replay Library.Transition ScrumCollections

variable {p : Platform}

/-! ### Boards -/

inductive SprintPhase where
  | FUTURE
  | ACTIVE
  | CLOSED
  deriving DecidableEq, Repr

structure BoardSprint where
  id : Uuid
  phase : SprintPhase
  startAt : ℤ
  endAt : ℤ
  issues : List Uuid
  deriving DecidableEq, Repr

structure JiraBoard where
  projects : List String := []
  boards : List String := []
  issues : List Uuid := []
  sprints : List BoardSprint := []
  deriving DecidableEq, Repr

namespace JiraBoard

def sprint? (board : JiraBoard) (id : Uuid) : Option BoardSprint :=
  Keyed.lookup BoardSprint.id board.sprints id

def put (board : JiraBoard) (sprint : BoardSprint) : JiraBoard :=
  { board with sprints := Keyed.assign BoardSprint.id board.sprints sprint }

/-- Change a sprint that is in the given phase. -/
def change (board : JiraBoard) (id : Uuid) (phase : SprintPhase)
    (update : BoardSprint → BoardSprint) : Option JiraBoard :=
  match board.sprint? id with
  | some sprint => if sprint.phase = phase then some (board.put (update sprint)) else none
  | none => none

/-- The board after an intent, or none when it refuses the intent. -/
def apply (board : JiraBoard) : ProjectionPayload → Option JiraBoard
  | .createProject _ key =>
    if key ∈ board.projects then none else some { board with projects := board.projects ++ [key] }
  | .createBoard key _ =>
    if key ∈ board.boards then none else some { board with boards := board.boards ++ [key] }
  | .createIssue issue _ _ _ =>
    if issue ∈ board.issues then none else some { board with issues := board.issues ++ [issue] }
  | .createSprint id _ _ startAt endAt =>
    if board.sprint? id = none then
      some (board.put { id, phase := .FUTURE, startAt, endAt, issues := [] })
    else none
  | .scopeSprint id issues =>
    if issues ⊆ board.issues then
      board.change id .FUTURE fun sprint => { sprint with issues := issues }
    else none
  | .startSprint id =>
    if board.sprints.all (fun sprint => sprint.phase ≠ .ACTIVE) then
      board.change id .FUTURE fun sprint => { sprint with phase := .ACTIVE }
    else none
  | .completeSprint id => board.change id .ACTIVE fun sprint => { sprint with phase := .CLOSED }
  | .transitionIssue issue _ => if issue ∈ board.issues then some board else none

/-- The board that a ledger of intents describes. -/
def ofLedger (ledger : List ProjectionIntentDraft) : Option JiraBoard :=
  replay apply (ledger.map (·.payload)) {}

/-! ### Sprints of a board -/

section board

variable {board board' : JiraBoard} {id : Uuid} {sprint : BoardSprint}

theorem sprint?_put : (board.put sprint).sprint? id =
    if sprint.id = id then some sprint else board.sprint? id :=
  Keyed.lookup_assign BoardSprint.id board.sprints sprint id

theorem put_put {other : BoardSprint} (h : sprint.id = other.id) :
    (board.put sprint).put other = board.put other := by
  show ({ board with sprints := _ } : JiraBoard) = _
  rw [put, Keyed.assign_assign_of_key_eq BoardSprint.id h]
  rfl

theorem id_of_sprint? (h : board.sprint? id = some sprint) : sprint.id = id :=
  (Keyed.mem_of_lookup BoardSprint.id h).2

theorem change_eq_some {phase : SprintPhase} {update : BoardSprint → BoardSprint} :
    board.change id phase update = some board' ↔
      ∃ sprint, board.sprint? id = some sprint ∧ sprint.phase = phase ∧
        board' = board.put (update sprint) := by
  unfold change
  cases hsprint : board.sprint? id with
  | none => simp
  | some sprint =>
    by_cases hphase : sprint.phase = phase
    · simp [hphase, eq_comm]
    · simp [hphase]

/-- A sprint is created with its scope and started, where no sprint is active. -/
theorem replay_begin {board : JiraBoard} {boardId : Uuid} {projectKey : String}
    (sprint : BoardSprint) (hphase : sprint.phase = .ACTIVE)
    (hfresh : board.sprint? sprint.id = none) (hissues : sprint.issues ⊆ board.issues)
    (hidle : ∀ other ∈ board.sprints, other.phase ≠ .ACTIVE) :
    replay apply [.createSprint sprint.id boardId projectKey sprint.startAt sprint.endAt,
      .scopeSprint sprint.id sprint.issues, .startSprint sprint.id] board =
        some (board.put sprint) := by
  -- the sprint as it is created, and as it is filled
  set created : BoardSprint := { sprint with phase := .FUTURE, issues := [] }
  set filled : BoardSprint := { sprint with phase := .FUTURE }
  have hcreate : board.apply (.createSprint sprint.id boardId projectKey sprint.startAt
      sprint.endAt) = some (board.put created) := by
    rw [apply, if_pos hfresh]
  have hscope : (board.put created).apply (.scopeSprint sprint.id sprint.issues) =
      some (board.put filled) := by
    rw [apply, if_pos (show sprint.issues ⊆ (board.put created).issues from hissues)]
    refine change_eq_some.mpr ⟨created, ?_, rfl, ?_⟩
    · rw [sprint?_put]
      exact if_pos rfl
    · show board.put filled = (board.put created).put filled
      exact (put_put (show created.id = filled.id from rfl)).symm
  have hstart : (board.put filled).apply (.startSprint sprint.id) = some (board.put sprint) := by
    have hall : (board.put filled).sprints.all (fun other => other.phase ≠ .ACTIVE) = true := by
      rw [List.all_eq_true]
      intro other hother
      rw [decide_eq_true_eq]
      rcases (Keyed.mem_assign BoardSprint.id).mp hother with rfl | ⟨hold, -⟩
      · simp [filled]
      · exact hidle other hold
    rw [apply, if_pos hall]
    refine change_eq_some.mpr ⟨filled, ?_, rfl, ?_⟩
    · rw [sprint?_put]
      exact if_pos rfl
    · have hsprint : ({ filled with phase := .ACTIVE } : BoardSprint) = sprint := by
        rw [← hphase]
      show board.put sprint = (board.put filled).put { filled with phase := .ACTIVE }
      rw [hsprint]
      exact (put_put (show filled.id = sprint.id from rfl)).symm
  rw [replay_cons, hcreate, Option.bind_some, replay_cons, hscope, Option.bind_some, replay_cons,
    hstart, Option.bind_some]
  rfl

end board

/-! ### Traces -/

/-- What an intent leaves on the board. -/
def Shows (board : JiraBoard) : ProjectionPayload → Prop
  | .createIssue issue _ _ _ => issue ∈ board.issues
  | .createSprint id _ _ _ _ => board.sprint? id ≠ none
  | .scopeSprint id _ => board.sprint? id ≠ none
  | .startSprint id => board.sprint? id ≠ none
  | .completeSprint id => ∃ sprint, board.sprint? id = some sprint ∧ sprint.phase = .CLOSED
  | _ => True

/-- A board keeps its issues, its sprints and their completion. -/
structure Keeps (board board' : JiraBoard) : Prop where
  issues : board.issues ⊆ board'.issues
  sprints : ∀ id, board.sprint? id ≠ none → board'.sprint? id ≠ none
  closed : ∀ id sprint, board.sprint? id = some sprint → sprint.phase = .CLOSED →
    board'.sprint? id = some sprint

theorem keeps_put {board : JiraBoard} {sprint : BoardSprint}
    (h : ∀ old, board.sprint? sprint.id = some old → old.phase ≠ .CLOSED) :
    Keeps board (board.put sprint) := by
  refine ⟨List.Subset.refl _, fun id hid => ?_, fun id old hold hclosed => ?_⟩
  · rw [sprint?_put]
    split_ifs
    · exact Option.some_ne_none _
    · exact hid
  · rw [sprint?_put, if_neg]
    · exact hold
    · rintro rfl
      exact h old hold hclosed

theorem Keeps.of_change {board board' : JiraBoard} {id : Uuid} {phase : SprintPhase}
    {update : BoardSprint → BoardSprint} (h : board.change id phase update = some board')
    (hid : ∀ sprint, (update sprint).id = sprint.id) (hphase : phase ≠ .CLOSED) :
    Keeps board board' ∧ ∃ sprint, board.sprint? id = some sprint ∧ sprint.phase = phase ∧
      board'.sprint? id = some (update sprint) := by
  obtain ⟨sprint, hsprint, hin, rfl⟩ := change_eq_some.mp h
  have hsame := id_of_sprint? hsprint
  refine ⟨keeps_put fun old hold => ?_, sprint, hsprint, hin, ?_⟩
  · rw [hid, hsame, hsprint, Option.some.injEq] at hold
    rw [← hold, hin]
    exact hphase
  · rw [sprint?_put, if_pos ((hid sprint).trans hsame)]

/-- An accepted intent leaves its trace, and keeps what the board shows. -/
theorem keeps_of_apply {board board' : JiraBoard} {payload : ProjectionPayload}
    (h : board.apply payload = some board') : Keeps board board' ∧ board'.Shows payload := by
  have hrefl : Keeps board board := ⟨List.Subset.refl _, fun _ => id, fun _ _ h _ => h⟩
  -- what is shown stays shown: each payload adds to the board or moves one sprint on
  cases payload with
  | createProject _ _ =>
    simp only [apply] at h
    split_ifs at h
    obtain rfl := Option.some.inj h
    exact ⟨⟨List.Subset.refl _, fun _ => id, fun _ _ h _ => h⟩, trivial⟩
  | createBoard _ _ =>
    simp only [apply] at h
    split_ifs at h
    obtain rfl := Option.some.inj h
    exact ⟨⟨List.Subset.refl _, fun _ => id, fun _ _ h _ => h⟩, trivial⟩
  | transitionIssue _ _ =>
    simp only [apply] at h
    split_ifs at h
    exact Option.some.inj h ▸ ⟨hrefl, trivial⟩
  | createIssue issue _ _ _ =>
    simp only [apply] at h
    split_ifs at h
    obtain rfl := Option.some.inj h
    exact ⟨⟨List.subset_append_left _ _, fun _ => id, fun _ _ h _ => h⟩,
      List.mem_append_right _ (List.mem_singleton_self issue)⟩
  | createSprint id _ _ startAt endAt =>
    simp only [apply] at h
    split_ifs at h with hnone
    obtain rfl := Option.some.inj h
    refine ⟨keeps_put fun old hold => ?_, ?_⟩
    · rw [show board.sprint? id = none from hnone] at hold
      cases hold
    · show (board.put _).sprint? id ≠ none
      rw [sprint?_put, if_pos rfl]
      exact Option.some_ne_none _
  | scopeSprint id issues =>
    simp only [apply] at h
    split_ifs at h
    obtain ⟨hkeeps, sprint, -, -, hafter⟩ := Keeps.of_change h (fun _ => rfl) (by decide)
    refine ⟨hkeeps, ?_⟩
    show board'.sprint? id ≠ none
    rw [hafter]
    exact Option.some_ne_none _
  | startSprint id =>
    simp only [apply] at h
    split_ifs at h
    obtain ⟨hkeeps, sprint, -, -, hafter⟩ := Keeps.of_change h (fun _ => rfl) (by decide)
    refine ⟨hkeeps, ?_⟩
    show board'.sprint? id ≠ none
    rw [hafter]
    exact Option.some_ne_none _
  | completeSprint id =>
    simp only [apply] at h
    obtain ⟨hkeeps, sprint, -, -, hafter⟩ := Keeps.of_change h (fun _ => rfl) (by decide)
    exact ⟨hkeeps, _, hafter, rfl⟩

theorem Keeps.shows {board board' : JiraBoard} (h : Keeps board board')
    {payload : ProjectionPayload} (hshows : board.Shows payload) : board'.Shows payload := by
  cases payload with
  | createProject _ _ => trivial
  | createBoard _ _ => trivial
  | transitionIssue _ _ => trivial
  | createIssue issue _ _ _ => exact h.issues hshows
  | createSprint id _ _ _ _ => exact h.sprints id hshows
  | scopeSprint id _ => exact h.sprints id hshows
  | startSprint id => exact h.sprints id hshows
  | completeSprint id =>
    obtain ⟨sprint, hsprint, hclosed⟩ := hshows
    exact ⟨sprint, h.closed id sprint hsprint hclosed, hclosed⟩

/-- The board of a ledger shows all its intents. -/
theorem shows_of_mem {ledger : List ProjectionIntentDraft} {board : JiraBoard}
    (h : ofLedger ledger = some board) {intent : ProjectionIntentDraft}
    (hintent : intent ∈ ledger) :
    board.Shows intent.payload :=
  replay_trace (fun payload board => board.Shows payload)
    (fun _ _ _ happly => (keeps_of_apply happly).2)
    (fun _ _ _ _ hshows happly => (keeps_of_apply happly).1.shows hshows) h _
    (List.mem_map_of_mem hintent)

theorem ofLedger_append (ledger drafts : List ProjectionIntentDraft) :
    ofLedger (ledger ++ drafts) =
      (ofLedger ledger).bind (replay apply (drafts.map (·.payload))) := by
  rw [ofLedger, List.map_append, replay_append]
  rfl

/-- Drafts with traces that the board does not show are appended and replayed. -/
theorem ofLedger_appendDrafts {ledger ledger' drafts : List ProjectionIntentDraft}
    {board : JiraBoard} (h : appendDrafts (·.semanticKey) ledger drafts = .ok ledger')
    (hboard : ofLedger ledger = some board) (hkeys : (drafts.map (·.semanticKey)).Nodup)
    (hnew : ∀ draft ∈ drafts, ¬board.Shows draft.payload) :
    ofLedger ledger' = replay apply (drafts.map (·.payload)) board := by
  have hfresh : ∀ draft ∈ drafts, draft ∉ ledger := fun draft hdraft hmem =>
    hnew draft hdraft (shows_of_mem hboard hmem)
  rw [appendDrafts_of_fresh h hkeys hfresh, ofLedger_append, hboard]
  rfl

/-- Transitions of issues that the board knows leave it as it is. -/
theorem ofLedger_of_transitions {ledger ledger' drafts : List ProjectionIntentDraft}
    {board : JiraBoard} (h : appendDrafts (·.semanticKey) ledger drafts = .ok ledger')
    (hboard : ofLedger ledger = some board)
    (hdrafts : ∀ draft ∈ drafts, ∃ issue ∈ board.issues, ∃ status,
      draft.payload = .transitionIssue issue status) :
    ofLedger ledger' = some board := by
  obtain ⟨added, rfl, hsublist, -⟩ := appendDrafts_eq_ok h
  have hadded : ∀ draft ∈ added, ∃ issue ∈ board.issues, ∃ status,
      draft.payload = .transitionIssue issue status :=
    fun draft hdraft => hdrafts draft (hsublist.subset hdraft)
  clear h hsublist
  rw [ofLedger_append, hboard, Option.bind_some]
  induction added with
  | nil => rfl
  | cons draft added ih =>
    obtain ⟨issue, hissue, status, hpayload⟩ := hadded draft List.mem_cons_self
    have hfirst : board.apply (.transitionIssue issue status) = some board := if_pos hissue
    rw [List.map_cons, hpayload, replay_cons, hfirst, Option.bind_some]
    exact ih fun other hother => hadded other (List.mem_cons_of_mem _ hother)

end JiraBoard

/-! ### The board of a state -/

/-- The item has been in the scope of the sprint. -/
def InScope (c : ScrumCollections) (sprint item : Uuid) : Prop :=
  ∃ entry ∈ c.sprintScope, entry.sprintId = sprint ∧ entry.workItemId = item

/-- A sprint of the board is the sprint of the simulator, in its phase, with its window and all
items that have been in its scope. -/
structure ShowsSprint (c : ScrumCollections) (sprint : SprintState) (shown : BoardSprint) :
    Prop where
  phase : (sprint.lifecycle = .ACTIVE ∧ shown.phase = .ACTIVE) ∨
    (sprint.lifecycle = .COMPLETED ∧ shown.phase = .CLOSED)
  startAt : shown.startAt = sprint.plannedStartAt
  endAt : shown.endAt = sprint.plannedEndAt
  issues : ∀ item, item ∈ shown.issues ↔ InScope c sprint.id item

/-- The board shows the items and the sprints that have begun, and no other sprints. -/
structure Mirrors (c : ScrumCollections) (board : JiraBoard) : Prop where
  keys : (board.sprints.map (·.id)).Nodup
  issues : ∀ item, item ∈ board.issues ↔ item ∈ c.workItems.map (·.id)
  begun : ∀ sprint ∈ c.sprints, sprint.lifecycle ≠ .PLANNED →
    ∃ shown, board.sprint? sprint.id = some shown ∧ ShowsSprint c sprint shown
  shown : ∀ id, board.sprint? id ≠ none →
    ∃ sprint ∈ c.sprints, sprint.id = id ∧ sprint.lifecycle ≠ .PLANNED

theorem ShowsSprint.congr {c c' : ScrumCollections} {sprint : SprintState} {shown : BoardSprint}
    (h : ShowsSprint c sprint shown)
    (hscope : ∀ item, InScope c' sprint.id item ↔ InScope c sprint.id item) :
    ShowsSprint c' sprint shown :=
  ⟨h.phase, h.startAt, h.endAt, fun item => (h.issues item).trans (hscope item).symm⟩

/-- Rows that a commit leaves alone leave the board up to date. -/
theorem Mirrors.congr {c c' : ScrumCollections} {board : JiraBoard} (h : Mirrors c board)
    (hitems : ∀ item, item ∈ c'.workItems.map (·.id) ↔ item ∈ c.workItems.map (·.id))
    (hsprints : ∀ sprint, sprint ∈ c'.sprints ↔ sprint ∈ c.sprints)
    (hscope : ∀ entry, entry ∈ c'.sprintScope ↔ entry ∈ c.sprintScope) : Mirrors c' board where
  keys := h.keys
  issues item := (h.issues item).trans (hitems item).symm
  begun sprint hsprint hlifecycle := by
    obtain ⟨shown, hshown, hshows⟩ := h.begun sprint ((hsprints sprint).mp hsprint) hlifecycle
    refine ⟨shown, hshown, hshows.congr fun item => ?_⟩
    unfold InScope
    simp only [hscope]
  shown id hid := by
    obtain ⟨sprint, hsprint, hsame⟩ := h.shown id hid
    exact ⟨sprint, (hsprints sprint).mpr hsprint, hsame⟩

/-- The intents of a sprint that begins make it the active sprint of a board that shows the other
sprints as closed. -/
theorem Mirrors.begins {c : ScrumCollections} {board : JiraBoard} {sprint : SprintState}
    {issues : List Uuid} (boardId : Uuid) (projectKey : String) (hc : c.Complete p)
    (hkeys : (board.sprints.map (·.id)).Nodup)
    (hitems : ∀ item, item ∈ board.issues ↔ item ∈ c.workItems.map (·.id))
    (hsprint : sprint ∈ c.sprints) (hactive : sprint.lifecycle = .ACTIVE)
    (hothers : ∀ other ∈ c.sprints, other ≠ sprint →
      ∃ shown, board.sprint? other.id = some shown ∧ shown.phase = .CLOSED ∧
        ShowsSprint c other shown)
    (hshown : ∀ id, board.sprint? id ≠ none →
      ∃ other ∈ c.sprints, other.id = id ∧ other ≠ sprint ∧ other.lifecycle ≠ .PLANNED)
    (hissues : ∀ item, item ∈ issues ↔ InScope c sprint.id item) :
    ∃ board', replay JiraBoard.apply [
        .createSprint sprint.id boardId projectKey sprint.plannedStartAt sprint.plannedEndAt,
        .scopeSprint sprint.id issues, .startSprint sprint.id] board = some board' ∧
      Mirrors c board' := by
  set shown : BoardSprint := {
    id := sprint.id, phase := .ACTIVE, startAt := sprint.plannedStartAt
    endAt := sprint.plannedEndAt, issues }
  have hfresh : board.sprint? sprint.id = none := by
    by_contra hne
    obtain ⟨other, hother, hid, hdiffers, -⟩ := hshown sprint.id hne
    exact hdiffers (Collection.sprints.eq_of_key_eq hc.toConsistent hother hsprint hid)
  have hknown : issues ⊆ board.issues := by
    intro item hitem
    obtain ⟨entry, hentry, -, rfl⟩ := (hissues item).mp hitem
    exact (hitems _).mpr (hc.scopeWork entry hentry)
  -- every sprint on the board is closed, so another may start
  have hidle : ∀ other ∈ board.sprints, other.phase ≠ .ACTIVE := by
    intro other hother
    have hlookup : board.sprint? other.id = some other :=
      (Keyed.lookup_eq_some BoardSprint.id hkeys).mpr ⟨hother, rfl⟩
    have hsome : board.sprint? other.id ≠ none := by
      rw [hlookup]
      exact Option.some_ne_none _
    obtain ⟨row, hrow, hid, hdiffers, -⟩ := hshown other.id hsome
    obtain ⟨closed, hclosed, hphase, -⟩ := hothers row hrow hdiffers
    rw [hid, hlookup, Option.some.injEq] at hclosed
    rw [hclosed, hphase]
    decide
  refine ⟨board.put shown, JiraBoard.replay_begin shown rfl hfresh hknown hidle, ?_⟩
  refine ⟨Keyed.nodup_assign BoardSprint.id hkeys, hitems, fun other hother hbegun => ?_,
    fun id hid => ?_⟩
  · -- each sprint that has begun is shown as it is
    by_cases heq : other = sprint
    · subst heq
      refine ⟨shown, ?_, .inl ⟨hactive, rfl⟩, rfl, rfl, hissues⟩
      rw [JiraBoard.sprint?_put, if_pos rfl]
    · obtain ⟨closed, hclosed, -, hshows⟩ := hothers other hother heq
      refine ⟨closed, ?_, hshows⟩
      rw [JiraBoard.sprint?_put, if_neg]
      · exact hclosed
      · intro hid
        exact heq (Collection.sprints.eq_of_key_eq hc.toConsistent hother hsprint hid.symm)
  · -- each sprint that is shown has begun
    by_cases heq : sprint.id = id
    · refine ⟨sprint, hsprint, heq, ?_⟩
      rw [hactive]
      decide
    · rw [JiraBoard.sprint?_put, if_neg (show shown.id ≠ id from heq)] at hid
      obtain ⟨other, hother, hsame, -, hbegun⟩ := hshown id hid
      exact ⟨other, hother, hsame, hbegun⟩

/-! ### Boundaries -/

section boundary

variable {store store' : TeamStore p} {command : AuthoritativeTickSliceCommit p} {board : JiraBoard}
  {instant : ℤ} {context : TransitionContext p}

/-- The payloads of a sprint that begins at a boundary. -/
def beginPayloads (context : TransitionContext p) : List ProjectionPayload :=
  [.createSprint context.current.id context.state.aggregate.team.id
      context.state.aggregate.blueprint.jira.projectKey context.current.plannedStartAt
      context.current.plannedEndAt,
    .scopeSprint context.current.id
      (scopedIssueIds context.writeSet.sprintScope context.current.id),
    .startSprint context.current.id]

theorem activationTransition_payloads (context : TransitionContext p) :
    (activationTransition context).projectionIntents.map (·.payload) = beginPayloads context :=
  rfl

theorem rolloverTransition_payloads (context : TransitionContext p) :
    (rolloverTransition context).projectionIntents.map (·.payload) =
      .completeSprint context.previous.id :: beginPayloads context :=
  rfl

theorem buildProjectionIntents_keys (context : TransitionContext p)
    (dependency : List SemanticKey) (operations : List ProjectionOperation) :
    (buildProjectionIntents context dependency operations).map (·.semanticKey) =
      operations.map fun operation =>
        boundaryKey context.state context.current.ordinal (.operation operation) := by
  induction operations generalizing dependency with
  | nil => rfl
  | cons operation operations ih => exact congrArg (_ :: ·) (ih _)

/-- Different operations of a boundary have different keys. -/
theorem buildProjectionIntents_nodup (context : TransitionContext p)
    {operations : List ProjectionOperation} (h : operations.Nodup) :
    ((buildProjectionIntents context [] operations).map (·.semanticKey)).Nodup := by
  rw [buildProjectionIntents_keys]
  refine h.map fun a b hab => ?_
  simpa [boundaryKey] using hab

theorem mem_scopedIssueIds {scope : List SprintScopeEntry} {sprint item : Uuid} :
    item ∈ scopedIssueIds scope sprint ↔ ∃ entry ∈ scope, entry.sprintId = sprint ∧
      entry.removedAt = none ∧ entry.workItemId = item := by
  simp only [scopedIssueIds, List.mem_map, List.mem_filter, Bool.and_eq_true, decide_eq_true_eq,
    Option.isNone_iff_eq_none, and_assoc]

/-- The board of a planned sprint is without sprints. -/
theorem Mirrors.sprint?_of_planned (h : Mirrors store.scrum.toScrumCollections board)
    (hplanned : PlannedFirst store.scrum.toScrumCollections) {sprint : SprintState}
    (hmem : sprint ∈ store.scrum.sprints) (hlifecycle : sprint.lifecycle = .PLANNED) (id : Uuid) :
    board.sprint? id = none := by
  by_contra hne
  obtain ⟨other, hother, -, hbegun⟩ := h.shown id hne
  rw [(hplanned sprint hmem hlifecycle).1 other hother] at hbegun
  exact hbegun hlifecycle

/-- The activation of the planned sprint. -/
theorem Mirrors.activates (h : Mirrors store.scrum.toScrumCollections board)
    (hcommitted : Committed store command store')
    (hplanned : PlannedFirst store.scrum.toScrumCollections)
    (hitems : ∀ item, item ∈ board.issues ↔ item ∈ store'.scrum.workItems.map (·.id))
    {sprint : SprintState} {selected : List Uuid} (hmem : sprint ∈ store.scrum.sprints)
    (hlifecycle : sprint.lifecycle = .PLANNED)
    (hcurrent : context.current = activatedSprint sprint instant)
    (hstate : command.state = context.writeSet)
    (hsprints : context.writeSet.sprints = [activatedSprint sprint instant])
    (hscope : context.writeSet.sprintScope =
      selected.map (newScopeEntry store.state sprint.id instant)) :
    ∃ board', replay JiraBoard.apply (beginPayloads context) board = some board' ∧
      Mirrors store'.scrum.toScrumCollections board' := by
  obtain ⟨honly, -, hnone⟩ := hplanned sprint hmem hlifecycle
  -- the planned sprint is the only one, and it is active now
  have hrows : ∀ s, s ∈ store'.scrum.sprints ↔ s = activatedSprint sprint instant := by
    intro s
    rw [show s ∈ store'.scrum.sprints ↔ _ from
      hcommitted.mem_rows Collection.sprints fun _ _ _ => rfl, hstate]
    show s ∈ context.writeSet.sprints ∨ (s ∈ store.scrum.sprints ∧
      s.id ∉ context.writeSet.sprints.map (·.id)) ↔ _
    rw [hsprints, List.mem_singleton]
    refine or_iff_left ?_
    rintro ⟨hold, hid⟩
    rw [honly s hold] at hid
    exact hid List.mem_cons_self
  -- nothing was in scope before
  have hentries : ∀ entry, entry ∈ store'.scrum.sprintScope ↔
      entry ∈ context.writeSet.sprintScope := by
    intro entry
    rw [show entry ∈ store'.scrum.sprintScope ↔ _ from
      hcommitted.mem_rows Collection.sprintScope fun _ _ _ => rfl, hstate]
    refine or_iff_left fun hold => ?_
    have hmem : entry ∈ store.scrum.sprintScope := hold.1
    rw [hnone] at hmem
    cases hmem
  have hempty := h.sprint?_of_planned hplanned hmem hlifecycle
  unfold beginPayloads
  rw [hcurrent]
  refine Mirrors.begins _ _ store'.scrum.complete h.keys hitems ((hrows _).mpr rfl) rfl
    (fun other hother hne => absurd ((hrows other).mp hother) hne)
    (fun id hid => absurd (hempty id) hid) fun item => ?_
  rw [mem_scopedIssueIds]
  constructor
  · rintro ⟨entry, hentry, hsame, -, hitem⟩
    exact ⟨entry, (hentries entry).mpr hentry, hsame, hitem⟩
  · rintro ⟨entry, hentry, hsame, hitem⟩
    have hwritten := (hentries entry).mp hentry
    rw [hscope] at hwritten
    obtain ⟨selected', -, rfl⟩ := List.mem_map.mp hwritten
    exact ⟨_, (hentries _).mp hentry, hsame, rfl, hitem⟩

/-- The scope of the sprints that a rollover does not start. -/
theorem inScope_of_rollover (hcommitted : Committed store command store')
    {sprint successor : SprintState} {carried : List Uuid}
    (hscope : command.state.sprintScope =
      (currentScopeOf store.state sprint).map (fun entry =>
        { entry with removedAt := some instant }) ++
      carried.map (newScopeEntry store.state successor.id instant))
    {id : Uuid} (hid : id ≠ successor.id) (item : Uuid) :
    InScope store'.scrum.toScrumCollections id item ↔
      InScope store.scrum.toScrumCollections id item := by
  have hrows : ∀ entry, entry ∈ store'.scrum.sprintScope ↔ entry ∈ command.state.sprintScope ∨
      (entry ∈ store.scrum.sprintScope ∧ entry.id ∉ command.state.sprintScope.map (·.id)) :=
    fun _ => hcommitted.mem_rows Collection.sprintScope fun _ _ _ => rfl
  constructor
  · rintro ⟨entry, hentry, hsame, hitem⟩
    rcases (hrows entry).mp hentry with hwritten | ⟨hold, -⟩
    · rw [hscope, List.mem_append] at hwritten
      rcases hwritten with hclosed | hnew
      · obtain ⟨old, hold, rfl⟩ := List.mem_map.mp hclosed
        exact ⟨old, (List.mem_filter.mp hold).1, hsame, hitem⟩
      · obtain ⟨added, -, rfl⟩ := List.mem_map.mp hnew
        exact absurd hsame.symm hid
    · exact ⟨entry, hold, hsame, hitem⟩
  · -- an entry that is closed keeps its sprint and its item
    rintro ⟨entry, hentry, hsame, hitem⟩
    by_cases hwritten : entry.id ∈ command.state.sprintScope.map (·.id)
    · obtain ⟨row, hrow, hkey⟩ := List.mem_map.mp hwritten
      have hmem := (hrows row).mpr (.inl hrow)
      rw [hscope, List.mem_append] at hrow
      rcases hrow with hclosed | hnew
      · obtain ⟨old, hold, rfl⟩ := List.mem_map.mp hclosed
        obtain rfl : old = entry := Collection.sprintScope.eq_of_key_eq
          store.scrum.complete.toConsistent (List.mem_filter.mp hold).1 hentry hkey
        exact ⟨_, hmem, hsame, hitem⟩
      · obtain ⟨added, -, rfl⟩ := List.mem_map.mp hnew
        have hpath := (SprintScopeEntry.validate_eq_ok.mp
          (store.scrum.complete.rowsValid.sprintScope entry hentry)).1
        have hsuccessor : successor.id = entry.sprintId := by
          have heq : Uuid.sprintScope successor.id added =
            .sprintScope entry.sprintId entry.workItemId := hkey.trans hpath
          exact (Uuid.sprintScope.inj heq).1
        exact absurd (hsame.symm.trans hsuccessor.symm) hid
    · exact ⟨entry, (hrows entry).mpr (.inr ⟨hentry, hwritten⟩), hsame, hitem⟩

/-- The rollover of the active sprint. -/
theorem Mirrors.rolls (h : Mirrors store.scrum.toScrumCollections board)
    (hcommitted : Committed store command store')
    (hplanned : PlannedFirst store.scrum.toScrumCollections)
    (hitems : ∀ item, item ∈ board.issues ↔ item ∈ store'.scrum.workItems.map (·.id))
    {sprint successor : SprintState} {carried : List Uuid} (hmem : sprint ∈ store.scrum.sprints)
    (hactive : sprint.lifecycle = .ACTIVE) (hsuccessor : successor.lifecycle = .ACTIVE)
    (hfresh : successor.id ∉ store.scrum.sprints.map (·.id))
    (hcontext : context.previous = sprint ∧ context.current = successor)
    (hstate : command.state = context.writeSet)
    (hsprints : context.writeSet.sprints = [endedSprint sprint instant, successor])
    (hscope : context.writeSet.sprintScope =
      (currentScopeOf store.state sprint).map (fun entry =>
        { entry with removedAt := some instant }) ++
      carried.map (newScopeEntry store.state successor.id instant)) :
    ∃ board', replay JiraBoard.apply (.completeSprint context.previous.id :: beginPayloads context)
        board = some board' ∧ Mirrors store'.scrum.toScrumCollections board' := by
  have hc := store.scrum.complete.toConsistent
  have hc' := store'.scrum.complete
  have hne : sprint.id ≠ successor.id := fun heq => hfresh (heq ▸ List.mem_map_of_mem hmem)
  have hrows : ∀ s, s ∈ store'.scrum.sprints ↔ (s = endedSprint sprint instant ∨ s = successor) ∨
      (s ∈ store.scrum.sprints ∧ s.id ∉ [sprint.id, successor.id]) := by
    intro s
    rw [show s ∈ store'.scrum.sprints ↔ _ from
      hcommitted.mem_rows Collection.sprints fun _ _ _ => rfl, hstate]
    show s ∈ context.writeSet.sprints ∨ (s ∈ store.scrum.sprints ∧
      s.id ∉ context.writeSet.sprints.map (·.id)) ↔ _
    rw [hsprints, List.mem_pair]
    rfl
  have hscope' := hstate ▸ hscope
  have hold : ∀ {id : Uuid}, id ≠ successor.id → ∀ item,
      InScope store'.scrum.toScrumCollections id item ↔
        InScope store.scrum.toScrumCollections id item := fun hid item =>
    inScope_of_rollover hcommitted hscope' hid item
  -- the active sprint is closed
  obtain ⟨shown, hshown, hshows⟩ := h.begun sprint hmem (by rw [hactive]; decide)
  have hphase : shown.phase = .ACTIVE := by
    rcases hshows.phase with ⟨-, hphase⟩ | ⟨hcompleted, -⟩
    · exact hphase
    · rw [hactive] at hcompleted
      cases hcompleted
  set closed : BoardSprint := { shown with phase := .CLOSED }
  have hclosedId : closed.id = sprint.id :=
    show shown.id = sprint.id from JiraBoard.id_of_sprint? hshown
  have hcomplete : board.apply (.completeSprint sprint.id) = some (board.put closed) :=
    JiraBoard.change_eq_some.mpr ⟨shown, hshown, hphase, rfl⟩
  have hclosed : ShowsSprint store'.scrum.toScrumCollections (endedSprint sprint instant) closed :=
    ⟨.inr ⟨rfl, rfl⟩, hshows.startAt, hshows.endAt, fun item =>
      (hshows.issues item).trans (hold hne item).symm⟩
  rw [hcontext.1, replay_cons, hcomplete, Option.bind_some]
  unfold beginPayloads
  rw [hcontext.2]
  refine Mirrors.begins _ _ hc' (Keyed.nodup_assign BoardSprint.id h.keys) hitems
    ((hrows _).mpr (.inl (.inr rfl))) hsuccessor ?_ ?_ fun item => ?_
  · intro other hother hdiffers
    rcases (hrows other).mp hother with (rfl | rfl) | ⟨hstays, hid⟩
    · refine ⟨closed, ?_, rfl, hclosed⟩
      rw [JiraBoard.sprint?_put]
      exact if_pos hclosedId
    · exact absurd rfl hdiffers
    · have hother' : other ≠ sprint := by
        rintro rfl
        exact hid List.mem_cons_self
      have hbegun : other.lifecycle ≠ .PLANNED := by
        intro hfuture
        have heq := (hplanned other hstays hfuture).1 sprint hmem
        exact hother' heq.symm
      obtain ⟨row, hrow, hrowShows⟩ := h.begun other hstays hbegun
      have hidOther : other.id ≠ sprint.id := fun heq => hid (heq ▸ List.mem_cons_self)
      have hidNext : other.id ≠ successor.id := fun heq => hfresh (heq ▸ List.mem_map_of_mem hstays)
      refine ⟨row, ?_, ?_, hrowShows.congr (hold hidNext)⟩
      · rw [JiraBoard.sprint?_put, if_neg]
        · exact hrow
        · rw [hclosedId]
          exact hidOther.symm
      · rcases hrowShows.phase with ⟨hotherActive, -⟩ | ⟨-, hdone⟩
        · exact absurd (hc.activeSprint_unique hstays hmem hotherActive hactive) hother'
        · exact hdone
  · intro id hid
    by_cases heq : sprint.id = id
    · refine ⟨endedSprint sprint instant, (hrows _).mpr (.inl (.inl rfl)), heq, ?_, ?_⟩
      · rintro rfl
        exact hne rfl
      · show SprintLifecycle.COMPLETED ≠ .PLANNED
        decide
    · rw [JiraBoard.sprint?_put, if_neg (hclosedId ▸ heq)] at hid
      obtain ⟨other, hother, rfl, hbegun⟩ := h.shown id hid
      have hnext : other.id ≠ successor.id := fun hsame =>
        hfresh (hsame ▸ List.mem_map_of_mem hother)
      refine ⟨other, (hrows other).mpr (.inr ⟨hother, ?_⟩), rfl, ?_, hbegun⟩
      · rw [List.mem_pair, not_or]
        exact ⟨Ne.symm heq, hnext⟩
      · rintro rfl
        exact hnext rfl
  · rw [mem_scopedIssueIds]
    have hentries : ∀ entry, entry ∈ store'.scrum.sprintScope ↔
        entry ∈ context.writeSet.sprintScope ∨ (entry ∈ store.scrum.sprintScope ∧
          entry.id ∉ context.writeSet.sprintScope.map (·.id)) := fun _ => hstate ▸
      hcommitted.mem_rows Collection.sprintScope fun _ _ _ => rfl
    constructor
    · rintro ⟨entry, hentry, hsame, -, hitem⟩
      exact ⟨entry, (hentries entry).mpr (.inl hentry), hsame, hitem⟩
    · rintro ⟨entry, hentry, hsame, hitem⟩
      rcases (hentries entry).mp hentry with hwritten | ⟨hstays, -⟩
      · refine ⟨entry, hwritten, hsame, ?_, hitem⟩
        rw [hscope, List.mem_append] at hwritten
        rcases hwritten with hwritten | hwritten
        · obtain ⟨old, hmemOld, rfl⟩ := List.mem_map.mp hwritten
          have hsprint := (List.mem_filter.mp hmemOld).2
          simp only [Bool.and_eq_true, decide_eq_true_eq] at hsprint
          exact absurd (hsprint.1.symm.trans hsame) hne
        · obtain ⟨added, -, rfl⟩ := List.mem_map.mp hwritten
          rfl
      · exact absurd (hsame ▸ store.scrum.complete.scopeSprint entry hstays) hfresh

end boundary

/-! ### Ticks -/

/-- The intents only move items of the collections. -/
def MovesIssues (c : ScrumCollections) (intents : List ProjectionIntentDraft) : Prop :=
  ∀ draft ∈ intents, ∃ issue ∈ c.workItems.map (·.id), ∃ status,
    draft.payload = .transitionIssue issue status

theorem movesIssues_append {c : ScrumCollections} {first second : List ProjectionIntentDraft}
    (hfirst : MovesIssues c first) (hsecond : MovesIssues c second) :
    MovesIssues c (first ++ second) :=
  List.forall_mem_append.mpr ⟨hfirst, hsecond⟩

/-- The items of the one collections are those of the other. -/
theorem MovesIssues.mono {c c' : ScrumCollections} {intents : List ProjectionIntentDraft}
    (h : MovesIssues c intents) (hitems : c.workItems.map (·.id) ⊆ c'.workItems.map (·.id)) :
    MovesIssues c' intents := by
  intro draft hdraft
  obtain ⟨issue, hissue, hmoves⟩ := h draft hdraft
  exact ⟨issue, hitems hissue, hmoves⟩

theorem movesIssues_of_nil {c : ScrumCollections} {intents : List ProjectionIntentDraft}
    (h : intents = []) : MovesIssues c intents := by
  rw [h]
  intro draft hdraft
  cases hdraft

theorem outcomeIntent_moves {context : RiskContext p} {work : WorkItemState} {status : String}
    {outcome : Bool} {intent : Option ProjectionIntentDraft}
    (h : outcomeIntent context work.id status outcome = .ok intent)
    (hwork : work ∈ context.state.scrum.workItems) :
    MovesIssues context.state.scrum.toScrumCollections intent.toList := by
  intro draft hdraft
  rw [Option.mem_toList] at hdraft
  subst hdraft
  simp only [outcomeIntent] at h
  split_ifs at h
  · simp only [transitionIntent, bind_eq_ok, pure_eq_ok] at h
    obtain ⟨_, ⟨row, -, rfl⟩, h⟩ := h
    obtain rfl := Option.some.inj h
    exact ⟨work.id, List.mem_map_of_mem hwork, _, rfl⟩
  · cases h

theorem movesIssues_of_collectRecords {c : ScrumCollections} {α : Type}
    {record : α → Result (RiskRecords p)} {items : List α} {out : RiskRecords p}
    (h : collectRecords record items = .ok out)
    (hrecord : ∀ x ∈ items, ∀ r, record x = .ok r → MovesIssues c r.projectionIntents) :
    MovesIssues c out.projectionIntents := by
  obtain ⟨rs, hall, hmerged⟩ := collectRecords_eq_ok h
  rw [hmerged.projectionIntents]
  intro draft hdraft
  obtain ⟨r, hr, hdraft⟩ := List.mem_flatMap.mp hdraft
  obtain ⟨x, hx, hxr⟩ := forall₂_exists_left hall hr
  exact hrecord x hx r hxr draft hdraft

/-- A rule only moves items of its state. -/
theorem handler_moves {context : RiskContext p} {out : RiskRecords p}
    {handler : RiskContext p → Result (RiskRecords p)}
    (hhandler : handlerFor context.rule.key = some handler) (hout : handler context = .ok out) :
    MovesIssues context.state.scrum.toScrumCollections out.projectionIntents := by
  -- only a rejected review and a cancellation move an issue
  have hdefault : MovesIssues context.state.scrum.toScrumCollections
      ({} : RiskRecords p).projectionIntents := movesIssues_of_nil rfl
  obtain ⟨hkey, rfl⟩ | ⟨hkey, rfl⟩ | ⟨hkey, rfl⟩ | ⟨hkey, rfl⟩ | ⟨hkey, rfl⟩ :=
    handlerFor_eq_some hhandler
  · unfold longStay at hout
    split_ifs at hout
    · exact Except.ok.inj hout ▸ hdefault
    · exact movesIssues_of_collectRecords hout fun visit _ r hr =>
        movesIssues_of_nil (longStayRecord_silent hr).projectionIntents
  · rcases reviewRejection_eq_ok hout with rfl | ⟨-, hcollect⟩
    · exact hdefault
    · refine movesIssues_of_collectRecords hcollect fun review hreview r hr => ?_
      obtain ⟨hmem, hdue⟩ := List.mem_filter.mp hreview
      obtain ⟨work, decision, hverdict, -, ⟨-, hsilent⟩ | ⟨_, _, _, _, -, -, -, hintents⟩⟩ :=
        dueReviewRecords_eq_ok hmem hdue hr
      · exact movesIssues_of_nil hsilent.projectionIntents
      · rw [hintents]
        have hmoves := outcomeIntent_moves (reviewDecision_eq_ok hverdict.decided).2.2.2
          (workOf_eq_ok hverdict.work_eq).1
        exact hmoves
  · rcases cancellation_eq_ok hout with rfl | ⟨boundary, hboundary, htrigger, hcollect⟩
    · exact hdefault
    · refine movesIssues_of_collectRecords hcollect fun work hwork r hr => ?_
      obtain ⟨decision, hverdict, -, -, ⟨-, -, hnone⟩ | ⟨-, -, hintents⟩⟩ :=
        cancellationRecords_eq_ok htrigger hboundary hwork hr
      · exact movesIssues_of_nil hnone
      · rw [hintents]
        have hmoves := outcomeIntent_moves (cancellationDecision_eq_ok hverdict.decided).2.2.2
          hverdict.mem
        exact hmoves
  · rcases externalDependency_eq_ok hout with rfl | hcollect
    · exact hdefault
    · exact movesIssues_of_collectRecords hcollect fun visit _ r hr =>
        movesIssues_of_nil (dependencyRecords_eq_ok hr).2.2.1
  · rcases memberUnavailability_eq_ok hout with rfl | ⟨boundary, -, -, hcollect⟩
    · exact hdefault
    · refine movesIssues_of_collectRecords hcollect fun owner _ r hr => ?_
      obtain ⟨_, _, _, -, -, -, -, -, hnone⟩ := unavailabilityRecords_eq_ok hr
      exact movesIssues_of_nil hnone

/-- The rules neither add nor rename an item. -/
theorem applyRules_items {asOf : ℤ} {draws : DrawSource} {progress progress' : RiskProgress p}
    {rules : List RiskRule} (h : applyRules asOf draws progress rules = .ok progress') :
    progress'.working.scrum.workItems.map (·.id) ⊆ progress.working.scrum.workItems.map (·.id) := by
  intro item hitem
  obtain ⟨work', hwork', rfl⟩ := List.mem_map.mp hitem
  obtain ⟨work, hwork, hid, -⟩ := applyRules_itemMoves h hwork'
  exact hid ▸ List.mem_map_of_mem hwork

theorem evaluateDueRisks_moves {state : LiveTeamState p} {asOf : ℤ} {draws : DrawSource}
    {risks : RiskRecords p} (h : evaluateDueRisks state asOf draws = .ok risks) :
    MovesIssues state.scrum.toScrumCollections risks.projectionIntents := by
  simp only [evaluateDueRisks, bind_eq_ok, pure_eq_ok] at h
  obtain ⟨progress, hprogress, rfl⟩ := h
  refine foldlM_prefix_induction (motive := fun progress : RiskProgress p =>
    MovesIssues state.scrum.toScrumCollections progress.records.projectionIntents) hprogress
    (movesIssues_of_nil rfl) ?_
  intro before rule after progress next _ hbefore hmoves hstep
  rcases applyRule_eq_ok hstep with rfl | ⟨handler, outcome, hhandler, hout, hmerge, -⟩
  · exact hmoves
  · obtain ⟨-, -, -, hintents, -⟩ := RiskRecords.merge_eq_ok hmerge
    rw [hintents]
    have hnew := @handler_moves p { state := progress.working, asOf, draws, rule } _ _ hhandler hout
    exact movesIssues_append hmoves (hnew.mono (applyRules_items hbefore))

theorem visitDrafts_moves {state : LiveTeamState p} {endsAt : ℤ} {result : TickResult}
    {visit : StatusVisitState} {drafts : VisitDrafts}
    (h : visitDrafts state endsAt result visit = .ok drafts) :
    MovesIssues state.scrum.toScrumCollections drafts.projection := by
  unfold visitDrafts at h
  split_ifs at h with hskip
  · rw [pure_eq_ok] at h
    exact h ▸ movesIssues_of_nil rfl
  · simp only [bind_eq_ok] at h
    obtain ⟨before, hbefore, original, -, summary, -, truth, -, h⟩ := h
    obtain ⟨hmem, hid⟩ := getItem_eq_ok hbefore
    -- the item of the visit is moved, in the row that the progress writes
    have hitem : ((Keyed.lookup (·.id) result.workItems visit.workItemId).getD before).id =
        before.id := by
      cases hchange : Keyed.lookup (·.id) result.workItems visit.workItemId with
      | none => rfl
      | some change => exact (Keyed.mem_of_lookup _ hchange).2.trans hid.symm
    split_ifs at h with hmoved
    · simp only [bind_eq_ok, pure_eq_ok] at h
      obtain ⟨projection, ⟨intent, hintent, rfl⟩, rfl⟩ := h
      simp only [projectionDraft, bind_eq_ok, pure_eq_ok] at hintent
      obtain ⟨status, -, rfl⟩ := hintent
      exact List.forall_mem_singleton.mpr
        ⟨_, hitem ▸ List.mem_map_of_mem hmem, _, rfl⟩
    · simp only [bind_eq_ok, pure_eq_ok] at h
      obtain ⟨projection, rfl, rfl⟩ := h
      exact movesIssues_of_nil rfl

/-- A tick only moves items that there are. -/
theorem tickSlice_moves {c : ScrumCollections} {request : TickRequest} {advance : RiskAdvance p}
    {slice : TickSliceCommit} (hrisks : MovesIssues c advance.risks.projectionIntents)
    (hitems : advance.state.scrum.workItems.map (·.id) ⊆ c.workItems.map (·.id))
    (h : tickSlice request advance = .ok slice) : MovesIssues c slice.projectionIntents := by
  simp only [tickSlice, liveSlice, ledgerDrafts, withRiskLedgers, bind_eq_ok, validated_eq_ok,
    pure_eq_ok] at h
  obtain ⟨live, ⟨drafts, ⟨visits, hvisits, rfl⟩, -, rfl⟩, -, rfl⟩ := h
  refine movesIssues_append ?_ hrisks
  intro draft hdraft
  obtain ⟨entry, hentry, hdraft⟩ := List.mem_flatMap.mp hdraft
  obtain ⟨visit, -, hvisit⟩ := exists_of_mem_mapM hvisits hentry
  exact (visitDrafts_moves hvisit).mono hitems draft hdraft

/-! ### Commits -/

section commit

variable {store store' : TeamStore p} {command : AuthoritativeTickSliceCommit p} {event : TeamEvent}
  {board : JiraBoard}

/-- No commit adds or drops an item. -/
theorem Committed.mem_items (hcommitted : Committed store command store')
    (hreach : (teamRuns p).Reachable store) (hof : CommandOf store.state event command)
    (item : Uuid) : item ∈ store'.scrum.workItems.map (·.id) ↔
      item ∈ store.scrum.workItems.map (·.id) := by
  constructor
  · intro hitem
    obtain ⟨work', hwork', rfl⟩ := List.mem_map.mp hitem
    obtain ⟨work, hwork, hsame⟩ := hcommitted.origin hreach hof hwork'
    exact hsame.id ▸ List.mem_map_of_mem hwork
  · intro hitem
    obtain ⟨work, hwork, rfl⟩ := List.mem_map.mp hitem
    obtain ⟨work', hwork', hsame⟩ := hcommitted.origin_of_mem hreach hof hwork
    exact hsame.id ▸ List.mem_map_of_mem hwork'

theorem Mirrors.of_boundary (h : Mirrors store.scrum.toScrumCollections board)
    (hreach : (teamRuns p).Reachable store) (hcommitted : Committed store command store')
    (hof : CommandOf store.state event command) {instant : ℤ} {transition : SprintTransition p}
    (hstep : BoundaryStep store.state instant transition)
    (hstate : command.state = transition.state)
    (hprojection : command.liveSlice.projectionIntents = transition.projectionIntents)
    (hboard : JiraBoard.ofLedger store.projection = some board) :
    ∃ board', JiraBoard.ofLedger store'.projection = some board' ∧
      Mirrors store'.scrum.toScrumCollections board' := by
  have hplanned := PlannedFirst.of_reachable hreach
  have hitems := fun item => (h.issues item).trans (hcommitted.mem_items hreach hof item).symm
  have happend := hcommitted.projection
  rw [hprojection] at happend
  cases hstep with
  | quiet hquiet =>
    subst hquiet
    -- a quiet boundary writes no records and no intents
    have hempty : command.state.toScrumCollections = {} := by rw [hstate]; rfl
    refine ⟨board, JiraBoard.ofLedger_of_transitions happend hboard (List.forall_mem_nil _), ?_⟩
    exact h.congr (hcommitted.mem_items hreach hof)
      (fun _ => hcommitted.mem_of_empty Collection.sprints (fun _ _ _ => rfl) hempty)
      fun _ => hcommitted.mem_of_empty Collection.sprintScope (fun _ _ _ => rfl) hempty
  | activates sprint draws selected context hmem hlifecycle _ _ _ _ _ _ hsprints hscope hcontext
      htransition =>
    subst htransition
    obtain ⟨board', hreplay, hmirrors⟩ := h.activates hcommitted hplanned hitems hmem hlifecycle
      hcontext.2.2.1 hstate hsprints hscope
    refine ⟨board', ?_, hmirrors⟩
    -- a planned sprint is not on the board yet, so none of the payloads shows
    have hnone := h.sprint?_of_planned hplanned hmem hlifecycle
    rw [JiraBoard.ofLedger_appendDrafts happend hboard
      (buildProjectionIntents_nodup context (by decide)) ?_, activationTransition_payloads, hreplay]
    intro draft hdraft
    have hpayload := List.mem_map_of_mem (f := (·.payload)) hdraft
    rw [activationTransition_payloads] at hpayload
    simp only [beginPayloads, List.mem_cons, List.not_mem_nil, or_false] at hpayload
    rcases hpayload with heq | heq | heq
    all_goals
      rw [heq]
      exact fun hshows => hshows (hnone _)
  | rolls sprint successor draws carryIds backlogIds context counter hmem hactive _ _ _ _ _ _ _
      hcounter hsuccessor _ hsprints hscope hcontext htransition =>
    subst htransition
    obtain ⟨hvalid, hnextActive, hteam, hordinal, -⟩ := hsuccessor
    -- the successor takes the next ordinal of the counter
    have hfresh : successor.id ∉ store.scrum.sprints.map (·.id) := by
      rw [hvalid.id, hteam, hordinal]
      exact (sprintsCounted_of_reachable hreach).not_mem_of_counter
        store.scrum.complete.toConsistent hcounter.1 hcounter.2
    obtain ⟨board', hreplay, hmirrors⟩ := h.rolls hcommitted hplanned hitems hmem hactive
      hnextActive hfresh ⟨hcontext.2.1, hcontext.2.2.1⟩ hstate hsprints hscope
    refine ⟨board', ?_, hmirrors⟩
    have hnone : board.sprint? successor.id = none := by
      by_contra hne
      obtain ⟨other, hother, hid, -⟩ := h.shown _ hne
      exact hfresh (hid ▸ List.mem_map_of_mem hother)
    rw [JiraBoard.ofLedger_appendDrafts happend hboard
      (buildProjectionIntents_nodup context (by decide)) ?_, rolloverTransition_payloads, hreplay]
    intro draft hdraft
    have hpayload := List.mem_map_of_mem (f := (·.payload)) hdraft
    rw [rolloverTransition_payloads] at hpayload
    simp only [beginPayloads, hcontext.2.1, hcontext.2.2.1, List.mem_cons, List.not_mem_nil,
      or_false] at hpayload
    rcases hpayload with heq | heq | heq | heq
    · -- the sprint that ends is active on the board
      rw [heq]
      rintro ⟨shown, hshown, hclosed⟩
      obtain ⟨other, hother, hshows⟩ := h.begun sprint hmem (by rw [hactive]; decide)
      rw [hother, Option.some.injEq] at hshown
      subst hshown
      rcases hshows.phase with ⟨-, hphase⟩ | ⟨hcompleted, -⟩
      · rw [hphase] at hclosed
        cases hclosed
      · rw [hactive] at hcompleted
        cases hcompleted
    all_goals
      rw [heq]
      exact fun hshows => hshows hnone

/-- Every commit keeps the board of the ledger up to date. -/
theorem Mirrors.of_commit (h : Mirrors store.scrum.toScrumCollections board)
    (hreach : (teamRuns p).Reachable store) (hcommitted : Committed store command store')
    (hof : CommandOf store.state event command)
    (hboard : JiraBoard.ofLedger store.projection = some board) :
    ∃ board', JiraBoard.ofLedger store'.projection = some board' ∧
      Mirrors store'.scrum.toScrumCollections board' := by
  have hitems := hcommitted.mem_items hreach hof
  have happend := hcommitted.projection
  cases hof with
  | tick request draws advance _ _ hadvance hslice _ hassembled =>
    obtain ⟨outcome, finish, hrun⟩ := tickAdvance_eq_ok hadvance
    obtain ⟨hsprints, hscope⟩ := hcommitted.tick_frame hrun hassembled
    have hmoves := tickSlice_moves (evaluateDueRisks_moves hrun.risks)
      (applyRules_items (evaluateDueRisks_working hrun.risks hrun.working)) hslice
    refine ⟨board, JiraBoard.ofLedger_of_transitions happend hboard fun draft hdraft => ?_,
      h.congr hitems hsprints hscope⟩
    obtain ⟨issue, hissue, hmoved⟩ := hmoves draft hdraft
    exact ⟨issue, (h.issues issue).mpr hissue, hmoved⟩
  | boundary instant transition hcursor hstep htime hstate hclaims hactivity hprojection htruth
      hdue =>
    exact h.of_boundary hreach hcommitted
      (.boundary instant transition hcursor hstep htime hstate hclaims hactivity hprojection htruth
        hdue) hstep hstate hprojection hboard
  | downtime hstate _ hprojection =>
    rw [hprojection] at happend
    exact ⟨board, JiraBoard.ofLedger_of_transitions happend hboard (List.forall_mem_nil _),
      h.congr hitems (fun _ => hcommitted.mem_of_empty Collection.sprints (fun _ _ _ => rfl) hstate)
        fun _ => hcommitted.mem_of_empty Collection.sprintScope (fun _ _ _ => rfl) hstate⟩

end commit

/-! ### The bootstrap -/

/-- The intents of new issues add them to the board. -/
theorem replay_issues (context : ProvisioningContext p) (boardKey : SemanticKey)
    {items : List WorkItemState} (hnodup : (items.map (·.id)).Nodup) (board : JiraBoard)
    (hfresh : ∀ work ∈ items, work.id ∉ board.issues) :
    replay JiraBoard.apply ((items.map (issueIntent context boardKey)).map (·.payload)) board =
      some { board with issues := board.issues ++ items.map (·.id) } := by
  induction items generalizing board with
  | nil =>
    show some board = some { board with issues := board.issues ++ [] }
    rw [List.append_nil]
  | cons work items ih =>
    rw [List.map_cons, List.nodup_cons] at hnodup
    have hfirst : board.apply (issueIntent context boardKey work).payload =
        some { board with issues := board.issues ++ [work.id] } :=
      if_neg (hfresh work List.mem_cons_self)
    rw [List.map_cons, List.map_cons, replay_cons, hfirst, Option.bind_some, ih hnodup.2]
    · simp
    · intro other hother hmem
      rcases List.mem_append.mp hmem with hold | hnew
      · exact hfresh other (List.mem_cons_of_mem _ hother) hold
      · rw [List.mem_singleton] at hnew
        exact hnodup.1 (hnew ▸ List.mem_map_of_mem hother)

theorem replay_provisioningIntents (context : ProvisioningContext p)
    (hnodup : (context.state.scrum.workItems.map (·.id)).Nodup) :
    replay JiraBoard.apply ((provisioningIntents context).map (·.payload)) {} =
      some {
        projects := [context.state.aggregate.blueprint.jira.projectKey]
        boards := [context.state.aggregate.blueprint.jira.projectKey]
        issues := context.state.scrum.workItems.map (·.id) } :=
  replay_issues context _ hnodup
    { projects := [context.state.aggregate.blueprint.jira.projectKey]
      boards := [context.state.aggregate.blueprint.jira.projectKey] } fun _ _ => List.not_mem_nil

theorem provisioningIntents_keys (context : ProvisioningContext p)
    (hnodup : (context.state.scrum.workItems.map (·.id)).Nodup) :
    ((provisioningIntents context).map (·.semanticKey)).Nodup := by
  set board := boardIntent context (projectIntent context).semanticKey with hboard
  have hissues : ((context.state.scrum.workItems.map (issueIntent context board.semanticKey)).map
      (·.semanticKey)).Nodup := by
    rw [List.map_map]
    refine (List.nodup_map_iff_inj_on hnodup.of_map).mpr ?_
    intro a ha b hb hab
    refine List.inj_on_of_nodup_map hnodup ha hb ?_
    simpa [issueIntent, provisioningIntent] using hab
  refine List.nodup_cons.mpr ⟨?_, List.nodup_cons.mpr ⟨?_, hissues⟩⟩
  · simp [boardAndIssueIntents, boardIntent, projectIntent, issueIntent, provisioningIntent]
  · simp [boardIntent, issueIntent, provisioningIntent]

theorem initialProvisioningIntents_keys (context : ProvisioningContext p)
    (hnodup : (context.state.scrum.workItems.map (·.id)).Nodup) :
    ((initialProvisioningIntents context).map (·.semanticKey)).Nodup := by
  have hkeys := provisioningIntents_keys context hnodup
  unfold initialProvisioningIntents
  split
  · exact hkeys
  · rename_i sprint _
    rw [List.map_append]
    refine hkeys.append ?_ ?_
    · simp [activeSprintIntents, createSprintIntent, scopeSprintIntent, startSprintIntent,
        provisioningIntent]
    · intro key hkey hsprint
      simp [activeSprintIntents, createSprintIntent, scopeSprintIntent, startSprintIntent,
        provisioningIntents, boardAndIssueIntents, boardIntent, projectIntent, issueIntent,
        provisioningIntent] at hkey hsprint
      rcases hsprint with rfl | rfl | rfl <;> simp at hkey

theorem Bootstrapped.mirrors {start : TeamStart} {draws : DrawSource} {context : BootstrapContext}
    {picked : List Uuid} {initial : ScrumStateWriteSet p} {store : TeamStore p}
    (h : Bootstrapped start draws context picked initial store) :
    ∃ board, JiraBoard.ofLedger store.projection = some board ∧
      Mirrors store.scrum.toScrumCollections board := by
  obtain ⟨provisioning, hprovisioning, happend⟩ := h.provisioned
  simp only [composeInitialJiraProvisioning, provisioningCommit, bind_eq_ok,
    validated_eq_ok] at hprovisioning
  obtain ⟨composed, hcomposed, -, rfl⟩ := hprovisioning
  obtain ⟨hstate, -, -⟩ := provisioningContext_eq_ok.mp hcomposed
  have hnodup : (composed.state.scrum.workItems.map (·.id)).Nodup := by
    rw [hstate]
    exact store.scrum.complete.keysUnique.workItems
  have hsprints : ∀ sprint, sprint ∈ store.scrum.sprints ↔ sprint = context.sprint := by
    intro sprint
    rw [show sprint ∈ store.scrum.sprints ↔ _ from h.mem_rows Collection.sprints]
    show sprint ∈ initial.sprints ↔ _
    rw [h.initialRows.sprints, List.mem_singleton]
  have hledger : store.projection = initialProvisioningIntents composed := by
    refine (appendDrafts_of_fresh happend (initialProvisioningIntents_keys composed hnodup)
      fun draft _ hmem => ?_).trans (List.nil_append _)
    cases hmem
  have hitems : ∀ item, item ∈ composed.state.scrum.workItems.map (·.id) ↔
      item ∈ store.scrum.workItems.map (·.id) := by
    intro item
    rw [hstate]
    rfl
  rw [hledger]
  unfold initialProvisioningIntents
  split
  · rename_i hnone
    refine ⟨_, replay_provisioningIntents composed hnodup, ?_⟩
    refine ⟨List.nodup_nil, hitems, fun sprint hsprint hbegun => ?_, fun id hid => absurd rfl hid⟩
    -- a sprint that has begun would be found
    rw [hstate, List.find?_eq_none] at hnone
    have hactive : sprint.lifecycle = .ACTIVE := by
      rw [(hsprints sprint).mp hsprint] at hbegun ⊢
      rcases (initialSprint_eq_ok h.initialRows.sprint_eq).2.2 with hplanned | ⟨hactive, -⟩
      · exact absurd hplanned hbegun
      · exact hactive
    exact absurd (decide_eq_true hactive) (hnone sprint hsprint)
  · rename_i active hactive
    have hmem := List.mem_of_find?_eq_some hactive
    rw [hstate] at hmem
    have hlifecycle : active.lifecycle = .ACTIVE := by
      simpa using List.find?_some hactive
    rw [JiraBoard.ofLedger, List.map_append, replay_append,
      replay_provisioningIntents composed hnodup, Option.bind_some]
    refine Mirrors.begins _ _ store.scrum.complete List.nodup_nil hitems hmem hlifecycle
      (fun other hother hne => ?_) (fun id hid => absurd rfl hid) fun item => ?_
    · exact absurd (((hsprints other).mp hother).trans ((hsprints active).mp hmem).symm) hne
    · rw [mem_scopedIssueIds, hstate]
      refine exists_congr fun entry => and_congr_right fun hentry => and_congr_right fun _ =>
        and_iff_right ?_
      have hinitial : entry ∈ initial.sprintScope := (h.mem_rows Collection.sprintScope).mp hentry
      rw [h.initialRows.scope] at hinitial
      obtain ⟨picked', -, rfl⟩ := List.mem_map.mp hinitial
      rfl

/-! ### Runs -/

/-- The ledger of every reachable store is replayed without a refusal: each item is created once and
before it comes into the scope of a sprint, each sprint that has begun is created, scoped and
started once, in this order, and completed once, before its successor starts.  The board that it
describes shows exactly the items and the begun sprints of the store. -/
theorem board_mirrors_sprints {store : TeamStore p} (h : (teamRuns p).Reachable store) :
    ∃ board, JiraBoard.ofLedger store.projection = some board ∧
      Mirrors store.scrum.toScrumCollections board := by
  refine run_induction (I := fun store => ∃ board,
    JiraBoard.ofLedger store.projection = some board ∧
      Mirrors store.scrum.toScrumCollections board) h ?_ ?_ ?_
  · exact fun _ _ _ _ _ _ _ hboot => hboot.mirrors
  · intro store store' hreach hmirrors hprovision
    obtain ⟨provisioning, hprovisioning, happend⟩ := hprovision.appended
    obtain ⟨context, hcontext, hsubset⟩ := provisioned_of_reachable hreach
    simp only [composeJiraProvisioning, hcontext, provisioningCommit, ok_bind,
      validated_eq_ok] at hprovisioning
    obtain ⟨-, rfl⟩ := hprovisioning
    rw [hprovision.same, appendDrafts_of_subset happend hsubset]
    exact hmirrors
  · rintro store event command store' hreach ⟨board, hboard, hmirrors⟩ - - hof hcommitted
    exact hmirrors.of_commit hreach hcommitted hof hboard

/-- The board after the first boundary of the small team: one sprint is closed, the next is active.
-/
theorem board_mirrors_sprints_smallTeam :
    ∃ store board, runTeam utcPlatform (startAfter rejectingBlueprint (-1)) [
        .downtimeEvidence (firstMonday + 400 * microsecondsPerHour),
        .lifecycleBoundary (firstMonday + 400 * microsecondsPerHour),
        .lifecycleBoundary (firstMonday + 400 * microsecondsPerHour),
        .skipDowntime (firstMonday + 400 * microsecondsPerHour)] = .ok store ∧
      JiraBoard.ofLedger store.projection = some board ∧
      board.sprints.map (·.phase) = [.CLOSED, .ACTIVE] ∧
      Mirrors store.scrum.toScrumCollections board := by
  obtain ⟨_, h⟩ := exists_of_succeeds (do
    let store ← runTeam utcPlatform (startAfter rejectingBlueprint (-1)) [
      .downtimeEvidence (firstMonday + 400 * microsecondsPerHour),
      .lifecycleBoundary (firstMonday + 400 * microsecondsPerHour),
      .lifecycleBoundary (firstMonday + 400 * microsecondsPerHour),
      .skipDowntime (firstMonday + 400 * microsecondsPerHour)]
    require ((JiraBoard.ofLedger store.projection).map (·.sprints.map (·.phase)) =
      some [.CLOSED, .ACTIVE]) "other phases")
    (by decide +kernel)
  simp only [bind_eq_ok, require_eq_ok] at h
  obtain ⟨store, hrun, hphases⟩ := h
  have hrun' := hrun
  simp only [runTeam, bind_eq_ok] at hrun'
  obtain ⟨first, hfirst, hevents⟩ := hrun'
  have hreach := reachableBy_of_foldlM hevents (scriptMeets_true first _) (.start hfirst rfl)
  obtain ⟨board, hboard, hmirrors⟩ := board_mirrors_sprints hreach.reachable
  rw [hboard, Option.map_some, Option.some.injEq] at hphases
  exact ⟨store, board, hrun, hboard, hphases, hmirrors⟩

end JiraSimulator
