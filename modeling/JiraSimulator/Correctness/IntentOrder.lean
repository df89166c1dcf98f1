import JiraSimulator.Application.Runtime
import JiraSimulator.Correctness.DeliveryQueue
import JiraSimulator.Correctness.RiskWindow
import JiraSimulator.Correctness.Scripts

/-!
# No intent is blocked by a dependency

The intents of a commit need only intents of the same commit that stand before them, and a ledger
keeps its intents in the order of their commits.  So what an intent needs stands before it in the
ledger of its team, and the oldest outstanding intent of a team needs only delivered ones.

* `projection_grounded`: the ledger of every reachable store.
* `linked_of_reachable`: the rows that the workers read are the ledgers of the teams.
* `intents_never_blocked`: the oldest outstanding intent of a team is ready once it is due.
-/

namespace JiraSimulator

open Library Library.Outcome Library.Outbox Library.Transition

variable {p : Platform}

/-- The intents depend on known keys and on intents before them. -/
abbrev DependsBackwards (known : Set SemanticKey) (drafts : List ProjectionIntentDraft) : Prop :=
  Grounded (·.semanticKey) (·.dependsOn) known drafts

/-! ### The intents of one commit -/

theorem provisioningIntents_grounded (context : ProvisioningContext p) :
    DependsBackwards ∅ (provisioningIntents context) := by
  refine ⟨fun key hkey => absurd hkey List.not_mem_nil, ?_, ?_⟩
  · -- The board depends on the project.
    intro key hkey
    rw [List.mem_singleton.mp hkey]
    exact Set.mem_insert _ _
  · -- Every issue depends on the board.
    refine grounded_of_known fun draft hdraft key hkey => ?_
    obtain ⟨work, -, rfl⟩ := List.mem_map.mp hdraft
    rw [List.mem_singleton.mp hkey]
    exact Set.mem_insert _ _

theorem activeSprintIntents_grounded {known : Set SemanticKey} (context : ProvisioningContext p)
    (sprint : SprintState) {predecessors : List ProjectionIntentDraft}
    (hknown : ∀ draft ∈ predecessors, draft.semanticKey ∈ known) :
    DependsBackwards known (activeSprintIntents context sprint predecessors) := by
  refine ⟨?_, ?_, ?_, trivial⟩
  · intro key hkey
    obtain ⟨draft, hdraft, rfl⟩ := List.mem_map.mp hkey
    exact hknown draft hdraft
  · intro key hkey
    rw [List.mem_singleton.mp hkey]
    exact Set.mem_insert _ _
  · intro key hkey
    rw [List.mem_singleton.mp hkey]
    exact Set.mem_insert _ _

theorem initialProvisioningIntents_grounded (context : ProvisioningContext p) :
    DependsBackwards ∅ (initialProvisioningIntents context) := by
  unfold initialProvisioningIntents
  split
  · exact provisioningIntents_grounded context
  · rename_i sprint _
    refine grounded_append.mpr ⟨provisioningIntents_grounded context, ?_⟩
    refine activeSprintIntents_grounded context sprint fun draft hdraft => .inr ?_
    exact List.mem_map_of_mem (List.mem_cons_of_mem _ hdraft)

/-- Every operation of a boundary depends on the one before. -/
theorem buildProjectionIntents_grounded {known : Set SemanticKey} (context : TransitionContext p)
    {dependency : List SemanticKey} (hknown : ∀ key ∈ dependency, key ∈ known)
    (operations : List ProjectionOperation) :
    DependsBackwards known (buildProjectionIntents context dependency operations) := by
  induction operations generalizing known dependency with
  | nil => trivial
  | cons operation operations ih =>
    refine ⟨hknown, ih fun key hkey => ?_⟩
    rw [List.mem_singleton.mp hkey]
    exact Set.mem_insert _ _

theorem BoundaryStep.intents_grounded {state : LiveTeamState p} {boundary : ℤ}
    {transition : SprintTransition p} (h : BoundaryStep state boundary transition) :
    DependsBackwards ∅ transition.projectionIntents := by
  have hnone : ∀ key ∈ ([] : List SemanticKey), key ∈ (∅ : Set SemanticKey) := by simp
  cases h with
  | quiet h => rw [h]; trivial
  | activates sprint draws selected context _ _ _ _ _ _ _ _ _ _ _ h =>
    rw [h]
    exact buildProjectionIntents_grounded context hnone _
  | rolls sprint successor draws carryIds backlogIds context counter _ _ _ _ _ _ _ _ _ _ _ _ _ _
      _ h =>
    rw [h]
    exact buildProjectionIntents_grounded context hnone _

theorem tickSlice_grounded {state : LiveTeamState p} {request : TickRequest} {draws : DrawSource}
    {advance : RiskAdvance p} {slice : TickSliceCommit}
    (hadvance : tickAdvance state request draws = .ok advance)
    (h : tickSlice request advance = .ok slice) :
    DependsBackwards ∅ slice.projectionIntents := by
  obtain ⟨outcome, finish, hrun⟩ := tickAdvance_eq_ok hadvance
  have hrisks := evaluateDueRisks_within hrun.cursor_le hrun.risks
  have hslice := tickSlice_within hrisks hrun.cursor_le h
  refine grounded_of_known fun draft hdraft key hkey => ?_
  simp only [hslice.independent draft hdraft] at hkey
  cases hkey

/-- Every command depends backwards. -/
theorem CommandOf.intents_grounded {state : LiveTeamState p} {event : TeamEvent}
    {command : AuthoritativeTickSliceCommit p} (h : CommandOf state event command) :
    DependsBackwards ∅ command.liveSlice.projectionIntents := by
  cases h with
  | tick request draws advance _ _ hadvance hslice _ _ => exact tickSlice_grounded hadvance hslice
  | boundary instant transition _ hstep _ _ _ _ hprojection _ _ =>
    rw [hprojection]
    exact hstep.intents_grounded
  | downtime _ _ hprojection _ _ => rw [hprojection]; trivial

/-! ### The ledger of a team -/

/-- A ledger keeps its order when it appends intents that depend backwards: a draft that it leaves
out is known to it. -/
theorem appendDrafts_grounded {ledger ledger' drafts : List ProjectionIntentDraft}
    {known : Set SemanticKey} (h : appendDrafts (·.semanticKey) ledger drafts = .ok ledger')
    (hledger : DependsBackwards ∅ ledger) (hdrafts : DependsBackwards known drafts)
    (hknown : ∀ key ∈ known, key ∈ ledger.map (·.semanticKey)) : DependsBackwards ∅ ledger' := by
  induction drafts generalizing ledger known with
  | nil =>
    rw [appendDrafts, List.foldlM_nil, pure_eq_ok] at h
    exact h ▸ hledger
  | cons draft drafts ih =>
    simp only [appendDrafts, List.foldlM_cons, bind_eq_ok] at h
    obtain ⟨next, hnext, h⟩ := h
    obtain ⟨hneeds, hrest⟩ := hdrafts
    rcases appendDraft_eq_ok hnext with ⟨rfl, hmem⟩ | ⟨rfl, -⟩
    · refine ih h hledger hrest ?_
      rintro key (rfl | hkey)
      · exact List.mem_map_of_mem hmem
      · exact hknown key hkey
    · refine ih h (grounded_append.mpr ⟨hledger, fun key hkey => ?_, trivial⟩) hrest ?_
      · exact .inr (hknown key (hneeds key hkey))
      · rw [List.map_append]
        rintro key (rfl | hkey)
        · exact List.mem_append_right _ List.mem_cons_self
        · exact List.mem_append_left _ (hknown key hkey)

/-- The ledger of a store and the keys of its intents. -/
structure OrderedLedger (store : TeamStore p) : Prop where
  grounded : DependsBackwards ∅ store.projection
  keys : (store.projection.map (·.semanticKey)).Nodup

theorem OrderedLedger.append {store store' : TeamStore p} {drafts : List ProjectionIntentDraft}
    (h : OrderedLedger store) (hdrafts : DependsBackwards ∅ drafts)
    (happend : appendDrafts (·.semanticKey) store.projection drafts = .ok store'.projection) :
    OrderedLedger store' where
  grounded := appendDrafts_grounded happend h.grounded hdrafts (by simp)
  keys := appendDrafts_nodup happend h.keys

/-- In the ledger of every reachable store an intent depends only on intents before it. -/
theorem projection_grounded {store : TeamStore p} (h : (teamRuns p).Reachable store) :
    OrderedLedger store := by
  refine run_induction h ?_ ?_ ?_
  · intro start draws context picked initial store _ hboot
    obtain ⟨provisioning, hprovisioning, happend⟩ := hboot.provisioned
    simp only [composeInitialJiraProvisioning, provisioningCommit, bind_eq_ok,
      validated_eq_ok] at hprovisioning
    obtain ⟨context, -, -, rfl⟩ := hprovisioning
    exact ⟨appendDrafts_grounded happend trivial (initialProvisioningIntents_grounded context)
      (by simp), appendDrafts_nodup happend List.nodup_nil⟩
  · intro store store' _ hI hprovision
    obtain ⟨provisioning, hprovisioning, happend⟩ := hprovision.appended
    simp only [composeJiraProvisioning, provisioningCommit, bind_eq_ok,
      validated_eq_ok] at hprovisioning
    obtain ⟨context, -, -, rfl⟩ := hprovisioning
    exact hI.append (provisioningIntents_grounded context) happend
  · intro store event command store' _ hI _ _ hof hcommitted
    exact hI.append hof.intents_grounded hcommitted.projection

/-- A transaction of a team keeps the intents of its ledger. -/
theorem stepTeam_projection {store store' : TeamStore p} {event : TeamEvent}
    (hreach : (teamRuns p).Reachable store) (h : stepTeam store event = .ok store') :
    ∃ added, store'.projection = store.projection ++ added := by
  have hbased := Based.of_reachable hreach
  rcases stepTeam_eq_ok hbased.loaded h with ⟨startedAt, -, hprovision⟩ | rfl |
    ⟨command, -, -, hcommitted⟩
  · obtain ⟨provisioning, -, happend⟩ := (provision_eq_ok hbased hprovision).appended
    obtain ⟨added, hadded, -⟩ := appendDrafts_eq_ok happend
    exact ⟨added, hadded⟩
  · exact ⟨[], (List.append_nil _).symm⟩
  · obtain ⟨added, hadded, -⟩ := appendDrafts_eq_ok hcommitted.projection
    exact ⟨added, hadded⟩

/-! ### The rows of the delivery -/

/-- The intents of a team, as the drafts that its transactions appended. -/
def DeliveryRows.ledgerOf (rows : DeliveryRows) (teamId : Uuid) : List ProjectionIntentDraft :=
  (rows.intents.filter fun intent => intent.teamId = teamId).map (·.toProjectionIntentDraft)

theorem DeliveryRows.Valid.ledgerOf_keys {rows : DeliveryRows} (h : rows.Valid) (teamId : Uuid) :
    ((rows.ledgerOf teamId).map (·.semanticKey)).Nodup := by
  rw [DeliveryRows.ledgerOf, List.map_map]
  exact h.keys.sublist ((List.filter_sublist ..).map _)

/-- An appended draft stands in the ledger of its team as the store of the team has it. -/
theorem appendIntent_ledgerOf {rows rows' : DeliveryRows} {teamId : Uuid}
    {draft : ProjectionIntentDraft} (h : rows.Valid)
    (hok : DeliveryRows.appendIntent teamId rows draft = .ok rows') :
    appendDraft (·.semanticKey) (rows.ledgerOf teamId) draft = .ok (rows'.ledgerOf teamId) ∧
      ∀ other, other ≠ teamId → rows'.ledgerOf other = rows.ledgerOf other := by
  unfold DeliveryRows.appendIntent at hok
  unfold appendDraft
  cases hlookup : Keyed.lookup (·.semanticKey) rows.intents draft.semanticKey with
  | some intent =>
    rw [hlookup] at hok
    simp only at hok
    split_ifs at hok with hsame
    cases hok
    obtain ⟨hteam, rfl⟩ := hsame
    have hmem : intent ∈ rows.intents := ((Keyed.lookup_eq_some _ h.keys).mp hlookup).1
    have hledger : intent.toProjectionIntentDraft ∈ rows.ledgerOf teamId :=
      List.mem_map_of_mem (List.mem_filter.mpr ⟨hmem, by simpa using hteam⟩)
    have hknown := (Keyed.lookup_eq_some _ (h.ledgerOf_keys teamId)).mpr ⟨hledger, rfl⟩
    refine ⟨?_, fun _ _ => rfl⟩
    rw [hknown]
    exact if_pos rfl
  | none =>
    rw [hlookup, Except.ok.injEq] at hok
    subst hok
    have hnew : draft.semanticKey ∉ rows.intents.map (·.semanticKey) :=
      (Keyed.lookup_eq_none _).mp hlookup
    have hunknown : Keyed.lookup (·.semanticKey) (rows.ledgerOf teamId) draft.semanticKey = none := by
      refine (Keyed.lookup_eq_none _).mpr fun hmem => hnew ?_
      rw [DeliveryRows.ledgerOf, List.map_map] at hmem
      exact ((List.filter_sublist ..).map _).subset hmem
    rw [hunknown]
    constructor
    · simp [DeliveryRows.ledgerOf, List.filter_append]
    · intro other hother
      simp [DeliveryRows.ledgerOf, List.filter_append, hother.symm]

theorem appendIntents_ledgerOf {rows rows' : DeliveryRows} {teamId : Uuid}
    {drafts : List ProjectionIntentDraft} (h : rows.Valid)
    (hok : rows.appendIntents teamId drafts = .ok rows') :
    appendDrafts (·.semanticKey) (rows.ledgerOf teamId) drafts = .ok (rows'.ledgerOf teamId) ∧
      ∀ other, other ≠ teamId → rows'.ledgerOf other = rows.ledgerOf other := by
  induction drafts generalizing rows with
  | nil =>
    rw [DeliveryRows.appendIntents, List.foldlM_nil, pure_eq_ok] at hok
    subst hok
    exact ⟨rfl, fun _ _ => rfl⟩
  | cons draft drafts ih =>
    simp only [DeliveryRows.appendIntents, List.foldlM_cons, bind_eq_ok] at hok
    obtain ⟨next, hnext, hok⟩ := hok
    obtain ⟨hfirst, hothers⟩ := appendIntent_ledgerOf h hnext
    obtain ⟨hrest, hkept⟩ := ih (DeliveryRows.appendIntent_spec h hnext).1 hok
    refine ⟨?_, fun other hother => (hkept other hother).trans (hothers other hother)⟩
    simp only [appendDrafts, List.foldlM_cons, hfirst, ok_bind]
    exact hrest

/-! ### Teams and delivery -/

/-- The delivery and the teams are reachable, and the workers read the ledgers of the teams. -/
structure TeamDatabase.Linked (database : TeamDatabase p) : Prop where
  delivery : deliveryRuns.Reachable database.delivery
  stores : ∀ teamId store, database.teams teamId = some store → (teamRuns p).Reachable store
  ledgers : ∀ teamId, database.delivery.rows.ledgerOf teamId =
    (database.teams teamId).elim [] (·.projection)

/-- A transaction that appends to the ledger of its team keeps the link. -/
theorem TeamDatabase.Linked.write {database database' : TeamDatabase p} {teamId : Uuid}
    {known added : List ProjectionIntentDraft} {store : TeamStore p} (h : database.Linked)
    (hknown : (database.teams teamId).elim [] (·.projection) = known)
    (hreach : (teamRuns p).Reachable store) (hadded : store.projection = known ++ added)
    (hok : database.write teamId known.length store = .ok database') : database'.Linked := by
  have hvalid := (sound_of_reachable h.delivery).valid
  have hkeys := (projection_grounded hreach).keys
  simp only [TeamDatabase.write, hadded, List.drop_left, bind_eq_ok, pure_eq_ok] at hok
  obtain ⟨rows, hrows, rfl⟩ := hok
  obtain ⟨happend, hothers⟩ := appendIntents_ledgerOf hvalid hrows
  rw [h.ledgers, hknown] at happend
  rw [hadded, List.map_append, List.nodup_append] at hkeys
  have hledger : rows.ledgerOf teamId = known ++ added := by
    refine appendDrafts_of_fresh happend hkeys.2.1 fun draft hdraft hmem => ?_
    exact hkeys.2.2 _ (List.mem_map_of_mem hmem) _ (List.mem_map_of_mem hdraft) rfl
  have hstep : deliveryRuns.step database.delivery (.append teamId added)
      { database.delivery with rows } := by
    simp only [deliveryRuns, DeliverySystem.step, hrows]
  refine ⟨?_, fun other store' hstore' => ?_, fun other => ?_⟩
  · exact .step h.delivery trivial hstep
  · by_cases hother : other = teamId
    · subst hother
      simp only [Function.update_self, Option.some.injEq] at hstore'
      exact hstore' ▸ hreach
    · simp only [Function.update_of_ne hother] at hstore'
      exact h.stores other store' hstore'
  · by_cases hother : other = teamId
    · subst hother
      simp only [Function.update_self, Option.elim_some]
      exact hledger.trans hadded.symm
    · simp only [Function.update_of_ne hother]
      exact (hothers other hother).trans (h.ledgers other)

theorem write_intents {rows rows' : DeliveryRows} {report : DeliveryReport}
    (h : report.write rows = .ok rows') : rows'.intents = rows.intents := by
  cases report with
  | success result =>
    simp only [DeliveryReport.write, DeliveryRows.recordSuccess, bind_eq_ok] at h
    obtain ⟨-, -, mappings, -, h⟩ := h
    split at h
    · rw [pure_eq_ok] at h
      exact h ▸ rfl
    · split_ifs at h <;>
      · rw [pure_eq_ok] at h
        exact h ▸ rfl
  | failure result =>
    simp only [DeliveryReport.write, DeliveryRows.recordFailure, bind_eq_ok] at h
    obtain ⟨-, -, h⟩ := h
    split at h
    · rw [pure_eq_ok] at h
      exact h ▸ rfl
    · split_ifs at h <;>
      · rw [pure_eq_ok] at h
        exact h ▸ rfl

/-- Only the transactions of the teams append intents. -/
theorem step_intents (s : DeliverySystem) {event : DeliveryEvent}
    (hevent : ∀ teamId drafts, event ≠ .append teamId drafts) :
    (s.step event).rows.intents = s.rows.intents := by
  cases event with
  | append teamId drafts => exact absurd rfl (hevent teamId drafts)
  | start worker asOf limit =>
    simp only [DeliverySystem.step]
    split <;> rfl
  | poll worker =>
    simp only [DeliverySystem.step]
    split <;> rfl
  | answer worker outcome =>
    simp only [DeliverySystem.step]
    split
    · split <;> rfl
    · rfl
  | record worker =>
    simp only [DeliverySystem.step]
    split
    · split
      · rename_i hwrite
        exact write_intents hwrite
      · rfl
    · rfl
  | crash worker => rfl

/-- An interaction of a worker keeps the link. -/
theorem TeamDatabase.Linked.worker {database : TeamDatabase p} (h : database.Linked)
    {event : DeliveryEvent} (hevent : ∀ teamId drafts, event ≠ .append teamId drafts) :
    TeamDatabase.Linked { database with delivery := database.delivery.step event } where
  delivery := .step h.delivery trivial rfl
  stores := h.stores
  ledgers teamId := by
    rw [← h.ledgers teamId, DeliveryRows.ledgerOf, DeliveryRows.ledgerOf,
      step_intents database.delivery hevent]

theorem linked_of_reachable {database : TeamDatabase p} (h : (databaseRuns p).Reachable database) :
    database.Linked := by
  refine h.invariant ?_ ?_
  · rintro - database rfl
    exact ⟨.start (i := ()) rfl trivial, by simp [TeamDatabase.empty], fun _ => rfl⟩
  · intro database event database' _ hI hstep
    cases event with
    | create start =>
      simp only [databaseRuns, TeamDatabase.step] at hstep
      cases hteam : database.teams (.team start.blueprint.sha256) with
      | some store =>
        rw [hteam] at hstep
        cases hstep
        exact hI
      | none =>
        simp only [hteam, bind_eq_ok] at hstep
        obtain ⟨store, hstore, hwrite⟩ := hstep
        -- a team that is new has an empty ledger
        have hknown : (database.teams (.team start.blueprint.sha256)).elim []
            (·.projection) = ([] : List ProjectionIntentDraft) := by
          rw [hteam]
          rfl
        exact hI.write hknown (.start hstore trivial) rfl hwrite
    | team teamId event =>
      simp only [databaseRuns, TeamDatabase.step] at hstep
      cases hteam : database.teams teamId with
      | none =>
        rw [hteam] at hstep
        cases hstep
      | some store =>
        simp only [hteam, bind_eq_ok] at hstep
        obtain ⟨store', hstore', hwrite⟩ := hstep
        have hreach := hI.stores teamId store hteam
        -- a step of the team appends to its ledger, and the outbox takes what is appended
        obtain ⟨added, hadded⟩ := stepTeam_projection hreach hstore'
        have hnext : (teamRuns p).Reachable store' := .step hreach trivial hstore'
        exact hI.write (by rw [hteam]; rfl) hnext hadded hwrite
    | worker event =>
      cases event with
      -- intents are appended by the commits of teams, a worker only delivers them
      | append teamId drafts =>
        cases hstep
        exact hI
      | start worker asOf limit =>
        cases hstep
        exact hI.worker (by simp)
      | poll worker =>
        cases hstep
        exact hI.worker (by simp)
      | answer worker outcome =>
        cases hstep
        exact hI.worker (by simp)
      | record worker =>
        cases hstep
        exact hI.worker (by simp)
      | crash worker =>
        cases hstep
        exact hI.worker (by simp)

/-! ### The heads of the teams -/

/-- What an intent needs is an earlier intent of its team. -/
theorem TeamDatabase.Linked.depends_earlier {database : TeamDatabase p} (h : database.Linked)
    {intent : ProjectionIntent} (hintent : intent ∈ database.delivery.rows.intents) :
    ∃ store, database.teams intent.teamId = some store ∧
      intent.toProjectionIntentDraft ∈ store.projection ∧
      ∀ key ∈ intent.dependsOn, ∃ earlier ∈ database.delivery.rows.intents,
        earlier.semanticKey = key ∧ earlier.teamId = intent.teamId ∧
        earlier.toProjectionIntentDraft ∈ store.projection ∧
        earlier.appendSequence < intent.appendSequence := by
  have hvalid := (sound_of_reachable h.delivery).valid
  have hledger := h.ledgers intent.teamId
  have hmem : ∀ other ∈ database.delivery.rows.intents, other.teamId = intent.teamId →
      other.toProjectionIntentDraft ∈ database.delivery.rows.ledgerOf intent.teamId :=
    fun other hother hteam =>
      List.mem_map_of_mem (List.mem_filter.mpr ⟨hother, by simpa using hteam⟩)
  cases hstore : database.teams intent.teamId with
  | none =>
    rw [hstore, Option.elim_none] at hledger
    have hnone := hmem intent hintent rfl
    rw [hledger] at hnone
    cases hnone
  | some store =>
    rw [hstore, Option.elim_some] at hledger
    refine ⟨store, rfl, hledger ▸ hmem intent hintent rfl, fun key hkey => ?_⟩
    have hgrounded := (projection_grounded (h.stores _ store hstore)).grounded
    rw [← hledger, DeliveryRows.ledgerOf] at hgrounded
    -- the intents of one team keep the order of the whole ledger
    have hpositions := hvalid.sequences.filter fun other => other.teamId = intent.teamId
    have hself : intent ∈ database.delivery.rows.intents.filter fun other =>
        other.teamId = intent.teamId := List.mem_filter.mpr ⟨hintent, by simp⟩
    rcases ((grounded_map _).mp hgrounded).mem_of_pairwise hpositions hself hkey with hnone |
      ⟨earlier, hearlier, hkey', hlt⟩
    · exact hnone.elim
    · obtain ⟨hearlier, hteam⟩ := List.mem_filter.mp hearlier
      have hteam : earlier.teamId = intent.teamId := by simpa using hteam
      exact ⟨earlier, hearlier, hkey', hteam, hledger ▸ hmem earlier hearlier hteam, hlt⟩

/-- In every run of teams and workers, what an intent depends on is an earlier intent of its team,
and of its run, as a team has one.  So the dependencies of the oldest outstanding intent of a team
are delivered, and it is ready from its retry time on. -/
theorem intents_never_blocked {database : TeamDatabase p}
    (h : (databaseRuns p).Reachable database) :
    (∀ intent ∈ database.delivery.rows.intents, ∃ store,
      database.teams intent.teamId = some store ∧
      intent.toProjectionIntentDraft ∈ store.projection ∧
      ∀ key ∈ intent.dependsOn, ∃ earlier ∈ database.delivery.rows.intents,
        earlier.semanticKey = key ∧ earlier.teamId = intent.teamId ∧
        earlier.toProjectionIntentDraft ∈ store.projection ∧
        earlier.appendSequence < intent.appendSequence) ∧
    (∀ intent ∈ database.delivery.rows.intents,
      intent.semanticKey ∉ database.delivery.rows.delivered →
      ∃ head ∈ database.delivery.rows.firstOutstandingByTeam, head.1.teamId = intent.teamId ∧
        database.delivery.rows.dependenciesDelivered head.1 = true ∧
        ∀ asOf, (∀ receipt, head.2 = some receipt →
          ∀ instant, receipt.nextAttemptAt = some instant → instant ≤ asOf) →
          head ∈ database.delivery.rows.ready asOf) := by
  have hlinked := linked_of_reachable h
  have hvalid := (sound_of_reachable hlinked.delivery).valid
  refine ⟨fun intent hintent => hlinked.depends_earlier hintent, fun intent hintent hnot => ?_⟩
  have houtstanding : (intent, database.delivery.rows.receiptOf intent.id) ∈
      database.delivery.rows.outstanding :=
    (DeliveryRows.mem_outstanding hvalid).mpr ⟨hintent, rfl, hnot⟩
  obtain ⟨head, hhead, hteam⟩ := List.mem_map.mp ((mem_map_firsts (fun row => row.1.teamId)
    database.delivery.rows.outstanding intent.teamId).mpr (List.mem_map_of_mem houtstanding))
  obtain ⟨hmem, hearlier⟩ := (DeliveryRows.mem_firstOutstanding hvalid).mp hhead
  obtain ⟨hintents, hreceipt, hopen⟩ := (DeliveryRows.mem_outstanding hvalid).mp hmem
  -- All earlier intents of the team are delivered, and these are all that the head needs.
  have hdelivered : database.delivery.rows.dependenciesDelivered head.1 = true := by
    rw [DeliveryRows.dependenciesDelivered_iff hvalid]
    intro key hkey
    obtain ⟨store, -, -, hdepends⟩ := hlinked.depends_earlier hintents
    obtain ⟨earlier, hmem', rfl, hsame, -, hlt⟩ := hdepends key hkey
    exact hearlier earlier hmem' hsame hlt
  refine ⟨head, hhead, hteam, hdelivered, fun asOf hretry => ?_⟩
  have hdue : DeliveryRows.due head.2 asOf = true := by
    rw [hreceipt] at hretry ⊢
    refine DeliveryRows.due_of_outstanding hvalid hopen fun receipt hmem' hid => ?_
    have hreceiptOf := hvalid.receiptOf_eq hmem'
    rw [hid] at hreceiptOf
    exact hretry receipt hreceiptOf
  rw [DeliveryRows.ready, List.mem_filter, Bool.and_eq_true]
  exact ⟨hhead, hdue, hdelivered⟩

/-- The database after a list of events. -/
def runDatabase (p : Platform) (events : List DatabaseEvent) : Result (TeamDatabase p) :=
  events.foldlM TeamDatabase.step .empty

theorem reachable_of_runDatabase {events : List DatabaseEvent} {database : TeamDatabase p}
    (h : runDatabase p events = .ok database) : (databaseRuns p).Reachable database :=
  foldlM_induction h (.start (i := ()) rfl trivial) fun _ _ _ _ hreach hstep =>
    .step hreach trivial hstep

/-- The small team is created and ticks while a worker delivers its project. -/
def provisionedTeam : List DatabaseEvent :=
  let team : Uuid := .team rejectingBlueprint.sha256
  let project : SemanticKey := .jiraProvisioning team (.run team 0) .project
  [ .create (startAfter rejectingBlueprint 0),
    .worker (.start 0 firstMonday 1), .worker (.poll 0),
    .team team (tickUntil utcPlatform rejectingBlueprint 1),
    .worker (.answer 0 (.delivered ⟨project, [⟨team, "project", team, "10000", some "P"⟩], 0⟩)),
    .worker (.record 0) ]

/-- The board of the small team is ready once its project is delivered. -/
theorem intents_never_blocked_smallTeam :
    ∃ database, runDatabase utcPlatform provisionedTeam = .ok database ∧
      (∃ intent ∈ database.delivery.rows.intents,
        intent.semanticKey ∉ database.delivery.rows.delivered) ∧
      ∀ intent ∈ database.delivery.rows.intents,
        intent.semanticKey ∉ database.delivery.rows.delivered →
        ∃ head ∈ database.delivery.rows.firstOutstandingByTeam, head.1.teamId = intent.teamId ∧
          database.delivery.rows.dependenciesDelivered head.1 = true ∧
          ∀ asOf, (∀ receipt, head.2 = some receipt →
            ∀ instant, receipt.nextAttemptAt = some instant → instant ≤ asOf) →
            head ∈ database.delivery.rows.ready asOf := by
  obtain ⟨database, hrun⟩ := exists_of_succeeds (runDatabase utcPlatform provisionedTeam)
    (by decide +kernel)
  have hreach := reachable_of_runDatabase hrun
  refine ⟨database, hrun, ?_, (intents_never_blocked hreach).2⟩
  have hvalid := (sound_of_reachable (linked_of_reachable hreach).delivery).valid
  have hboard : (runDatabase utcPlatform provisionedTeam).toOption.any (fun database =>
      database.delivery.rows.intents.any fun intent =>
        DeliveryRows.isOutstanding (database.delivery.rows.receiptOf intent.id)) = true := by
    decide +kernel
  rw [hrun] at hboard
  obtain ⟨intent, hintent, hopen⟩ := List.any_eq_true.mp hboard
  refine ⟨intent, hintent, fun hdelivered => ?_⟩
  have hclosed : DeliveryRows.isOutstanding (database.delivery.rows.receiptOf intent.id) = false :=
    hvalid.mem_delivered.mp hdelivered
  rw [hclosed] at hopen
  cases hopen

end JiraSimulator
