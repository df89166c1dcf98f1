import JiraSimulator.Correctness.Steps
import JiraSimulator.Domain.RecordIdentity

/-!
# Composition of write sets

The identities that `scrum_tick.py` and `risks.py` read off the attributes of a row are the keys of
its collection, so both copies of `_with_write_set` and `_merge_write_sets` update the collections
by these keys.  The changes of a valid update are valid themselves; with that, the laws of updates
carry over to the checked values.
* `updatedCollections_eq`: the dictionaries of rows are keyed updates.
* `consistent_of_updateWith`: the changes of a valid update are valid.
* `write_sets_compose`: overlays in a row are one overlay by the merged write set, merging is
  associative with the empty write set as identity, and a tick commits the overlay of its progress
  over its risks.
-/

namespace JiraSimulator

open Library Library.Outcome ScrumCollections

variable {p : Platform}

/-! ### The identities of the two modules -/

theorem riskIdentity_eq_stateIdentity : riskIdentity = stateIdentity := by
  funext record
  cases record with
  | memberIdentity row => rfl
  | availabilityOverlay row => rfl
  | businessDateConsumption row => rfl
  | workItem row => rfl
  | workItemFactor row => rfl
  | sprint row => rfl
  | scopeEntry row => rfl
  | statusVisit row => rfl
  | visitSample row => rfl
  | semanticCounter row => rfl
  | naturalEvaluation row => rfl

/-- Every row has an identity. -/
theorem exists_stateIdentity (record : ScrumRecord) : ∃ key, stateIdentity record = .ok key := by
  cases record with
  | memberIdentity row => exact ⟨.uuid row.id, rfl⟩
  | availabilityOverlay row => exact ⟨.uuid row.id, rfl⟩
  | businessDateConsumption row => exact ⟨.memberDate row.memberId row.businessDate, rfl⟩
  | workItem row => exact ⟨.uuid row.id, rfl⟩
  | workItemFactor row => exact ⟨.uuid row.id, rfl⟩
  | sprint row => exact ⟨.uuid row.id, rfl⟩
  | scopeEntry row => exact ⟨.uuid row.id, rfl⟩
  | statusVisit row => exact ⟨.uuid row.id, rfl⟩
  | visitSample row => exact ⟨.uuid row.visitId, rfl⟩
  | semanticCounter row => exact ⟨.scope row.scope, rfl⟩
  | naturalEvaluation row => exact ⟨.uuid row.id, rfl⟩

/-! ### Dictionaries of rows are keyed updates -/

section dictionaries

variable {α κ : Type} [DecidableEq κ] {identity : ScrumRecord → Result RecordIdentity}
  {record : α → ScrumRecord} (key : α → κ) (name : κ → RecordIdentity)

theorem recordsOf_eq (hname : name.Injective)
    (hidentity : ∀ row, identity (record row) = .ok (name (key row))) (items : List α) :
    recordsOf identity record items =
      .ok ((Keyed.ofList key items).map fun row => (name (key row), row)) := by
  have hentries : (items.mapM fun item => do
      let key ← identity (record item)
      return (key, item)) = .ok (items.map fun row => (name (key row), row)) := by
    rw [mapM_eq_ok, List.forall₂_map_right_iff, List.forall₂_same]
    intro row _
    rw [hidentity, ok_bind]
    rfl
  have htagged : Keyed.ofList Prod.fst (items.map fun row => (name (key row), row)) =
      (Keyed.ofList key items).map fun row => (name (key row), row) :=
    @Keyed.ofList_map _ _ _ key _ _ _ Prod.fst (fun row => (name (key row), row))
      (fun _ _ => hname.eq_iff) items
  rw [recordsOf, hentries, ok_bind, htagged]
  rfl

theorem updatedRecords_eq (hname : name.Injective)
    (hidentity : ∀ row, identity (record row) = .ok (name (key row))) (existing changes : List α) :
    updatedRecords identity record existing changes =
      .ok (Keyed.update key (Keyed.ofList key existing) changes) := by
  have hfirst : ∀ rows : List α, (rows.map fun row => (name (key row), row)).map Prod.snd = rows :=
    fun rows => by rw [List.map_map, Function.comp_def, List.map_id']
  have htagged : ∀ rows changes : List α,
      Keyed.update Prod.fst (rows.map fun row => (name (key row), row))
          (changes.map fun row => (name (key row), row)) =
        (Keyed.update key rows changes).map fun row => (name (key row), row) :=
    @Keyed.update_map _ _ _ key _ _ _ Prod.fst (fun row => (name (key row), row))
      fun _ _ => hname.eq_iff
  rw [updatedRecords, recordsOf_eq key name hname hidentity,
    recordsOf_eq key name hname hidentity, ok_bind, ok_bind, htagged, hfirst, Keyed.update_ofList]
  rfl

end dictionaries

/-- The rebuilt collections are the updated ones. -/
theorem updatedCollections_eq (existing changes : ScrumCollections) :
    updatedCollections stateIdentity existing changes = .ok (existing.updateWith changes) := by
  have huuid : RecordIdentity.uuid.Injective := fun _ _ => RecordIdentity.uuid.inj
  have hscope : RecordIdentity.scope.Injective := fun _ _ => RecordIdentity.scope.inj
  have hdate : Function.Injective fun key : Uuid × ℤ =>
      RecordIdentity.memberDate key.1 key.2 := by
    intro a b hkey
    obtain ⟨hmember, hdate⟩ := RecordIdentity.memberDate.inj hkey
    exact Prod.ext hmember hdate
  unfold updatedCollections
  rw [updatedRecords_eq (·.id) .uuid huuid fun _ => rfl, ok_bind,
    updatedRecords_eq (·.id) .uuid huuid fun _ => rfl, ok_bind,
    updatedRecords_eq (·.key) _ hdate fun _ => rfl, ok_bind,
    updatedRecords_eq (·.id) .uuid huuid fun _ => rfl, ok_bind,
    updatedRecords_eq (·.id) .uuid huuid fun _ => rfl, ok_bind,
    updatedRecords_eq (·.id) .uuid huuid fun _ => rfl, ok_bind,
    updatedRecords_eq (·.id) .uuid huuid fun _ => rfl, ok_bind,
    updatedRecords_eq (·.id) .uuid huuid fun _ => rfl, ok_bind,
    updatedRecords_eq (·.visitId) .uuid huuid fun _ => rfl, ok_bind,
    updatedRecords_eq (·.scope) .scope hscope fun _ => rfl, ok_bind,
    updatedRecords_eq (·.id) .uuid huuid fun _ => rfl, ok_bind]
  rfl

/-- Both copies of `_merge_write_sets` update by the keys of the collections. -/
theorem mergeByIdentity_eq (first second : ScrumStateWriteSet p) :
    mergeByIdentity stateIdentity first second = mergeWriteSets first second := by
  rw [mergeByIdentity, updatedCollections_eq, ok_bind, mergeWriteSets]

/-- Both copies of `_with_write_set` update by the keys of the collections. -/
theorem overlayByIdentity_eq (state : LiveTeamState p) (writeSet : ScrumStateWriteSet p) :
    overlayByIdentity stateIdentity state writeSet = state.withWriteSet writeSet := by
  rw [overlayByIdentity, updatedCollections_eq, ok_bind, LiveTeamState.withWriteSet,
    ScrumStateSnapshot.withWriteSet]

/-! ### The changes of a valid update -/

namespace ScrumCollections

variable {c w : ScrumCollections}

/-- Rows of a list are distinct under a function under which those of a larger list are. -/
theorem nodup_map_of_subset {α β : Type} {f : α → β} {rows all : List α} (hrows : rows.Nodup)
    (hsubset : rows ⊆ all) (hall : (all.map f).Nodup) : (rows.map f).Nodup :=
  hrows.map_on fun _ ha _ hb hsame =>
    List.inj_on_of_nodup_map hall (hsubset ha) (hsubset hb) hsame

/-- A part of a consistent state with distinct rows is consistent. -/
theorem Consistent.of_subset (h : c.Consistent p)
    (hkeys : ∀ {α κ : Type} [DecidableEq κ] (col : Collection α κ),
      ((col.rows w).map col.key).Nodup)
    (hsubset : ∀ {α κ : Type} [DecidableEq κ] (col : Collection α κ), col.rows w ⊆ col.rows c) :
    w.Consistent p := by
  have hrows : ∀ {α κ : Type} [DecidableEq κ] (col : Collection α κ), (col.rows w).Nodup :=
    fun col => (hkeys col).of_map
  obtain ⟨team, hteam⟩ := h.exists_team
  obtain ⟨run, hrun⟩ := h.exists_run
  have hrowsValid : w.RowsValid p := {
    memberIdentities := fun row hrow =>
      h.rowsValid.memberIdentities row (hsubset .memberIdentities hrow)
    memberAvailabilityOverlays := fun row hrow =>
      h.rowsValid.memberAvailabilityOverlays row (hsubset .overlays hrow)
    memberBusinessDateConsumption := fun row hrow =>
      h.rowsValid.memberBusinessDateConsumption row (hsubset .consumption hrow)
    workItems := fun row hrow => h.rowsValid.workItems row (hsubset .workItems hrow)
    workItemFactors := fun row hrow => h.rowsValid.workItemFactors row (hsubset .factors hrow)
    sprints := fun row hrow => h.rowsValid.sprints row (hsubset .sprints hrow)
    sprintScope := fun row hrow => h.rowsValid.sprintScope row (hsubset .sprintScope hrow)
    statusVisits := fun row hrow => h.rowsValid.statusVisits row (hsubset .statusVisits hrow)
    statusVisitSamples := fun row hrow =>
      h.rowsValid.statusVisitSamples row (hsubset .samples hrow)
    semanticCounters := fun row hrow =>
      h.rowsValid.semanticCounters row (hsubset .counters hrow)
    naturalDecisionEvaluations := fun row hrow =>
      h.rowsValid.naturalDecisionEvaluations row (hsubset .evaluations hrow) }
  have hkeysUnique : w.KeysUnique := {
    memberIdentities := hkeys .memberIdentities
    memberAvailabilityOverlays := hkeys .overlays
    memberBusinessDateConsumption := nodup_map_of_subset (hrows .consumption)
      (hsubset .consumption) h.keysUnique.memberBusinessDateConsumption
    workItems := hkeys .workItems
    workItemFactors := hkeys .factors
    sprints := hkeys .sprints
    sprintScope := hkeys .sprintScope
    statusVisits := hkeys .statusVisits
    statusVisitSamples := hkeys .samples
    semanticCounters := nodup_map_of_subset (hrows .counters) (hsubset .counters)
      h.keysUnique.semanticCounters
    naturalDecisionEvaluations := hkeys .evaluations }
  have hpartiallyUnique : w.PartiallyUnique := {
    activeSprints := nodup_map_of_subset ((hrows .sprints).filter _)
      (List.filter_subset _ (hsubset .sprints)) h.partiallyUnique.activeSprints
    currentScope := nodup_map_of_subset ((hrows .sprintScope).filter _)
      (List.filter_subset _ (hsubset .sprintScope)) h.partiallyUnique.currentScope
    openVisits := nodup_map_of_subset ((hrows .statusVisits).filter _)
      (List.filter_subset _ (hsubset .statusVisits)) h.partiallyUnique.openVisits
    evaluations := nodup_map_of_subset (hrows .evaluations) (hsubset .evaluations)
      h.partiallyUnique.evaluations }
  have hinTeam : w.InTeam team := {
    memberIdentities := fun row hrow => hteam.memberIdentities row (hsubset .memberIdentities hrow)
    memberAvailabilityOverlays := fun row hrow =>
      hteam.memberAvailabilityOverlays row (hsubset .overlays hrow)
    memberBusinessDateConsumption := fun row hrow =>
      hteam.memberBusinessDateConsumption row (hsubset .consumption hrow)
    workItems := fun row hrow => hteam.workItems row (hsubset .workItems hrow)
    workItemFactors := fun row hrow => hteam.workItemFactors row (hsubset .factors hrow)
    sprints := fun row hrow => hteam.sprints row (hsubset .sprints hrow)
    sprintScope := fun row hrow => hteam.sprintScope row (hsubset .sprintScope hrow)
    statusVisits := fun row hrow => hteam.statusVisits row (hsubset .statusVisits hrow)
    statusVisitSamples := fun row hrow => hteam.statusVisitSamples row (hsubset .samples hrow)
    semanticCounters := fun row hrow => hteam.semanticCounters row (hsubset .counters hrow)
    naturalDecisionEvaluations := fun row hrow =>
      hteam.naturalDecisionEvaluations row (hsubset .evaluations hrow) }
  have hinRun : w.InRun run := {
    memberAvailabilityOverlays := fun row hrow =>
      hrun.memberAvailabilityOverlays row (hsubset .overlays hrow)
    memberBusinessDateConsumption := fun row hrow =>
      hrun.memberBusinessDateConsumption row (hsubset .consumption hrow)
    workItems := fun row hrow => hrun.workItems row (hsubset .workItems hrow)
    workItemFactors := fun row hrow => hrun.workItemFactors row (hsubset .factors hrow)
    sprints := fun row hrow => hrun.sprints row (hsubset .sprints hrow)
    sprintScope := fun row hrow => hrun.sprintScope row (hsubset .sprintScope hrow)
    statusVisits := fun row hrow => hrun.statusVisits row (hsubset .statusVisits hrow)
    statusVisitSamples := fun row hrow => hrun.statusVisitSamples row (hsubset .samples hrow)
    semanticCounters := fun row hrow => hrun.semanticCounters row (hsubset .counters hrow)
    naturalDecisionEvaluations := fun row hrow =>
      hrun.naturalDecisionEvaluations row (hsubset .evaluations hrow) }
  -- a row that the part looks up is the one that the whole state looks up
  have hlookup : ∀ {α κ : Type} [DecidableEq κ] (col : Collection α κ) {key : κ} {row : α},
      Keyed.lookup col.key (col.rows w) key = some row →
        Keyed.lookup col.key (col.rows c) key = some row := by
    intro α κ _ col key row hrow
    obtain ⟨hmem, hkey⟩ := Keyed.mem_of_lookup _ hrow
    exact (Keyed.lookup_eq_some _ (col.nodup h)).mpr ⟨hsubset col hmem, hkey⟩
  exact {
    rowsValid := hrowsValid
    keysUnique := hkeysUnique
    partiallyUnique := hpartiallyUnique
    oneTeam := hinTeam.oneTeam
    oneRun := hinRun.oneRun
    openVisitStatus := fun visit hvisit work hwork =>
      h.openVisitStatus visit (hsubset .statusVisits hvisit) work (hlookup .workItems hwork)
    sampleLinks := fun sample hsample visit hvisit =>
      h.sampleLinks sample (hsubset .samples hsample) visit (hlookup .statusVisits hvisit) }

/-- The changes of a valid update are valid. -/
theorem consistent_of_updateWith (h : (c.updateWith w).Consistent p)
    (hkeys : ∀ {α κ : Type} [DecidableEq κ] (col : Collection α κ),
      ((col.rows w).map col.key).Nodup) : w.Consistent p := by
  refine h.of_subset hkeys fun col row hrow => ?_
  rw [col.rows_updateWith]
  exact (Keyed.mem_update col.key (hkeys col)).mpr (.inl hrow)

end ScrumCollections

/-! ### Checked write sets -/

theorem ScrumStateWriteSet.exists_create {c : ScrumCollections} (h : c.Consistent p) :
    ∃ w : ScrumStateWriteSet p, ScrumStateWriteSet.create c = .ok w :=
  ⟨⟨c, validate_eq_ok.mpr h⟩, ScrumStateWriteSet.create_eq_ok.mpr rfl⟩

theorem mergeWriteSets_eq_ok {first second merged : ScrumStateWriteSet p} :
    mergeWriteSets first second = .ok merged ↔
      merged.toScrumCollections = first.updateWith second.toScrumCollections :=
  ScrumStateWriteSet.create_eq_ok

/-- A merge exists when an update by it is valid. -/
theorem exists_mergeWriteSets {c : ScrumCollections} {first second : ScrumStateWriteSet p}
    (h : (c.updateWith (first.updateWith second.toScrumCollections)).Consistent p) :
    ∃ merged, mergeWriteSets first second = .ok merged :=
  ScrumStateWriteSet.exists_create (consistent_of_updateWith h fun col => col.nodup_updateWith)

/-- Two overlays in a row are one overlay by the merged write set, which exists. -/
theorem withWriteSet_withWriteSet {state after : LiveTeamState p} {a b : ScrumStateWriteSet p}
    (hafter : state.withWriteSet a = .ok after) (last : LiveTeamState p) :
    after.withWriteSet b = .ok last ↔
      ∃ merged, mergeWriteSets a b = .ok merged ∧ state.withWriteSet merged = .ok last := by
  obtain ⟨haggregate, hscrum⟩ := LiveTeamState.withWriteSet_eq_ok.mp hafter
  have hrows : after.scrum.updateWith b.toScrumCollections =
      state.scrum.updateWith (a.updateWith b.toScrumCollections) := by
    rw [hscrum, updateWith_updateWith _ a.consistent]
  simp only [LiveTeamState.withWriteSet_eq_ok, hrows, haggregate, mergeWriteSets_eq_ok]
  constructor
  · rintro ⟨hsame, hlast⟩
    obtain ⟨merged, hmerged⟩ : ∃ merged, mergeWriteSets a b = .ok merged := by
      have hvalid : (state.scrum.updateWith (a.updateWith b.toScrumCollections)).Consistent p :=
        hlast ▸ last.scrum.complete.toConsistent
      exact exists_mergeWriteSets hvalid
    rw [mergeWriteSets_eq_ok] at hmerged
    exact ⟨merged, hmerged, hsame, hmerged ▸ hlast⟩
  · rintro ⟨merged, hmerged, hsame, hlast⟩
    exact ⟨hsame, hmerged ▸ hlast⟩

/-- Merging is associative where the first merge is valid. -/
theorem mergeWriteSets_assoc {a b c ab : ScrumStateWriteSet p} (hab : mergeWriteSets a b = .ok ab)
    (abc : ScrumStateWriteSet p) : mergeWriteSets ab c = .ok abc ↔
      ∃ bc, mergeWriteSets b c = .ok bc ∧ mergeWriteSets a bc = .ok abc := by
  rw [mergeWriteSets_eq_ok] at hab
  have hrows : ab.updateWith c.toScrumCollections =
      a.updateWith (b.updateWith c.toScrumCollections) := by
    rw [hab, updateWith_updateWith _ b.consistent]
  simp only [mergeWriteSets_eq_ok, hrows]
  constructor
  · intro habc
    obtain ⟨bc, hbc⟩ : ∃ bc, mergeWriteSets b c = .ok bc := by
      have hvalid : (a.updateWith (b.updateWith c.toScrumCollections)).Consistent p :=
        habc ▸ abc.consistent
      exact exists_mergeWriteSets hvalid
    rw [mergeWriteSets_eq_ok] at hbc
    exact ⟨bc, hbc, hbc ▸ habc⟩
  · rintro ⟨bc, hbc, habc⟩
    rw [habc, hbc]

theorem mergeWriteSets_empty (a : ScrumStateWriteSet p) : mergeWriteSets a .empty = .ok a :=
  mergeWriteSets_eq_ok.mpr (updateWith_empty a.consistent).symm

theorem empty_mergeWriteSets (a : ScrumStateWriteSet p) : mergeWriteSets .empty a = .ok a := by
  rw [mergeWriteSets_eq_ok]
  refine ext_rows fun col => ?_
  have hempty : col.rows (.empty : ScrumStateWriteSet p).toScrumCollections = [] := col.rows_empty
  rw [col.rows_updateWith, hempty]
  exact (Keyed.ofList_of_nodup _ (col.nodup a.consistent)).symm

/-- The write set of a tick overlays the progress over the risks. -/
theorem finalizeTick_overlay {state : LiveTeamState p} {request : TickRequest} {draws : DrawSource}
    {advance : RiskAdvance p} {command : AuthoritativeTickSliceCommit p}
    (hadvance : tickAdvance state request draws = .ok advance)
    (hfinal : finalizeTick request advance = .ok command) :
    ∃ progress, progressWriteSet advance.result = .ok progress ∧
      state.withWriteSet advance.risks.state = .ok advance.state ∧
      state.withWriteSet command.state = advance.state.withWriteSet progress := by
  obtain ⟨outcome, finish, hrun⟩ := tickAdvance_eq_ok hadvance
  simp only [finalizeTick, bind_eq_ok] at hfinal
  obtain ⟨slice, -, hassemble⟩ := hfinal
  obtain ⟨progress, hprogress, -⟩ := bind_eq_ok.mp hassemble
  refine ⟨progress, hprogress, hrun.working, ?_⟩
  have hrows := progressRows_updateWith hrun.working (assembleTick_eq_ok hassemble)
  have haggregate := (LiveTeamState.withWriteSet_eq_ok.mp hrun.working).1
  rw [← progressWriteSet_eq_ok.mp hprogress] at hrows
  simp only [LiveTeamState.withWriteSet, ScrumStateSnapshot.withWriteSet, hrows, haggregate]

/-! ### The claim about both copies -/

/-- Overlays in a row are one overlay by the merged write set; merging is associative, with the
empty write set as identity; the copies of the two modules agree; and the write set of a tick, over
the loaded state, gives the state after its risks overlaid with its progress. -/
theorem write_sets_compose :
    (∀ (state after : LiveTeamState p) (a b : ScrumStateWriteSet p),
      overlayByIdentity stateIdentity state a = .ok after → ∀ last,
        (overlayByIdentity stateIdentity after b = .ok last ↔ ∃ merged,
          mergeByIdentity stateIdentity a b = .ok merged ∧
            overlayByIdentity stateIdentity state merged = .ok last)) ∧
    (∀ a b c ab : ScrumStateWriteSet p, mergeByIdentity stateIdentity a b = .ok ab → ∀ abc,
      (mergeByIdentity stateIdentity ab c = .ok abc ↔ ∃ bc,
        mergeByIdentity stateIdentity b c = .ok bc ∧
          mergeByIdentity stateIdentity a bc = .ok abc)) ∧
    (∀ a : ScrumStateWriteSet p, mergeByIdentity stateIdentity a .empty = .ok a ∧
      mergeByIdentity stateIdentity .empty a = .ok a) ∧
    (∀ record, ∃ key, stateIdentity record = .ok key ∧ riskIdentity record = .ok key) ∧
    (∀ (state : LiveTeamState p) (a b : ScrumStateWriteSet p),
      mergeByIdentity riskIdentity a b = mergeByIdentity stateIdentity a b ∧
        overlayByIdentity riskIdentity state a = overlayByIdentity stateIdentity state a) ∧
    ∀ (state : LiveTeamState p) (request : TickRequest) (draws : DrawSource)
      (advance : RiskAdvance p) (command : AuthoritativeTickSliceCommit p),
      tickAdvance state request draws = .ok advance → finalizeTick request advance = .ok command →
        ∃ progress, progressWriteSet advance.result = .ok progress ∧
          overlayByIdentity stateIdentity state advance.risks.state = .ok advance.state ∧
          overlayByIdentity stateIdentity state command.state =
            overlayByIdentity stateIdentity advance.state progress := by
  simp only [riskIdentity_eq_stateIdentity, mergeByIdentity_eq, overlayByIdentity_eq]
  refine ⟨fun state after a b hafter => withWriteSet_withWriteSet hafter,
    fun a b c ab hab => mergeWriteSets_assoc hab,
    fun a => ⟨mergeWriteSets_empty a, empty_mergeWriteSets a⟩, fun record => ?_,
    fun state a b => ⟨trivial, trivial⟩,
    fun state request draws advance command => finalizeTick_overlay⟩
  obtain ⟨key, hkey⟩ := exists_stateIdentity record
  exact ⟨key, hkey, hkey⟩

end JiraSimulator
