import JiraSimulator.Correctness.VisitClaims

/-!
# The balance of labor

Every microsecond of labor that a visit is credited is consumed by its owner on the date of the
segment.  So the labor of all visits is the consumption of all members, in every reachable state,
and in every tick a member consumes on a date what the segments of that date credit to its visits.

* `Plays.consumed`: the consumption after the segments of a tick.
* `consumptionRows_eq`: the rows of the consumption after a tick.
* `Balanced.of_reachable`: the balance in every reachable state.
* `labor_conserved`: the balance, and the consumption of every tick.
-/

namespace JiraSimulator

open Library Library.Outcome Library.Transition ScrumCollections

variable {p : Platform}

/-! ### Sums by visit and by member and date -/

/-- The labor credited to a visit. -/
def creditedAt (visits : List StatusVisitState) (id : Uuid) : ℤ :=
  Keyed.sumAt (·.id) (·.creditedLaborMicroseconds) visits id

theorem creditedAt_of_mem {visits : List StatusVisitState} (h : (visits.map (·.id)).Nodup)
    {visit : StatusVisitState} (hvisit : visit ∈ visits) :
    creditedAt visits visit.id = visit.creditedLaborMicroseconds :=
  Keyed.sumAt_of_mem _ _ h hvisit

theorem creditedAt_of_not_mem {visits : List StatusVisitState} {id : Uuid}
    (h : id ∉ visits.map (·.id)) : creditedAt visits id = 0 :=
  Keyed.sumAt_of_not_mem _ _ h

/-- Visits that are credited alike have the same labor. -/
theorem creditedLabor_eq {visits visits' : List StatusVisitState}
    (h : ∀ id, creditedAt visits id = creditedAt visits' id) :
    creditedLabor visits = creditedLabor visits' :=
  Keyed.sum_eq_of_sumAt StatusVisitState.id StatusVisitState.creditedLaborMicroseconds h

/-- The labor that a member consumed on a date. -/
def consumedAt (rows : List MemberBusinessDateConsumption) (member : Uuid) (date : ℤ) : ℤ :=
  Keyed.sumAt (·.key) (·.consumedLaborMicroseconds) rows (member, date)

/-- The labor of all rows. -/
def consumedLabor (rows : List MemberBusinessDateConsumption) : ℤ :=
  (rows.map (·.consumedLaborMicroseconds)).sum

/-! ### The segments of a tick -/

/-- The labor that a segment credits to the visits assigned to a member. -/
def segmentLabor (before after : List StatusVisitState) (member : Uuid) : ℤ :=
  ((after.filter fun visit => visit.memberId = some member).map fun visit =>
    visit.creditedLaborMicroseconds - creditedAt before visit.id).sum

/-- A played segment: its visits and consumption before it, and the advance. -/
abbrev PlayedSegment : Type :=
  BusinessSegment × List StatusVisitState × Consumption × SegmentAdvance

/-- The labor that the segments of a date credit to the visits assigned to a member. -/
def playedLabor (played : List PlayedSegment) (member : Uuid) (date : ℤ) : ℤ :=
  ((played.filter fun entry => entry.1.businessDate = date).map fun entry =>
    segmentLabor entry.2.1 entry.2.2.2.visits member).sum

section segments

variable {state : LiveTeamState p} {visits visits' : List StatusVisitState}
  {consumption consumption' : Consumption} {segment : BusinessSegment} {blocked : List Uuid}
  {advance : SegmentAdvance} {moves : List (StatusVisitState × StatusVisitState)}
  {played : List PlayedSegment}

/-- The blocked visits are credited nothing, and every other one by its move. -/
theorem SegmentMoves.segmentLabor_eq
    (h : SegmentMoves state visits consumption segment blocked advance moves)
    (hnodup : (visits.map (·.id)).Nodup) (member : Uuid) :
    segmentLabor visits advance.visits member = laborBy moves member := by
  have hblocked : ((visits.filter fun visit => visit.id ∈ blocked).filter fun visit =>
      visit.memberId = some member).map (fun visit =>
        visit.creditedLaborMicroseconds - creditedAt visits visit.id) =
      ((visits.filter fun visit => visit.id ∈ blocked).filter fun visit =>
        visit.memberId = some member).map fun _ => 0 := by
    refine List.map_congr_left fun visit hvisit => ?_
    have hmem : visit ∈ visits := (List.mem_filter.mp (List.mem_filter.mp hvisit).1).1
    rw [creditedAt_of_mem hnodup hmem, sub_self]
  have hmoved : ((moves.map Prod.snd).filter fun visit => visit.memberId = some member).map
      (fun visit => visit.creditedLaborMicroseconds - creditedAt visits visit.id) =
      (moves.filter fun move => move.2.memberId = some member).map fun move =>
        move.2.creditedLaborMicroseconds - move.1.creditedLaborMicroseconds := by
    rw [List.filter_map, List.map_map]
    refine List.map_congr_left fun move hmove => ?_
    have hmem : move ∈ moves := (List.mem_filter.mp hmove).1
    have hbefore : move.1 ∈ visits :=
      (List.mem_filter.mp (h.before.mem_iff.mp (List.mem_map_of_mem hmem))).1
    show move.2.creditedLaborMicroseconds - creditedAt visits move.2.id = _
    rw [(h.same move hmem).1.id, creditedAt_of_mem hnodup hbefore]
  unfold segmentLabor laborBy
  rw [h.after, List.filter_append, List.map_append, List.sum_append, hblocked, hmoved]
  simp

/-- The consumption after a run is the one before it with the labor of its segments. -/
theorem Plays.consumed (h : Plays state blocked visits consumption played visits' consumption')
    (hvalid : ∀ visit ∈ visits, visit.Valid) (hnodup : (visits.map (·.id)).Nodup)
    (member : Uuid) (date : ℤ) :
    consumption'.get (member, date) =
      consumption.get (member, date) + playedLabor played member date := by
  induction h with
  | done => simp [playedLabor]
  | @play visits visits' consumption consumption' segment advance played hadvance _ ih =>
    obtain ⟨moves, hmoves⟩ := advanceSegment_eq_ok hadvance
    have hsame := hmoves.sameVisits hvalid
    have hrest := ih (fun visit hvisit => (hsame.same visit hvisit).1) (hsame.nodup hnodup)
    have hlabor := hmoves.labor (member, date)
    rw [← hmoves.segmentLabor_eq hnodup] at hlabor
    unfold playedLabor at hrest ⊢
    rw [hrest, hlabor, List.filter_cons]
    by_cases hdate : segment.businessDate = date
    · rw [if_pos hdate.symm, if_pos (decide_eq_true hdate), List.map_cons, List.sum_cons, add_assoc]
    · rw [if_neg (Ne.symm hdate), if_neg (by simpa using hdate), add_zero]

end segments

/-! ### The rows of the consumption -/

section consumption

variable {state : LiveTeamState p} {consumption : Consumption}
  {rows : List MemberBusinessDateConsumption}

/-- The changed rows are those of the entries that the state does not have. -/
theorem consumptionChanges_eq_ok (h : consumptionChanges state consumption = .ok rows) :
    (∀ row ∈ rows, (row.key, row.consumedLaborMicroseconds) ∈ consumption) ∧
      ∀ entry ∈ consumption, entry ∉ consumptionMap state →
        ∃ row ∈ rows, row.key = entry.1 ∧ row.consumedLaborMicroseconds = entry.2 := by
  unfold consumptionChanges at h
  constructor
  · intro row hrow
    obtain ⟨entry, hentry, hmade⟩ := exists_of_mem_mapM h hrow
    rw [validated_eq_ok] at hmade
    obtain ⟨-, rfl⟩ := hmade
    exact (Ordering.sortOn_perm _ _).mem_iff.mp (List.mem_filter.mp hentry).1
  · intro entry hentry hnot
    have hmem : entry ∈ (Ordering.sortOn (fun entry : (Uuid × ℤ) × ℤ =>
        [entry.1.2, (p.uuidInt entry.1.1 : ℤ)]) consumption).filter fun entry =>
          entry ∉ consumptionMap state :=
      List.mem_filter.mpr ⟨(Ordering.sortOn_perm _ _).mem_iff.mpr hentry, by simpa using hnot⟩
    obtain ⟨row, hrow, hmade⟩ := exists_of_mem_of_mapM h hmem
    rw [validated_eq_ok] at hmade
    obtain ⟨-, rfl⟩ := hmade
    exact ⟨_, hrow, rfl, rfl⟩

/-- The rows of the consumption after its changes are its entries. -/
theorem consumptionRows_eq (h : consumptionChanges state consumption = .ok rows)
    (hnodup : (consumption.map Prod.fst).Nodup)
    (hkeys : ∀ key ∈ (consumptionMap state).map Prod.fst, key ∈ consumption.map Prod.fst)
    {after : List MemberBusinessDateConsumption} (hafter : (after.map (·.key)).Nodup)
    (hrows : ∀ row, row ∈ after ↔ row ∈ rows ∨
      (row ∈ state.scrum.memberBusinessDateConsumption ∧ row.key ∉ rows.map (·.key)))
    (member : Uuid) (date : ℤ) :
    consumedAt after member date = consumption.get (member, date) := by
  obtain ⟨hchanged, hchanges⟩ := consumptionChanges_eq_ok h
  have hget : ∀ entry ∈ consumption, consumption.get entry.1 = entry.2 := by
    intro entry hentry
    rw [Consumption.get_eq_valueAt, Keyed.valueAt_of_mem Prod.fst Prod.snd hnodup hentry]
  -- each entry is in the rows, as it was or as it is written
  have hentry : ∀ entry ∈ consumption, ∃ row ∈ after, row.key = entry.1 ∧
      row.consumedLaborMicroseconds = entry.2 := by
    intro entry hmem
    by_cases hold : entry ∈ consumptionMap state
    · obtain ⟨row, hrow, rfl⟩ := List.mem_map.mp hold
      by_cases hkey : row.key ∈ rows.map (·.key)
      · -- a changed row of the same key has the labor of the entry
        obtain ⟨row', hrow', hsame⟩ := List.mem_map.mp hkey
        have hvalue := hget _ (hchanged row' hrow')
        have hlabor := hget _ hmem
        dsimp only at hvalue hlabor
        rw [hsame, hlabor] at hvalue
        exact ⟨row', (hrows row').mpr (.inl hrow'), hsame, hvalue.symm⟩
      · exact ⟨row, (hrows row).mpr (.inr ⟨hrow, hkey⟩), rfl, rfl⟩
    · obtain ⟨row, hrow, hkey, hlabor⟩ := hchanges entry hmem hold
      exact ⟨row, (hrows row).mpr (.inl hrow), hkey, hlabor⟩
  by_cases hkey : (member, date) ∈ consumption.map Prod.fst
  · obtain ⟨entry, hmem, hentryKey⟩ := List.mem_map.mp hkey
    obtain ⟨row, hrow, hrowKey, hlabor⟩ := hentry entry hmem
    have hat : consumedAt after row.key.1 row.key.2 = row.consumedLaborMicroseconds :=
      Keyed.sumAt_of_mem _ _ hafter hrow
    rw [hrowKey, hentryKey] at hat
    rw [hat, hlabor, ← hget entry hmem, hentryKey]
  · -- a key without an entry has no row
    have hnot : (member, date) ∉ after.map (·.key) := by
      intro hmem
      obtain ⟨row, hrow, hrowKey⟩ := List.mem_map.mp hmem
      refine hkey ?_
      rw [← hrowKey]
      rcases (hrows row).mp hrow with hnew | ⟨hold, -⟩
      · exact List.mem_map_of_mem (hchanged row hnew)
      · refine hkeys _ (List.mem_map.mpr ⟨(row.key, row.consumedLaborMicroseconds), ?_, rfl⟩)
        exact List.mem_map_of_mem hold
    rw [Consumption.get_eq_valueAt, Keyed.valueAt_of_not_mem Prod.fst Prod.snd hkey]
    exact Keyed.sumAt_of_not_mem _ _ hnot

end consumption

theorem consumptionMap_nodup (state : LiveTeamState p) :
    ((consumptionMap state).map Prod.fst).Nodup := by
  have hnodup := state.scrum.complete.toConsistent.consumption_nodup
  unfold consumptionMap
  rw [List.map_map]
  exact hnodup

theorem consumptionMap_get (state : LiveTeamState p) (member : Uuid) (date : ℤ) :
    (consumptionMap state).get (member, date) =
      consumedAt state.scrum.memberBusinessDateConsumption member date := by
  rw [Consumption.get_eq_valueAt, Keyed.valueAt_eq_sumAt _ _ (consumptionMap_nodup state)]
  unfold consumptionMap consumedAt Keyed.sumAt
  rw [List.filter_map, List.map_map]
  rfl

/-! ### The visits of a tick -/

section tick

variable {store store' : TeamStore p} {command : AuthoritativeTickSliceCommit p}
  {draws : DrawSource} {advance : RiskAdvance p} {outcome : SegmentsOutcome}
  {finish : StatusVisitState → FinishedVisit}
  (hreach : (teamRuns p).Reachable store)
  (hrun : TickRun store.state draws advance outcome finish)

include hreach hrun

/-- The risks of a tick credit nothing. -/
theorem TickRun.risks_credited (id : Uuid) :
    creditedAt advance.state.scrum.statusVisits id = creditedAt store.scrum.statusVisits id := by
  have hrules := evaluateDueRisks_working hrun.risks hrun.working
  obtain ⟨-, hvisits⟩ := applyRules_visits hrules (ordinalsCounted_of_reachable hreach)
  have hworking := Collection.statusVisits.nodup advance.state.scrum.complete.toConsistent
  have hstored := Collection.statusVisits.nodup store.scrum.complete.toConsistent
  by_cases hid : id ∈ advance.state.scrum.statusVisits.map (·.id)
  · obtain ⟨visit, hvisit, rfl⟩ := List.mem_map.mp hid
    rw [creditedAt_of_mem hworking hvisit]
    cases hvisits visit hvisit with
    | kept old hmem hid _ hcredited =>
      rw [hcredited, ← hid]
      exact (creditedAt_of_mem hstored hmem).symm
    | returned hnew hcredited =>
      rw [hcredited]
      exact (creditedAt_of_not_mem hnew).symm
  · rw [creditedAt_of_not_mem hid, creditedAt_of_not_mem]
    intro hold
    obtain ⟨old, hmem, rfl⟩ := List.mem_map.mp hold
    obtain ⟨visit, hvisit, hstays⟩ := hrun.risks_stay hreach old hmem
    exact hid (List.mem_map.mpr ⟨visit, hvisit, hstays.id⟩)

/-- A row after a tick: a working visit that was closed, one that the segments left with its labor,
or a new one. -/
theorem TickRun.playedRow (hcommitted : Committed store command store')
    (hassembled : Assembled command.liveSlice advance command) {row : StatusVisitState}
    (hrow : row ∈ store'.scrum.statusVisits) :
    (row ∈ advance.state.scrum.statusVisits ∧ row.lifecycle = .CLOSED) ∨
      (∃ x ∈ outcome.visits, x.id = row.id ∧
        row.creditedLaborMicroseconds = x.creditedLaborMicroseconds) ∨
      (row.id ∉ advance.state.scrum.statusVisits.map (·.id) ∧
        row.creditedLaborMicroseconds = 0) := by
  have hafter := hcommitted.afterTick hrun.working hassembled
  rcases (hafter.visits row).mp hrow with hwritten | ⟨hstays, hnot⟩
  · -- the tick wrote the row, as an advanced visit or as the next one of its item
    obtain ⟨x, hx, hmem⟩ := hrun.mem_visits.mp hwritten
    cases hrun.finishes x hx with
    | kept _ heq =>
      rw [heq] at hmem
      cases hmem
    | advanced _ _ _ _ heq =>
      rw [heq, List.mem_singleton] at hmem
      subst hmem
      exact .inr (.inl ⟨row, hx, rfl, rfl⟩)
    | done _ _ _ _ _ _ _ heq =>
      rw [heq, List.mem_singleton] at hmem
      subst hmem
      exact .inr (.inl ⟨x, hx, rfl, rfl⟩)
    | moved work later step counter next sample completion _ hcounter _ henters _ heq =>
      have hclaim : ∃ claim ∈ advance.result.claims, claim.scope = counter.scope := by
        rw [hrun.claims]
        refine ⟨{ scope := counter.scope, expectedNext := counter.nextValue, count := 1 },
          List.mem_flatMap.mpr ⟨x, hx, ?_⟩, rfl⟩
        rw [heq]
        exact List.mem_singleton_self _
      rw [heq, List.mem_cons, List.mem_singleton] at hmem
      rcases hmem with rfl | rfl
      · exact .inr (.inl ⟨x, hx, rfl, rfl⟩)
      · -- the next visit of the item is new
        obtain ⟨hcounter, hscope⟩ := visitCounter_eq_ok hcounter
        have hwork : work.id = x.workItemId := completion.work_id
        rw [hwork] at hscope
        rw [hscope] at hclaim
        have hid : row.id = .visit x.workItemId counter.nextValue := by
          rw [henters.id_eq, ← hwork]
          rfl
        exact .inr (.inr ⟨hrun.entered_fresh hreach hcommitted hassembled hwritten hcounter hscope
          (henters.workItemId_eq.trans hwork) hid hclaim, henters.credited_eq⟩)
  · -- the tick left the row, which was closed or kept as it was
    cases hlifecycle : row.lifecycle with
    | CLOSED => exact .inl ⟨hstays, rfl⟩
    | OPEN =>
      have hopen : row ∈ openVisits advance.state := mem_openVisits.mpr ⟨hstays, hlifecycle⟩
      exact .inr (.inl ⟨row, hrun.mem_of_not_written hopen hnot, rfl, rfl⟩)

/-- The progress of a tick credits what its segments credit. -/
theorem TickRun.progress_credited (hcommitted : Committed store command store')
    (hassembled : Assembled command.liveSlice advance command) (id : Uuid) :
    creditedAt store'.scrum.statusVisits id + creditedAt (openVisits advance.state) id =
      creditedAt advance.state.scrum.statusVisits id + creditedAt outcome.visits id := by
  have hafter := hcommitted.afterTick hrun.working hassembled
  have hconsistent := advance.state.scrum.complete.toConsistent
  have hworking := Collection.statusVisits.nodup hconsistent
  have hopen := openVisits_nodup advance.state
  have hplayed := hrun.sameVisits.nodup hopen
  have hnext := Collection.statusVisits.nodup store'.scrum.complete.toConsistent
  -- a visit that is not open is not played
  have hunplayed : id ∉ (openVisits advance.state).map (·.id) →
      id ∉ outcome.visits.map (·.id) := fun hnot hmem =>
    hnot (hrun.sameVisits.ids.mem_iff.mp hmem)
  by_cases hid : id ∈ store'.scrum.statusVisits.map (·.id)
  · obtain ⟨row, hrow, rfl⟩ := List.mem_map.mp hid
    rw [creditedAt_of_mem hnext hrow]
    rcases hrun.playedRow hreach hcommitted hassembled hrow with ⟨hmem, hclosed⟩ |
      ⟨x, hx, hxid, hcredited⟩ | ⟨hnew, hcredited⟩
    · have hnot : row.id ∉ (openVisits advance.state).map (·.id) := by
        intro hmem'
        obtain ⟨before, hbefore, hbeforeId⟩ := List.mem_map.mp hmem'
        obtain rfl : before = row := Collection.statusVisits.eq_of_key_eq hconsistent
          (mem_openVisits.mp hbefore).1 hmem hbeforeId
        rw [(mem_openVisits.mp hbefore).2] at hclosed
        cases hclosed
      rw [creditedAt_of_mem hworking hmem, creditedAt_of_not_mem hnot,
        creditedAt_of_not_mem (hunplayed hnot)]
    · obtain ⟨before, hbefore, hsame⟩ := hrun.exists_before hx
      have hbeforeId : before.id = row.id := hsame.id.symm.trans hxid
      rw [← hxid, creditedAt_of_mem hplayed hx, hxid, ← hbeforeId,
        creditedAt_of_mem hopen hbefore,
        creditedAt_of_mem hworking (mem_openVisits.mp hbefore).1, hcredited]
      omega
    · have hnot : row.id ∉ (openVisits advance.state).map (·.id) := by
        intro hmem
        obtain ⟨before, hbefore, hbeforeId⟩ := List.mem_map.mp hmem
        exact hnew (hbeforeId ▸ List.mem_map_of_mem (mem_openVisits.mp hbefore).1)
      rw [creditedAt_of_not_mem hnew, creditedAt_of_not_mem hnot,
        creditedAt_of_not_mem (hunplayed hnot), hcredited]
  · have hgone : id ∉ advance.state.scrum.statusVisits.map (·.id) := by
      intro hmem
      obtain ⟨visit, hvisit, rfl⟩ := List.mem_map.mp hmem
      obtain ⟨row, hrow, hstays⟩ := hrun.progress_stays hreach hcommitted hassembled visit hvisit
      exact hid (List.mem_map.mpr ⟨row, hrow, hstays.id⟩)
    have hclosed : id ∉ (openVisits advance.state).map (·.id) := by
      intro hmem
      obtain ⟨visit, hvisit, rfl⟩ := List.mem_map.mp hmem
      exact hgone (List.mem_map_of_mem (mem_openVisits.mp hvisit).1)
    rw [creditedAt_of_not_mem hid, creditedAt_of_not_mem hgone, creditedAt_of_not_mem hclosed,
      creditedAt_of_not_mem (hunplayed hclosed)]

omit hreach in
/-- The consumption rows after a tick are the consumption after its segments. -/
theorem TickRun.consumption_eq (hcommitted : Committed store command store')
    (hassembled : Assembled command.liveSlice advance command) (member : Uuid) (date : ℤ) :
    consumedAt store'.scrum.memberBusinessDateConsumption member date =
      outcome.consumption.get (member, date) := by
  have hnodup := consumptionMap_nodup advance.state
  refine consumptionRows_eq hrun.consumption (hrun.plays.total hnodup).1
    (hrun.plays.entries hnodup).1 store'.scrum.complete.toConsistent.consumption_nodup
    (fun row => ?_) member date
  exact hcommitted.mem_tick Collection.consumption hrun.working hassembled (fun _ _ _ => rfl)

omit hreach in
/-- The risks of a tick leave the consumption alone. -/
theorem TickRun.risks_consumption : advance.state.scrum.memberBusinessDateConsumption =
    store.scrum.memberBusinessDateConsumption := by
  have hframe : RiskFrame store.scrum.toScrumCollections advance.state.scrum.toScrumCollections :=
    riskSteps_induction (motive := fun w => RiskFrame store.scrum.toScrumCollections
      w.scrum.toScrumCollections) (evaluateDueRisks_working hrun.risks hrun.working)
      (RiskFrame.refl _) fun _ _ _ _ hw _ hstep _ => hw.trans hstep
  exact hframe.memberBusinessDateConsumption

omit hreach in
/-- In a tick a member consumes on a date what the segments of the date credit to its visits. -/
theorem TickRun.consumed (hcommitted : Committed store command store')
    (hassembled : Assembled command.liveSlice advance command) (member : Uuid) (date : ℤ) :
    consumedAt store'.scrum.memberBusinessDateConsumption member date =
      consumedAt store.scrum.memberBusinessDateConsumption member date +
        playedLabor outcome.played member date := by
  have hplayed := hrun.plays.consumed (fun visit hvisit =>
    advance.state.scrum.complete.visit_valid (mem_openVisits.mp hvisit).1)
    (openVisits_nodup advance.state)
    member date
  rw [hrun.consumption_eq hcommitted hassembled, hplayed, consumptionMap_get,
    hrun.risks_consumption]

/-- A tick keeps the balance of labor. -/
theorem TickRun.balanced (hcommitted : Committed store command store')
    (hassembled : Assembled command.liveSlice advance command)
    (hbalanced : creditedLabor store.scrum.statusVisits =
      consumedLabor store.scrum.memberBusinessDateConsumption) :
    creditedLabor store'.scrum.statusVisits =
      consumedLabor store'.scrum.memberBusinessDateConsumption := by
  -- the risks credit no labor, and the progress credits what it consumes
  have hrisks : creditedLabor advance.state.scrum.statusVisits =
      creditedLabor store.scrum.statusVisits := creditedLabor_eq (hrun.risks_credited hreach)
  have hprogress : creditedLabor (store'.scrum.statusVisits ++ openVisits advance.state) =
      creditedLabor (advance.state.scrum.statusVisits ++ outcome.visits) := by
    refine creditedLabor_eq fun id => ?_
    unfold creditedAt
    rw [Keyed.sumAt_append, Keyed.sumAt_append]
    exact hrun.progress_credited hreach hcommitted hassembled id
  obtain ⟨hnodup, htotal⟩ := hrun.plays.total (consumptionMap_nodup advance.state)
  have hbefore : (consumptionMap advance.state).total =
      consumedLabor store.scrum.memberBusinessDateConsumption := by
    unfold Consumption.total consumptionMap consumedLabor
    rw [List.map_map, hrun.risks_consumption]
    rfl
  have hafter : consumedLabor store'.scrum.memberBusinessDateConsumption =
      outcome.consumption.total := by
    have hpairs : ((store'.scrum.memberBusinessDateConsumption.map fun row =>
        (row.key, row.consumedLaborMicroseconds)).map Prod.snd).sum =
        (outcome.consumption.map Prod.snd).sum := by
      refine Keyed.sum_eq_of_sumAt Prod.fst Prod.snd fun key => ?_
      rw [← Keyed.valueAt_eq_sumAt _ _ hnodup, ← Consumption.get_eq_valueAt,
        ← hrun.consumption_eq hcommitted hassembled]
      unfold consumedAt Keyed.sumAt
      rw [List.filter_map, List.map_map]
      rfl
    rw [List.map_map] at hpairs
    exact hpairs
  simp only [creditedLabor, List.map_append, List.sum_append] at *
  omega

end tick

/-! ### Runs -/

/-- The boundary of a sprint leaves the consumption alone. -/
theorem BoundaryStep.consumption {state : LiveTeamState p} {boundary : ℤ}
    {transition : SprintTransition p} (h : BoundaryStep state boundary transition) :
    transition.state.memberBusinessDateConsumption = [] := by
  cases h with
  | quiet h => rw [h]; rfl
  | activates _ _ _ _ _ _ _ _ _ _ hframe _ _ _ _ h =>
    rw [h]
    exact hframe.memberBusinessDateConsumption
  | rolls _ _ _ _ _ _ _ _ _ _ _ _ _ _ hframe _ _ _ _ _ _ _ h =>
    rw [h]
    exact hframe.memberBusinessDateConsumption

section commit

variable {store store' : TeamStore p} {command : AuthoritativeTickSliceCommit p}

/-- A command that writes no consumption keeps the rows of the consumption. -/
theorem Committed.consumption_perm (h : Committed store command store')
    (hnone : command.state.memberBusinessDateConsumption = []) :
    store'.scrum.memberBusinessDateConsumption.Perm store.scrum.memberBusinessDateConsumption := by
  have hnodup := store.scrum.complete.toConsistent.consumption_nodup
  have hnodup' := store'.scrum.complete.toConsistent.consumption_nodup
  refine (List.perm_ext_iff_of_nodup hnodup'.of_map hnodup.of_map).mpr fun row => ?_
  have hrows := h.mem_rows Collection.consumption (fun _ _ _ => rfl) (a := row)
  rw [show Collection.consumption.rows command.state.toScrumCollections = [] from hnone] at hrows
  simpa using hrows

/-- The labor of all visits is the consumption of all members. -/
def Balanced (c : ScrumCollections) : Prop :=
  creditedLabor c.statusVisits = consumedLabor c.memberBusinessDateConsumption

theorem Balanced.of_perm {c c' : ScrumCollections} (h : Balanced c)
    (hvisits : ∀ id, creditedAt c'.statusVisits id = creditedAt c.statusVisits id)
    (hconsumption : c'.memberBusinessDateConsumption.Perm c.memberBusinessDateConsumption) :
    Balanced c' := by
  have hcredited := creditedLabor_eq hvisits
  have hconsumed : consumedLabor c'.memberBusinessDateConsumption =
      consumedLabor c.memberBusinessDateConsumption := (hconsumption.map _).sum_eq
  rw [Balanced, hcredited, hconsumed]
  exact h

/-- A sprint boundary credits nothing. -/
theorem boundary_credited (hreach : (teamRuns p).Reachable store)
    (hcommitted : Committed store command store') {instant : ℤ} {transition : SprintTransition p}
    (hstep : BoundaryStep store.state instant transition)
    (hstate : command.state = transition.state) (id : Uuid) :
    creditedAt store'.scrum.statusVisits id = creditedAt store.scrum.statusVisits id := by
  have hnodup := Collection.statusVisits.nodup store.scrum.complete.toConsistent
  have hnodup' := Collection.statusVisits.nodup store'.scrum.complete.toConsistent
  by_cases hid : id ∈ store'.scrum.statusVisits.map (·.id)
  · obtain ⟨visit, hvisit, rfl⟩ := List.mem_map.mp hid
    rw [creditedAt_of_mem hnodup' hvisit]
    rcases boundary_visits hreach hcommitted hstep hstate hvisit with hmem | ⟨hnew, hcredited, -⟩
    · exact (creditedAt_of_mem hnodup hmem).symm
    · rw [hcredited, creditedAt_of_not_mem hnew]
  · rw [creditedAt_of_not_mem hid, creditedAt_of_not_mem]
    intro hold
    obtain ⟨old, hmem, rfl⟩ := List.mem_map.mp hold
    obtain ⟨visit, hvisit, hsame⟩ :=
      hcommitted.mem_keys Collection.statusVisits (fun _ _ _ => rfl) hmem
    exact hid (List.mem_map.mpr ⟨visit, hvisit, hsame⟩)

end commit

theorem Balanced.of_reachable {store : TeamStore p} (h : (teamRuns p).Reachable store) :
    Balanced store.scrum.toScrumCollections := by
  refine rows_induction (I := fun _ scrum => Balanced scrum.toScrumCollections) h ?_ ?_
  · intro start draws context picked initial store hboot
    -- no visit of a first activation has labor yet
    have hvisits : creditedLabor store.scrum.statusVisits = 0 := by
      refine List.sum_eq_zero fun labor hlabor => ?_
      obtain ⟨visit, hvisit, rfl⟩ := List.mem_map.mp hlabor
      obtain ⟨item, -, -, activated, hactivated, hmem⟩ := (hboot.initialRows.visits visit).mp
        ((hboot.mem_rows Collection.statusVisits).mp hvisit)
      exact (activateItem_first hactivated visit hmem).2.1
    have hconsumption : store.scrum.memberBusinessDateConsumption = [] := by
      refine List.eq_nil_iff_forall_not_mem.mpr fun row hrow => ?_
      have hmem := (hboot.mem_rows Collection.consumption).mp hrow
      rw [show Collection.consumption.rows initial.toScrumCollections = [] from
        hboot.initialRows.consumption] at hmem
      cases hmem
    rw [Balanced, hvisits, hconsumption]
    rfl
  · intro store event command store' hreach hbalanced _ hof hcommitted
    cases hof with
    | tick request draws advance _ _ hadvance _ _ hassembled =>
      obtain ⟨outcome, finish, hrun⟩ := tickAdvance_eq_ok hadvance
      exact hrun.balanced hreach hcommitted hassembled hbalanced
    | boundary instant transition _ hstep _ hstate =>
      exact hbalanced.of_perm (boundary_credited hreach hcommitted hstep hstate)
        (hcommitted.consumption_perm (hstate ▸ hstep.consumption))
    | downtime hstate =>
      -- the downtime writes no row of the team
      have hsame : ∀ visit, visit ∈ store'.scrum.statusVisits ↔ visit ∈ store.scrum.statusVisits :=
        fun visit => hcommitted.mem_of_empty Collection.statusVisits (fun _ _ _ => rfl) hstate
      have hperm : store'.scrum.statusVisits.Perm store.scrum.statusVisits := by
        have hnodup := Collection.statusVisits.nodup store.scrum.complete.toConsistent
        have hnodup' := Collection.statusVisits.nodup store'.scrum.complete.toConsistent
        exact (List.perm_ext_iff_of_nodup hnodup'.of_map hnodup.of_map).mpr hsame
      refine hbalanced.of_perm (fun id => Keyed.sumAt_perm _ _ hperm id)
        (hcommitted.consumption_perm ?_)
      rw [hstate]

/-! ### The segments of a tick -/

/-- The state in which a tick plays its segments, and the segments: none when the tick crosses a
sprint boundary. -/
def tickSegments (state : LiveTeamState p) (request : TickRequest) (draws : DrawSource) :
    Result (LiveTeamState p × List PlayedSegment) := do
  let transition ← crossSprintBoundary state (cursor state)
  if transition.activity ≠ [] then return (state, [])
  let calendar ← state.calendar
  let advance ← tickAdvance state request draws
  let segments ← businessSegments advance.state calendar (cursor state) advance.result.endsAt
  let outcome ← runSegments advance.state calendar (riskBlockedVisits state advance.risks)
    advance.result.endsAt segments (openVisits advance.state) (consumptionMap advance.state)
  return (advance.state, outcome.played)

/-- A tick that crosses a sprint boundary plays no segment, and another one those of its advance. -/
theorem tickSegments_of_step {store store' : TeamStore p} {request : TickRequest}
    {draws : DrawSource} (hreach : (teamRuns p).Reachable store)
    (hstep : (teamRuns p).step store (.tick request draws) store') :
    (tickSegments store.state request draws = .ok (store.state, []) ∧
      store'.scrum.memberBusinessDateConsumption.Perm store.scrum.memberBusinessDateConsumption) ∨
    ∃ command advance outcome finish, Committed store command store' ∧
      Assembled command.liveSlice advance command ∧
      TickRun store.state draws advance outcome finish ∧
      tickSegments store.state request draws = .ok (advance.state, outcome.played) := by
  have hloaded := (Based.of_reachable hreach).loaded
  simp only [teamRuns, stepTeam, hloaded.load, ok_bind, commandFor, bind_eq_ok, map_eq_ok] at hstep
  obtain ⟨command?, ⟨command, hcommand, rfl⟩, hcommit⟩ := hstep
  have hcommitted := commit_eq_ok hcommit
  simp only [calculateScrumTick, bind_eq_ok, exists_unit] at hcommand
  obtain ⟨-, transition, hcross, hcommand⟩ := hcommand
  -- a tick that crosses a boundary plays no segment
  by_cases hactivity : transition.activity ≠ []
  · rw [if_pos hactivity] at hcommand
    simp only [lifecycleCommit, AuthoritativeTickSliceCommit.create, bind_eq_ok,
      validated_eq_ok] at hcommand
    obtain ⟨slice, -, -, rfl⟩ := hcommand
    refine .inl ⟨?_, hcommitted.consumption_perm (crossSprintBoundary_eq_ok hcross).consumption⟩
    rw [tickSegments, hcross, ok_bind, if_pos hactivity]
    rfl
  · rw [if_neg hactivity, bind_eq_ok] at hcommand
    obtain ⟨advance, hadvance, hcommand⟩ := hcommand
    simp only [finalizeTick, bind_eq_ok] at hcommand
    obtain ⟨slice, -, hassemble⟩ := hcommand
    have hassembled := assembleTick_eq_ok hassemble
    have hslice := hassembled.slice_eq
    subst hslice
    obtain ⟨outcome, finish, hrun⟩ := tickAdvance_eq_ok hadvance
    obtain ⟨calendar, segments, hcalls⟩ := hrun.calls
    refine .inr ⟨command, advance, outcome, finish, hcommitted, hassembled, hrun, ?_⟩
    simp only [tickSegments, hcross, hcalls.calendar_eq, hadvance, hcalls.segments_eq,
      hcalls.outcome_eq, ok_bind]
    rw [if_neg hactivity]
    rfl

/-- In the tick a member consumes on a date what the segments of the date credit to its visits. -/
def ConsumesCredited (store : TeamStore p) (request : TickRequest) (draws : DrawSource)
    (store' : TeamStore p) : Prop :=
  ∃ working played, tickSegments store.state request draws = .ok (working, played) ∧
    ∀ member date, consumedAt store'.scrum.memberBusinessDateConsumption member date =
      consumedAt store.scrum.memberBusinessDateConsumption member date +
        playedLabor played member date

theorem consumesCredited_of_step {store store' : TeamStore p} {request : TickRequest}
    {draws : DrawSource} (hreach : (teamRuns p).Reachable store)
    (hstep : (teamRuns p).step store (.tick request draws) store') :
    ConsumesCredited store request draws store' := by
  rcases tickSegments_of_step hreach hstep with ⟨hsegments, hperm⟩ |
    ⟨command, advance, outcome, finish, hcommitted, hassembled, hrun, hsegments⟩
  · refine ⟨store.state, [], hsegments, fun member date => ?_⟩
    unfold consumedAt playedLabor
    rw [Keyed.sumAt_perm _ _ hperm]
    simp
  · exact ⟨advance.state, outcome.played, hsegments, hrun.consumed hcommitted hassembled⟩

/-- Labor is conserved: the labor of all visits is the consumption of all members in every reachable
state, and in every tick a member consumes on a date what the segments of the date credit to the
visits assigned to it. -/
theorem labor_conserved :
    (∀ store : TeamStore p, (teamRuns p).Reachable store →
      Balanced store.scrum.toScrumCollections) ∧
    ∀ (store store' : TeamStore p) (request : TickRequest) (draws : DrawSource),
      (teamRuns p).Reachable store → (teamRuns p).step store (.tick request draws) store' →
      ConsumesCredited store request draws store' :=
  ⟨fun _ h => .of_reachable h, fun _ _ _ _ hreach hstep => consumesCredited_of_step hreach hstep⟩

end JiraSimulator
