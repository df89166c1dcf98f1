import JiraSimulator.Correctness.Blueprint
import JiraSimulator.Correctness.Segments
import Mathlib.Data.List.MinMax

/-!
# The run over the segments of a tick

The segments are played in order up to the first completion.  `Plays` relates the visits and the
consumption before and after the segments that a tick played; what every segment keeps holds of the
whole run by induction on it.

* `runSegments_eq_ok`: the outcome of the loop is such a run, over shortened segments.
* `Plays.visits`: the visits after a run are the visits before it, with other owners and clocks.
* `Plays.labor`, `Plays.total`: the consumption grows by the labor that the run credits.
-/

namespace JiraSimulator

open Library Library.Outcome

variable {p : Platform}

/-! ### The segments of an interval -/

/-- Consecutive elements of an ordered list are ordered. -/
theorem rel_of_mem_zip_tail {α : Type} {R : α → α → Prop} {xs : List α} (h : xs.Pairwise R)
    {pair : α × α} (hpair : pair ∈ xs.zip xs.tail) : R pair.1 pair.2 := by
  induction xs with
  | nil => simp at hpair
  | cons x xs ih =>
    cases xs with
    | nil => simp at hpair
    | cons y ys =>
      rw [List.tail_cons, List.zip_cons_cons, List.mem_cons] at hpair
      rcases hpair with rfl | hpair
      · exact List.rel_of_pairwise_cons h List.mem_cons_self
      · exact ih h.of_cons (by simpa using hpair)

theorem mem_availabilityBoundaries {state : LiveTeamState p} {startsAt endsAt instant : ℤ}
    (h : instant ∈ availabilityBoundaries state startsAt endsAt) (hle : startsAt ≤ endsAt) :
    startsAt ≤ instant ∧ instant ≤ endsAt := by
  simp only [availabilityBoundaries, List.mem_insertionSort, List.mem_dedup, List.mem_cons,
    List.mem_filter, Bool.and_eq_true, decide_eq_true_eq] at h
  omega

/-- A segment lies inside the interval and is not reversed. -/
structure BusinessSegment.Within (segment : BusinessSegment) (startsAt endsAt : ℤ) : Prop where
  startsAt_le : startsAt ≤ segment.start
  ordered : segment.start ≤ segment.finish
  le_endsAt : segment.finish ≤ endsAt

theorem daySegments_eq_ok {state : LiveTeamState p} {calendar : BusinessCalendar}
    {startsAt endsAt day : ℤ} {segments : List BusinessSegment}
    (h : daySegments state calendar startsAt endsAt day = .ok segments) :
    ∀ segment ∈ segments, segment.Within startsAt endsAt := by
  simp only [daySegments, bind_eq_ok] at h
  obtain ⟨working, -, h⟩ := h
  cases working with
  | none =>
    rw [pure_eq_ok] at h
    simp [← h]
  | some working =>
    simp only at h
    split_ifs at h with hlt
    · rw [pure_eq_ok] at h
      subst h
      intro segment hsegment
      obtain ⟨pair, hpair, rfl⟩ := List.mem_map.mp hsegment
      have hsorted : (availabilityBoundaries state (max startsAt working.start)
          (min endsAt working.finish)).Pairwise (· ≤ ·) := List.pairwise_insertionSort _ _
      obtain ⟨hfirst, hsecond⟩ := List.of_mem_zip hpair
      have hstart := mem_availabilityBoundaries hfirst hlt.le
      have hfinish := mem_availabilityBoundaries (List.mem_of_mem_tail hsecond) hlt.le
      exact ⟨(le_max_left _ _).trans hstart.1, rel_of_mem_zip_tail hsorted hpair,
        hfinish.2.trans (min_le_left _ _)⟩
    · rw [pure_eq_ok] at h
      simp [← h]

theorem businessSegments_eq_ok {state : LiveTeamState p} {calendar : BusinessCalendar}
    {startsAt endsAt : ℤ} {segments : List BusinessSegment}
    (h : businessSegments state calendar startsAt endsAt = .ok segments) :
    ∀ segment ∈ segments, segment.Within startsAt endsAt := by
  unfold businessSegments at h
  split_ifs at h with hempty
  · cases h
    simp
  · simp only [bind_eq_ok, exists_unit, pure_eq_ok] at h
    obtain ⟨firstDay, -, finalDay, -, days, hdays, -, rfl⟩ := h
    intro segment hsegment
    obtain ⟨day, hday, hsegment⟩ := List.mem_flatten.mp hsegment
    obtain ⟨date, -, hdate⟩ := exists_of_mem_mapM hdays hday
    exact daySegments_eq_ok hdate segment hsegment

/-! ### The first completion -/

theorem dwellCompletion_le {calendar : BusinessCalendar} {segment : BusinessSegment}
    {visit : StatusVisitState} {sample : StatusVisitSample} {instant : ℤ}
    (h : dwellCompletion calendar segment visit sample = .ok instant) :
    segment.start ≤ instant := by
  simp only [dwellCompletion, bind_eq_ok, addDuration] at h
  obtain ⟨elapsed, -, h⟩ := h
  split_ifs at h
  cases h
  omega

/-- A completion that shortens a segment lies inside it. -/
theorem completionBoundary_eq_ok {state : LiveTeamState p} {calendar : BusinessCalendar}
    {segment : BusinessSegment} {before after : List StatusVisitState} {boundary : ℤ}
    (h : completionBoundary state calendar segment before after = .ok (some boundary)) :
    segment.start ≤ boundary ∧ boundary ≤ segment.finish := by
  simp only [completionBoundary, bind_eq_ok, pure_eq_ok] at h
  obtain ⟨ordered, -, search, hsearch, hmin⟩ := h
  -- each completion that is found lies in the segment
  have hall : ∀ instant ∈ search.candidates, segment.start ≤ instant ∧
      instant ≤ segment.finish := by
    refine foldlM_induction (motive := fun search : CompletionSearch =>
      ∀ instant ∈ search.candidates, segment.start ≤ instant ∧ instant ≤ segment.finish)
      hsearch (by simp) ?_
    intro search visit search' _ hcandidates hstep
    simp only [searchCompletion, bind_eq_ok] at hstep
    obtain ⟨updated, -, touchAt, -, hstep⟩ := hstep
    cases touchAt with
    | none =>
      simp only [pure_eq_ok] at hstep
      subst hstep
      exact hcandidates
    | some touchAt =>
      simp only [bind_eq_ok] at hstep
      obtain ⟨sample, -, dwellAt, hdwell, hstep⟩ := hstep
      have hstart := dwellCompletion_le hdwell
      split_ifs at hstep with hle
      · simp only [pure_eq_ok] at hstep
        subst hstep
        intro instant hinstant
        rcases List.mem_append.mp hinstant with hold | hnew
        · exact hcandidates instant hold
        · rw [List.mem_singleton] at hnew
          subst hnew
          exact ⟨hstart.trans (le_max_right _ _), hle⟩
      · simp only [pure_eq_ok] at hstep
        subst hstep
        exact hcandidates
  exact hall boundary (List.min?_mem hmin)

/-! ### Runs over segments -/

/-- A run over the played segments from some visits and consumption to others. -/
inductive Plays (state : LiveTeamState p) (blocked : List Uuid) :
    List StatusVisitState → Consumption →
    List (BusinessSegment × List StatusVisitState × Consumption × SegmentAdvance) →
    List StatusVisitState → Consumption → Prop
  | done (visits : List StatusVisitState) (consumption : Consumption) :
      Plays state blocked visits consumption [] visits consumption
  | play {visits visits' : List StatusVisitState} {consumption consumption' : Consumption}
      {segment : BusinessSegment} {advance : SegmentAdvance}
      {played : List (BusinessSegment × List StatusVisitState × Consumption × SegmentAdvance)}
      (h : advanceSegment state visits consumption segment blocked = .ok advance)
      (rest : Plays state blocked advance.visits advance.consumption played visits' consumption') :
      Plays state blocked visits consumption ((segment, visits, consumption, advance) :: played)
        visits' consumption'

/-- The loop plays the segments, the last of them perhaps up to its first completion. -/
theorem runSegments_eq_ok {state : LiveTeamState p} {calendar : BusinessCalendar}
    {blocked : List Uuid} {startsAt effectiveEnd : ℤ} {segments : List BusinessSegment}
    {visits : List StatusVisitState} {consumption : Consumption} {outcome : SegmentsOutcome}
    (h : runSegments state calendar blocked effectiveEnd segments visits consumption = .ok outcome)
    (hwithin : ∀ segment ∈ segments, segment.Within startsAt effectiveEnd)
    (hends : startsAt ≤ effectiveEnd) :
    Plays state blocked visits consumption outcome.played outcome.visits outcome.consumption ∧
      (∀ entry ∈ outcome.played, entry.1.Within startsAt effectiveEnd) ∧
      startsAt ≤ outcome.committedEnd ∧ outcome.committedEnd ≤ effectiveEnd := by
  induction segments generalizing visits consumption outcome with
  | nil =>
    cases h
    exact ⟨.done visits consumption, by simp, hends, le_rfl⟩
  | cons segment segments ih =>
    have hsegment := hwithin segment List.mem_cons_self
    simp only [runSegments, bind_eq_ok] at h
    obtain ⟨probe, hprobe, boundary, hboundary, h⟩ := h
    cases boundary with
    | none =>
      simp only [bind_eq_ok, pure_eq_ok] at h
      obtain ⟨rest, hrest, rfl⟩ := h
      obtain ⟨hplays, hplayed, hend⟩ :=
        ih hrest fun segment hs => hwithin segment (List.mem_cons_of_mem _ hs)
      refine ⟨.play hprobe hplays, ?_, hend⟩
      exact List.forall_mem_cons.mpr ⟨hsegment, hplayed⟩
    | some boundary =>
      simp only [bind_eq_ok, pure_eq_ok] at h
      obtain ⟨advanced, hadvanced, rfl⟩ := h
      -- the segment is played up to its completion, and is the last one
      obtain ⟨hstart, hfinish⟩ := completionBoundary_eq_ok hboundary
      refine ⟨.play hadvanced (.done _ _), ?_, hsegment.startsAt_le.trans hstart,
        hfinish.trans hsegment.le_endsAt⟩
      intro entry hentry
      rw [List.mem_singleton] at hentry
      subst hentry
      exact ⟨hsegment.startsAt_le, hstart, hfinish.trans hsegment.le_endsAt⟩

/-! ### The visits after a run -/

/-- The visits at two times: one for one, and each passes its checks. -/
structure SameVisits (visits visits' : List StatusVisitState) : Prop where
  ids : (visits'.map (·.id)).Perm (visits.map (·.id))
  same : ∀ visit' ∈ visits', visit'.Valid ∧ ∃ visit ∈ visits, SameVisit visit visit'

theorem SameVisits.refl {visits : List StatusVisitState} (h : ∀ visit ∈ visits, visit.Valid) :
    SameVisits visits visits :=
  ⟨.refl _, fun visit hv => ⟨h visit hv, visit, hv, .refl visit⟩⟩

theorem SameVisits.trans {a b c : List StatusVisitState} (h : SameVisits a b)
    (h' : SameVisits b c) : SameVisits a c := by
  refine ⟨h'.ids.trans h.ids, fun visit'' hv'' => ?_⟩
  obtain ⟨hvalid, visit', hv', hsame'⟩ := h'.same visit'' hv''
  obtain ⟨-, visit, hv, hsame⟩ := h.same visit' hv'
  exact ⟨hvalid, visit, hv, hsame.trans hsame'⟩

theorem SameVisits.nodup {visits visits' : List StatusVisitState} (h : SameVisits visits visits')
    (hnodup : (visits.map (·.id)).Nodup) : (visits'.map (·.id)).Nodup :=
  h.ids.nodup_iff.mpr hnodup

/-- Every visit before has its visit after. -/
theorem SameVisits.exists_after {visits visits' : List StatusVisitState}
    (h : SameVisits visits visits') (hnodup : (visits.map (·.id)).Nodup) {visit : StatusVisitState}
    (hv : visit ∈ visits) : ∃ visit' ∈ visits', SameVisit visit visit' := by
  have hid : visit.id ∈ visits'.map (·.id) := h.ids.mem_iff.mpr (List.mem_map_of_mem hv)
  obtain ⟨visit', hv', hid'⟩ := List.mem_map.mp hid
  obtain ⟨-, other, hother, hsame⟩ := h.same visit' hv'
  obtain rfl : other = visit :=
    List.inj_on_of_nodup_map hnodup hother hv (hsame.id.symm.trans hid')
  exact ⟨visit', hv', hsame⟩

theorem SegmentMoves.sameVisits {state : LiveTeamState p} {visits : List StatusVisitState}
    {consumption : Consumption} {segment : BusinessSegment} {blocked : List Uuid}
    {advance : SegmentAdvance} {moves : List (StatusVisitState × StatusVisitState)}
    (h : SegmentMoves state visits consumption segment blocked advance moves)
    (hvalid : ∀ visit ∈ visits, visit.Valid) : SameVisits visits advance.visits := by
  refine ⟨?_, fun visit' hv' => ?_⟩
  · have hids : (moves.map Prod.snd).map (·.id) = (moves.map Prod.fst).map (·.id) := by
      rw [List.map_map, List.map_map]
      exact List.map_congr_left fun move hm => (h.same move hm).1.id
    rw [h.after, List.map_append, hids, ← List.map_append]
    refine List.Perm.map _ ((h.before.append_left _).trans ?_)
    simpa using List.filter_append_perm (fun visit => decide (visit.id ∈ blocked)) visits
  · rw [h.after, List.mem_append] at hv'
    rcases hv' with hv' | hv'
    · have hmem := (List.mem_filter.mp hv').1
      exact ⟨hvalid visit' hmem, visit', hmem, .refl visit'⟩
    · obtain ⟨move, hm, rfl⟩ := List.mem_map.mp hv'
      have hmem := h.before.mem_iff.mp (List.mem_map_of_mem hm)
      exact ⟨(h.same move hm).2, move.1, (List.mem_filter.mp hmem).1, (h.same move hm).1⟩

section plays

variable {state : LiveTeamState p} {blocked : List Uuid} {visits visits' : List StatusVisitState}
  {consumption consumption' : Consumption}
  {played : List (BusinessSegment × List StatusVisitState × Consumption × SegmentAdvance)}

/-- The rule for runs: what every segment keeps holds after the run. -/
theorem Plays.induction {motive : List StatusVisitState → Consumption → Prop}
    (h : Plays state blocked visits consumption played visits' consumption')
    (init : motive visits consumption)
    (step : ∀ visits consumption segment advance moves, motive visits consumption →
      SegmentMoves state visits consumption segment blocked advance moves →
      (segment, visits, consumption, advance) ∈ played →
      motive advance.visits advance.consumption) :
    motive visits' consumption' := by
  induction h with
  | done => exact init
  | play hadvance _ ih =>
    obtain ⟨moves, hmoves⟩ := advanceSegment_eq_ok hadvance
    refine ih (step _ _ _ _ moves init hmoves List.mem_cons_self) ?_
    intro visits consumption segment advance moves hmotive hmoves hmem
    exact step _ _ _ _ moves hmotive hmoves (List.mem_cons_of_mem _ hmem)

theorem Plays.sameVisits (h : Plays state blocked visits consumption played visits' consumption')
    (hvalid : ∀ visit ∈ visits, visit.Valid) : SameVisits visits visits' := by
  refine h.induction (motive := fun visits' _ => SameVisits visits visits')
    (SameVisits.refl hvalid) ?_
  intro visits₁ consumption₁ segment advance moves hsame hmoves _
  exact hsame.trans (hmoves.sameVisits fun visit hv => (hsame.same visit hv).1)

/-- The total consumption grows by the labor that the run credits. -/
theorem Plays.total (h : Plays state blocked visits consumption played visits' consumption')
    (hnodup : (consumption.map Prod.fst).Nodup) :
    (consumption'.map Prod.fst).Nodup ∧
      consumption'.total + creditedLabor visits = consumption.total + creditedLabor visits' := by
  refine h.induction (motive := fun visits' consumption' => (consumption'.map Prod.fst).Nodup ∧
    consumption'.total + creditedLabor visits = consumption.total + creditedLabor visits')
    ⟨hnodup, by omega⟩ ?_
  intro visits₁ consumption₁ segment advance moves ⟨hnodup₁, htotal₁⟩ hmoves _
  have htotal := hmoves.total hnodup₁
  exact ⟨(hmoves.entries hnodup₁).nodup, by omega⟩

/-- Keys stay, and every new entry is of a member. -/
theorem Plays.entries (h : Plays state blocked visits consumption played visits' consumption')
    (hnodup : (consumption.map Prod.fst).Nodup) :
    (∀ key ∈ consumption.map Prod.fst, key ∈ consumption'.map Prod.fst) ∧
      ∀ entry ∈ consumption', entry ∈ consumption ∨
        entry.1.1 ∈ state.scrum.memberIdentities.map (·.id) := by
  suffices hall : (consumption'.map Prod.fst).Nodup ∧
      (∀ key ∈ consumption.map Prod.fst, key ∈ consumption'.map Prod.fst) ∧
      ∀ entry ∈ consumption', entry ∈ consumption ∨
        entry.1.1 ∈ state.scrum.memberIdentities.map (·.id) from hall.2
  refine h.induction (motive := fun _ consumption' => (consumption'.map Prod.fst).Nodup ∧
    (∀ key ∈ consumption.map Prod.fst, key ∈ consumption'.map Prod.fst) ∧
    ∀ entry ∈ consumption', entry ∈ consumption ∨
      entry.1.1 ∈ state.scrum.memberIdentities.map (·.id))
    ⟨hnodup, fun _ hkey => hkey, fun _ hentry => .inl hentry⟩ ?_
  intro visits₁ consumption₁ segment advance moves ⟨hnodup₁, hkeys₁, hentries₁⟩ hmoves _
  obtain ⟨hnodup₂, hkeys₂, hentries₂⟩ := hmoves.entries hnodup₁
  refine ⟨hnodup₂, fun key hkey => hkeys₂ key (hkeys₁ key hkey), fun entry hentry => ?_⟩
  rcases hentries₂ entry hentry with hold | ⟨identity, hmem, hkey⟩
  · exact hentries₁ entry hold
  · refine .inr (List.mem_map.mpr ⟨identity, hmem, ?_⟩)
    rw [hkey]

end plays

end JiraSimulator
