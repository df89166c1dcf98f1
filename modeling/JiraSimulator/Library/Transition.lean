import Mathlib.Logic.Relation

/-!
# Runs of a transition system

A system has starting states, reached from a start input, and steps, each taken on an event.
`ReachableBy` collects the states of the runs whose start input and steps all meet a condition;
`Reachable` is the case without one.  `ReachableBy.invariant` is the induction rule for an
invariant, and `ReachesBy` relates a state to the later states of the runs that pass through it.
`ReachableBy.simulated` carries a run over to another system.
-/

namespace Library.Transition

/-- A transition system over states `σ`, with start inputs `ι` and events `ε`. -/
structure System (ι σ ε : Type) where
  start : ι → σ → Prop
  step : σ → ε → σ → Prop

namespace System

variable {ι σ ε : Type} (S : System ι σ ε)

/-- The states of the runs whose start input meets `okStart` and whose steps all meet `okStep`. -/
inductive ReachableBy (okStart : ι → Prop) (okStep : σ → ε → Prop) : σ → Prop
  | start {i : ι} {s : σ} (h : S.start i s) (hok : okStart i) : ReachableBy okStart okStep s
  | step {s s' : σ} {e : ε} (hs : ReachableBy okStart okStep s) (hok : okStep s e)
      (h : S.step s e s') : ReachableBy okStart okStep s'

/-- The states of all runs. -/
def Reachable (s : σ) : Prop :=
  S.ReachableBy (fun _ => True) (fun _ _ => True) s

/-- The later states of the runs from `s` whose steps all meet `okStep`. -/
def ReachesBy (okStep : σ → ε → Prop) : σ → σ → Prop :=
  Relation.ReflTransGen fun s s' => ∃ e, okStep s e ∧ S.step s e s'

variable {S} {okStart : ι → Prop} {okStep : σ → ε → Prop}

theorem ReachableBy.reachable {s : σ} (h : S.ReachableBy okStart okStep s) : S.Reachable s := by
  induction h with
  | start h _ => exact .start h trivial
  | step _ _ h ih => exact .step ih trivial h

/-- A run has one start input. -/
theorem ReachableBy.exists_start {s : σ} (h : S.ReachableBy okStart okStep s) :
    ∃ i, okStart i ∧ S.ReachableBy (fun other => other = i) okStep s := by
  induction h with
  | start h hok => exact ⟨_, hok, .start h rfl⟩
  | step _ hok h ih =>
    obtain ⟨i, hi, hrun⟩ := ih
    exact ⟨i, hi, .step hrun hok h⟩

/-- The rule for an invariant: it holds at the start and every step keeps it. -/
theorem ReachableBy.invariant {I : σ → Prop} {s : σ} (hs : S.ReachableBy okStart okStep s)
    (start : ∀ i s, S.start i s → okStart i → I s)
    (step : ∀ s e s', S.Reachable s → I s → okStep s e → S.step s e s' → I s') : I s := by
  induction hs with
  | start h hok => exact start _ _ h hok
  | step hs hok h ih => exact step _ _ _ hs.reachable ih hok h

/-- The rule for an invariant of every run. -/
theorem Reachable.invariant {I : σ → Prop} {s : σ} (hs : S.Reachable s)
    (start : ∀ i s, S.start i s → I s)
    (step : ∀ s e s', S.Reachable s → I s → S.step s e s' → I s') : I s :=
  ReachableBy.invariant hs (fun i s h _ => start i s h) fun s e s' hs hI _ h => step s e s' hs hI h

/-- What every allowed step keeps holds of every later state. -/
theorem ReachesBy.invariant {I : σ → Prop} {s t : σ} (h : S.ReachesBy okStep s t)
    (hreach : S.Reachable s) (init : I s)
    (step : ∀ s e s', S.Reachable s → I s → okStep s e → S.step s e s' → I s') : I t := by
  suffices h : S.Reachable t ∧ I t from h.2
  induction h with
  | refl => exact ⟨hreach, init⟩
  | tail _ hstep ih =>
    obtain ⟨e, hok, hstep⟩ := hstep
    exact ⟨.step ih.1 trivial hstep, step _ e _ ih.1 ih.2 hok hstep⟩

theorem ReachesBy.reachable {s t : σ} (h : S.ReachesBy okStep s t) (hreach : S.Reachable s) :
    S.Reachable t :=
  h.invariant hreach hreach fun _ _ _ hs _ _ hstep => .step hs trivial hstep

theorem ReachableBy.later {s t : σ} (hs : S.ReachableBy okStart okStep s)
    (h : S.ReachesBy okStep s t) : S.ReachableBy okStart okStep t := by
  induction h with
  | refl => exact hs
  | tail _ hstep ih =>
    obtain ⟨e, hok, hstep⟩ := hstep
    exact .step ih hok hstep

/-- A simulation: each allowed step is matched by allowed steps of another system. -/
theorem ReachableBy.simulated {ι' τ ε' : Type} {T : System ι' τ ε'} {okStart' : ι' → Prop}
    {okStep' : τ → ε' → Prop} {s : σ} (hs : S.ReachableBy okStart okStep s) (view : σ → τ)
    (start : ∀ i s, S.start i s → okStart i → T.ReachableBy okStart' okStep' (view s))
    (step : ∀ s e s', S.Reachable s → okStep s e → S.step s e s' →
      T.ReachesBy okStep' (view s) (view s')) :
    T.ReachableBy okStart' okStep' (view s) := by
  induction hs with
  | start h hok => exact start _ _ h hok
  | step hs hok h ih => exact ih.later (step _ _ _ hs.reachable hok h)

end System

end Library.Transition
