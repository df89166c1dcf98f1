import Mathlib.Data.List.Basic
import Mathlib.Data.Option.Basic

/-!
# Replaying a log

The events of a log are applied in order to a view, which may refuse an event.  Where every event
leaves a trace that later events keep, a view that has replayed a log shows the traces of all of it.

* `replay_append`: a longer log is replayed from the view of its first part.
* `replay_trace`: the traces of the events of a replayed log.
-/

namespace Library.Replay

variable {β ε : Type*} (apply : β → ε → Option β)

/-- The view after the events, or none when it refuses one of them. -/
def replay (log : List ε) (view : β) : Option β :=
  log.foldlM apply view

theorem replay_cons (event : ε) (log : List ε) (view : β) :
    replay apply (event :: log) view = (apply view event).bind (replay apply log) :=
  List.foldlM_cons

theorem replay_append (first second : List ε) (view : β) :
    replay apply (first ++ second) view = (replay apply first view).bind (replay apply second) := by
  unfold replay
  rw [List.foldlM_append]
  rfl

variable {apply}

/-- What every event keeps holds after a log. -/
theorem replay_induction {motive : β → Prop} {log : List ε} {view view' : β}
    (h : replay apply log view = some view') (init : motive view)
    (step : ∀ view event view', event ∈ log → motive view → apply view event = some view' →
      motive view') : motive view' := by
  induction log generalizing view with
  | nil =>
    obtain rfl := Option.some.inj h
    exact init
  | cons event log ih =>
    rw [replay_cons, Option.bind_eq_some_iff] at h
    obtain ⟨next, hnext, hrest⟩ := h
    refine ih hrest (step view event next List.mem_cons_self init hnext) ?_
    exact fun view event view' hmem => step view event view' (List.mem_cons_of_mem _ hmem)

/-- A view that has replayed a log shows the trace of each of its events. -/
theorem replay_trace (Trace : ε → β → Prop) {log : List ε} {view view' : β}
    (leaves : ∀ view event view', apply view event = some view' → Trace event view')
    (keeps : ∀ event view other view', Trace event view → apply view other = some view' →
      Trace event view')
    (h : replay apply log view = some view') : ∀ event ∈ log, Trace event view' := by
  induction log generalizing view with
  | nil =>
    intro event hevent
    cases hevent
  | cons event log ih =>
    rw [replay_cons, Option.bind_eq_some_iff] at h
    obtain ⟨next, hnext, hrest⟩ := h
    have htrace : Trace event view' := by
      refine replay_induction hrest (leaves view event next hnext) ?_
      exact fun view other view' _ => keeps event view other view'
    exact List.forall_mem_cons.mpr ⟨htrace, ih hrest⟩

end Library.Replay
