import JiraSimulator.Library.Transition
import Mathlib.Logic.Function.Basic
import Mathlib.Tactic.SplitIfs

/-!
# Work queues

Workers claim the jobs of a queue and finish them; a job that failed can be put back.  A claim asks
nothing of the phase of its job.
* `claimedOnce_of_waiting`: when only waiting jobs are claimed, each claim has a time at which its
  job came to wait to itself; `claimedOnce_claim` says that no other condition will do.
* `owned_of_quiet_crash`: when the workers are lost only while no job is running, every running job
  has its worker.
-/

namespace Library.WorkQueue

open Transition

/-! ### Queues -/

inductive Phase where
  | waiting
  | running
  | finished
  | failed
  deriving DecidableEq, Repr

/-- A job came to wait, or was claimed. -/
inductive Mark (κ : Type) where
  | waits (key : κ)
  | claimed (key : κ)

/-- The phases of the jobs, the jobs of the workers, and what happened, the latest first. -/
structure Queue (κ ω : Type) where
  phase : κ → Option Phase
  job : ω → Option κ
  log : List (Mark κ)

inductive Act (κ ω : Type) where
  | add (key : κ)
  | claim (worker : ω) (key : κ)
  | finish (worker : ω) (key : κ) (phase : Phase)
  | requeue (key : κ)
  | crash

variable {κ ω : Type} [DecidableEq κ] [DecidableEq ω]

def Queue.empty : Queue κ ω where
  phase := fun _ => none
  job := fun _ => none
  log := []

/-- A job comes to wait. -/
def Queue.wait (q : Queue κ ω) (key : κ) : Queue κ ω :=
  { q with phase := Function.update q.phase key (some .waiting), log := .waits key :: q.log }

def Queue.claim (q : Queue κ ω) (worker : ω) (key : κ) : Queue κ ω where
  phase := Function.update q.phase key (some .running)
  job := Function.update q.job worker (some key)
  log := .claimed key :: q.log

def Queue.finish (q : Queue κ ω) (worker : ω) (key : κ) (phase : Phase) : Queue κ ω where
  phase := Function.update q.phase key (some phase)
  job := Function.update q.job worker none
  log := if phase = .waiting then .waits key :: q.log else q.log

def Queue.crash (q : Queue κ ω) : Queue κ ω :=
  { q with job := fun _ => none }

section Fields

variable (q : Queue κ ω) (worker : ω) (key : κ) (phase : Phase)

omit [DecidableEq ω] in
@[simp] theorem Queue.wait_phase :
    (q.wait key).phase = Function.update q.phase key (some .waiting) := rfl

@[simp] theorem Queue.claim_phase :
    (q.claim worker key).phase = Function.update q.phase key (some .running) := rfl

@[simp] theorem Queue.claim_job :
    (q.claim worker key).job = Function.update q.job worker (some key) := rfl

@[simp] theorem Queue.finish_phase :
    (q.finish worker key phase).phase = Function.update q.phase key (some phase) := rfl

@[simp] theorem Queue.finish_job :
    (q.finish worker key phase).job = Function.update q.job worker none := rfl

@[simp] theorem Queue.finish_log :
    (q.finish worker key phase).log = if phase = .waiting then .waits key :: q.log else q.log := rfl

end Fields

inductive Step : Queue κ ω → Act κ ω → Queue κ ω → Prop
  | add {q : Queue κ ω} {key : κ} (h : q.phase key = none) : Step q (.add key) (q.wait key)
  | claim {q : Queue κ ω} {worker : ω} {key : κ} (hjob : q.job worker = none)
      (hphase : q.phase key ≠ none) : Step q (.claim worker key) (q.claim worker key)
  | finish {q : Queue κ ω} {worker : ω} {key : κ} {phase : Phase}
      (hjob : q.job worker = some key) (hphase : phase ≠ .running) :
      Step q (.finish worker key phase) (q.finish worker key phase)
  | requeue {q : Queue κ ω} {key : κ} (h : q.phase key = some .failed) :
      Step q (.requeue key) (q.wait key)
  | crash {q : Queue κ ω} : Step q .crash q.crash

/-- A work queue that starts empty. -/
def system : System Unit (Queue κ ω) (Act κ ω) where
  start _ q := q = Queue.empty
  step := Step

/-! ### Many jobs at once -/

/-- Jobs come to wait, the last of the list first. -/
def Queue.waitAll (q : Queue κ ω) (keys : List κ) : Queue κ ω :=
  keys.foldr (fun key q => q.wait key) q

omit [DecidableEq ω] in
theorem Queue.waitAll_eq (q : Queue κ ω) (keys : List κ) :
    q.waitAll keys =
      { phase := fun key => if key ∈ keys then some .waiting else q.phase key
        job := q.job
        log := keys.map Mark.waits ++ q.log } := by
  induction keys with
  | nil => rfl
  | cons key keys ih =>
    show (q.waitAll keys).wait key = _
    rw [ih, Queue.wait]
    refine congrArg (fun phase => Queue.mk phase _ _) ?_
    funext k
    rw [Function.update_apply]
    by_cases hk : k = key
    · rw [if_pos hk, if_pos (hk ▸ List.mem_cons_self)]
    · rw [if_neg hk]
      simp only [List.mem_cons, hk, false_or]

/-- Failed jobs are put back one by one. -/
theorem reaches_requeue {ok : Queue κ ω → Act κ ω → Prop} (hok : ∀ q key, ok q (.requeue key))
    {q : Queue κ ω} {keys : List κ} (hnodup : keys.Nodup)
    (hfailed : ∀ key ∈ keys, q.phase key = some .failed) :
    (system : System Unit (Queue κ ω) (Act κ ω)).ReachesBy ok q (q.waitAll keys) := by
  induction keys with
  | nil => exact .refl
  | cons key keys ih =>
    obtain ⟨hkey, hnodup⟩ := List.nodup_cons.mp hnodup
    refine .tail (ih hnodup fun k hk => hfailed k (List.mem_cons_of_mem _ hk)) ?_
    refine ⟨.requeue key, hok _ _, .requeue ?_⟩
    rw [Queue.waitAll_eq]
    show (if key ∈ keys then _ else _) = _
    rw [if_neg hkey]
    exact hfailed key List.mem_cons_self

/-! ### Claims -/

/-- Did the job come to wait after its last claim? -/
def Waits (key : κ) : List (Mark κ) → Prop
  | [] => False
  | .waits k :: older => k = key ∨ Waits key older
  | .claimed k :: older => k ≠ key ∧ Waits key older

/-- Before each claim the job came to wait, and it was not claimed since. -/
def ClaimedOnce : List (Mark κ) → Prop
  | [] => True
  | .waits _ :: older => ClaimedOnce older
  | .claimed key :: older => Waits key older ∧ ClaimedOnce older

/-- Only waiting jobs are claimed. -/
def ClaimsWaiting (q : Queue κ ω) : Act κ ω → Prop
  | .claim _ key => q.phase key = some .waiting
  | _ => True

variable {q q' : Queue κ ω} {act : Act κ ω}

theorem waits_of_phase (hq : (system : System Unit (Queue κ ω) (Act κ ω)).Reachable q) :
    ∀ key, q.phase key = some .waiting → Waits key q.log := by
  refine hq.invariant (I := fun q => ∀ key, q.phase key = some .waiting → Waits key q.log) ?_ ?_
  · rintro _ q rfl key h
    cases h
  · intro q act q' _ ih hstep k hk
    cases hstep with
    | add _ | requeue _ =>
      rename_i key _
      by_cases hkey : k = key
      · exact .inl hkey.symm
      · rw [Queue.wait_phase, Function.update_of_ne hkey] at hk
        exact .inr (ih k hk)
    | @claim worker key _ _ =>
      by_cases hkey : k = key
      · rw [hkey, Queue.claim_phase, Function.update_self] at hk
        cases hk
      · rw [Queue.claim_phase, Function.update_of_ne hkey] at hk
        exact ⟨Ne.symm hkey, ih k hk⟩
    | @finish worker key phase _ _ =>
      by_cases hkey : k = key
      · rw [hkey, Queue.finish_phase, Function.update_self] at hk
        obtain rfl := Option.some.inj hk
        exact .inl hkey.symm
      · rw [Queue.finish_phase, Function.update_of_ne hkey] at hk
        have hwaits := ih k hk
        rw [Queue.finish_log]
        split_ifs
        · exact .inr hwaits
        · exact hwaits
    | crash => exact ih k hk

theorem claimedOnce_finish {worker : ω} {key : κ} {phase : Phase} :
    ClaimedOnce (q.finish worker key phase).log ↔ ClaimedOnce q.log := by
  rw [Queue.finish_log]
  split_ifs <;> rfl

/-- When only waiting jobs are claimed, no job is claimed twice for one wait. -/
theorem claimedOnce_of_waiting
    (hq : (system : System Unit (Queue κ ω) (Act κ ω)).ReachableBy (fun _ => True)
      ClaimsWaiting q) :
    ClaimedOnce q.log := by
  refine hq.invariant (I := fun q => ClaimedOnce q.log) ?_ ?_
  · rintro _ q rfl _
    trivial
  · intro q act q' hreach ih hok hstep
    cases hstep with
    | add _ | requeue _ | crash => exact ih
    | claim _ _ => exact ⟨waits_of_phase hreach _ hok, ih⟩
    | finish _ _ => exact claimedOnce_finish.mpr ih

/-- The workers of a queue whose jobs were claimed once for each wait. -/
structure Exclusive (q : Queue κ ω) : Prop where
  running : ∀ worker key, q.job worker = some key → q.phase key = some .running
  alone : ∀ worker worker' key, q.job worker = some key → q.job worker' = some key →
    worker = worker'
  gone : ∀ key, q.phase key ≠ some .waiting → ¬ Waits key q.log

omit [DecidableEq ω] in
theorem Exclusive.of_wait (h : Exclusive q) {key : κ} (hkey : q.phase key ≠ some .running) :
    Exclusive (q.wait key) where
  running worker k hjob := by
    have hk := h.running worker k hjob
    rw [Queue.wait_phase, Function.update_of_ne fun heq => hkey (by rw [← heq, hk])]
    exact hk
  alone := h.alone
  gone k hk := by
    have hne : k ≠ key := by
      rintro rfl
      exact hk (Function.update_self ..)
    rw [Queue.wait_phase, Function.update_of_ne hne] at hk
    rintro (heq | hwaits)
    · exact hne heq.symm
    · exact h.gone k hk hwaits

theorem Exclusive.of_claim (h : Exclusive q) {worker : ω} {key : κ}
    (hkey : q.phase key = some .waiting) : Exclusive (q.claim worker key) where
  running w k hjob := by
    show Function.update q.phase key (some .running) k = some .running
    by_cases hk : k = key
    · rw [hk, Function.update_self]
    · rw [Function.update_of_ne hk]
      by_cases hw : w = worker
      · rw [hw, Queue.claim_job, Function.update_self] at hjob
        exact absurd (Option.some.inj hjob).symm hk
      · rw [Queue.claim_job, Function.update_of_ne hw] at hjob
        exact h.running w k hjob
  alone w w' k hw hw' := by
    have hfree : ∀ v, q.job v ≠ some key := by
      intro v hv
      rw [h.running v key hv] at hkey
      cases hkey
    rw [Queue.claim_job, Function.update_apply] at hw hw'
    split_ifs at hw hw' with h₁ h₂ h₂
    · rw [h₁, h₂]
    · obtain rfl := Option.some.inj hw
      exact absurd hw' (hfree w')
    · obtain rfl := Option.some.inj hw'
      exact absurd hw (hfree w)
    · exact h.alone w w' k hw hw'
  gone k hk := by
    rintro ⟨hne, hwaits⟩
    rw [Queue.claim_phase, Function.update_of_ne (Ne.symm hne)] at hk
    exact h.gone k hk hwaits

theorem Exclusive.of_finish (h : Exclusive q) {worker : ω} {key : κ} {phase : Phase}
    (hjob : q.job worker = some key) : Exclusive (q.finish worker key phase) where
  running w k hw := by
    rw [Queue.finish_job, Function.update_apply] at hw
    split_ifs at hw with hworker
    have hk : k ≠ key := by
      rintro rfl
      exact hworker (h.alone w worker k hw hjob)
    rw [Queue.finish_phase, Function.update_of_ne hk]
    exact h.running w k hw
  alone w w' k hw hw' := by
    rw [Queue.finish_job, Function.update_apply] at hw hw'
    split_ifs at hw hw'
    exact h.alone w w' k hw hw'
  gone k hk := by
    have hrunning := h.running worker key hjob
    by_cases hkey : k = key
    · subst hkey
      rw [Queue.finish_phase, Function.update_self] at hk
      rw [Queue.finish_log, if_neg fun heq => hk (congrArg some heq)]
      exact h.gone k (by rw [hrunning]; decide)
    · rw [Queue.finish_phase, Function.update_of_ne hkey] at hk
      rw [Queue.finish_log]
      split_ifs
      · rintro (heq | hwaits)
        · exact hkey heq.symm
        · exact h.gone k hk hwaits
      · exact h.gone k hk

/-- As long as each job is claimed once for each wait, a running job has one worker. -/
theorem exclusive_of_claimedOnce (hq : (system : System Unit (Queue κ ω) (Act κ ω)).Reachable q) :
    ClaimedOnce q.log → Exclusive q := by
  refine hq.invariant (I := fun q => ClaimedOnce q.log → Exclusive q) ?_ ?_
  · rintro _ q rfl _
    refine ⟨?_, ?_, fun _ _ => id⟩
    · intro _ _ h
      cases h
    · intro _ _ _ h
      cases h
  · intro q act q' _ ih hstep honce
    cases hstep with
    | add h => exact (ih honce).of_wait (by rw [h]; decide)
    | requeue h => exact (ih honce).of_wait (by rw [h]; decide)
    | @claim worker key _ _ =>
      have h := ih honce.2
      refine h.of_claim ?_
      by_contra hkey
      exact h.gone key hkey honce.1
    | finish hjob _ => exact (ih (claimedOnce_finish.mp honce)).of_finish hjob
    | crash =>
      refine ⟨?_, ?_, (ih honce).gone⟩
      · intro _ _ h
        cases h
      · intro _ _ _ h
        cases h

/-- A claim keeps the order of claims and waits exactly when its job is waiting. -/
theorem claimedOnce_claim (hq : (system : System Unit (Queue κ ω) (Act κ ω)).Reachable q)
    (worker : ω) (key : κ) : ClaimedOnce (q.claim worker key).log ↔
      q.phase key = some .waiting ∧ ClaimedOnce q.log := by
  constructor
  · rintro ⟨hwaits, honce⟩
    refine ⟨?_, honce⟩
    by_contra hkey
    exact (exclusive_of_claimedOnce hq honce).gone key hkey hwaits
  · rintro ⟨hkey, honce⟩
    exact ⟨waits_of_phase hq key hkey, honce⟩

/-! ### Crashes -/

/-- Every running job has its worker. -/
def Owned (q : Queue κ ω) : Prop :=
  ∀ key, q.phase key = some .running → ∃ worker, q.job worker = some key

/-- The workers are lost only while no job is running. -/
def QuietCrash (q : Queue κ ω) : Act κ ω → Prop
  | .crash => ∀ key, q.phase key ≠ some .running
  | _ => True

omit [DecidableEq ω] in
theorem Owned.of_wait (h : Owned q) {key : κ} : Owned (q.wait key) := by
  intro k hk
  by_cases hkey : k = key
  · rw [hkey, Queue.wait_phase, Function.update_self] at hk
    cases hk
  · rw [Queue.wait_phase, Function.update_of_ne hkey] at hk
    exact h k hk

theorem owned_of_quiet_crash
    (hq : (system : System Unit (Queue κ ω) (Act κ ω)).ReachableBy (fun _ => True) QuietCrash q) :
    Owned q := by
  refine hq.invariant ?_ ?_
  · rintro _ q rfl _ key h
    cases h
  · intro q act q' _ ih hok hstep
    cases hstep with
    | add _ | requeue _ => exact ih.of_wait
    | @claim worker key hjob _ =>
      intro k hk
      by_cases hkey : k = key
      · exact ⟨worker, by rw [hkey, Queue.claim_job, Function.update_self]⟩
      · rw [Queue.claim_phase, Function.update_of_ne hkey] at hk
        obtain ⟨w, hw⟩ := ih k hk
        -- the worker is idle, so it is not the owner
        have hne : w ≠ worker := by
          rintro rfl
          rw [hjob] at hw
          cases hw
        exact ⟨w, by rw [Queue.claim_job, Function.update_of_ne hne, hw]⟩
    | @finish worker key phase hjob hphase =>
      intro k hk
      have hkey : k ≠ key := by
        rintro rfl
        rw [Queue.finish_phase, Function.update_self] at hk
        exact hphase (Option.some.inj hk)
      rw [Queue.finish_phase, Function.update_of_ne hkey] at hk
      obtain ⟨w, hw⟩ := ih k hk
      -- the worker finishes another key
      have hne : w ≠ worker := by
        rintro rfl
        rw [hjob] at hw
        exact hkey (Option.some.inj hw).symm
      exact ⟨w, by rw [Queue.finish_job, Function.update_of_ne hne, hw]⟩
    | crash =>
      intro k hk
      exact absurd hk (hok k)

end Library.WorkQueue
