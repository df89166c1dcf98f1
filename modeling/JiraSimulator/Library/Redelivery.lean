import Mathlib.Data.List.Basic

/-!
# Programs that call a service

A script makes requests of a service one after another; a request that fails ends it.  A service
answers a request and changes its state.  A script can stop after any of its requests, and is then
started again: `crashes` is the state that a list of such stops leaves.
* `Script.stateAfter_of_oneWrite`: a script with at most one request that is no lookup stops either
  where it began or where it ends.
* `Script.run_crashes`: such a script, when it does nothing new where it ends, gives after any stops
  what it gives without one.
* `Script.again_ensure`: the rule for a script that looks up what it would create;
  `Script.again_ensure_of_writeLast` is the case in which only the last request creates.
-/

namespace Library.Redelivery

/-- A program that makes requests of a service. -/
inductive Script (ι : Type) (ρ : ι → Type) (ε α : Type) where
  | done (result : Except ε α)
  | call (request : ι) (next : ρ request → Script ι ρ ε α)

/-- How a service answers a request in a state. -/
abbrev Service (ι : Type) (ρ : ι → Type) (ε σ : Type) :=
  (request : ι) → σ → Except ε (ρ request) × σ

namespace Script

variable {ι : Type} {ρ : ι → Type} {ε α β σ : Type}

def bind : Script ι ρ ε α → (α → Script ι ρ ε β) → Script ι ρ ε β
  | .done (.ok a), f => f a
  | .done (.error e), _ => .done (.error e)
  | .call request next, f => .call request fun x => (next x).bind f

instance : Monad (Script ι ρ ε) where
  pure a := .done (.ok a)
  bind := bind

theorem bind_assoc' {γ : Type} (p : Script ι ρ ε α) (f : α → Script ι ρ ε β)
    (g : β → Script ι ρ ε γ) : (p >>= f) >>= g = p >>= fun a => f a >>= g := by
  induction p with
  | done result => cases result <;> rfl
  | call request next ih => exact congrArg (Script.call request) (funext ih)

/-- One request. -/
def request (request : ι) : Script ι ρ ε (ρ request) :=
  .call request fun x => .done (.ok x)

/-- A computation without requests. -/
def lift (result : Except ε α) : Script ι ρ ε α :=
  .done result

def throw (error : ε) : Script ι ρ ε α :=
  .done (.error error)

/-! ### Runs -/

/-- The result of a script, and the state it leaves. -/
def run (v : Service ι ρ ε σ) : Script ι ρ ε α → σ → Except ε α × σ
  | .done result, s => (result, s)
  | .call request next, s =>
    match v request s with
    | (.ok x, s') => run v (next x) s'
    | (.error e, s') => (.error e, s')

/-- The state of the service when the script stops after `n` requests. -/
def stateAfter (v : Service ι ρ ε σ) : ℕ → Script ι ρ ε α → σ → σ
  | 0, _, s => s
  | _ + 1, .done _, s => s
  | n + 1, .call request next, s =>
    match v request s with
    | (.ok x, s') => stateAfter v n (next x) s'
    | (.error _, s') => s'

/-- The state when the script is started again after each of the given stops. -/
def crashes (v : Service ι ρ ε σ) (p : Script ι ρ ε α) (stops : List ℕ) (s : σ) : σ :=
  stops.foldl (fun s n => stateAfter v n p s) s

variable {v : Service ι ρ ε σ} {p : Script ι ρ ε α} {f : α → Script ι ρ ε β} {s s' : σ}

theorem run_bind : run v (p >>= f) s =
    match run v p s with
    | (.ok a, s') => run v (f a) s'
    | (.error e, s') => (.error e, s') := by
  induction p generalizing s with
  | done result => cases result <;> rfl
  | call request next ih =>
    show run v (.call request fun x => next x >>= f) s = _
    rw [run, run]
    cases hv : v request s with
    | mk reply s' =>
      cases reply with
      | ok x => exact ih x
      | error e => rfl

theorem run_bind_of_ok {a : α} (h : run v p s = (.ok a, s')) :
    run v (p >>= f) s = run v (f a) s' := by
  rw [run_bind, h]

theorem run_bind_of_error {e : ε} (h : run v p s = (.error e, s')) :
    run v (p >>= f) s = (.error e, s') := by
  rw [run_bind, h]

theorem run_bind_eq_ok {b : β} : run v (p >>= f) s = (.ok b, s') ↔
    ∃ a t, run v p s = (.ok a, t) ∧ run v (f a) t = (.ok b, s') := by
  rw [run_bind]
  rcases run v p s with ⟨e | a, t⟩
  · simp
  · simp

theorem run_bind_eq_error {e : ε} : run v (p >>= f) s = (.error e, s') ↔
    run v p s = (.error e, s') ∨
      ∃ a t, run v p s = (.ok a, t) ∧ run v (f a) t = (.error e, s') := by
  rw [run_bind]
  rcases run v p s with ⟨e' | a, t⟩
  · simp
  · simp

@[simp] theorem run_pure {a : α} : run v (pure a : Script ι ρ ε α) s = (.ok a, s) := rfl

@[simp] theorem run_lift {result : Except ε α} :
    run v (lift result : Script ι ρ ε α) s = (result, s) := rfl

@[simp] theorem run_throw {e : ε} : run v (throw e : Script ι ρ ε α) s = (.error e, s) := rfl

@[simp] theorem run_request {r : ι} : run v (request r : Script ι ρ ε (ρ r)) s = v r s := by
  rw [request, run]
  cases hv : v r s with
  | mk reply s' => cases reply <;> rfl

/-! ### Lookups and writes -/

variable {lookup : ι → Bool}

/-- All requests are lookups. -/
def ReadOnly (lookup : ι → Bool) : Script ι ρ ε α → Prop
  | .done _ => True
  | .call request next => lookup request = true ∧ ∀ x, (next x).ReadOnly lookup

/-- At most one request is no lookup. -/
def OneWrite (lookup : ι → Bool) : Script ι ρ ε α → Prop
  | .done _ => True
  | .call request next =>
    if lookup request = true then ∀ x, (next x).OneWrite lookup else ∀ x, (next x).ReadOnly lookup

/-- Lookups leave the state of the service. -/
def Preserves (v : Service ι ρ ε σ) (lookup : ι → Bool) : Prop :=
  ∀ request s, lookup request = true → (v request s).2 = s

/-- Only the last request may be no lookup. -/
def WriteLast (lookup : ι → Bool) : Script ι ρ ε α → Prop
  | .done _ => True
  | .call request next =>
    if lookup request = true then ∀ x, (next x).WriteLast lookup
    else ∀ x, ∃ a, next x = .done (.ok a)

theorem ReadOnly.oneWrite (h : p.ReadOnly lookup) : p.OneWrite lookup := by
  induction p with
  | done result => trivial
  | call request next ih =>
    rw [OneWrite, if_pos h.1]
    exact fun x => ih x (h.2 x)

theorem readOnly_lift {result : Except ε α} : (lift result : Script ι ρ ε α).ReadOnly lookup :=
  trivial

theorem readOnly_request {r : ι} (h : lookup r = true) :
    (request r : Script ι ρ ε (ρ r)).ReadOnly lookup :=
  ⟨h, fun _ => trivial⟩

theorem ReadOnly.bind (h : p.ReadOnly lookup) (hf : ∀ a, (f a).ReadOnly lookup) :
    (p >>= f).ReadOnly lookup := by
  induction p with
  | done result =>
    cases result with
    | ok a => exact hf a
    | error e => trivial
  | call request next ih => exact ⟨h.1, fun x => ih x (h.2 x)⟩

/-- Lookups before the write. -/
theorem ReadOnly.bind_oneWrite (h : p.ReadOnly lookup) (hf : ∀ a, (f a).OneWrite lookup) :
    (p >>= f).OneWrite lookup := by
  induction p with
  | done result =>
    cases result with
    | ok a => exact hf a
    | error e => trivial
  | call request next ih =>
    show if lookup request = true then _ else _
    rw [if_pos h.1]
    exact fun x => ih x (h.2 x)

theorem writeLast_request {r : ι} : (request r : Script ι ρ ε (ρ r)).WriteLast lookup := by
  show if lookup r = true then ∀ _, True else ∀ x, ∃ a, _
  split_ifs
  · exact fun _ => trivial
  · exact fun x => ⟨x, rfl⟩

theorem writeLast_request_pure {r : ι} {a : α} :
    (do
      let _ ← (request r : Script ι ρ ε (ρ r))
      pure a : Script ι ρ ε α).WriteLast lookup := by
  show if lookup r = true then ∀ _, True else ∀ x, ∃ a, _
  split_ifs
  · exact fun _ => trivial
  · exact fun x => ⟨a, rfl⟩

theorem ReadOnly.bind_writeLast (h : p.ReadOnly lookup) (hf : ∀ a, (f a).WriteLast lookup) :
    (p >>= f).WriteLast lookup := by
  induction p with
  | done result =>
    cases result with
    | ok a => exact hf a
    | error e => trivial
  | call request next ih =>
    show if lookup request = true then _ else _
    rw [if_pos h.1]
    exact fun x => ih x (h.2 x)

theorem WriteLast.oneWrite (h : p.WriteLast lookup) : p.OneWrite lookup := by
  induction p with
  | done result => trivial
  | call request next ih =>
    rw [WriteLast] at h
    rw [OneWrite]
    by_cases hlookup : lookup request = true
    · rw [if_pos hlookup] at h ⊢
      exact fun x => ih x (h x)
    · rw [if_neg hlookup] at h ⊢
      intro x
      obtain ⟨a, ha⟩ := h x
      rw [ha]
      trivial

/-- Lookups after the write. -/
theorem OneWrite.bind (h : p.OneWrite lookup) (hf : ∀ a, (f a).ReadOnly lookup) :
    (p >>= f).OneWrite lookup := by
  induction p with
  | done result =>
    cases result with
    | ok a => exact (hf a).oneWrite
    | error e => trivial
  | call request next ih =>
    show if lookup request = true then _ else _
    rw [OneWrite] at h
    by_cases hlookup : lookup request = true
    · rw [if_pos hlookup] at h ⊢
      exact fun x => ih x (h x)
    · rw [if_neg hlookup] at h ⊢
      exact fun x => (h x).bind hf

theorem ReadOnly.run_state (hv : Preserves v lookup) (h : p.ReadOnly lookup) : (run v p s).2 = s := by
  induction p generalizing s with
  | done result => rfl
  | call request next ih =>
    have hs := hv request s h.1
    rw [run]
    cases hreply : v request s with
    | mk reply s' =>
      obtain rfl : s' = s := by rw [← hs, hreply]
      cases reply with
      | ok x => exact ih x (h.2 x)
      | error e => rfl

theorem ReadOnly.stateAfter (hv : Preserves v lookup) (h : p.ReadOnly lookup) (n : ℕ) :
    stateAfter v n p s = s := by
  induction p generalizing s n with
  | done result => cases n <;> rfl
  | call request next ih =>
    cases n with
    | zero => rfl
    | succ n =>
      have hs := hv request s h.1
      rw [Script.stateAfter]
      cases hreply : v request s with
      | mk reply s' =>
        obtain rfl : s' = s := by rw [← hs, hreply]
        cases reply with
        | ok x => exact ih x (h.2 x) n
        | error e => rfl

/-- A script with at most one write stops where it began, or where it ends. -/
theorem stateAfter_of_oneWrite (hv : Preserves v lookup) (h : p.OneWrite lookup) (n : ℕ) :
    stateAfter v n p s = s ∨ stateAfter v n p s = (run v p s).2 := by
  induction p generalizing s n with
  | done result => cases n <;> exact .inl rfl
  | call request next ih =>
    cases n with
    | zero => exact .inl rfl
    | succ n =>
      rw [OneWrite] at h
      rw [stateAfter, run]
      cases hreply : v request s with
      | mk reply s' =>
        cases reply with
        | error e => exact .inr rfl
        | ok x =>
          by_cases hlookup : lookup request = true
          · rw [if_pos hlookup] at h
            have hs := hv request s hlookup
            obtain rfl : s' = s := by rw [← hs, hreply]
            exact ih x (h x) n
          · -- after the write only lookups follow
            rw [if_neg hlookup] at h
            exact .inr (((h x).stateAfter hv n).trans ((h x).run_state hv).symm)

/-! ### Starting again -/

/-- Started again where it ends, the script gives the same result and leaves the state. -/
def Again (v : Service ι ρ ε σ) (p : Script ι ρ ε α) (s : σ) : Prop :=
  run v p (run v p s).2 = run v p s

/-- Stops do not change what a script with at most one write gives, when the script does nothing new
where it ends. -/
theorem run_crashes (hv : Preserves v lookup) (h : p.OneWrite lookup) (hagain : Again v p s)
    (stops : List ℕ) : run v p (crashes v p stops s) = run v p s := by
  have hstates : ∀ t, t = s ∨ t = (run v p s).2 →
      crashes v p stops t = s ∨ crashes v p stops t = (run v p s).2 := by
    induction stops with
    | nil => exact fun t ht => ht
    | cons n stops ih =>
      intro t ht
      refine ih _ ?_
      have hrun : (run v p t).2 = (run v p s).2 := by
        rcases ht with rfl | rfl
        · rfl
        · rw [hagain]
      show Script.stateAfter v n p t = s ∨ Script.stateAfter v n p t = (run v p s).2
      rcases stateAfter_of_oneWrite hv h n with hn | hn
      · rw [hn]
        exact ht
      · exact .inr (hn.trans hrun)
  rcases hstates s (.inl rfl) with hs | hs
  · rw [hs]
  · rw [hs, hagain]

theorem ReadOnly.again (hv : Preserves v lookup) (h : p.ReadOnly lookup) : Again v p s := by
  rw [Again, h.run_state hv]

theorem again_of_state_eq (h : (run v p s).2 = s) : Again v p s := by
  rw [Again, h]

theorem again_lift {result : Except ε α} (h : ∀ a, result = .ok a → Again v (f a) s) :
    Again v (lift result >>= f) s := by
  cases result with
  | ok a => exact h a rfl
  | error e => rfl

/-! ### Failures -/

/-- A request that fails leaves the state of the service. -/
def FailsCleanly (v : Service ι ρ ε σ) : Prop :=
  ∀ request s e s', v request s = (.error e, s') → s' = s

/-- The script succeeds, or requests that fail leave the state. -/
def Safe (v : Service ι ρ ε σ) (p : Script ι ρ ε α) (s : σ) : Prop :=
  (∃ a s', run v p s = (.ok a, s')) ∨ FailsCleanly v

theorem Safe.bind_left (h : Safe v (p >>= f) s) : Safe v p s := by
  refine h.imp_left fun ⟨b, s', hrun⟩ => ?_
  rw [run_bind] at hrun
  cases hp : run v p s with
  | mk result t =>
    cases result with
    | ok a => exact ⟨a, t, rfl⟩
    | error e =>
      rw [hp] at hrun
      cases hrun

theorem Safe.bind_right {a : α} (h : Safe v (p >>= f) s) (hp : run v p s = (.ok a, s')) :
    Safe v (f a) s' :=
  h.imp_left fun ⟨b, t, hrun⟩ => ⟨b, t, (run_bind_of_ok hp).symm.trans hrun⟩

/-- A safe script that fails before its write, or in it, leaves the state. -/
theorem Safe.state_of_error (hv : Preserves v lookup) (hlast : p.WriteLast lookup) {e : ε}
    (h : Safe v p s) (hrun : run v p s = (.error e, s')) : s' = s := by
  induction p generalizing s with
  | done result => exact (Prod.mk.inj hrun).2.symm
  | call request next ih =>
    rw [run] at hrun
    rw [WriteLast] at hlast
    cases hreply : v request s with
    | mk reply t =>
      rw [hreply] at hrun
      cases reply with
      | error e' =>
        obtain ⟨-, rfl⟩ := Prod.mk.inj hrun
        rcases h with ⟨a, t', hok⟩ | hclean
        · rw [run, hreply] at hok
          cases hok
        · exact hclean request s e' t hreply
      | ok x =>
        by_cases hlookup : lookup request = true
        · rw [if_pos hlookup] at hlast
          have hs := hv request s hlookup
          obtain rfl : t = s := by rw [← hs, hreply]
          refine ih x (hlast x) ?_ hrun
          refine h.imp_left fun ⟨a, t', hok⟩ => ⟨a, t', ?_⟩
          rwa [run, hreply] at hok
        · rw [if_neg hlookup] at hlast
          obtain ⟨a, ha⟩ := hlast x
          simp only [ha, run] at hrun
          cases hrun

theorem run_lift_bind_eq_ok {result : Except ε α} {b : β} :
    run v (lift result >>= f) s = (.ok b, s') ↔
      ∃ a, result = .ok a ∧ run v (f a) s = (.ok b, s') := by
  cases result with
  | ok a =>
    constructor
    · exact fun h => ⟨a, rfl, h⟩
    · rintro ⟨a', ha, h⟩
      obtain rfl := Except.ok.inj ha
      exact h
  | error e =>
    constructor
    · intro h
      cases h
    · rintro ⟨a', ha, -⟩
      cases ha

/-! ### Looking up what would be created -/

/-- The resource that the lookup finds, or else the created one. -/
def ensure (find : Script ι ρ ε (Option α)) (create : Script ι ρ ε α) : Script ι ρ ε α := do
  match ← find with
  | some a => pure a
  | none => create

theorem run_ensure_of_none {find : Script ι ρ ε (Option α)} {create : Script ι ρ ε α}
    (hfound : run v find s = (.ok none, s)) : run v (ensure find create) s = run v create s :=
  run_bind_of_ok hfound

theorem run_ensure_of_some {find : Script ι ρ ε (Option α)} {create : Script ι ρ ε α} {a : α}
    (hfound : run v find s = (.ok (some a), s)) : run v (ensure find create) s = (.ok a, s) :=
  run_bind_of_ok hfound

theorem oneWrite_ensure {find : Script ι ρ ε (Option α)} {create : Script ι ρ ε α}
    (hfind : find.ReadOnly lookup) (hcreate : create.OneWrite lookup) :
    (ensure find create).OneWrite lookup := by
  refine hfind.bind_oneWrite fun found => ?_
  cases found with
  | some a => trivial
  | none => exact hcreate

/-- When the lookup finds what was created, starting again creates nothing. -/
theorem again_ensure {find : Script ι ρ ε (Option α)} {create : Script ι ρ ε α}
    (hv : Preserves v lookup) (hfind : find.ReadOnly lookup) (hf : ∀ a, (f a).ReadOnly lookup)
    (hseen : ∀ a s', run v find s = (.ok none, s) → run v create s = (.ok a, s') →
      ∃ a', run v find s' = (.ok (some a'), s') ∧ run v (f a') s' = run v (f a) s')
    (hfails : ∀ e s', run v find s = (.ok none, s) → run v create s = (.error e, s') →
      run v (ensure find create >>= f) s' = (.error e, s')) :
    Again v (ensure find create >>= f) s := by
  have hstate := hfind.run_state hv (s := s)
  cases hfound : run v find s with
  | mk result t =>
    obtain rfl : t = s := by rw [← hstate, hfound]
    cases result with
    | error e =>
      have hensure : run v (ensure find create) t = (.error e, t) := run_bind_of_error hfound
      refine again_of_state_eq ?_
      rw [run_bind_of_error hensure]
    | ok found =>
      cases found with
      | some a =>
        have hensure : run v (ensure find create) t = (.ok a, t) := run_ensure_of_some hfound
        refine again_of_state_eq ?_
        rw [run_bind_of_ok hensure]
        exact (hf a).run_state hv
      | none =>
        -- what was created is found the second time
        have hensure : run v (ensure find create) t = run v create t := run_ensure_of_none hfound
        cases hcreated : run v create t with
        | mk result s' =>
          rw [hcreated] at hensure
          cases result with
          | error e => rw [Again, run_bind_of_error hensure, hfails e s' hfound hcreated]
          | ok a =>
            obtain ⟨a', hfound', hfinish⟩ := hseen a s' hfound hcreated
            have hagain : run v (ensure find create) s' = (.ok a', s') := run_ensure_of_some hfound'
            have hlast : (run v (f a) s').2 = s' := (hf a).run_state hv
            rw [Again, run_bind_of_ok hensure, hlast, run_bind_of_ok hagain, hfinish]

/-- The case of a safe script whose only write is the last request of the creation. -/
theorem again_ensure_of_writeLast {find : Script ι ρ ε (Option α)} {create : Script ι ρ ε α}
    (hv : Preserves v lookup) (hfind : find.ReadOnly lookup) (hf : ∀ a, (f a).ReadOnly lookup)
    (hcreate : create.WriteLast lookup) (hsafe : Safe v (ensure find create >>= f) s)
    (hseen : ∀ a s', run v find s = (.ok none, s) → run v create s = (.ok a, s') →
      ∃ a', run v find s' = (.ok (some a'), s') ∧ run v (f a') s' = run v (f a) s') :
    Again v (ensure find create >>= f) s := by
  refine again_ensure hv hfind hf hseen fun e s' hfound hcreated => ?_
  have hsafeCreate : Safe v create s := hsafe.bind_left.bind_right hfound
  obtain rfl := hsafeCreate.state_of_error hv hcreate hcreated
  have hensure : run v (ensure find create) s' = (.error e, s') :=
    (run_ensure_of_none hfound).trans hcreated
  exact run_bind_of_error hensure

end Script

end Library.Redelivery
