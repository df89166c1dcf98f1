import Mathlib.Data.List.Forall2
import Mathlib.Data.List.Basic

/-!
# Inverting fallible computations

Rules that read a successful run of `Except` code backwards: what each step returned, for a bind, a
check, and the list traversals `forM`, `mapM` and `foldlM`.  `Avoids` says which errors a
computation does not fail with.
-/

namespace Library.Outcome

variable {ε α β σ : Type}

/-- Continue when the condition holds, and fail with `error` otherwise. -/
def check (condition : Prop) [Decidable condition] (error : ε) : Except ε Unit :=
  if condition then .ok () else .error error

@[simp] theorem check_eq_ok {c : Prop} [Decidable c] {e : ε} {u : Unit} :
    check c e = .ok u ↔ c := by
  unfold check
  split_ifs with h
  · exact ⟨fun _ => h, fun _ => rfl⟩
  · exact ⟨nofun, fun hc => absurd hc h⟩

theorem check_of {c : Prop} [Decidable c] {e : ε} (h : c) : check c e = .ok () :=
  if_pos h

theorem check_eq_error {c : Prop} [Decidable c] {e e' : ε} (h : check c e = .error e') :
    ¬c ∧ e = e' := by
  unfold check at h
  split_ifs at h with hc
  exact ⟨hc, Except.error.inj h⟩

@[simp] theorem bind_eq_ok {x : Except ε α} {f : α → Except ε β} {b : β} :
    (x >>= f) = .ok b ↔ ∃ a, x = .ok a ∧ f a = .ok b := by
  cases x with
  | error e => exact ⟨nofun, nofun⟩
  | ok a =>
    constructor
    · exact fun h => ⟨a, rfl, h⟩
    · rintro ⟨a', ha, h⟩
      obtain rfl := Except.ok.inj ha
      exact h

@[simp high] theorem bind_unit_eq_ok {x : Except ε Unit} {f : Unit → Except ε β} {b : β} :
    (x >>= f) = .ok b ↔ x = .ok () ∧ f () = .ok b := by
  cases x with
  | error e => exact ⟨nofun, nofun⟩
  | ok a =>
    constructor
    · exact fun h => ⟨rfl, h⟩
    · rintro ⟨-, h⟩
      exact h

@[simp] theorem exists_unit {P : Unit → Prop} : (∃ u, P u) ↔ P () :=
  ⟨fun ⟨_, h⟩ => h, fun h => ⟨(), h⟩⟩

@[simp] theorem pure_eq_ok {a b : α} : (pure a : Except ε α) = .ok b ↔ a = b := by
  constructor
  · exact Except.ok.inj
  · rintro rfl
    rfl

@[simp] theorem ok_bind {a : α} {f : α → Except ε β} : ((.ok a : Except ε α) >>= f) = f a := rfl

@[simp] theorem map_eq_ok {x : Except ε α} {f : α → β} {b : β} :
    f <$> x = .ok b ↔ ∃ a, x = .ok a ∧ f a = b := by
  cases x with
  | error e => exact ⟨nofun, nofun⟩
  | ok a =>
    constructor
    · exact fun h => ⟨a, rfl, Except.ok.inj h⟩
    · rintro ⟨a', ha, rfl⟩
      obtain rfl := Except.ok.inj ha
      rfl

@[simp high] theorem map_unit_eq_ok {x : Except ε Unit} {f : Unit → β} {b : β} :
    f <$> x = .ok b ↔ x = .ok () ∧ f () = b := by
  cases x with
  | error e => exact ⟨nofun, nofun⟩
  | ok a =>
    constructor
    · exact fun h => ⟨rfl, Except.ok.inj h⟩
    · rintro ⟨-, rfl⟩
      rfl

/-! ### Related lists -/

theorem forall₂_comp {γ : Type} {R : α → β → Prop} {S : β → γ → Prop} {T : α → γ → Prop}
    {xs : List α} {ys : List β} {zs : List γ} (h : List.Forall₂ R xs ys)
    (h' : List.Forall₂ S ys zs) (comp : ∀ x y z, R x y → S y z → T x z) : List.Forall₂ T xs zs := by
  induction h generalizing zs with
  | nil =>
    rw [List.forall₂_nil_left_iff.mp h']
    exact .nil
  | cons hxy _ ih =>
    cases h' with
    | cons hyz hrest => exact .cons (comp _ _ _ hxy hyz) (ih hrest)

/-- Every element on the right is related to one on the left. -/
theorem forall₂_exists_left {R : α → β → Prop} {xs : List α} {ys : List β}
    (h : List.Forall₂ R xs ys) {y : β} (hy : y ∈ ys) : ∃ x ∈ xs, R x y := by
  induction h with
  | nil => cases hy
  | cons hxy _ ih =>
    rcases List.mem_cons.mp hy with rfl | hy
    · exact ⟨_, List.mem_cons_self, hxy⟩
    · obtain ⟨x, hx, hr⟩ := ih hy
      exact ⟨x, List.mem_cons_of_mem _ hx, hr⟩

/-- Every element on the left is related to one on the right. -/
theorem forall₂_exists_right {R : α → β → Prop} {xs : List α} {ys : List β}
    (h : List.Forall₂ R xs ys) {x : α} (hx : x ∈ xs) : ∃ y ∈ ys, R x y := by
  induction h with
  | nil => cases hx
  | cons hxy _ ih =>
    rcases List.mem_cons.mp hx with rfl | hx
    · exact ⟨_, List.mem_cons_self, hxy⟩
    · obtain ⟨y, hy, hr⟩ := ih hx
      exact ⟨y, List.mem_cons_of_mem _ hy, hr⟩

/-- The elements at one index are related. -/
theorem forall₂_getElem? {R : α → β → Prop} {xs : List α} {ys : List β}
    (h : List.Forall₂ R xs ys) {i : ℕ} {x : α} (hx : xs[i]? = some x) :
    ∃ y, ys[i]? = some y ∧ R x y := by
  induction h generalizing i with
  | nil => cases hx
  | cons hxy _ ih =>
    cases i with
    | zero =>
      cases hx
      exact ⟨_, rfl, hxy⟩
    | succ i => exact ih hx

/-! ### Traversals -/

@[simp] theorem forM_eq_ok {f : α → Except ε Unit} {xs : List α} {u : Unit} :
    forM xs f = .ok u ↔ ∀ x ∈ xs, f x = .ok () := by
  induction xs with
  | nil => simp [List.forM_nil, pure_eq_ok]
  | cons x xs ih =>
    rw [List.forM_cons, bind_unit_eq_ok, List.forall_mem_cons, ih]

theorem mapM_eq_ok {f : α → Except ε β} {xs : List α} {ys : List β} :
    xs.mapM f = .ok ys ↔ List.Forall₂ (fun x y => f x = .ok y) xs ys := by
  induction xs generalizing ys with
  | nil => rw [List.mapM_nil, pure_eq_ok, List.forall₂_nil_left_iff, eq_comm]
  | cons x xs ih =>
    rw [List.mapM_cons, List.forall₂_cons_left_iff]
    simp only [bind_eq_ok, pure_eq_ok, ih]
    constructor
    · rintro ⟨y, hy, ys', hys, rfl⟩
      exact ⟨y, ys', hy, hys, rfl⟩
    · rintro ⟨y, ys', hy, hys, rfl⟩
      exact ⟨y, hy, ys', hys, rfl⟩

/-- What is known of every result of a traversal is known of the results as a map. -/
theorem map_eq_map_of_mapM {γ : Type} {f : α → Except ε β} {k : β → γ} {g : α → γ} {xs : List α}
    {ys : List β} (h : xs.mapM f = .ok ys) (hf : ∀ x y, f x = .ok y → k y = g x) :
    ys.map k = xs.map g := by
  rw [mapM_eq_ok] at h
  induction h with
  | nil => rfl
  | cons hxy _ ih => rw [List.map_cons, List.map_cons, hf _ _ hxy, ih]

/-- A traversal whose results are known is a map. -/
theorem mapM_eq_map {f : α → Except ε β} {g : α → β} {xs : List α} {ys : List β}
    (h : xs.mapM f = .ok ys) (hf : ∀ x y, f x = .ok y → y = g x) : ys = xs.map g := by
  rw [← map_eq_map_of_mapM h hf, List.map_id']

/-- The results of a traversal are the values of a function at its elements. -/
theorem exists_eq_map_of_mapM [Inhabited β] {f : α → Except ε β} {xs : List α} {ys : List β}
    (h : xs.mapM f = .ok ys) : ∃ g : α → β, ys = xs.map g ∧ ∀ x ∈ xs, f x = .ok (g x) := by
  have hg : ∀ x y, f x = .ok y → y = (f x).toOption.getD default := by
    intro x y hxy
    rw [hxy]
    rfl
  refine ⟨fun x => (f x).toOption.getD default, mapM_eq_map h hg, fun x hx => ?_⟩
  obtain ⟨y, -, hxy⟩ := forall₂_exists_right (mapM_eq_ok.mp h) hx
  exact hxy.trans (congrArg Except.ok (hg x y hxy))

/-- Every result of a traversal is the result at an element. -/
theorem exists_of_mem_mapM {f : α → Except ε β} {xs : List α} {ys : List β}
    (h : xs.mapM f = .ok ys) {y : β} (hy : y ∈ ys) : ∃ x ∈ xs, f x = .ok y :=
  forall₂_exists_left (mapM_eq_ok.mp h) hy

/-- Every element of a traversal has its result among the results. -/
theorem exists_of_mem_of_mapM {f : α → Except ε β} {xs : List α} {ys : List β}
    (h : xs.mapM f = .ok ys) {x : α} (hx : x ∈ xs) : ∃ y ∈ ys, f x = .ok y :=
  forall₂_exists_right (mapM_eq_ok.mp h) hx

/-- A map over a list succeeds when it does for every element. -/
theorem exists_mapM_eq_ok {f : α → Except ε β} {xs : List α} (h : ∀ x ∈ xs, ∃ y, f x = .ok y) :
    ∃ ys, xs.mapM f = .ok ys := by
  induction xs with
  | nil => exact ⟨[], rfl⟩
  | cons x xs ih =>
    obtain ⟨y, hy⟩ := h x List.mem_cons_self
    obtain ⟨ys, hys⟩ := ih fun x' hx' => h x' (List.mem_cons_of_mem x hx')
    exact ⟨y :: ys, mapM_eq_ok.mpr (.cons hy (mapM_eq_ok.mp hys))⟩

/-- A relation between the elements of a list gives one between the elements of a related list. -/
theorem pairwise_of_forall₂ {Q : α → β → Prop} {R : α → α → Prop} {S : β → β → Prop} {xs : List α}
    {ys : List β} (h : List.Forall₂ Q xs ys) (hxs : xs.Pairwise R)
    (hrel : ∀ x x' y y', R x x' → Q x y → Q x' y' → S y y') : ys.Pairwise S := by
  induction h with
  | nil => exact .nil
  | @cons x y xs ys hxy hrest ih =>
    refine .cons (fun y' hy' => ?_) (ih hxs.of_cons)
    obtain ⟨x', hx', hxy'⟩ := forall₂_exists_left hrest hy'
    exact hrel x x' y y' (List.rel_of_pairwise_cons hxs hx') hxy hxy'

/-- A relation between the elements of a traversal gives one between their results. -/
theorem pairwise_of_mapM {f : α → Except ε β} {R : α → α → Prop} {S : β → β → Prop} {xs : List α}
    {ys : List β} (h : xs.mapM f = .ok ys) (hxs : xs.Pairwise R)
    (hresult : ∀ x x' y y', R x x' → f x = .ok y → f x' = .ok y' → S y y') : ys.Pairwise S :=
  pairwise_of_forall₂ (mapM_eq_ok.mp h) hxs hresult

/-- A traversal that meets only one error fails with it. -/
theorem mapM_eq_error {f : α → Except ε β} {error : ε} {xs : List α} {x : α}
    (hall : ∀ x ∈ xs, (∃ y, f x = .ok y) ∨ f x = .error error) (hx : x ∈ xs)
    (hfails : f x = .error error) : xs.mapM f = .error error := by
  induction xs with
  | nil => cases hx
  | cons first xs ih =>
    rw [List.mapM_cons]
    rcases hall first List.mem_cons_self with ⟨y, hy⟩ | hfirst
    · have hne : x ≠ first := by
        rintro rfl
        rw [hy] at hfails
        cases hfails
      have hrest : x ∈ xs := (List.mem_cons.mp hx).resolve_left hne
      rw [hy, ok_bind, ih (fun x hx => hall x (List.mem_cons_of_mem _ hx)) hrest]
      rfl
    · rw [hfirst]
      rfl

/-- The elements that pass a fallible test, tested in order: `[x for x in xs if test(x)]`. -/
def select (test : α → Except ε Bool) : List α → Except ε (List α)
  | [] => .ok []
  | x :: xs => do
    let keep ← test x
    let rest ← select test xs
    return if keep then x :: rest else rest

/-- A test that fails nowhere selects as a filter does. -/
theorem select_eq_filter {test : α → Except ε Bool} {keep : α → Bool} {xs : List α}
    (h : ∀ x ∈ xs, test x = .ok (keep x)) : select test xs = .ok (xs.filter keep) := by
  induction xs with
  | nil => rfl
  | cons x xs ih =>
    rw [List.forall_mem_cons] at h
    rw [select, h.1, ih h.2, List.filter_cons]
    rfl

theorem exists_of_select {test : α → Except ε Bool} {xs ys : List α}
    (h : select test xs = .ok ys) : ∀ x ∈ xs, ∃ keep, test x = .ok keep := by
  induction xs generalizing ys with
  | nil => exact fun x hx => absurd hx List.not_mem_nil
  | cons x xs ih =>
    simp only [select, bind_eq_ok] at h
    obtain ⟨keep, hkeep, rest, hrest, -⟩ := h
    exact List.forall_mem_cons.mpr ⟨⟨keep, hkeep⟩, ih hrest⟩

/-- The loop rule: what holds of the accumulator first, and is kept by each step, holds last. -/
theorem foldlM_induction {f : σ → α → Except ε σ} {motive : σ → Prop} {xs : List α} {s s' : σ}
    (h : xs.foldlM f s = .ok s') (init : motive s)
    (step : ∀ s x s', x ∈ xs → motive s → f s x = .ok s' → motive s') : motive s' := by
  induction xs generalizing s with
  | nil =>
    simp only [List.foldlM_nil, pure_eq_ok] at h
    exact h ▸ init
  | cons x xs ih =>
    simp only [List.foldlM_cons, bind_eq_ok] at h
    obtain ⟨s₁, h₁, h₂⟩ := h
    refine ih h₂ (step s x s₁ List.mem_cons_self init h₁) fun s x s' hx => ?_
    exact step s x s' (List.mem_cons_of_mem _ hx)

/-- The rule for a loop that appends one result for each element. -/
theorem foldlM_append_forall₂ {f : σ → α → Except ε σ} (out : σ → List β) {R : α → β → Prop}
    {xs : List α} {s s' : σ} (h : xs.foldlM f s = .ok s')
    (step : ∀ s x s', x ∈ xs → f s x = .ok s' → ∃ y, out s' = out s ++ [y] ∧ R x y) :
    ∃ ys, out s' = out s ++ ys ∧ List.Forall₂ R xs ys := by
  induction xs generalizing s with
  | nil =>
    rw [List.foldlM_nil, pure_eq_ok] at h
    exact ⟨[], by simp [h], .nil⟩
  | cons x xs ih =>
    simp only [List.foldlM_cons, bind_eq_ok] at h
    obtain ⟨s₁, h₁, h₂⟩ := h
    obtain ⟨y, hy, hxy⟩ := step s x s₁ List.mem_cons_self h₁
    obtain ⟨ys, hys, hall⟩ := ih h₂ fun s x s' hx => step s x s' (List.mem_cons_of_mem _ hx)
    exact ⟨y :: ys, by rw [hys, hy, List.append_assoc, List.singleton_append], .cons hxy hall⟩

/-- A loop over a concatenation runs the first part and then the second. -/
theorem foldlM_append_eq_ok {f : σ → α → Except ε σ} {xs ys : List α} {s s' : σ} :
    (xs ++ ys).foldlM f s = .ok s' ↔ ∃ t, xs.foldlM f s = .ok t ∧ ys.foldlM f t = .ok s' := by
  rw [List.foldlM_append, bind_eq_ok]

/-- The loop rule in which each step knows the elements before it. -/
theorem foldlM_prefix_induction {f : σ → α → Except ε σ} {motive : σ → Prop} {xs : List α}
    {s s' : σ} (h : xs.foldlM f s = .ok s') (init : motive s)
    (step : ∀ before x after t t', xs = before ++ x :: after → before.foldlM f s = .ok t →
      motive t → f t x = .ok t' → motive t') : motive s' := by
  suffices hsuffix : ∀ (after before : List α) (t : σ), xs = before ++ after →
      before.foldlM f s = .ok t → motive t → after.foldlM f t = .ok s' → motive s' by
    exact hsuffix xs [] s rfl rfl init h
  intro after
  induction after with
  | nil =>
    intro before t _ _ ht hlast
    rw [List.foldlM_nil, pure_eq_ok] at hlast
    exact hlast ▸ ht
  | cons x after ih =>
    intro before t hxs hbefore ht hlast
    simp only [List.foldlM_cons, bind_eq_ok] at hlast
    obtain ⟨t', hstep, hlast⟩ := hlast
    refine ih (before ++ [x]) t' (by rw [hxs, List.append_assoc, List.singleton_append]) ?_
      (step before x after t t' hxs hbefore ht hstep) hlast
    exact foldlM_append_eq_ok.mpr ⟨t, hbefore, by simp [hstep]⟩

/-! ### Errors that a computation avoids -/

/-- The computation does not fail with this error. -/
def Avoids (error : ε) (x : Except ε α) : Prop :=
  x ≠ .error error

section avoids

variable {error : ε}

@[simp] theorem avoids_ok (a : α) : Avoids error (.ok a : Except ε α) := nofun

@[simp] theorem avoids_pure (a : α) : Avoids error (pure a : Except ε α) := nofun

@[simp] theorem avoids_error {error' : ε} :
    Avoids error (.error error' : Except ε α) ↔ error' ≠ error := by
  simp [Avoids]

/-- A bind avoids an error that both of its parts avoid. -/
theorem Avoids.bind {x : Except ε α} {f : α → Except ε β} (hx : Avoids error x)
    (hf : ∀ a, x = .ok a → Avoids error (f a)) : Avoids error (x >>= f) := by
  cases x with
  | error e =>
    intro heq
    exact hx (congrArg Except.error (Except.error.inj heq))
  | ok a => exact hf a rfl

theorem Avoids.ite {c : Prop} [Decidable c] {x y : Except ε α} (hx : Avoids error x)
    (hy : Avoids error y) : Avoids error (if c then x else y) := by
  split
  · exact hx
  · exact hy

theorem Avoids.mapM {f : α → Except ε β} {xs : List α} (h : ∀ x ∈ xs, Avoids error (f x)) :
    Avoids error (xs.mapM f) := by
  induction xs with
  | nil => exact avoids_pure _
  | cons x xs ih =>
    rw [List.mapM_cons]
    refine (h x List.mem_cons_self).bind fun y _ => ?_
    exact (ih fun x hx => h x (List.mem_cons_of_mem _ hx)).bind fun ys _ => avoids_pure _

theorem Avoids.foldlM {f : σ → α → Except ε σ} {xs : List α}
    (h : ∀ x ∈ xs, ∀ s, Avoids error (f s x)) (s : σ) : Avoids error (xs.foldlM f s) := by
  induction xs generalizing s with
  | nil => exact avoids_pure _
  | cons x xs ih =>
    rw [List.foldlM_cons]
    refine (h x List.mem_cons_self s).bind fun s' _ => ?_
    exact ih (fun x hx => h x (List.mem_cons_of_mem _ hx)) s'

end avoids

end Library.Outcome
