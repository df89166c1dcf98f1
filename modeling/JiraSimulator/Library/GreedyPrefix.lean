import Mathlib.Algebra.BigOperators.Group.List.Basic
import Mathlib.Algebra.Ring.Nat
import Mathlib.Data.List.Infix

/-!
# Greedy prefixes

`takeGreedy` takes elements from the front of a list until the load has reached a least value and
the next element would bring it above a greatest one.

* `takeGreedy_prefix`, `takeGreedy_fits`: the result is a prefix that fits.
* `takeGreedy_maximal`: no longer prefix fits.
-/

namespace Library.GreedyPrefix

variable {α : Type} (load : α → ℕ) (least : ℕ) (greatest : ℤ)

/-- The elements taken on top of a load. -/
def takeGreedy : ℕ → List α → List α
  | _, [] => []
  | used, x :: xs =>
    if least ≤ used ∧ greatest < used + load x then []
    else x :: takeGreedy (used + load x) xs

/-- The whole load is at most the greatest one, or without the last element it is below the least
one. -/
def Fits (used : ℕ) (xs : List α) : Prop :=
  xs = [] ∨ used + (xs.dropLast.map load).sum < least ∨
    ((used + (xs.map load).sum : ℕ) : ℤ) ≤ greatest

variable {load least greatest} {used : ℕ} {x : α} {xs ys : List α}

theorem fits_singleton : Fits load least greatest used [x] ↔
    ¬ (least ≤ used ∧ greatest < used + load x) := by
  have hne : ([x] : List α) ≠ [] := List.cons_ne_nil x []
  simp only [Fits, hne, false_or, List.dropLast_singleton, List.map_nil, List.sum_nil,
    List.map_cons, List.sum_cons]
  push_cast
  omega

/-- After its first element a longer list fits as its rest fits on top of it. -/
theorem fits_cons (h : xs ≠ []) : Fits load least greatest used (x :: xs) ↔
    Fits load least greatest (used + load x) xs := by
  have hne : x :: xs ≠ [] := List.cons_ne_nil x xs
  simp only [Fits, hne, h, false_or, List.dropLast_cons_of_ne_nil h, List.map_cons, List.sum_cons]
  rw [← add_assoc, ← add_assoc]

theorem takeGreedy_prefix : takeGreedy load least greatest used xs <+: xs := by
  induction xs generalizing used with
  | nil => exact List.prefix_rfl
  | cons x xs ih =>
    unfold takeGreedy
    split_ifs
    · exact List.nil_prefix
    · exact (List.prefix_cons_inj x).mpr ih

theorem takeGreedy_fits : Fits load least greatest used
    (takeGreedy load least greatest used xs) := by
  induction xs generalizing used with
  | nil => exact .inl rfl
  | cons x xs ih =>
    unfold takeGreedy
    split_ifs with hstop
    · exact .inl rfl
    · by_cases hrest : takeGreedy load least greatest (used + load x) xs = []
      · rw [hrest]
        exact fits_singleton.mpr hstop
      · exact (fits_cons hrest).mpr ih

/-- An element that would pass the greatest load after the least one is reached belongs to no list
that fits. -/
theorem not_fits_of_stop (hstop : least ≤ used ∧ greatest < used + load x) :
    ¬ Fits load least greatest used (x :: xs) := by
  induction xs generalizing used x with
  | nil => exact fun h => fits_singleton.mp h hstop
  | cons y ys ih =>
    rw [fits_cons (List.cons_ne_nil y ys)]
    exact ih ⟨by omega, by push_cast; omega⟩

/-- Every prefix that fits is a prefix of the one taken. -/
theorem takeGreedy_maximal (hinitial : ys <+: xs) (h : Fits load least greatest used ys) :
    ys <+: takeGreedy load least greatest used xs := by
  induction xs generalizing used ys with
  | nil => exact List.prefix_nil.mp hinitial ▸ List.nil_prefix
  | cons x xs ih =>
    cases ys with
    | nil => exact List.nil_prefix
    | cons y ys =>
      obtain ⟨rfl, hrest⟩ := List.cons_prefix_cons.mp hinitial
      unfold takeGreedy
      split_ifs with hstop
      · exact absurd h (not_fits_of_stop hstop)
      · refine (List.prefix_cons_inj y).mpr ?_
        by_cases hnil : ys = []
        · exact hnil ▸ List.nil_prefix
        · exact ih hrest ((fits_cons hnil).mp h)

end Library.GreedyPrefix
