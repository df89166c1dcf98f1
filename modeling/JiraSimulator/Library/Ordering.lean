import Mathlib.Data.List.Sort

/-!
# Sorting by a tuple of integers

`sortOn key` is the stable sort of a list by a tuple of integers compared lexicographically, and
`maxBy better` the first of the best elements of a non-empty list.  `eq_of_take_perm` compares two
orders of one list by their first elements.
-/

namespace Library.Ordering

variable {α : Type*}

/-- The lexicographic order of two tuples of one length. -/
def lexLe : List ℤ → List ℤ → Bool
  | [], _ => true
  | _ :: _, [] => false
  | a :: as, b :: bs => a < b || (a = b && lexLe as bs)

/-- The stable sort by `key`. -/
def sortOn (key : α → List ℤ) (xs : List α) : List α :=
  xs.insertionSort (fun a b => lexLe (key a) (key b))

theorem lexLe_total (a b : List ℤ) : lexLe a b = true ∨ lexLe b a = true := by
  induction a generalizing b with
  | nil => exact .inl rfl
  | cons x a ih =>
    cases b with
    | nil => exact .inr rfl
    | cons y b =>
      simp only [lexLe, Bool.or_eq_true, Bool.and_eq_true, decide_eq_true_eq]
      rcases lt_trichotomy x y with h | h | h
      · exact .inl (.inl h)
      · rcases ih b with hab | hba
        · exact .inl (.inr ⟨h, hab⟩)
        · exact .inr (.inr ⟨h.symm, hba⟩)
      · exact .inr (.inl h)

theorem lexLe_trans {a b c : List ℤ} (hab : lexLe a b = true) (hbc : lexLe b c = true) :
    lexLe a c = true := by
  induction a generalizing b c with
  | nil => rfl
  | cons x a ih =>
    cases b with
    | nil => cases hab
    | cons y b =>
      cases c with
      | nil => cases hbc
      | cons z c =>
        simp only [lexLe, Bool.or_eq_true, Bool.and_eq_true, decide_eq_true_eq] at hab hbc ⊢
        rcases hab with hxy | ⟨hxy, hab⟩
        · rcases hbc with hyz | ⟨hyz, -⟩
          · exact .inl (hxy.trans hyz)
          · exact .inl (hyz ▸ hxy)
        · rcases hbc with hyz | ⟨hyz, hbc⟩
          · exact .inl (hxy ▸ hyz)
          · exact .inr ⟨hxy.trans hyz, ih hab hbc⟩

theorem sortOn_pairwise (key : α → List ℤ) (xs : List α) :
    (sortOn key xs).Pairwise fun a b => lexLe (key a) (key b) = true := by
  have : Std.Total fun a b : α => lexLe (key a) (key b) = true :=
    ⟨fun a b => lexLe_total (key a) (key b)⟩
  have : IsTrans α fun a b => lexLe (key a) (key b) = true := ⟨fun _ _ _ => lexLe_trans⟩
  exact List.pairwise_insertionSort _ xs

/-- A sorted list stays as it is. -/
theorem sortOn_of_pairwise {key : α → List ℤ} {xs : List α}
    (h : xs.Pairwise fun a b => lexLe (key a) (key b) = true) : sortOn key xs = xs :=
  h.insertionSort_eq

@[simp] theorem sortOn_sortOn (key : α → List ℤ) (xs : List α) :
    sortOn key (sortOn key xs) = sortOn key xs :=
  sortOn_of_pairwise (sortOn_pairwise key xs)

theorem sortOn_perm (key : α → List ℤ) (xs : List α) : (sortOn key xs).Perm xs :=
  List.perm_insertionSort _ xs

@[simp] theorem mem_sortOn {key : α → List ℤ} {xs : List α} {a : α} :
    a ∈ sortOn key xs ↔ a ∈ xs :=
  (sortOn_perm key xs).mem_iff

/-- Sorting commutes with a map that keeps the keys. -/
theorem sortOn_map {β : Type*} (f : α → β) (key : β → List ℤ) (xs : List α) :
    sortOn key (xs.map f) = (sortOn (fun a => key (f a)) xs).map f :=
  (List.map_insertionSort (r := fun a b => lexLe (key (f a)) (key (f b)))
    (s := fun a b => lexLe (key a) (key b)) f xs fun _ _ _ _ => Iff.rfl).symm

/-- Two lists agree when their first elements do, for every number of them. -/
theorem eq_of_take_perm {xs ys : List α} (hlength : xs.length = ys.length)
    (h : ∀ n, (xs.take n).Perm (ys.take n)) : xs = ys := by
  induction xs generalizing ys with
  | nil => exact (List.length_eq_zero_iff.mp hlength.symm).symm
  | cons x xs ih =>
    cases ys with
    | nil => cases hlength
    | cons y ys =>
      have hhead : x = y := by
        have hone : [x].Perm [y] := h 1
        exact List.singleton_perm_singleton.mp hone
      subst hhead
      rw [ih (Nat.succ.inj hlength) fun n => (h (n + 1)).cons_inv]

/-- The first element of `a :: xs` that no other is better than. -/
def maxBy (better : α → α → Bool) (a : α) (xs : List α) : α :=
  xs.foldl (fun best x => if better x best then x else best) a

theorem maxBy_mem (better : α → α → Bool) (a : α) (xs : List α) :
    maxBy better a xs ∈ a :: xs := by
  induction xs generalizing a with
  | nil => simp [maxBy]
  | cons x xs ih =>
    have hmax := ih (if better x a then x else a)
    rw [show maxBy better a (x :: xs) = maxBy better (if better x a then x else a) xs from rfl]
    rcases List.mem_cons.mp hmax with h | h
    · rw [h]
      split_ifs <;> simp
    · exact List.mem_cons_of_mem _ (List.mem_cons_of_mem _ h)

/-! ### The least of a list and a bound -/

theorem foldl_min_le {β : Type*} [LinearOrder β] (bound : β) (xs : List β) :
    xs.foldl min bound ≤ bound := by
  induction xs generalizing bound with
  | nil => exact le_rfl
  | cons x xs ih => exact (ih (min bound x)).trans (min_le_left bound x)

theorem le_foldl_min {β : Type*} [LinearOrder β] {a bound : β} {xs : List β} (hbound : a ≤ bound)
    (h : ∀ x ∈ xs, a ≤ x) : a ≤ xs.foldl min bound := by
  induction xs generalizing bound with
  | nil => exact hbound
  | cons x xs ih =>
    exact ih (le_min hbound (h x List.mem_cons_self)) fun y hy => h y (List.mem_cons_of_mem x hy)

end Library.Ordering
