import Mathlib.Algebra.BigOperators.Group.List.Basic
import Mathlib.Algebra.Order.BigOperators.Group.List
import Mathlib.Data.List.Sort
import Mathlib.Tactic.Linarith

/-!
# Consecutive intervals

`Chain start finish a b xs` says that the intervals of a list lie one after another between `a` and
`b`; `total` is the sum of their lengths.

* `Chain.total_le`: consecutive intervals are together no longer than the window.
* `Chain.flatten`: chains that lie one after another.
* `total_steps`: the steps between the elements of a sorted list add up to its whole extent.
-/

namespace Library.Intervals

variable {α : Type} {start finish : α → ℤ} {a b : ℤ} {x : α} {xs ys : List α}

/-- The intervals lie one after another inside a window. -/
structure Chain (start finish : α → ℤ) (a b : ℤ) (xs : List α) : Prop where
  within : ∀ x ∈ xs, a ≤ start x ∧ start x ≤ finish x ∧ finish x ≤ b
  ordered : xs.Pairwise fun x y => finish x ≤ start y

/-- The sum of the lengths. -/
def total (start finish : α → ℤ) (xs : List α) : ℤ :=
  (xs.map fun x => finish x - start x).sum

@[simp] theorem total_nil : total start finish [] = 0 := rfl

@[simp] theorem total_cons :
    total start finish (x :: xs) = finish x - start x + total start finish xs := by
  rw [total, List.map_cons, List.sum_cons, total]

theorem total_append : total start finish (xs ++ ys) =
    total start finish xs + total start finish ys := by
  rw [total, List.map_append, List.sum_append, total, total]

theorem total_flatten (lists : List (List α)) :
    total start finish lists.flatten = (lists.map (total start finish)).sum := by
  induction lists with
  | nil => rfl
  | cons xs lists ih => rw [List.flatten_cons, total_append, ih, List.map_cons, List.sum_cons]

theorem Chain.nil : Chain start finish a b [] := ⟨by simp, .nil⟩

theorem Chain.head (h : Chain start finish a b (x :: xs)) :
    a ≤ start x ∧ start x ≤ finish x ∧ finish x ≤ b :=
  h.within x List.mem_cons_self

/-- The rest lies after the first interval. -/
theorem Chain.tail (h : Chain start finish a b (x :: xs)) : Chain start finish (finish x) b xs where
  within y hy :=
    ⟨List.rel_of_pairwise_cons h.ordered hy, (h.within y (List.mem_cons_of_mem x hy)).2⟩
  ordered := h.ordered.of_cons

theorem Chain.total_nonneg (h : Chain start finish a b xs) : 0 ≤ total start finish xs := by
  induction xs generalizing a with
  | nil => exact le_rfl
  | cons x xs ih =>
    have hrest := ih h.tail
    have hhead := h.head
    rw [total_cons]
    omega

/-- Consecutive intervals are together no longer than the window. -/
theorem Chain.total_le (h : Chain start finish a b xs) (hab : a ≤ b) :
    total start finish xs ≤ b - a := by
  induction xs generalizing a with
  | nil =>
    rw [total_nil]
    omega
  | cons x xs ih =>
    have hhead := h.head
    have hrest := ih h.tail hhead.2.2
    rw [total_cons]
    omega

/-- Nothing fits into an empty window. -/
theorem Chain.total_eq_zero (h : Chain start finish b b xs) : total start finish xs = 0 := by
  have hle := h.total_le le_rfl
  have hnonneg := h.total_nonneg
  omega

/-- A wider window. -/
theorem Chain.mono {c d : ℤ} (h : Chain start finish a b xs) (hca : c ≤ a) (hbd : b ≤ d) :
    Chain start finish c d xs where
  within x hx :=
    have hx := h.within x hx
    ⟨hca.trans hx.1, hx.2.1, hx.2.2.trans hbd⟩
  ordered := h.ordered

/-- Chains of one window, each before the next, are one chain. -/
theorem Chain.flatten {lists : List (List α)} (h : ∀ xs ∈ lists, Chain start finish a b xs)
    (hordered : lists.Pairwise fun xs ys => ∀ x ∈ xs, ∀ y ∈ ys, finish x ≤ start y) :
    Chain start finish a b lists.flatten where
  within x hx := by
    obtain ⟨xs, hxs, hx⟩ := List.mem_flatten.mp hx
    exact (h xs hxs).within x hx
  ordered := List.pairwise_flatten.mpr ⟨fun xs hxs => (h xs hxs).ordered, hordered⟩

/-! ### Steps of a sorted list -/

/-- The steps between consecutive elements. -/
def steps (instants : List ℤ) : List (ℤ × ℤ) :=
  instants.zip instants.tail

theorem chain_steps {instants : List ℤ} (hsorted : instants.Pairwise (· ≤ ·))
    (hwithin : ∀ instant ∈ instants, a ≤ instant ∧ instant ≤ b) :
    Chain Prod.fst Prod.snd a b (steps instants) := by
  induction instants with
  | nil => exact .nil
  | cons first rest ih =>
    cases rest with
    | nil => exact .nil
    | cons second rest =>
      have hrest := ih hsorted.of_cons fun instant hinstant =>
        hwithin instant (List.mem_cons_of_mem _ hinstant)
      have hle : first ≤ second := List.rel_of_pairwise_cons hsorted List.mem_cons_self
      constructor
      · intro pair hpair
        rcases List.mem_cons.mp hpair with rfl | hpair
        · exact ⟨(hwithin first List.mem_cons_self).1, hle,
            (hwithin second (List.mem_cons_of_mem _ List.mem_cons_self)).2⟩
        · exact hrest.within pair hpair
      · refine List.pairwise_cons.mpr ⟨fun pair hpair => ?_, hrest.ordered⟩
        -- every later step begins at an element from the second on
        have hmem := (List.of_mem_zip hpair).1
        rcases List.mem_cons.mp hmem with heq | hmem
        · exact heq.ge
        · exact List.rel_of_pairwise_cons hsorted.of_cons hmem

theorem steps_cons_cons (first second : ℤ) (rest : List ℤ) :
    steps (first :: second :: rest) = (first, second) :: steps (second :: rest) := rfl

/-- The steps of a strictly sorted list are not empty. -/
theorem lt_of_mem_steps {instants : List ℤ} (hsorted : instants.Pairwise (· < ·)) {pair : ℤ × ℤ}
    (h : pair ∈ steps instants) : pair.1 < pair.2 := by
  induction instants with
  | nil => cases h
  | cons first rest ih =>
    cases rest with
    | nil => cases h
    | cons second rest =>
      rw [steps_cons_cons, List.mem_cons] at h
      rcases h with rfl | h
      · exact List.rel_of_pairwise_cons hsorted List.mem_cons_self
      · exact ih hsorted.of_cons h

/-- No element of a sorted list lies inside a step. -/
theorem le_or_le_of_mem_steps {instants : List ℤ} (hsorted : instants.Pairwise (· ≤ ·))
    {pair : ℤ × ℤ} (h : pair ∈ steps instants) {instant : ℤ} (hinstant : instant ∈ instants) :
    instant ≤ pair.1 ∨ pair.2 ≤ instant := by
  induction instants with
  | nil => cases h
  | cons first rest ih =>
    cases rest with
    | nil => cases h
    | cons second rest =>
      rw [steps_cons_cons, List.mem_cons] at h
      rcases h with rfl | h
      · -- an element after the first is at least the second
        rcases List.mem_cons.mp hinstant with rfl | hinstant
        · exact .inl le_rfl
        · rcases List.mem_cons.mp hinstant with rfl | hinstant
          · exact .inr le_rfl
          · exact .inr (List.rel_of_pairwise_cons hsorted.of_cons hinstant)
      · rcases List.mem_cons.mp hinstant with rfl | hinstant
        · exact .inl (List.rel_of_pairwise_cons hsorted (List.of_mem_zip h).1)
        · exact ih hsorted.of_cons h hinstant

/-- The steps of a sorted list cover what lies between two of its elements. -/
theorem exists_mem_steps {instants : List ℤ} (hsorted : instants.Pairwise (· ≤ ·))
    (ha : a ∈ instants) (hb : b ∈ instants) {instant : ℤ} (hstart : a ≤ instant)
    (hfinish : instant < b) : ∃ pair ∈ steps instants, pair.1 ≤ instant ∧ instant < pair.2 := by
  induction instants generalizing a with
  | nil => cases ha
  | cons first rest ih =>
    have hfirst : first ≤ a := by
      rcases List.mem_cons.mp ha with rfl | ha
      · exact le_rfl
      · exact List.rel_of_pairwise_cons hsorted ha
    have hrest : b ∈ rest := by
      rcases List.mem_cons.mp hb with rfl | hb
      · omega
      · exact hb
    cases rest with
    | nil => cases hrest
    | cons second rest =>
      rw [steps_cons_cons]
      by_cases hsecond : instant < second
      · exact ⟨_, List.mem_cons_self, hfirst.trans hstart, hsecond⟩
      · obtain ⟨pair, hpair, hcovers⟩ := ih hsorted.of_cons List.mem_cons_self hrest (by omega)
        exact ⟨pair, List.mem_cons_of_mem _ hpair, hcovers⟩

/-- The steps of a sorted list add up to its extent. -/
theorem total_steps {instants : List ℤ} (hsorted : instants.Pairwise (· ≤ ·))
    (hwithin : ∀ instant ∈ instants, a ≤ instant ∧ instant ≤ b) (ha : a ∈ instants)
    (hb : b ∈ instants) : total Prod.fst Prod.snd (steps instants) = b - a := by
  induction instants generalizing a with
  | nil => cases ha
  | cons first rest ih =>
    have hfirst : first = a := by
      rcases List.mem_cons.mp ha with heq | hmem
      · exact heq.symm
      · exact le_antisymm (List.rel_of_pairwise_cons hsorted hmem)
          (hwithin first List.mem_cons_self).1
    subst hfirst
    cases rest with
    | nil =>
      rw [List.mem_singleton.mp hb]
      simp [steps]
    | cons second rest =>
      have hlast : b ∈ second :: rest := by
        rcases List.mem_cons.mp hb with heq | hmem
        · have hle := List.rel_of_pairwise_cons hsorted List.mem_cons_self
          have hge := (hwithin second (List.mem_cons_of_mem _ List.mem_cons_self)).2
          have : second = b := by omega
          exact this ▸ List.mem_cons_self
        · exact hmem
      have hrest := ih hsorted.of_cons (a := second) (fun instant hinstant => ?_)
        List.mem_cons_self hlast
      · rw [steps_cons_cons, total_cons, hrest]
        omega
      · refine ⟨?_, (hwithin instant (List.mem_cons_of_mem _ hinstant)).2⟩
        rcases List.mem_cons.mp hinstant with rfl | hmem
        · exact le_rfl
        · exact List.rel_of_pairwise_cons hsorted.of_cons hmem

end Library.Intervals
