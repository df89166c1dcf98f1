import Mathlib.Algebra.BigOperators.Ring.Finset
import Mathlib.Data.Int.Interval
import Mathlib.Order.ConditionallyCompleteLattice.Basic
import Mathlib.Data.Int.ConditionallyCompleteOrder

/-!
# Time spent in a set of instants

`elapsedIn S start finish` is the number of instants of `S` from `start` on and before `finish`. It
is additive over intervals (`elapsedIn_add`), and when `S` is made of disjoint intervals it is the
sum of the lengths of their overlaps (`elapsedIn_eq_sum`).
-/

namespace Library

open Classical in
/-- The time of an interval that lies in a set of instants. -/
noncomputable def elapsedIn (S : Set ℤ) (start finish : ℤ) : ℤ :=
  ((Finset.Ico start finish).filter (· ∈ S)).card

variable {S : Set ℤ} {a b c : ℤ}

theorem elapsedIn_nonneg : 0 ≤ elapsedIn S a b :=
  Int.natCast_nonneg _

theorem elapsedIn_of_le (h : b ≤ a) : elapsedIn S a b = 0 := by
  unfold elapsedIn
  rw [Finset.Ico_eq_empty_of_le h, Finset.filter_empty, Finset.card_empty, Nat.cast_zero]

open Classical in
theorem elapsedIn_add (hab : a ≤ b) (hbc : b ≤ c) :
    elapsedIn S a c = elapsedIn S a b + elapsedIn S b c := by
  unfold elapsedIn
  rw [← Finset.Ico_union_Ico_eq_Ico hab hbc, Finset.filter_union, Finset.card_union_of_disjoint,
    Nat.cast_add]
  exact Finset.disjoint_filter_filter (Finset.Ico_disjoint_Ico_consecutive a b c)

/-- The time until `c` is the time until `b` and the time from then on, whether the interval starts
before `b` or after it. -/
theorem elapsedIn_extend (hbc : b ≤ c) :
    elapsedIn S a c = elapsedIn S a b + elapsedIn S (max a b) c := by
  rcases le_total a b with hab | hba
  · rw [max_eq_right hab, elapsedIn_add hab hbc]
  · rw [max_eq_left hba, elapsedIn_of_le hba, zero_add]

/-- More time passes until later. -/
theorem elapsedIn_mono (hbc : b ≤ c) : elapsedIn S a b ≤ elapsedIn S a c := by
  have hnonneg : 0 ≤ elapsedIn S (max a b) c := elapsedIn_nonneg
  have hextend := elapsedIn_extend (S := S) (a := a) hbc
  omega

open Classical in
theorem elapsedIn_le_length (hab : a ≤ b) : elapsedIn S a b ≤ b - a := by
  unfold elapsedIn
  have hle := Finset.card_filter_le (Finset.Ico a b) (· ∈ S)
  rw [Int.card_Ico] at hle
  have hcast : ((b - a).toNat : ℤ) = b - a := Int.toNat_of_nonneg (by omega)
  omega

open Classical in
/-- A longer interval contains more time of the set. -/
theorem elapsedIn_mono_interval {d : ℤ} (hab : a ≤ b) (hcd : c ≤ d) :
    elapsedIn S b c ≤ elapsedIn S a d := by
  unfold elapsedIn
  have hsubset := Finset.filter_subset_filter (· ∈ S) (Finset.Ico_subset_Ico hab hcd)
  exact_mod_cast Finset.card_le_card hsubset

open Classical in
/-- No time passes exactly when no instant of the interval lies in the set. -/
theorem elapsedIn_eq_zero_iff :
    elapsedIn S a b = 0 ↔ ∀ instant, a ≤ instant → instant < b → instant ∉ S := by
  unfold elapsedIn
  rw [Int.natCast_eq_zero, Finset.card_eq_zero, Finset.filter_eq_empty_iff]
  simp only [Finset.mem_Ico, and_imp]

open Classical in
/-- An interval inside the set counts whole. -/
theorem elapsedIn_of_subset (hab : a ≤ b) (h : ∀ instant, a ≤ instant → instant < b → instant ∈ S) :
    elapsedIn S a b = b - a := by
  unfold elapsedIn
  rw [Finset.filter_true_of_mem, Int.card_Ico, Int.toNat_of_nonneg (by omega)]
  intro instant hinstant
  rw [Finset.mem_Ico] at hinstant
  exact h instant hinstant.1 hinstant.2

/-! ### Sets made of intervals -/

/-- The length of the overlap of two intervals. -/
theorem card_Ico_inter (a b start finish : ℤ) :
    ((Finset.Ico a b ∩ Finset.Ico start finish).card : ℤ) =
      max 0 (min b finish - max a start) := by
  rw [Finset.Ico_inter_Ico, Int.card_Ico, Int.toNat_eq_max]
  exact max_comm _ _

/-- The time spent in disjoint intervals, of which those listed are the only ones that meet the
interval, is the sum of the overlaps. -/
theorem elapsedIn_eq_sum {κ : Type} {keys : List κ} (start finish : κ → ℤ) (hnodup : keys.Nodup)
    (hmem : ∀ instant, a ≤ instant → instant < b →
      (instant ∈ S ↔ ∃ k ∈ keys, start k ≤ instant ∧ instant < finish k))
    (hdisjoint : ∀ k ∈ keys, ∀ l ∈ keys, ∀ instant, start k ≤ instant → instant < finish k →
      start l ≤ instant → instant < finish l → k = l) :
    elapsedIn S a b = (keys.map fun k => max 0 (min b (finish k) - max a (start k))).sum := by
  classical
  have hfilter : (Finset.Ico a b).filter (· ∈ S) =
      keys.toFinset.biUnion fun k => Finset.Ico a b ∩ Finset.Ico (start k) (finish k) := by
    ext instant
    simp only [Finset.mem_filter, Finset.mem_biUnion, List.mem_toFinset, Finset.mem_inter,
      Finset.mem_Ico]
    constructor
    · rintro ⟨⟨ha, hb⟩, hinstant⟩
      obtain ⟨k, hk, hwithin⟩ := (hmem instant ha hb).mp hinstant
      exact ⟨k, hk, ⟨ha, hb⟩, hwithin⟩
    · rintro ⟨k, hk, ⟨ha, hb⟩, hwithin⟩
      exact ⟨⟨ha, hb⟩, (hmem instant ha hb).mpr ⟨k, hk, hwithin⟩⟩
  unfold elapsedIn
  rw [hfilter, Finset.card_biUnion, Nat.cast_sum]
  · simp only [card_Ico_inter]
    exact List.sum_toFinset _ hnodup
  · intro k hk l hl hne
    rw [Finset.mem_coe, List.mem_toFinset] at hk hl
    refine Finset.disjoint_left.mpr fun instant hinstant hinstant' => hne ?_
    simp only [Finset.mem_inter, Finset.mem_Ico] at hinstant hinstant'
    exact hdisjoint k hk l hl instant hinstant.2.1 hinstant.2.2 hinstant'.2.1 hinstant'.2.2

end Library
