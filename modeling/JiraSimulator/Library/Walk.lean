import Mathlib.Data.List.TakeWhile
import Mathlib.Tactic.Push

/-!
# Walks along a list

A walker stops at the elements of a list that satisfy a predicate.  It remembers only the key of
the element where it stands: to move on, it looks up the first element with that key and continues
to the next stop behind it.  A position is given by the rest of the list from the stop on.
* `forward_iff`: every move goes forward exactly when no stop has the key of an earlier element.
* `Forward.exists_position`: then the walk visits every stop.
* `Forward.count_position`: and each move uses up one stop.
-/

namespace Library.Walk

variable {α κ : Type*} [DecidableEq κ] (key : α → κ) (stops : α → Bool)

/-- The list from its first stop on. -/
def fromFirst (l : List α) : List α :=
  l.dropWhile fun x => !stops x

/-- The list behind its first element with a key. -/
def behind (l : List α) (k : κ) : List α :=
  (l.dropWhile fun x => key x ≠ k).tail

/-- The position after some moves; the walk ends with the empty position. -/
def position (l : List α) : ℕ → List α
  | 0 => fromFirst stops l
  | n + 1 =>
    match position l n with
    | [] => []
    | x :: _ => fromFirst stops (behind key l (key x))

/-- No stop has the key of an earlier element. -/
def Forward (l : List α) : Prop :=
  ∀ before x rest, l = before ++ x :: rest → stops x = true → ∀ y ∈ before, key y ≠ key x

/-! ### Positions -/

variable {key stops} {l : List α}

theorem fromFirst_suffix : fromFirst stops l <:+ l :=
  List.dropWhile_suffix _

theorem behind_suffix (key : α → κ) (l : List α) (k : κ) : behind key l k <:+ l :=
  (List.tail_suffix _).trans (List.dropWhile_suffix _)

theorem stops_of_fromFirst {x : α} {rest : List α} (h : fromFirst stops l = x :: rest) :
    stops x = true := by
  have hhead := List.head?_dropWhile_not stops l
  have hfind : l.find? stops = some x := by
    rw [List.find?_eq_head?_dropWhile_not]
    unfold fromFirst at h
    rw [h]
    rfl
  exact List.find?_some hfind

theorem position_suffix (key : α → κ) (stops : α → Bool) (l : List α) (n : ℕ) :
    position key stops l n <:+ l := by
  induction n with
  | zero => exact fromFirst_suffix
  | succ n _ =>
    unfold position
    cases position key stops l n with
    | nil => exact List.nil_suffix
    | cons x rest => exact fromFirst_suffix.trans (behind_suffix key l _)

theorem position_succ {n : ℕ} {x : α} {rest : List α} (h : position key stops l n = x :: rest) :
    position key stops l (n + 1) = fromFirst stops (behind key l (key x)) := by
  rw [position, h]

theorem stops_of_position {n : ℕ} {x : α} {rest : List α}
    (h : position key stops l n = x :: rest) : stops x = true := by
  cases n with
  | zero => exact stops_of_fromFirst h
  | succ n =>
    unfold position at h
    cases hbefore : position key stops l n with
    | nil => simp [hbefore] at h
    | cons y rest' =>
      rw [hbefore] at h
      exact stops_of_fromFirst h

/-- Behind the first element with its key lies what follows an element. -/
theorem behind_of_first {before rest : List α} {x : α} (h : l = before ++ x :: rest)
    (hfirst : ∀ y ∈ before, key y ≠ key x) : behind key l (key x) = rest := by
  unfold behind
  rw [h, List.dropWhile_append_of_pos (by simpa using hfirst),
    List.dropWhile_cons_of_neg (by simp), List.tail_cons]

/-- Behind an earlier element with its key lies the element itself. -/
theorem behind_of_earlier {before rest : List α} {x : α} (h : l = before ++ x :: rest)
    (hearlier : ∃ y ∈ before, key y = key x) :
    ∃ skipped, behind key l (key x) = skipped ++ x :: rest := by
  subst h
  induction before with
  | nil => simp at hearlier
  | cons y before ih =>
    unfold behind at ih ⊢
    by_cases hy : key y = key x
    · exact ⟨before, by rw [List.cons_append, List.dropWhile_cons_of_neg (by simp [hy]),
        List.tail_cons]⟩
    · rw [List.cons_append, List.dropWhile_cons_of_pos (by simp [hy])]
      refine ih ?_
      obtain ⟨z, hz, hkey⟩ := hearlier
      rcases List.mem_cons.mp hz with rfl | hz
      · exact absurd hkey hy
      · exact ⟨z, hz, hkey⟩

/-- The first stop of a list that holds a stop is there or before it. -/
theorem length_le_fromFirst (skipped rest : List α) {x : α} (hx : stops x = true) :
    rest.length + 1 ≤ (fromFirst stops (skipped ++ x :: rest)).length := by
  induction skipped with
  | nil =>
    unfold fromFirst
    rw [List.nil_append, List.dropWhile_cons_of_neg (by simp [hx]), List.length_cons]
  | cons y skipped ih =>
    unfold fromFirst at ih ⊢
    rw [List.cons_append]
    by_cases hy : stops y = true
    · rw [List.dropWhile_cons_of_neg (by simp [hy])]
      simp only [List.length_cons, List.length_append]
      omega
    · rw [List.dropWhile_cons_of_pos (by simp [hy])]
      exact ih

theorem fromFirst_append {skipped rest : List α} {x : α}
    (hskipped : ∀ y ∈ skipped, stops y = false) (hx : stops x = true) :
    fromFirst stops (skipped ++ x :: rest) = x :: rest := by
  unfold fromFirst
  rw [List.dropWhile_append_of_pos (by simpa using hskipped),
    List.dropWhile_cons_of_neg (by simp [hx])]

/-- A list has no stop, or a last one. -/
theorem exists_last_stop (stops : α → Bool) (l : List α) :
    (∀ y ∈ l, stops y = false) ∨ ∃ before x rest, l = before ++ x :: rest ∧ stops x = true ∧
      ∀ y ∈ rest, stops y = false := by
  induction l with
  | nil => exact .inl (by simp)
  | cons y l ih =>
    rcases ih with hnone | ⟨before, x, rest, rfl, hx, hrest⟩
    · by_cases hy : stops y = true
      · exact .inr ⟨[], y, l, rfl, hy, hnone⟩
      · refine .inl fun z hz => ?_
        rcases List.mem_cons.mp hz with rfl | hz
        · exact Bool.eq_false_iff.mpr hy
        · exact hnone z hz
    · exact .inr ⟨y :: before, x, rest, rfl, hx, hrest⟩

/-! ### Walks that go forward -/

/-- Every move leads behind the element where the walker stood. -/
def Advances (key : α → κ) (stops : α → Bool) (l : List α) : Prop :=
  ∀ n x rest, position key stops l n = x :: rest →
    (position key stops l (n + 1)).length ≤ rest.length

theorem Advances.first (h : Advances key stops l) {n : ℕ} {before rest : List α} {x : α}
    (hposition : position key stops l n = x :: rest) (hl : l = before ++ x :: rest) :
    ∀ y ∈ before, key y ≠ key x := by
  by_contra hearlier
  push Not at hearlier
  obtain ⟨skipped, hbehind⟩ := behind_of_earlier hl hearlier
  have hle := h n x rest hposition
  rw [position_succ hposition, hbehind] at hle
  have hlt := length_le_fromFirst skipped rest (stops_of_position hposition)
  omega

/-- A walk whose moves all go forward visits every stop. -/
theorem Advances.exists_position (h : Advances key stops l) {before rest : List α} {x : α}
    (hl : l = before ++ x :: rest) (hx : stops x = true) :
    ∃ n, position key stops l n = x :: rest := by
  -- The induction is on the elements before the stop: the stop before it is visited earlier.
  induction hn : before.length using Nat.strong_induction_on generalizing before x rest with
  | _ n ih =>
    rcases exists_last_stop stops before with hnone | ⟨first, previous, between, rfl, hprevious,
      hbetween⟩
    · exact ⟨0, by rw [position, hl, fromFirst_append hnone hx]⟩
    · have hl' : l = first ++ previous :: (between ++ x :: rest) := by
        rw [hl, List.append_assoc, List.cons_append]
      have hlt : first.length < n := by
        rw [← hn, List.length_append, List.length_cons]
        omega
      obtain ⟨k, hk⟩ := ih first.length hlt hl' hprevious rfl
      refine ⟨k + 1, ?_⟩
      rw [position_succ hk, behind_of_first hl' (h.first hk hl'), fromFirst_append hbetween hx]

omit [DecidableEq κ] in
/-- A walk along elements with different keys goes forward. -/
theorem forward_of_nodup (h : (l.map key).Nodup) : Forward key stops l := by
  rintro before x rest rfl _ y hy hkey
  rw [List.map_append, List.map_cons, List.nodup_append] at h
  exact h.2.2 _ (List.mem_map_of_mem hy) _ List.mem_cons_self hkey

theorem Forward.position_succ (h : Forward key stops l) {n : ℕ} {x : α} {rest : List α}
    (hposition : position key stops l n = x :: rest) :
    position key stops l (n + 1) = fromFirst stops rest := by
  obtain ⟨before, hl⟩ := position_suffix key stops l n
  rw [hposition] at hl
  rw [Walk.position_succ hposition, behind_of_first hl.symm
    (h before x rest hl.symm (stops_of_position hposition))]

/-- Every move goes forward exactly when no stop has the key of an earlier element. -/
theorem forward_iff : Forward key stops l ↔ Advances key stops l := by
  constructor
  · intro h n x rest hposition
    rw [h.position_succ hposition]
    exact fromFirst_suffix.length_le
  · intro h before x rest hl hx
    obtain ⟨n, hn⟩ := h.exists_position hl hx
    exact h.first hn hl

/-- Each move of a forward walk uses up one stop. -/
theorem Forward.count_position (h : Forward key stops l) {n : ℕ}
    (hn : position key stops l n ≠ []) :
    n + ((position key stops l n).filter stops).length = (l.filter stops).length := by
  have hfirst : ∀ l : List α, (fromFirst stops l).filter stops = l.filter stops := by
    intro l
    induction l with
    | nil => rfl
    | cons y l ih =>
      unfold fromFirst at ih ⊢
      by_cases hy : stops y = true
      · rw [List.dropWhile_cons_of_neg (by simp [hy])]
      · rw [List.dropWhile_cons_of_pos (by simp [hy]), ih, List.filter_cons_of_neg hy]
  induction n with
  | zero => rw [position, hfirst, Nat.zero_add]
  | succ n ih =>
    cases hposition : position key stops l n with
    | nil => simp [position, hposition] at hn
    | cons x rest =>
      have hcount := ih (by simp [hposition])
      rw [hposition, List.filter_cons_of_pos (stops_of_position hposition),
        List.length_cons] at hcount
      rw [h.position_succ hposition, hfirst]
      omega

end Library.Walk
