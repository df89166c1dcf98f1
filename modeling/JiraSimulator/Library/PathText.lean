import Mathlib.Data.Nat.Digits.Defs
import Mathlib.Data.List.Basic

/-!
# Paths of segments

A path joins segments with `/`.  Segments are names, numbers of a fixed width, or anything else
without a slash; only the last one may hold slashes of its own.

* `fixedDigits_inj`: numbers of a fixed width are read back.
* `path_inj`: paths of one number of segments are read back.
-/

namespace Library.PathText

/-! ### Numbers of a fixed width -/

/-- The last `width` digits of a number. -/
def fixedDigits (base : ℕ) : ℕ → ℕ → List Char
  | 0, _ => []
  | width + 1, n => fixedDigits base width (n / base) ++ [Nat.digitChar (n % base)]

@[simp] theorem fixedDigits_length (base width n : ℕ) :
    (fixedDigits base width n).length = width := by
  induction width generalizing n with
  | zero => rfl
  | succ width ih => simp [fixedDigits, ih]

theorem digitChar_inj {a b : ℕ} (ha : a < 16) (hb : b < 16)
    (h : Nat.digitChar a = Nat.digitChar b) : a = b := by
  have hall : ∀ a < 16, ∀ b < 16, Nat.digitChar a = Nat.digitChar b → a = b := by decide
  exact hall a ha b hb h

theorem fixedDigits_inj {base : ℕ} (hpos : 0 < base) (hbase : base ≤ 16) {width m n : ℕ}
    (hm : m < base ^ width) (hn : n < base ^ width)
    (h : fixedDigits base width m = fixedDigits base width n) : m = n := by
  induction width generalizing m n with
  | zero =>
    rw [pow_zero] at hm hn
    omega
  | succ width ih =>
    obtain ⟨hfront, hlast⟩ := List.append_inj' h rfl
    have hmod : m % base = n % base := by
      have hm' := Nat.mod_lt m hpos
      have hn' := Nat.mod_lt n hpos
      exact digitChar_inj (by omega) (by omega) (List.singleton_inj.mp hlast)
    have hdiv : m / base = n / base := by
      apply ih _ _ hfront
      · exact Nat.div_lt_of_lt_mul (by rwa [pow_succ'] at hm)
      · exact Nat.div_lt_of_lt_mul (by rwa [pow_succ'] at hn)
    rw [← Nat.div_add_mod m base, ← Nat.div_add_mod n base, hmod, hdiv]

theorem isAlphanum_of_mem_fixedDigits {base : ℕ} (hpos : 0 < base) (hbase : base ≤ 16)
    {width n : ℕ} {c : Char} (h : c ∈ fixedDigits base width n) : c.isAlphanum := by
  induction width generalizing n with
  | zero => cases h
  | succ width ih =>
    rcases List.mem_append.mp h with h | h
    · exact ih h
    · have hlt := Nat.mod_lt n hpos
      have hall : ∀ d < 16, (Nat.digitChar d).isAlphanum := by decide
      rw [List.mem_singleton.mp h]
      exact hall _ (by omega)

/-- A decimal number is read back. -/
theorem toDigits_inj {m n : ℕ} (h : Nat.toDigits 10 m = Nat.toDigits 10 n) : m = n := by
  have hread := congrArg (fun digits => Nat.ofDigitChars 10 digits 0) h
  simpa only [Nat.ofDigitChars_ten_toDigits] using hread

/-! ### Segments -/

/-- The segments with slashes between them. -/
def path : List (List Char) → List Char
  | [] => []
  | [segment] => segment
  | segment :: next :: rest => segment ++ '/' :: path (next :: rest)

/-- What stands before the first slash is read back. -/
theorem append_slash_inj {a b x y : List Char} (ha : '/' ∉ a) (hb : '/' ∉ b)
    (h : a ++ '/' :: x = b ++ '/' :: y) : a = b ∧ x = y := by
  induction a generalizing b with
  | nil =>
    cases b with
    | nil =>
      cases h
      exact ⟨rfl, rfl⟩
    | cons c b =>
      have hc : '/' = c := (List.cons.inj h).1
      exact absurd (hc ▸ List.mem_cons_self) hb
  | cons c a ih =>
    cases b with
    | nil =>
      have hc : c = '/' := (List.cons.inj h).1
      exact absurd (hc ▸ List.mem_cons_self) ha
    | cons d b =>
      obtain ⟨hcd, htail⟩ := List.cons.inj h
      obtain ⟨hab, hxy⟩ := ih (fun hmem => ha (List.mem_cons_of_mem _ hmem))
        (fun hmem => hb (List.mem_cons_of_mem _ hmem)) htail
      exact ⟨by rw [hcd, hab], hxy⟩

/-- Paths of one number of segments are read back when no segment but the last holds a slash. -/
theorem path_inj {xs ys : List (List Char)} (hlength : xs.length = ys.length)
    (hxs : ∀ x ∈ xs.dropLast, '/' ∉ x) (hys : ∀ y ∈ ys.dropLast, '/' ∉ y)
    (h : path xs = path ys) : xs = ys := by
  induction xs using path.induct generalizing ys with
  | case1 =>
    rw [List.length_nil] at hlength
    exact (List.length_eq_zero_iff.mp hlength.symm).symm
  | case2 segment =>
    obtain ⟨other, rfl⟩ := List.length_eq_one_iff.mp hlength.symm
    rw [show segment = other from h]
  | case3 segment next rest ih =>
    match ys, hlength with
    | other :: next' :: rest', hlength =>
      obtain ⟨hhead, htail⟩ := append_slash_inj (hxs segment List.mem_cons_self)
        (hys other List.mem_cons_self) h
      have hrest := @ih (next' :: rest') (by simpa using hlength)
        (fun x hx => hxs x (List.mem_cons_of_mem _ hx))
        (fun y hy => hys y (List.mem_cons_of_mem _ hy)) htail
      rw [hhead, hrest]

end Library.PathText
