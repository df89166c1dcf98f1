import JiraSimulator.Domain.CanonicalJson

/-!
# Canonical JSON against RFC 8785

The two encodings escape strings in the same way.  They differ in the text of doubles and in the
order of keys: code points and UTF-16 code units order two keys differently when at their first
difference a character beyond the basic plane meets one above the surrogates.

Main results:
* `canonicalJson_conforms` : the values with one encoding under both;
* `canonicalJson_one` : `1.0` has two.
-/

namespace JiraSimulator

open Library.DecimalText Library.JsonText Library.Ordering

/-- A value that `canonical_json` takes: the keys of a dictionary are distinct, and the integers are
those that a double holds. -/
structure CanonicalValue where
  value : JsonValue
  distinct : DistinctKeys value
  safe : ∀ n, Part.int n ∈ parts value → n.natAbs ≤ 2 ^ 53

/-! ### The order of two characters -/

/-- `c` comes before `d` by its code point and after it by its code units. -/
def Crossed (c d : Char) : Prop :=
  0xE000 ≤ c.toNat ∧ c.toNat < 0x10000 ∧ 0x10000 ≤ d.toNat

theorem toNat_valid (c : Char) : c.toNat < 0xD800 ∨ 0xDFFF < c.toNat ∧ c.toNat < 0x110000 :=
  c.valid

theorem utf16Units_ne_nil (c : Char) : utf16Units c ≠ [] := by
  unfold utf16Units
  split_ifs
  · exact List.cons_ne_nil _ _
  · exact List.cons_ne_nil _ _

theorem lexLe_append (common a b : List ℤ) : lexLe (common ++ a) (common ++ b) = lexLe a b := by
  induction common with
  | nil => rfl
  | cons x common ih => simp [lexLe, ih]

/-- Two characters that are not crossed have one order. -/
theorem lexLe_utf16Units {c d : Char} (hne : c ≠ d) (hcd : ¬ Crossed c d) (hdc : ¬ Crossed d c)
    (a b : List ℤ) :
    lexLe (utf16Units c ++ a) (utf16Units d ++ b) = decide (c.toNat < d.toNat) := by
  have hnat : c.toNat ≠ d.toNat := fun h => hne (Char.toNat_inj.mp h)
  have hc := toNat_valid c
  have hd := toNat_valid d
  unfold Crossed at hcd hdc
  unfold utf16Units
  split_ifs <;>
    simp only [List.cons_append, List.nil_append, lexLe, Bool.or_eq_decide,
      Bool.and_eq_decide, decide_eq_decide, decide_eq_true_eq] <;>
    omega

/-- Two crossed characters have the other order by their code units. -/
theorem lexLe_of_crossed {c d : Char} (h : Crossed c d) (a b : List ℤ) :
    lexLe (utf16Units c ++ a) (utf16Units d ++ b) = false := by
  have hd := toNat_valid d
  unfold Crossed at h
  unfold utf16Units
  rw [if_pos h.2.1, if_neg (by omega)]
  simp only [List.cons_append, List.nil_append, lexLe, Bool.or_eq_false_iff,
    Bool.and_eq_false_iff, decide_eq_false_iff_not]
  omega

/-! ### The order of two keys -/

/-- At their first difference `x` has a character between the surrogates and the end of the basic
plane, and `y` one beyond that plane. -/
def CrossedKeys (x y : String) : Prop :=
  ∃ common c d rest rest', x.toList = common ++ c :: rest ∧ y.toList = common ++ d :: rest' ∧
    Crossed c d

/-- The lists of characters under `CrossedKeys`. -/
def CrossedChars (x y : List Char) : Prop :=
  ∃ common c d rest rest', x = common ++ c :: rest ∧ y = common ++ d :: rest' ∧ Crossed c d

theorem CrossedChars.cons {x y : List Char} (c : Char) (h : CrossedChars x y) :
    CrossedChars (c :: x) (c :: y) := by
  obtain ⟨common, a, b, rest, rest', hx, hy, hab⟩ := h
  exact ⟨c :: common, a, b, rest, rest', by rw [hx]; rfl, by rw [hy]; rfl, hab⟩

/-- Lists of characters that are not crossed have one order. -/
theorem lexLe_of_not_crossed {x y : List Char} (hxy : ¬ CrossedChars x y)
    (hyx : ¬ CrossedChars y x) :
    lexLe (x.flatMap utf16Units) (y.flatMap utf16Units) =
      lexLe (x.map fun c => (c.toNat : ℤ)) (y.map fun c => (c.toNat : ℤ)) := by
  induction x generalizing y with
  | nil => rfl
  | cons c x ih =>
    cases y with
    | nil =>
      rw [List.flatMap_cons, List.flatMap_nil, List.map_nil, List.map_cons]
      have hne := utf16Units_ne_nil c
      cases hunits : utf16Units c with
      | nil => exact absurd hunits hne
      | cons u units => rfl
    | cons d y =>
      rw [List.flatMap_cons, List.flatMap_cons, List.map_cons, List.map_cons]
      by_cases hcd : c = d
      · have htail := ih (fun h => hxy (hcd ▸ h.cons c)) (fun h => hyx (hcd ▸ h.cons c))
        rw [hcd, lexLe_append, htail]
        simp [lexLe]
      · have hnat : c.toNat ≠ d.toNat := fun h => hcd (Char.toNat_inj.mp h)
        rw [lexLe_utf16Units hcd (fun h => hxy ⟨[], c, d, x, y, rfl, rfl, h⟩)
          (fun h => hyx ⟨[], d, c, y, x, rfl, rfl, h⟩)]
        simp [lexLe, hnat]

theorem codePoints_injective : Function.Injective codePoints := by
  intro x y h
  have hmap : Function.Injective fun c : Char => (c.toNat : ℤ) := fun a b hab =>
    Char.toNat_inj.mp (Int.ofNat.inj hab)
  exact String.toList_inj.mp (List.map_injective_iff.mpr hmap h)

theorem lexLe_antisymm {a b : List ℤ} (hab : lexLe a b = true) (hba : lexLe b a = true) :
    a = b := by
  induction a generalizing b with
  | nil =>
    cases b with
    | nil => rfl
    | cons y b => cases hba
  | cons x a ih =>
    cases b with
    | nil => cases hab
    | cons y b =>
      simp only [lexLe, Bool.or_eq_true, Bool.and_eq_true, decide_eq_true_eq] at hab hba
      have hxy : x = y := by omega
      have hab : lexLe a b = true := by
        rcases hab with h | h
        · omega
        · exact h.2
      have hba : lexLe b a = true := by
        rcases hba with h | h
        · omega
        · exact h.2
      rw [hxy, ih hab hba]

/-- The order of the code units is that of the code points on the keys that are not crossed. -/
theorem key_order {x y : String} (hxy : ¬ CrossedKeys x y) (hyx : ¬ CrossedKeys y x) :
    lexLe (utf16CodeUnits x) (utf16CodeUnits y) = lexLe (codePoints x) (codePoints y) :=
  lexLe_of_not_crossed hxy hyx

/-- Crossed keys have the two orders. -/
theorem key_order_of_crossed {x y : String} (h : CrossedKeys x y) :
    lexLe (codePoints x) (codePoints y) = true ∧
      lexLe (utf16CodeUnits x) (utf16CodeUnits y) = false := by
  obtain ⟨common, c, d, rest, rest', hx, hy, hcd⟩ := h
  unfold codePoints utf16CodeUnits
  rw [hx, hy, List.map_append, List.map_append, List.flatMap_append, List.flatMap_append,
    lexLe_append, lexLe_append, List.flatMap_cons, List.flatMap_cons]
  refine ⟨?_, lexLe_of_crossed hcd _ _⟩
  unfold Crossed at hcd
  simp only [List.map_cons, lexLe, Bool.or_eq_true, decide_eq_true_eq]
  exact .inl (by omega)

/-- No two keys are crossed. -/
def OneOrder (names : List String) : Prop :=
  ∀ x ∈ names, ∀ y ∈ names, ¬ CrossedKeys x y

/-- One of two keys comes before the other in both orders. -/
def InBothOrders (x y : String) : Prop :=
  (lexLe (codePoints x) (codePoints y) = true ∧
    lexLe (utf16CodeUnits x) (utf16CodeUnits y) = true) ∨
  (lexLe (codePoints y) (codePoints x) = true ∧
    lexLe (utf16CodeUnits y) (utf16CodeUnits x) = true)

instance : Std.Symm InBothOrders where
  symm _ _ h := h.symm

theorem InBothOrders.refl (x : String) : InBothOrders x x :=
  .inl ⟨(lexLe_total _ _).elim id id, (lexLe_total _ _).elim id id⟩

/-- The keys of an object have one order exactly when no two of them are crossed. -/
theorem sortOn_codePoints_iff (names : List String) :
    sortOn codePoints names = sortOn utf16CodeUnits names ↔ OneOrder names := by
  constructor
  · intro h x hx y hy hcrossed
    obtain ⟨hpoints, hunits⟩ := key_order_of_crossed hcrossed
    -- one list, sorted in both orders
    have hboth : (sortOn codePoints names).Pairwise InBothOrders := by
      have hunitsSorted := sortOn_pairwise utf16CodeUnits names
      rw [← h] at hunitsSorted
      exact ((sortOn_pairwise codePoints names).and hunitsSorted).imp fun hab => .inl hab
    have hall := hboth.forall_of_forall (fun a _ => InBothOrders.refl a)
      (mem_sortOn.mpr hx) (mem_sortOn.mpr hy)
    rcases hall with hxy | hyx
    · exact absurd (hunits.symm.trans hxy.2) (by decide)
    · have hsame : x = y := codePoints_injective (lexLe_antisymm hpoints hyx.1)
      rw [hsame] at hunits
      have hrefl : lexLe (utf16CodeUnits y) (utf16CodeUnits y) = true :=
        (lexLe_total _ _).elim id id
      exact absurd (hunits.symm.trans hrefl) (by decide)
  · intro h
    have horder : ∀ x ∈ names, ∀ y ∈ names,
        lexLe (utf16CodeUnits x) (utf16CodeUnits y) = lexLe (codePoints x) (codePoints y) :=
      fun x hx y hy => key_order (h x hx y hy) (h y hy x hx)
    have hperm : (sortOn codePoints names).Perm (sortOn utf16CodeUnits names) :=
      (sortOn_perm _ names).trans (sortOn_perm _ names).symm
    have hsorted : (sortOn utf16CodeUnits names).Pairwise fun x y =>
        lexLe (codePoints x) (codePoints y) = true :=
      (sortOn_pairwise utf16CodeUnits names).imp_of_mem fun hx hy hxy =>
        (horder _ (mem_sortOn.mp hx) _ (mem_sortOn.mp hy)).symm.trans hxy
    exact hperm.eq_of_pairwise (fun x y _ _ hxy hyx =>
      codePoints_injective (lexLe_antisymm hxy hyx)) (sortOn_pairwise codePoints names) hsorted

/-! ### The encodings -/

theorem jsonDumps_plain : jsonDumps.Plain where
  int _ _ h := numberChar_pythonInteger h
  float _ _ h := numberChar_pythonFloat h

theorem jsonCanonicalizationScheme_plain : jsonCanonicalizationScheme.Plain where
  int _ _ h := numberChar_ecmaInteger h
  float _ _ h := numberChar_ecmaFloat h

/-- The encodings treat the parts of a value alike under conditions on its doubles and keys. -/
theorem alike_iff (document : CanonicalValue) :
    Style.Alike jsonDumps jsonCanonicalizationScheme document.value ↔
      (∀ x, Part.float x ∈ parts document.value → OneText x.value) ∧
        ∀ names, Part.keys names ∈ parts document.value → OneOrder names := by
  constructor
  · intro h
    exact ⟨fun x hx => (pythonFloat_eq_ecmaFloat_iff x).mp (h _ hx),
      fun names hnames => (sortOn_codePoints_iff names).mp (h _ hnames)⟩
  · rintro ⟨hfloats, hkeys⟩ part hpart
    cases part with
    | int n =>
      have hsmall : n.natAbs < 10 ^ 21 := lt_of_le_of_lt (document.safe n hpart) (by norm_num)
      exact (ecmaInteger_eq hsmall).symm
    | float x => exact (pythonFloat_eq_ecmaFloat_iff x).mpr (hfloats x hpart)
    | keys names => exact (sortOn_codePoints_iff names).mpr (hkeys names hpart)

/-- `canonical_json` is the encoding of RFC 8785, and its digest that of a conforming encoder,
exactly for the values whose doubles have one text and whose keys have one order. -/
theorem canonicalJson_conforms (document : CanonicalValue) :
    (canonicalJson document.value = rfc8785 document.value ∧
        canonicalSha256 document.value = { document := rfc8785 document.value }) ↔
      (∀ x, Part.float x ∈ parts document.value → OneText x.value) ∧
        ∀ names, Part.keys names ∈ parts document.value → OneOrder names := by
  rw [← alike_iff, ← Style.text_eq_iff jsonDumps_plain jsonCanonicalizationScheme_plain
    document.distinct]
  constructor
  · rintro ⟨h, -⟩
    exact String.ofList_inj.mp h
  · intro h
    have htext : canonicalJson document.value = rfc8785 document.value := String.ofList_inj.mpr h
    exact ⟨htext, by rw [canonicalSha256, htext]⟩

/-- The object `{"weight": 1.0}`. -/
def weightOne : CanonicalValue where
  value := .object [("weight", .float (.nonzero false
    { significand := 1, point := 1, normal := by decide, short := by decide }))]
  distinct := by
    intro names hnames
    simp only [parts, memberParts, List.map_cons, List.map_nil, List.append_nil, List.mem_cons,
      Part.keys.injEq, List.not_mem_nil, reduceCtorEq, or_false] at hnames
    rw [hnames]
    decide
  safe := by
    intro n hn
    simp only [parts, memberParts, List.append_nil, List.mem_cons, List.not_mem_nil, reduceCtorEq,
      or_false] at hn

/-- `{"weight":1.0}` is `{"weight":1}` in RFC 8785. -/
theorem canonicalJson_one :
    ¬ ∀ document : CanonicalValue, canonicalJson document.value = rfc8785 document.value := by
  intro h
  have htext := String.ofList_inj.mp (h weightOne)
  exact absurd htext (by decide)

end JiraSimulator
