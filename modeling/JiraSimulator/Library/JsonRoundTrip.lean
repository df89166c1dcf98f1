import JiraSimulator.Library.JsonReader
import Mathlib.Data.List.TakeWhile

/-!
# Writing and reading JSON values

A text written without white space is read as the value with the members of its objects in the
order of the writer, and whatever is read from any text can be written and read again.

Main results:
* `scanValue_text` : a written value is read back, up to the order of members;
* `scan_takes` : a value that is read has distinct keys, short integers and known doubles;
* `text_eq_text_iff` : two values have one text exactly when they are one value up to the order of
  members.
-/

namespace Library.JsonText

open DecimalText Library.Ordering

/-! ### Reading a value back -/

/-- The style of a writer of Python's numbers. -/
def pythonStyle (key : String → List ℤ) : Style where
  int := pythonInteger
  float := pythonFloat
  key := key

/-- A reader reads a part back when it is written. -/
def Reader.Reads (reader : Reader) : Part → Prop
  | .int n => (digitsOf n.natAbs).length ≤ reader.maxDigits
  | .float x => reader.float (pythonFloat x) = some x
  | .keys names => names.Nodup

/-- A reader reads every part of a value back. -/
def Reader.Takes (reader : Reader) (v : JsonValue) : Prop :=
  ∀ part ∈ parts v, reader.Reads part

namespace Reader.Takes

variable {reader : Reader}

theorem item {items : List JsonValue} (h : reader.Takes (.array items)) {v : JsonValue}
    (hv : v ∈ items) : reader.Takes v := by
  intro part hpart
  apply h part
  rw [parts_array]
  exact List.mem_flatMap.mpr ⟨v, hv, hpart⟩

theorem member {members : List (String × JsonValue)} (h : reader.Takes (.object members))
    {m : String × JsonValue} (hm : m ∈ members) : reader.Takes m.2 := by
  intro part hpart
  apply h part
  rw [parts_object]
  exact List.mem_cons_of_mem _ (List.mem_flatMap.mpr ⟨m, hm, hpart⟩)

theorem names {members : List (String × JsonValue)} (h : reader.Takes (.object members)) :
    (members.map Prod.fst).Nodup := by
  apply h (.keys (members.map Prod.fst))
  rw [parts_object]
  exact List.mem_cons_self

theorem array {items : List JsonValue} (h : ∀ v ∈ items, reader.Takes v) :
    reader.Takes (.array items) := by
  intro part hpart
  rw [parts_array] at hpart
  obtain ⟨v, hv, hpart⟩ := List.mem_flatMap.mp hpart
  exact h v hv part hpart

theorem object {members : List (String × JsonValue)} (hnames : (members.map Prod.fst).Nodup)
    (h : ∀ m ∈ members, reader.Takes m.2) : reader.Takes (.object members) := by
  intro part hpart
  rw [parts_object] at hpart
  rcases List.mem_cons.mp hpart with rfl | hpart
  · exact hnames
  · obtain ⟨m, hm, hpart⟩ := List.mem_flatMap.mp hpart
    exact h m hm part hpart

end Reader.Takes

namespace Style

variable (style : Style)

mutual

/-- A value with the members of its objects in the order of the writer. -/
def canonical : JsonValue → JsonValue
  | .array items => .array (canonicalItems items)
  | .object members =>
    .object (sortOn (fun member => style.key member.1) (canonicalMembers members))
  | v => v

def canonicalItems : List JsonValue → List JsonValue
  | [] => []
  | item :: items => canonical item :: canonicalItems items

def canonicalMembers : List (String × JsonValue) → List (String × JsonValue)
  | [] => []
  | (key, value) :: members => (key, canonical value) :: canonicalMembers members

end

theorem canonical_array (items : List JsonValue) :
    style.canonical (.array items) = .array (items.map style.canonical) := by
  rw [canonical]
  congr 1
  induction items with
  | nil => rw [canonicalItems, List.map_nil]
  | cons item items ih => rw [canonicalItems, ih, List.map_cons]

/-- A member with the canonical form of its value. -/
def canonicalMember (member : String × JsonValue) : String × JsonValue :=
  (member.1, style.canonical member.2)

theorem canonical_object (members : List (String × JsonValue)) :
    style.canonical (.object members) =
      .object ((style.sorted members).map style.canonicalMember) := by
  have hmembers : style.canonicalMembers members = members.map style.canonicalMember := by
    induction members with
    | nil => rw [canonicalMembers, List.map_nil]
    | cons member members ih =>
      obtain ⟨key, value⟩ := member
      rw [canonicalMembers, ih, List.map_cons]
      rfl
  rw [canonical, hmembers, sortOn_map]
  rfl

/-- The order of the members does not change the text. -/
theorem text_canonical (v : JsonValue) : style.text (style.canonical v) = style.text v := by
  induction v using JsonValue.induction with
  | null => rw [canonical] <;> simp
  | bool b => rw [canonical] <;> simp
  | int n => rw [canonical] <;> simp
  | float x => rw [canonical] <;> simp
  | string s => rw [canonical] <;> simp
  | array items ih =>
    rw [canonical_array, text_array, text_array, List.map_map]
    congr 3
    exact List.map_congr_left ih
  | object members ih =>
    rw [canonical_object, text_object, text_object]
    have hsorted : style.sorted ((style.sorted members).map style.canonicalMember) =
        (style.sorted members).map style.canonicalMember := by
      unfold sorted
      rw [sortOn_map]
      congr 1
      exact sortOn_sortOn _ _
    rw [hsorted, List.map_map]
    congr 3
    refine List.map_congr_left fun m hm => ?_
    show quoted m.1 ++ ':' :: style.text (style.canonical m.2) = quoted m.1 ++ ':' :: style.text m.2
    rw [ih m (mem_sortOn.mp hm)]

end Style

section reader

variable {reader : Reader}

theorem skipSpace_cons {c : Char} {text : List Char} (h : isSpace c = false) :
    skipSpace (c :: text) = c :: text := by
  unfold skipSpace
  rw [List.dropWhile_cons_of_neg (by simp [h])]

theorem skipSpace_closed {tail : List Char} (h : Closed tail) : skipSpace tail = tail := by
  cases tail with
  | nil => rfl
  | cons c tail =>
    apply skipSpace_cons
    rcases h c rfl with rfl | rfl | rfl <;> rfl

/-- The first characters of the texts of values. -/
def Opens (c : Char) : Prop :=
  isSpace c = false ∧ c ≠ ']' ∧ c ≠ '}'

theorem NumberChar.opens {c : Char} (h : NumberChar c) : Opens c := by
  refine ⟨?_, ?_, ?_⟩
  · have hspace : ∀ d, isSpace d = true → ¬ NumberChar d := by
      intro d hd
      simp only [isSpace, Bool.or_eq_true, decide_eq_true_eq] at hd
      rcases hd with ((rfl | rfl) | rfl) | rfl <;> unfold NumberChar <;> decide
    by_contra hc
    exact hspace c (by simpa using hc) h
  · rintro rfl
    revert h
    unfold NumberChar
    decide
  · rintro rfl
    revert h
    unfold NumberChar
    decide

theorem NumberText.WellFormed.exists_head {number : NumberText} (h : number.WellFormed) :
    ∃ c rest, number.text = c :: rest ∧ (c = '-' ∨ c.isDigit = true) := by
  unfold NumberText.text signed
  split_ifs
  · exact ⟨_, _, rfl, .inl rfl⟩
  · rcases h.whole with hwhole | ⟨⟨hne, hdigits⟩, -⟩
    · rw [hwhole]
      exact ⟨_, _, rfl, .inr rfl⟩
    · cases hlist : number.whole with
      | nil => exact absurd hlist hne
      | cons c rest =>
        refine ⟨c, _, rfl, .inr (hdigits c ?_)⟩
        rw [hlist]
        exact List.mem_cons_self

/-- A number is what no other token begins. -/
theorem scanValue_number {fuel : ℕ} {c : Char} {rest : List Char}
    (hc : c = '-' ∨ c.isDigit = true) : scanValue reader (fuel + 1) (c :: rest) = (do
      let (number, rest) ← scanNumber (c :: rest)
      let value ← reader.number number
      return (value, rest)) := by
  have hne : ∀ d : Char, d ≠ '-' → d.isDigit = false → c ≠ d := by
    rintro d hminus hdigit rfl
    rcases hc with hc | hc
    · exact hminus hc
    · rw [hc] at hdigit
      cases hdigit
  rw [scanValue, if_neg (hne '"' (by decide) rfl), if_neg (hne '{' (by decide) rfl),
    if_neg (hne '[' (by decide) rfl), if_neg (hne 'n' (by decide) rfl),
    if_neg (hne 't' (by decide) rfl), if_neg (hne 'f' (by decide) rfl)]

theorem scanValue_numberText {number : NumberText} (h : number.WellFormed) {fuel : ℕ}
    {tail : List Char} (hclosed : Closed tail) :
    scanValue reader (fuel + 1) (number.text ++ tail) =
      (reader.number number).map fun value => (value, tail) := by
  obtain ⟨c, rest, htext, hc⟩ := h.exists_head
  have hscan := scanNumber_text hclosed h
  rw [htext, List.cons_append] at hscan ⊢
  rw [scanValue_number hc, hscan]
  cases hnumber : reader.number number with
  | none => simp [hnumber]
  | some value => simp [hnumber]

/-- A value is read back with the members of its objects in order. -/
def ReadsBack (reader : Reader) (style : Style) (v : JsonValue) : Prop :=
  ∀ fuel tail, Closed tail → (style.text v).length ≤ fuel →
    scanValue reader fuel (style.text v ++ tail) = some (style.canonical v, tail)

/-- Every character is written with one character or more. -/
theorem length_escaped (s : List Char) : s.length ≤ (s.flatMap escapeChar).length := by
  have hone : ∀ c, 1 ≤ (escapeChar c).length := by
    intro c
    unfold escapeChar
    split_ifs <;> simp
  induction s with
  | nil => exact le_rfl
  | cons c s ih =>
    have := hone c
    rw [List.flatMap_cons, List.length_append, List.length_cons]
    omega

section style

variable (key : String → List ℤ)

theorem exists_text_head (v : JsonValue) :
    ∃ c rest, (pythonStyle key).text v = c :: rest ∧ Opens c := by
  have hnumber : ∀ number : NumberText, number.WellFormed →
      ∃ c rest, number.text = c :: rest ∧ Opens c := by
    intro number h
    obtain ⟨c, rest, htext, hc⟩ := h.exists_head
    refine ⟨c, rest, htext, NumberChar.opens ?_⟩
    rcases hc with rfl | hc
    · exact .inr (.inr (.inr (.inr rfl)))
    · exact .inl hc
  cases v with
  | null => exact ⟨_, _, by rw [Style.text], rfl, by decide, by decide⟩
  | bool b => cases b <;> exact ⟨_, _, by rw [Style.text], rfl, by decide, by decide⟩
  | int n =>
    rw [Style.text]
    show ∃ c rest, pythonInteger n = c :: rest ∧ Opens c
    rw [← integerText_text]
    exact hnumber _ (integerText_wellFormed n)
  | float x =>
    obtain ⟨number, hwf, htext, -⟩ := exists_floatText x
    rw [Style.text]
    show ∃ c rest, pythonFloat x = c :: rest ∧ Opens c
    rw [← htext]
    exact hnumber number hwf
  | string s => exact ⟨_, _, by rw [Style.text, quoted], rfl, by decide, by decide⟩
  | array items => exact ⟨_, _, Style.text_array _ _, rfl, by decide, by decide⟩
  | object members => exact ⟨_, _, Style.text_object _ _, rfl, by decide, by decide⟩

theorem skipSpace_text (v : JsonValue) (rest : List Char) :
    skipSpace ((pythonStyle key).text v ++ rest) = (pythonStyle key).text v ++ rest := by
  obtain ⟨c, cs, htext, hc, -⟩ := exists_text_head key v
  rw [htext, List.cons_append, skipSpace_cons hc]

theorem head_text_ne (v : JsonValue) (rest : List Char) :
    ((pythonStyle key).text v ++ rest).head? ≠ some ']' := by
  obtain ⟨c, cs, htext, -, hc, -⟩ := exists_text_head key v
  rw [htext]
  intro h
  exact hc (Option.some.inj h)

variable {key}

/-- The items of an array, from the first. -/
theorem scanItems_text {item : JsonValue} {items : List JsonValue}
    (ih : ∀ v ∈ item :: items, ReadsBack reader (pythonStyle key) v) (fuel : ℕ) (tail : List Char)
    (hfuel : ((pythonStyle key).text item ++
      following (items.map (pythonStyle key).text)).length < fuel) :
    scanItems reader fuel ((pythonStyle key).text item ++
      (following (items.map (pythonStyle key).text) ++ ']' :: tail)) =
        some ((item :: items).map (pythonStyle key).canonical, tail) := by
  induction items generalizing item fuel with
  | nil =>
    rw [List.map_nil, following, List.flatMap_nil, List.append_nil] at hfuel
    obtain ⟨fuel, rfl⟩ : ∃ k, fuel = k + 1 := ⟨fuel - 1, by omega⟩
    have hclosed : Closed (']' :: tail) := following_closed [] (.inl rfl) tail
    have hitem := ih item List.mem_cons_self fuel (']' :: tail) hclosed (by omega)
    show scanItems reader (fuel + 1) ((pythonStyle key).text item ++ ']' :: tail) = _
    rw [scanItems]
    simp only [hitem, Option.bind_eq_bind, Option.bind_some, skipSpace_closed hclosed, if_true,
      Option.pure_def, List.map_cons, List.map_nil]
  | cons next items hrest =>
    rw [List.length_append, List.map_cons, following, List.flatMap_cons, List.cons_append,
      List.length_cons] at hfuel
    obtain ⟨fuel, rfl⟩ : ∃ k, fuel = k + 1 := ⟨fuel - 1, by omega⟩
    have hclosed : Closed (following ((next :: items).map (pythonStyle key).text) ++ ']' :: tail) :=
      following_closed _ (.inl rfl) tail
    have hitem := ih item List.mem_cons_self fuel _ hclosed (by omega)
    have hitems := hrest (fun v hv => ih v (List.mem_cons_of_mem _ hv)) fuel
      (by unfold following; omega)
    -- the comma leads to the next item
    have hsplit : following ((next :: items).map (pythonStyle key).text) ++ ']' :: tail =
        ',' :: ((pythonStyle key).text next ++
          (following (items.map (pythonStyle key).text) ++ ']' :: tail)) := by
      simp [following]
    rw [scanItems]
    simp only [hitem, Option.bind_eq_bind, Option.bind_some, skipSpace_closed hclosed]
    rw [hsplit]
    simp only [skipSpace_text, hitems, Option.bind_some, Option.pure_def, List.map_cons,
      Char.reduceEq, if_true, if_false]

/-- One member, with what follows it. -/
theorem scanMembers_cons {member : String × JsonValue}
    (ih : ReadsBack reader (pythonStyle key) member.2) {fuel : ℕ} {rest : List Char}
    (hfuel : ((pythonStyle key).member member).length < fuel) (hclosed : Closed rest) :
    scanMembers reader fuel ((pythonStyle key).member member ++ rest) = (
      match skipSpace rest with
      | [] => none
      | c :: rest =>
        if c = '}' then some ([(pythonStyle key).canonicalMember member], rest)
        else if c = ',' then do
          let (members, rest) ← scanMembers reader (fuel - 1) (skipSpace rest)
          return ((pythonStyle key).canonicalMember member :: members, rest)
        else none) := by
  obtain ⟨name, value⟩ := member
  obtain ⟨fuel, rfl⟩ : ∃ k, fuel = k + 1 := ⟨fuel - 1, by omega⟩
  -- the fuel covers the name, the colon and the value
  have hlength : name.toList.length ≤ (name.toList.flatMap escapeChar).length := length_escaped _
  have htext : (pythonStyle key).member (name, value) ++ rest =
      '"' :: (name.toList.flatMap escapeChar ++
        '"' :: (':' :: ((pythonStyle key).text value ++ rest))) := by
    simp [Style.member, quoted]
  have hsize : ((pythonStyle key).member (name, value)).length =
      (name.toList.flatMap escapeChar).length + ((pythonStyle key).text value).length + 3 := by
    simp [Style.member, quoted]
    omega
  have hscan : scanString fuel (name.toList.flatMap escapeChar ++
      '"' :: (':' :: ((pythonStyle key).text value ++ rest))) =
        some (name.toList, ':' :: ((pythonStyle key).text value ++ rest)) :=
    scanString_escaped _ _ _ (by omega)
  have hcolon : skipSpace (':' :: ((pythonStyle key).text value ++ rest)) =
      ':' :: ((pythonStyle key).text value ++ rest) := rfl
  have hvalue := ih fuel rest hclosed (by show ((pythonStyle key).text value).length ≤ fuel; omega)
  rw [htext, scanMembers]
  simp only [guard_true, hscan, hcolon, List.head?_cons, List.tail_cons, skipSpace_text,
    Option.bind_eq_bind, Option.bind_some, Option.pure_def, hvalue, String.ofList_toList,
    Nat.add_sub_cancel]
  rfl

/-- The members of an object, from the first. -/
theorem scanMembers_text {member : String × JsonValue} {members : List (String × JsonValue)}
    (ih : ∀ m ∈ member :: members, ReadsBack reader (pythonStyle key) m.2) (fuel : ℕ)
    (tail : List Char) (hfuel : ((pythonStyle key).member member ++
      following (members.map (pythonStyle key).member)).length < fuel) :
    scanMembers reader fuel ((pythonStyle key).member member ++
      (following (members.map (pythonStyle key).member) ++ '}' :: tail)) =
        some ((member :: members).map (pythonStyle key).canonicalMember, tail) := by
  induction members generalizing member fuel with
  | nil =>
    rw [List.map_nil, following, List.flatMap_nil, List.append_nil] at hfuel
    have hclosed : Closed ('}' :: tail) := following_closed [] (.inr rfl) tail
    have hone := scanMembers_cons (ih member List.mem_cons_self) hfuel hclosed
    show scanMembers reader fuel ((pythonStyle key).member member ++ '}' :: tail) = _
    rw [hone, skipSpace_closed hclosed]
    rfl
  | cons next members hrest =>
    rw [List.length_append, List.map_cons, following, List.flatMap_cons, List.cons_append,
      List.length_cons] at hfuel
    have hclosed :
        Closed (following ((next :: members).map (pythonStyle key).member) ++ '}' :: tail) :=
      following_closed _ (.inr rfl) tail
    have hone := scanMembers_cons (ih member List.mem_cons_self) (show _ < fuel by omega) hclosed
    have hmembers := hrest (fun m hm => ih m (List.mem_cons_of_mem _ hm)) (fuel - 1)
      (by unfold following; omega)
    -- the comma leads to the next member
    have hsplit : following ((next :: members).map (pythonStyle key).member) ++ '}' :: tail =
        ',' :: ((pythonStyle key).member next ++
          (following (members.map (pythonStyle key).member) ++ '}' :: tail)) := by
      simp [following]
    rw [hone, skipSpace_closed hclosed, hsplit]
    have hspace : skipSpace ((pythonStyle key).member next ++
        (following (members.map (pythonStyle key).member) ++ '}' :: tail)) =
        (pythonStyle key).member next ++
          (following (members.map (pythonStyle key).member) ++ '}' :: tail) := rfl
    simp only [hspace, hmembers, Option.bind_eq_bind, Option.bind_some, Option.pure_def,
      List.map_cons, Char.reduceEq, if_true, if_false]

/-- No text is empty, so a reader that has enough fuel has some. -/
theorem readsBack_of_succ {v : JsonValue} (h : ∀ fuel tail, Closed tail →
    ((pythonStyle key).text v).length ≤ fuel + 1 →
    scanValue reader (fuel + 1) ((pythonStyle key).text v ++ tail) =
      some ((pythonStyle key).canonical v, tail)) : ReadsBack reader (pythonStyle key) v := by
  intro fuel tail hclosed hfuel
  obtain ⟨c, cs, htext, -⟩ := exists_text_head key v
  have hpos : 1 ≤ ((pythonStyle key).text v).length := by
    rw [htext, List.length_cons]
    omega
  obtain ⟨fuel, rfl⟩ : ∃ k, fuel = k + 1 := ⟨fuel - 1, by omega⟩
  exact h fuel tail hclosed hfuel

theorem readsBack_number {v : JsonValue} {number : NumberText} (h : number.WellFormed)
    (htext : (pythonStyle key).text v = number.text)
    (hnumber : reader.number number = some ((pythonStyle key).canonical v)) :
    ReadsBack reader (pythonStyle key) v := by
  apply readsBack_of_succ
  intro fuel tail hclosed _
  rw [htext, scanValue_numberText h hclosed, hnumber]
  rfl

/-- A value is read back with the members of its objects in order. -/
theorem scanValue_text (key : String → List ℤ) (v : JsonValue) (h : reader.Takes v) :
    ReadsBack reader (pythonStyle key) v := by
  induction v using JsonValue.induction with
  | null =>
    apply readsBack_of_succ
    intro fuel tail _ _
    rw [Style.text, Style.canonical] <;> simp [scanValue, scanLiteral]
  | bool b =>
    apply readsBack_of_succ
    intro fuel tail _ _
    cases b <;> rw [Style.text, Style.canonical] <;> simp [scanValue, scanLiteral]
  | int n =>
    -- a whole number has neither a fraction nor an exponent
    have htext : (pythonStyle key).text (.int n) = (integerText n).text := by
      rw [Style.text, integerText_text]
      rfl
    have hdigits : (integerText n).whole.length ≤ reader.maxDigits :=
      h (.int n) (by rw [parts]; exact List.mem_singleton_self _)
    refine readsBack_number (integerText_wellFormed n) htext ?_
    rw [Style.canonical] <;> try simp
    show reader.number (integerText n) = some (.int n)
    unfold Reader.number
    rw [if_pos ⟨rfl, rfl⟩, if_pos hdigits]
    congr 2
    exact integerOf_digitsOf n
  | float x =>
    -- the text of a double has a point or an exponent, so it is not read as an integer
    obtain ⟨number, hwf, htext, hpoint⟩ := exists_floatText x
    have hfloat : reader.float (pythonFloat x) = some x :=
      h (.float x) (by rw [parts]; exact List.mem_singleton_self _)
    refine readsBack_number hwf (by rw [Style.text, htext]; rfl) ?_
    rw [Style.canonical] <;> try simp
    show reader.number number = some (.float x)
    unfold Reader.number
    rw [if_neg hpoint, htext, hfloat]
    rfl
  | string s =>
    apply readsBack_of_succ
    intro fuel tail _ hfuel
    rw [Style.text, quoted] at hfuel ⊢
    -- the fuel covers the string, since an escape is not shorter than its character
    have hlength : s.toList.length ≤ (s.toList.flatMap escapeChar).length := length_escaped _
    have hscan : scanString fuel (s.toList.flatMap escapeChar ++ '"' :: tail) =
        some (s.toList, tail) := by
      apply scanString_escaped
      simp only [List.length_cons, List.length_append, List.length_nil] at hfuel
      omega
    rw [List.cons_append, List.append_assoc, List.singleton_append, scanValue, if_pos rfl, hscan,
      Style.canonical] <;> simp
  | array items ih =>
    have hread : ∀ v ∈ items, ReadsBack reader (pythonStyle key) v :=
      fun v hv => ih v hv (h.item hv)
    apply readsBack_of_succ
    intro fuel tail hclosed hfuel
    rw [Style.text_array] at hfuel ⊢
    rw [Style.canonical_array]
    cases items with
    | nil => rfl
    | cons item items =>
      rw [List.map_cons, joined_cons] at hfuel ⊢
      have hitems := scanItems_text hread fuel tail (by simp at hfuel ⊢; omega)
      have hsplit : '[' :: (((pythonStyle key).text item ++
          following (items.map (pythonStyle key).text)) ++ [']']) ++ tail =
          '[' :: ((pythonStyle key).text item ++
            (following (items.map (pythonStyle key).text) ++ ']' :: tail)) := by simp
      rw [hsplit, scanValue, if_neg (by decide), if_neg (by decide), if_pos rfl, skipSpace_text,
        if_neg (head_text_ne key item _), hitems]
      rfl
  | object members ih =>
    have hread : ∀ m ∈ (pythonStyle key).sorted members, ReadsBack reader (pythonStyle key) m.2 :=
      fun m hm => ih m (mem_sortOn.mp hm) (h.member (mem_sortOn.mp hm))
    have hnodup : (((pythonStyle key).sorted members).map Prod.fst).Nodup :=
      ((sortOn_perm _ members).map Prod.fst).nodup_iff.mpr h.names
    apply readsBack_of_succ
    intro fuel tail hclosed hfuel
    rw [Style.text_object] at hfuel ⊢
    rw [Style.canonical_object]
    -- the members are read in the order in which they are written
    generalize (pythonStyle key).sorted members = sorted at hread hnodup hfuel
    cases sorted with
    | nil => rfl
    | cons member rest =>
      rw [List.map_cons, joined_cons] at hfuel ⊢
      have hmembers := scanMembers_text hread fuel tail (by simp at hfuel ⊢; omega)
      have hsplit : '{' :: (((pythonStyle key).member member ++
          following (rest.map (pythonStyle key).member)) ++ ['}']) ++ tail =
          '{' :: ((pythonStyle key).member member ++
            (following (rest.map (pythonStyle key).member) ++ '}' :: tail)) := by simp
      have hspace : skipSpace ((pythonStyle key).member member ++
          (following (rest.map (pythonStyle key).member) ++ '}' :: tail)) =
          (pythonStyle key).member member ++
            (following (rest.map (pythonStyle key).member) ++ '}' :: tail) := rfl
      -- distinct names keep every member
      have hdict : Keyed.ofList Prod.fst ((member :: rest).map (pythonStyle key).canonicalMember) =
          (member :: rest).map (pythonStyle key).canonicalMember := by
        apply Keyed.ofList_of_nodup
        rw [List.map_map]
        exact hnodup
      rw [hsplit, scanValue, if_neg (by decide), if_pos rfl, hspace, if_neg (by rintro ⟨⟩),
        hmembers]
      simp only [Option.bind_eq_bind, Option.bind_some, Option.pure_def, hdict]

end style

end reader

/-! ### What is read from a text -/

theorem digits_of_takeWhile {c : Char} {rest : List Char} (hc : c.isDigit = true) :
    Digits (c :: rest.takeWhile Char.isDigit) := by
  refine ⟨List.cons_ne_nil _ _, fun d hd => ?_⟩
  rcases List.mem_cons.mp hd with rfl | hd
  · exact hc
  · exact List.mem_takeWhile_imp hd

theorem scanWhole_digits {text whole rest : List Char} (h : scanWhole text = some (whole, rest)) :
    Digits whole := by
  cases text with
  | nil => cases h
  | cons c text =>
    simp only [scanWhole] at h
    split_ifs at h with hzero hdigit
    · cases h
      exact digits_digitsOf 0
    · cases h
      exact digits_of_takeWhile hdigit

theorem scanUnsigned_digits {negative : Bool} {text rest : List Char} {number : NumberText}
    (h : scanUnsigned negative text = some (number, rest)) : Digits number.whole := by
  unfold scanUnsigned at h
  simp only [Option.bind_eq_bind, Option.bind_eq_some_iff, Option.pure_def, Option.some.injEq,
    Prod.mk.injEq] at h
  obtain ⟨⟨whole, tail⟩, hwhole, hnumber, -⟩ := h
  rw [← hnumber]
  exact scanWhole_digits hwhole

theorem scanNumber_digits {text rest : List Char} {number : NumberText}
    (h : scanNumber text = some (number, rest)) : Digits number.whole := by
  cases text with
  | nil => cases h
  | cons c text =>
    simp only [scanNumber] at h
    split_ifs at h
    · exact scanUnsigned_digits h
    · exact scanUnsigned_digits h

theorem ofDigitChars_lt {digits : List Char} (h : ∀ c ∈ digits, c.isDigit = true) :
    Nat.ofDigitChars 10 digits 0 < 10 ^ digits.length := by
  induction digits with
  | nil => simp
  | cons c digits ih =>
    have hrest := ih fun d hd => h d (List.mem_cons_of_mem _ hd)
    have hc : c.toNat - '0'.toNat ≤ 9 := by
      have hdigit := h c List.mem_cons_self
      simp only [Char.isDigit, Bool.and_eq_true, decide_eq_true_eq] at hdigit
      have hle : c.toNat ≤ 57 := UInt32.le_iff_toNat_le.mp hdigit.2
      show c.toNat - 48 ≤ 9
      omega
    rw [Nat.ofDigitChars_cons, Nat.ofDigitChars_eq_ofDigitChars_zero, List.length_cons, pow_succ]
    have hmul : 10 ^ digits.length * (10 * 0 + (c.toNat - '0'.toNat)) ≤ 10 ^ digits.length * 9 :=
      Nat.mul_le_mul_left _ (by omega)
    omega

/-- An integer has no more digits than its text. -/
theorem length_digitsOf_integerOf (negative : Bool) {digits : List Char} (h : Digits digits) :
    (digitsOf (integerOf negative digits).natAbs).length ≤ digits.length := by
  have habs : (integerOf negative digits).natAbs = Nat.ofDigitChars 10 digits 0 := by
    unfold integerOf
    split_ifs
    · rw [Int.natAbs_neg, Int.natAbs_natCast]
    · rw [Int.natAbs_natCast]
  rw [habs]
  exact (Nat.length_toDigits_le_iff (by omega) (List.length_pos_iff.mpr h.1)).mpr
    (ofDigitChars_lt h.2)

section sound

variable {reader : Reader}
  (hfloat : ∀ text x, reader.float text = some x → reader.float (pythonFloat x) = some x)

theorem Reader.Takes.of_no_parts {v : JsonValue} (h : parts v = []) : reader.Takes v := by
  intro part hpart
  rw [h] at hpart
  cases hpart

theorem scanLiteral_takes {word text rest : List Char} {value v : JsonValue}
    (hvalue : parts value = []) (h : scanLiteral word value text = some (v, rest)) :
    reader.Takes v := by
  unfold scanLiteral at h
  split_ifs at h
  cases h
  exact .of_no_parts hvalue

include hfloat

theorem Reader.number_takes {number : NumberText} (hdigits : Digits number.whole) {v : JsonValue}
    (h : reader.number number = some v) : reader.Takes v := by
  unfold Reader.number at h
  split_ifs at h with hinteger hshort
  · cases h
    intro part hpart
    rw [parts, List.mem_singleton] at hpart
    rw [hpart]
    exact (length_digitsOf_integerOf _ hdigits).trans hshort
  · obtain ⟨x, hx, rfl⟩ := Option.map_eq_some_iff.mp h
    intro part hpart
    rw [parts, List.mem_singleton] at hpart
    rw [hpart]
    exact hfloat _ _ hx

/-- Whatever is read can be written and read again. -/
theorem scan_takes (fuel : ℕ) :
    (∀ text v rest, scanValue reader fuel text = some (v, rest) → reader.Takes v) ∧
    (∀ text items rest, scanItems reader fuel text = some (items, rest) →
      ∀ v ∈ items, reader.Takes v) ∧
    ∀ text members rest, scanMembers reader fuel text = some (members, rest) →
      ∀ m ∈ members, reader.Takes m.2 := by
  induction fuel with
  | zero =>
    refine ⟨fun text v rest h => ?_, fun text items rest h => ?_, fun text members rest h => ?_⟩
    · rw [scanValue] at h
      cases h
    · rw [scanItems] at h
      cases h
    · rw [scanMembers] at h
      cases h
  | succ fuel ih =>
    -- the three scanners call each other with less fuel
    obtain ⟨hvalue, hitems, hmembers⟩ := ih
    refine ⟨fun text v rest h => ?_, fun text items rest h => ?_, fun text members rest h => ?_⟩
    · cases text with
      | nil =>
        rw [scanValue] at h
        cases h
      | cons c text =>
        rw [scanValue] at h
        split_ifs at h
        · obtain ⟨⟨s, tail⟩, -, hpair⟩ := Option.map_eq_some_iff.mp h
          cases hpair
          exact .of_no_parts (by rw [parts])
        · cases h
          exact .object .nil fun m hm => absurd hm List.not_mem_nil
        · simp only [Option.bind_eq_bind, Option.bind_eq_some_iff, Option.pure_def,
            Option.some.injEq, Prod.mk.injEq] at h
          obtain ⟨⟨members, tail⟩, hscan, rfl, -⟩ := h
          -- a repeated name keeps its last value
          refine .object (Keyed.nodup_ofList _ _) fun m hm => ?_
          exact hmembers _ _ _ hscan m (Keyed.mem_of_mem_ofList Prod.fst hm)
        · cases h
          exact .array fun v hv => absurd hv List.not_mem_nil
        · simp only [Option.bind_eq_bind, Option.bind_eq_some_iff, Option.pure_def,
            Option.some.injEq, Prod.mk.injEq] at h
          obtain ⟨⟨items, tail⟩, hscan, rfl, -⟩ := h
          exact .array (hitems _ _ _ hscan)
        · exact scanLiteral_takes (by rw [parts]) h
        · exact scanLiteral_takes (by rw [parts]) h
        · exact scanLiteral_takes (by rw [parts]) h
        · simp only [Option.bind_eq_bind, Option.bind_eq_some_iff, Option.pure_def,
            Option.some.injEq, Prod.mk.injEq] at h
          obtain ⟨⟨number, tail⟩, hscan, value, hnumber, rfl, -⟩ := h
          exact Reader.number_takes hfloat (scanNumber_digits hscan) hnumber
    · rw [scanItems] at h
      simp only [Option.bind_eq_bind, Option.bind_eq_some_iff] at h
      obtain ⟨⟨item, tail⟩, hscan, h⟩ := h
      have hitem := hvalue _ _ _ hscan
      cases hspace : skipSpace tail with
      | nil => simp [hspace] at h
      | cons c tail =>
        simp only [hspace] at h
        split_ifs at h
        · cases h
          intro v hv
          rw [List.mem_singleton.mp hv]
          exact hitem
        · simp only [Option.bind_eq_some_iff, Option.pure_def, Option.some.injEq,
            Prod.mk.injEq] at h
          obtain ⟨⟨later, tail⟩, hlater, rfl, -⟩ := h
          intro v hv
          rcases List.mem_cons.mp hv with rfl | hv
          · exact hitem
          · exact hitems _ _ _ hlater v hv
    · cases text with
      | nil =>
        rw [scanMembers] at h
        cases h
      | cons c text =>
        rw [scanMembers] at h
        simp only [Option.bind_eq_bind, Option.bind_eq_some_iff] at h
        obtain ⟨-, -, ⟨key, tail⟩, -, -, -, ⟨value, tail⟩, hscan, h⟩ := h
        have hmember := hvalue _ _ _ hscan
        cases hspace : skipSpace tail with
        | nil => simp [hspace] at h
        | cons c tail =>
          simp only [hspace] at h
          split_ifs at h
          · cases h
            intro m hm
            rw [List.mem_singleton.mp hm]
            exact hmember
          · simp only [Option.bind_eq_some_iff, Option.pure_def, Option.some.injEq,
              Prod.mk.injEq] at h
            obtain ⟨⟨later, tail⟩, hlater, rfl, -⟩ := h
            intro m hm
            rcases List.mem_cons.mp hm with rfl | hm
            · exact hmember
            · exact hmembers _ _ _ hlater m hm

theorem readText_takes {text : List Char} {v : JsonValue} (h : readText reader text = some v) :
    reader.Takes v := by
  unfold readText at h
  simp only [Option.bind_eq_bind, Option.bind_eq_some_iff, Option.pure_def,
    Option.some.injEq] at h
  obtain ⟨⟨value, rest⟩, hscan, -, -, rfl⟩ := h
  exact (scan_takes hfloat _).1 _ _ _ hscan

end sound

/-! ### Whole texts -/

section whole

variable {reader : Reader} {key : String → List ℤ}

/-- A written value is read back with the members of its objects in order. -/
theorem readText_text (key : String → List ℤ) {v : JsonValue} (h : reader.Takes v) :
    readText reader ((pythonStyle key).text v) = some ((pythonStyle key).canonical v) := by
  have hscan := scanValue_text key v h (((pythonStyle key).text v).length + 1) [] Closed.nil
    (by omega)
  have hspace := skipSpace_text key v []
  rw [List.append_nil] at hscan hspace
  unfold readText
  rw [hspace, hscan]
  rfl

/-- Two values have one text exactly when they are one value up to the order of members. -/
theorem text_eq_text_iff {v w : JsonValue} (hv : reader.Takes v) (hw : reader.Takes w) :
    (pythonStyle key).text v = (pythonStyle key).text w ↔
      (pythonStyle key).canonical v = (pythonStyle key).canonical w := by
  constructor
  · intro h
    have hread := readText_text key hv
    rw [h, readText_text key hw] at hread
    exact (Option.some.inj hread).symm
  · intro h
    rw [← Style.text_canonical, h, Style.text_canonical]

end whole

end Library.JsonText
