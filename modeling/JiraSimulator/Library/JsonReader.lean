import JiraSimulator.Library.JsonText
import JiraSimulator.Library.Keyed

/-!
# Reading texts of JSON values

A reader of JSON texts with white space between the tokens.  It goes through the text from the left
and answers with the value and the rest of the text; the doubles are read by a function it is given.

Main results:
* `scanNumber_text` : a number is read up to the end of its text;
* `exists_floatText` : the text of a double has a point or an exponent;
* `scanString_escaped` : a string is read back.
-/

namespace Library.JsonText

open DecimalText Library.Ordering

/-! ### Tokens -/

/-- The white space between tokens. -/
def isSpace (c : Char) : Bool :=
  c = ' ' || c = '\t' || c = '\n' || c = '\r'

def skipSpace (text : List Char) : List Char :=
  text.dropWhile isSpace

/-- A word whose first letter has been read. -/
def scanLiteral (word : List Char) (value : JsonValue) (text : List Char) :
    Option (JsonValue × List Char) :=
  if word.isPrefixOf text then some (value, text.drop word.length) else none

/-! ### Numbers -/

/-- The parts of the text of a number. -/
structure NumberText where
  negative : Bool
  whole : List Char
  fraction : List Char
  exponent : List Char

def NumberText.text (number : NumberText) : List Char :=
  signed number.negative (number.whole ++ (number.fraction ++ number.exponent))

/-- Either sign, when there is one. -/
def scanSign : List Char → List Char × List Char
  | '+' :: rest => (['+'], rest)
  | '-' :: rest => (['-'], rest)
  | rest => ([], rest)

/-- The digits before the point; no digit follows a zero. -/
def scanWhole : List Char → Option (List Char × List Char)
  | [] => none
  | c :: rest =>
    if c = '0' then some (['0'], rest)
    else if c.isDigit then some (c :: rest.takeWhile Char.isDigit, rest.dropWhile Char.isDigit)
    else none

/-- The point and the digits after it.  A point without digits is left in the text. -/
def scanFraction : List Char → List Char × List Char
  | [] => ([], [])
  | c :: rest =>
    if c = '.' ∧ rest.takeWhile Char.isDigit ≠ [] then
      ('.' :: rest.takeWhile Char.isDigit, rest.dropWhile Char.isDigit)
    else ([], c :: rest)

/-- The exponent.  A letter without digits is left in the text. -/
def scanExponent : List Char → List Char × List Char
  | [] => ([], [])
  | c :: rest =>
    let (sign, unsigned) := scanSign rest
    if (c = 'e' ∨ c = 'E') ∧ unsigned.takeWhile Char.isDigit ≠ [] then
      (c :: (sign ++ unsigned.takeWhile Char.isDigit), unsigned.dropWhile Char.isDigit)
    else ([], c :: rest)

/-- A number without its sign. -/
def scanUnsigned (negative : Bool) (text : List Char) : Option (NumberText × List Char) := do
  let (whole, rest) ← scanWhole text
  let (fraction, rest) := scanFraction rest
  let (exponent, rest) := scanExponent rest
  return ({ negative, whole, fraction, exponent }, rest)

def scanNumber : List Char → Option (NumberText × List Char)
  | [] => none
  | c :: rest => if c = '-' then scanUnsigned true rest else scanUnsigned false (c :: rest)

/-- How a reader takes numbers. -/
structure Reader where
  /-- The double nearest to a decimal, if it is finite. -/
  float : List Char → Option JsonFloat
  /-- The most digits an integer may have. -/
  maxDigits : ℕ

/-- The integer with these digits. -/
def integerOf (negative : Bool) (digits : List Char) : ℤ :=
  if negative then -(Nat.ofDigitChars 10 digits 0 : ℤ) else Nat.ofDigitChars 10 digits 0

def Reader.number (reader : Reader) (number : NumberText) : Option JsonValue :=
  if number.fraction = [] ∧ number.exponent = [] then
    if number.whole.length ≤ reader.maxDigits then
      some (.int (integerOf number.negative number.whole))
    else none
  else (reader.float number.text).map .float

/-! ### Strings -/

/-- The value of a hexadecimal digit. -/
def hexDigit? (c : Char) : Option ℕ :=
  if c.isDigit then some (c.toNat - 48)
  else if 'a'.toNat ≤ c.toNat ∧ c.toNat ≤ 'f'.toNat then some (c.toNat - 87)
  else if 'A'.toNat ≤ c.toNat ∧ c.toNat ≤ 'F'.toNat then some (c.toNat - 55)
  else none

/-- The number of four hexadecimal digits. -/
def hex4 (a b c d : Char) : Option ℕ := do
  let a ← hexDigit? a
  let b ← hexDigit? b
  let c ← hexDigit? c
  let d ← hexDigit? d
  return ((a * 16 + b) * 16 + c) * 16 + d

/-- The character of a code unit or of a surrogate pair.  A surrogate alone is no character. -/
def unescape (unit : ℕ) : Option Char :=
  if unit < 0xD800 ∨ 0xDFFF < unit then some (Char.ofNat unit) else none

def surrogatePair (high low : ℕ) : Option Char :=
  if 0xD800 ≤ high ∧ high ≤ 0xDBFF ∧ 0xDC00 ≤ low ∧ low ≤ 0xDFFF then
    some (Char.ofNat (0x10000 + (high - 0xD800) * 0x400 + (low - 0xDC00)))
  else none

/-- The character of a short escape. -/
def shortEscape (c : Char) : Option Char :=
  if c = '"' ∨ c = '\\' ∨ c = '/' then some c
  else if c = 'b' then some '\x08'
  else if c = 'f' then some '\x0c'
  else if c = 'n' then some '\n'
  else if c = 'r' then some '\r'
  else if c = 't' then some '\t'
  else none

/-- One character of a string, escaped or not. -/
def scanChar : List Char → Option (Char × List Char)
  | '\\' :: 'u' :: a :: b :: c :: d :: rest => do
    let high ← hex4 a b c d
    match unescape high, rest with
    | some c, rest => return (c, rest)
    | none, '\\' :: 'u' :: a :: b :: c :: d :: rest =>
      let low ← hex4 a b c d
      let c ← surrogatePair high low
      return (c, rest)
    | none, _ => none
  | '\\' :: c :: rest => (shortEscape c).map fun c => (c, rest)
  | c :: rest => if c.toNat < 0x20 then none else some (c, rest)
  | [] => none

/-- The characters up to the closing quotation mark. -/
def scanString : ℕ → List Char → Option (List Char × List Char)
  | 0, _ => none
  | fuel + 1, text =>
    if text.head? = some '"' then some ([], text.tail)
    else do
      let (c, rest) ← scanChar text
      let (cs, rest) ← scanString fuel rest
      return (c :: cs, rest)

/-! ### Values -/

section reader

variable (reader : Reader)

mutual

/-- A value at the front of a text. -/
def scanValue : ℕ → List Char → Option (JsonValue × List Char)
  | 0, _ => none
  | _ + 1, [] => none
  | fuel + 1, c :: rest =>
    if c = '"' then (scanString fuel rest).map fun (s, rest) => (.string (String.ofList s), rest)
    else if c = '{' then
      if (skipSpace rest).head? = some '}' then some (.object [], (skipSpace rest).tail)
      else do
        let (members, rest) ← scanMembers fuel (skipSpace rest)
        return (.object (Keyed.ofList Prod.fst members), rest)
    else if c = '[' then
      if (skipSpace rest).head? = some ']' then some (.array [], (skipSpace rest).tail)
      else do
        let (items, rest) ← scanItems fuel (skipSpace rest)
        return (.array items, rest)
    else if c = 'n' then scanLiteral ['u', 'l', 'l'] .null rest
    else if c = 't' then scanLiteral ['r', 'u', 'e'] (.bool true) rest
    else if c = 'f' then scanLiteral ['a', 'l', 's', 'e'] (.bool false) rest
    else do
      let (number, rest) ← scanNumber (c :: rest)
      let value ← reader.number number
      return (value, rest)

/-- The items of an array, from the first. -/
def scanItems : ℕ → List Char → Option (List JsonValue × List Char)
  | 0, _ => none
  | fuel + 1, text => do
    let (item, rest) ← scanValue fuel text
    match skipSpace rest with
    | [] => none
    | c :: rest =>
      if c = ']' then return ([item], rest)
      else if c = ',' then
        let (items, rest) ← scanItems fuel (skipSpace rest)
        return (item :: items, rest)
      else none

/-- The members of an object, from the first. -/
def scanMembers : ℕ → List Char → Option (List (String × JsonValue) × List Char)
  | 0, _ => none
  | _ + 1, [] => none
  | fuel + 1, c :: text => do
    guard (c = '"')
    let (key, rest) ← scanString fuel text
    guard ((skipSpace rest).head? = some ':')
    let (value, rest) ← scanValue fuel (skipSpace (skipSpace rest).tail)
    match skipSpace rest with
    | [] => none
    | c :: rest =>
      if c = '}' then return ([(String.ofList key, value)], rest)
      else if c = ',' then
        let (members, rest) ← scanMembers fuel (skipSpace rest)
        return ((String.ofList key, value) :: members, rest)
      else none

end

/-- The value of a whole text. -/
def readText (text : List Char) : Option JsonValue := do
  let (value, rest) ← scanValue reader (text.length + 1) (skipSpace text)
  guard (skipSpace rest = [])
  return value

end reader

/-! ### Reading a number back -/

theorem span_append {p : Char → Bool} {a tail : List Char} (ha : ∀ c ∈ a, p c = true)
    (htail : ∀ c ∈ tail.head?, p c = false) :
    (a ++ tail).takeWhile p = a ∧ (a ++ tail).dropWhile p = tail := by
  rw [List.takeWhile_append_of_pos ha, List.dropWhile_append_of_pos ha]
  cases tail with
  | nil => simp
  | cons c tail =>
    have hc : p c = false := htail c rfl
    simp [hc]

/-- Some digits. -/
def Digits (text : List Char) : Prop :=
  text ≠ [] ∧ ∀ c ∈ text, c.isDigit = true

/-- The texts of numbers as they are written. -/
structure NumberText.WellFormed (number : NumberText) : Prop where
  whole : number.whole = ['0'] ∨ Digits number.whole ∧ number.whole.head? ≠ some '0'
  fraction : number.fraction = [] ∨ ∃ digits, Digits digits ∧ number.fraction = '.' :: digits
  exponent : number.exponent = [] ∨ ∃ sign digits, Digits digits ∧ (sign = '+' ∨ sign = '-') ∧
    number.exponent = 'e' :: sign :: digits

theorem Closed.not_digit {tail : List Char} (h : Closed tail) :
    ∀ c ∈ tail.head?, c.isDigit = false := by
  intro c hc
  rcases h c hc with rfl | rfl | rfl <;> rfl

theorem scanWhole_append {whole rest : List Char}
    (h : whole = ['0'] ∨ Digits whole ∧ whole.head? ≠ some '0')
    (hrest : ∀ c ∈ rest.head?, c.isDigit = false) :
    scanWhole (whole ++ rest) = some (whole, rest) := by
  rcases h with rfl | ⟨⟨hne, hdigits⟩, hhead⟩
  · rfl
  · cases whole with
    | nil => exact absurd rfl hne
    | cons c whole =>
      have hzero : ¬ c = '0' := fun h => hhead (by rw [h]; rfl)
      have hc := hdigits c List.mem_cons_self
      obtain ⟨htake, hdrop⟩ := span_append (fun d hd => hdigits d (List.mem_cons_of_mem _ hd)) hrest
      simp [scanWhole, hzero, hc, htake, hdrop]

section number

variable {tail : List Char} (hclosed : Closed tail)

include hclosed

theorem scanExponent_append {exponent : List Char}
    (h : exponent = [] ∨ ∃ sign digits, Digits digits ∧ (sign = '+' ∨ sign = '-') ∧
      exponent = 'e' :: sign :: digits) : scanExponent (exponent ++ tail) = (exponent, tail) := by
  rcases h with rfl | ⟨sign, digits, ⟨hne, hdigits⟩, hsign, rfl⟩
  · cases tail with
    | nil => rfl
    | cons c tail =>
      have hc : ¬ (c = 'e' ∨ c = 'E') := by
        rcases hclosed c rfl with rfl | rfl | rfl <;> decide
      simp [scanExponent, hc]
  · obtain ⟨htake, hdrop⟩ := span_append hdigits hclosed.not_digit
    have hscan : scanSign (sign :: (digits ++ tail)) = ([sign], digits ++ tail) := by
      rcases hsign with rfl | rfl <;> rfl
    simp only [List.cons_append, scanExponent, hscan, htake, hdrop]
    rw [if_pos ⟨.inl trivial, hne⟩]
    rfl

theorem scanFraction_append {fraction exponent : List Char}
    (h : fraction = [] ∨ ∃ digits, Digits digits ∧ fraction = '.' :: digits)
    (he : exponent = [] ∨ ∃ sign digits, Digits digits ∧ (sign = '+' ∨ sign = '-') ∧
      exponent = 'e' :: sign :: digits) :
    scanFraction (fraction ++ (exponent ++ tail)) = (fraction, exponent ++ tail) := by
  have hhead : ∀ c ∈ (exponent ++ tail).head?, c.isDigit = false ∧ c ≠ '.' := by
    intro c hc
    rcases he with rfl | ⟨sign, digits, -, -, rfl⟩
    · rcases hclosed c hc with rfl | rfl | rfl <;> decide
    · cases hc
      decide
  rcases h with rfl | ⟨digits, ⟨hne, hdigits⟩, rfl⟩
  · rw [List.nil_append]
    generalize exponent ++ tail = rest at hhead
    cases rest with
    | nil => rfl
    | cons c rest =>
      have hc : ¬ c = '.' := (hhead c rfl).2
      simp [scanFraction, hc]
  · obtain ⟨htake, hdrop⟩ := span_append hdigits fun c hc => (hhead c hc).1
    simp only [List.cons_append, scanFraction, htake, hdrop]
    rw [if_pos ⟨trivial, hne⟩]

/-- A number is read up to the end of its text. -/
theorem scanNumber_text {number : NumberText} (h : number.WellFormed) :
    scanNumber (number.text ++ tail) = some (number, tail) := by
  obtain ⟨negative, whole, fraction, exponent⟩ := number
  obtain ⟨hwhole, hfraction, hexponent⟩ := h
  have hrest : ∀ c ∈ (fraction ++ (exponent ++ tail)).head?, c.isDigit = false := by
    intro c hc
    rcases hfraction with rfl | ⟨digits, -, rfl⟩
    · rcases hexponent with rfl | ⟨sign, digits, -, -, rfl⟩
      · exact hclosed.not_digit c hc
      · cases hc
        decide
    · cases hc
      decide
  have hunsigned : scanUnsigned negative (whole ++ (fraction ++ (exponent ++ tail))) =
      some (⟨negative, whole, fraction, exponent⟩, tail) := by
    simp only [scanUnsigned, scanWhole_append hwhole hrest,
      scanFraction_append hclosed hfraction hexponent, scanExponent_append hclosed hexponent,
      Option.bind_eq_bind, Option.bind_some, Option.pure_def]
  have hsplit : NumberText.text ⟨negative, whole, fraction, exponent⟩ ++ tail =
      signed negative (whole ++ (fraction ++ (exponent ++ tail))) := by
    unfold NumberText.text signed
    split_ifs <;> simp
  rw [hsplit]
  cases negative with
  | true => exact hunsigned
  | false =>
    obtain ⟨c, digits, rfl, hc⟩ : ∃ c digits, whole = c :: digits ∧ c ≠ '-' := by
      rcases hwhole with rfl | ⟨⟨hne, hdigits⟩, -⟩
      · exact ⟨_, _, rfl, by decide⟩
      · cases whole with
        | nil => exact absurd rfl hne
        | cons c digits =>
          refine ⟨c, digits, rfl, ?_⟩
          rintro rfl
          exact absurd (hdigits '-' List.mem_cons_self) (by decide)
    show (if c = '-' then _ else
      scanUnsigned false (c :: digits ++ (fraction ++ (exponent ++ tail)))) = _
    rw [if_neg hc]
    exact hunsigned

end number

/-! ### The numbers that are written -/

theorem digits_digitsOf (m : ℕ) : Digits (digitsOf m) :=
  ⟨List.ne_nil_of_length_pos Nat.length_toDigits_pos, fun _ h => isDigit_of_mem_digitsOf h⟩

theorem head_digitsOf {m : ℕ} (h : 0 < m) : (digitsOf m).head? ≠ some '0' := by
  induction m using Nat.strong_induction_on with
  | _ m ih =>
    unfold digitsOf at ih ⊢
    rcases Nat.lt_or_ge m 10 with hlt | hge
    · have hall : ∀ m < 10, 0 < m → [Nat.digitChar m].head? ≠ some '0' := by decide
      rw [Nat.toDigits_of_lt_base hlt]
      exact hall m hlt h
    · have hne : Nat.toDigits 10 (m / 10) ≠ [] := (digits_digitsOf (m / 10)).1
      rw [Nat.toDigits_of_base_le (by omega) hge, List.head?_append_of_ne_nil _ hne]
      exact ih (m / 10) (by omega) (by omega)

/-- The digits of a number, as the part before the point. -/
theorem whole_digitsOf (m : ℕ) :
    digitsOf m = ['0'] ∨ Digits (digitsOf m) ∧ (digitsOf m).head? ≠ some '0' := by
  rcases Nat.eq_zero_or_pos m with rfl | hpos
  · exact .inl rfl
  · exact .inr ⟨digits_digitsOf m, head_digitsOf hpos⟩

theorem integerOf_digitsOf (n : ℤ) : integerOf (decide (n < 0)) (digitsOf n.natAbs) = n := by
  unfold integerOf digitsOf
  rw [Nat.ofDigitChars_ten_toDigits]
  by_cases h : n < 0
  · rw [decide_eq_true h, if_pos rfl]
    omega
  · rw [decide_eq_false h, if_neg (by decide)]
    omega

/-- The parts of the text of an integer. -/
def integerText (n : ℤ) : NumberText where
  negative := n < 0
  whole := digitsOf n.natAbs
  fraction := []
  exponent := []

theorem integerText_text (n : ℤ) : (integerText n).text = pythonInteger n := by
  unfold NumberText.text integerText pythonInteger
  rw [List.append_nil, List.append_nil]

theorem integerText_wellFormed (n : ℤ) : (integerText n).WellFormed where
  whole := whole_digitsOf _
  fraction := .inl rfl
  exponent := .inl rfl

theorem digits_append {a b : List Char} (ha : ∀ c ∈ a, c.isDigit = true) (hb : Digits b) :
    Digits (a ++ b) := by
  refine ⟨List.append_ne_nil_of_right_ne_nil _ hb.1, fun c hc => ?_⟩
  rcases List.mem_append.mp hc with hc | hc
  · exact ha c hc
  · exact hb.2 c hc

/-- The text of a double has a point or an exponent. -/
theorem exists_floatText (x : JsonFloat) : ∃ number : NumberText, number.WellFormed ∧
    number.text = pythonFloat x ∧ ¬ (number.fraction = [] ∧ number.exponent = []) := by
  cases x with
  | zero negative =>
    refine ⟨⟨negative, ['0'], ['.', '0'], []⟩, ⟨.inl rfl, .inr ⟨['0'], ?_, rfl⟩, .inl rfl⟩, rfl,
      fun h => absurd h.1 (List.cons_ne_nil _ _)⟩
    exact digits_digitsOf 0
  | nonzero negative d =>
    obtain ⟨hne, hdigits⟩ := digits_digitsOf d.significand
    have hhead := head_digitsOf d.significand_pos
    show ∃ number : NumberText, number.WellFormed ∧ number.text =
      signed negative (pythonNumber (digitsOf d.significand) d.point) ∧
        ¬ (number.fraction = [] ∧ number.exponent = [])
    have hlength : (digitsOf d.significand).length = d.length := rfl
    generalize digitsOf d.significand = digits at hne hdigits hhead hlength
    -- the first digits are a whole part
    have hfront : ∀ k, 0 < k → Digits (digits.take k) ∧ (digits.take k).head? ≠ some '0' := by
      intro k hk
      refine ⟨⟨by simp [hne]; omega, fun c hc => hdigits c (List.mem_of_mem_take hc)⟩, ?_⟩
      rw [List.head?_take, if_neg (by omega)]
      exact hhead
    unfold pythonNumber
    split_ifs with hsmall hzero hmixed
    · refine ⟨⟨negative, ['0'], '.' :: (zeros (-d.point).toNat ++ digits), []⟩,
        ⟨.inl rfl, .inr ⟨_, ?_, rfl⟩, .inl rfl⟩, ?_, fun h => absurd h.1 (List.cons_ne_nil _ _)⟩
      · exact digits_append (fun c hc => isDigit_of_mem_zeros hc) ⟨hne, hdigits⟩
      · simp [NumberText.text, fraction]
    · refine ⟨⟨negative, digits.take d.point.toNat, '.' :: digits.drop d.point.toNat, []⟩,
        ⟨.inr (hfront _ (by omega)), .inr ⟨_, ⟨?_, ?_⟩, rfl⟩, .inl rfl⟩, ?_,
        fun h => absurd h.1 (List.cons_ne_nil _ _)⟩
      · rw [ne_eq, List.drop_eq_nil_iff]
        omega
      · exact fun c hc => hdigits c (List.mem_of_mem_drop hc)
      · simp [NumberText.text, mixed]
    · refine ⟨⟨negative, whole digits d.point, ['.', '0'], []⟩,
        ⟨.inr ⟨⟨?_, fun c hc => isDigit_of_mem_whole hdigits hc⟩, ?_⟩,
          .inr ⟨['0'], digits_digitsOf 0, rfl⟩, .inl rfl⟩, ?_,
        fun h => absurd h.1 (List.cons_ne_nil _ _)⟩
      · exact List.append_ne_nil_of_left_ne_nil hne _
      · unfold whole
        rw [List.head?_append_of_ne_nil _ hne]
        exact hhead
      · simp [NumberText.text]
    · -- one digit before the point, and an exponent
      refine ⟨⟨negative, digits.take 1, if digits.length = 1 then [] else '.' :: digits.drop 1,
        'e' :: (if d.point - 1 < 0 then '-' else '+') :: exponentDigits 2 (d.point - 1).natAbs⟩,
        ⟨.inr (hfront 1 (by omega)), ?_, .inr ⟨_, _, ⟨?_, ?_⟩, ?_, rfl⟩⟩, ?_,
        fun h => absurd h.2 (List.cons_ne_nil _ _)⟩
      · show (if digits.length = 1 then [] else '.' :: digits.drop 1) = [] ∨ ∃ tail, Digits tail ∧
          (if digits.length = 1 then [] else '.' :: digits.drop 1) = '.' :: tail
        split_ifs with hone
        · exact .inl rfl
        · have hpos := List.length_pos_iff.mpr hne
          refine .inr ⟨_, ⟨?_, fun c hc => hdigits c (List.mem_of_mem_drop hc)⟩, rfl⟩
          rw [ne_eq, List.drop_eq_nil_iff]
          omega
      · exact List.append_ne_nil_of_right_ne_nil _ (digits_digitsOf _).1
      · intro c hc
        rcases List.mem_append.mp hc with hc | hc
        · exact isDigit_of_mem_zeros hc
        · exact isDigit_of_mem_digitsOf hc
      · split_ifs
        · exact .inr rfl
        · exact .inl rfl
      · simp [NumberText.text, scientific]

/-! ### Reading a string back -/

theorem hexDigit?_hexDigit {n : ℕ} (h : n < 16) : hexDigit? (hexDigit n) = some n := by
  have hall : ∀ n < 16, hexDigit? (hexDigit n) = some n := by decide
  exact hall n h

/-- A written character is read back. -/
theorem scanChar_escapeChar (c : Char) (rest : List Char) :
    scanChar (escapeChar c ++ rest) = some (c, rest) := by
  unfold escapeChar
  by_cases hquote : c = '"'
  · rw [if_pos hquote, hquote]
    rfl
  rw [if_neg hquote]
  by_cases hslash : c = '\\'
  · rw [if_pos hslash, hslash]
    rfl
  rw [if_neg hslash]
  by_cases hn : c = '\n'
  · rw [if_pos hn, hn]
    rfl
  rw [if_neg hn]
  by_cases hr : c = '\r'
  · rw [if_pos hr, hr]
    rfl
  rw [if_neg hr]
  by_cases ht : c = '\t'
  · rw [if_pos ht, ht]
    rfl
  rw [if_neg ht]
  by_cases hf : c = '\x0c'
  · rw [if_pos hf, hf]
    rfl
  rw [if_neg hf]
  by_cases hb : c = '\x08'
  · rw [if_pos hb, hb]
    rfl
  rw [if_neg hb]
  by_cases hcontrol : c.toNat < 0x20
  · rw [if_pos hcontrol]
    -- the four digits of the escape have the code as their value
    have hunit : hex4 '0' '0' (hexDigit (c.toNat / 16)) (hexDigit (c.toNat % 16)) =
        some c.toNat := by
      have hzero : hexDigit? '0' = some 0 := rfl
      simp only [hex4, hzero, hexDigit?_hexDigit (show c.toNat / 16 < 16 by omega),
        hexDigit?_hexDigit (show c.toNat % 16 < 16 by omega), Option.bind_eq_bind,
        Option.bind_some, Option.pure_def, Option.some.injEq]
      omega
    have hchar : unescape c.toNat = some c := by
      unfold unescape
      rw [if_pos (.inl (by omega)), Char.ofNat_toNat]
    simp only [List.cons_append, List.nil_append, scanChar, hunit, hchar, Option.bind_eq_bind,
      Option.bind_some, Option.pure_def]
  · rw [if_neg hcontrol]
    show scanChar (c :: rest) = some (c, rest)
    unfold scanChar
    split <;> simp_all

/-- No written character begins with a quotation mark. -/
theorem head_escapeChar (c : Char) (rest : List Char) :
    (escapeChar c ++ rest).head? ≠ some '"' := by
  intro h
  obtain ⟨tail, htail⟩ : ∃ tail, escapeChar c ++ rest = '"' :: tail := by
    cases hlist : escapeChar c ++ rest with
    | nil => rw [hlist] at h; cases h
    | cons d tail => rw [hlist] at h; cases h; exact ⟨tail, rfl⟩
  exact escapeChar_append_ne c rest tail htail

/-- A written string is read back. -/
theorem scanString_escaped (s tail : List Char) (fuel : ℕ) (hfuel : s.length < fuel) :
    scanString fuel (s.flatMap escapeChar ++ '"' :: tail) = some (s, tail) := by
  induction s generalizing fuel with
  | nil =>
    obtain ⟨fuel, rfl⟩ : ∃ k, fuel = k + 1 := ⟨fuel - 1, by simp at hfuel; omega⟩
    rfl
  | cons c s ih =>
    rw [List.length_cons] at hfuel
    obtain ⟨fuel, rfl⟩ : ∃ k, fuel = k + 1 := ⟨fuel - 1, by omega⟩
    have hrest := ih fuel (by omega)
    rw [List.flatMap_cons, List.append_assoc]
    simp only [scanString, if_neg (head_escapeChar c _), scanChar_escapeChar, hrest,
      Option.bind_eq_bind, Option.bind_some, Option.pure_def]

end Library.JsonText
