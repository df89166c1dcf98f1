import JiraSimulator.Domain.DeterministicRng
import JiraSimulator.Library.JsonText

/-!
# Canonical JSON

`canonical_json.py` encodes a value with `json.dumps` and names the encoding `RFC8785_JSON_V1`.  The
encoding of RFC 8785 itself stands beside it.
-/

namespace JiraSimulator

open Library.DecimalText Library.JsonText

/-- The code points of a string, by which Python compares strings. -/
def codePoints (s : String) : List ℤ :=
  s.toList.map fun c => (c.toNat : ℤ)

/-- The UTF-16 code units of a character. -/
def utf16Units (c : Char) : List ℤ :=
  if c.toNat < 0x10000 then [(c.toNat : ℤ)]
  else [((0xD800 + (c.toNat - 0x10000) / 0x400 : ℕ) : ℤ),
    ((0xDC00 + (c.toNat - 0x10000) % 0x400 : ℕ) : ℤ)]

/-- The UTF-16 code units of a string, by which RFC 8785 sorts the keys of an object. -/
def utf16CodeUnits (s : String) : List ℤ :=
  s.toList.flatMap utf16Units

/-- `json.dumps` with `ensure_ascii=False`, `separators=(",", ":")` and `sort_keys=True`. -/
def jsonDumps : Style where
  int := pythonInteger
  float := pythonFloat
  key := codePoints

/-- `canonical_json`. -/
def canonicalJson (value : JsonValue) : String :=
  String.ofList (jsonDumps.text value)

/-- `canonical_sha256`. -/
def canonicalSha256 (value : JsonValue) : Sha256 :=
  { document := canonicalJson value }

/-- The choices of RFC 8785: numbers as ECMAScript writes them, and the keys of an object in the
order of their code units. -/
def jsonCanonicalizationScheme : Style where
  int := ecmaInteger
  float := ecmaFloat
  key := utf16CodeUnits

/-- The encoding of RFC 8785. -/
def rfc8785 (value : JsonValue) : String :=
  String.ofList (jsonCanonicalizationScheme.text value)

end JiraSimulator
