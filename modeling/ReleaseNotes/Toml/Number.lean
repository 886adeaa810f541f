import ReleaseNotes.Toml.Scan
import ReleaseNotes.Toml.Value

/-!
# Numerals

Whole numbers in four bases, and floating point numbers.

Digits may be grouped by single underscores, each with a digit on both sides.
A decimal numeral may have a sign, and no zero may stand before its other
digits; the parts of a fraction and of an exponent are free of that rule. The
other bases have a lower-case mark in front, take no sign, and may start with
zeros.

A whole number has to fit 64 bits with a sign. A numeral for a floating point
number is rounded to the nearest one; a positive numeral too large for the
format is refused, a negative one is read as infinite.

## Main definitions

* `digits`: A run of digits, perhaps grouped.
* `integer`: A whole number.
* `float`: A floating point number.
-/

namespace ReleaseNotes

namespace Toml

/-- Every underscore stands between two digits. -/
def isGrouped : List Char → Bool
  | [] => false
  | ['_'] => false
  | [_] => true
  | '_' :: _ => false
  | _ :: '_' :: rest => isGrouped rest
  | _ :: rest => isGrouped rest

/-- Digits of a class, perhaps grouped, without the underscores. -/
def digits (belongs : Char → Bool) : Scan (List Char) := do
  let found ← run fun c => belongs c || c == '_'
  guard (isGrouped found)
  return found.filter (· != '_')

/-- Decimal digits, perhaps grouped, with no zero before the others. -/
def decimalDigits : Scan (List Char) := do
  let found ← digits Char.isDigit
  guard (found.length == 1 || found.head? != some '0')
  return found

/-- A sign, if there is one. The answer is whether it is a minus. -/
def sign : Scan Bool :=
  (exactly '-' *> pure true) <|> (exactly '+' *> pure false) <|> pure false

/-- A number and its sign, if 64 bits can hold it. -/
def signed (negative : Bool) (size : Nat) : Scan Value := do
  let value : Int := if negative then -size else size
  guard (-0x8000000000000000 ≤ value && value < 0x8000000000000000)
  return .integer value

/-- A whole number with a mark for its base in front. -/
def basedInteger (mark : String) (base : Nat) (belongs : Char → Bool) : Scan Value := do
  literal mark
  signed false (numberOf base (← digits belongs))

/-- A whole number in base ten. -/
def decimalInteger : Scan Value := do
  let negative ← sign
  signed negative (numberOf 10 (← decimalDigits))

/-- A whole number. -/
def integer : Scan Value :=
  basedInteger "0x" 16 isHexDigit <|>
    basedInteger "0o" 8 (fun c => '0' ≤ c && c ≤ '7') <|>
    basedInteger "0b" 2 (fun c => c == '0' || c == '1') <|>
    decimalInteger

/-- The digits behind a point. -/
def fraction : Scan (List Char) := do
  exactly '.'
  digits Char.isDigit

/-- The power of ten behind its letter. -/
def exponent : Scan Int := do
  exactly 'e' <|> exactly 'E'
  let negative ← sign
  let size := numberOf 10 (← digits Char.isDigit)
  return if negative then -size else size

/-- A floating point number with a fraction, an exponent, or both. -/
def decimalFloat : Scan Value := do
  let negative ← sign
  let whole ← decimalDigits
  let behind ← fraction <|> pure []
  let power ← exponent <|> (guard (!behind.isEmpty) *> pure 0)
  let value := Binary64.ofDecimal negative (numberOf 10 (whole ++ behind))
    (power - behind.length)
  guard (value != .infinite false)
  return .float value

/-- The names of what is no number. -/
def namedFloat : Scan Value := do
  let negative ← sign
  (literal "inf" *> pure (.float (.infinite negative))) <|> (literal "nan" *> pure (.float .nan))

/-- A floating point number. -/
def float : Scan Value :=
  decimalFloat <|> namedFloat

end Toml

end ReleaseNotes
