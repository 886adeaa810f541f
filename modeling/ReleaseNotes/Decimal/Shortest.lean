import ReleaseNotes.Decimal.Binary64

/-!
# Shortest Decimals

The decimal text of a floating point number: the fewest digits that read back
to the same number, and of those the nearest to it.

A unit of `2⁻¹⁰⁷⁴` is `5¹⁰⁷⁴` units of `10⁻¹⁰⁷⁴`, so every finite number is a
whole number of the latter and has an exact decimal expansion of 1074 places.
The decimals that read back to a number are those between the midpoints to
its two neighbours. A midpoint itself reads back exactly when the number is
the even one of the pair. Below a power of two the neighbour is only half as
far away as above it.

With `n` digits the candidates are the two decimals around the number whose
digits stop at the `n`-th. The first `n` for which one of them reads back
gives the text, and seventeen digits always suffice. All of this is
comparison of natural numbers.

The layout is positional whatever the size, with at least one digit on both
sides of the point.

## Main definitions

* `Binary64.shortestDecimal`: The shortest decimal, in units of `10⁻¹⁰⁷⁴`.
* `Binary64.positional`: A decimal written with its point.
* `Binary64.text`: The text of a number.
-/

namespace ReleaseNotes

namespace Binary64

/-- A unit of `2⁻¹⁰⁷⁴`, counted in units of `10⁻¹⁰⁷⁴`. -/
def decimalUnit : Nat := Nat.pow 5 places

/-- The distance to the next smaller number of the format. -/
def gapBelow (units : Nat) : Nat :=
  if units = Nat.pow 2 units.log2 ∧ 0 < spacing units then Nat.pow 2 (spacing units - 1)
  else gapAbove units

/-- The decimal reads back to the number: it lies between the midpoints to the
    neighbours, or on one of them when the number is even. -/
def readsBack (units decimal : Nat) : Bool :=
  let low := (2 * units - gapBelow units) * decimalUnit
  let high := (2 * units + gapAbove units) * decimalUnit
  if units / gapAbove units % 2 = 0 then low ≤ 2 * decimal && 2 * decimal ≤ high
  else low < 2 * decimal && 2 * decimal < high

/-- Of the two decimals around the number whose digits stop at a given place,
    the nearer one that reads back. If both are equally near, the larger is
    tried first. -/
def candidate (units place : Nat) : Option Nat :=
  let exact := units * decimalUnit
  let below := exact / place * place
  let above := below + place
  let order := if exact - below < above - exact then [below, above] else [above, below]
  order.find? (readsBack units)

/-- The first candidate, for `count` more numbers of digits to try after
    `tried` of them have failed. -/
def shortestFrom (units length tried : Nat) : Nat → Nat
  | 0 => units * decimalUnit
  | count + 1 =>
    match candidate units (Nat.pow 10 (length - (tried + 1))) with
    | some decimal => decimal
    | none => shortestFrom units length (tried + 1) count

/-- The shortest decimal that reads back to a positive number, in units of
    `10⁻¹⁰⁷⁴`. -/
def shortestDecimal (units : Nat) : Nat :=
  shortestFrom units (digitCount (units * decimalUnit)) 0 17

/-- A decimal in units of `10⁻¹⁰⁷⁴`, written with its point and at least one
    digit on both sides of it. -/
def positional (decimal : Nat) : String :=
  let whole := Nat.toDigits 10 (decimal / Nat.pow 10 places)
  let digits := Nat.toDigits 10 (decimal % Nat.pow 10 places)
  let padded := List.replicate (places - digits.length) '0' ++ digits
  let fraction := (padded.reverse.dropWhile (· == '0')).reverse
  String.ofList (whole ++ '.' :: if fraction.isEmpty then ['0'] else fraction)

/-- The text of a number. -/
def text : Binary64 → String
  | .nan => "NaN"
  | .infinite negative => if negative then "-inf" else "inf"
  | .finite negative units =>
    let size := positional (if units = 0 then 0 else shortestDecimal units)
    if negative then "-" ++ size else size

end Binary64

end ReleaseNotes
