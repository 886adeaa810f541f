/-!
# Binary Floating Point

The numbers of 64-bit floating point, and the one nearest to a decimal
numeral.

Every finite number of the format is a whole multiple of `2⁻¹⁰⁷⁴`, the
smallest positive one. Counting in that unit turns the format into a set of
natural numbers: those below `2⁵³`, then every second one below `2⁵⁴`, every
fourth below `2⁵⁵`, and so on up to `2²⁰⁹⁸`. No exponent has to be kept beside
the count, and the subnormal numbers need no case of their own.

A decimal numeral is an exact fraction of that unit. Rounding it to the format
is therefore one integer division, by the spacing that the grid has there,
with a half going to the even neighbour. A numeral whose size alone decides
the answer is decided by its size, so that an exponent of a million digits is
never raised to.

## Main definitions

* `Binary64`: A number of the format, or one of its special values.
* `Binary64.spacing`: The distance of neighbours at a given size.
* `Binary64.unitsOfDecimal`: The nearest number to a decimal numeral.
* `Binary64.ofDecimal`: The same, as a number of the format.
-/

namespace ReleaseNotes

/-- A number of 64-bit floating point. A finite one is a sign and a whole
    number of units of `2⁻¹⁰⁷⁴`. -/
inductive Binary64 where
  | finite (negative : Bool) (units : Nat)
  | infinite (negative : Bool)
  | nan
deriving DecidableEq, Repr

namespace Binary64

/-- The number of binary places of a unit. -/
def places : Nat := 1074

/-- The binary logarithm of the distance between neighbours around a number
    of units. The first `2⁵³` numbers are one unit apart. -/
def spacing (units : Nat) : Nat :=
  units.log2 - 52

/-- The distance to the next larger number. -/
def gapAbove (units : Nat) : Nat :=
  Nat.pow 2 (spacing units)

/-- A quotient rounded to the nearest whole number, a half to the even one. -/
def roundQuotient (num den : Nat) : Nat :=
  let floor := num / den
  let twice := 2 * (num % den)
  if twice < den then floor
  else if den < twice then floor + 1
  else floor + floor % 2

/-- The number of units of the format that is nearest to a fraction. -/
def nearest (num den : Nat) : Nat :=
  let step := gapAbove (num / den)
  roundQuotient num (den * step) * step

/-- The number of decimal digits of a number, none for zero. -/
def digitCount (n : Nat) : Nat :=
  if n = 0 then 0 else (Nat.toDigits 10 n).length

/-- The number of units nearest to `digits · 10 ^ exponent`. A numeral of more
    than 310 places before the point is beyond the format, which is said by
    `none`; one that starts after 330 zeros is nearest to zero. -/
def unitsOfDecimal (digits : Nat) (exponent : Int) : Option Nat :=
  let size := exponent + digitCount digits
  if digits = 0 ∨ size < -330 then some 0
  else if 310 < size then none
  else
    let scaled := digits * Nat.pow 10 exponent.toNat * Nat.pow 2 places
    let units := nearest scaled (Nat.pow 10 (-exponent).toNat)
    if units < Nat.pow 2 (1024 + places) then some units else none

/-- The number nearest to a decimal numeral. A numeral beyond the format is
    read as infinite. -/
def ofDecimal (negative : Bool) (digits : Nat) (exponent : Int) : Binary64 :=
  match unitsOfDecimal digits exponent with
  | some units => .finite negative units
  | none => .infinite negative

end Binary64

end ReleaseNotes
