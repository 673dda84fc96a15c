/-!
Contract: the finite double-precision numbers as multiples of one smallest
unit, and rounding of a ratio to the nearest of them.

Owns: rounding a quotient to the nearest natural number, the number of units of
a magnitude, and the magnitude nearest to a ratio.

A *magnitude* is the bit pattern of a double without its sign, read as a natural
number.  Every finite magnitude is a whole number of units of `2 ^ -1074`, and
the order of magnitudes is the order of their values.  So nothing here needs an
exponent that can be negative.
-/

set_option autoImplicit false

namespace ScopeScript.Number

/-- A unit is `2 ^ -1074`, the smallest positive double. -/
def unitExponent : Nat := 1074

/-- Bits of the fraction field. -/
def fractionBits : Nat := 52

/-- The number of magnitudes that share one exponent. -/
def binade : Nat := Nat.pow 2 fractionBits

/-- The magnitude of infinity.  Larger magnitudes are not numbers. -/
def infinityMagnitude : Nat := 0x7ff * binade

/-- The bit that makes a double negative. -/
def signBit : Nat := Nat.pow 2 63

/-- The quotient rounded to the nearest natural number, a half to the even
neighbour. -/
def roundHalfEven (numerator denominator : Nat) : Nat :=
  let quotient := numerator / denominator
  let twiceRest := 2 * (numerator % denominator)
  if twiceRest < denominator then quotient
  else if denominator < twiceRest then quotient + 1
  else quotient + quotient % 2

/-- How many units a finite magnitude is worth.  In the first binade the pattern
counts units itself; from there on the leading digit is implied and the exponent
field shifts the count. -/
def units (magnitude : Nat) : Nat :=
  let field := magnitude / binade
  if field = 0 then magnitude
  else (binade + magnitude % binade) * Nat.pow 2 (field - 1)

/-- The magnitude nearest to a ratio, a half to the even pattern.  A ratio that
rounds past the largest finite double gives infinity. -/
def nearestMagnitude (numerator denominator : Nat) : Nat :=
  let scaled := numerator * Nat.pow 2 unitExponent
  let shift := (scaled / denominator).log2 - fractionBits
  min (shift * binade + roundHalfEven scaled (denominator * Nat.pow 2 shift)) infinityMagnitude

end ScopeScript.Number
