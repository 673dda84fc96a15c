import ScopeScript.Number.Decimal

/-!
Contract: the shortest decimal that reads back as a given double.

Owns: the search over decimal grids from coarse to fine.  On each grid only the
two neighbours of the number are tried, the nearer one first and the upper one
first at equal distance.

The test is reading itself, so whatever the search returns reads back.  If no
grid in its range has a hit, the exact decimal value is taken, which reads back
as well.
-/

set_option autoImplicit false

namespace ScopeScript.Number

/-- The decimal point next to a magnitude on the grid of step `10 ^ exponent`
that reads back as the magnitude, if one of its two neighbours does. -/
def neighbour? (magnitude : Nat) (exponent : Int) : Option Decimal :=
  let numerator := units magnitude * Nat.pow 10 (-exponent).toNat
  let denominator := Nat.pow 2 unitExponent * Nat.pow 10 exponent.toNat
  let below := numerator / denominator
  let candidates :=
    if 2 * (numerator % denominator) < denominator then [below, below + 1]
    else [below + 1, below]
  (candidates.map fun digits => { digits, exponent : Decimal }).find?
    fun decimal => decimal.magnitude == magnitude

/-- The first grid with a hit, going from `10 ^ exponent` to finer ones. -/
def coarsest? (magnitude : Nat) : Nat → Int → Option Decimal
  | 0, _ => none
  | grids + 1, exponent =>
      (neighbour? magnitude exponent).or (coarsest? magnitude grids (exponent - 1))

/-- The exact decimal value of a finite magnitude. -/
def exactDecimal (magnitude : Nat) : Decimal where
  digits := units magnitude * Nat.pow 5 unitExponent
  exponent := -(unitExponent : Int)

/-- A power of ten above a finite magnitude, from the length of its count of
units in binary. -/
def exponentAbove (magnitude : Nat) : Int :=
  (((units magnitude).log2 : Int) + 1 - (unitExponent : Int)) * 30103 / 100000 + 1

/-- Grids to try: seventeen digits always suffice, and the first few grids may be
coarser than the number itself. -/
def gridCount : Nat := 20

/-- The shortest decimal that reads back as a finite magnitude. -/
def shortest (magnitude : Nat) : Decimal :=
  if magnitude = 0 then { digits := 0, exponent := 0 }
  else (coarsest? magnitude gridCount (exponentAbove magnitude)).getD (exactDecimal magnitude)

end ScopeScript.Number
