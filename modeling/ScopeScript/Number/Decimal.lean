import ScopeScript.Number.Binary64

/-!
Contract: decimal numbers, their texts and the doubles nearest to them.

Owns: the type `Decimal`, its positional text, the reader of decimal text with
an optional fraction and exponent, and rounding to the nearest magnitude.

Does not own: signs and the words for infinity and not-a-number; those belong
to `ScopeScript.Number.Text`.
-/

set_option autoImplicit false

namespace ScopeScript.Number

/-- The number `digits * 10 ^ exponent`. -/
structure Decimal where
  digits : Nat
  exponent : Int
deriving DecidableEq, Repr

/-- The double nearest to a decimal number, as a magnitude. -/
def Decimal.magnitude (decimal : Decimal) : Nat :=
  nearestMagnitude (decimal.digits * Nat.pow 10 decimal.exponent.toNat)
    (Nat.pow 10 (-decimal.exponent).toNat)

/-- The decimal text without an exponent.  A number that is not whole has at
least one digit on each side of the point. -/
def Decimal.positional (decimal : Decimal) : List Char :=
  let digits := Nat.toDigits 10 decimal.digits
  if 0 ≤ decimal.exponent then
    digits ++ List.replicate decimal.exponent.toNat '0'
  else
    let places := (-decimal.exponent).toNat
    if digits.length ≤ places then
      '0' :: '.' :: List.replicate (places - digits.length) '0' ++ digits
    else
      digits.take (digits.length - places) ++ '.' :: digits.drop (digits.length - places)

/-- The value of a sequence of decimal digits. -/
def digitsValue (chars : List Char) : Nat :=
  chars.foldl (fun value char => 10 * value + (char.toNat - 48)) 0

/-- Once the value of an exponent has come to this bound, its further digits are
dropped: no double is that large or that small. -/
def exponentBound : Nat := 65536

/-- The value of an exponent's digits, as far as they matter. -/
def exponentValue (chars : List Char) : Nat :=
  chars.foldl
    (fun value char =>
      if value < exponentBound then 10 * value + (char.toNat - 48) else value) 0

/-- Reads the digits of an exponent, which must be all that is left. -/
def readExponentDigits? (chars : List Char) : Option Nat :=
  if chars.isEmpty || !chars.all Char.isDigit then none
  else some (exponentValue chars)

/-- Reads what follows the mark of an exponent: an optional sign and digits. -/
def readSignedExponent? : List Char → Option Int
  | '-' :: rest => (readExponentDigits? rest).map fun value => -(value : Int)
  | '+' :: rest => (readExponentDigits? rest).map fun value => (value : Int)
  | chars => (readExponentDigits? chars).map fun value => (value : Int)

/-- Reads what follows the digits of a number: nothing, or an exponent. -/
def readExponent? : List Char → Option Int
  | [] => some 0
  | mark :: rest => if mark = 'e' ∨ mark = 'E' then readSignedExponent? rest else none

/-- The digits after a point and what follows them; no digits if there is no
point. -/
def splitFraction : List Char → List Char × List Char
  | '.' :: rest => (rest.takeWhile Char.isDigit, rest.dropWhile Char.isDigit)
  | chars => ([], chars)

/-- Reads an unsigned decimal number.  Digits may be missing on one side of the
point, not on both. -/
def Decimal.read? (chars : List Char) : Option Decimal :=
  let whole := chars.takeWhile Char.isDigit
  let (fraction, rest) := splitFraction (chars.dropWhile Char.isDigit)
  if whole.isEmpty && fraction.isEmpty then none
  else (readExponent? rest).map fun exponent =>
    { digits := digitsValue (whole ++ fraction)
      exponent := exponent - (fraction.length : Int) }

end ScopeScript.Number
