import ScopeScript.Number.Shortest
import ScopeScript.Text.Blank

/-!
Contract: numbers of the language as text, in both directions.

Owns: `read?`, which accepts a sign, the words for infinity and not-a-number in
any case, and decimal numbers; and `display`, which writes the shortest decimal
without an exponent.
-/

set_option autoImplicit false

namespace ScopeScript.Number

/-- The double with a given sign and magnitude. -/
def ofMagnitude (negative : Bool) (magnitude : Nat) : Float :=
  Float.ofBits (UInt64.ofNat (if negative then signBit + magnitude else magnitude))

/-- The magnitude of a double. -/
def magnitude (number : Float) : Nat :=
  number.toBits.toNat % signBit

/-- Whether the sign of a double is set. -/
def isNegative (number : Float) : Bool :=
  signBit ≤ number.toBits.toNat

/-- Any magnitude above infinity stands for not-a-number; this is the usual
one. -/
def notANumberMagnitude : Nat := infinityMagnitude + binade / 2

/-- Reads a number without its sign, as a magnitude. -/
def readMagnitude? (chars : List Char) : Option Nat :=
  if Text.spells chars "inf" || Text.spells chars "infinity" then some infinityMagnitude
  else if Text.spells chars "nan" then some notANumberMagnitude
  else (Decimal.read? chars).map Decimal.magnitude

/-- Reads a number with an optional sign.  White space is not allowed. -/
def readChars? : List Char → Option Float
  | '-' :: rest => (readMagnitude? rest).map (ofMagnitude true)
  | '+' :: rest => (readMagnitude? rest).map (ofMagnitude false)
  | chars => (readMagnitude? chars).map (ofMagnitude false)

/-- Reads the text of a number. -/
def read? (text : String) : Option Float :=
  readChars? text.toList

/-- The text of a magnitude. -/
def displayMagnitude (magnitude : Nat) : List Char :=
  if magnitude = infinityMagnitude then "inf".toList
  else (shortest magnitude).positional

/-- The text of a number.  Negative zero keeps its sign and not-a-number has
none. -/
def display (number : Float) : String :=
  if infinityMagnitude < magnitude number then "NaN"
  else
    let chars := displayMagnitude (magnitude number)
    String.ofList (if isNegative number then '-' :: chars else chars)

end ScopeScript.Number
