/-!
Contract: white space around a setting, and words compared without regard to
case.

Owns: the table of white-space characters, trimming at both ends, and equality
up to the case of ASCII letters.

The lexer has a smaller class of white space of its own; it is not this one.
-/

set_option autoImplicit false

namespace ScopeScript.Text

/-- A character with the Unicode property White_Space. -/
def isBlank (char : Char) : Bool :=
  let code := char.toNat
  (0x09 ≤ code && code ≤ 0x0d) || code == 0x20 || code == 0x85 || code == 0xa0
    || code == 0x1680 || (0x2000 ≤ code && code ≤ 0x200a) || code == 0x2028
    || code == 0x2029 || code == 0x202f || code == 0x205f || code == 0x3000

/-- Removes white space from the end of a sequence of characters. -/
def trimEnd (chars : List Char) : List Char :=
  (chars.reverse.dropWhile isBlank).reverse

/-- Removes white space from both ends of a sequence of characters. -/
def trim (chars : List Char) : List Char :=
  trimEnd (chars.dropWhile isBlank)

/-- Whether `chars` spells the lowercase word `word` up to the case of ASCII
letters. -/
def spells (chars : List Char) (word : String) : Bool :=
  chars.map Char.toLower == word.toList

end ScopeScript.Text
