import ScopeScript.Text.Invisible

/-!
Contract: quoted forms of characters and texts for messages and listings.

Owns: the escape of one character inside a pair of quotes, and the two quoted
forms built from it, `quoteChar` in single quotes and `quoteString` in double
quotes.

A quoted form never contains a line break, and the quote that delimits it
occurs inside only behind a backslash.
-/

set_option autoImplicit false

namespace ScopeScript.Text

/-- The escape by number: `\u` and the code point in lowercase hexadecimal
digits between braces. -/
def codePointEscape (char : Char) : List Char :=
  ['\\', 'u', '\x7b'] ++ Nat.toDigits 16 char.toNat ++ ['\x7d']

/-- How one character is written between two copies of `quote`.  Only the
delimiting quote is escaped; the other kind of quote stands for itself. -/
def escapeChar (quote char : Char) : List Char :=
  if char = '\t' then ['\\', 't']
  else if char = '\n' then ['\\', 'n']
  else if char = '\r' then ['\\', 'r']
  else if char = '\x00' then ['\\', '0']
  else if char = '\\' then ['\\', '\\']
  else if char = quote then ['\\', quote]
  else if isInvisible char then codePointEscape char
  else [char]

/-- A sequence of characters between two copies of `quote`. -/
def quoted (quote : Char) (chars : List Char) : List Char :=
  quote :: chars.flatMap (escapeChar quote) ++ [quote]

/-- One character in single quotes. -/
def quoteChar (char : Char) : String :=
  String.ofList (quoted '\'' [char])

/-- A text in double quotes. -/
def quoteString (text : String) : String :=
  String.ofList (quoted '"' text.toList)

end ScopeScript.Text
