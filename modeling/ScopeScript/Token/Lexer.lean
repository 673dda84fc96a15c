import ScopeScript.Token.Basic
import ScopeScript.Text.Quoted

/-!
Contract: source text to tokens, the longest token first.

Owns: the character classes of the language, the token at the head of a text,
`tokenize`, and the error for a character where no token begins.

Main statements here: a token takes at least one character, so the lexer stops;
and the equations of `scan` at the end, at white space, at a token and where no
token begins.
-/

set_option autoImplicit false

namespace ScopeScript

/-- A character where neither white space nor a token begins, and the number of
bytes before it. -/
structure LexError where
  char : Char
  offset : Nat
deriving DecidableEq, Repr

/-- The message of a lexical error. -/
def LexError.message (error : LexError) : String :=
  "unexpected character " ++ Text.quoteChar error.char ++ " at byte " ++ error.offset.repr

namespace Lexer

/-- White space between tokens. -/
def isSpace (char : Char) : Bool :=
  char == ' ' || char == '\t' || char == '\r' || char == '\n'

/-- A character that may begin an identifier. -/
def isIdentStart (char : Char) : Bool :=
  char.isAlpha || char == '_'

/-- A character that may continue an identifier. -/
def isIdentPart (char : Char) : Bool :=
  char.isAlphanum || char == '_'

/-- A character that may stand between quotes. -/
def isQuotable (char : Char) : Bool :=
  char != '"' && char != '\n'

/-- The digits of a fraction with the point before them, and the rest.  A point
without a digit after it is no fraction. -/
def splitFraction : List Char → List Char × List Char
  | '.' :: digit :: rest =>
      if digit.isDigit then
        ('.' :: digit :: rest.takeWhile Char.isDigit, rest.dropWhile Char.isDigit)
      else ([], '.' :: digit :: rest)
  | chars => ([], chars)

/-- The number at the head of a text that begins with a digit. -/
def number (first : Char) (rest : List Char) : Token × List Char :=
  let whole := first :: rest.takeWhile Char.isDigit
  let (fraction, after) := splitFraction (rest.dropWhile Char.isDigit)
  ({ kind := .number, text := String.ofList (whole ++ fraction) }, after)

/-- The identifier at the head of a text. -/
def identifier (first : Char) (rest : List Char) : Token × List Char :=
  ({ kind := .ident, text := String.ofList (first :: rest.takeWhile isIdentPart) },
    rest.dropWhile isIdentPart)

/-- The quoted text that begins after an opening quote.  It ends at the next
quote, which must come before the end of the line. -/
def quotedText? (rest : List Char) : Option (Token × List Char) :=
  match rest.dropWhile isQuotable with
  | '"' :: after =>
      some ({ kind := .text, text := String.ofList (rest.takeWhile isQuotable) }, after)
  | _ => none

/-- The longest token that begins with `first`, and the text after it. -/
def token? (first : Char) (rest : List Char) : Option (Token × List Char) :=
  if first.isDigit then some (number first rest)
  else if isIdentStart first then some (identifier first rest)
  else if first = '"' then quotedText? rest
  else (TokenKind.ofSymbol? first).map fun kind =>
    ({ kind, text := String.ofList [first] }, rest)

theorem length_dropWhile_le (keep : Char → Bool) (chars : List Char) :
    (chars.dropWhile keep).length ≤ chars.length :=
  (List.dropWhile_sublist keep).length_le

theorem length_splitFraction_le (chars : List Char) :
    (splitFraction chars).2.length ≤ chars.length := by
  unfold splitFraction
  split
  · rename_i digit rest
    split
    · have shorter := length_dropWhile_le Char.isDigit rest
      simp only [List.length_cons]
      omega
    · exact Nat.le_refl _
  · exact Nat.le_refl _

/-- A token takes at least its first character. -/
theorem length_token?_le {first : Char} {rest after : List Char} {token : Token}
    (found : token? first rest = some (token, after)) : after.length ≤ rest.length := by
  unfold token? at found
  split at found
  · have same : after = (splitFraction (rest.dropWhile Char.isDigit)).2 := by
      simp only [number, Option.some.injEq, Prod.mk.injEq] at found
      exact found.2.symm
    have fraction := length_splitFraction_le (rest.dropWhile Char.isDigit)
    have whole := length_dropWhile_le Char.isDigit rest
    rw [same]
    omega
  · split at found
    · have same : after = rest.dropWhile isIdentPart := by
        simp only [identifier, Option.some.injEq, Prod.mk.injEq] at found
        exact found.2.symm
      rw [same]
      exact length_dropWhile_le isIdentPart rest
    · split at found
      · unfold quotedText? at found
        split at found
        · rename_i tail quote
          have shorter := length_dropWhile_le isQuotable rest
          simp only [Option.some.injEq, Prod.mk.injEq] at found
          rw [quote, List.length_cons, found.2] at shorter
          omega
        · cases found
      · obtain ⟨kind, _, same⟩ := Option.map_eq_some_iff.mp found
        simp only [Prod.mk.injEq] at same
        exact Nat.le_of_eq (congrArg List.length same.2.symm)

/-- The tokens of a text, put in front of the ones already found in reverse.  On
failure, the text from the character where no token begins. -/
def scan (found : List Token) (chars : List Char) : Except (Char × List Char) (List Token) :=
  match chars with
  | [] => .ok found.reverse
  | first :: rest =>
      if isSpace first then scan found rest
      else
        match _step : token? first rest with
        | none => .error (first, rest)
        | some (token, after) => scan (token :: found) after
termination_by chars.length
decreasing_by
  · exact Nat.lt_succ_self _
  · exact Nat.lt_succ_of_le (length_token?_le _step)

theorem scan_nil (found : List Token) : scan found [] = .ok found.reverse := by
  rw [scan]

theorem scan_space {first : Char} (found : List Token) (rest : List Char)
    (space : isSpace first = true) : scan found (first :: rest) = scan found rest := by
  rw [scan, if_pos space]

theorem scan_stuck {first : Char} {rest : List Char} (found : List Token)
    (solid : isSpace first = false) (stuck : token? first rest = none) :
    scan found (first :: rest) = .error (first, rest) := by
  rw [scan, if_neg (by simp [solid])]
  split
  · rfl
  · simp_all

theorem scan_token {first : Char} {rest after : List Char} {token : Token}
    (found : List Token) (solid : isSpace first = false)
    (taken : token? first rest = some (token, after)) :
    scan found (first :: rest) = scan (token :: found) after := by
  rw [scan, if_neg (by simp [solid])]
  split <;> simp_all

/-- The number of bytes of a text in UTF-8. -/
def byteLength (chars : List Char) : Nat :=
  chars.foldr (fun char total => char.utf8Size + total) 0

end Lexer

/-- The tokens of a source text. -/
def tokenize (source : String) : Except LexError (List Token) :=
  (Lexer.scan [] source.toList).mapError fun (char, rest) =>
    { char, offset := source.utf8ByteSize - Lexer.byteLength (char :: rest) }

end ScopeScript
