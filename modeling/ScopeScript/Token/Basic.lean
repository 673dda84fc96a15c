/-!
Contract: tokens of the language.

Owns: the kinds of tokens, a token with its text, the name of a kind in
messages, and the form of a token in messages.

A kind and a text are independent here.  That the lexer only makes tokens whose
text fits their kind is a fact about the lexer.
-/

set_option autoImplicit false

namespace ScopeScript

/-- The kind of a token. -/
inductive TokenKind where
  | number
  | text
  | ident
  | plus
  | minus
  | star
  | slash
  | equal
  | comma
  | leftParen
  | rightParen
  | leftBrace
  | rightBrace
  | semicolon
deriving DecidableEq, Repr

/-- A token and its text.  The text of a quoted token is what stands between the
quotes. -/
structure Token where
  kind : TokenKind
  text : String
deriving DecidableEq, Repr

namespace TokenKind

/-- The kind that a symbol makes on its own. -/
def ofSymbol? : Char → Option TokenKind
  | '+' => some plus
  | '-' => some minus
  | '*' => some star
  | '/' => some slash
  | '=' => some equal
  | ',' => some comma
  | '(' => some leftParen
  | ')' => some rightParen
  | '\x7b' => some leftBrace
  | '\x7d' => some rightBrace
  | ';' => some semicolon
  | _ => none

/-- The name of a kind in listings. -/
def name : TokenKind → String
  | number => "Number"
  | text => "String"
  | ident => "Ident"
  | plus => "Plus"
  | minus => "Minus"
  | star => "Star"
  | slash => "Slash"
  | equal => "Eq"
  | comma => "Comma"
  | leftParen => "LParen"
  | rightParen => "RParen"
  | leftBrace => "LBrace"
  | rightBrace => "RBrace"
  | semicolon => "Semicolon"

/-- What a message says when it asks for a token of this kind. -/
def describe : TokenKind → String
  | number => "a number"
  | text => "a string"
  | ident => "an identifier"
  | plus => "`+`"
  | minus => "`-`"
  | star => "`*`"
  | slash => "`/`"
  | equal => "`=`"
  | comma => "`,`"
  | leftParen => "`(`"
  | rightParen => "`)`"
  | leftBrace => "`\x7b`"
  | rightBrace => "`\x7d`"
  | semicolon => "`;`"

end TokenKind

namespace Token

/-- How a message shows a token that it found.  Nothing is escaped. -/
def display (token : Token) : String :=
  if token.kind = .text then "\"" ++ token.text ++ "\""
  else "`" ++ token.text ++ "`"

/-- Whether a token is the identifier `word`.  Keywords are identifiers that
have a meaning at the start of a statement. -/
def isWord (token : Token) (word : String) : Bool :=
  token.kind == .ident && token.text == word

end Token

end ScopeScript
