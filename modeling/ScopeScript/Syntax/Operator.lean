import ScopeScript.Token.Basic

/-!
Contract: the binary operators.

Owns: the operators, their symbols, which token begins which operator, and how
tightly each one binds.  All of them associate to the left.
-/

set_option autoImplicit false

namespace ScopeScript

/-- A binary operator. -/
inductive BinaryOp where
  | add
  | subtract
  | multiply
  | divide
  | assign
deriving DecidableEq, Repr

namespace BinaryOp

/-- The operator that a token of this kind stands for. -/
def ofKind? : TokenKind → Option BinaryOp
  | .plus => some add
  | .minus => some subtract
  | .star => some multiply
  | .slash => some divide
  | .equal => some assign
  | _ => none

/-- An operator of greater precedence binds more tightly. -/
def precedence : BinaryOp → Nat
  | multiply | divide => 20
  | add | subtract => 10
  | assign => 1

/-- The symbol of an operator. -/
def symbol : BinaryOp → String
  | add => "+"
  | subtract => "-"
  | multiply => "*"
  | divide => "/"
  | assign => "="

end BinaryOp

end ScopeScript
