import ScopeScript.Eval.Error

/-!
Contract: binary operators on values.

Owns: `BinaryOp.apply`.  Numbers follow IEEE 754, texts can be joined by `+`, and
nothing is converted.
-/

set_option autoImplicit false

namespace ScopeScript

/-- The arithmetic of an operator, if it has one. -/
def BinaryOp.arithmetic? : BinaryOp → Option (Float → Float → Float)
  | .add => some fun left right => left + right
  | .subtract => some fun left right => left - right
  | .multiply => some fun left right => left * right
  | .divide => some fun left right => left / right
  | .assign => none

/-- Applies an operator to two values.  Assignment is refused whatever its
operands are. -/
def BinaryOp.apply (op : BinaryOp) (left right : Value) : Except Cause Value :=
  match op.arithmetic? with
  | none => .error .assignmentInExpression
  | some arithmetic =>
      match left, right with
      | .number a, .number b => .ok (.number (arithmetic a b))
      | .text a, .text b =>
          if op = .add then .ok (.text (a ++ b))
          else .error (.invalidOperands op .text .text)
      | _, _ => .error (.invalidOperands op left.type right.type)

end ScopeScript
