import ScopeScript.Syntax.Operator

/-!
Contract: programs as trees.

Owns: expressions, statements over any representation of expressions, and
function definitions.

`Stmt` takes the type of its expressions as a parameter because a program has two
forms with the same statements: one holds expression trees, the other holds
positions in a table of nodes (`ScopeScript.Syntax.Program`).
-/

set_option autoImplicit false

namespace ScopeScript

/-- An expression. -/
inductive Expr where
  | number (value : Float)
  | text (value : String)
  | ident (name : String)
  | call (callee : String) (args : List Expr)
  | binary (op : BinaryOp) (left right : Expr)
deriving Repr

/-- A statement whose expressions are of type `ε`. -/
inductive Stmt (ε : Type) where
  | letBind (name : String) (value : ε)
  | fnDef (name : String) (params : List String) (body : List (Stmt ε))
  | ret (value : ε)
  | expr (value : ε)
deriving Repr

/-- A function definition. -/
structure FnDef (ε : Type) where
  name : String
  params : List String
  body : List (Stmt ε)
deriving Repr

end ScopeScript
