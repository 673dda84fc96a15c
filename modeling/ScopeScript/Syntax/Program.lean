import ScopeScript.Syntax.Tree

/-!
Contract: programs whose expressions are kept in one table.

Owns: the nodes of the table, `Program`, how many nodes there may be, storing trees
into a table in post-order, and unfolding a table back into trees.

A node refers to its operands by their positions.  A table may be written by
hand, so a position can point anywhere: unfolding fails at a position outside the
table and on a table that goes round in a circle.
-/

set_option autoImplicit false

namespace ScopeScript

/-- A position in the table of nodes. -/
abbrev ExprId := Nat

/-- One expression, with its operands given by position. -/
inductive Node where
  | number (value : Float)
  | text (value : String)
  | ident (name : String)
  | call (callee : String) (args : List ExprId)
  | binary (op : BinaryOp) (left right : ExprId)
deriving DecidableEq, Repr

/-- The positions that a node refers to. -/
def Node.children : Node → List ExprId
  | .number _ | .text _ | .ident _ => []
  | .call _ args => args
  | .binary _ left right => [left, right]

/-- A program: its table of nodes and its top-level statements. -/
structure Program where
  nodes : Array Node
  body : List (Stmt ExprId)
deriving Repr

/-- Positions of nodes are below this bound. -/
def Program.capacity : Nat := Nat.pow 2 32

/-! ## Storing trees -/

/-- Adds one node at the end of a table. -/
def storeNode (node : Node) (nodes : Array Node) : ExprId × Array Node :=
  (nodes.size, nodes.push node)

mutual

/-- Stores an expression after its operands and returns its position. -/
def Expr.store : Expr → Array Node → ExprId × Array Node
  | .number value, nodes => storeNode (.number value) nodes
  | .text value, nodes => storeNode (.text value) nodes
  | .ident name, nodes => storeNode (.ident name) nodes
  | .call callee args, nodes =>
      let (ids, nodes) := Expr.storeAll args nodes
      storeNode (.call callee ids) nodes
  | .binary op left right, nodes =>
      let (leftId, nodes) := left.store nodes
      let (rightId, nodes) := right.store nodes
      storeNode (.binary op leftId rightId) nodes

/-- Stores expressions from left to right. -/
def Expr.storeAll : List Expr → Array Node → List ExprId × Array Node
  | [], nodes => ([], nodes)
  | expr :: rest, nodes =>
      let (id, nodes) := expr.store nodes
      let (ids, nodes) := Expr.storeAll rest nodes
      (id :: ids, nodes)

end

mutual

/-- Stores the expressions of a statement in the order of the source. -/
def Stmt.store : Stmt Expr → Array Node → Stmt ExprId × Array Node
  | .letBind name value, nodes =>
      let (id, nodes) := value.store nodes
      (.letBind name id, nodes)
  | .fnDef name params body, nodes =>
      let (body, nodes) := Stmt.storeAll body nodes
      (.fnDef name params body, nodes)
  | .ret value, nodes =>
      let (id, nodes) := value.store nodes
      (.ret id, nodes)
  | .expr value, nodes =>
      let (id, nodes) := value.store nodes
      (.expr id, nodes)

/-- Stores statements in order. -/
def Stmt.storeAll : List (Stmt Expr) → Array Node → List (Stmt ExprId) × Array Node
  | [], nodes => ([], nodes)
  | stmt :: rest, nodes =>
      let (stmt, nodes) := stmt.store nodes
      let (rest, nodes) := Stmt.storeAll rest nodes
      (stmt :: rest, nodes)

end

/-- The program of a list of statement trees. -/
def Program.ofTrees (trees : List (Stmt Expr)) : Program :=
  let (body, nodes) := Stmt.storeAll trees #[]
  { nodes, body }

/-! ## Unfolding into trees -/

/-- The tree at a position, if it has at most `depth` levels. -/
def unfoldExpr? (nodes : Array Node) : Nat → ExprId → Option Expr
  | 0, _ => none
  | depth + 1, id =>
      match nodes[id]? with
      | none => none
      | some (.number value) => some (.number value)
      | some (.text value) => some (.text value)
      | some (.ident name) => some (.ident name)
      | some (.call callee args) =>
          (args.mapM (unfoldExpr? nodes depth)).map (.call callee)
      | some (.binary op left right) => do
          let left ← unfoldExpr? nodes depth left
          let right ← unfoldExpr? nodes depth right
          some (.binary op left right)

mutual

/-- The tree of a statement. -/
def Stmt.tree? (nodes : Array Node) : Stmt ExprId → Option (Stmt Expr)
  | .letBind name value => (unfoldExpr? nodes nodes.size value).map (.letBind name)
  | .fnDef name params body => (Stmt.trees? nodes body).map (.fnDef name params)
  | .ret value => (unfoldExpr? nodes nodes.size value).map .ret
  | .expr value => (unfoldExpr? nodes nodes.size value).map .expr

/-- The trees of statements. -/
def Stmt.trees? (nodes : Array Node) : List (Stmt ExprId) → Option (List (Stmt Expr))
  | [] => some []
  | stmt :: rest => do
      let stmt ← stmt.tree? nodes
      let rest ← Stmt.trees? nodes rest
      some (stmt :: rest)

end

/-- The statement trees of a program.  A tree has no path longer than the table,
so the size of the table is depth enough. -/
def Program.trees? (program : Program) : Option (List (Stmt Expr)) :=
  Stmt.trees? program.nodes program.body

end ScopeScript
