import ScopeScript.Syntax.Program
import ScopeScript.Number.Text
import ScopeScript.Text.Quoted

/-!
Contract: a program written as an indented outline.

Owns: the line of each statement and node, the walk over the table that writes the lines,
and the text of the whole outline.  Every statement and every expression has one line,
followed by the lines of its parts one level deeper.

The walk fails where unfolding does: at a position outside the table, and on a table that
goes round in a circle.
-/

set_option autoImplicit false

namespace ScopeScript

/-- A line of an outline and its level. -/
structure OutlineLine where
  level : Nat
  text : String
deriving DecidableEq, Repr

/-- The line of a node. -/
def Node.label : Node → String
  | .number value => "number " ++ Number.display value
  | .text value => "string " ++ Text.quoteString value
  | .ident name => "ident " ++ name
  | .call callee _ => "call " ++ callee
  | .binary op _ _ => "binary " ++ op.symbol

/-- The line of a statement. -/
def Stmt.label {ε : Type} : Stmt ε → String
  | .letBind name _ => "let " ++ name
  | .fnDef name params _ => "fn " ++ name ++ "(" ++ ", ".intercalate params ++ ")"
  | .ret _ => "return"
  | .expr _ => "expr"

namespace Outline

/-- Writes the lines of the expression at a position after those written so far, if it has
at most `depth` levels. -/
def writeExpr? (nodes : Array Node) :
    Nat → Nat → ExprId → Array OutlineLine → Option (Array OutlineLine)
  | 0, _, _, _ => none
  | depth + 1, level, id, lines =>
      match nodes[id]? with
      | none => none
      | some node =>
          node.children.foldlM (fun lines child => writeExpr? nodes depth (level + 1) child lines)
            (lines.push ⟨level, node.label⟩)

mutual

/-- Writes the lines of a statement after those written so far. -/
def writeStmt? (nodes : Array Node) (level : Nat) :
    Stmt ExprId → Array OutlineLine → Option (Array OutlineLine)
  | stmt@(.fnDef _ _ body), lines =>
      writeBlock? nodes (level + 1) body (lines.push ⟨level, stmt.label⟩)
  | stmt@(.letBind _ value), lines | stmt@(.ret value), lines | stmt@(.expr value), lines =>
      writeExpr? nodes nodes.size (level + 1) value (lines.push ⟨level, stmt.label⟩)

/-- Writes the lines of statements in order. -/
def writeBlock? (nodes : Array Node) (level : Nat) :
    List (Stmt ExprId) → Array OutlineLine → Option (Array OutlineLine)
  | [], lines => some lines
  | stmt :: rest, lines => do
      let lines ← writeStmt? nodes level stmt lines
      writeBlock? nodes level rest lines

end

/-- A line with its indentation, two spaces a level, and its line break. -/
def lineText (line : OutlineLine) : String :=
  String.ofList (List.replicate (2 * line.level) ' ') ++ line.text ++ "\n"

/-- The text of an outline. -/
def render (lines : List OutlineLine) : String :=
  lines.foldl (fun text line => text ++ lineText line) ""

end Outline

/-- The outline of a program, if all its expressions can be walked. -/
def Program.outline? (program : Program) : Option String :=
  (Outline.writeBlock? program.nodes 0 program.body #[]).map fun lines =>
    Outline.render lines.toList

end ScopeScript
