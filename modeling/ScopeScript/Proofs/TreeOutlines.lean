import Mathlib.Data.Option.Basic
import ScopeScript.Syntax.Outline

/-!
Contract: the outline of a program is that of its trees.

Owns: the lines of statement and expression trees, what it means that a walk writes the
lines of a tree, and the theorem that the walk over the table of a program writes the lines
of the trees that the program unfolds to, and fails if it does not unfold.

The walk adds lines at the end of those written so far, while the lines of a tree are put in
front of those that follow.  `Writes` compares the two with any lines on either side.
-/

set_option autoImplicit false

namespace ScopeScript

/-! ## Lines of trees -/

/-- The line of an expression. -/
def Expr.label : Expr → String
  | .number value => "number " ++ Number.display value
  | .text value => "string " ++ Text.quoteString value
  | .ident name => "ident " ++ name
  | .call callee _ => "call " ++ callee
  | .binary op _ _ => "binary " ++ op.symbol

/-- The expressions whose lines follow that of an expression. -/
def Expr.operands : Expr → List Expr
  | .number _ | .text _ | .ident _ => []
  | .call _ args => args
  | .binary _ left right => [left, right]

namespace Outline

mutual

/-- The lines of an expression, put in front of `rest`. -/
def ofExpr (level : Nat) : Expr → List OutlineLine → List OutlineLine
  | expr@(.number _), rest | expr@(.text _), rest | expr@(.ident _), rest =>
      ⟨level, expr.label⟩ :: rest
  | expr@(.call _ args), rest => ⟨level, expr.label⟩ :: ofExprs (level + 1) args rest
  | expr@(.binary _ left right), rest =>
      ⟨level, expr.label⟩ :: ofExpr (level + 1) left (ofExpr (level + 1) right rest)

/-- The lines of expressions in order, put in front of `rest`. -/
def ofExprs (level : Nat) : List Expr → List OutlineLine → List OutlineLine
  | [], rest => rest
  | expr :: exprs, rest => ofExpr level expr (ofExprs level exprs rest)

end

mutual

/-- The lines of a statement, put in front of `rest`. -/
def ofStmt (level : Nat) : Stmt Expr → List OutlineLine → List OutlineLine
  | stmt@(.fnDef _ _ body), rest => ⟨level, stmt.label⟩ :: ofBlock (level + 1) body rest
  | stmt@(.letBind _ value), rest | stmt@(.ret value), rest | stmt@(.expr value), rest =>
      ⟨level, stmt.label⟩ :: ofExpr (level + 1) value rest

/-- The lines of statements in order, put in front of `rest`. -/
def ofBlock (level : Nat) : List (Stmt Expr) → List OutlineLine → List OutlineLine
  | [], rest => rest
  | stmt :: stmts, rest => ofStmt level stmt (ofBlock level stmts rest)

end

theorem ofExprs_eq (level : Nat) (exprs : List Expr) (rest : List OutlineLine) :
    ofExprs level exprs rest = exprs.foldr (ofExpr level) rest := by
  induction exprs with
  | nil => rfl
  | cons expr exprs inductionHypothesis =>
      rw [ofExprs, List.foldr_cons, inductionHypothesis]

theorem ofExpr_eq (level : Nat) (expr : Expr) (rest : List OutlineLine) :
    ofExpr level expr rest =
      ⟨level, expr.label⟩ :: expr.operands.foldr (ofExpr (level + 1)) rest := by
  cases expr with
  | call callee args => rw [ofExpr, ofExprs_eq]; rfl
  | _ => rfl

/-! ## Walks that write the lines of a tree -/

section Walks

variable {α β γ : Type}

/-- The walk writes the lines of the tree after any lines, and fails if there is no tree. -/
def Writes (walk : Array OutlineLine → Option (Array OutlineLine))
    (linesOf : β → List OutlineLine → List OutlineLine) (tree? : Option β) : Prop :=
  ∀ lines, Option.Rel
    (fun written tree => ∀ rest, written.toList ++ rest = lines.toList ++ linesOf tree rest)
    (walk lines) tree?

/-- One walk after the other writes the lines of the first tree in front of those of the
second. -/
theorem Writes.bind {first second : Array OutlineLine → Option (Array OutlineLine)}
    {firstLines : α → List OutlineLine → List OutlineLine}
    {secondLines : β → List OutlineLine → List OutlineLine}
    {firstTree? : Option α} {secondTree? : Option β}
    (head : Writes first firstLines firstTree?) (tail : Writes second secondLines secondTree?)
    (join : α → β → γ) {linesOf : γ → List OutlineLine → List OutlineLine}
    (joined : ∀ firstTree secondTree rest, linesOf (join firstTree secondTree) rest =
      firstLines firstTree (secondLines secondTree rest)) :
    Writes (fun lines => do second (← first lines)) linesOf do
      let firstTree ← firstTree?
      let secondTree ← secondTree?
      return join firstTree secondTree := by
  intro lines
  have written := head lines
  dsimp only
  generalize first lines = result at written
  cases written with
  | none => exact .none
  | @some between firstTree firstWritten =>
      have more := tail between
      simp only [Option.bind_eq_bind, Option.bind_some]
      generalize second between = result at more
      cases more with
      | none => exact .none
      | @some written secondTree secondWritten =>
          apply Option.Rel.some
          intro rest
          rw [secondWritten, firstWritten, joined]

/-- A line written in front. -/
theorem Writes.push {walk : Array OutlineLine → Option (Array OutlineLine)}
    {partLines linesOf : β → List OutlineLine → List OutlineLine} {tree? : Option β}
    (parts : Writes walk partLines tree?) {line : OutlineLine}
    (begins : ∀ tree ∈ tree?, ∀ rest, linesOf tree rest = line :: partLines tree rest) :
    Writes (fun lines => walk (lines.push line)) linesOf tree? := by
  intro lines
  have written := parts (lines.push line)
  dsimp only
  generalize walk (lines.push line) = result at written
  cases written with
  | none => exact .none
  | @some written tree same =>
      apply Option.Rel.some
      intro rest
      rw [same, begins tree rfl, Array.toList_push, List.append_assoc, List.singleton_append]

theorem writes_map_iff {walk : Array OutlineLine → Option (Array OutlineLine)}
    {linesOf : γ → List OutlineLine → List OutlineLine} {whole : β → γ} {tree? : Option β} :
    Writes walk linesOf (tree?.map whole) ↔
      Writes walk (fun tree => linesOf (whole tree)) tree? := by
  refine forall_congr' fun lines => ?_
  generalize walk lines = result
  cases tree? <;> cases result <;> simp

theorem writes_foldlM {walk : α → Array OutlineLine → Option (Array OutlineLine)}
    {linesOf : β → List OutlineLine → List OutlineLine} {tree? : α → Option β} {items : List α}
    (writes : ∀ item ∈ items, Writes (walk item) linesOf (tree? item)) :
    Writes (fun lines => items.foldlM (fun lines item => walk item lines) lines)
      (fun trees rest => trees.foldr linesOf rest) (items.mapM tree?) := by
  induction items with
  | nil => exact fun lines => .some fun rest => rfl
  | cons item items inductionHypothesis =>
      rw [List.forall_mem_cons] at writes
      simp only [List.foldlM_cons, List.mapM_cons]
      exact writes.1.bind (inductionHypothesis writes.2) List.cons fun _ _ _ => rfl

end Walks

/-! ## The walk over a table -/

/-- The parts of the tree at a position are the trees of the node's operands. -/
theorem map_operands_unfoldExpr? {nodes : Array Node} {id : ExprId} {node : Node}
    (here : nodes[id]? = some node) (depth : Nat) :
    (unfoldExpr? nodes (depth + 1) id).map Expr.operands =
      node.children.mapM (unfoldExpr? nodes depth) := by
  cases node with
  | call callee args =>
      rw [unfoldExpr?, here, Option.map_map]
      exact Option.map_id'
  | binary op left right =>
      simp only [unfoldExpr?, here, Node.children, List.mapM_cons, List.mapM_nil]
      cases unfoldExpr? nodes depth left <;> cases unfoldExpr? nodes depth right <;> rfl
  | _ => simp [unfoldExpr?, here, Node.children, Expr.operands]

theorem label_of_unfoldExpr? {nodes : Array Node} {id : ExprId} {node : Node} {depth : Nat}
    {tree : Expr} (here : nodes[id]? = some node)
    (unfolds : tree ∈ unfoldExpr? nodes (depth + 1) id) : tree.label = node.label := by
  rw [Option.mem_def, unfoldExpr?, here] at unfolds
  cases node with
  | call callee args =>
      obtain ⟨trees, _, rfl⟩ := Option.map_eq_some_iff.mp unfolds
      rfl
  | binary op left right =>
      obtain ⟨leftTree, _, unfolds⟩ := Option.bind_eq_some_iff.mp unfolds
      obtain ⟨rightTree, _, unfolds⟩ := Option.bind_eq_some_iff.mp unfolds
      cases unfolds
      rfl
  | _ =>
      cases unfolds
      rfl

theorem writes_writeExpr? (nodes : Array Node) (depth level : Nat) (id : ExprId) :
    Writes (writeExpr? nodes depth level id) (ofExpr level) (unfoldExpr? nodes depth id) := by
  induction depth generalizing level id with
  | zero => exact fun lines => .none
  | succ depth inductionHypothesis =>
      cases here : nodes[id]? with
      | none =>
          intro lines
          rw [writeExpr?, unfoldExpr?, here]
          exact .none
      | some node =>
          have walk : writeExpr? nodes (depth + 1) level id = fun lines =>
              node.children.foldlM (fun lines child =>
                writeExpr? nodes depth (level + 1) child lines)
                (lines.push ⟨level, node.label⟩) := by
            funext lines
            rw [writeExpr?, here]
          have parts := writes_foldlM fun child (_ : child ∈ node.children) =>
            inductionHypothesis (level + 1) child
          rw [← map_operands_unfoldExpr? here, writes_map_iff] at parts
          rw [walk]
          refine parts.push fun tree unfolds rest => ?_
          rw [ofExpr_eq, label_of_unfoldExpr? here unfolds]

mutual

theorem writes_writeStmt? (nodes : Array Node) (level : Nat) : ∀ stmt : Stmt ExprId,
    Writes (writeStmt? nodes level stmt) (ofStmt level) (stmt.tree? nodes)
  | .fnDef _ _ body =>
      writes_map_iff.mpr ((writes_writeBlock? nodes (level + 1) body).push fun _ _ _ => rfl)
  | .letBind _ value | .ret value | .expr value =>
      writes_map_iff.mpr
        ((writes_writeExpr? nodes nodes.size (level + 1) value).push fun _ _ _ => rfl)

theorem writes_writeBlock? (nodes : Array Node) (level : Nat) : ∀ stmts : List (Stmt ExprId),
    Writes (writeBlock? nodes level stmts) (ofBlock level) (Stmt.trees? nodes stmts)
  | [] => fun _ => .some fun _ => rfl
  | stmt :: rest =>
      (writes_writeStmt? nodes level stmt).bind (writes_writeBlock? nodes level rest) List.cons
        fun _ _ _ => rfl

end

end Outline

/-- The outline of a program shows the trees that its table unfolds to. -/
theorem Program.outline?_eq (program : Program) :
    program.outline? =
      program.trees?.map fun trees => Outline.render (Outline.ofBlock 0 trees []) := by
  have written := Outline.writes_writeBlock? program.nodes 0 program.body #[]
  unfold Program.outline? Program.trees?
  generalize Outline.writeBlock? program.nodes 0 program.body #[] = result at written
  generalize Stmt.trees? program.nodes program.body = trees? at written
  cases written with
  | none => rfl
  | some same =>
      have lines := same []
      rw [List.append_nil, Array.toList_empty, List.nil_append] at lines
      rw [Option.map_some, Option.map_some, lines]

end ScopeScript
