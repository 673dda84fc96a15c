import ScopeScript.Proofs.Correspondence
import ScopeScript.Proofs.Exhaustion
import ScopeScript.Proofs.TreeOutlines

/-!
Contract: what a program does depends on its trees and not on the table that holds them.

Owns: positions of two tables that hold the same tree, the trees of a well-formed program,
and the theorem on two programs with the same trees.

A table may hold a tree once or several times, next to nodes that no statement refers to,
and in any order that puts operands first.  Positions with the same tree correspond, so two
runs match as long as both are given the same bound on nesting.  The programs' own bounds
differ, but neither run comes to its bound.
-/

set_option autoImplicit false

namespace ScopeScript

/-! ## Unfolding -/

theorem mapM_eq_some {ids : List ExprId} {trees : List Expr} {unfold : ExprId → Option Expr}
    (unfolded : ids.mapM unfold = some trees) :
    List.Forall₂ (fun id tree => unfold id = some tree) ids trees := by
  induction ids generalizing trees with
  | nil =>
      cases unfolded
      exact .nil
  | cons id rest inductionHypothesis =>
      rw [List.mapM_cons] at unfolded
      obtain ⟨head, headUnfolds, unfolded⟩ := Option.bind_eq_some_iff.mp unfolded
      obtain ⟨tail, tailUnfolds, unfolded⟩ := Option.bind_eq_some_iff.mp unfolded
      cases unfolded
      exact .cons headUnfolds (inductionHypothesis tailUnfolds)

/-- The tree of a node, given those of its operands. -/
inductive Node.Unfolds (unfold : ExprId → Option Expr) : Node → Expr → Prop where
  | number (value : Float) : Node.Unfolds unfold (.number value) (.number value)
  | text (value : String) : Node.Unfolds unfold (.text value) (.text value)
  | ident (name : String) : Node.Unfolds unfold (.ident name) (.ident name)
  | call (callee : String) {args : List ExprId} {trees : List Expr}
      (operands : List.Forall₂ (fun id tree => unfold id = some tree) args trees) :
      Node.Unfolds unfold (.call callee args) (.call callee trees)
  | binary (op : BinaryOp) {left right : ExprId} {leftTree rightTree : Expr}
      (first : unfold left = some leftTree) (second : unfold right = some rightTree) :
      Node.Unfolds unfold (.binary op left right) (.binary op leftTree rightTree)

theorem unfoldExpr?_eq_some {nodes : Array Node} {depth : Nat} {id : ExprId} {tree : Expr}
    (unfolded : unfoldExpr? nodes depth id = some tree) :
    ∃ smaller node, nodes[id]? = some node ∧ node.Unfolds (unfoldExpr? nodes smaller) tree := by
  cases depth with
  | zero => cases unfolded
  | succ smaller =>
      rw [unfoldExpr?] at unfolded
      cases here : nodes[id]? with
      | none =>
          rw [here] at unfolded
          cases unfolded
      | some node =>
          rw [here] at unfolded
          refine ⟨smaller, node, rfl, ?_⟩
          cases node with
          | number value =>
              cases unfolded
              exact .number value
          | text value =>
              cases unfolded
              exact .text value
          | ident name =>
              cases unfolded
              exact .ident name
          | call callee args =>
              obtain ⟨trees, operands, rfl⟩ := Option.map_eq_some_iff.mp unfolded
              exact .call callee (mapM_eq_some operands)
          | binary op left right =>
              obtain ⟨leftTree, first, unfolded⟩ := Option.bind_eq_some_iff.mp unfolded
              obtain ⟨rightTree, second, unfolded⟩ := Option.bind_eq_some_iff.mp unfolded
              cases unfolded
              exact .binary op first second

/-! ## Positions with the same tree -/

/-- The tables hold the same tree at the two positions. -/
def SameTree (first second : Array Node) (id other : ExprId) : Prop :=
  ∃ depth otherDepth tree, unfoldExpr? first depth id = some tree ∧
    unfoldExpr? second otherDepth other = some tree

theorem forall₂_sameTree {first second : Array Node} {depth otherDepth : Nat}
    {args others : List ExprId} {trees : List Expr}
    (operands : List.Forall₂ (fun id tree => unfoldExpr? first depth id = some tree) args trees)
    (otherOperands : List.Forall₂ (fun id tree => unfoldExpr? second otherDepth id = some tree)
      others trees) : List.Forall₂ (SameTree first second) args others := by
  induction operands generalizing others with
  | nil =>
      cases otherOperands
      exact .nil
  | cons head tail inductionHypothesis =>
      cases otherOperands with
      | cons otherHead otherTail =>
          exact .cons ⟨depth, otherDepth, _, head, otherHead⟩ (inductionHypothesis otherTail)

theorem tables_sameTree (first second : Array Node) :
    (alikeCode (SameTree first second)).Tables first second := by
  intro id other ⟨depth, otherDepth, tree, unfolded, otherUnfolded⟩
  obtain ⟨smaller, node, here, unfolds⟩ := unfoldExpr?_eq_some unfolded
  obtain ⟨otherSmaller, otherNode, otherHere, otherUnfolds⟩ := unfoldExpr?_eq_some otherUnfolded
  rw [here, otherHere]
  refine .some ⟨trivial, ?_⟩
  cases unfolds with
  | number value =>
      cases otherUnfolds
      exact .number value
  | text value =>
      cases otherUnfolds
      exact .text value
  | ident name =>
      cases otherUnfolds
      exact .ident rfl
  | call callee operands =>
      cases otherUnfolds with
      | call _ otherOperands => exact .call rfl (forall₂_sameTree operands otherOperands)
  | binary op left right =>
      cases otherUnfolds with
      | binary _ otherLeft otherRight =>
          exact .binary op ⟨smaller, otherSmaller, _, left, otherLeft⟩
            ⟨smaller, otherSmaller, _, right, otherRight⟩

theorem stmtTrees?_cons_eq_some {nodes : Array Node} {stmt : Stmt ExprId}
    {rest : List (Stmt ExprId)} {trees : List (Stmt Expr)}
    (unfolded : Stmt.trees? nodes (stmt :: rest) = some trees) :
    ∃ tree others, trees = tree :: others ∧ Stmt.tree? nodes stmt = some tree ∧
      Stmt.trees? nodes rest = some others := by
  rw [Stmt.trees?] at unfolded
  obtain ⟨tree, head, unfolded⟩ := Option.bind_eq_some_iff.mp unfolded
  obtain ⟨others, tail, unfolded⟩ := Option.bind_eq_some_iff.mp unfolded
  cases unfolded
  exact ⟨tree, others, rfl, head, tail⟩

mutual

theorem alike_of_tree? {first second : Array Node} :
    ∀ {stmt other : Stmt ExprId} {tree : Stmt Expr}, Stmt.tree? first stmt = some tree →
      Stmt.tree? second other = some tree → stmt.Alike (SameTree first second) other
  | .letBind name value, other, _, unfolded, otherUnfolded => by
      obtain ⟨tree, value, rfl⟩ := Option.map_eq_some_iff.mp unfolded
      cases other <;>
        obtain ⟨otherTree, otherValue, same⟩ := Option.map_eq_some_iff.mp otherUnfolded <;>
        cases same
      exact .letBind name ⟨_, _, tree, value, otherValue⟩
  | .fnDef name params body, other, _, unfolded, otherUnfolded => by
      obtain ⟨trees, bodies, rfl⟩ := Option.map_eq_some_iff.mp unfolded
      cases other <;>
        obtain ⟨otherTree, otherBodies, same⟩ := Option.map_eq_some_iff.mp otherUnfolded <;>
        cases same
      exact .fnDef name params (alike_of_trees? bodies otherBodies)
  | .ret value, other, _, unfolded, otherUnfolded => by
      obtain ⟨tree, value, rfl⟩ := Option.map_eq_some_iff.mp unfolded
      cases other <;>
        obtain ⟨otherTree, otherValue, same⟩ := Option.map_eq_some_iff.mp otherUnfolded <;>
        cases same
      exact .ret ⟨_, _, tree, value, otherValue⟩
  | .expr value, other, _, unfolded, otherUnfolded => by
      obtain ⟨tree, value, rfl⟩ := Option.map_eq_some_iff.mp unfolded
      cases other <;>
        obtain ⟨otherTree, otherValue, same⟩ := Option.map_eq_some_iff.mp otherUnfolded <;>
        cases same
      exact .expr ⟨_, _, tree, value, otherValue⟩

theorem alike_of_trees? {first second : Array Node} :
    ∀ {stmts others : List (Stmt ExprId)} {trees : List (Stmt Expr)},
      Stmt.trees? first stmts = some trees → Stmt.trees? second others = some trees →
      List.Forall₂ (Stmt.Alike (SameTree first second)) stmts others
  | [], others, _, unfolded, otherUnfolded => by
      cases unfolded
      cases others with
      | nil => exact .nil
      | cons other others =>
          obtain ⟨tree, trees, same, _⟩ := stmtTrees?_cons_eq_some otherUnfolded
          cases same
  | stmt :: rest, others, _, unfolded, otherUnfolded => by
      obtain ⟨tree, trees, rfl, head, tail⟩ := stmtTrees?_cons_eq_some unfolded
      cases others with
      | nil => cases otherUnfolded
      | cons other others =>
          obtain ⟨_, _, same, otherHead, otherTail⟩ := stmtTrees?_cons_eq_some otherUnfolded
          cases same
          exact .cons (alike_of_tree? head otherHead) (alike_of_trees? tail otherTail)

end

/-! ## Trees of a well-formed program -/

theorem exists_mapM {ids : List ExprId} {unfold : ExprId → Option Expr}
    (all : ∀ id ∈ ids, ∃ tree, unfold id = some tree) : ∃ trees, ids.mapM unfold = some trees := by
  induction ids with
  | nil => exact ⟨[], rfl⟩
  | cons id rest inductionHypothesis =>
      rw [List.forall_mem_cons] at all
      obtain ⟨⟨tree, head⟩, others⟩ := all
      obtain ⟨trees, tail⟩ := inductionHypothesis others
      exact ⟨tree :: trees, by simp [head, tail]⟩

theorem exists_exprTree {nodes : Array Node} (descending : Storage.Descending nodes)
    {depth : Nat} {id : ExprId} (inside : id < nodes.size) (enough : id < depth) :
    ∃ tree, unfoldExpr? nodes depth id = some tree := by
  induction depth generalizing id with
  | zero => exact absurd enough (Nat.not_lt_zero id)
  | succ depth inductionHypothesis =>
      have here : nodes[id]? = some nodes[id] := Array.getElem?_eq_getElem inside
      have operand : ∀ child ∈ nodes[id].children,
          ∃ tree, unfoldExpr? nodes depth child = some tree := by
        intro child member
        have older := descending id nodes[id] here child member
        exact inductionHypothesis (Nat.lt_trans older inside)
          (Nat.lt_of_lt_of_le older (Nat.le_of_lt_succ enough))
      rw [unfoldExpr?, here]
      generalize nodes[id] = node at operand
      cases node with
      | number value => exact ⟨_, rfl⟩
      | text value => exact ⟨_, rfl⟩
      | ident name => exact ⟨_, rfl⟩
      | call callee args =>
          have operands : ∀ child ∈ args, ∃ tree, unfoldExpr? nodes depth child = some tree :=
            operand
          obtain ⟨trees, unfolded⟩ := exists_mapM operands
          exact ⟨.call callee trees, by simp [unfolded]⟩
      | binary op left right =>
          obtain ⟨leftTree, leftUnfolds⟩ := operand left (by simp [Node.children])
          obtain ⟨rightTree, rightUnfolds⟩ := operand right (by simp [Node.children])
          exact ⟨.binary op leftTree rightTree, by simp [leftUnfolds, rightUnfolds]⟩

mutual

theorem exists_stmtTree {nodes : Array Node} (descending : Storage.Descending nodes) :
    ∀ stmt : Stmt ExprId, (∀ id ∈ stmt.roots, id < nodes.size) →
      ∃ tree, Stmt.tree? nodes stmt = some tree
  | .letBind name value, inside => by
      have valueInside := inside value (by simp [Stmt.roots])
      obtain ⟨tree, unfolded⟩ := exists_exprTree descending valueInside valueInside
      exact ⟨.letBind name tree, by simp [Stmt.tree?, unfolded]⟩
  | .fnDef name params body, inside => by
      rw [Stmt.roots] at inside
      obtain ⟨trees, unfolded⟩ := exists_stmtTrees descending body inside
      exact ⟨.fnDef name params trees, by simp [Stmt.tree?, unfolded]⟩
  | .ret value, inside => by
      have valueInside := inside value (by simp [Stmt.roots])
      obtain ⟨tree, unfolded⟩ := exists_exprTree descending valueInside valueInside
      exact ⟨.ret tree, by simp [Stmt.tree?, unfolded]⟩
  | .expr value, inside => by
      have valueInside := inside value (by simp [Stmt.roots])
      obtain ⟨tree, unfolded⟩ := exists_exprTree descending valueInside valueInside
      exact ⟨.expr tree, by simp [Stmt.tree?, unfolded]⟩

theorem exists_stmtTrees {nodes : Array Node} (descending : Storage.Descending nodes) :
    ∀ stmts : List (Stmt ExprId), (∀ id ∈ Stmt.rootsAll stmts, id < nodes.size) →
      ∃ trees, Stmt.trees? nodes stmts = some trees
  | [], _ => ⟨[], rfl⟩
  | stmt :: rest, inside => by
      obtain ⟨tree, head⟩ := exists_stmtTree descending stmt fun id member =>
        inside id (by simp [Stmt.rootsAll, member])
      obtain ⟨trees, tail⟩ := exists_stmtTrees descending rest fun id member =>
        inside id (by simp [Stmt.rootsAll, member])
      exact ⟨tree :: trees, by simp [Stmt.trees?, head, tail]⟩

end

/-- Whether a table is well formed is seen node by node. -/
theorem Storage.descending_iff (nodes : Array Node) :
    Storage.Descending nodes ↔
      ∀ id : Fin nodes.size, ∀ child ∈ nodes[id].children, child < id.val := by
  constructor
  · intro descending id
    exact descending id.val nodes[id] (Array.getElem?_eq_getElem id.isLt)
  · intro each id node here
    obtain ⟨inside, rfl⟩ := Array.getElem?_eq_some_iff.mp here
    exact each ⟨id, inside⟩

instance (nodes : Array Node) : Decidable (Storage.Descending nodes) :=
  decidable_of_iff _ (Storage.descending_iff nodes).symm

instance (program : Program) : Decidable program.WellFormed :=
  decidable_of_iff (Storage.Descending program.nodes ∧
      ∀ id ∈ Stmt.rootsAll program.body, id < program.nodes.size)
    ⟨fun ⟨nodes, body⟩ => ⟨nodes, body⟩, fun formed => ⟨formed.nodes, formed.body⟩⟩

theorem Program.WellFormed.exists_trees {program : Program} (wellFormed : program.WellFormed) :
    ∃ trees, program.trees? = some trees :=
  exists_stmtTrees wellFormed.nodes program.body wellFormed.body

/-! ## Runs of two programs -/

/-- Programs with the same trees have matching runs under one bound on nesting. -/
theorem Program.matches_execUpTo {first second : Program} {trees : List (Stmt Expr)}
    (firstTrees : first.trees? = some trees) (secondTrees : second.trees? = some trees)
    (settings : Settings) (bound : Nat) :
    Eval.Matches (SameTree first.nodes second.nodes) (first.execUpTo settings bound)
      (second.execUpTo settings bound) := by
  rw [← first.host_execUpTo, ← second.host_execUpTo]
  exact (Eval.lockstep_matches _ settings).exec (tables_sameTree first.nodes second.nodes) bound
    (blocks_alikeCode (alike_of_trees? firstTrees secondTrees))

/-- The variables of the top level. -/
def Machine.rootVars? (machine : Machine) : Option (Table Value) :=
  machine.environment.frames[Environment.root]?.map Frame.vars

theorem Machine.Alike.rootVars?_eq {related : ExprId → ExprId → Prop} {first second : Machine}
    (alike : first.Alike related second) : first.rootVars? = second.rootVars? := by
  have root := alike.environment.frames Environment.root
  unfold Machine.rootVars?
  generalize first.environment.frames[Environment.root]? = entry at root
  generalize second.environment.frames[Environment.root]? = other at root
  cases root with
  | some frames => simp [frames.vars]
  | none => rfl

/-- Two well-formed programs with the same trees have the same outline, and under all
settings their runs end in the same way, with the same error and backtrace if with any,
after the same output and with the same variables at the top level. -/
theorem same_trees_run_alike {first second : Program} (firstFormed : first.WellFormed)
    (secondFormed : second.WellFormed) (sameTrees : first.trees? = second.trees?)
    (settings : Settings) (output : String) :
    (∃ outline, first.outline? = some outline ∧ second.outline? = some outline) ∧
      Eval.halt? (first.run settings output) = Eval.halt? (second.run settings output) ∧
      Eval.halt? (first.run settings output) ≠ some .exhausted ∧
      (Eval.lastMachine (first.run settings output)).output =
        (Eval.lastMachine (second.run settings output)).output ∧
      (Eval.lastMachine (first.run settings output)).rootVars? =
        (Eval.lastMachine (second.run settings output)).rootVars? := by
  obtain ⟨trees, firstTrees⟩ := firstFormed.exists_trees
  have secondTrees : second.trees? = some trees := sameTrees.symm.trans firstTrees
  have notExhausted : Eval.halt? (first.run settings output) ≠ some .exhausted := fun halted =>
    firstFormed.not_exhausted settings output ⟨_, Eval.eq_error_of_halt? halted⟩
  have outlines : ∃ outline, first.outline? = some outline ∧ second.outline? = some outline := by
    rw [first.outline?_eq, second.outline?_eq, firstTrees, secondTrees]
    exact ⟨_, rfl, rfl⟩
  refine ⟨outlines, ?_⟩
  -- Each program has a bound of its own; the larger one serves both.
  have firstEnough := Nat.le_max_left first.nesting second.nesting
  have secondEnough := Nat.le_max_right first.nesting second.nesting
  have results := Program.matches_execUpTo firstTrees secondTrees settings
    (max first.nesting second.nesting) _ _
    (Machine.Alike.initial _ settings.callLimit output)
  rw [← firstFormed.run_eq settings output firstEnough,
    ← secondFormed.run_eq settings output secondEnough] at results
  generalize first.run settings output = firstResult at results notExhausted
  generalize second.run settings output = secondResult at results
  cases results with
  | ok value machines => exact ⟨rfl, notExhausted, machines.output, machines.rootVars?_eq⟩
  | error halt machines => exact ⟨rfl, notExhausted, machines.output, machines.rootVars?_eq⟩

/-- A table with a node that is used twice, a node that is not used, and the argument of the
call after the body of the function. -/
theorem shared_nodes_run_alike :
    let first := Program.ofTrees
      [.fnDef "twice" ["a"] [.ret (.binary .add (.ident "a") (.ident "a"))],
      .letBind "x" (.call "twice" [.text "s"]), .expr (.call "print" [.ident "x", .ident "x"])]
    let second : Program :=
      { nodes := #[.text "s", .text "unused", .ident "x", .ident "a", .binary .add 3 3,
          .call "print" [2, 2], .call "twice" [0]]
        body := [.fnDef "twice" ["a"] [.ret 4], .letBind "x" 6, .expr 5] }
    first.nodes ≠ second.nodes ∧
      Eval.halt? (first.run Settings.default "") = Eval.halt? (second.run Settings.default "") ∧
      (Eval.lastMachine (first.run Settings.default "")).output =
        (Eval.lastMachine (second.run Settings.default "")).output ∧
      (Eval.lastMachine (second.run Settings.default "")).output = "ss ss\n" := by
  intro first second
  have firstFormed : first.WellFormed := Program.wellFormed_ofTrees _
  have secondFormed : second.WellFormed := by decide
  have sameTrees : first.trees? = second.trees? := rfl
  obtain ⟨_, halts, _, outputs, _⟩ :=
    same_trees_run_alike firstFormed secondFormed sameTrees Settings.default ""
  exact ⟨by decide, halts, outputs, by decide +kernel⟩

end ScopeScript
