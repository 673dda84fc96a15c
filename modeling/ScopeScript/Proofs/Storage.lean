import ScopeScript.Syntax.Program

/-!
Contract: tables of nodes that hold trees.

Owns: well-formed programs, the definitions that a program contains, what storing
a tree does to a table, and two facts about every program that is made from trees:
it is well formed, and unfolding it gives the trees back.

A table is well formed when every node refers to earlier nodes only.  Positions
therefore bound the depth of unfolding, so no measure of trees is needed here.
-/

set_option autoImplicit false

namespace ScopeScript

/-! ## Well-formed programs -/

mutual

/-- The expressions of a statement in the order of the source, those of nested
definitions included. -/
def Stmt.roots {ε : Type} : Stmt ε → List ε
  | .letBind _ value => [value]
  | .fnDef _ _ body => Stmt.rootsAll body
  | .ret value => [value]
  | .expr value => [value]

/-- The expressions of statements in the order of the source. -/
def Stmt.rootsAll {ε : Type} : List (Stmt ε) → List ε
  | [] => []
  | stmt :: rest => stmt.roots ++ Stmt.rootsAll rest

end

namespace Storage

/-- Every node of a table refers to earlier nodes only. -/
def Descending (nodes : Array Node) : Prop :=
  ∀ (id : ExprId) (node : Node), nodes[id]? = some node → ∀ child ∈ node.children, child < id

/-- Every node of the first table stands at its position in the second. -/
def Extends (before after : Array Node) : Prop :=
  ∀ (id : ExprId) (node : Node), before[id]? = some node → after[id]? = some node

end Storage

/-- Every position in a statement is in the table, and every node refers to
earlier ones. -/
structure Program.WellFormed (program : Program) : Prop where
  nodes : Storage.Descending program.nodes
  body : ∀ id ∈ Stmt.rootsAll program.body, id < program.nodes.size

/-- The statement stands in the block or in the body of a definition in it, at
any depth. -/
inductive Stmt.Within {ε : Type} (stmt : Stmt ε) : List (Stmt ε) → Prop where
  | here {block : List (Stmt ε)} (member : stmt ∈ block) : Stmt.Within stmt block
  | inside {block body : List (Stmt ε)} {name : String} {params : List String}
      (definition : Stmt.fnDef name params body ∈ block) (within : Stmt.Within stmt body) :
      Stmt.Within stmt block

/-- The definition is one of the program's, at any depth. -/
def Program.Defines (program : Program) (definition : FnDef ExprId) : Prop :=
  Stmt.Within (.fnDef definition.name definition.params definition.body) program.body

theorem Stmt.rootsAll_append {ε : Type} (first second : List (Stmt ε)) :
    Stmt.rootsAll (first ++ second) = Stmt.rootsAll first ++ Stmt.rootsAll second := by
  induction first with
  | nil => rfl
  | cons stmt rest inductionHypothesis =>
      rw [List.cons_append, Stmt.rootsAll, Stmt.rootsAll, inductionHypothesis, List.append_assoc]

theorem Stmt.mem_rootsAll_of_mem {ε : Type} {stmt : Stmt ε} {block : List (Stmt ε)} {value : ε}
    (member : stmt ∈ block) (root : value ∈ stmt.roots) : value ∈ Stmt.rootsAll block := by
  induction block with
  | nil => cases member
  | cons head rest inductionHypothesis =>
      rw [Stmt.rootsAll, List.mem_append]
      rcases List.mem_cons.mp member with rfl | later
      · exact .inl root
      · exact .inr (inductionHypothesis later)

theorem Stmt.Within.mem_rootsAll {ε : Type} {stmt : Stmt ε} {block : List (Stmt ε)} {value : ε}
    (within : stmt.Within block) (root : value ∈ stmt.roots) : value ∈ Stmt.rootsAll block := by
  induction within with
  | here member => exact Stmt.mem_rootsAll_of_mem member root
  | @inside block body name params definition within inductionHypothesis =>
      apply Stmt.mem_rootsAll_of_mem definition
      rw [Stmt.roots]
      exact inductionHypothesis

/-- The definitions of a well-formed program stay inside its table. -/
theorem Program.WellFormed.definition {program : Program} (wellFormed : program.WellFormed)
    {definition : FnDef ExprId} (defines : program.Defines definition) :
    ∀ id ∈ Stmt.rootsAll definition.body, id < program.nodes.size := by
  intro id member
  apply wellFormed.body
  apply defines.mem_rootsAll
  rw [Stmt.roots]
  exact member

namespace Storage

/-! ## Tables that grow -/

theorem Extends.refl (nodes : Array Node) : Extends nodes nodes :=
  fun _ _ here => here

theorem Extends.trans {first second third : Array Node} (left : Extends first second)
    (right : Extends second third) : Extends first third :=
  fun id node here => right id node (left id node here)

theorem Extends.size_le {before after : Array Node} (extension : Extends before after) :
    before.size ≤ after.size := by
  cases size : before.size with
  | zero => exact Nat.zero_le _
  | succ last =>
      have inside : last < before.size := by omega
      have here := extension last before[last] (Array.getElem?_eq_getElem inside)
      exact (Array.getElem?_eq_some_iff.mp here).1

theorem extends_push (nodes : Array Node) (node : Node) : Extends nodes (nodes.push node) := by
  intro id old here
  have inside := (Array.getElem?_eq_some_iff.mp here).1
  rw [Array.getElem?_push, if_neg (Nat.ne_of_lt inside), here]

theorem descending_push {nodes : Array Node} {node : Node} (descending : Descending nodes)
    (children : ∀ child ∈ node.children, child < nodes.size) : Descending (nodes.push node) := by
  intro id found here
  rw [Array.getElem?_push] at here
  split at here
  · rename_i last
    cases here
    rw [last]
    exact children
  · exact descending id found here

/-! ## Storing expressions -/

theorem store_call (callee : String) (args : List Expr) (nodes : Array Node) :
    (Expr.call callee args).store nodes =
      storeNode (.call callee (Expr.storeAll args nodes).1) (Expr.storeAll args nodes).2 := rfl

theorem store_binary (op : BinaryOp) (left right : Expr) (nodes : Array Node) :
    (Expr.binary op left right).store nodes =
      storeNode (.binary op (left.store nodes).1 (right.store (left.store nodes).2).1)
        (right.store (left.store nodes).2).2 := rfl

theorem storeAll_cons (expr : Expr) (rest : List Expr) (nodes : Array Node) :
    Expr.storeAll (expr :: rest) nodes =
      ((expr.store nodes).1 :: (Expr.storeAll rest (expr.store nodes).2).1,
        (Expr.storeAll rest (expr.store nodes).2).2) := rfl

/-- What storing an expression at the end of a table does: the table grows, stays
well formed, and holds the expression at the position returned. -/
structure StoresExpr (expr : Expr) (before : Array Node) (id : ExprId) (after : Array Node) :
    Prop where
  size : after.size = id + 1
  extension : Extends before after
  descending : Descending before → Descending after
  unfolds : ∀ (table : Array Node) (depth : Nat), Extends after table → id < depth →
    unfoldExpr? table depth id = some expr

theorem StoresExpr.inside {expr : Expr} {before after : Array Node} {id : ExprId}
    (stores : StoresExpr expr before id after) : id < after.size :=
  Nat.lt_of_lt_of_eq (Nat.lt_succ_self id) stores.size.symm

/-- The same for expressions stored one after the other. -/
structure StoresExprs (exprs : List Expr) (before : Array Node) (ids : List ExprId)
    (after : Array Node) : Prop where
  inside : ∀ id ∈ ids, id < after.size
  extension : Extends before after
  descending : Descending before → Descending after
  unfolds : ∀ (table : Array Node) (depth : Nat), Extends after table → after.size ≤ depth →
    ids.mapM (unfoldExpr? table depth) = some exprs

/-- Storing one node after its operands. -/
theorem storesExpr_push {expr : Expr} {before operands : Array Node} {node : Node}
    (extension : Extends before operands) (descending : Descending before → Descending operands)
    (children : ∀ child ∈ node.children, child < operands.size)
    (unfolds : ∀ (table : Array Node) (depth : Nat), Extends operands table →
      table[operands.size]? = some node → operands.size ≤ depth →
      unfoldExpr? table (depth + 1) operands.size = some expr) :
    StoresExpr expr before (storeNode node operands).1 (storeNode node operands).2 where
  size := by simp [storeNode]
  extension := extension.trans (extends_push operands node)
  descending well := descending_push (descending well) children
  unfolds table depth later below := by
    obtain ⟨depth, rfl⟩ := Nat.exists_eq_add_one_of_ne_zero (Nat.ne_of_gt (Nat.zero_lt_of_lt below))
    apply unfolds table depth ((extends_push operands node).trans later)
    · exact later operands.size node (by simp [storeNode])
    · exact Nat.le_of_lt_succ below

theorem storesExpr_leaf {expr : Expr} {node : Node} (before : Array Node)
    (childless : node.children = [])
    (unfolds : ∀ (table : Array Node) (depth : Nat), table[before.size]? = some node →
      unfoldExpr? table (depth + 1) before.size = some expr) :
    StoresExpr expr before (storeNode node before).1 (storeNode node before).2 :=
  storesExpr_push (Extends.refl before) id (by simp [childless])
    fun table depth _ here _ => unfolds table depth here

mutual

theorem storesExpr_store : ∀ (expr : Expr) (before : Array Node),
    StoresExpr expr before (expr.store before).1 (expr.store before).2
  | .number value, before => by
      rw [Expr.store]
      exact storesExpr_leaf before rfl fun table depth here => by simp [unfoldExpr?, here]
  | .text value, before => by
      rw [Expr.store]
      exact storesExpr_leaf before rfl fun table depth here => by simp [unfoldExpr?, here]
  | .ident name, before => by
      rw [Expr.store]
      exact storesExpr_leaf before rfl fun table depth here => by simp [unfoldExpr?, here]
  | .call callee args, before => by
      have stored := storesExprs_storeAll args before
      rw [store_call]
      refine storesExpr_push stored.extension stored.descending stored.inside ?_
      intro table depth later here enough
      simp [unfoldExpr?, here, stored.unfolds table depth later enough]
  | .binary op left right, before => by
      have first := storesExpr_store left before
      have second := storesExpr_store right (left.store before).2
      have leftInside := Nat.lt_of_lt_of_le first.inside second.extension.size_le
      rw [store_binary]
      refine storesExpr_push (first.extension.trans second.extension)
        (fun well => second.descending (first.descending well)) ?_ ?_
      · intro child member
        simp only [Node.children, List.mem_cons, List.not_mem_nil, or_false] at member
        rcases member with rfl | rfl
        · exact leftInside
        · exact second.inside
      · intro table depth later here enough
        have leftTree := first.unfolds table depth (second.extension.trans later)
          (Nat.lt_of_lt_of_le leftInside enough)
        have rightTree := second.unfolds table depth later
          (Nat.lt_of_lt_of_le second.inside enough)
        simp [unfoldExpr?, here, leftTree, rightTree]

theorem storesExprs_storeAll : ∀ (exprs : List Expr) (before : Array Node),
    StoresExprs exprs before (Expr.storeAll exprs before).1 (Expr.storeAll exprs before).2
  | [], before => by
      rw [Expr.storeAll]
      exact ⟨by simp, Extends.refl before, id, by simp⟩
  | expr :: rest, before => by
      have first := storesExpr_store expr before
      have second := storesExprs_storeAll rest (expr.store before).2
      have headInside := Nat.lt_of_lt_of_le first.inside second.extension.size_le
      rw [storeAll_cons]
      refine ⟨?_, first.extension.trans second.extension,
        fun well => second.descending (first.descending well), ?_⟩
      · intro id member
        rcases List.mem_cons.mp member with rfl | later
        · exact headInside
        · exact second.inside id later
      · intro table depth later enough
        have head := first.unfolds table depth (second.extension.trans later)
          (Nat.lt_of_lt_of_le headInside enough)
        have tail := second.unfolds table depth later enough
        simp [head, tail]

end

/-! ## Storing statements -/

theorem stmtStore_letBind (name : String) (value : Expr) (nodes : Array Node) :
    (Stmt.letBind name value).store nodes =
      (.letBind name (value.store nodes).1, (value.store nodes).2) := rfl

theorem stmtStore_fnDef (name : String) (params : List String) (body : List (Stmt Expr))
    (nodes : Array Node) :
    (Stmt.fnDef name params body).store nodes =
      (.fnDef name params (Stmt.storeAll body nodes).1, (Stmt.storeAll body nodes).2) := rfl

theorem stmtStore_ret (value : Expr) (nodes : Array Node) :
    (Stmt.ret value).store nodes = (.ret (value.store nodes).1, (value.store nodes).2) := rfl

theorem stmtStore_expr (value : Expr) (nodes : Array Node) :
    (Stmt.expr value).store nodes = (.expr (value.store nodes).1, (value.store nodes).2) := rfl

theorem stmtStoreAll_cons (stmt : Stmt Expr) (rest : List (Stmt Expr)) (nodes : Array Node) :
    Stmt.storeAll (stmt :: rest) nodes =
      ((stmt.store nodes).1 :: (Stmt.storeAll rest (stmt.store nodes).2).1,
        (Stmt.storeAll rest (stmt.store nodes).2).2) := rfl

/-- What storing the expressions of a statement does, given the positions that the
stored statement refers to and how it unfolds. -/
structure StoresRoots (before after : Array Node) (roots : List ExprId)
    (unfolds : Array Node → Prop) : Prop where
  inside : ∀ id ∈ roots, id < after.size
  extension : Extends before after
  descending : Descending before → Descending after
  unfolds : ∀ table : Array Node, Extends after table → unfolds table

/-- A statement with one expression. -/
theorem storesRoots_value (value : Expr) (before : Array Node) (stmt : Expr → Stmt Expr) :
    StoresRoots before (value.store before).2 [(value.store before).1] fun table =>
      (unfoldExpr? table table.size (value.store before).1).map stmt = some (stmt value) where
  inside id member := by
    rw [List.mem_singleton.mp member]
    exact (storesExpr_store value before).inside
  extension := (storesExpr_store value before).extension
  descending := (storesExpr_store value before).descending
  unfolds table later := by
    have stored := storesExpr_store value before
    have below := Nat.lt_of_lt_of_le stored.inside later.size_le
    rw [stored.unfolds table table.size later below]
    rfl

mutual

theorem storesRoots_store : ∀ (stmt : Stmt Expr) (before : Array Node),
    StoresRoots before (stmt.store before).2 (stmt.store before).1.roots fun table =>
      Stmt.tree? table (stmt.store before).1 = some stmt
  | .letBind name value, before => by
      rw [stmtStore_letBind]
      exact storesRoots_value value before (.letBind name)
  | .fnDef name params body, before => by
      have stored := storesRoots_storeAll body before
      rw [stmtStore_fnDef]
      refine ⟨?_, stored.extension, stored.descending, ?_⟩
      · rw [Stmt.roots]
        exact stored.inside
      · intro table later
        rw [Stmt.tree?, stored.unfolds table later]
        rfl
  | .ret value, before => by
      rw [stmtStore_ret]
      exact storesRoots_value value before .ret
  | .expr value, before => by
      rw [stmtStore_expr]
      exact storesRoots_value value before .expr

theorem storesRoots_storeAll : ∀ (stmts : List (Stmt Expr)) (before : Array Node),
    StoresRoots before (Stmt.storeAll stmts before).2
      (Stmt.rootsAll (Stmt.storeAll stmts before).1) fun table =>
      Stmt.trees? table (Stmt.storeAll stmts before).1 = some stmts
  | [], before => by
      rw [Stmt.storeAll]
      exact ⟨by simp [Stmt.rootsAll], Extends.refl before, id, fun _ _ => rfl⟩
  | stmt :: rest, before => by
      have first := storesRoots_store stmt before
      have second := storesRoots_storeAll rest (stmt.store before).2
      rw [stmtStoreAll_cons]
      refine ⟨?_, first.extension.trans second.extension,
        fun well => second.descending (first.descending well), ?_⟩
      · intro id member
        rw [Stmt.rootsAll, List.mem_append] at member
        rcases member with head | tail
        · exact Nat.lt_of_lt_of_le (first.inside id head) second.extension.size_le
        · exact second.inside id tail
      · intro table later
        have head := first.unfolds table (second.extension.trans later)
        have tail := second.unfolds table later
        simp [Stmt.trees?, head, tail]

end

end Storage

/-! ## Programs made from trees -/

theorem Program.wellFormed_ofTrees (trees : List (Stmt Expr)) :
    (Program.ofTrees trees).WellFormed := by
  have stored := Storage.storesRoots_storeAll trees #[]
  refine ⟨stored.descending ?_, stored.inside⟩
  intro id node here
  simp at here

/-- Unfolding a program gives back the trees that it was made from. -/
theorem Program.trees?_ofTrees (trees : List (Stmt Expr)) :
    (Program.ofTrees trees).trees? = some trees :=
  (Storage.storesRoots_storeAll trees #[]).unfolds _ (Storage.Extends.refl _)

end ScopeScript
