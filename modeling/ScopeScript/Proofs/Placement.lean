import Mathlib.Data.List.Induction
import Mathlib.Data.List.Pairwise
import ScopeScript.Proofs.FrameDiscipline
import ScopeScript.Proofs.TableParser

/-!
Contract: where the code of a program stands.

Owns: definitions nested in one another, the code that stands in a block but not in a
definition of it, the depth and the number of definitions, the uniqueness of the
definitions around an expression of a parsed program, and scopes with the names that they
bind.

Definitions are told apart by what they hold.  Two of them can be alike only if they hold
no expression, since storing a program gives every expression nodes of its own.
-/

set_option autoImplicit false

namespace ScopeScript

/-! ## Nested definitions -/

section Nesting

variable {ε : Type}

/-- The statement that makes a definition. -/
def FnDef.stmt (definition : FnDef ε) : Stmt ε :=
  .fnDef definition.name definition.params definition.body

theorem FnDef.stmt_injective {first second : FnDef ε} (same : first.stmt = second.stmt) :
    first = second := by
  cases first
  cases second
  cases same
  rfl

/-- The expression that a statement evaluates itself. -/
def Stmt.value? : Stmt ε → Option ε
  | .letBind _ value | .ret value | .expr value => some value
  | .fnDef .. => none

/-- The body of the innermost of the definitions, the innermost first, or the block if
there are none. -/
def Stmt.innermost (block : List (Stmt ε)) : List (FnDef ε) → List (Stmt ε)
  | [] => block
  | definition :: _ => definition.body

/-- Each of the definitions stands directly in the body of the next one, and the last one
directly in the block. -/
def Stmt.Nested (block : List (Stmt ε)) : List (FnDef ε) → Prop
  | [] => True
  | definition :: outer =>
      definition.stmt ∈ Stmt.innermost block outer ∧ Stmt.Nested block outer

mutual

/-- How deep definitions are nested in a statement. -/
def Stmt.levels : Stmt ε → Nat
  | .fnDef _ _ body => Stmt.levelsAll body + 1
  | .letBind .. | .ret _ | .expr _ => 0

/-- How deep definitions are nested in a block. -/
def Stmt.levelsAll : List (Stmt ε) → Nat
  | [] => 0
  | stmt :: rest => max stmt.levels (Stmt.levelsAll rest)

end

mutual

/-- The definitions of a statement, nested ones included, in the order of the source. -/
def Stmt.definitions : Stmt ε → List (FnDef ε)
  | .fnDef name params body => ⟨name, params, body⟩ :: Stmt.definitionsAll body
  | .letBind .. | .ret _ | .expr _ => []

/-- The definitions of a block, nested ones included, in the order of the source. -/
def Stmt.definitionsAll : List (Stmt ε) → List (FnDef ε)
  | [] => []
  | stmt :: rest => stmt.definitions ++ Stmt.definitionsAll rest

end

/-! ## Going in from the outermost definition -/

theorem Stmt.innermost_concat (block : List (Stmt ε)) (inner : List (FnDef ε))
    (outermost : FnDef ε) :
    Stmt.innermost block (inner ++ [outermost]) = Stmt.innermost outermost.body inner := by
  cases inner with
  | nil => rfl
  | cons definition outer => rfl

theorem Stmt.nested_concat {block : List (Stmt ε)} {inner : List (FnDef ε)}
    {outermost : FnDef ε} :
    Stmt.Nested block (inner ++ [outermost]) ↔
      outermost.stmt ∈ block ∧ Stmt.Nested outermost.body inner := by
  induction inner with
  | nil => simp [Stmt.Nested, Stmt.innermost]
  | cons definition outer inductionHypothesis =>
      rw [List.cons_append, Stmt.Nested, Stmt.Nested, inductionHypothesis,
        Stmt.innermost_concat]
      exact and_left_comm

theorem Stmt.levels_le_of_mem {block : List (Stmt ε)} {stmt : Stmt ε} (member : stmt ∈ block) :
    stmt.levels ≤ Stmt.levelsAll block := by
  induction block with
  | nil => cases member
  | cons head rest inductionHypothesis =>
      rw [Stmt.levelsAll]
      rcases List.mem_cons.mp member with rfl | later
      · exact Nat.le_max_left _ _
      · exact Nat.le_trans (inductionHypothesis later) (Nat.le_max_right _ _)

theorem Stmt.Nested.length_le_levels {block : List (Stmt ε)} {definitions : List (FnDef ε)}
    (nested : Stmt.Nested block definitions) : definitions.length ≤ Stmt.levelsAll block := by
  induction definitions using List.reverseRecOn generalizing block with
  | nil => exact Nat.zero_le _
  | append_singleton inner outermost inductionHypothesis =>
      obtain ⟨member, nestedInside⟩ := Stmt.nested_concat.mp nested
      have inside := inductionHypothesis nestedInside
      have around := Stmt.levels_le_of_mem member
      rw [FnDef.stmt, Stmt.levels] at around
      rw [List.length_append, List.length_singleton]
      omega

theorem Stmt.definitions_subset_of_mem {block : List (Stmt ε)} {stmt : Stmt ε}
    (member : stmt ∈ block) : stmt.definitions ⊆ Stmt.definitionsAll block := by
  induction block with
  | nil => cases member
  | cons head rest inductionHypothesis =>
      rw [Stmt.definitionsAll]
      rcases List.mem_cons.mp member with rfl | later
      · exact List.subset_append_left _ _
      · exact List.subset_append_of_subset_right _ (inductionHypothesis later)

/-- A nested definition is one of the definitions of the block. -/
theorem Stmt.Nested.mem_definitions {block : List (Stmt ε)} {definition : FnDef ε}
    {outer : List (FnDef ε)} (nested : Stmt.Nested block (definition :: outer)) :
    definition ∈ Stmt.definitionsAll block := by
  induction outer using List.reverseRecOn generalizing block with
  | nil =>
      apply Stmt.definitions_subset_of_mem nested.1
      rw [FnDef.stmt, Stmt.definitions]
      exact List.mem_cons_self
  | append_singleton inner outermost inductionHypothesis =>
      rw [← List.cons_append] at nested
      obtain ⟨member, nestedInside⟩ := Stmt.nested_concat.mp nested
      apply Stmt.definitions_subset_of_mem member
      rw [FnDef.stmt, Stmt.definitions]
      exact List.mem_cons_of_mem _ (inductionHypothesis nestedInside)

/-! ## Blocks whose expressions are all different -/

theorem Stmt.roots_of_value {stmt : Stmt ε} {root : ε} (value : stmt.value? = some root) :
    root ∈ stmt.roots := by
  cases stmt with
  | letBind name own | ret own | expr own =>
      cases value
      simp [Stmt.roots]
  | fnDef name params body => cases value

theorem FnDef.roots_stmt (definition : FnDef ε) :
    definition.stmt.roots = Stmt.rootsAll definition.body := by
  rw [FnDef.stmt, Stmt.roots]

theorem Stmt.roots_sublist_of_mem {block : List (Stmt ε)} {stmt : Stmt ε}
    (member : stmt ∈ block) : stmt.roots.Sublist (Stmt.rootsAll block) := by
  induction block with
  | nil => cases member
  | cons head rest inductionHypothesis =>
      rw [Stmt.rootsAll]
      rcases List.mem_cons.mp member with rfl | later
      · exact List.sublist_append_left _ _
      · exact (inductionHypothesis later).trans (List.sublist_append_right _ _)

/-- Two statements of a block do not share an expression. -/
theorem Stmt.eq_of_common_root {block : List (Stmt ε)} (distinct : (Stmt.rootsAll block).Nodup)
    {first second : Stmt ε} {root : ε} (firstMember : first ∈ block)
    (secondMember : second ∈ block) (firstRoot : root ∈ first.roots)
    (secondRoot : root ∈ second.roots) : first = second := by
  induction block with
  | nil => cases firstMember
  | cons head rest inductionHypothesis =>
      rw [Stmt.rootsAll, List.nodup_append] at distinct
      obtain ⟨_, restDistinct, disjoint⟩ := distinct
      rcases List.mem_cons.mp firstMember with rfl | firstLater
      · rcases List.mem_cons.mp secondMember with rfl | secondLater
        · rfl
        · exact absurd rfl (disjoint root firstRoot root
            (Stmt.mem_rootsAll_of_mem secondLater secondRoot))
      · rcases List.mem_cons.mp secondMember with rfl | secondLater
        · exact absurd rfl (disjoint root secondRoot root
            (Stmt.mem_rootsAll_of_mem firstLater firstRoot))
        · exact inductionHypothesis restDistinct firstLater secondLater

/-- What stands inside nested definitions stands in the block. -/
theorem Stmt.Nested.root_mem {block : List (Stmt ε)} {definitions : List (FnDef ε)}
    (nested : Stmt.Nested block definitions) {stmt : Stmt ε} {root : ε}
    (member : stmt ∈ Stmt.innermost block definitions) (isRoot : root ∈ stmt.roots) :
    root ∈ Stmt.rootsAll block := by
  induction definitions using List.reverseRecOn generalizing block with
  | nil => exact Stmt.mem_rootsAll_of_mem member isRoot
  | append_singleton inner outermost inductionHypothesis =>
      obtain ⟨outermostMember, nestedInside⟩ := Stmt.nested_concat.mp nested
      rw [Stmt.innermost_concat] at member
      apply Stmt.mem_rootsAll_of_mem outermostMember
      rw [FnDef.roots_stmt]
      exact inductionHypothesis nestedInside member

/-- A statement that evaluates an expression itself is not the statement of a definition. -/
theorem Stmt.ne_stmt_of_value {stmt : Stmt ε} {root : ε} (value : stmt.value? = some root)
    (definition : FnDef ε) : stmt ≠ definition.stmt := by
  rintro rfl
  cases value

/-- An expression has only one list of definitions around it. -/
theorem Stmt.Nested.unique {block : List (Stmt ε)} (distinct : (Stmt.rootsAll block).Nodup)
    {first second : List (FnDef ε)} (firstNested : Stmt.Nested block first)
    (secondNested : Stmt.Nested block second) {firstStmt secondStmt : Stmt ε} {root : ε}
    (firstMember : firstStmt ∈ Stmt.innermost block first)
    (secondMember : secondStmt ∈ Stmt.innermost block second)
    (firstValue : firstStmt.value? = some root) (secondValue : secondStmt.value? = some root) :
    first = second := by
  have firstRoot := Stmt.roots_of_value firstValue
  have secondRoot := Stmt.roots_of_value secondValue
  -- both lists are taken apart from the outermost definition inwards
  induction first using List.reverseRecOn generalizing block second with
  | nil =>
      rcases List.eq_nil_or_concat second with rfl | ⟨inner, outermost, rfl⟩
      · rfl
      · rw [List.concat_eq_append] at secondNested secondMember
        obtain ⟨member, nestedInside⟩ := Stmt.nested_concat.mp secondNested
        rw [Stmt.innermost_concat] at secondMember
        have inside : root ∈ outermost.stmt.roots := by
          rw [FnDef.roots_stmt]
          exact nestedInside.root_mem secondMember secondRoot
        exact absurd (Stmt.eq_of_common_root distinct firstMember member firstRoot inside)
          (Stmt.ne_stmt_of_value firstValue outermost)
  | append_singleton inner outermost inductionHypothesis =>
      obtain ⟨member, nestedInside⟩ := Stmt.nested_concat.mp firstNested
      rw [Stmt.innermost_concat] at firstMember
      have inside : root ∈ outermost.stmt.roots := by
        rw [FnDef.roots_stmt]
        exact nestedInside.root_mem firstMember firstRoot
      rcases List.eq_nil_or_concat second with rfl | ⟨otherInner, other, rfl⟩
      · exact absurd (Stmt.eq_of_common_root distinct secondMember member secondRoot inside)
          (Stmt.ne_stmt_of_value secondValue outermost)
      · rw [List.concat_eq_append] at secondNested secondMember ⊢
        obtain ⟨otherMember, otherNested⟩ := Stmt.nested_concat.mp secondNested
        rw [Stmt.innermost_concat] at secondMember
        have otherInside : root ∈ other.stmt.roots := by
          rw [FnDef.roots_stmt]
          exact otherNested.root_mem secondMember secondRoot
        obtain rfl := FnDef.stmt_injective
          (Stmt.eq_of_common_root distinct member otherMember inside otherInside)
        have insideDistinct : (Stmt.rootsAll outermost.body).Nodup := by
          rw [← FnDef.roots_stmt]
          exact distinct.sublist (Stmt.roots_sublist_of_mem member)
        rw [inductionHypothesis insideDistinct nestedInside otherNested firstMember secondMember]

end Nesting

/-! ## Expressions of a block -/

/-- The position belongs to the expression at the root. -/
inductive Node.Occurs (nodes : Array Node) (root : ExprId) : ExprId → Prop where
  | root : Node.Occurs nodes root root
  | operand {id child : ExprId} {node : Node} (outer : Node.Occurs nodes root id)
      (here : nodes[id]? = some node) (operand : child ∈ node.children) :
      Node.Occurs nodes root child

/-- The expression stands in a statement of the block, and not in a definition of it. -/
def Stmt.Holds (nodes : Array Node) (block : List (Stmt ExprId)) (id : ExprId) : Prop :=
  ∃ stmt ∈ block, ∃ root, stmt.value? = some root ∧ Node.Occurs nodes root id

namespace Storage

theorem Descending.occurs_le {nodes : Array Node} (descending : Descending nodes)
    {root id : ExprId} (occurs : Node.Occurs nodes root id) : id ≤ root := by
  induction occurs with
  | root => exact Nat.le_refl _
  | operand outer here operand inductionHypothesis =>
      exact Nat.le_trans (Nat.le_of_lt (descending _ _ here _ operand)) inductionHypothesis

/-- Of two roots in the list, the later one has no position up to the earlier one. -/
def Apart (nodes : Array Node) (roots : List ExprId) : Prop :=
  roots.Pairwise fun earlier later => ∀ id, Node.Occurs nodes later id → earlier < id

theorem Apart.nodup {nodes : Array Node} {roots : List ExprId} (apart : Apart nodes roots) :
    roots.Nodup :=
  apart.imp fun below => Nat.ne_of_lt (below _ .root)

/-- A position belongs to one root only. -/
theorem Apart.root_unique {nodes : Array Node} {roots : List ExprId} (apart : Apart nodes roots)
    (descending : Descending nodes) {first second id : ExprId} (firstMember : first ∈ roots)
    (secondMember : second ∈ roots) (firstOccurs : Node.Occurs nodes first id)
    (secondOccurs : Node.Occurs nodes second id) : first = second := by
  have disjoint : roots.Pairwise fun one other =>
      ∀ id, Node.Occurs nodes one id → Node.Occurs nodes other id → False :=
    apart.imp fun below id inEarlier inLater =>
      Nat.lt_irrefl _ (Nat.lt_of_lt_of_le (below id inLater) (descending.occurs_le inEarlier))
  have : Std.Symm fun one other : ExprId =>
      ∀ id, Node.Occurs nodes one id → Node.Occurs nodes other id → False :=
    ⟨fun _ _ apart id inOther inOne => apart id inOne inOther⟩
  by_contra different
  exact disjoint.forall firstMember secondMember different id firstOccurs secondOccurs

/-! ## Storing keeps expressions apart -/

/-- The nodes that were added refer to added nodes only. -/
def Closed (before after : Array Node) : Prop :=
  ∀ (id : ExprId) (node : Node), before.size ≤ id → after[id]? = some node →
    ∀ child ∈ node.children, before.size ≤ child

theorem closed_refl (nodes : Array Node) : Closed nodes nodes := by
  intro id node beyond here
  rw [Array.getElem?_eq_none beyond] at here
  cases here

theorem Closed.trans {first second third : Array Node} (left : Closed first second)
    (right : Closed second third) (grown : Extends first second)
    (extension : Extends second third) : Closed first third := by
  intro id node beyond here child operand
  by_cases inside : id < second.size
  · have same := extension id second[id] (Array.getElem?_eq_getElem inside)
    obtain rfl := Option.some.inj (same.symm.trans here)
    exact left id _ beyond (Array.getElem?_eq_getElem inside) child operand
  · exact Nat.le_trans grown.size_le
      (right id node (Nat.le_of_not_lt inside) here child operand)

theorem Closed.push {before operands : Array Node} {node : Node}
    (closed : Closed before operands)
    (children : ∀ child ∈ node.children, before.size ≤ child) :
    Closed before (operands.push node) := by
  intro id found beyond here
  rw [Array.getElem?_push] at here
  split at here
  · cases here
    exact children
  · exact closed id found beyond here

mutual

theorem closed_store : ∀ (expr : Expr) (before : Array Node),
    Closed before (expr.store before).2 ∧ before.size ≤ (expr.store before).1
  | .number value, before => by
      rw [Expr.store]
      exact ⟨(closed_refl before).push (by simp [Node.children]), Nat.le_refl _⟩
  | .text value, before => by
      rw [Expr.store]
      exact ⟨(closed_refl before).push (by simp [Node.children]), Nat.le_refl _⟩
  | .ident name, before => by
      rw [Expr.store]
      exact ⟨(closed_refl before).push (by simp [Node.children]), Nat.le_refl _⟩
  | .call callee args, before => by
      obtain ⟨closed, above⟩ := closed_storeAll args before
      rw [store_call]
      exact ⟨closed.push above, (storesExprs_storeAll args before).extension.size_le⟩
  | .binary op left right, before => by
      obtain ⟨leftClosed, leftAbove⟩ := closed_store left before
      obtain ⟨rightClosed, rightAbove⟩ := closed_store right (left.store before).2
      have first := (storesExpr_store left before).extension
      have second := (storesExpr_store right (left.store before).2).extension
      have grown := first.trans second
      rw [store_binary]
      refine ⟨(leftClosed.trans rightClosed first second).push ?_, grown.size_le⟩
      intro child operand
      simp only [Node.children, List.mem_cons, List.not_mem_nil, or_false] at operand
      rcases operand with rfl | rfl
      · exact leftAbove
      · exact Nat.le_trans first.size_le rightAbove

theorem closed_storeAll : ∀ (exprs : List Expr) (before : Array Node),
    Closed before (Expr.storeAll exprs before).2 ∧
      ∀ id ∈ (Expr.storeAll exprs before).1, before.size ≤ id
  | [], before => by
      rw [Expr.storeAll]
      exact ⟨closed_refl before, by simp⟩
  | expr :: rest, before => by
      obtain ⟨headClosed, headAbove⟩ := closed_store expr before
      obtain ⟨restClosed, restAbove⟩ := closed_storeAll rest (expr.store before).2
      have first := (storesExpr_store expr before).extension
      have second := (storesExprs_storeAll rest (expr.store before).2).extension
      rw [storeAll_cons]
      refine ⟨headClosed.trans restClosed first second, ?_⟩
      intro id member
      rcases List.mem_cons.mp member with rfl | later
      · exact headAbove
      · exact Nat.le_trans first.size_le (restAbove id later)

end

/-- The positions of an expression that was added are all added ones. -/
theorem Closed.le_of_occurs {before after table : Array Node} (closed : Closed before after)
    (extension : Extends after table) (descending : Descending table) {root id : ExprId}
    (above : before.size ≤ root) (inside : root < after.size)
    (occurs : Node.Occurs table root id) : before.size ≤ id := by
  induction occurs with
  | root => exact above
  | @operand id child node outer here operand inductionHypothesis =>
      have idInside := Nat.lt_of_le_of_lt (descending.occurs_le outer) inside
      have same := extension id after[id] (Array.getElem?_eq_getElem idInside)
      obtain rfl := Option.some.inj (same.symm.trans here)
      exact closed id _ inductionHypothesis (Array.getElem?_eq_getElem idInside) child operand

/-- What storing statements does to the positions of their expressions. -/
structure StoresApart (before after : Array Node) (roots : List ExprId) : Prop where
  closed : Closed before after
  above : ∀ root ∈ roots, before.size ≤ root
  apart : ∀ table : Array Node, Extends after table → Descending table → Apart table roots

theorem storesApart_value (value : Expr) (before : Array Node) :
    StoresApart before (value.store before).2 [(value.store before).1] where
  closed := (closed_store value before).1
  above root member := by
    rw [List.mem_singleton.mp member]
    exact (closed_store value before).2
  apart _ _ _ := List.pairwise_singleton _ _

mutual

theorem storesApart_store : ∀ (stmt : Stmt Expr) (before : Array Node),
    StoresApart before (stmt.store before).2 (stmt.store before).1.roots
  | .letBind name value, before => by
      rw [stmtStore_letBind]
      exact storesApart_value value before
  | .fnDef name params body, before => by
      rw [stmtStore_fnDef, Stmt.roots]
      exact storesApart_storeAll body before
  | .ret value, before => by
      rw [stmtStore_ret]
      exact storesApart_value value before
  | .expr value, before => by
      rw [stmtStore_expr]
      exact storesApart_value value before

theorem storesApart_storeAll : ∀ (stmts : List (Stmt Expr)) (before : Array Node),
    StoresApart before (Stmt.storeAll stmts before).2
      (Stmt.rootsAll (Stmt.storeAll stmts before).1)
  | [], before => by
      rw [Stmt.storeAll, Stmt.rootsAll]
      exact ⟨closed_refl before, by simp, fun _ _ _ => List.Pairwise.nil⟩
  | stmt :: rest, before => by
      have first := storesRoots_store stmt before
      have second := storesRoots_storeAll rest (stmt.store before).2
      have head := storesApart_store stmt before
      have tail := storesApart_storeAll rest (stmt.store before).2
      rw [stmtStoreAll_cons, Stmt.rootsAll]
      refine ⟨head.closed.trans tail.closed first.extension second.extension, ?_, ?_⟩
      · intro root member
        rcases List.mem_append.mp member with inHead | inTail
        · exact head.above root inHead
        · exact Nat.le_trans first.extension.size_le (tail.above root inTail)
      · intro table extension descending
        refine List.pairwise_append.mpr ⟨head.apart table (second.extension.trans extension)
          descending, tail.apart table extension descending, ?_⟩
        intro earlier inHead later inTail id occurs
        exact Nat.lt_of_lt_of_le (first.inside earlier inHead)
          (tail.closed.le_of_occurs extension descending (tail.above later inTail)
            (second.inside later inTail) occurs)

end

end Storage

/-! ## Scopes -/

/-- A stretch of text in which names are bound: the top level, or the body of a definition
with its parameters. -/
structure Scope where
  params : List String
  body : List (Stmt ExprId)

/-- The variables that the parameters and the statements of a scope bind. -/
def Scope.vars (scope : Scope) : List String :=
  scope.params ++ scope.body.filterMap Stmt.boundVar?

/-- The functions that the statements of a scope define. -/
def Scope.fns (scope : Scope) : List String :=
  scope.body.filterMap Stmt.boundFn?

def FnDef.scope (definition : FnDef ExprId) : Scope :=
  ⟨definition.params, definition.body⟩

/-! ## Programs -/

namespace Program

/-- The definitions of a program, nested ones included, in the order of the source. -/
def definitions (program : Program) : List (FnDef ExprId) :=
  Stmt.definitionsAll program.body

theorem apart_ofTrees (trees : List (Stmt Expr)) :
    Storage.Apart (ofTrees trees).nodes (Stmt.rootsAll (ofTrees trees).body) :=
  (Storage.storesApart_storeAll trees #[]).apart _ (Storage.Extends.refl _)
    (wellFormed_ofTrees trees).nodes

/-- The top level as a scope. -/
def topLevel (program : Program) : Scope :=
  ⟨[], program.body⟩

/-- The scopes of a program: the top level and those of all definitions. -/
def scopes (program : Program) : List Scope :=
  program.topLevel :: program.definitions.map FnDef.scope

/-- An expression of a parsed program has only one list of definitions around it. -/
theorem nested_unique {program : Program} {tokens : List Token}
    (parsed : parse tokens = .ok program) {first second : List (FnDef ExprId)}
    (firstNested : Stmt.Nested program.body first)
    (secondNested : Stmt.Nested program.body second) {id : ExprId}
    (firstHolds : Stmt.Holds program.nodes (Stmt.innermost program.body first) id)
    (secondHolds : Stmt.Holds program.nodes (Stmt.innermost program.body second) id) :
    first = second := by
  obtain ⟨trees, _, rfl⟩ := parse_eq_ok.mp parsed
  have apart := apart_ofTrees trees
  obtain ⟨firstStmt, firstMember, root, firstValue, firstOccurs⟩ := firstHolds
  obtain ⟨secondStmt, secondMember, other, secondValue, secondOccurs⟩ := secondHolds
  have sameRoot := apart.root_unique (wellFormed_ofTrees trees).nodes
    (firstNested.root_mem firstMember (Stmt.roots_of_value firstValue))
    (secondNested.root_mem secondMember (Stmt.roots_of_value secondValue))
    firstOccurs secondOccurs
  rw [← sameRoot] at secondValue
  exact firstNested.unique apart.nodup secondNested firstMember secondMember firstValue
    secondValue

end Program

end ScopeScript
