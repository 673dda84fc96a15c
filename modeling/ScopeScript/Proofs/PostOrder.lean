import ScopeScript.Proofs.TableParser

/-!
Contract: the table of a parsed program lists its expressions in post-order.

Owns: the positions of a program in post-order, what follows if they are the whole table,
the nodes that the parser adds in each step, and the listing that it keeps complete while it
reads.

A state of the parser holds the positions of the expressions that are complete.  In the
order of the source and each in post-order, they list the table from its first position to
its last.  A step adds nodes one at a time: a node takes its operands off the end of what is
held and is held in their place, so the listing goes on by one position.  Every node is made
for a token of its own, and a state owes the nodes of the operators, calls and identifiers
that are still open.
-/

set_option autoImplicit false

namespace ScopeScript

/-! ## Post-order -/

/-- The lists of several positions one after the other, if each of them has one. -/
def concatAll? (list? : ExprId → Option (List ExprId)) : List ExprId → Option (List ExprId)
  | [] => some []
  | id :: rest => do
      let first ← list? id
      let others ← concatAll? list? rest
      some (first ++ others)

/-- The positions of an expression with at most `depth` levels: those of its operands from
left to right, then its own. -/
def postOrder? (nodes : Array Node) : Nat → ExprId → Option (List ExprId)
  | 0, _ => none
  | depth + 1, id => do
      let node ← nodes[id]?
      let operands ← concatAll? (postOrder? nodes depth) node.children
      some (operands ++ [id])

/-- The positions of the expressions of a program in post-order, statement by statement and
with the bodies of functions where they stand. -/
def Program.postOrder? (program : Program) : Option (List ExprId) :=
  concatAll? (ScopeScript.postOrder? program.nodes program.nodes.size)
    (Stmt.rootsAll program.body)

section Listing

variable {list? : ExprId → Option (List ExprId)} {id : ExprId} {rest : List ExprId}

theorem concatAll?_cons {first others : List ExprId} (head : list? id = some first)
    (tail : concatAll? list? rest = some others) :
    concatAll? list? (id :: rest) = some (first ++ others) := by
  simp [concatAll?, head, tail]

theorem exists_of_concatAll?_cons {ids : List ExprId}
    (listed : concatAll? list? (id :: rest) = some ids) :
    ∃ first others, list? id = some first ∧ concatAll? list? rest = some others ∧
      ids = first ++ others := by
  simp only [concatAll?, Option.bind_eq_bind, Option.bind_eq_some_iff] at listed
  obtain ⟨first, head, others, tail, same⟩ := listed
  exact ⟨first, others, head, tail, (Option.some.inj same).symm⟩

theorem concatAll?_append {ids : List ExprId} {first others : List ExprId}
    (head : concatAll? list? ids = some first) (tail : concatAll? list? rest = some others) :
    concatAll? list? (ids ++ rest) = some (first ++ others) := by
  induction ids generalizing first with
  | nil =>
      cases head
      exact tail
  | cons id ids inductionHypothesis =>
      obtain ⟨listed, inner, here, later, rfl⟩ := exists_of_concatAll?_cons head
      rw [List.append_assoc]
      exact concatAll?_cons here (inductionHypothesis later)

theorem exists_of_concatAll?_append {ids listed : List ExprId}
    (all : concatAll? list? (ids ++ rest) = some listed) :
    ∃ first others, concatAll? list? ids = some first ∧ concatAll? list? rest = some others ∧
      listed = first ++ others := by
  induction ids generalizing listed with
  | nil => exact ⟨[], listed, rfl, all, rfl⟩
  | cons id ids inductionHypothesis =>
      obtain ⟨own, inner, here, later, rfl⟩ := exists_of_concatAll?_cons all
      obtain ⟨first, others, before, after, rfl⟩ := inductionHypothesis later
      exact ⟨own ++ first, others, concatAll?_cons here before, after,
        (List.append_assoc _ _ _).symm⟩

theorem concatAll?_mono {other? : ExprId → Option (List ExprId)}
    (keeps : ∀ id ids, list? id = some ids → other? id = some ids) {ids listed : List ExprId}
    (all : concatAll? list? ids = some listed) : concatAll? other? ids = some listed := by
  induction ids generalizing listed with
  | nil => exact all
  | cons id ids inductionHypothesis =>
      obtain ⟨first, others, here, later, rfl⟩ := exists_of_concatAll?_cons all
      exact concatAll?_cons (keeps id first here) (inductionHypothesis later)

end Listing

/-- A table that grows keeps the listings that it has. -/
theorem postOrder?_mono {nodes table : Array Node} {depth deeper : Nat} {id : ExprId}
    {ids : List ExprId} (later : Storage.Extends nodes table) (enough : depth ≤ deeper)
    (listed : postOrder? nodes depth id = some ids) : postOrder? table deeper id = some ids := by
  induction depth generalizing deeper id ids with
  | zero => cases listed
  | succ depth inductionHypothesis =>
      obtain ⟨deeper, rfl⟩ := Nat.exists_eq_add_one_of_ne_zero
        (Nat.ne_of_gt (Nat.lt_of_lt_of_le (Nat.succ_pos depth) enough))
      simp only [postOrder?, Option.bind_eq_bind, Option.bind_eq_some_iff] at listed ⊢
      obtain ⟨node, here, operands, inner, same⟩ := listed
      refine ⟨node, later id node here, operands, ?_, same⟩
      exact concatAll?_mono (fun _ _ => inductionHypothesis (Nat.le_of_succ_le_succ enough)) inner

/-! ## What a complete listing says -/

/-- The positions that the node at a position refers to. -/
def childrenAt (nodes : Array Node) (id : ExprId) : List ExprId :=
  match nodes[id]? with
  | some node => node.children
  | none => []

theorem perm_of_concatAll? {list? : ExprId → Option (List ExprId)}
    {children : ExprId → List ExprId}
    (each : ∀ id ids, list? id = some ids → ids.Perm (id :: ids.flatMap children))
    {roots ids : List ExprId} (listed : concatAll? list? roots = some ids) :
    ids.Perm (roots ++ ids.flatMap children) := by
  induction roots generalizing ids with
  | nil =>
      cases listed
      exact .refl _
  | cons root rest inductionHypothesis =>
      obtain ⟨first, others, here, later, rfl⟩ := exists_of_concatAll?_cons listed
      have head := each root first here
      have tail := inductionHypothesis later
      rw [List.flatMap_append]
      exact (head.append tail).trans (.cons root (List.perm_append_comm_assoc _ _ _))

/-- The post-order of an expression is the expression and all that its nodes refer to. -/
theorem perm_of_postOrder? {nodes : Array Node} {depth : Nat} {id : ExprId} {ids : List ExprId}
    (listed : postOrder? nodes depth id = some ids) :
    ids.Perm (id :: ids.flatMap (childrenAt nodes)) := by
  induction depth generalizing id ids with
  | zero => cases listed
  | succ depth inductionHypothesis =>
      simp only [postOrder?, Option.bind_eq_bind, Option.bind_eq_some_iff] at listed
      obtain ⟨node, here, operands, inner, same⟩ := listed
      cases same
      have own : childrenAt nodes id = node.children := by
        rw [childrenAt, here]
      have below := perm_of_concatAll? (fun _ _ => inductionHypothesis) inner
      -- The operands of the node itself are the roots that are missing in `operands`.
      rw [List.flatMap_append, List.flatMap_singleton, own]
      exact List.perm_append_comm.trans (.cons id (below.trans List.perm_append_comm))

theorem flatMap_childrenAt (nodes : Array Node) :
    (List.range nodes.size).flatMap (childrenAt nodes) = nodes.toList.flatMap Node.children := by
  obtain ⟨entries⟩ := nodes
  induction entries with
  | nil => rfl
  | cons node rest inductionHypothesis =>
      have shifted (id : ExprId) : childrenAt ⟨node :: rest⟩ (id + 1) = childrenAt ⟨rest⟩ id := by
        simp [childrenAt]
      rw [List.size_toArray, List.length_cons, List.range_succ_eq_map, List.flatMap_cons,
        List.flatMap_map]
      simp only [Nat.succ_eq_add_one, shifted]
      exact congrArg (node.children ++ ·) inductionHypothesis

/-- If the post-order is the whole table, then every position is referred to once, by a
statement or by a node. -/
theorem Program.references_perm {program : Program}
    (listed : program.postOrder? = some (List.range program.nodes.size)) :
    (Stmt.rootsAll program.body ++ program.nodes.toList.flatMap Node.children).Perm
      (List.range program.nodes.size) := by
  rw [← flatMap_childrenAt]
  exact (perm_of_concatAll? (fun _ _ => perm_of_postOrder?) listed).symm

theorem mem_of_concatAll? {nodes : Array Node} {depth : Nat} {roots ids : List ExprId}
    (listed : concatAll? (postOrder? nodes depth) roots = some ids) {root : ExprId}
    (member : root ∈ roots) : root ∈ ids := by
  have perm := perm_of_concatAll? (fun _ _ => perm_of_postOrder?) listed
  exact perm.mem_iff.mpr (List.mem_append_left _ member)

/-- Operands are listed before the expression that uses them, wherever that stands. -/
theorem sublist_of_concatAll? {list? : ExprId → Option (List ExprId)}
    {children : ExprId → List ExprId}
    (each : ∀ id ids, list? id = some ids → ∀ parent ∈ ids, ∀ child ∈ children parent,
      [child, parent].Sublist ids)
    {roots ids : List ExprId} (listed : concatAll? list? roots = some ids) :
    ∀ parent ∈ ids, ∀ child ∈ children parent, [child, parent].Sublist ids := by
  induction roots generalizing ids with
  | nil =>
      cases listed
      intro parent member
      cases member
  | cons root rest inductionHypothesis =>
      obtain ⟨first, others, here, later, rfl⟩ := exists_of_concatAll?_cons listed
      intro parent member child uses
      rcases List.mem_append.mp member with inFirst | inOthers
      · exact (each root first here parent inFirst child uses).trans
          (List.sublist_append_left first others)
      · exact (inductionHypothesis later parent inOthers child uses).trans
          (List.sublist_append_right first others)

theorem sublist_of_postOrder? {nodes : Array Node} {depth : Nat} {id : ExprId}
    {ids : List ExprId} (listed : postOrder? nodes depth id = some ids) :
    ∀ parent ∈ ids, ∀ child ∈ childrenAt nodes parent, [child, parent].Sublist ids := by
  induction depth generalizing id ids with
  | zero => cases listed
  | succ depth inductionHypothesis =>
      simp only [postOrder?, Option.bind_eq_bind, Option.bind_eq_some_iff] at listed
      obtain ⟨node, here, operands, inner, same⟩ := listed
      cases same
      intro parent member child uses
      rcases List.mem_append.mp member with below | own
      · exact (sublist_of_concatAll? (fun _ _ => inductionHypothesis) inner parent below child
          uses).trans (List.sublist_append_left operands [id])
      · cases List.mem_singleton.mp own
        rw [childrenAt, here] at uses
        exact (List.singleton_sublist.mpr (mem_of_concatAll? inner uses)).append (.refl [id])

/-- If the post-order is the whole table, then every position is in the table and operands
stand before the expressions that use them. -/
theorem Program.wellFormed_of_listed {program : Program}
    (listed : program.postOrder? = some (List.range program.nodes.size)) :
    program.WellFormed where
  nodes := by
    intro id node here child uses
    have inside : id ∈ List.range program.nodes.size :=
      List.mem_range.mpr (Array.getElem?_eq_some_iff.mp here).1
    have own : child ∈ childrenAt program.nodes id := by
      rwa [childrenAt, here]
    have before :=
      sublist_of_concatAll? (fun _ _ => sublist_of_postOrder?) listed id inside child own
    have ordered := List.pairwise_lt_range.sublist before
    exact List.rel_of_pairwise_cons ordered (List.mem_singleton_self id)
  body id member := List.mem_range.mp (mem_of_concatAll? listed member)

/-! ## The nodes that the parser adds -/

namespace Parser

/-- Nodes are added to a table one after the other.  Each takes its operands off the end of
the positions that are held, and its own position comes in their place. -/
inductive Adds : List ExprId → Array Node → List ExprId → Array Node → Nat → Prop where
  | none {held : List ExprId} {nodes : Array Node} : Adds held nodes held nodes 0
  | node {earlier held : List ExprId} {nodes after : Array Node} {count : Nat} (added : Node)
      (rest : Adds (earlier ++ [nodes.size]) (nodes.push added) held after count) :
      Adds (earlier ++ added.children) nodes held after (count + 1)

theorem Adds.trans {first second third : List ExprId} {before between after : Array Node}
    {count more : Nat} (adds : Adds first before second between count)
    (later : Adds second between third after more) :
    Adds first before third after (more + count) := by
  induction adds with
  | none => exact later
  | node added rest inductionHypothesis => exact .node added (inductionHypothesis later)

theorem Adds.size {held rest : List ExprId} {before after : Array Node} {count : Nat}
    (adds : Adds held before rest after count) : after.size = before.size + count := by
  induction adds with
  | none => rfl
  | node added rest inductionHypothesis =>
      rw [inductionHypothesis, Array.size_push]
      omega

/-- The positions that are held, each in post-order, list the table from its first position
to its last. -/
def Listed (held : List ExprId) (nodes : Array Node) : Prop :=
  concatAll? (postOrder? nodes nodes.size) held = some (List.range nodes.size)

theorem Listed.push {earlier : List ExprId} {nodes : Array Node} {node : Node}
    (listed : Listed (earlier ++ node.children) nodes) :
    Listed (earlier ++ [nodes.size]) (nodes.push node) := by
  obtain ⟨first, operands, before, inner, all⟩ := exists_of_concatAll?_append listed
  have grown := Storage.extends_push nodes node
  have kept : concatAll? (postOrder? (nodes.push node) (nodes.size + 1)) earlier = some first :=
    concatAll?_mono (fun _ _ => postOrder?_mono grown (Nat.le_succ _)) before
  have below : concatAll? (postOrder? (nodes.push node) nodes.size) node.children =
      some operands :=
    concatAll?_mono (fun _ _ => postOrder?_mono grown (Nat.le_refl _)) inner
  have own : postOrder? (nodes.push node) (nodes.size + 1) nodes.size =
      some (operands ++ [nodes.size]) := by
    rw [postOrder?, Array.getElem?_push_size]
    simp [below]
  have last : concatAll? (postOrder? (nodes.push node) (nodes.size + 1)) [nodes.size] =
      some (operands ++ [nodes.size] ++ []) :=
    concatAll?_cons own rfl
  unfold Listed
  rw [Array.size_push, List.range_succ, all, List.append_assoc]
  rw [List.append_nil] at last
  exact concatAll?_append kept last

theorem Adds.listed {held rest : List ExprId} {before after : Array Node} {count : Nat}
    (adds : Adds held before rest after count) (listed : Listed held before) :
    Listed rest after := by
  induction adds with
  | none => exact listed
  | node added rest inductionHypothesis => exact inductionHypothesis listed.push

/-! ## What a state holds -/

/-- The positions of complete expressions in the order of the source, and how many nodes the
tokens so far have still to make. -/
structure Holding where
  ids : List ExprId
  owed : Nat

def heldPending : List (Pending ExprId) → List ExprId
  | [] => []
  | entry :: rest => heldPending rest ++ [entry.left]

def Bracket.held : Bracket ExprId → List ExprId
  | .paren => []
  | .call _ args => args.reverse

def Bracket.owed : Bracket ExprId → Nat
  | .paren => 0
  | .call .. => 1

def heldBrackets : List (OpenBracket ExprId) → List ExprId
  | [] => []
  | entry :: rest => heldBrackets rest ++ (heldPending entry.pending ++ entry.bracket.held)

def owedBrackets : List (OpenBracket ExprId) → Nat
  | [] => 0
  | entry :: rest => owedBrackets rest + entry.pending.length + entry.bracket.owed

def Context.held (context : Context ExprId) : List ExprId :=
  heldBrackets context.brackets ++ heldPending context.pending

def Context.owed (context : Context ExprId) : Nat :=
  owedBrackets context.brackets + context.pending.length

def Phase.held : Phase ExprId → List ExprId
  | .statement | .letName | .letEqual _ | .fnName | .fnOpen _ | .firstParam _ | .nextParam ..
  | .afterParam .. | .bodyOpen .. => []
  | .operand context | .firstArg context _ | .afterIdent context _ => context.held
  | .operator context value => context.held ++ [value]

/-- An identifier is owed until it is known whether it is called. -/
def Phase.owed : Phase ExprId → Nat
  | .statement | .letName | .letEqual _ | .fnName | .fnOpen _ | .firstParam _ | .nextParam ..
  | .afterParam .. | .bodyOpen .. => 0
  | .operand context | .operator context _ => context.owed
  | .firstArg context _ | .afterIdent context _ => context.owed + 1

def heldEnclosing : List (OpenFn ExprId) → List ExprId
  | [] => []
  | fn :: rest => heldEnclosing rest ++ Stmt.rootsAll fn.before.reverse

/-- The positions in complete statements. -/
def State.heldBefore (state : State ExprId) : List ExprId :=
  heldEnclosing state.enclosing ++ Stmt.rootsAll state.block.reverse

def State.holding (state : State ExprId) : Holding where
  ids := state.heldBefore ++ state.phase.held
  owed := state.phase.owed

/-! ## Steps -/

section Actions

variable {α β : Type}

/-- From any table on, the action adds nodes that turn what was held into what is held
after it, and no more of them than it takes off what is owed.  If it stops at an error, it
has added no more than was owed. -/
def Builds (before : Holding) (action : TableParser α) (after : α → Holding) : Prop :=
  ∀ nodes, match action nodes with
    | .ok value last =>
        ∃ count, Adds before.ids nodes (after value).ids last count ∧
          count + (after value).owed ≤ before.owed
    | .error _ last => ∃ ids count, Adds before.ids nodes ids last count ∧ count ≤ before.owed

theorem Builds.bind {before : Holding} {middle : α → Holding} {after : β → Holding}
    {first : TableParser α} {next : α → TableParser β} (builds : Builds before first middle)
    (continues : ∀ value, Builds (middle value) (next value) after) :
    Builds before (first >>= next) after := by
  intro nodes
  have early := builds nodes
  cases returned : first nodes with
  | error error last =>
      rw [returned] at early
      rw [TableParser.bind_of_error next returned]
      exact early
  | ok value between =>
      rw [returned] at early
      obtain ⟨count, adds, enough⟩ := early
      have late := continues value between
      rw [TableParser.bind_of_ok next returned]
      split at late
      · obtain ⟨more, later, stillEnough⟩ := late
        exact ⟨more + count, adds.trans later, by omega⟩
      · obtain ⟨ids, more, later, stillEnough⟩ := late
        exact ⟨ids, more + count, adds.trans later, by omega⟩

theorem builds_pure {before : Holding} {after : α → Holding} {value : α}
    (same : (after value).ids = before.ids) (enough : (after value).owed ≤ before.owed) :
    Builds before (pure value) after := by
  intro nodes
  refine ⟨0, ?_, by omega⟩
  rw [same]
  exact .none

/-- More may be owed than is needed. -/
theorem Builds.widen {before wider : Holding} {action : TableParser α} {after : α → Holding}
    (builds : Builds before action after) (same : wider.ids = before.ids)
    (enough : before.owed ≤ wider.owed) : Builds wider action after := by
  intro nodes
  have early := builds nodes
  rw [same]
  split at early
  · obtain ⟨count, adds, within⟩ := early
    exact ⟨count, adds, Nat.le_trans within enough⟩
  · obtain ⟨ids, count, adds, within⟩ := early
    exact ⟨ids, count, adds, Nat.le_trans within enough⟩

/-- What is owed besides is still owed afterwards. -/
theorem Builds.frame {before : Holding} {action : TableParser α} {after : α → Holding}
    (builds : Builds before action after) (extra : Nat) :
    Builds ⟨before.ids, before.owed + extra⟩ action
      fun value => ⟨(after value).ids, (after value).owed + extra⟩ := by
  intro nodes
  have early := builds nodes
  split at early
  · obtain ⟨count, adds, within⟩ := early
    exact ⟨count, adds, by simp only; omega⟩
  · obtain ⟨ids, count, adds, within⟩ := early
    exact ⟨ids, count, adds, Nat.le_trans within (Nat.le_add_right _ _)⟩

theorem builds_throw (before : Holding) (error : ParseError) (after : α → Holding) :
    Builds before (throw error) after :=
  fun _ => ⟨before.ids, 0, .none, Nat.zero_le _⟩

theorem builds_refuse (before : Holding) (expected : Expectation) (found : Token)
    (after : α → Holding) : Builds before (refuse expected found) after :=
  builds_throw before _ after

/-- A node is added in the place of its operands and held after what is held before them. -/
theorem builds_addNode {before : Holding} (earlier : List ExprId) {node : Node}
    {next : ExprId → TableParser α} {after : α → Holding} {owed : Nat}
    (held : before.ids = earlier ++ node.children) (enough : owed + 1 ≤ before.owed)
    (continues : ∀ id, Builds ⟨earlier ++ [id], owed⟩ (next id) after) :
    Builds before (addNode node >>= next) after := by
  refine Builds.bind (fun nodes => ⟨1, ?_, ?_⟩) continues
  · rw [held]
    exact .node node .none
  · show 1 + owed ≤ before.owed
    omega

end Actions

section Operators

variable (outer : List ExprId) (owed : Nat) (pending : List (Pending ExprId)) (right : ExprId)

theorem builds_complete (precedence : Nat) :
    Builds ⟨outer ++ (heldPending pending ++ [right]), owed + pending.length⟩
      (complete precedence pending right) fun operand =>
        ⟨outer ++ (heldPending operand.1 ++ [operand.2]), owed + operand.1.length⟩ := by
  induction pending generalizing right with
  | nil => exact builds_pure rfl (Nat.le_refl _)
  | cons entry rest inductionHypothesis =>
      obtain ⟨left, op⟩ := entry
      rw [complete]
      split
      · refine builds_addNode (outer ++ heldPending rest) ?_ (Nat.le_refl _) fun value => ?_
        · simp [heldPending, Node.children]
        · simpa using inductionHypothesis value
      · exact builds_pure rfl (Nat.le_refl _)

theorem builds_completeAll :
    Builds ⟨outer ++ (heldPending pending ++ [right]), owed + pending.length⟩
      (completeAll pending right) fun value => ⟨outer ++ [value], owed⟩ := by
  induction pending generalizing right with
  | nil => exact builds_pure rfl (Nat.le_refl _)
  | cons entry rest inductionHypothesis =>
      refine builds_addNode (outer ++ heldPending rest) ?_ (Nat.le_refl _) fun value => ?_
      · simp [heldPending, Node.children]
      · simpa using inductionHypothesis value

end Operators

section Steps

variable (state : State ExprId) (context : Context ExprId) (token : Token)

/-- The token itself may be owed a node. -/
theorem builds_expect {owed : Nat} (kind : TokenKind) (phase : Phase ExprId)
    (enough : phase.owed ≤ owed) :
    Builds ⟨state.heldBefore ++ phase.held, owed⟩ (state.expect token kind phase)
      State.holding := by
  unfold State.expect
  split
  · exact builds_pure rfl enough
  · exact builds_refuse _ _ _ _

theorem builds_stepOperand :
    Builds ⟨state.heldBefore ++ context.held, context.owed + 1⟩
      (state.stepOperand context token) State.holding := by
  unfold State.stepOperand
  split
  · split
    · refine builds_addNode _ (List.append_nil _).symm (Nat.le_refl _) fun id => ?_
      exact builds_pure (List.append_assoc _ _ _).symm (Nat.le_refl _)
    · exact builds_throw _ _ _
  · refine builds_addNode _ (List.append_nil _).symm (Nat.le_refl _) fun id => ?_
    exact builds_pure (List.append_assoc _ _ _).symm (Nat.le_refl _)
  · exact builds_pure rfl (Nat.le_refl _)
  · refine builds_pure ?_ ?_
    · simp [State.holding, State.heldBefore, Phase.held, Context.held, heldBrackets, heldPending,
        Bracket.held]
    · simp [State.holding, Phase.owed, Context.owed, owedBrackets, Bracket.owed]
  · exact builds_refuse _ _ _ _

theorem builds_stepStatement :
    Builds ⟨state.heldBefore, 1⟩ (state.stepStatement token) State.holding := by
  have begun := builds_stepOperand state ⟨.statement, [], []⟩ token
  have empty (goal : Goal) : (⟨goal, [], []⟩ : Context ExprId).held = [] := rfl
  rw [empty, List.append_nil] at begun
  unfold State.stepStatement
  split
  · exact builds_pure (List.append_nil _) (Nat.zero_le _)
  split
  · exact builds_pure (List.append_nil _) (Nat.zero_le _)
  split
  · exact builds_pure (List.append_nil _) (Nat.zero_le _)
  split
  · rename_i fn rest closes inside
    refine builds_pure ?_ (Nat.zero_le _)
    simp [State.holding, State.heldBefore, Phase.held, inside, heldEnclosing, Stmt.rootsAll_append,
      Stmt.rootsAll, Stmt.roots]
  · exact begun

theorem builds_stepEnd (value : ExprId) :
    Builds ⟨state.heldBefore ++ (heldBrackets context.brackets ++ [value]),
        owedBrackets context.brackets + 1⟩
      (state.stepEnd context value token) State.holding := by
  obtain ⟨goal, brackets, pending⟩ := context
  cases brackets with
  | nil =>
      simp only [State.stepEnd]
      split
      · refine builds_pure ?_ (Nat.zero_le _)
        have root : (goal.stmt value).roots = [value] := by cases goal <;> rfl
        simp [State.holding, State.addStmt, State.heldBefore, Phase.held, heldBrackets,
          Stmt.rootsAll_append, Stmt.rootsAll, root]
      · exact builds_refuse _ _ _ _
  | cons entry rest =>
      obtain ⟨bracket, outer⟩ := entry
      cases bracket with
      | paren =>
          have closed := builds_expect state token .rightParen
            (.operator ⟨goal, rest, outer⟩ value) (Nat.le_refl _)
          refine closed.widen ?_ ?_
          · simp [heldBrackets, Bracket.held, Phase.held, Context.held]
          · simp only [Phase.owed, Context.owed, owedBrackets, Bracket.owed]
            omega
      | call callee args =>
          simp only [State.stepEnd]
          split
          · refine builds_pure ?_ ?_
            · simp [State.holding, State.heldBefore, Phase.held, Context.held, heldBrackets,
                heldPending, Bracket.held]
            · simp [State.holding, Phase.owed, Context.owed, owedBrackets, Bracket.owed]
          split
          · refine builds_addNode (state.heldBefore ++ (heldBrackets rest ++ heldPending outer))
              ?_ (Nat.le_refl _) fun id => ?_
            · simp [heldBrackets, Bracket.held, Node.children]
            · refine builds_pure ?_ ?_
              · simp [State.holding, State.heldBefore, Phase.held, Context.held]
              · simp [State.holding, Phase.owed, Context.owed, owedBrackets]
          · exact builds_refuse _ _ _ _

theorem builds_stepOperator (value : ExprId) :
    Builds ⟨state.heldBefore ++ (context.held ++ [value]), context.owed + 1⟩
      (state.stepOperator context value token) State.holding := by
  unfold State.stepOperator
  split
  · have operators := builds_complete (state.heldBefore ++ heldBrackets context.brackets)
      (owedBrackets context.brackets + 1) context.pending value
    refine ((operators _).bind fun operand => builds_pure ?_ ?_).widen ?_ ?_
    · simp [State.holding, State.heldBefore, Phase.held, Context.held, heldPending]
    · simp only [State.holding, Phase.owed, Context.owed, List.length_cons]
      omega
    · simp [Context.held]
    · simp only [Context.owed]
      omega
  · have operators := builds_completeAll (state.heldBefore ++ heldBrackets context.brackets)
      (owedBrackets context.brackets + 1) context.pending value
    refine (operators.bind fun operand => ?_).widen ?_ ?_
    · exact (builds_stepEnd state context token operand).widen (by simp) (Nat.le_refl _)
    · simp [Context.held]
    · simp only [Context.owed]
      omega

theorem builds_stepAfterIdent (name : String) :
    Builds ⟨state.heldBefore ++ context.held, context.owed + 2⟩
      (state.stepAfterIdent context name token) State.holding := by
  unfold State.stepAfterIdent
  split
  · exact builds_pure rfl (Nat.le_succ _)
  · refine builds_addNode _ (List.append_nil _).symm (Nat.le_refl _) fun id => ?_
    exact (builds_stepOperator state context token id).widen (List.append_assoc _ _ _)
      (Nat.le_refl _)

theorem builds_stepFirstArg (callee : String) :
    Builds ⟨state.heldBefore ++ context.held, context.owed + 2⟩
      (state.stepFirstArg context callee token) State.holding := by
  unfold State.stepFirstArg
  split
  · refine builds_addNode _ (List.append_nil _).symm (Nat.le_refl _) fun id => ?_
    exact builds_pure (List.append_assoc _ _ _).symm (Nat.le_succ _)
  · refine (builds_stepOperand state _ token).widen ?_ ?_
    · simp [Context.held, heldBrackets, heldPending, Bracket.held]
    · simp [Context.owed, owedBrackets, Bracket.owed]

theorem builds_stepFirstParam (name : String) :
    Builds ⟨state.heldBefore ++ [], 1⟩ (state.stepFirstParam name token) State.holding := by
  unfold State.stepFirstParam
  split
  · exact builds_pure rfl (Nat.zero_le _)
  · exact builds_expect state token .rightParen (.bodyOpen name []) (Nat.zero_le _)

theorem builds_stepAfterParam (name : String) (params : List String) :
    Builds ⟨state.heldBefore ++ [], 1⟩ (state.stepAfterParam name params token)
      State.holding := by
  unfold State.stepAfterParam
  split
  · exact builds_pure rfl (Nat.zero_le _)
  · exact builds_expect state token .rightParen (.bodyOpen name params) (Nat.zero_le _)

theorem builds_stepBodyOpen (name : String) (params : List String) :
    Builds ⟨state.heldBefore ++ [], 1⟩ (state.stepBodyOpen name params token)
      State.holding := by
  unfold State.stepBodyOpen
  split
  · refine builds_pure ?_ (Nat.zero_le _)
    simp [State.holding, State.heldBefore, heldEnclosing, Phase.held, Stmt.rootsAll]
  · exact builds_refuse _ _ _ _

/-- One more node is owed for the token. -/
theorem builds_step :
    Builds ⟨state.holding.ids, state.holding.owed + 1⟩ (state.step token) State.holding := by
  unfold State.holding State.step
  cases state.phase with
  | statement => exact (builds_stepStatement state token).widen (List.append_nil _) (Nat.le_refl _)
  | letName => exact builds_expect state token .ident (.letEqual token.text) (Nat.zero_le _)
  | letEqual name =>
      exact builds_expect state token .equal (.operand ⟨.letValue name, [], []⟩) (Nat.zero_le _)
  | fnName => exact builds_expect state token .ident (.fnOpen token.text) (Nat.zero_le _)
  | fnOpen name => exact builds_expect state token .leftParen (.firstParam name) (Nat.zero_le _)
  | firstParam name => exact builds_stepFirstParam state token name
  | nextParam name params =>
      exact builds_expect state token .ident (.afterParam name (token.text :: params))
        (Nat.zero_le _)
  | afterParam name params => exact builds_stepAfterParam state token name params
  | bodyOpen name params => exact builds_stepBodyOpen state token name params
  | operand context => exact builds_stepOperand state context token
  | firstArg context callee => exact builds_stepFirstArg state context token callee
  | afterIdent context name => exact builds_stepAfterIdent state context token name
  | operator context value => exact builds_stepOperator state context token value

end Steps

/-! ## Runs -/

theorem builds_run (state : State ExprId) (tokens : List Token) :
    Builds ⟨state.holding.ids, state.holding.owed + tokens.length⟩ (state.run tokens)
      State.holding := by
  induction tokens generalizing state with
  | nil => exact builds_pure rfl (Nat.le_refl _)
  | cons token rest inductionHypothesis =>
      have stepped := (builds_step state token).frame rest.length
      refine (stepped.bind inductionHypothesis).widen rfl (Nat.le_of_eq ?_)
      rw [List.length_cons, Nat.add_assoc, Nat.add_comm 1]

/-- The operators before a complete operand are completed. -/
theorem builds_settleOperand (state : State ExprId) (context : Context ExprId) (value : ExprId) :
    Builds ⟨state.heldBefore ++ (context.held ++ [value]), context.owed⟩
      (do
        let value ← completeAll context.pending value
        pure { state with phase := .operator { context with pending := [] } value })
      State.holding := by
  have operators := builds_completeAll (state.heldBefore ++ heldBrackets context.brackets)
    (owedBrackets context.brackets) context.pending value
  refine (operators.bind fun operand => builds_pure ?_ (Nat.le_refl _)).widen ?_ (Nat.le_refl _)
  · simp [State.holding, State.heldBefore, Phase.held, Context.held, heldPending]
  · simp [Context.held]

theorem builds_settle (state : State ExprId) :
    Builds state.holding state.settle State.holding := by
  obtain ⟨phase, block, enclosing⟩ := state
  cases phase with
  | afterIdent context name =>
      refine builds_addNode _ (List.append_nil _).symm (Nat.le_refl _) fun id => ?_
      exact (builds_settleOperand ⟨.afterIdent context name, block, enclosing⟩ context id).widen
        (List.append_assoc _ _ _) (Nat.le_refl _)
  | operator context value =>
      exact builds_settleOperand ⟨.operator context value, block, enclosing⟩ context value
  | _ => exact builds_pure rfl (Nat.le_refl _)

theorem builds_finish (state : State ExprId) :
    Builds state.holding state.finish fun body => ⟨Stmt.rootsAll body, 0⟩ := by
  refine (builds_settle state).bind fun settled => ?_
  cases missing : settled.missing? with
  | some expected => exact builds_throw _ _ _
  | none =>
      obtain ⟨here, outermost⟩ := State.missing?_eq_none missing
      refine builds_pure ?_ (Nat.zero_le _)
      simp [State.holding, State.heldBefore, here, outermost, Phase.held, heldEnclosing]

/-- Reading tokens adds no more nodes than there are tokens, and the statements that are read
hold all of them. -/
theorem builds_read (tokens : List Token) :
    Builds ⟨[], tokens.length⟩ (read tokens) fun body => ⟨Stmt.rootsAll body, 0⟩ :=
  ((builds_run State.start tokens).bind builds_finish).widen rfl
    (Nat.le_of_eq (Nat.zero_add _))

/-- However reading ends, every node of the table has a token of its own.  If a program is
read, its statements hold all of them. -/
theorem adds_build (tokens : List Token) :
    ∃ ids count, Adds [] #[] ids (build tokens).nodes count ∧ count ≤ tokens.length ∧
      ∀ program, parse tokens = .ok program → Stmt.rootsAll program.body = ids := by
  have built := builds_read tokens #[]
  unfold parse build
  split at built
  case h_1 body last ended =>
      obtain ⟨count, adds, within⟩ := built
      rw [ended]
      refine ⟨_, count, adds, within, fun program same => ?_⟩
      cases same
      rfl
  case h_2 error last ended =>
      obtain ⟨ids, count, adds, within⟩ := built
      rw [ended]
      exact ⟨ids, count, adds, within, nofun⟩

theorem size_build_le (tokens : List Token) : (build tokens).nodes.size ≤ tokens.length := by
  obtain ⟨ids, count, adds, within, _⟩ := adds_build tokens
  rw [adds.size, Array.size_empty, Nat.zero_add]
  exact within

end Parser

/-! ## Parsed programs -/

/-- The table that is filled while a program is read lists it from the first position to the
last. -/
theorem postOrder?_of_parse {tokens : List Token} {program : Program}
    (parsed : parse tokens = .ok program) :
    program.postOrder? = some (List.range program.nodes.size) := by
  obtain ⟨ids, count, adds, _, holds⟩ := Parser.adds_build tokens
  have listed : Parser.Listed ids (Parser.build tokens).nodes := adds.listed rfl
  rw [Parser.nodes_build parsed, ← holds program parsed] at listed
  exact listed

/-- With no more tokens than there are positions the table does not overflow. -/
theorem readProgram_eq_of_short {source : String} {tokens : List Token}
    (lexed : tokenize source = .ok tokens) (short : tokens.length ≤ Program.capacity) :
    readProgram source = (parse tokens).mapError .parse := by
  rw [readProgram_of_tokenize lexed, if_pos (Nat.le_trans (Parser.size_build_le tokens) short)]

/-- The table of a parsed program lists its expressions in post-order: visiting the
statements in the order of the source, and each expression after its operands, meets the
positions of the table one after the other.  So every position is in the table, operands
stand before the expressions that use them, every position is referred to exactly once, and
there are no more nodes than tokens.  The nodes are added while the tokens are read, and they
are those that storing the trees of the tokens gives.  Wherever reading stops, also at an
error, it has added no more nodes than there are tokens, so no list that is short enough to
have its tokens counted by positions makes the table overflow. -/
theorem parsed_table_is_in_post_order (tokens : List Token) :
    (∀ program, parse tokens = .ok program →
      program.postOrder? = some (List.range program.nodes.size) ∧
        program.WellFormed ∧
        (Stmt.rootsAll program.body ++ program.nodes.toList.flatMap Node.children).Perm
          (List.range program.nodes.size) ∧
        program.nodes.size ≤ tokens.length ∧
        (tokens.length < Nat.pow 2 32 → ∀ id, id < program.nodes.size → id < Nat.pow 2 32)) ∧
      parse tokens = (Parser.trees tokens).map Program.ofTrees ∧
      (Parser.build tokens).nodes.size ≤ tokens.length ∧
      (tokens.length ≤ Program.capacity → ∀ source, tokenize source = .ok tokens →
        readProgram source = (parse tokens).mapError .parse) := by
  have size := Parser.size_build_le tokens
  refine ⟨fun program parsed => ?_, parse_eq_map_trees tokens, size,
    fun short source lexed => readProgram_eq_of_short lexed short⟩
  have listed := postOrder?_of_parse parsed
  have within : program.nodes.size ≤ tokens.length := by
    rwa [← Parser.nodes_build parsed]
  exact ⟨listed, Program.wellFormed_of_listed listed, Program.references_perm listed, within,
    fun short id inside => Nat.lt_trans inside (Nat.lt_of_le_of_lt within short)⟩

/-- The call stands after its argument, the sum after both of its operands, and the body of
the function after the statement before it. -/
theorem nested_program_is_in_post_order :
    let tokens : List Token := [⟨.ident, "f"⟩, ⟨.leftParen, "("⟩, ⟨.ident, "x"⟩, ⟨.rightParen, ")"⟩,
      ⟨.plus, "+"⟩, ⟨.ident, "y"⟩, ⟨.semicolon, ";"⟩,
      ⟨.ident, "fn"⟩, ⟨.ident, "g"⟩, ⟨.leftParen, "("⟩, ⟨.rightParen, ")"⟩, ⟨.leftBrace, "\x7b"⟩,
      ⟨.ident, "return"⟩, ⟨.text, "a"⟩, ⟨.semicolon, ";"⟩, ⟨.rightBrace, "\x7d"⟩]
    let program : Program := ⟨#[.ident "x", .call "f" [0], .ident "y", .binary .add 1 2, .text "a"],
      [.expr 3, .fnDef "g" [] [.ret 4]]⟩
    parse tokens = .ok program ∧ program.postOrder? = some [0, 1, 2, 3, 4] := by
  intro tokens program
  have parsed : parse tokens = .ok program := rfl
  exact ⟨parsed, ((parsed_table_is_in_post_order tokens).1 program parsed).1⟩

end ScopeScript
