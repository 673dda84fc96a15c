import ScopeScript.Proofs.Storage
import ScopeScript.Proofs.TreeParser
import ScopeScript.Run

/-!
Contract: the parser fills its table as if the trees were stored after parsing.

Owns: storing the trees of an unfinished state, the agreement of both parsers in every
step, and the programs and errors of `parse` in terms of trees.

A state of the parser that makes trees is stored in the order of the source: the blocks from
the outside in, then the brackets of the unfinished expression with the operators before each
of them, then the operators that are pending and the operand after them.  The state and the
table that this gives are those of the parser that fills a table.  So after every token both
parsers are at the same point, with the same nodes in the same places.
-/

set_option autoImplicit false

namespace ScopeScript

namespace Storage

theorem storeAll_concat (exprs : List Expr) (expr : Expr) (nodes : Array Node) :
    Expr.storeAll (exprs ++ [expr]) nodes =
      ((Expr.storeAll exprs nodes).1 ++ [(expr.store (Expr.storeAll exprs nodes).2).1],
        (expr.store (Expr.storeAll exprs nodes).2).2) := by
  induction exprs generalizing nodes with
  | nil => rfl
  | cons first rest inductionHypothesis =>
      rw [List.cons_append, storeAll_cons, storeAll_cons, inductionHypothesis]
      rfl

theorem stmtStoreAll_concat (stmts : List (Stmt Expr)) (stmt : Stmt Expr) (nodes : Array Node) :
    Stmt.storeAll (stmts ++ [stmt]) nodes =
      ((Stmt.storeAll stmts nodes).1 ++ [(stmt.store (Stmt.storeAll stmts nodes).2).1],
        (stmt.store (Stmt.storeAll stmts nodes).2).2) := by
  induction stmts generalizing nodes with
  | nil => rfl
  | cons first rest inductionHypothesis =>
      rw [List.cons_append, stmtStoreAll_cons, stmtStoreAll_cons, inductionHypothesis]
      rfl

end Storage

namespace Parser

open Storage

/-! ## Storing a state -/

/-- The operators that were read first are stored first. -/
def storePending : List (Pending Expr) → Array Node → List (Pending ExprId) × Array Node
  | [], nodes => ([], nodes)
  | ⟨left, op⟩ :: rest, nodes =>
      let (rest, nodes) := storePending rest nodes
      let (left, nodes) := left.store nodes
      (⟨left, op⟩ :: rest, nodes)

def Bracket.store : Bracket Expr → Array Node → Bracket ExprId × Array Node
  | .paren, nodes => (.paren, nodes)
  | .call callee args, nodes =>
      let (args, nodes) := Expr.storeAll args.reverse nodes
      (.call callee args.reverse, nodes)

def storeBrackets : List (OpenBracket Expr) → Array Node → List (OpenBracket ExprId) × Array Node
  | [], nodes => ([], nodes)
  | ⟨bracket, pending⟩ :: rest, nodes =>
      let (rest, nodes) := storeBrackets rest nodes
      let (pending, nodes) := storePending pending nodes
      let (bracket, nodes) := bracket.store nodes
      (⟨bracket, pending⟩ :: rest, nodes)

def Context.store (context : Context Expr) (nodes : Array Node) : Context ExprId × Array Node :=
  let (brackets, nodes) := storeBrackets context.brackets nodes
  let (pending, nodes) := storePending context.pending nodes
  (⟨context.goal, brackets, pending⟩, nodes)

def Phase.store : Phase Expr → Array Node → Phase ExprId × Array Node
  | .statement, nodes => (.statement, nodes)
  | .letName, nodes => (.letName, nodes)
  | .letEqual name, nodes => (.letEqual name, nodes)
  | .fnName, nodes => (.fnName, nodes)
  | .fnOpen name, nodes => (.fnOpen name, nodes)
  | .firstParam name, nodes => (.firstParam name, nodes)
  | .nextParam name params, nodes => (.nextParam name params, nodes)
  | .afterParam name params, nodes => (.afterParam name params, nodes)
  | .bodyOpen name params, nodes => (.bodyOpen name params, nodes)
  | .operand context, nodes =>
      let (context, nodes) := context.store nodes
      (.operand context, nodes)
  | .firstArg context callee, nodes =>
      let (context, nodes) := context.store nodes
      (.firstArg context callee, nodes)
  | .afterIdent context name, nodes =>
      let (context, nodes) := context.store nodes
      (.afterIdent context name, nodes)
  | .operator context value, nodes =>
      let (context, nodes) := context.store nodes
      let (value, nodes) := value.store nodes
      (.operator context value, nodes)

def storeBlock (block : List (Stmt Expr)) (nodes : Array Node) :
    List (Stmt ExprId) × Array Node :=
  let (stmts, nodes) := Stmt.storeAll block.reverse nodes
  (stmts.reverse, nodes)

def storeEnclosing : List (OpenFn Expr) → Array Node → List (OpenFn ExprId) × Array Node
  | [], nodes => ([], nodes)
  | ⟨name, params, before⟩ :: rest, nodes =>
      let (rest, nodes) := storeEnclosing rest nodes
      let (before, nodes) := storeBlock before nodes
      (⟨name, params, before⟩ :: rest, nodes)

/-- The table before the unfinished statement. -/
def State.base (state : State Expr) : Array Node :=
  (storeBlock state.block (storeEnclosing state.enclosing #[]).2).2

/-- The state with its trees stored in an empty table. -/
def State.store (state : State Expr) : State ExprId × Array Node :=
  let (enclosing, nodes) := storeEnclosing state.enclosing #[]
  let (block, nodes) := storeBlock state.block nodes
  let (phase, nodes) := state.phase.store nodes
  (⟨phase, block, enclosing⟩, nodes)

theorem storeBlock_cons (stmt : Stmt Expr) (rest : List (Stmt Expr)) (nodes : Array Node) :
    storeBlock (stmt :: rest) nodes =
      ((stmt.store (storeBlock rest nodes).2).1 :: (storeBlock rest nodes).1,
        (stmt.store (storeBlock rest nodes).2).2) := by
  simp only [storeBlock, List.reverse_cons, stmtStoreAll_concat, List.reverse_append]
  rfl

theorem Goal.store_stmt (goal : Goal) (value : Expr) (nodes : Array Node) :
    (goal.stmt value).store nodes =
      (goal.stmt (value.store nodes).1, (value.store nodes).2) := by
  cases goal <;> rfl

/-! ## Steps -/

section Results

variable {α β γ δ : Type}

theorem TableParser.bind_of_ok {first : TableParser α} {nodes between : Array Node} {value : α}
    (next : α → TableParser β) (returned : first nodes = .ok value between) :
    (first >>= next) nodes = next value between := by
  change EStateM.bind first next nodes = _
  rw [EStateM.bind, returned]

theorem TableParser.bind_of_error {first : TableParser α} {nodes between : Array Node}
    {error : ParseError} (next : α → TableParser β)
    (stopped : first nodes = .error error between) :
    (first >>= next) nodes = .error error between := by
  change EStateM.bind first next nodes = _
  rw [EStateM.bind, stopped]

/-- From the table `nodes` on, the second action returns what the first one returns, stored
by `store`, or stops at the same error. -/
def Stores (store : α → β × Array Node) (tree : Except ParseError α) (table : TableParser β)
    (nodes : Array Node) : Prop :=
  match tree with
  | .ok value => table nodes = .ok (store value).1 (store value).2
  | .error error => ∃ after, table nodes = .error error after

theorem Stores.bind {store : α → β × Array Node} {storeNext : γ → δ × Array Node}
    {tree : Except ParseError α} {table : TableParser β} {nodes : Array Node}
    {next : α → Except ParseError γ} {tableNext : β → TableParser δ}
    (stores : Stores store tree table nodes)
    (continues : ∀ value, Stores storeNext (next value) (tableNext (store value).1)
      (store value).2) :
    Stores storeNext (tree >>= next) (table >>= tableNext) nodes := by
  cases tree with
  | error error =>
      obtain ⟨after, stopped⟩ := stores
      exact ⟨after, TableParser.bind_of_error tableNext stopped⟩
  | ok value =>
      have rest := continues value
      unfold Stores at rest ⊢
      rw [TableParser.bind_of_ok tableNext stores]
      exact rest

theorem stores_throw (store : α → β × Array Node) (error : ParseError) (nodes : Array Node) :
    Stores store (throw error) (throw error) nodes :=
  ⟨nodes, rfl⟩

end Results

/-- Pending operators and the operand after them. -/
def storeOperand (nodes : Array Node) (operand : List (Pending Expr) × Expr) :
    (List (Pending ExprId) × ExprId) × Array Node :=
  let (pending, nodes) := storePending operand.1 nodes
  let (value, nodes) := operand.2.store nodes
  ((pending, value), nodes)

theorem stores_complete (nodes : Array Node) (precedence : Nat) (pending : List (Pending Expr))
    (right : Expr) :
    Stores (storeOperand nodes) (complete precedence pending right)
      (complete precedence (storePending pending nodes).1
        (right.store (storePending pending nodes).2).1)
      (right.store (storePending pending nodes).2).2 := by
  induction pending generalizing right with
  | nil => rfl
  | cons entry rest inductionHypothesis =>
      obtain ⟨left, op⟩ := entry
      simp only [storePending, complete]
      split
      · exact inductionHypothesis (.binary op left right)
      · rfl

theorem stores_completeAll (nodes : Array Node) (pending : List (Pending Expr)) (right : Expr) :
    Stores (fun value => value.store nodes) (completeAll pending right)
      (completeAll (storePending pending nodes).1 (right.store (storePending pending nodes).2).1)
      (right.store (storePending pending nodes).2).2 := by
  induction pending generalizing right with
  | nil => rfl
  | cons entry rest inductionHypothesis =>
      exact inductionHypothesis (.binary entry.op entry.left right)

section Steps

variable (state : State Expr) (context : Context Expr) (token : Token)

theorem stores_expect (kind : TokenKind) (phase : Phase Expr) :
    Stores State.store (state.expect token kind phase)
      (state.store.1.expect token kind (phase.store state.base).1) (phase.store state.base).2 := by
  unfold State.expect
  split
  · rfl
  · exact stores_throw _ _ _

theorem stores_stepOperand :
    Stores State.store (state.stepOperand context token)
      (state.store.1.stepOperand (context.store state.base).1 token)
      (context.store state.base).2 := by
  unfold State.stepOperand
  split
  · cases Number.read? token.text with
    | some value => rfl
    | none => exact stores_throw _ _ _
  · rfl
  · rfl
  · rfl
  · exact stores_throw _ _ _

theorem stores_stepStatement :
    Stores State.store (state.stepStatement token) (state.store.1.stepStatement token)
      state.base := by
  obtain ⟨phase, block, enclosing⟩ := state
  unfold State.stepStatement
  split
  · rfl
  split
  · rfl
  split
  · rfl
  cases enclosing with
  | nil =>
      cases token.kind <;> exact stores_stepOperand ⟨phase, block, []⟩ ⟨.statement, [], []⟩ token
  | cons fn rest =>
      obtain ⟨name, params, before⟩ := fn
      cases token.kind
      case rightBrace =>
        simp only [Stores, pure_eq_ok, State.store, storeBlock_cons]
        simp only [storeEnclosing, State.base, Phase.store, stmtStore_fnDef, storeBlock,
          List.reverse_reverse]
        rfl
      all_goals
        exact stores_stepOperand ⟨phase, block, ⟨name, params, before⟩ :: rest⟩
          ⟨.statement, [], []⟩ token

theorem stores_stepEnd (stale : List (Pending ExprId)) (value : Expr) :
    let stored := storeBrackets context.brackets state.base
    Stores State.store (state.stepEnd context value token)
      (state.store.1.stepEnd ⟨context.goal, stored.1, stale⟩ (value.store stored.2).1 token)
      (value.store stored.2).2 := by
  obtain ⟨goal, brackets, pending⟩ := context
  cases brackets with
  | nil =>
      simp only [State.stepEnd, storeBrackets]
      split
      · simp only [Stores, pure_eq_ok, State.addStmt, State.store, storeBlock_cons, Goal.store_stmt]
        rfl
      · exact stores_throw _ _ _
  | cons entry rest =>
      obtain ⟨bracket, outer⟩ := entry
      cases bracket with
      | paren =>
          exact stores_expect state token .rightParen (.operator ⟨goal, rest, outer⟩ value)
      | call callee args =>
          simp only [State.stepEnd, storeBrackets, Bracket.store]
          split
          · simp only [Stores, pure_eq_ok, State.store, Phase.store, Context.store, storeBrackets,
              Bracket.store, List.reverse_cons, storeAll_concat, List.reverse_append]
            rfl
          split
          · simp only [Stores, build_call, ok_bind, pure_eq_ok, State.store, Phase.store,
              Context.store, List.reverse_cons, List.reverse_reverse, store_call, storeAll_concat]
            rfl
          · exact stores_throw _ _ _

theorem stores_stepOperator (value : Expr) :
    let stored := context.store state.base
    Stores State.store (state.stepOperator context value token)
      (state.store.1.stepOperator stored.1 (value.store stored.2).1 token)
      (value.store stored.2).2 := by
  unfold State.stepOperator
  split
  · exact (stores_complete _ _ context.pending value).bind fun operand => rfl
  · exact (stores_completeAll _ context.pending value).bind fun operand =>
      stores_stepEnd state context token _ operand

theorem stores_stepAfterIdent (name : String) :
    Stores State.store (state.stepAfterIdent context name token)
      (state.store.1.stepAfterIdent (context.store state.base).1 name token)
      (context.store state.base).2 := by
  unfold State.stepAfterIdent
  split
  · rfl
  · exact stores_stepOperator state context token (.ident name)

theorem stores_stepFirstArg (callee : String) :
    Stores State.store (state.stepFirstArg context callee token)
      (state.store.1.stepFirstArg (context.store state.base).1 callee token)
      (context.store state.base).2 := by
  unfold State.stepFirstArg
  split
  · rfl
  · exact stores_stepOperand state (context.inside (.call callee [])) token

theorem stores_stepFirstParam (name : String) :
    Stores State.store (state.stepFirstParam name token)
      (state.store.1.stepFirstParam name token) state.base := by
  unfold State.stepFirstParam
  split
  · rfl
  · exact stores_expect state token .rightParen (.bodyOpen name [])

theorem stores_stepAfterParam (name : String) (params : List String) :
    Stores State.store (state.stepAfterParam name params token)
      (state.store.1.stepAfterParam name params token) state.base := by
  unfold State.stepAfterParam
  split
  · rfl
  · exact stores_expect state token .rightParen (.bodyOpen name params)

theorem stores_stepBodyOpen (name : String) (params : List String) :
    Stores State.store (state.stepBodyOpen name params token)
      (state.store.1.stepBodyOpen name params token) state.base := by
  unfold State.stepBodyOpen
  split
  · rfl
  · exact stores_throw _ _ _

/-- After one token the table parser is at the stored state, if it was before. -/
theorem stores_step :
    Stores State.store (state.step token) (state.store.1.step token) state.store.2 := by
  obtain ⟨phase, block, enclosing⟩ := state
  cases phase with
  | statement => exact stores_stepStatement ⟨.statement, block, enclosing⟩ token
  | letName => exact stores_expect ⟨.letName, block, enclosing⟩ token .ident (.letEqual token.text)
  | letEqual name =>
      exact stores_expect ⟨.letEqual name, block, enclosing⟩ token .equal
        (.operand ⟨.letValue name, [], []⟩)
  | fnName => exact stores_expect ⟨.fnName, block, enclosing⟩ token .ident (.fnOpen token.text)
  | fnOpen name =>
      exact stores_expect ⟨.fnOpen name, block, enclosing⟩ token .leftParen (.firstParam name)
  | firstParam name =>
      exact stores_stepFirstParam ⟨.firstParam name, block, enclosing⟩ token name
  | nextParam name params =>
      exact stores_expect ⟨.nextParam name params, block, enclosing⟩ token .ident
        (.afterParam name (token.text :: params))
  | afterParam name params =>
      exact stores_stepAfterParam ⟨.afterParam name params, block, enclosing⟩ token name params
  | bodyOpen name params =>
      exact stores_stepBodyOpen ⟨.bodyOpen name params, block, enclosing⟩ token name params
  | operand context => exact stores_stepOperand ⟨.operand context, block, enclosing⟩ context token
  | firstArg context callee =>
      exact stores_stepFirstArg ⟨.firstArg context callee, block, enclosing⟩ context token callee
  | afterIdent context name =>
      exact stores_stepAfterIdent ⟨.afterIdent context name, block, enclosing⟩ context token name
  | operator context value =>
      exact stores_stepOperator ⟨.operator context value, block, enclosing⟩ context token value

end Steps

/-! ## Runs -/

theorem stores_run (state : State Expr) (tokens : List Token) :
    Stores State.store (state.run tokens) (state.store.1.run tokens) state.store.2 := by
  induction tokens generalizing state with
  | nil => rfl
  | cons token rest inductionHypothesis =>
      exact (stores_step state token).bind fun next => inductionHypothesis next

theorem missing?_store (state : State Expr) : state.store.1.missing? = state.missing? := by
  obtain ⟨phase, block, enclosing⟩ := state
  have closing (context : Context Expr) (nodes : Array Node) :
      (context.store nodes).1.closing = context.closing := by
    obtain ⟨goal, brackets, pending⟩ := context
    cases brackets <;> rfl
  cases phase with
  | statement => cases enclosing <;> rfl
  | afterIdent context name => exact congrArg some (closing context _)
  | operator context value => exact congrArg some (closing context _)
  | _ => rfl

theorem stores_settle (state : State Expr) :
    Stores State.store state.settle state.store.1.settle state.store.2 := by
  obtain ⟨phase, block, enclosing⟩ := state
  cases phase with
  | afterIdent context name =>
      exact (stores_completeAll _ context.pending (.ident name)).bind fun value => rfl
  | operator context value =>
      exact (stores_completeAll _ context.pending value).bind fun value => rfl
  | _ => rfl

theorem stores_finish (state : State Expr) :
    Stores (fun stmts => Stmt.storeAll stmts #[]) state.finish state.store.1.finish
      state.store.2 := by
  refine (stores_settle state).bind fun settled => ?_
  rw [missing?_store]
  cases missing : settled.missing? with
  | some expected => exact stores_throw _ _ _
  | none =>
      obtain ⟨here, outermost⟩ := State.missing?_eq_none missing
      obtain ⟨phase, block, enclosing⟩ := settled
      cases here
      cases outermost
      exact congrArg (EStateM.Result.ok · _) (List.reverse_reverse _)

/-- Both parsers read all tokens, or both stop at the same error. -/
theorem stores_read (tokens : List Token) :
    Stores (fun stmts => Stmt.storeAll stmts #[]) (trees tokens) (read tokens) #[] :=
  (stores_run State.start tokens).bind stores_finish

end Parser

/-! ## Programs -/

/-- The program that is built while its tokens are read is the one that is made from their
trees. -/
theorem parse_eq_map_trees (tokens : List Token) :
    parse tokens = (Parser.trees tokens).map Program.ofTrees := by
  have stores := Parser.stores_read tokens
  unfold Parser.Stores at stores
  unfold parse Parser.build
  cases read : Parser.trees tokens with
  | ok stmts =>
      rw [read] at stores
      rw [stores]
      rfl
  | error error =>
      rw [read] at stores
      obtain ⟨after, stopped⟩ := stores
      rw [stopped]
      rfl

/-- A program that is parsed was made from the trees of its tokens. -/
theorem parse_eq_ok {tokens : List Token} {program : Program} :
    parse tokens = .ok program ↔
      ∃ trees, Parser.trees tokens = .ok trees ∧ program = Program.ofTrees trees := by
  rw [parse_eq_map_trees]
  cases Parser.trees tokens with
  | ok trees => simp [Except.map, eq_comm]
  | error error => simp [Except.map]

theorem parse_eq_error {tokens : List Token} {error : ParseError} :
    parse tokens = .error error ↔ Parser.trees tokens = .error error := by
  rw [parse_eq_map_trees]
  cases Parser.trees tokens <;> simp [Except.map]

/-- The table of a parsed program is the one that reading leaves. -/
theorem Parser.nodes_build {tokens : List Token} {program : Program}
    (parsed : parse tokens = .ok program) : (Parser.build tokens).nodes = program.nodes := by
  unfold parse at parsed
  cases ended : Parser.build tokens with
  | ok body nodes =>
      rw [ended] at parsed
      cases parsed
      rfl
  | error error nodes =>
      rw [ended] at parsed
      cases parsed

/-- Source text is read by parsing its tokens, unless that makes the table overflow. -/
theorem readProgram_of_tokenize {source : String} {tokens : List Token}
    (lexed : tokenize source = .ok tokens) :
    readProgram source =
      if (Parser.build tokens).nodes.size ≤ Program.capacity then
        (parse tokens).mapError .parse
      else .error (.halt .fault) := by
  unfold readProgram parse
  rw [lexed]
  simp only
  cases (Parser.build tokens).program <;> rfl

theorem readProgram_eq_ok_iff {source : String} {program : Program} :
    readProgram source = .ok program ↔
      ∃ tokens, tokenize source = .ok tokens ∧
        (Parser.build tokens).nodes.size ≤ Program.capacity ∧ parse tokens = .ok program := by
  cases lexed : tokenize source with
  | error error => simp [readProgram, lexed]
  | ok tokens =>
      rw [readProgram_of_tokenize lexed]
      by_cases fits : (Parser.build tokens).nodes.size ≤ Program.capacity
      · have same : (parse tokens).mapError RunError.parse = .ok program ↔
            parse tokens = .ok program := by
          cases parse tokens with
          | ok other => constructor <;> (intro same; cases same; rfl)
          | error error => constructor <;> (intro same; cases same)
        simp [fits, same]
      · simp [fits]

end ScopeScript
