import ScopeScript.Eval.Evaluator

/-!
Contract: an evaluator that keeps its bindings in a plain stack.

Owns: stacks of tables, the search from the top, and the meaning of programs whose names
are looked up in this way.

There are no positions and no parents here.  A call puts new tables on the stack and takes
them off again, writes go to the tables on top, and a name means the first entry that the
search finds.
-/

set_option autoImplicit false

namespace ScopeScript.Stack

/-- The tables of one call, or of the top level. -/
structure Level where
  vars : Table Value
  fns : Table (FnDef ExprId)

/-- Tables in which only the variables are bound, one after the other. -/
def Level.binding (bindings : List (String × Value)) : Level where
  vars := bindings.foldl (fun vars binding => vars.insert binding.1 binding.2) .empty
  fns := .empty

/-- The state of a run: the stack with the innermost call on top, the active calls and the
text printed so far. -/
structure State where
  levels : List Level
  calls : CallStack
  output : String

/-- The state at the start of a run that prints after `output`. -/
def State.initial (limit : CallLimit) (output : String) : State where
  levels := [.binding []]
  calls := .empty limit
  output

/-- Takes the innermost call off the stack. -/
def State.leave (state : State) : State :=
  { state with levels := state.levels.tail, calls := state.calls.pop }

/-- A step of a run. -/
abbrev Action (α : Type) := EStateM Halt State α

/-- The first entry of a name from the top of the stack. -/
def search {α : Type} (table : Level → Table α) (name : String) (levels : List Level) :
    Option α :=
  levels.findSome? fun level => (table level).get? name

/-! ## Actions -/

variable {α : Type}

/-- Raises a runtime error. -/
def raise (cause : Cause) : Action α :=
  throw (.error (.ofCause cause))

/-- Searches for a name. -/
def read (table : Level → Table α) (missing : String → Cause) (name : String) : Action α := do
  match search table name (← get).levels with
  | some entry => pure entry
  | none => raise (missing name)

/-- Changes the tables on top. -/
def write (change : Level → Level) : Action Unit :=
  modify fun state => { state with levels := state.levels.modifyHead change }

/-- Prints one line. -/
def printLine (line : String) : Action Unit :=
  modify fun state => { state with output := appendLine state.output line }

/-- Enters a call, up to the limit. -/
def enterCall (name : String) : Action Unit := fun state =>
  match state.calls.refusal? with
  | some cause => .error (.error (.ofCause cause)) state
  | none => .ok () { state with calls := state.calls.push name }

/-- Puts tables on the stack while there is room. -/
def enterLevel (level : Level) : Action Unit := fun state =>
  if state.levels.length < Environment.capacity then
    .ok () { state with levels := level :: state.levels }
  else .error .fault state

/-- Runs the body of the innermost call and leaves the call, however the body ends.  An
error gets the backtrace of the calls active at that point. -/
def inCall (body : Action α) : Action α := fun state =>
  match body state with
  | .ok value after => .ok value after.leave
  | .error halt after => .error (halt.traced after.calls) after.leave

/-! ## Evaluation -/

section Layer

variable (eval : ExprId → Action Value)

/-- Evaluates expressions from left to right. -/
def evalAll : List ExprId → Action (List Value)
  | [] => pure []
  | id :: rest => do
      let value ← eval id
      let values ← evalAll rest
      pure (value :: values)

/-- Executes one statement. -/
def execStmt : Stmt ExprId → Action Flow
  | .letBind name value => do
      let value ← eval value
      write fun level => { level with vars := level.vars.insert name value }
      pure .normal
  | .fnDef name params body => do
      write fun level => { level with fns := level.fns.insert name { name, params, body } }
      pure .normal
  | .ret value => do
      let value ← eval value
      pure (.returned value)
  | .expr value => do
      let _ ← eval value
      pure .normal

/-- Executes statements until one of them returns. -/
def execBlock : List (Stmt ExprId) → Action Flow
  | [] => pure .normal
  | stmt :: rest => do
      match ← execStmt eval stmt with
      | .normal => execBlock rest
      | .returned value => pure (.returned value)

/-- The body of a function. -/
def runBody (body : List (Stmt ExprId)) : Action Value := do
  let flow ← execBlock eval body
  pure flow.result

/-- Calls a function with the values of its arguments. -/
def call (definition : FnDef ExprId) (values : List Value) : Action Value := do
  enterCall definition.name
  enterLevel (.binding (definition.params.zip values))
  inCall (runBody eval definition.body)

/-- Evaluates one node with `eval` for its operands. -/
def evalNode : Node → Action Value
  | .number value => pure (.number value)
  | .text value => pure (.text value)
  | .ident name => read Level.vars .undefinedVariable name
  | .binary op left right => do
      let left ← eval left
      let right ← eval right
      match op.apply left right with
      | .ok value => pure value
      | .error cause => raise cause
  | .call callee args =>
      if callee = printName then do
        let values ← evalAll eval args
        printLine (printedLine values)
        pure .void
      else do
        let definition ← read Level.fns .undefinedFunction callee
        let values ← evalAll eval (args.take definition.params.length)
        call eval definition values

end Layer

/-- Evaluates the expression at a position, nested no deeper than the first argument
says. -/
def evalExpr (nodes : Array Node) : Nat → ExprId → Action Value
  | 0, _ => throw .exhausted
  | depth + 1, id =>
      match nodes[id]? with
      | none => throw .fault
      | some node => evalNode (evalExpr nodes depth) node

/-! ## Equations -/

theorem bind_apply {β : Type} (first : Action α) (next : α → Action β) (state : State) :
    (first >>= next) state =
      match first state with
      | .ok value between => next value between
      | .error halt between => .error halt between := by
  change EStateM.bind first next state = _
  unfold EStateM.bind
  cases first state <;> rfl

theorem read_apply (table : Level → Table α) (missing : String → Cause) (name : String)
    (state : State) :
    read table missing name state =
      match search table name state.levels with
      | some entry => .ok entry state
      | none => .error (.error (.ofCause (missing name))) state := by
  change (match search table name state.levels with
    | some entry => (pure entry : Action α)
    | none => raise (missing name)) state = _
  cases search table name state.levels <;> rfl

end ScopeScript.Stack

namespace ScopeScript.Program

/-- Executes the top-level statements on a plain stack. -/
def execOnStack (program : Program) : Stack.Action Unit := do
  match ← Stack.execBlock (Stack.evalExpr program.nodes program.nesting) program.body with
  | .normal => pure ()
  | .returned _ => Stack.raise .returnOutsideFunction

/-- Runs the program on a plain stack. -/
def runOnStack (program : Program) (limit : CallLimit) (output : String) :
    EStateM.Result Halt Stack.State Unit :=
  program.execOnStack (.initial limit output)

end ScopeScript.Program
