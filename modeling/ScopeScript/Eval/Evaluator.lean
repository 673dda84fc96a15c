import ScopeScript.Eval.Machine

/-!
Contract: the meaning of programs.

Owns: expressions, calls, statements and whole programs as actions of the
machine.

Only `evalExpr` is recursive in the depth of evaluation.  All else takes the
evaluator of expressions as an argument, so that a claim about one layer of
evaluation can be stated for any evaluator below it.

The bound on nesting is taken from the program: every active call has a frame,
positions of frames are limited, and within one call an expression is nested no
deeper than the table of nodes is long.
-/

set_option autoImplicit false

namespace ScopeScript

/-- How a statement ends. -/
inductive Flow where
  | normal
  | returned (value : Value)
deriving DecidableEq, Repr

/-- The result of a call whose body ends this way. -/
def Flow.result : Flow → Value
  | .normal => .void
  | .returned value => value

/-- The function that prints its arguments.  No definition can replace it. -/
def printName : String := "print"

/-- The line that `print` shows for its arguments. -/
def printedLine (values : List Value) : String :=
  " ".intercalate (values.map Value.display)

namespace Eval

/-- An evaluator of expressions in a frame. -/
abbrev Evaluator := ExprId → FrameId → Eval Value

section Layer

variable (settings : Settings) (eval : Evaluator)

/-- Evaluates expressions from left to right. -/
def evalAll (frame : FrameId) : List ExprId → Eval (List Value)
  | [] => pure []
  | id :: rest => do
      let value ← eval id frame
      let values ← evalAll frame rest
      pure (value :: values)

/-- Executes one statement. -/
def execStmt (frame : FrameId) : Stmt ExprId → Eval Flow
  | .letBind name value => do
      let value ← eval value frame
      bindVar frame name value
      pure .normal
  | .fnDef name params body => do
      bindFn frame { name, params, body }
      pure .normal
  | .ret value => do
      let value ← eval value frame
      pure (.returned value)
  | .expr value => do
      let _ ← eval value frame
      pure .normal

/-- Executes statements until one of them returns. -/
def execBlock (frame : FrameId) : List (Stmt ExprId) → Eval Flow
  | [] => pure .normal
  | stmt :: rest => do
      match ← execStmt eval frame stmt with
      | .normal => execBlock frame rest
      | .returned value => pure (.returned value)

/-- Prints the arguments on one line.  Nothing is printed unless all of them have
a value. -/
def evalPrint (args : List ExprId) (frame : FrameId) : Eval Value := do
  let values ← evalAll eval frame args
  printLine (printedLine values)
  pure .void

/-- The frame that a function called from `caller` and defined in `owner` asks
next. -/
def callParent (caller owner : FrameId) : FrameId :=
  match settings.scoping with
  | .dynamic => caller
  | .lexical => owner

/-- Calls a function.  Parameters and arguments are paired in order; an argument
without a parameter is not evaluated and a parameter without an argument is not
bound. -/
def evalCall (callee : String) (args : List ExprId) (frame : FrameId) : Eval Value := do
  let (definition, owner) ← readFn frame callee
  let values ← evalAll eval frame (args.take definition.params.length)
  enterCall definition.name
  let callFrame ← enterFrame (callParent settings frame owner)
  bindVars callFrame (definition.params.zip values)
  inCall callFrame do
    let flow ← execBlock eval callFrame definition.body
    pure flow.result

/-- Evaluates one node with `eval` for its operands. -/
def evalNode (frame : FrameId) : Node → Eval Value
  | .number value => pure (.number value)
  | .text value => pure (.text value)
  | .ident name => readVar frame name
  | .binary op left right => do
      let left ← eval left frame
      let right ← eval right frame
      ofExcept (op.apply left right)
  | .call callee args =>
      if callee = printName then evalPrint eval args frame
      else evalCall settings eval callee args frame

end Layer

/-- Evaluates the expression at a position, nested no deeper than the first
argument says. -/
def evalExpr (nodes : Array Node) (settings : Settings) : Nat → Evaluator
  | 0, _, _ => throw .exhausted
  | depth + 1, id, frame =>
      match nodes[id]? with
      | none => throw .fault
      | some node => evalNode settings (evalExpr nodes settings depth) frame node

end Eval

namespace Program

/-- Deep enough for any run of a program whose table can be unfolded. -/
def nesting (program : Program) : Nat :=
  Environment.capacity * (program.nodes.size + 1)

variable (program : Program) (settings : Settings)

/-- Evaluates an expression of the program in a frame. -/
def evalExpr : Eval.Evaluator :=
  Eval.evalExpr program.nodes settings program.nesting

/-- Executes a statement of the program in a frame. -/
def execStmt (frame : FrameId) (stmt : Stmt ExprId) : Eval Flow :=
  Eval.execStmt (program.evalExpr settings) frame stmt

/-- Executes the top-level statements.  A `return` among them is an error. -/
def exec : Eval Unit := do
  match ← Eval.execBlock (program.evalExpr settings) Environment.root program.body with
  | .normal => pure ()
  | .returned _ => Eval.raise .returnOutsideFunction

end Program

end ScopeScript
