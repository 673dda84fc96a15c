import ScopeScript.Eval.CallStack
import ScopeScript.Eval.Environment
import ScopeScript.Eval.Operation

/-!
Contract: the state of a run and the actions on it.

Owns: the machine, the ways in which a run can halt, and the actions from which
the evaluator is built.  An action that halts keeps the state that it had
reached.

A run halts with an error of the program, with a fault, or exhausted.  A fault is
a position outside its table: of a node, of a frame, or of a frame for which no
position is left.  Exhausted means that the evaluator's bound on nesting was
reached, which only a table of nodes that goes round in a circle can do.
-/

set_option autoImplicit false

namespace ScopeScript

/-- The state of a run: bindings, active calls and the text printed so far. -/
structure Machine where
  environment : Environment
  calls : CallStack
  output : String
deriving Repr

/-- Why a run stops early. -/
inductive Halt where
  | error (reason : RuntimeError)
  | fault
  | exhausted
deriving DecidableEq, Repr

/-- Attaches the backtrace of the active calls to a runtime error that has none
yet. -/
def Halt.traced (calls : CallStack) : Halt → Halt
  | .error reason =>
      if reason.backtrace.isSome then .error reason
      else .error (reason.withBacktrace calls.backtrace)
  | .fault => .fault
  | .exhausted => .exhausted

/-- A step of a run. -/
abbrev Eval (α : Type) := EStateM Halt Machine α

/-- The text after one more line has been printed. -/
def appendLine (output line : String) : String :=
  output ++ line ++ "\n"

/-- The machine at the start of a run that prints after `output`. -/
def Machine.initial (limit : CallLimit) (output : String) : Machine where
  environment := .empty
  calls := .empty limit
  output

/-- Leaves the innermost call, whose frame is `frame`. -/
def Machine.leave (machine : Machine) (frame : FrameId) : Machine :=
  { machine with environment := machine.environment.pop frame, calls := machine.calls.pop }

namespace Eval

variable {α : Type}

/-- Raises a runtime error. -/
def raise (cause : Cause) : Eval α :=
  throw (.error (.ofCause cause))

/-- Raises the cause of a failed operation. -/
def ofExcept : Except Cause α → Eval α
  | .ok value => pure value
  | .error cause => raise cause

/-- The entry that a look-up found and the frame that holds it. -/
def ofLookup (missing : Cause) : Lookup α → Eval (α × FrameId)
  | .found entry owner => pure (entry, owner)
  | .unbound => raise missing
  | .gone => throw .fault

/-- Looks up a variable. -/
def readVar (frame : FrameId) (name : String) : Eval Value := do
  let machine ← get
  let (value, _) ← ofLookup (.undefinedVariable name) (machine.environment.getVar frame name)
  pure value

/-- Looks up a function and the frame that holds it. -/
def readFn (frame : FrameId) (name : String) : Eval (FnDef ExprId × FrameId) := do
  let machine ← get
  ofLookup (.undefinedFunction name) (machine.environment.getFn frame name)

/-- Changes the environment where a frame is live. -/
def writeAt (frame : FrameId) (change : Environment → Environment) : Eval Unit := fun machine =>
  if machine.environment.isLive frame then
    .ok () { machine with environment := change machine.environment }
  else .error .fault machine

/-- Binds a variable. -/
def bindVar (frame : FrameId) (name : String) (value : Value) : Eval Unit :=
  writeAt frame fun environment => environment.setVar frame name value

/-- Binds a function. -/
def bindFn (frame : FrameId) (definition : FnDef ExprId) : Eval Unit :=
  writeAt frame fun environment => environment.setFn frame definition

/-- Binds variables in order. -/
def bindVars (frame : FrameId) : List (String × Value) → Eval Unit
  | [] => pure ()
  | (name, value) :: rest => do
      bindVar frame name value
      bindVars frame rest

/-- Prints one line. -/
def printLine (line : String) : Eval Unit :=
  modify fun machine => { machine with output := appendLine machine.output line }

/-- Enters a call, up to the limit. -/
def enterCall (name : String) : Eval Unit := fun machine =>
  match machine.calls.refusal? with
  | some cause => .error (.error (.ofCause cause)) machine
  | none => .ok () { machine with calls := machine.calls.push name }

/-- Enters a frame and returns its position. -/
def enterFrame (parent : FrameId) : Eval FrameId := fun machine =>
  if machine.environment.isLive parent && machine.environment.hasRoom then
    .ok machine.environment.next
      { machine with environment := machine.environment.push parent }
  else .error .fault machine

/-- Runs the body of the innermost call and leaves the call, however the body
ends.  An error gets the backtrace of the calls active at that point. -/
def inCall (frame : FrameId) (body : Eval α) : Eval α := fun machine =>
  match body machine with
  | .ok value after => .ok value (after.leave frame)
  | .error halt after => .error (halt.traced after.calls) (after.leave frame)

end Eval

end ScopeScript
