import ScopeScript.Eval.Value
import ScopeScript.Syntax.Operator

/-!
Contract: why a run fails.

Owns: backtraces, the causes of runtime errors, runtime errors with their
backtrace, and their messages.

An error starts without a backtrace and keeps the first one that is not empty.
-/

set_option autoImplicit false

namespace ScopeScript

/-- The names of active calls, the innermost first. -/
structure Backtrace where
  calls : List String
deriving DecidableEq, Repr

namespace Backtrace

/-- Whether no call was active. -/
def isEmpty (backtrace : Backtrace) : Bool :=
  backtrace.calls.isEmpty

/-- The text of a backtrace. -/
def display (backtrace : Backtrace) : String :=
  " <- ".intercalate (backtrace.calls.map fun name => name ++ "()")

end Backtrace

/-- The cause of a runtime error. -/
inductive Cause where
  | undefinedVariable (name : String)
  | undefinedFunction (name : String)
  | invalidOperands (op : BinaryOp) (left right : ValueType)
  | assignmentInExpression
  | returnOutsideFunction
  | recursionLimit (limit : Nat)
deriving DecidableEq, Repr

/-- The message of a cause. -/
def Cause.message : Cause → String
  | .undefinedVariable name => "undefined variable: " ++ name
  | .undefinedFunction name => "undefined function: " ++ name
  | .invalidOperands op left right =>
      "operator `" ++ op.symbol ++ "` cannot be applied to " ++ left.name ++ " and " ++ right.name
  | .assignmentInExpression => "assignment operator `=` is not supported in expressions"
  | .returnOutsideFunction => "`return` outside of a function"
  | .recursionLimit limit => "maximum recursion depth of " ++ limit.repr ++ " exceeded"

/-- A runtime error and, if calls were active, their names. -/
structure RuntimeError where
  cause : Cause
  backtrace : Option Backtrace
deriving DecidableEq, Repr

namespace RuntimeError

/-- An error as it is raised, without a backtrace. -/
def ofCause (cause : Cause) : RuntimeError :=
  { cause, backtrace := none }

/-- Attaches a backtrace, unless it is empty or there is one already. -/
def withBacktrace (error : RuntimeError) (backtrace : Backtrace) : RuntimeError :=
  if error.backtrace.isNone && !backtrace.isEmpty then
    { error with backtrace := some backtrace }
  else error

/-- The message of an error.  It does not show the backtrace. -/
def message (error : RuntimeError) : String :=
  error.cause.message

end RuntimeError

end ScopeScript
