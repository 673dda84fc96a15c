import ScopeScript.Eval.Error
import ScopeScript.Eval.Settings

/-!
Contract: the names of the active calls.

Owns: the limit on active calls, entering and leaving a call, and the backtrace of
the active calls.
-/

set_option autoImplicit false

namespace ScopeScript

/-- The active calls, the outermost first, and the limit on their number. -/
structure CallStack where
  names : Array String
  limit : CallLimit
deriving DecidableEq, Repr

namespace CallStack

/-- No call is active. -/
def empty (limit : CallLimit) : CallStack where
  names := #[]
  limit

/-- The number of active calls. -/
def depth (calls : CallStack) : Nat :=
  calls.names.size

/-- Why one more call cannot be entered, if the limit is reached. -/
def refusal? (calls : CallStack) : Option Cause :=
  match calls.limit with
  | some limit => if calls.depth < limit then none else some (.recursionLimit limit)
  | none => none

/-- Enters a call. -/
def push (calls : CallStack) (name : String) : CallStack :=
  { calls with names := calls.names.push name }

/-- Leaves the innermost call. -/
def pop (calls : CallStack) : CallStack :=
  { calls with names := calls.names.pop }

/-- The active calls as a backtrace. -/
def backtrace (calls : CallStack) : Backtrace where
  calls := calls.names.toList.reverse

@[simp]
theorem depth_push (calls : CallStack) (name : String) :
    (calls.push name).depth = calls.depth + 1 := by
  simp [push, depth]

/-- Leaving a call undoes entering it. -/
@[simp]
theorem pop_push (calls : CallStack) (name : String) : (calls.push name).pop = calls := by
  simp [push, pop]

end CallStack

end ScopeScript
