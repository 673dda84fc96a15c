import ScopeScript.Number.Text

/-!
Contract: the values of the language.

Owns: the values, their types, and the text that printing shows.
-/

set_option autoImplicit false

namespace ScopeScript

/-- The type of a value. -/
inductive ValueType where
  | number
  | text
  | void
deriving DecidableEq, Repr

/-- The name of a type in messages. -/
def ValueType.name : ValueType → String
  | .number => "number"
  | .text => "string"
  | .void => "none"

/-- A value.  `void` is the result of a call that returns nothing. -/
inductive Value where
  | number (value : Float)
  | text (value : String)
  | void
deriving DecidableEq, Repr

namespace Value

/-- The type of a value. -/
def type : Value → ValueType
  | number _ => .number
  | text _ => .text
  | void => .void

/-- The text that printing shows for a value. -/
def display : Value → String
  | number value => Number.display value
  | text value => value
  | void => "None"

end Value

end ScopeScript
