import ScopeScript.Text.Blank
import ScopeScript.Number.Decimal

/-!
Contract: the settings of a run and their textual overrides.

Owns: the two ways of scoping, the limit on the depth of calls, the default
settings, and how a text changes a setting.  A text that is not understood leaves
its setting as it is.
-/

set_option autoImplicit false

namespace ScopeScript

/-- Where a called function looks for names that it does not bind itself. -/
inductive Scoping where
  /-- In the frame of its caller. -/
  | dynamic
  /-- In the frame that holds its definition. -/
  | lexical
deriving DecidableEq, Repr

/-- Reads the name of a way of scoping, in any case. -/
def Scoping.read? (chars : List Char) : Option Scoping :=
  if Text.spells chars "dynamic" then some .dynamic
  else if Text.spells chars "lexical" then some .lexical
  else none

/-- The limit on active calls; `none` is no limit. -/
abbrev CallLimit := Option Nat

namespace CallLimit

/-- Limits are below this bound. -/
def bound : Nat := Nat.pow 2 64

/-- Reads a count: an optional plus sign and digits. -/
def readCount? : List Char → Option Nat
  | '+' :: digits => readDigits? digits
  | digits => readDigits? digits
where
  /-- Reads digits whose value is below the bound. -/
  readDigits? (digits : List Char) : Option Nat :=
    if digits.isEmpty || !digits.all Char.isDigit then none
    else
      let value := Number.digitsValue digits
      if value < bound then some value else none

/-- Reads a limit: a count, or `unlimited` in any case. -/
def read? (chars : List Char) : Option CallLimit :=
  if Text.spells chars "unlimited" then some none
  else (readCount? chars).map some

end CallLimit

/-- The settings of a run. -/
structure Settings where
  scoping : Scoping
  callLimit : CallLimit
deriving DecidableEq, Repr

namespace Settings

/-- Dynamic scoping and at most a thousand active calls. -/
def default : Settings where
  scoping := .dynamic
  callLimit := some 1000

/-- The setting that an optional text gives, or else the present one.  White
space around the text is ignored. -/
def override {α : Type} (present : α) (read? : List Char → Option α) (text : Option String) :
    α :=
  (text.bind fun text => read? (Text.trim text.toList)).getD present

/-- Changes the settings for which there is a text that can be understood. -/
def withOverrides (settings : Settings) (scoping callLimit : Option String) : Settings where
  scoping := override settings.scoping Scoping.read? scoping
  callLimit := override settings.callLimit CallLimit.read? callLimit

end Settings

end ScopeScript
