import ScopeScript.Command

/-!
Contract: the process around the command line.

Owns: reading the file that a command names, the variables that override
settings, and writing a report to the streams.
-/

set_option autoImplicit false

namespace ScopeScript

/-- The number of a system error, which the system may give with its sign
changed. -/
def systemNumber (code : UInt32) : Nat :=
  if code < 0x80000000 then code.toNat else (0 - code).toNat

/-- What a failed system call says about a path. -/
def ReadError.ofSystem : IO.Error → ReadError
  | .noFileOrDirectory .. => .missing
  | .inappropriateType _ code _ => if systemNumber code = 20 then .notDirectory else .isDirectory
  | .permissionDenied .. => .other "Permission denied (os error 13)"
  | error => .other (toString error)

/-- Reads the text of a file. -/
def readFile (path : String) : IO (Except ReadError String) := do
  try
    let bytes ← IO.FS.readBinFile path
    pure (decodeText bytes)
  catch error => pure (.error (.ofSystem error))

end ScopeScript

open ScopeScript in
/-- Runs the command line. -/
def main (args : List String) : IO UInt32 := do
  let command := Command.ofArgs args
  let scoping ← IO.getEnv Command.scopingVariable
  let callLimit ← IO.getEnv Command.callLimitVariable
  let settings := Settings.default.withOverrides scoping callLimit
  let content ←
    match command.path? with
    | some path => readFile path
    | none => pure (.error .missing)
  let report := command.report settings fun _ => content
  (← IO.getStdout).putStr report.output
  (← IO.getStderr).putStr report.diagnostics
  pure report.code.toNat.toUInt32
