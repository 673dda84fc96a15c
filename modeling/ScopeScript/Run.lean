import ScopeScript.Eval.Evaluator
import ScopeScript.Syntax.Parser
import ScopeScript.Token.Lexer

/-!
Contract: running source texts and files.

Owns: reading a program from source, running it on top of text already printed,
the ways in which that can fail, and the report of a failure with its exit code.

Nothing is evaluated unless the whole source is a program.  A runtime error is
reported as one more printed line; all other failures are reported apart from
what the program prints.
-/

set_option autoImplicit false

namespace ScopeScript

/-- Why the text of a file cannot be had. -/
inductive ReadError where
  | missing
  | notDirectory
  | isDirectory
  | notText
  | other (message : String)
deriving DecidableEq, Repr

namespace ReadError

/-- The message of a failed read. -/
def message : ReadError → String
  | missing => "No such file or directory (os error 2)"
  | notDirectory => "Not a directory (os error 20)"
  | isDirectory => "Is a directory (os error 21)"
  | notText => "stream did not contain valid UTF-8"
  | other text => text

/-- Whether there is nothing at all under the path. -/
def isAbsent : ReadError → Bool
  | missing | notDirectory => true
  | isDirectory | notText | other _ => false

end ReadError

/-- The text of a file with the given bytes. -/
def decodeText (bytes : ByteArray) : Except ReadError String :=
  match String.fromUTF8? bytes with
  | some text => .ok text
  | none => .error .notText

/-- Why a run fails. -/
inductive RunError where
  | read (path : String) (error : ReadError)
  | lex (error : LexError)
  | parse (error : ParseError)
  | halt (halt : Halt)
deriving DecidableEq, Repr

/-- Exit codes. -/
inductive ExitCode where
  | success
  | failure
  | usage
  | fault
deriving DecidableEq, Repr

/-- The number of an exit code. -/
def ExitCode.toNat : ExitCode → Nat
  | success => 0
  | failure => 1
  | usage => 2
  | fault => 101

/-- What a command leaves behind: its exit code, all text printed, and the
diagnostics. -/
structure Report where
  code : ExitCode
  output : String
  diagnostics : String
deriving DecidableEq, Repr

/-- The program of a source text.  It is a fault if reading fills the table of nodes beyond
its capacity, whether or not the source is a program. -/
def readProgram (source : String) : Except RunError Program :=
  match tokenize source with
  | .error error => .error (.lex error)
  | .ok tokens =>
      let built := Parser.build tokens
      if built.nodes.size ≤ Program.capacity then
        match built.program with
        | .error error => .error (.parse error)
        | .ok program => .ok program
      else .error (.halt .fault)

/-- Runs a program from the start, printing after `output`. -/
def Program.run (program : Program) (settings : Settings) (output : String) :
    EStateM.Result Halt Machine Unit :=
  program.exec settings (Machine.initial settings.callLimit output)

/-- Runs a source text, printing after `output`.  Returns how the run ends and
all text printed. -/
def runSource (settings : Settings) (source output : String) : Except RunError Unit × String :=
  match readProgram source with
  | .error error => (.error error, output)
  | .ok program =>
      match program.run settings output with
      | .ok _ machine => (.ok (), machine.output)
      | .error halt machine => (.error (.halt halt), machine.output)

/-- The line that reports a runtime error. -/
def RuntimeError.report (error : RuntimeError) : String :=
  "Runtime error: " ++ error.message

/-- The diagnostic line of a message. -/
def diagnostic (message : String) : String :=
  "error: " ++ message ++ "\n"

/-- Reports a failed run after `output`. -/
def RunError.report (output : String) : RunError → Report
  | .read path error =>
      ⟨.failure, output, diagnostic ("cannot read '" ++ path ++ "': " ++ error.message)⟩
  | .lex error => ⟨.failure, output, diagnostic error.message⟩
  | .parse error => ⟨.failure, output, diagnostic error.message⟩
  | .halt (.error error) => ⟨.failure, appendLine output error.report, ""⟩
  | .halt _ => ⟨.fault, output, ""⟩

/-- Runs a file, given what reading it gave, and prints after `output`. -/
def runFile (settings : Settings) (path : String) (content : Except ReadError String)
    (output : String) : Report :=
  match content with
  | .error error => (RunError.read path error).report output
  | .ok source =>
      match runSource settings source output with
      | (.ok _, output) => ⟨.success, output, ""⟩
      | (.error error, output) => error.report output

end ScopeScript
