import ScopeScript.Run
import ScopeScript.Syntax.Outline

/-!
Contract: the command line as a function.

Owns: the commands, which words ask for which command, the texts of the command
line, and the report of each command given what reading its file gave.

Does not own: reading files, the environment and the streams of the process.
-/

set_option autoImplicit false

namespace ScopeScript

/-- The commands that work on a file. -/
inductive FileCommand where
  | run
  | lex
  | parse
deriving DecidableEq, Repr

/-- The word for a command on a file. -/
def FileCommand.word : FileCommand → String
  | run => "run"
  | lex => "lex"
  | parse => "parse"

/-- What a command line asks for. -/
inductive Command where
  | onFile (command : FileCommand) (path : String)
  | missingPath (command : FileCommand)
  | help
  | version
  | nothing
  | unknown (word : String)
deriving DecidableEq, Repr

namespace Command

/-- The usage text. -/
def usage : String :=
  "\n".intercalate [
    "Norima interpreter",
    "",
    "Usage: norima <command> [options]",
    "",
    "Commands:",
    "  run <file.norm>     Run a Norima program",
    "  <file.norm>         Same as `run <file.norm>`",
    "  lex <file.norm>     Print the token stream",
    "  parse <file.norm>   Print the syntax tree",
    "  help                Show this message",
    "  version             Show version information",
    "",
    "Environment:",
    "  NORIMA_SCOPING      `dynamic` (default) or `lexical`",
    "  NORIMA_MAX_DEPTH    maximum call depth (default 1000, or `unlimited`)",
    "  RUST_LOG            enable logging, e.g. RUST_LOG=norima_eval=debug",
    ""]

/-- The version line. -/
def versionLine : String := "norima 0.1.0\n"

/-- The ending of source files. -/
def sourceEnding : String := ".norm"

/-- The variable that overrides scoping. -/
def scopingVariable : String := "NORIMA_SCOPING"

/-- The variable that overrides the limit on calls. -/
def callLimitVariable : String := "NORIMA_MAX_DEPTH"

/-- A command on the file that the next argument names. -/
def onNext (command : FileCommand) : List String → Command
  | path :: _ => onFile command path
  | [] => missingPath command

/-- What arguments ask for.  Arguments after those that a command needs are
ignored. -/
def ofArgs : List String → Command
  | [] => nothing
  | word :: rest =>
      if word = "run" then onNext .run rest
      else if word = "lex" then onNext .lex rest
      else if word = "parse" then onNext .parse rest
      else if word ∈ ["help", "--help", "-h"] then help
      else if word ∈ ["version", "--version", "-V"] then version
      else if sourceEnding.toList.isSuffixOf word.toList then onFile .run word
      else unknown word

/-- The path that has to be read for a command. -/
def path? : Command → Option String
  | onFile _ path => some path
  | missingPath _ | help | version | nothing | unknown _ => none

/-- The line of a token in a listing. -/
def tokenLine (token : Token) : String :=
  "  " ++ token.kind.name ++ " " ++ token.display ++ "\n"

/-- The listing of the tokens of a file. -/
def listing (path : String) (tokens : List Token) : String :=
  tokens.foldl (fun text token => text ++ tokenLine token)
    ("Tokens for '" ++ path ++ "' (" ++ tokens.length.repr ++ " tokens):\n")

/-- Lists the tokens of a source text. -/
def lexReport (path source : String) : Report :=
  match tokenize source with
  | .ok tokens => ⟨.success, listing path tokens, ""⟩
  | .error error => (RunError.lex error).report ""

/-- Shows the outline of a source text. -/
def parseReport (path source : String) : Report :=
  match readProgram source with
  | .error error => error.report ""
  | .ok program =>
      match program.outline? with
      | none => ⟨.fault, "", ""⟩
      | some outline =>
          let heading :=
            "Program for '" ++ path ++ "' (" ++ program.body.length.repr ++ " statements):\n"
          ⟨.success, heading ++ outline, ""⟩

/-- Runs the file of a command.  A file that is not there is a mistake in the
command line. -/
def runReport (settings : Settings) (path : String) (content : Except ReadError String) :
    Report :=
  match content with
  | .error error =>
      if error.isAbsent then ⟨.usage, "", diagnostic ("file not found: " ++ path)⟩
      else runFile settings path content ""
  | .ok _ => runFile settings path content ""

/-- The report of a command on a file, given what reading the file gave. -/
def fileReport (settings : Settings) (command : FileCommand) (path : String)
    (content : Except ReadError String) : Report :=
  match command, content with
  | .run, content => runReport settings path content
  | .lex, .ok source => lexReport path source
  | .parse, .ok source => parseReport path source
  | _, .error error => (RunError.read path error).report ""

/-- The report of a command.  `read` gives the text of the file under a path. -/
def report (settings : Settings) (read : String → Except ReadError String) : Command → Report
  | onFile command path => fileReport settings command path (read path)
  | missingPath command =>
      ⟨.usage, "", "Usage: norima " ++ command.word ++ " <file.norm>\n"⟩
  | help => ⟨.success, "", usage⟩
  | version => ⟨.success, versionLine, ""⟩
  | nothing => ⟨.usage, "", usage⟩
  | unknown word => ⟨.usage, "", "Unknown command: " ++ word ++ "\n\n" ++ usage⟩

end Command

end ScopeScript
