import ScopeScript.Syntax.Program
import ScopeScript.Number.Text

/-!
Contract: tokens to programs, one token at a time.

Owns: the states of the parser, the step on one token, what must come next in
each state, the table of nodes that is filled on the way, and `parse`.

The parser is a pushdown machine.  A state holds the unfinished statement, the
statements of the innermost open block, and the function definitions whose bodies
are open around it.  An unfinished expression is a list of open brackets; inside
each of them stand the operators whose right operands are not complete.  A step
never looks ahead, so an error is known as soon as its token is read, and a list
of tokens is parsed by folding the step over it.

Expressions are made while the tokens are read.  What an expression is and how one
is made from its operands is left to a `Builder`: `parse` adds a node to the table
of the program for each of them, and all else refers to them by position.

Keywords are ordinary identifiers that mean something at the start of a statement
only.
-/

set_option autoImplicit false

namespace ScopeScript

/-- What the parser wants to see next. -/
inductive Expectation where
  | expression
  | token (kind : TokenKind)
deriving DecidableEq, Repr

/-- What a message says about an expectation. -/
def Expectation.describe : Expectation → String
  | .expression => "an expression"
  | .token kind => kind.describe

/-- Why tokens are not a program. -/
inductive ParseError where
  | unexpectedToken (expected : Expectation) (found : Token)
  | unexpectedEnd (expected : Expectation)
  | invalidNumber (text : String)
deriving DecidableEq, Repr

/-- The message of a syntax error. -/
def ParseError.message : ParseError → String
  | .unexpectedToken expected found =>
      "expected " ++ expected.describe ++ ", found " ++ found.display
  | .unexpectedEnd expected => "unexpected end of input, expected " ++ expected.describe
  | .invalidNumber text => "invalid number literal `" ++ text ++ "`"

namespace Parser

/-! ## Expressions -/

/-- How the parser makes expressions.  The operands of an expression are made before it. -/
class Builder (ε : Type) (m : outParam (Type → Type)) where
  number (value : Float) : m ε
  text (value : String) : m ε
  ident (name : String) : m ε
  call (callee : String) (args : List ε) : m ε
  binary (op : BinaryOp) (left right : ε) : m ε

/-! ## States -/

/-- The statement that an expression is read for. -/
inductive Goal where
  | letValue (name : String)
  | returnValue
  | statement
deriving DecidableEq, Repr

/-- The statement that a complete expression makes. -/
def Goal.stmt {ε : Type} (value : ε) : Goal → Stmt ε
  | .letValue name => .letBind name value
  | .returnValue => .ret value
  | .statement => .expr value

/-- An operator whose right operand is being read. -/
structure Pending (ε : Type) where
  left : ε
  op : BinaryOp
deriving Repr

/-- An open bracket: a parenthesis, or a call with the arguments already
complete, the last one first. -/
inductive Bracket (ε : Type) where
  | paren
  | call (callee : String) (args : List ε)
deriving Repr

/-- An open bracket and the operators that were pending when it opened. -/
structure OpenBracket (ε : Type) where
  bracket : Bracket ε
  pending : List (Pending ε)
deriving Repr

/-- Where in an expression the parser stands, innermost first. -/
structure Context (ε : Type) where
  goal : Goal
  brackets : List (OpenBracket ε)
  pending : List (Pending ε)
deriving Repr

/-- The progress of the unfinished statement. -/
inductive Phase (ε : Type) where
  | statement
  | letName
  | letEqual (name : String)
  | fnName
  | fnOpen (name : String)
  | firstParam (name : String)
  | nextParam (name : String) (params : List String)
  | afterParam (name : String) (params : List String)
  | bodyOpen (name : String) (params : List String)
  | operand (context : Context ε)
  | firstArg (context : Context ε) (callee : String)
  | afterIdent (context : Context ε) (name : String)
  | operator (context : Context ε) (value : ε)
deriving Repr

/-- A function definition whose body is open, with the statements of the block
around it, the last one first. -/
structure OpenFn (ε : Type) where
  name : String
  params : List String
  before : List (Stmt ε)
deriving Repr

/-- A state of the parser.  Statements are kept with the last one first. -/
structure State (ε : Type) where
  phase : Phase ε
  block : List (Stmt ε)
  enclosing : List (OpenFn ε)
deriving Repr

/-- Nothing has been read. -/
def State.start {ε : Type} : State ε where
  phase := .statement
  block := []
  enclosing := []

variable {ε : Type} {m : Type → Type} [Builder ε m] [Monad m] [MonadExceptOf ParseError m]

/-! ## Operators -/

/-- Completes the pending operators that bind at least as tightly as
`precedence`, for which `right` is the right operand. -/
def complete (precedence : Nat) : List (Pending ε) → ε → m (List (Pending ε) × ε)
  | [], right => pure ([], right)
  | ⟨left, op⟩ :: rest, right =>
      if precedence ≤ op.precedence then do
        let value ← Builder.binary op left right
        complete precedence rest value
      else pure (⟨left, op⟩ :: rest, right)

/-- Completes all pending operators. -/
def completeAll : List (Pending ε) → ε → m ε
  | [], right => pure right
  | ⟨left, op⟩ :: rest, right => do
      let value ← Builder.binary op left right
      completeAll rest value

/-! ## Steps -/

/-- The token is not what the parser wants. -/
def refuse {α : Type} (expected : Expectation) (found : Token) : m α :=
  throw (.unexpectedToken expected found)

/-- Goes on to another phase if the token has the wanted kind. -/
def State.expect (state : State ε) (token : Token) (kind : TokenKind) (phase : Phase ε) :
    m (State ε) :=
  if token.kind = kind then pure { state with phase } else refuse (.token kind) token

/-- Adds a complete statement to the innermost block. -/
def State.addStmt (state : State ε) (stmt : Stmt ε) : State ε :=
  { state with phase := .statement, block := stmt :: state.block }

/-- An expression must begin here. -/
def State.stepOperand (state : State ε) (context : Context ε) (token : Token) : m (State ε) :=
  match token.kind with
  | .number =>
      match Number.read? token.text with
      | some number => do
          let value ← Builder.number number
          pure { state with phase := .operator context value }
      | none => throw (.invalidNumber token.text)
  | .text => do
      let value ← Builder.text token.text
      pure { state with phase := .operator context value }
  | .ident => pure { state with phase := .afterIdent context token.text }
  | .leftParen =>
      let brackets := ⟨.paren, context.pending⟩ :: context.brackets
      pure { state with phase := .operand { context with brackets, pending := [] } }
  | _ => refuse .expression token

/-- A statement may begin here, or the innermost function body may end. -/
def State.stepStatement (state : State ε) (token : Token) : m (State ε) :=
  if token.isWord "let" then pure { state with phase := .letName }
  else if token.isWord "fn" then pure { state with phase := .fnName }
  else if token.isWord "return" then
    pure { state with phase := .operand ⟨.returnValue, [], []⟩ }
  else
    match token.kind, state.enclosing with
    | .rightBrace, fn :: enclosing =>
        pure {
          phase := .statement
          block := .fnDef fn.name fn.params state.block.reverse :: fn.before
          enclosing }
    | _, _ => state.stepOperand ⟨.statement, [], []⟩ token

/-- An expression that ends here is complete up to its innermost bracket. -/
def State.stepEnd (state : State ε) (context : Context ε) (value : ε) (token : Token) :
    m (State ε) :=
  match context.brackets with
  | [] =>
      if token.kind = .semicolon then pure (state.addStmt (context.goal.stmt value))
      else refuse (.token .semicolon) token
  | ⟨.paren, pending⟩ :: brackets =>
      state.expect token .rightParen (.operator { context with brackets, pending } value)
  | ⟨.call callee args, pending⟩ :: brackets =>
      if token.kind = .comma then
        let brackets := ⟨.call callee (value :: args), pending⟩ :: brackets
        pure { state with phase := .operand { context with brackets, pending := [] } }
      else if token.kind = .rightParen then do
        let call ← Builder.call callee (value :: args).reverse
        pure { state with phase := .operator { context with brackets, pending } call }
      else refuse (.token .rightParen) token

/-- An operand is complete: an operator or the end of the expression follows. -/
def State.stepOperator (state : State ε) (context : Context ε) (value : ε) (token : Token) :
    m (State ε) :=
  match BinaryOp.ofKind? token.kind with
  | some op => do
      let (pending, left) ← complete op.precedence context.pending value
      pure { state with phase := .operand { context with pending := ⟨left, op⟩ :: pending } }
  | none => do
      let value ← completeAll context.pending value
      state.stepEnd context value token

/-- An identifier is complete: it is a call if a parenthesis follows. -/
def State.stepAfterIdent (state : State ε) (context : Context ε) (name : String)
    (token : Token) : m (State ε) :=
  if token.kind = .leftParen then pure { state with phase := .firstArg context name }
  else do
    let value ← Builder.ident name
    state.stepOperator context value token

/-- The first argument of a call begins here, or the call has none. -/
def State.stepFirstArg (state : State ε) (context : Context ε) (callee : String)
    (token : Token) : m (State ε) :=
  if token.kind = .rightParen then do
    let call ← Builder.call callee []
    pure { state with phase := .operator context call }
  else
    let brackets := ⟨.call callee [], context.pending⟩ :: context.brackets
    state.stepOperand { context with brackets, pending := [] } token

/-- The first parameter of a function stands here, or the function has none. -/
def State.stepFirstParam (state : State ε) (name : String) (token : Token) : m (State ε) :=
  if token.kind = .ident then pure { state with phase := .afterParam name [token.text] }
  else state.expect token .rightParen (.bodyOpen name [])

/-- After a parameter comes another one or the end of the list. -/
def State.stepAfterParam (state : State ε) (name : String) (params : List String)
    (token : Token) : m (State ε) :=
  if token.kind = .comma then pure { state with phase := .nextParam name params }
  else state.expect token .rightParen (.bodyOpen name params)

/-- The body of a function opens: its statements go into a block of their own. -/
def State.stepBodyOpen (state : State ε) (name : String) (params : List String)
    (token : Token) : m (State ε) :=
  if token.kind = .leftBrace then
    pure {
      phase := .statement
      block := []
      enclosing := ⟨name, params.reverse, state.block⟩ :: state.enclosing }
  else refuse (.token .leftBrace) token

/-- One step of the parser. -/
def State.step (state : State ε) (token : Token) : m (State ε) :=
  match state.phase with
  | .statement => state.stepStatement token
  | .letName => state.expect token .ident (.letEqual token.text)
  | .letEqual name => state.expect token .equal (.operand ⟨.letValue name, [], []⟩)
  | .fnName => state.expect token .ident (.fnOpen token.text)
  | .fnOpen name => state.expect token .leftParen (.firstParam name)
  | .firstParam name => state.stepFirstParam name token
  | .nextParam name params => state.expect token .ident (.afterParam name (token.text :: params))
  | .afterParam name params => state.stepAfterParam name params token
  | .bodyOpen name params => state.stepBodyOpen name params token
  | .operand context => state.stepOperand context token
  | .firstArg context callee => state.stepFirstArg context callee token
  | .afterIdent context name => state.stepAfterIdent context name token
  | .operator context value => state.stepOperator context value token

/-- What must follow a complete operand when no operator does. -/
def Context.closing (context : Context ε) : Expectation :=
  match context.brackets with
  | [] => .token .semicolon
  | _ :: _ => .token .rightParen

/-- What a state still needs, or nothing if a program may end there. -/
def State.missing? (state : State ε) : Option Expectation :=
  match state.phase with
  | .statement => if state.enclosing.isEmpty then none else some (.token .rightBrace)
  | .letName | .fnName | .nextParam .. => some (.token .ident)
  | .letEqual _ => some (.token .equal)
  | .fnOpen _ => some (.token .leftParen)
  | .firstParam _ | .afterParam .. => some (.token .rightParen)
  | .bodyOpen .. => some (.token .leftBrace)
  | .operand _ | .firstArg .. => some .expression
  | .afterIdent context _ | .operator context _ => some context.closing

/-- At the end of the tokens an operand is complete, and so are the operators before it. -/
def State.settle (state : State ε) : m (State ε) :=
  match state.phase with
  | .afterIdent context name => do
      let value ← Builder.ident name
      let value ← completeAll context.pending value
      pure { state with phase := .operator { context with pending := [] } value }
  | .operator context value => do
      let value ← completeAll context.pending value
      pure { state with phase := .operator { context with pending := [] } value }
  | _ => pure state

/-- The statements that have been read, if a program may end here. -/
def State.finish (state : State ε) : m (List (Stmt ε)) := do
  let state ← state.settle
  match state.missing? with
  | none => pure state.block.reverse
  | some expected => throw (.unexpectedEnd expected)

/-- Reads tokens from a state on. -/
def State.run (state : State ε) : List Token → m (State ε)
  | [] => pure state
  | token :: rest => do
      let next ← state.step token
      next.run rest

/-- Reads the statements of a list of tokens. -/
def read (tokens : List Token) : m (List (Stmt ε)) := do
  let state ← State.start.run tokens
  state.finish

/-! ## Tables -/

/-- A parser that fills a table of nodes.  The table is kept when the parser stops at an
error. -/
abbrev TableParser := EStateM ParseError (Array Node)

/-- Adds one node at the end of the table. -/
def addNode (node : Node) : TableParser ExprId := fun nodes =>
  let (id, nodes) := storeNode node nodes
  .ok id nodes

instance : Builder ExprId TableParser where
  number value := addNode (.number value)
  text value := addNode (.text value)
  ident name := addNode (.ident name)
  call callee args := addNode (.call callee args)
  binary op left right := addNode (.binary op left right)

/-- How reading a list of tokens ends, and the table that it leaves. -/
abbrev Built := EStateM.Result ParseError (Array Node) (List (Stmt ExprId))

/-- Reads a list of tokens into an empty table. -/
def build (tokens : List Token) : Built :=
  (read tokens : TableParser (List (Stmt ExprId))) #[]

/-- The table, however reading ends. -/
def Built.nodes : Built → Array Node
  | .ok _ nodes | .error _ nodes => nodes

/-- The program, if all tokens could be read. -/
def Built.program : Built → Except ParseError Program
  | .ok body nodes => .ok { nodes, body }
  | .error error _ => .error error

end Parser

/-- The program of a list of tokens. -/
def parse (tokens : List Token) : Except ParseError Program :=
  (Parser.build tokens).program

end ScopeScript
