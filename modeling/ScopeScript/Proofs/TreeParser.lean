import ScopeScript.Syntax.Parser

/-!
Contract: the parser that makes trees.

Owns: trees as the expressions of the parser, the statement trees of a list of tokens, and
the steps of this parser in plain terms.

Making a tree cannot fail and leaves nothing behind.  So the steps that make expressions are
functions here, and the theory of the grammar is stated for this parser.  That the parser
which fills a table agrees with it is shown elsewhere.
-/

set_option autoImplicit false

namespace ScopeScript.Parser

/-- A parser that makes trees. -/
abbrev TreeParser := Except ParseError

instance : Builder Expr TreeParser where
  number value := .ok (.number value)
  text value := .ok (.text value)
  ident name := .ok (.ident name)
  call callee args := .ok (.call callee args)
  binary op left right := .ok (.binary op left right)

/-- The statement trees of a list of tokens. -/
def trees (tokens : List Token) : Except ParseError (List (Stmt Expr)) :=
  read tokens

section Results

variable {α β : Type}

@[simp]
theorem pure_eq_ok (value : α) : (pure value : TreeParser α) = .ok value := rfl

@[simp]
theorem ok_bind (value : α) (next : α → TreeParser β) :
    (Except.ok value >>= next) = next value := rfl

end Results

@[simp]
theorem build_number (value : Float) :
    (Builder.number value : TreeParser Expr) = .ok (.number value) := rfl

@[simp]
theorem build_text (value : String) :
    (Builder.text value : TreeParser Expr) = .ok (.text value) := rfl

@[simp]
theorem build_ident (name : String) :
    (Builder.ident name : TreeParser Expr) = .ok (.ident name) := rfl

@[simp]
theorem build_call (callee : String) (args : List Expr) :
    (Builder.call callee args : TreeParser Expr) = .ok (.call callee args) := rfl

/-! ## Operators -/

/-- The operators that stay pending and the left operand of the next one, once those that
bind at least as tightly as `precedence` have `right` for their right operand. -/
def reduce (precedence : Nat) : List (Pending Expr) → Expr → List (Pending Expr) × Expr
  | [], right => ([], right)
  | ⟨left, op⟩ :: rest, right =>
      if precedence ≤ op.precedence then reduce precedence rest (.binary op left right)
      else (⟨left, op⟩ :: rest, right)

/-- The tree of all pending operators. -/
def reduceAll (pending : List (Pending Expr)) (right : Expr) : Expr :=
  pending.foldl (fun right entry => .binary entry.op entry.left right) right

@[simp]
theorem complete_eq_reduce (precedence : Nat) (pending : List (Pending Expr)) (right : Expr) :
    complete precedence pending right = .ok (reduce precedence pending right) := by
  induction pending generalizing right with
  | nil => rfl
  | cons entry rest inductionHypothesis =>
      rw [complete, reduce]
      split
      · exact inductionHypothesis _
      · rfl

@[simp]
theorem completeAll_eq_reduceAll (pending : List (Pending Expr)) (right : Expr) :
    completeAll pending right = .ok (reduceAll pending right) := by
  induction pending generalizing right with
  | nil => rfl
  | cons entry rest inductionHypothesis => exact inductionHypothesis _

/-! ## Steps -/

/-- The context inside a bracket that has just been opened. -/
def Context.inside (context : Context Expr) (bracket : Bracket Expr) : Context Expr :=
  { context with brackets := ⟨bracket, context.pending⟩ :: context.brackets, pending := [] }

section Steps

variable (state : State Expr) (context : Context Expr) (token : Token)

theorem State.stepOperator_eq (value : Expr) :
    state.stepOperator context value token =
      match BinaryOp.ofKind? token.kind with
      | some op =>
          let (pending, left) := reduce op.precedence context.pending value
          .ok { state with phase := .operand { context with pending := ⟨left, op⟩ :: pending } }
      | none => state.stepEnd context (reduceAll context.pending value) token := by
  unfold State.stepOperator
  simp only [complete_eq_reduce, completeAll_eq_reduceAll]
  rfl

theorem State.missing?_eq_none {ε : Type} {state : State ε} (nothing : state.missing? = none) :
    state.phase = .statement ∧ state.enclosing = [] := by
  unfold State.missing? at nothing
  split at nothing
  case h_1 here =>
      split at nothing
      case isTrue empty => exact ⟨here, List.isEmpty_iff.mp empty⟩
      case isFalse => cases nothing
  all_goals cases nothing

theorem State.finish_eq :
    state.finish =
      match state.missing? with
      | none => .ok state.block.reverse
      | some expected => .error (.unexpectedEnd expected) := by
  obtain ⟨phase, block, enclosing⟩ := state
  unfold State.finish State.settle
  -- completing operators changes nothing that is still missing
  cases phase with
  | afterIdent context name =>
      simp only [build_ident, ok_bind, completeAll_eq_reduceAll]
      rfl
  | operator context value =>
      simp only [completeAll_eq_reduceAll]
      rfl
  | _ => rfl

end Steps

/-! ## Runs -/

theorem State.run_cons {state next : State Expr} {token : Token} (rest : List Token)
    (stepped : state.step token = .ok next) : state.run (token :: rest) = next.run rest := by
  rw [State.run, stepped]
  rfl

/-- Reading one list after another is reading both together. -/
theorem State.run_append (state : State Expr) (first second : List Token) :
    state.run (first ++ second) = (state.run first).bind fun next => next.run second := by
  induction first generalizing state with
  | nil => rfl
  | cons token rest inductionHypothesis =>
      simp only [List.cons_append, State.run]
      cases state.step token with
      | ok next => exact inductionHypothesis next
      | error error => rfl

theorem State.run_append_of_ok {state next : State Expr} {first : List Token}
    (second : List Token) (ran : state.run first = .ok next) :
    state.run (first ++ second) = next.run second := by
  rw [State.run_append, ran]
  rfl

theorem State.run_append_of_error {state : State Expr} {first : List Token} {error : ParseError}
    (second : List Token) (failed : state.run first = .error error) :
    state.run (first ++ second) = .error error := by
  rw [State.run_append, failed]
  rfl

theorem trees_of_run {tokens : List Token} {state : State Expr}
    (ran : (State.start : State Expr).run tokens = .ok state) : trees tokens = state.finish := by
  rw [trees, read, ran]
  rfl

theorem trees_of_run_error {tokens : List Token} {error : ParseError}
    (failed : (State.start : State Expr).run tokens = .error error) :
    trees tokens = .error error := by
  rw [trees, read, failed]
  rfl

end ScopeScript.Parser
