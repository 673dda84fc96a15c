import ScopeScript.Proofs.ParserCompleteness
import ScopeScript.Proofs.TableParser

/-!
Contract: what the parser has read is what its state says.

Owns: the tokens that a state of the parser stands for, their growth by one token
in every step, and the agreement of the parser with the grammar.

A state stands for the tokens read so far: complete statements, open function
definitions, and an unfinished statement whose brackets and pending operators each
own the tokens that put them there.  The innermost pending operator is always
looser than the operand that follows, so completing it gives an expression of its
own level.
-/

set_option autoImplicit false

namespace ScopeScript

namespace Grammar

/-! ## Lists grow at their end -/

theorem ArgList.append {tokens others : List Token} {values : List Expr} {value : Expr}
    {comma : Token} (derives : ArgList tokens values) (separates : comma.kind = .comma)
    (last : Derives .assignment others value) :
    ArgList (tokens ++ comma :: others) (values ++ [value]) := by
  induction values generalizing tokens with
  | nil => cases derives
  | cons first rest inductionHypothesis =>
      cases derives with
      | one derives => exact .more derives separates (.one last)
      | more derives inner remaining =>
          have extended := inductionHypothesis remaining
          simpa using ArgList.more derives inner extended

theorem NameList.append {tokens : List Token} {names : List String} {comma name : Token}
    (derives : NameList tokens names) (separates : comma.kind = .comma)
    (kind : name.kind = .ident) :
    NameList (tokens ++ [comma, name]) (names ++ [name.text]) := by
  induction derives with
  | one first => exact .more first separates (.one kind)
  | more first inner rest inductionHypothesis => exact .more first inner inductionHypothesis

theorem Statements.append {tokens others : List Token} {stmts : List (Stmt Expr)}
    {stmt : Stmt Expr} (derives : Statements tokens stmts) (last : Statement others stmt) :
    Statements (tokens ++ others) (stmts ++ [stmt]) := by
  induction stmts generalizing tokens with
  | nil =>
      cases derives
      simpa using Statements.cons last .nil
  | cons first rest inductionHypothesis =>
      cases derives with
      | cons head remaining =>
          have extended := inductionHypothesis remaining
          simpa using Statements.cons head extended

end Grammar

namespace Parser

open Grammar

/-! ## The tokens of an unfinished expression -/

/-- The tokens of pending operators and their left operands. -/
inductive PendingReads : List (Pending Expr) → List Token → Prop where
  | nil : PendingReads [] []
  | cons {op : BinaryOp} {left : Expr} {rest : List (Pending Expr)} {operator : Token}
      {before tokens : List Token} (outer : PendingReads rest before)
      (isLoose : Loose op.precedence rest) (derives : Derives op.level tokens left)
      (stands : operator.kind = op.tokenKind) :
      PendingReads (⟨left, op⟩ :: rest) (before ++ (tokens ++ [operator]))

/-- The tokens of the complete arguments of an open call, the last of which is
followed by a comma. -/
inductive ArgsRead : List Expr → List Token → Prop where
  | nil : ArgsRead [] []
  | comma {args : List Expr} {tokens : List Token} {comma : Token}
      (derives : ArgList tokens args.reverse) (separates : comma.kind = .comma) :
      ArgsRead args (tokens ++ [comma])

inductive BracketReads : Bracket Expr → List Token → Prop where
  | paren {opening : Token} (opens : opening.kind = .leftParen) : BracketReads .paren [opening]
  | call {callee opening : Token} {args : List Expr} {tokens : List Token}
      (name : callee.kind = .ident) (opens : opening.kind = .leftParen)
      (before : ArgsRead args tokens) :
      BracketReads (.call callee.text args) (callee :: opening :: tokens)

inductive StackReads : List (OpenBracket Expr) → List Token → Prop where
  | nil : StackReads [] []
  | cons {bracket : Bracket Expr} {pending : List (Pending Expr)} {rest : List (OpenBracket Expr)}
      {before operators tokens : List Token} (outer : StackReads rest before)
      (inner : PendingReads pending operators) (opened : BracketReads bracket tokens) :
      StackReads (⟨bracket, pending⟩ :: rest) (before ++ (operators ++ tokens))

/-- The tokens of a statement before its expression. -/
inductive GoalReads : Goal → List Token → Prop where
  | letValue {keyword name equal : Token} (isLet : keyword.isWord "let" = true)
      (isName : name.kind = .ident) (binds : equal.kind = .equal) :
      GoalReads (.letValue name.text) [keyword, name, equal]
  | returnValue {keyword : Token} (isReturn : keyword.isWord "return" = true) :
      GoalReads .returnValue [keyword]
  | statement : GoalReads .statement []

/-- The tokens of a statement up to the operand that is wanted. -/
inductive ContextReads : Context Expr → List Token → Prop where
  | intro {goal : Goal} {brackets : List (OpenBracket Expr)} {pending : List (Pending Expr)}
      {lead outer operators : List Token} (begun : GoalReads goal lead)
      (stack : StackReads brackets outer) (inner : PendingReads pending operators) :
      ContextReads ⟨goal, brackets, pending⟩ (lead ++ (outer ++ operators))

/-- No keyword begins a statement that is an expression. -/
def Goal.Plain (goal : Goal) (tokens : List Token) : Prop :=
  goal = .statement → ∃ first rest, tokens = first :: rest ∧ first.isKeyword = false

theorem Goal.Plain.append {goal : Goal} {tokens : List Token} (plain : goal.Plain tokens)
    (others : List Token) : goal.Plain (tokens ++ others) := by
  intro isStatement
  obtain ⟨first, rest, rfl, notKeyword⟩ := plain isStatement
  exact ⟨first, rest ++ others, rfl, notKeyword⟩

/-- Completing operators turns their tokens and those of the right operand into
operators that stay pending and one left operand. -/
theorem PendingReads.reduce {pending : List (Pending Expr)} {tokens : List Token}
    (reads : PendingReads pending tokens) (precedence : Nat) {level : Level} {own : List Token}
    {value : Expr} (derives : Derives level own value)
    (isLoose : Loose level.precedence pending) (le : precedence ≤ level.precedence) :
    ∃ (before left : List Token) (leftLevel : Level),
      before ++ left = tokens ++ own ∧
        PendingReads (reduce precedence pending value).1 before ∧
        Loose precedence (reduce precedence pending value).1 ∧
        Derives leftLevel left (reduce precedence pending value).2 ∧
        precedence ≤ leftLevel.precedence := by
  induction reads generalizing level own value with
  | nil => exact ⟨[], own, level, rfl, .nil, loose_nil _, derives, le⟩
  | @cons op left rest operator before leftTokens outer outerLoose leftDerives stands
      inductionHypothesis =>
      by_cases completes : precedence ≤ op.precedence
      · -- The completed operation has the level of its operator, and the operators
        -- further out are looser than that, so the induction goes on with it.
        have tighter := operandLevel_le (isLoose ⟨left, op⟩ (by simp))
        have combined := Derives.binary rfl leftDerives stands (derives.loosen tighter)
        rw [← precedence_level op] at outerLoose
        have atLevel : precedence ≤ op.level.precedence := by
          rw [precedence_level]
          exact completes
        obtain ⟨kept, operand, leftLevel, same, read, stillLoose, operandDerives, below⟩ :=
          inductionHypothesis combined outerLoose atLevel
        rw [reduce_cons left value rest completes]
        exact ⟨kept, operand, leftLevel, by simp [same], read, stillLoose, operandDerives, below⟩
      · have weaker : Loose precedence (⟨left, op⟩ :: rest) := by
          intro entry member
          cases member
          exact Nat.lt_of_not_le completes
        rw [reduce_of_loose value weaker]
        exact ⟨_, own, level, rfl, .cons outer outerLoose leftDerives stands, weaker, derives, le⟩

theorem precedence_lt_primary (op : BinaryOp) : op.precedence < Level.primary.precedence := by
  cases op <;> decide

theorem loose_primary (pending : List (Pending Expr)) : Loose Level.primary.precedence pending :=
  fun entry _ => precedence_lt_primary entry.op

theorem PendingReads.reduceAll {pending : List (Pending Expr)} {tokens : List Token}
    (reads : PendingReads pending tokens) {own : List Token} {value : Expr}
    (derives : Derives .primary own value) :
    Derives .assignment (tokens ++ own) (reduceAll pending value) := by
  obtain ⟨before, left, level, same, read, _, complete, _⟩ :=
    reads.reduce 0 derives (loose_primary pending) (Nat.zero_le _)
  rw [reduce_zero] at read complete
  cases read
  rw [← same]
  exact complete.loosen level.precedence_pos

/-! ## The tokens of an unfinished statement -/

/-- The tokens of a definition up to its parameters. -/
inductive FnReads : String → List Token → Prop where
  | intro {keyword name opening : Token} (isFn : keyword.isWord "fn" = true)
      (isName : name.kind = .ident) (opens : opening.kind = .leftParen) :
      FnReads name.text [keyword, name, opening]

/-- The tokens of the unfinished statement in each phase. -/
inductive PhaseReads : Phase Expr → List Token → Prop where
  | statement : PhaseReads .statement []
  | letName {keyword : Token} (isLet : keyword.isWord "let" = true) :
      PhaseReads .letName [keyword]
  | letEqual {keyword name : Token} (isLet : keyword.isWord "let" = true)
      (isName : name.kind = .ident) : PhaseReads (.letEqual name.text) [keyword, name]
  | fnName {keyword : Token} (isFn : keyword.isWord "fn" = true) : PhaseReads .fnName [keyword]
  | fnOpen {keyword name : Token} (isFn : keyword.isWord "fn" = true)
      (isName : name.kind = .ident) : PhaseReads (.fnOpen name.text) [keyword, name]
  | firstParam {name : String} {tokens : List Token} (begun : FnReads name tokens) :
      PhaseReads (.firstParam name) tokens
  | nextParam {name : String} {params : List String} {comma : Token} {before tokens : List Token}
      (begun : FnReads name before) (names : NameList tokens params.reverse)
      (separates : comma.kind = .comma) :
      PhaseReads (.nextParam name params) (before ++ (tokens ++ [comma]))
  | afterParam {name : String} {params : List String} {before tokens : List Token}
      (begun : FnReads name before) (names : NameList tokens params.reverse) :
      PhaseReads (.afterParam name params) (before ++ tokens)
  | bodyOpen {name : String} {params : List String} {closing : Token} {before tokens : List Token}
      (begun : FnReads name before) (names : Params tokens params.reverse)
      (closes : closing.kind = .rightParen) :
      PhaseReads (.bodyOpen name params) (before ++ (tokens ++ [closing]))
  | operand {context : Context Expr} {tokens : List Token} (reads : ContextReads context tokens)
      (plain : context.goal.Plain tokens) : PhaseReads (.operand context) tokens
  | firstArg {context : Context Expr} {callee opening : Token} {tokens : List Token}
      (reads : ContextReads context tokens) (name : callee.kind = .ident)
      (opens : opening.kind = .leftParen) (plain : context.goal.Plain (tokens ++ [callee])) :
      PhaseReads (.firstArg context callee.text) (tokens ++ [callee, opening])
  | afterIdent {context : Context Expr} {name : Token} {tokens : List Token}
      (reads : ContextReads context tokens) (isName : name.kind = .ident)
      (plain : context.goal.Plain (tokens ++ [name])) :
      PhaseReads (.afterIdent context name.text) (tokens ++ [name])
  | operator {context : Context Expr} {value : Expr} {before tokens : List Token}
      (reads : ContextReads context before) (derives : Derives .primary tokens value)
      (plain : context.goal.Plain (before ++ tokens)) :
      PhaseReads (.operator context value) (before ++ tokens)

/-- A step inside a statement: its tokens are now these, or they complete it. -/
def Advances (state : State Expr) (tokens : List Token) (next : State Expr) : Prop :=
  (∃ phase, next = { state with phase } ∧ PhaseReads phase tokens) ∨
    ∃ stmt, next = state.addStmt stmt ∧ Statement tokens stmt

theorem advances_of_expect {state next : State Expr} {token : Token} {kind : TokenKind}
    {phase : Phase Expr} {tokens : List Token}
    (stepped : (state.expect token kind phase : TreeParser (State Expr)) = .ok next)
    (reads : token.kind = kind → PhaseReads phase tokens) : Advances state tokens next := by
  unfold State.expect at stepped
  split at stepped
  case isTrue matched =>
      cases stepped
      exact .inl ⟨phase, rfl, reads matched⟩
  case isFalse => cases stepped

theorem ContextReads.inside {context : Context Expr} {bracket : Bracket Expr}
    {tokens own : List Token} (reads : ContextReads context tokens)
    (opened : BracketReads bracket own) :
    ContextReads (context.inside bracket) (tokens ++ own) := by
  cases reads with
  | intro begun stack inner =>
      have deeper := ContextReads.intro begun (.cons stack inner opened) .nil
      simpa [Context.inside] using deeper

theorem ArgsRead.complete {args : List Expr} {value : Expr} {tokens own : List Token}
    (read : ArgsRead args tokens) (derives : Derives .assignment own value) :
    ArgList (tokens ++ own) (value :: args).reverse := by
  rw [List.reverse_cons]
  cases read with
  | nil => exact .one derives
  | comma before separates => simpa using before.append separates derives

theorem GoalReads.complete {goal : Goal} {lead own : List Token} {value : Expr}
    {semicolon : Token} (begun : GoalReads goal lead) (derives : Derives .assignment own value)
    (plain : goal.Plain (lead ++ own)) (ends : semicolon.kind = .semicolon) :
    Statement (lead ++ (own ++ [semicolon])) (goal.stmt value) := by
  cases begun with
  | letValue isLet isName binds => exact .letBind isLet isName binds derives ends
  | returnValue isReturn => exact .ret isReturn derives ends
  | statement =>
      refine .expr derives ?_ ends
      obtain ⟨first, rest, same, notKeyword⟩ := plain rfl
      intro token member
      rw [show own = first :: rest from same] at member
      cases member
      exact notKeyword

theorem advances_stepOperand {state next : State Expr} {context : Context Expr} {token : Token}
    {tokens : List Token} (reads : ContextReads context tokens)
    (plain : context.goal.Plain (tokens ++ [token]))
    (stepped : state.stepOperand context token = .ok next) :
    Advances state (tokens ++ [token]) next := by
  unfold State.stepOperand at stepped
  split at stepped
  case h_1 kind =>
      split at stepped
      case h_1 value read =>
          cases stepped
          exact .inl ⟨_, rfl, .operator reads (.number kind read) plain⟩
      case h_2 => cases stepped
  case h_2 kind =>
      cases stepped
      exact .inl ⟨_, rfl, .operator reads (.text kind) plain⟩
  case h_3 kind =>
      cases stepped
      exact .inl ⟨_, rfl, .afterIdent reads kind plain⟩
  case h_4 kind =>
      cases stepped
      exact .inl ⟨_, rfl, .operand (reads.inside (.paren kind)) plain⟩
  case h_5 => cases stepped

theorem advances_stepFirstArg {state next : State Expr} {context : Context Expr}
    {callee opening token : Token} {tokens : List Token} (reads : ContextReads context tokens)
    (name : callee.kind = .ident) (opens : opening.kind = .leftParen)
    (plain : context.goal.Plain (tokens ++ [callee]))
    (stepped : state.stepFirstArg context callee.text token = .ok next) :
    Advances state (tokens ++ [callee, opening] ++ [token]) next := by
  unfold State.stepFirstArg at stepped
  split at stepped
  case isTrue closes =>
      cases stepped
      refine .inl ⟨_, rfl, ?_⟩
      have stillPlain := plain.append [opening, token]
      rw [List.append_assoc] at stillPlain ⊢
      exact .operator reads (.call name opens .none closes) stillPlain
  case isFalse =>
      have stillPlain := plain.append [opening, token]
      have opened := reads.inside (.call name opens .nil)
      exact advances_stepOperand opened (by simpa [Context.inside] using stillPlain) stepped

theorem advances_stepEnd {state next : State Expr} {goal : Goal}
    {brackets : List (OpenBracket Expr)} {pending : List (Pending Expr)} {value : Expr}
    {token : Token} {lead outer own : List Token}
    (begun : GoalReads goal lead) (stack : StackReads brackets outer)
    (derives : Derives .assignment own value) (plain : goal.Plain (lead ++ (outer ++ own)))
    (stepped : state.stepEnd ⟨goal, brackets, pending⟩ value token = .ok next) :
    Advances state (lead ++ (outer ++ own) ++ [token]) next := by
  unfold State.stepEnd at stepped
  have stillPlain := plain.append [token]
  cases stack with
  | nil =>
      simp only at stepped
      split at stepped
      case isTrue ends =>
          cases stepped
          have complete := begun.complete derives plain ends
          exact .inr ⟨_, rfl, by simpa using complete⟩
      case isFalse => cases stepped
  | cons stack inner opened =>
      cases opened with
      | paren opens =>
          refine advances_of_expect stepped fun closes => ?_
          have reads := ContextReads.intro begun stack inner
          have primary := Derives.paren opens derives closes
          have complete := PhaseReads.operator reads primary (by simpa using stillPlain)
          simpa using complete
      | call name opens before =>
          have args := before.complete derives
          simp only at stepped
          split at stepped
          case isTrue separates =>
              cases stepped
              have reads := ContextReads.intro begun
                (.cons stack inner (.call name opens (.comma args separates))) .nil
              exact .inl ⟨_, rfl, .operand (by simpa using reads) stillPlain⟩
          case isFalse =>
              refine advances_of_expect stepped fun closes => ?_
              have reads := ContextReads.intro begun stack inner
              have primary := Derives.call name opens (.some args) closes
              have complete := PhaseReads.operator reads primary (by simpa using stillPlain)
              simpa using complete

theorem advances_stepOperator {state next : State Expr} {context : Context Expr} {value : Expr}
    {token : Token} {before own : List Token} (reads : ContextReads context before)
    (derives : Derives .primary own value) (plain : context.goal.Plain (before ++ own))
    (stepped : state.stepOperator context value token = .ok next) :
    Advances state (before ++ own ++ [token]) next := by
  rw [State.stepOperator_eq] at stepped
  have stillPlain := plain.append [token]
  cases reads with
  | @intro goal brackets pending lead outer operators begun stack inner =>
      split at stepped
      case h_1 op stands =>
          obtain ⟨kept, left, level, same, read, stillLoose, leftDerives, below⟩ :=
            inner.reduce op.precedence derives (loose_primary pending)
              (Nat.le_of_lt (precedence_lt_primary op))
          rw [← precedence_level] at below
          have extended := ContextReads.intro begun stack
            (.cons read stillLoose (leftDerives.loosen below) (BinaryOp.ofKind?_eq_some.mp stands))
          cases stepped
          refine .inl ⟨_, rfl, .operand ?_ stillPlain⟩
          have rearranged : lead ++ (outer ++ (kept ++ (left ++ [token]))) =
              lead ++ (outer ++ operators) ++ own ++ [token] := by
            rw [← List.append_assoc kept, same]
            simp
          rw [← rearranged]
          exact extended
      case h_2 =>
          have complete := inner.reduceAll derives
          have advanced := advances_stepEnd begun stack complete (by simpa using plain) stepped
          simpa using advanced

theorem advances_stepAfterIdent {state next : State Expr} {context : Context Expr}
    {name token : Token} {tokens : List Token} (reads : ContextReads context tokens)
    (isName : name.kind = .ident)
    (plain : context.goal.Plain (tokens ++ [name]))
    (stepped : state.stepAfterIdent context name.text token = .ok next) :
    Advances state (tokens ++ [name] ++ [token]) next := by
  unfold State.stepAfterIdent at stepped
  split at stepped
  case isTrue opens =>
      cases stepped
      rw [List.append_assoc]
      exact .inl ⟨_, rfl, .firstArg reads isName opens plain⟩
  case isFalse => exact advances_stepOperator reads (.ident isName) plain stepped

theorem advances_stepFirstParam {state next : State Expr} {name : String} {token : Token}
    {tokens : List Token} (begun : FnReads name tokens)
    (stepped : (state.stepFirstParam name token : TreeParser (State Expr)) = .ok next) :
    Advances state (tokens ++ [token]) next := by
  unfold State.stepFirstParam at stepped
  split at stepped
  case isTrue kind =>
      cases stepped
      exact .inl ⟨_, rfl, .afterParam begun (.one kind)⟩
  case isFalse =>
      refine advances_of_expect stepped fun closes => ?_
      rw [← List.nil_append [token]]
      exact .bodyOpen begun .none closes

theorem advances_stepAfterParam {state next : State Expr} {name : String} {params : List String}
    {token : Token} {before tokens : List Token} (begun : FnReads name before)
    (names : NameList tokens params.reverse)
    (stepped : (state.stepAfterParam name params token : TreeParser (State Expr)) = .ok next) :
    Advances state (before ++ tokens ++ [token]) next := by
  unfold State.stepAfterParam at stepped
  rw [List.append_assoc]
  split at stepped
  case isTrue separates =>
      cases stepped
      exact .inl ⟨_, rfl, .nextParam begun names separates⟩
  case isFalse =>
      exact advances_of_expect stepped fun closes => .bodyOpen begun (.some names) closes

/-! ## The tokens of a state -/

/-- The tokens before the unfinished statement: the complete statements of each
open block, and the definitions around them up to their braces. -/
inductive BlockReads : List (OpenFn Expr) → List (Stmt Expr) → List Token → Prop where
  | top {block : List (Stmt Expr)} {tokens : List Token}
      (stmts : Statements tokens block.reverse) : BlockReads [] block tokens
  | inside {name : String} {params : List String} {before block : List (Stmt Expr)}
      {enclosing : List (OpenFn Expr)} {closing leftBrace : Token}
      {outer lead paramTokens tokens : List Token} (around : BlockReads enclosing before outer)
      (begun : FnReads name lead) (names : Params paramTokens params)
      (closes : closing.kind = .rightParen) (begins : leftBrace.kind = .leftBrace)
      (stmts : Statements tokens block.reverse) :
      BlockReads (⟨name, params, before⟩ :: enclosing) block
        (outer ++ (lead ++ (paramTokens ++ [closing, leftBrace])) ++ tokens)

theorem BlockReads.addStmt {enclosing : List (OpenFn Expr)} {block : List (Stmt Expr)}
    {stmt : Stmt Expr} {tokens own : List Token} (reads : BlockReads enclosing block tokens)
    (complete : Statement own stmt) : BlockReads enclosing (stmt :: block) (tokens ++ own) := by
  have extended {block : List (Stmt Expr)} {tokens : List Token}
      (stmts : Statements tokens block.reverse) :
      Statements (tokens ++ own) (stmt :: block).reverse := by
    rw [List.reverse_cons]
    exact stmts.append complete
  cases reads with
  | top stmts => exact .top (extended stmts)
  | inside around begun names closes begins stmts =>
      rw [List.append_assoc]
      exact .inside around begun names closes begins (extended stmts)

/-- The tokens that a state stands for. -/
inductive State.Reads : State Expr → List Token → Prop where
  | intro {state : State Expr} {before own : List Token}
      (blocks : BlockReads state.enclosing state.block before)
      (unfinished : PhaseReads state.phase own) : State.Reads state (before ++ own)

theorem State.reads_start : State.start.Reads [] := by
  rw [← List.nil_append []]
  exact .intro (.top .nil) .statement

theorem Advances.reads {state next : State Expr} {before own : List Token}
    (advances : Advances state own next)
    (blocks : BlockReads state.enclosing state.block before) : next.Reads (before ++ own) := by
  rcases advances with ⟨phase, rfl, unfinished⟩ | ⟨stmt, rfl, complete⟩
  · exact .intro blocks unfinished
  · have added : State.Reads (state.addStmt stmt) (before ++ own ++ []) :=
      .intro (blocks.addStmt complete) .statement
    rwa [List.append_nil] at added

theorem State.Reads.stepBodyOpen {state next : State Expr} {name : String} {params : List String}
    {closing token : Token} {before lead tokens : List Token}
    (blocks : BlockReads state.enclosing state.block before) (begun : FnReads name lead)
    (names : Params tokens params.reverse) (closes : closing.kind = .rightParen)
    (stepped : (state.stepBodyOpen name params token : TreeParser (State Expr)) = .ok next) :
    next.Reads (before ++ (lead ++ (tokens ++ [closing]) ++ [token])) := by
  unfold State.stepBodyOpen at stepped
  split at stepped
  case isTrue begins =>
      cases stepped
      have opened : BlockReads (⟨name, params.reverse, state.block⟩ :: state.enclosing) []
          (before ++ (lead ++ (tokens ++ [closing, token])) ++ []) :=
        .inside blocks begun names closes begins .nil
      have reads : State.Reads ⟨.statement, [], _⟩ (_ ++ []) := .intro opened .statement
      simpa using reads
  case isFalse => cases stepped

theorem FnReads.complete {name : String} {params : List String} {body : List (Stmt Expr)}
    {closing leftBrace rightBrace : Token} {lead paramTokens bodyTokens : List Token}
    (begun : FnReads name lead) (names : Params paramTokens params)
    (closes : closing.kind = .rightParen) (begins : leftBrace.kind = .leftBrace)
    (stmts : Statements bodyTokens body) (ends : rightBrace.kind = .rightBrace) :
    Statement (lead ++ (paramTokens ++ [closing, leftBrace]) ++ bodyTokens ++ [rightBrace])
      (.fnDef name params body) := by
  cases begun with
  | intro isFn isName opens =>
      have complete := Statement.fnDef isFn isName opens names closes begins stmts ends
      simpa using complete

theorem State.Reads.stepStatement {state next : State Expr} {token : Token} {before : List Token}
    (blocks : BlockReads state.enclosing state.block before)
    (stepped : state.stepStatement token = .ok next) : next.Reads (before ++ [token]) := by
  unfold State.stepStatement at stepped
  split at stepped
  case isTrue isLet =>
      cases stepped
      exact .intro blocks (.letName isLet)
  case isFalse notLet =>
  split at stepped
  case isTrue isFn =>
      cases stepped
      exact .intro blocks (.fnName isFn)
  case isFalse notFn =>
  split at stepped
  case isTrue isReturn =>
      cases stepped
      refine .intro blocks (.operand ?_ nofun)
      exact .intro (.returnValue isReturn) .nil .nil
  case isFalse notReturn =>
  split at stepped
  case h_1 fn enclosing ends inside =>
      rw [inside] at blocks
      cases stepped
      cases blocks with
      | inside around begun names closes begins stmts =>
          have complete := begun.complete names closes begins stmts ends
          have reads : State.Reads ⟨.statement, _, enclosing⟩ (_ ++ []) :=
            .intro (around.addStmt complete) .statement
          simpa using reads
  case h_2 =>
      have empty : ContextReads ⟨.statement, [], []⟩ [] := .intro .statement .nil .nil
      have plain : Goal.Plain .statement ([] ++ [token]) :=
        fun _ => ⟨token, [], rfl, by simp [Token.isKeyword, notLet, notFn, notReturn]⟩
      exact (advances_stepOperand empty plain stepped).reads blocks

/-- A step adds its token to the tokens that the state stands for. -/
theorem State.Reads.step {state next : State Expr} {token : Token} {tokens : List Token}
    (reads : state.Reads tokens) (stepped : state.step token = .ok next) :
    next.Reads (tokens ++ [token]) := by
  obtain ⟨blocks, unfinished⟩ := reads
  unfold State.step at stepped
  generalize here : state.phase = phase at unfinished stepped
  rw [List.append_assoc]
  cases unfinished with
  | statement => exact State.Reads.stepStatement blocks stepped
  | letName isLet =>
      exact (advances_of_expect stepped fun isName => .letEqual isLet isName).reads blocks
  | letEqual isLet isName =>
      refine (advances_of_expect stepped fun binds => ?_).reads blocks
      exact .operand (.intro (.letValue isLet isName binds) .nil .nil) nofun
  | fnName isFn =>
      exact (advances_of_expect stepped fun isName => .fnOpen isFn isName).reads blocks
  | fnOpen isFn isName =>
      refine (advances_of_expect stepped fun opens => ?_).reads blocks
      exact .firstParam (.intro isFn isName opens)
  | firstParam begun => exact (advances_stepFirstParam begun stepped).reads blocks
  | nextParam begun names separates =>
      refine (advances_of_expect stepped fun kind => ?_).reads blocks
      have extended := names.append separates kind
      rw [← List.reverse_cons] at extended
      simpa using PhaseReads.afterParam begun extended
  | afterParam begun names => exact (advances_stepAfterParam begun names stepped).reads blocks
  | bodyOpen begun names closes =>
      exact State.Reads.stepBodyOpen blocks begun names closes stepped
  | operand reads plain =>
      exact (advances_stepOperand reads (plain.append _) stepped).reads blocks
  | firstArg reads name opens plain =>
      exact (advances_stepFirstArg reads name opens plain stepped).reads blocks
  | afterIdent reads isName plain =>
      exact (advances_stepAfterIdent reads isName plain stepped).reads blocks
  | operator reads derives plain =>
      exact (advances_stepOperator reads derives plain stepped).reads blocks

theorem State.Reads.run {state next : State Expr} {tokens others : List Token}
    (reads : state.Reads tokens) (ran : state.run others = .ok next) :
    next.Reads (tokens ++ others) := by
  induction others generalizing state tokens with
  | nil =>
      cases ran
      rwa [List.append_nil]
  | cons token rest inductionHypothesis =>
      unfold State.run at ran
      cases stepped : state.step token with
      | ok middle =>
          rw [stepped] at ran
          rw [List.append_cons]
          exact inductionHypothesis (reads.step stepped) ran
      | error error =>
          rw [stepped] at ran
          cases ran

theorem State.finish_eq_ok {state : State Expr} {stmts : List (Stmt Expr)}
    (finished : state.finish = .ok stmts) :
    state.phase = .statement ∧ state.enclosing = [] ∧ stmts = state.block.reverse := by
  rw [State.finish_eq] at finished
  split at finished
  case h_1 nothing =>
      obtain ⟨here, outermost⟩ := State.missing?_eq_none nothing
      cases finished
      exact ⟨here, outermost, rfl⟩
  case h_2 => cases finished

theorem State.Reads.finish {state : State Expr} {tokens : List Token} {stmts : List (Stmt Expr)}
    (reads : state.Reads tokens) (finished : state.finish = .ok stmts) :
    Statements tokens stmts := by
  obtain ⟨here, outermost, rfl⟩ := State.finish_eq_ok finished
  obtain ⟨blocks, unfinished⟩ := reads
  rw [here] at unfinished
  rw [outermost] at blocks
  cases unfinished
  cases blocks with
  | top complete => rwa [List.append_nil]

/-- What the parser accepts is derived. -/
theorem statements_of_trees {tokens : List Token} {stmts : List (Stmt Expr)}
    (parsed : trees tokens = .ok stmts) : Statements tokens stmts := by
  cases ran : (State.start : State Expr).run tokens with
  | ok state =>
      rw [trees_of_run ran] at parsed
      exact (State.reads_start.run ran).finish parsed
  | error error =>
      rw [trees_of_run_error ran] at parsed
      cases parsed

end Parser

/-! ## The parser and the grammar -/

theorem trees_eq_ok {tokens : List Token} {stmts : List (Stmt Expr)} :
    Parser.trees tokens = .ok stmts ↔ Grammar.Statements tokens stmts :=
  ⟨Parser.statements_of_trees, Parser.trees_of_statements⟩

/-- The parser accepts exactly the token lists that the grammar derives.  No list has
two trees, and the nodes of the program unfold to the tree of the derivation. -/
theorem parse_agrees_with_grammar (tokens : List Token) :
    ((∃ program, parse tokens = .ok program) ↔ ∃ stmts, Grammar.Statements tokens stmts) ∧
      (∀ first second, Grammar.Statements tokens first → Grammar.Statements tokens second →
        first = second) ∧
      ∀ program stmts, parse tokens = .ok program → Grammar.Statements tokens stmts →
        program.trees? = some stmts := by
  refine ⟨⟨?_, ?_⟩, ?_, ?_⟩
  · rintro ⟨program, parsed⟩
    obtain ⟨stmts, read, _⟩ := parse_eq_ok.mp parsed
    exact ⟨stmts, trees_eq_ok.mp read⟩
  · rintro ⟨stmts, derives⟩
    exact ⟨Program.ofTrees stmts, parse_eq_ok.mpr ⟨stmts, trees_eq_ok.mpr derives, rfl⟩⟩
  · intro first second firstDerives secondDerives
    have same := (trees_eq_ok.mpr firstDerives).symm.trans (trees_eq_ok.mpr secondDerives)
    exact Except.ok.inj same
  · intro program stmts parsed derives
    obtain ⟨read, readTrees, rfl⟩ := parse_eq_ok.mp parsed
    have same := readTrees.symm.trans (trees_eq_ok.mpr derives)
    rw [Program.trees?_ofTrees, Except.ok.inj same]

end ScopeScript
