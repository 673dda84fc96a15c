import ScopeScript.Proofs.Grammar
import ScopeScript.Proofs.TreeParser

/-!
Contract: the parser reads every derivation of the grammar and builds its tree.

Owns: the phases in which an expression has just been read, what reading a derived
expression does in any context, and the same for statements and whole programs.

After an expression the pending operators are not completed yet; that waits for the
next token.  So a phase is described by how its operators will complete: at every
precedence up to that of the level, as they would after the whole expression.
-/

set_option autoImplicit false

namespace ScopeScript.Parser

open Grammar

/-! ## Pending operators -/

/-- The innermost pending operator binds less tightly than `precedence`. -/
def Loose (precedence : Nat) (pending : List (Pending Expr)) : Prop :=
  ∀ entry ∈ pending.head?, entry.op.precedence < precedence

theorem loose_nil (precedence : Nat) : Loose precedence [] := by
  intro entry member
  cases member

theorem Loose.mono {loose tight : Nat} {pending : List (Pending Expr)}
    (isLoose : Loose loose pending) (le : loose ≤ tight) : Loose tight pending :=
  fun entry member => Nat.lt_of_lt_of_le (isLoose entry member) le

theorem reduce_of_loose {precedence : Nat} {pending : List (Pending Expr)} (value : Expr)
    (isLoose : Loose precedence pending) :
    reduce precedence pending value = (pending, value) := by
  cases pending with
  | nil => rfl
  | cons entry rest =>
      have weaker := isLoose entry (by simp)
      rw [reduce, if_neg (Nat.not_le_of_lt weaker)]

theorem reduce_cons {precedence : Nat} {op : BinaryOp} (left value : Expr)
    (rest : List (Pending Expr)) (le : precedence ≤ op.precedence) :
    reduce precedence (⟨left, op⟩ :: rest) value =
      reduce precedence rest (.binary op left value) := by
  rw [reduce, if_pos le]

theorem reduce_zero (pending : List (Pending Expr)) (value : Expr) :
    reduce 0 pending value = ([], reduceAll pending value) := by
  induction pending generalizing value with
  | nil => rfl
  | cons entry rest inductionHypothesis =>
      rw [reduce_cons _ _ _ (Nat.zero_le _), inductionHypothesis]
      rfl

/-! ## Phases after an expression -/

/-- The context and the operand of a phase in which an operand is complete. -/
def Phase.operand? : Phase Expr → Option (Context Expr × Expr)
  | .operator context value => some (context, value)
  | .afterIdent context name => some (context, .ident name)
  | _ => none

/-- The phase stands after an expression: its operators complete as those of
`context` do after `value`. -/
def Phase.After (context : Context Expr) (precedence : Nat) (value : Expr)
    (phase : Phase Expr) : Prop :=
  ∃ pending operand, phase.operand? = some ({ context with pending }, operand) ∧
    ∀ tightness ≤ precedence,
      reduce tightness pending operand = reduce tightness context.pending value

theorem Phase.After.mono {context : Context Expr} {loose tight : Nat} {value : Expr}
    {phase : Phase Expr} (after : phase.After context tight value) (le : loose ≤ tight) :
    phase.After context loose value := by
  obtain ⟨pending, operand, here, completes⟩ := after
  exact ⟨pending, operand, here, fun tightness below =>
    completes tightness (Nat.le_trans below le)⟩

theorem Phase.after_operator (context : Context Expr) (precedence : Nat) (value : Expr) :
    (Phase.operator context value).After context precedence value :=
  ⟨context.pending, value, rfl, fun _ _ => rfl⟩

theorem Phase.after_ident (context : Context Expr) (precedence : Nat) (name : String) :
    (Phase.afterIdent context name).After context precedence (.ident name) :=
  ⟨context.pending, .ident name, rfl, fun _ _ => rfl⟩

theorem State.step_of_operand {state : State Expr} {context : Context Expr} {value : Expr}
    {token : Token} (here : state.phase.operand? = some (context, value))
    (noCall : token.kind ≠ .leftParen) :
    state.step token = state.stepOperator context value token := by
  unfold State.step
  cases phase : state.phase with
  | operator inner operand =>
      rw [phase] at here
      cases here
      rfl
  | afterIdent inner name =>
      rw [phase] at here
      cases here
      exact if_neg noCall
  | _ =>
      rw [phase] at here
      cases here

theorem State.step_operand_end {state : State Expr} {context : Context Expr} {value : Expr}
    {token : Token} (here : state.phase.operand? = some (context, value))
    (noOperator : BinaryOp.ofKind? token.kind = none) (noCall : token.kind ≠ .leftParen) :
    state.step token = state.stepEnd context (reduceAll context.pending value) token := by
  rw [State.step_of_operand here noCall, State.stepOperator_eq, noOperator]

/-- The end of an expression forgets its pending operators. -/
theorem State.stepEnd_pending (state : State Expr) (context : Context Expr)
    (pending : List (Pending Expr)) (value : Expr) (token : Token) :
    state.stepEnd { context with pending } value token = state.stepEnd context value token := by
  unfold State.stepEnd
  cases context.brackets with
  | nil => rfl
  | cons entry rest =>
      obtain ⟨bracket, outer⟩ := entry
      cases bracket <;> rfl

theorem State.step_operator (state : State Expr) {phase : Phase Expr} {context : Context Expr}
    {precedence : Nat} {value : Expr} {token : Token} {op : BinaryOp}
    (after : phase.After context precedence value)
    (stands : token.kind = op.tokenKind) (le : op.precedence ≤ precedence)
    (isLoose : Loose op.precedence context.pending) :
    State.step { state with phase } token = .ok { state with
      phase := .operand { context with pending := ⟨value, op⟩ :: context.pending } } := by
  obtain ⟨pending, operand, here, completes⟩ := after
  have noCall : token.kind ≠ .leftParen := by
    rw [stands]
    cases op <;> decide
  have reduced := (completes op.precedence le).trans (reduce_of_loose value isLoose)
  rw [State.step_of_operand here noCall]
  simp only [State.stepOperator_eq, BinaryOp.ofKind?_eq_some.mpr stands, reduced]

theorem State.step_end (state : State Expr) {phase : Phase Expr} {context : Context Expr}
    {precedence : Nat} {value : Expr} {token : Token}
    (after : phase.After context precedence value)
    (noOperator : BinaryOp.ofKind? token.kind = none) (noCall : token.kind ≠ .leftParen) :
    State.step { state with phase } token =
      State.stepEnd { state with phase } context (reduceAll context.pending value) token := by
  obtain ⟨pending, operand, here, completes⟩ := after
  have complete : reduceAll pending operand = reduceAll context.pending value := by
    have same := completes 0 (Nat.zero_le _)
    rw [reduce_zero, reduce_zero] at same
    exact congrArg Prod.snd same
  rw [State.step_operand_end here noOperator noCall, complete]
  exact State.stepEnd_pending _ context pending _ token

/-! ## Expressions -/

/-- The tokens with which an expression can begin. -/
def startsExpr (token : Token) : Prop :=
  token.kind = .number ∨ token.kind = .text ∨ token.kind = .ident ∨ token.kind = .leftParen

theorem kind_ne_of_startsExpr {token : Token} {kind : TokenKind} (starts : startsExpr token)
    (other : kind ∉ [.number, .text, .ident, .leftParen]) : token.kind ≠ kind := by
  rintro rfl
  rcases starts with isKind | isKind | isKind | isKind <;> simp [isKind] at other

theorem startsExpr_of_derives : ∀ {level : Level} {tokens : List Token} {value : Expr},
    Derives level tokens value → ∃ first rest, tokens = first :: rest ∧ startsExpr first
  | _, _, _, .number kind _ => ⟨_, _, rfl, .inl kind⟩
  | _, _, _, .text kind => ⟨_, _, rfl, .inr (.inl kind)⟩
  | _, _, _, .ident kind => ⟨_, _, rfl, .inr (.inr (.inl kind))⟩
  | _, _, _, .call name _ _ _ => ⟨_, _, rfl, .inr (.inr (.inl name))⟩
  | _, _, _, .paren opens _ _ => ⟨_, _, rfl, .inr (.inr (.inr opens))⟩
  | _, _, _, .ofPrimary derives => startsExpr_of_derives derives
  | _, _, _, .ofProduct derives => startsExpr_of_derives derives
  | _, _, _, .ofSum derives => startsExpr_of_derives derives
  | _, _, _, .binary _ first _ _ => by
      obtain ⟨token, rest, rfl, starts⟩ := startsExpr_of_derives first
      exact ⟨token, _, rfl, starts⟩

theorem startsExpr_of_argList {tokens : List Token} {values : List Expr}
    (derives : ArgList tokens values) :
    ∃ first rest, tokens = first :: rest ∧ startsExpr first := by
  cases derives with
  | one derives => exact startsExpr_of_derives derives
  | more derives separates others =>
      obtain ⟨first, rest, rfl, starts⟩ := startsExpr_of_derives derives
      exact ⟨first, _, rfl, starts⟩

section Brackets

variable (state : State Expr) {phase : Phase Expr} {context : Context Expr} {precedence : Nat}
  {value : Expr} {token : Token}

theorem State.step_close_paren (after : phase.After (context.inside .paren) precedence value)
    (closes : token.kind = .rightParen) :
    State.step { state with phase } token =
      .ok { state with phase := .operator context value } := by
  rw [State.step_end state after (by rw [closes]; rfl) (by rw [closes]; decide)]
  simp [State.stepEnd, Context.inside, State.expect, closes, reduceAll]

theorem State.step_close_call {callee : String} {args : List Expr}
    (after : phase.After (context.inside (.call callee args)) precedence value)
    (closes : token.kind = .rightParen) :
    State.step { state with phase } token = .ok { state with
      phase := .operator context (.call callee (value :: args).reverse) } := by
  rw [State.step_end state after (by rw [closes]; rfl) (by rw [closes]; decide)]
  simp [State.stepEnd, Context.inside, closes, reduceAll]

theorem State.step_comma {callee : String} {args : List Expr}
    (after : phase.After (context.inside (.call callee args)) precedence value)
    (separates : token.kind = .comma) :
    State.step { state with phase } token = .ok { state with
      phase := .operand (context.inside (.call callee (value :: args))) } := by
  rw [State.step_end state after (by rw [separates]; rfl) (by rw [separates]; decide)]
  simp [State.stepEnd, Context.inside, separates, reduceAll]

end Brackets

/-- A call whose parentheses have nothing between them. -/
theorem State.run_empty_call (state : State Expr) (context : Context Expr)
    {callee opening closing : Token} (name : callee.kind = .ident)
    (opens : opening.kind = .leftParen) (closes : closing.kind = .rightParen) :
    State.run { state with phase := .operand context } [callee, opening, closing] =
      .ok { state with phase := .operator context (.call callee.text []) } := by
  simp [State.run, State.step, State.stepOperand, State.stepAfterIdent, State.stepFirstArg, name,
    opens, closes]

theorem State.run_open_call (state : State Expr) (context : Context Expr)
    {callee opening first : Token} (rest : List Token) (name : callee.kind = .ident)
    (opens : opening.kind = .leftParen) (starts : startsExpr first) :
    State.run { state with phase := .operand context } (callee :: opening :: first :: rest) =
      State.run { state with phase := .operand (context.inside (.call callee.text [])) }
        (first :: rest) := by
  have notClosing : first.kind ≠ .rightParen := kind_ne_of_startsExpr starts (by decide)
  simp only [State.run, State.step, State.stepOperand, State.stepAfterIdent, State.stepFirstArg,
    name, opens, notClosing, if_true, if_false, pure_eq_ok, ok_bind, Context.inside]

/-- Reading the tokens where an operand is wanted leads to a phase after the
expression, if its level is tighter than the innermost pending operator. -/
def RunsTo (level : Level) (tokens : List Token) (value : Expr) : Prop :=
  ∀ (state : State Expr) (context : Context Expr), Loose level.precedence context.pending →
    ∃ phase, State.run { state with phase := .operand context } tokens =
      .ok { state with phase } ∧ phase.After context level.precedence value

theorem RunsTo.loosen {tight loose : Level} {tokens : List Token} {value : Expr}
    (runs : RunsTo tight tokens value) (le : loose.precedence ≤ tight.precedence) :
    RunsTo loose tokens value := by
  intro state context isLoose
  obtain ⟨phase, ran, after⟩ := runs state context (isLoose.mono le)
  exact ⟨phase, ran, after.mono le⟩

mutual

theorem run_derives : ∀ {level : Level} {tokens : List Token} {value : Expr},
    Derives level tokens value → RunsTo level tokens value
  | _, _, _, .number kind read => by
      intro state context _
      refine ⟨_, ?_, Phase.after_operator context _ _⟩
      simp [State.run, State.step, State.stepOperand, kind, read]
  | _, _, _, .text kind => by
      intro state context _
      refine ⟨_, ?_, Phase.after_operator context _ _⟩
      simp [State.run, State.step, State.stepOperand, kind]
  | _, _, _, .ident kind => by
      intro state context _
      refine ⟨_, ?_, Phase.after_ident context _ _⟩
      simp [State.run, State.step, State.stepOperand, kind]
  | _, _, _, .call name opens .none closes => fun state context _ =>
      ⟨_, State.run_empty_call state context name opens closes, Phase.after_operator context _ _⟩
  | _, _, _, @Derives.call callee opening closing tokens args name opens (.some derives)
      closes => by
      intro state context _
      have arguments := run_argList derives state context callee.text [] closes
      obtain ⟨first, rest, rfl, starts⟩ := startsExpr_of_argList derives
      refine ⟨_, ?_, Phase.after_operator context _ _⟩
      exact (State.run_open_call state context _ name opens starts).trans arguments
  | _, _, _, @Derives.paren opening closing tokens value opens derives closes => by
      intro state context _
      obtain ⟨phase, inner, after⟩ := run_derives derives state (context.inside .paren)
        (loose_nil _)
      have opened : State.step { state with phase := .operand context } opening =
          .ok { state with phase := .operand (context.inside .paren) } := by
        simp [State.step, State.stepOperand, opens, Context.inside]
      refine ⟨_, ?_, Phase.after_operator context _ _⟩
      rw [State.run_cons _ opened, State.run_append_of_ok _ inner,
        State.run_cons _ (State.step_close_paren state after closes)]
      rfl
  | _, _, _, .ofPrimary derives => (run_derives derives).loosen (by decide)
  | _, _, _, .ofProduct derives => (run_derives derives).loosen (by decide)
  | _, _, _, .ofSum derives => (run_derives derives).loosen (by decide)
  | _, _, _, @Derives.binary level op operator leftTokens rightTokens left right atLevel first
      stands second => by
      intro state context isLoose
      obtain ⟨phase, leftRan, leftAfter⟩ := run_derives first state context isLoose
      rw [← atLevel, precedence_level] at isLoose leftAfter ⊢
      have shifted := State.step_operator state leftAfter stands (Nat.le_refl _) isLoose
      have rightLoose : Loose op.operandLevel.precedence (⟨left, op⟩ :: context.pending) := by
        intro entry member
        cases member
        exact precedence_lt_operandLevel op
      obtain ⟨last, rightRan, pending, operand, here, completes⟩ := run_derives second state
        { context with pending := ⟨left, op⟩ :: context.pending } rightLoose
      -- The operator itself is still pending here; completing it is the last step of
      -- completing everything as tight as its level.
      refine ⟨last, ?_, pending, operand, here, fun tightness below => ?_⟩
      · rw [State.run_append_of_ok _ leftRan, State.run_cons _ shifted]
        exact rightRan
      · have tighter := Nat.le_trans below (Nat.le_of_lt (precedence_lt_operandLevel op))
        rw [completes tightness tighter]
        exact reduce_cons left right context.pending below

/-- Reading arguments up to the closing parenthesis completes the call. -/
theorem run_argList : ∀ {tokens : List Token} {values : List Expr}, ArgList tokens values →
    ∀ (state : State Expr) (context : Context Expr) (callee : String) (done : List Expr)
        {closing : Token},
      closing.kind = .rightParen →
      State.run { state with phase := .operand (context.inside (.call callee done)) }
          (tokens ++ [closing]) =
        .ok { state with phase := .operator context (.call callee (done.reverse ++ values)) }
  | _, _, @ArgList.one tokens value derives, state, context, callee, done, closing, closes => by
      obtain ⟨phase, ran, after⟩ := run_derives derives state
        (context.inside (.call callee done)) (loose_nil _)
      rw [State.run_append_of_ok _ ran,
        State.run_cons _ (State.step_close_call state after closes), List.reverse_cons]
      rfl
  | _, _, @ArgList.more comma tokens others value values derives separates rest,
      state, context, callee, done, closing, closes => by
      obtain ⟨phase, ran, after⟩ := run_derives derives state
        (context.inside (.call callee done)) (loose_nil _)
      have remaining := run_argList rest state context callee (value :: done) closes
      rw [List.append_assoc, State.run_append_of_ok _ ran, List.cons_append,
        State.run_cons _ (State.step_comma state after separates), remaining, List.reverse_cons,
        List.append_assoc]
      rfl

end

/-! ## Statements -/

theorem run_nameList {tokens : List Token} {names : List String} (derives : NameList tokens names)
    (state : State Expr) (name : String) (done : List String) :
    State.run { state with phase := .nextParam name done } tokens =
      .ok { state with phase := .afterParam name (names.reverse ++ done) } := by
  induction derives generalizing done with
  | one kind => simp [State.run, State.step, State.expect, kind]
  | more kind separates rest inductionHypothesis =>
      simp [State.run, State.step, State.expect, State.stepAfterParam, kind, separates,
        inductionHypothesis]

theorem run_params {tokens : List Token} {names : List String} (derives : Params tokens names)
    (state : State Expr) (name : String) {closing : Token} (closes : closing.kind = .rightParen) :
    State.run { state with phase := .firstParam name } (tokens ++ [closing]) =
      .ok { state with phase := .bodyOpen name names.reverse } := by
  cases derives with
  | none => simp [State.run, State.step, State.stepFirstParam, State.expect, closes]
  | some derives =>
      -- The first name is read as a further one after none would be.
      have same : State.run { state with phase := .firstParam name } tokens =
          State.run { state with phase := .nextParam name [] } tokens := by
        cases derives with
        | one kind => simp [State.run, State.step, State.stepFirstParam, State.expect, kind]
        | more kind separates rest =>
            simp [State.run, State.step, State.stepFirstParam, State.expect, kind]
      rw [State.run_append_of_ok _ (same.trans (run_nameList derives state name []))]
      simp [State.run, State.step, State.stepAfterParam, State.expect, closes]

/-- Reading the expression of a statement up to the semicolon completes the
statement. -/
theorem run_value {tokens : List Token} {value : Expr}
    (derives : Derives .assignment tokens value) (state : State Expr) (goal : Goal)
    {semicolon : Token} (ends : semicolon.kind = .semicolon) :
    State.run { state with phase := .operand ⟨goal, [], []⟩ } (tokens ++ [semicolon]) =
      .ok (state.addStmt (goal.stmt value)) := by
  obtain ⟨phase, ran, after⟩ := run_derives derives state ⟨goal, [], []⟩ (loose_nil _)
  have noOperator : BinaryOp.ofKind? semicolon.kind = none := by
    rw [ends]
    rfl
  have noCall : semicolon.kind ≠ .leftParen := by
    rw [ends]
    decide
  have last := State.step_end state after noOperator noCall
  rw [State.run_append_of_ok _ ran, State.run, last]
  simp [State.stepEnd, ends, State.run, State.addStmt, reduceAll]

/-- A statement that no keyword begins is an expression, unless it is a brace that
closes a body. -/
theorem State.stepStatement_plain (state : State Expr) {token : Token}
    (plain : token.isKeyword = false) (noClose : token.kind = .rightBrace → state.enclosing = []) :
    state.stepStatement token = state.stepOperand ⟨.statement, [], []⟩ token := by
  simp only [Token.isKeyword, Bool.or_eq_false_iff] at plain
  obtain ⟨⟨notLet, notFn⟩, notReturn⟩ := plain
  simp only [State.stepStatement, notLet, notFn, notReturn, Bool.false_eq_true, if_false]
  split
  case h_1 brace enclosing =>
      rw [noClose brace] at enclosing
      cases enclosing
  case h_2 => rfl

theorem State.stepStatement_close (state : State Expr) {token : Token} {fn : OpenFn Expr}
    {enclosing : List (OpenFn Expr)} (closes : token.kind = .rightBrace)
    (inside : state.enclosing = fn :: enclosing) :
    state.stepStatement token = .ok {
      phase := .statement
      block := .fnDef fn.name fn.params state.block.reverse :: fn.before
      enclosing } := by
  simp [State.stepStatement, Token.isWord, closes, inside]

theorem State.run_let (state : State Expr) {keyword name equal : Token} (rest : List Token)
    (isLet : keyword.isWord "let" = true) (isName : name.kind = .ident)
    (binds : equal.kind = .equal) :
    State.run { state with phase := .statement } (keyword :: name :: equal :: rest) =
      State.run { state with phase := .operand ⟨.letValue name.text, [], []⟩ } rest := by
  simp [State.run, State.step, State.stepStatement, State.expect, isLet, isName, binds]

theorem State.run_return (state : State Expr) {keyword : Token} (rest : List Token)
    (isReturn : keyword.isWord "return" = true) :
    State.run { state with phase := .statement } (keyword :: rest) =
      State.run { state with phase := .operand ⟨.returnValue, [], []⟩ } rest := by
  have notLet : keyword.isWord "let" = false := Token.isWord_of_ne isReturn (by decide)
  have notFn : keyword.isWord "fn" = false := Token.isWord_of_ne isReturn (by decide)
  simp [State.run, State.step, State.stepStatement, isReturn, notLet, notFn]

theorem State.run_fn (state : State Expr) {keyword name opening : Token} (rest : List Token)
    (isFn : keyword.isWord "fn" = true) (isName : name.kind = .ident)
    (opens : opening.kind = .leftParen) :
    State.run { state with phase := .statement } (keyword :: name :: opening :: rest) =
      State.run { state with phase := .firstParam name.text } rest := by
  have notLet : keyword.isWord "let" = false := Token.isWord_of_ne isFn (by decide)
  simp [State.run, State.step, State.stepStatement, State.expect, isFn, notLet, isName, opens]

theorem State.run_plain (state : State Expr) {first : Token} (rest : List Token)
    (plain : first.isKeyword = false) (starts : startsExpr first) :
    State.run { state with phase := .statement } (first :: rest) =
      State.run { state with phase := .operand ⟨.statement, [], []⟩ } (first :: rest) := by
  have notBrace : first.kind ≠ .rightBrace := kind_ne_of_startsExpr starts (by decide)
  have same := State.stepStatement_plain { state with phase := .statement } plain
    (fun brace => absurd brace notBrace)
  simp only [State.run, State.step, same]
  rfl

mutual

theorem run_statement : ∀ {tokens : List Token} {stmt : Stmt Expr}, Statement tokens stmt →
    ∀ state : State Expr, State.run { state with phase := .statement } tokens =
      .ok (state.addStmt stmt)
  | _, _, .letBind isLet isName binds derives ends, state =>
      (State.run_let state _ isLet isName binds).trans (run_value derives state _ ends)
  | _, _, .ret isReturn derives ends, state =>
      (State.run_return state _ isReturn).trans (run_value derives state .returnValue ends)
  | _, _, @Statement.expr semicolon tokens value derives plain ends, state => by
      have valueRan := run_value derives state .statement ends
      obtain ⟨first, rest, rfl, starts⟩ := startsExpr_of_derives derives
      exact (State.run_plain state _ (plain first rfl) starts).trans valueRan
  | _, _, @Statement.fnDef keyword name opening closing leftBrace rightBrace paramTokens
      bodyTokens params body isFn isName opens hasParams closes begins hasBody ends, state => by
      -- The body runs in a block of its own, with the outer block kept in `enclosing`.
      have paramsRan := run_params hasParams state name.text closes
      let inside : State Expr :=
        ⟨.statement, [], ⟨name.text, params, state.block⟩ :: state.enclosing⟩
      have opened : State.step { state with phase := .bodyOpen name.text params.reverse }
          leftBrace = .ok inside := by
        simp [State.step, State.stepBodyOpen, begins, inside]
      have bodyRan := run_statements hasBody inside
      have closed : State.step { inside with block := body.reverse ++ [] } rightBrace =
          .ok (state.addStmt (.fnDef name.text params body)) := by
        refine (State.stepStatement_close _ ends rfl).trans ?_
        simp [State.addStmt]
      rw [State.run_fn state _ isFn isName opens, List.append_cons,
        State.run_append_of_ok _ paramsRan, State.run_cons _ opened,
        State.run_append_of_ok _ bodyRan, State.run_cons _ closed]
      rfl

theorem run_statements : ∀ {tokens : List Token} {stmts : List (Stmt Expr)},
    Statements tokens stmts → ∀ state : State Expr,
      State.run { state with phase := .statement } tokens =
        .ok { state with phase := .statement, block := stmts.reverse ++ state.block }
  | _, _, .nil, state => rfl
  | _, _, @Statements.cons tokens others stmt stmts first rest, state => by
      have remaining := run_statements rest (state.addStmt stmt)
      rw [State.run_append_of_ok _ (run_statement first state), List.reverse_cons,
        List.append_assoc]
      exact remaining

end

/-- The parser reads every derivation of a program. -/
theorem trees_of_statements {tokens : List Token} {stmts : List (Stmt Expr)}
    (derives : Statements tokens stmts) : trees tokens = .ok stmts := by
  rw [trees_of_run (run_statements derives State.start), State.finish_eq]
  simp [State.missing?, State.start]

end ScopeScript.Parser
