import ScopeScript.Proofs.ParserSoundness

/-!
Contract: a syntax error stands at the first token that cannot be right.

Owns: the beginnings of programs, the completion of every state of the parser to a
program, the errors of one step, and the place of the error of a list of tokens.

A state of the parser is never a dead end: its brackets, its statement and its function
bodies can all be closed.  So the tokens that the parser reads without an error are the
beginnings of programs, and the token at which it stops is the first that no program has
there.
-/

set_option autoImplicit false

namespace ScopeScript

namespace Grammar

/-- The tokens are a whole program. -/
def Sentence (tokens : List Token) : Prop :=
  ∃ stmts, Statements tokens stmts

/-- Some continuation makes the tokens a whole program. -/
def Viable (tokens : List Token) : Prop :=
  ∃ rest, Sentence (tokens ++ rest)

/-- An expression may start after the tokens: some number may stand there. -/
def ExprMayStart (tokens : List Token) : Prop :=
  ∃ number value, number.kind = .number ∧ Number.read? number.text = some value ∧
    Viable (tokens ++ [number])

/-- So many of the tokens can be the beginning of a program, and no more. -/
structure LongestViable (tokens : List Token) (length : Nat) : Prop where
  le : length ≤ tokens.length
  viable : Viable (tokens.take length)
  longest : ∀ longer, longer ≤ tokens.length → Viable (tokens.take longer) → longer ≤ length

end Grammar

namespace Parser

open Grammar

/-! ## Every state can be completed -/

/-- Further tokens lead to a state in which a program may end. -/
def State.Completable (state : State Expr) : Prop :=
  ∃ rest last, state.run rest = .ok last ∧ last.missing? = none

theorem State.Completable.of_step {state next : State Expr} (token : Token)
    (stepped : state.step token = .ok next) (completable : next.Completable) :
    state.Completable := by
  obtain ⟨rest, last, ran, complete⟩ := completable
  exact ⟨token :: rest, last, (State.run_cons rest stepped).trans ran, complete⟩

theorem completable_statement (block : List (Stmt Expr)) (enclosing : List (OpenFn Expr)) :
    State.Completable ⟨.statement, block, enclosing⟩ := by
  induction enclosing generalizing block with
  | nil => exact ⟨[], _, rfl, rfl⟩
  | cons fn enclosing inductionHypothesis =>
      exact .of_step ⟨.rightBrace, ""⟩ (State.stepStatement_close _ rfl rfl)
        (inductionHypothesis _)

/-- After an operand the brackets are closed from the inside out, then the statement. -/
theorem completable_of_operand {state : State Expr} {context : Context Expr} {value : Expr}
    (here : state.phase.operand? = some (context, value)) : state.Completable := by
  obtain ⟨goal, brackets, pending⟩ := context
  induction brackets generalizing state pending value with
  | nil =>
      have noCall : TokenKind.semicolon ≠ .leftParen := by decide
      exact .of_step ⟨.semicolon, ""⟩ (State.step_operand_end here rfl noCall)
        (completable_statement _ _)
  | cons entry rest inductionHypothesis =>
      have noCall : TokenKind.rightParen ≠ .leftParen := by decide
      obtain ⟨bracket, outer⟩ := entry
      cases bracket with
      | paren =>
          exact .of_step ⟨.rightParen, ""⟩ (State.step_operand_end here rfl noCall)
            (inductionHypothesis outer rfl)
      | call callee args =>
          exact .of_step ⟨.rightParen, ""⟩ (State.step_operand_end here rfl noCall)
            (inductionHypothesis outer rfl)

theorem State.completable (state : State Expr) : state.Completable := by
  obtain ⟨phase, block, enclosing⟩ := state
  -- Each phase is completed by one token that leads to a phase completed before it.
  have operand (context : Context Expr) : State.Completable ⟨.operand context, block, enclosing⟩ :=
    .of_step ⟨.text, ""⟩ rfl (completable_of_operand rfl)
  have letEqual (name : String) : State.Completable ⟨.letEqual name, block, enclosing⟩ :=
    .of_step ⟨.equal, ""⟩ rfl (operand _)
  have bodyOpen (name : String) (params : List String) :
      State.Completable ⟨.bodyOpen name params, block, enclosing⟩ :=
    .of_step ⟨.leftBrace, ""⟩ rfl (completable_statement _ _)
  have afterParam (name : String) (params : List String) :
      State.Completable ⟨.afterParam name params, block, enclosing⟩ :=
    .of_step ⟨.rightParen, ""⟩ rfl (bodyOpen _ _)
  have firstParam (name : String) : State.Completable ⟨.firstParam name, block, enclosing⟩ :=
    .of_step ⟨.rightParen, ""⟩ rfl (bodyOpen _ _)
  have fnOpen (name : String) : State.Completable ⟨.fnOpen name, block, enclosing⟩ :=
    .of_step ⟨.leftParen, ""⟩ rfl (firstParam _)
  cases phase with
  | statement => exact completable_statement block enclosing
  | letName => exact .of_step ⟨.ident, ""⟩ rfl (letEqual _)
  | letEqual name => exact letEqual name
  | fnName => exact .of_step ⟨.ident, ""⟩ rfl (fnOpen _)
  | fnOpen name => exact fnOpen name
  | firstParam name => exact firstParam name
  | nextParam name params => exact .of_step ⟨.ident, ""⟩ rfl (afterParam _ _)
  | afterParam name params => exact afterParam name params
  | bodyOpen name params => exact bodyOpen name params
  | operand context => exact operand context
  | firstArg context callee =>
      exact .of_step ⟨.rightParen, ""⟩ rfl (completable_of_operand rfl)
  | afterIdent context name => exact completable_of_operand rfl
  | operator context value => exact completable_of_operand rfl

/-- The tokens that the parser reads without an error are the beginnings of programs. -/
theorem viable_iff_run {tokens : List Token} :
    Viable tokens ↔ ∃ state, (State.start : State Expr).run tokens = .ok state := by
  constructor
  · rintro ⟨rest, stmts, derives⟩
    have ran := run_statements derives State.start
    cases before : (State.start : State Expr).run tokens with
    | ok state => exact ⟨state, rfl⟩
    | error error =>
        have failed : (State.start : State Expr).run (tokens ++ rest) = .error error := by
          rw [State.run_append, before]
          rfl
        cases failed.symm.trans ran
  · rintro ⟨state, ran⟩
    obtain ⟨rest, last, completes, complete⟩ := state.completable
    refine ⟨rest, last.block.reverse, statements_of_trees ?_⟩
    rw [trees_of_run ((State.run_append_of_ok rest ran).trans completes), State.finish_eq, complete]

/-! ## The errors of one step -/

/-- The context in which an operand may be read next, if one may. -/
def Phase.operandContext? : Phase Expr → Option (Context Expr)
  | .statement => some ⟨.statement, [], []⟩
  | .operand context => some context
  | .firstArg context callee => some (context.inside (.call callee []))
  | .letName | .letEqual _ | .fnName | .fnOpen _ | .firstParam _ | .nextParam .. | .afterParam ..
  | .bodyOpen .. | .afterIdent .. | .operator .. => none

/-- If the result is an error, then the token is not what was wanted. -/
def Refuses (token : Token) (result : Except ParseError (State Expr)) : Prop :=
  ∀ error, result = .error error → ∃ expected, error = .unexpectedToken expected token

section Refusals

variable (state : State Expr) {token : Token}

theorem refuses_ok (next : State Expr) : Refuses token (.ok next) := by
  intro error failed
  cases failed

theorem refuses_refuse (expected : Expectation) : Refuses token (refuse expected token) := by
  intro error failed
  cases failed
  exact ⟨expected, rfl⟩

theorem Refuses.ite {condition : Prop} [Decidable condition]
    {first second : Except ParseError (State Expr)} (firstRefuses : Refuses token first)
    (secondRefuses : Refuses token second) :
    Refuses token (if condition then first else second) := by
  split
  · exact firstRefuses
  · exact secondRefuses

theorem refuses_expect (kind : TokenKind) (phase : Phase Expr) :
    Refuses token (state.expect token kind phase) :=
  .ite (refuses_ok _) (refuses_refuse _)

theorem refuses_stepOperand (context : Context Expr) (other : token.kind ≠ .number) :
    Refuses token (state.stepOperand context token) := by
  unfold State.stepOperand
  split
  case h_1 isNumber => exact absurd isNumber other
  case h_5 => exact refuses_refuse _
  all_goals exact refuses_ok _

theorem refuses_stepStatement (other : token.kind ≠ .number) :
    Refuses token (state.stepStatement token) := by
  refine .ite (refuses_ok _) (.ite (refuses_ok _) (.ite (refuses_ok _) ?_))
  split
  · exact refuses_ok _
  · exact refuses_stepOperand state _ other

theorem refuses_stepEnd (context : Context Expr) (value : Expr) :
    Refuses token (state.stepEnd context value token) := by
  unfold State.stepEnd
  split
  · exact .ite (refuses_ok _) (refuses_refuse _)
  · exact refuses_expect state _ _
  · exact .ite (refuses_ok _) (refuses_expect state _ _)

theorem refuses_stepOperator (context : Context Expr) (value : Expr) :
    Refuses token (state.stepOperator context value token) := by
  rw [State.stepOperator_eq]
  split
  · exact refuses_ok _
  · exact refuses_stepEnd state context _

/-- Only a number that stands where an operand may be read can be wrong in another way. -/
theorem State.refuses_step
    (elsewhere : token.kind = .number → state.phase.operandContext? = none) :
    Refuses token (state.step token) := by
  have other {context : Context Expr} (here : state.phase.operandContext? = some context) :
      token.kind ≠ .number := by
    intro isNumber
    rw [elsewhere isNumber] at here
    cases here
  unfold State.step
  cases phase : state.phase with
  | statement => exact refuses_stepStatement state (other (congrArg _ phase))
  | letName => exact refuses_expect state _ _
  | letEqual name => exact refuses_expect state _ _
  | fnName => exact refuses_expect state _ _
  | fnOpen name => exact refuses_expect state _ _
  | firstParam name => exact .ite (refuses_ok _) (refuses_expect state _ _)
  | nextParam name params => exact refuses_expect state _ _
  | afterParam name params => exact .ite (refuses_ok _) (refuses_expect state _ _)
  | bodyOpen name params => exact .ite (refuses_ok _) (refuses_refuse _)
  | operand context => exact refuses_stepOperand state context (other (congrArg _ phase))
  | firstArg context callee =>
      exact .ite (refuses_ok _) (refuses_stepOperand state _ (other (congrArg _ phase)))
  | afterIdent context name => exact .ite (refuses_ok _) (refuses_stepOperator state context _)
  | operator context value => exact refuses_stepOperator state context value

theorem State.step_number {context : Context Expr} (isNumber : token.kind = .number)
    (here : state.phase.operandContext? = some context) :
    state.step token = state.stepOperand context token := by
  unfold State.step
  cases phase : state.phase with
  | statement =>
      rw [phase] at here
      cases here
      have plain : token.isKeyword = false := by
        simp [Token.isKeyword, Token.isWord, isNumber]
      exact State.stepStatement_plain state plain (by simp [isNumber])
  | operand inner =>
      rw [phase] at here
      cases here
      rfl
  | firstArg inner callee =>
      rw [phase] at here
      cases here
      exact if_neg (by simp [isNumber])
  | _ =>
      rw [phase] at here
      cases here

/-- Where no operand may be read, no number is. -/
theorem State.step_number_ne_ok (isNumber : token.kind = .number)
    (elsewhere : state.phase.operandContext? = none) (next : State Expr) :
    state.step token ≠ .ok next := by
  have ended (context : Context Expr) (value : Expr) :
      state.stepOperator context value token ≠ .ok next := by
    have noOperator : BinaryOp.ofKind? token.kind = none := by
      rw [isNumber]
      rfl
    simp only [State.stepOperator, noOperator, State.stepEnd]
    split <;> simp [isNumber, State.expect, refuse]
  unfold State.step
  cases phase : state.phase with
  | statement | operand context | firstArg context callee =>
      rw [phase] at elsewhere
      cases elsewhere
  | operator context value => exact ended context value
  | afterIdent context name =>
      simp only [State.stepAfterIdent, isNumber]
      exact ended context _
  | _ =>
      simp [State.stepFirstParam, State.stepAfterParam, State.stepBodyOpen, State.expect, refuse,
        isNumber]

end Refusals

theorem exprMayStart_iff {tokens : List Token} {state : State Expr}
    (ran : (State.start : State Expr).run tokens = .ok state) :
    ExprMayStart tokens ↔ state.phase.operandContext?.isSome = true := by
  have runOne (token : Token) :
      (State.start : State Expr).run (tokens ++ [token]) = state.run [token] :=
    State.run_append_of_ok [token] ran
  constructor
  · rintro ⟨number, value, isNumber, _, viable⟩
    obtain ⟨last, ranOne⟩ := viable_iff_run.mp viable
    rw [runOne] at ranOne
    cases here : state.phase.operandContext? with
    | some context => rfl
    | none =>
        cases stepped : state.step number with
        | ok next => exact absurd stepped (state.step_number_ne_ok isNumber here next)
        | error error =>
            rw [State.run, stepped] at ranOne
            cases ranOne
  · intro isSome
    obtain ⟨context, here⟩ := Option.isSome_iff_exists.mp isSome
    obtain ⟨value, read⟩ := Option.isSome_iff_exists.mp
      (show (Number.read? "0").isSome = true by decide)
    refine ⟨⟨.number, "0"⟩, value, rfl, read, viable_iff_run.mpr ?_⟩
    rw [runOne, State.run, State.step_number state rfl here]
    simp [State.stepOperand, read, State.run]

/-! ## The error of a list of tokens -/

/-- Reading fails at one token, and all tokens before it are read. -/
theorem State.run_error {state : State Expr} {tokens : List Token} {error : ParseError}
    (failed : state.run tokens = .error error) :
    ∃ before token after next, tokens = before ++ token :: after ∧
      state.run before = .ok next ∧ next.step token = .error error := by
  induction tokens generalizing state with
  | nil => cases failed
  | cons token rest inductionHypothesis =>
      cases stepped : state.step token with
      | error other =>
          rw [State.run, stepped] at failed
          cases failed
          exact ⟨[], token, rest, state, rfl, rfl, stepped⟩
      | ok next =>
          rw [State.run_cons rest stepped] at failed
          obtain ⟨before, found, after, last, rfl, ran, wrong⟩ := inductionHypothesis failed
          exact ⟨token :: before, found, after, last, rfl,
            (State.run_cons before stepped).trans ran, wrong⟩

theorem longestViable_of_viable {tokens : List Token} (viable : Viable tokens) :
    LongestViable tokens tokens.length where
  le := Nat.le_refl _
  viable := by rwa [List.take_length]
  longest longer le _ := le

/-- The token at which reading fails ends the longest beginning of a program. -/
theorem longestViable_of_step_error {before : List Token} {token : Token} {next : State Expr}
    {error : ParseError} (after : List Token)
    (ran : (State.start : State Expr).run before = .ok next)
    (wrong : next.step token = .error error) :
    LongestViable (before ++ token :: after) before.length where
  le := by simp
  viable := by
    rw [List.take_left]
    exact viable_iff_run.mpr ⟨next, ran⟩
  longest longer _ viable := by
    apply Nat.le_of_not_lt
    intro above
    have covers : (before ++ token :: after).take longer =
        before ++ token :: after.take (longer - before.length - 1) := by
      have positive : longer - before.length = (longer - before.length - 1) + 1 := by omega
      rw [List.take_append, List.take_of_length_le (by omega), positive, List.take_succ_cons]
      rfl
    rw [covers] at viable
    obtain ⟨last, ranAll⟩ := viable_iff_run.mp viable
    rw [State.run_append_of_ok _ ran, State.run, wrong] at ranAll
    cases ranAll

/-- A number with a wrong text is reported where an expression may start.  Everywhere else
the token itself is reported. -/
theorem step_error_cases {tokens : List Token} {token : Token} {state : State Expr}
    {error : ParseError} (ran : (State.start : State Expr).run tokens = .ok state)
    (wrong : state.step token = .error error) :
    (error = .invalidNumber token.text ∧ token.kind = .number ∧
      Number.read? token.text = none ∧ ExprMayStart tokens) ∨
    ((∃ expected, error = .unexpectedToken expected token) ∧
      ¬ (token.kind = .number ∧ ExprMayStart tokens)) := by
  by_cases operand : token.kind = .number ∧ ExprMayStart tokens
  · obtain ⟨isNumber, mayStart⟩ := operand
    obtain ⟨context, here⟩ := Option.isSome_iff_exists.mp ((exprMayStart_iff ran).mp mayStart)
    rw [state.step_number isNumber here] at wrong
    simp only [State.stepOperand, isNumber] at wrong
    split at wrong
    · cases wrong
    · rename_i bad
      cases wrong
      exact .inl ⟨rfl, isNumber, bad, mayStart⟩
  · have elsewhere : token.kind = .number → state.phase.operandContext? = none := by
      intro isNumber
      cases here : state.phase.operandContext? with
      | none => rfl
      | some context =>
          have mayStart : ExprMayStart tokens := (exprMayStart_iff ran).mpr (by rw [here]; rfl)
          exact absurd ⟨isNumber, mayStart⟩ operand
    exact .inr ⟨state.refuses_step elsewhere error wrong, operand⟩

end Parser

open Grammar ScopeScript.Parser

/-- Tokens that are read but are no program lack something at their end. -/
theorem parse_of_run_ok {tokens : List Token} {state : State Expr}
    (noSentence : ¬ Sentence tokens) (ran : (State.start : State Expr).run tokens = .ok state) :
    ∃ expected, parse tokens = .error (.unexpectedEnd expected) := by
  have read := trees_of_run ran
  rw [State.finish_eq] at read
  cases missing : state.missing? with
  | none =>
      rw [missing] at read
      exact absurd ⟨_, trees_eq_ok.mp read⟩ noSentence
  | some expected =>
      rw [missing] at read
      exact ⟨expected, parse_eq_error.mpr read⟩

/-- Syntax errors are reported at the first token that cannot be right.  Of tokens that are
no program, the longest beginning that is the beginning of a program is either all of them,
and more tokens are asked for, or the token after it is reported: as a number with a wrong
text if it is one and an expression may start there, and as unexpected in all other cases.
More tokens are asked for exactly if some make the list a program, and no further tokens
change any other error. -/
theorem first_wrong_token_is_reported (tokens : List Token) (noSentence : ¬ Sentence tokens) :
    (∃ length, LongestViable tokens length ∧
      (length = tokens.length → ∃ expected, parse tokens = .error (.unexpectedEnd expected)) ∧
      ∀ token, tokens[length]? = some token →
        ((∃ expected, parse tokens = .error (.unexpectedToken expected token)) ∨
          parse tokens = .error (.invalidNumber token.text)) ∧
        (parse tokens = .error (.invalidNumber token.text) ↔
          token.kind = .number ∧ Number.read? token.text = none ∧
            ExprMayStart (tokens.take length))) ∧
    ((∃ expected, parse tokens = .error (.unexpectedEnd expected)) ↔ Viable tokens) ∧
    ∀ error, parse tokens = .error error → (∀ expected, error ≠ .unexpectedEnd expected) →
      ∀ more, parse (tokens ++ more) = .error error := by
  cases ran : (State.start : State Expr).run tokens with
  | ok state =>
      have viable : Viable tokens := viable_iff_run.mpr ⟨state, ran⟩
      obtain ⟨expected, ended⟩ := parse_of_run_ok noSentence ran
      refine ⟨⟨tokens.length, longestViable_of_viable viable, fun _ => ⟨expected, ended⟩, ?_⟩,
        ⟨fun _ => viable, fun _ => ⟨expected, ended⟩⟩, ?_⟩
      · intro token beyond
        simp at beyond
      · intro error failed other
        rw [ended] at failed
        cases failed
        exact absurd rfl (other expected)
  | error error =>
      have failed : parse tokens = .error error := parse_eq_error.mpr (trees_of_run_error ran)
      obtain ⟨before, token, after, next, rfl, ranBefore, wrong⟩ := State.run_error ran
      have reported := step_error_cases ranBefore wrong
      refine ⟨⟨before.length, longestViable_of_step_error after ranBefore wrong, ?_, ?_⟩, ?_, ?_⟩
      · intro whole
        simp at whole
      · intro found here
        rw [List.getElem?_append_right (Nat.le_refl _), Nat.sub_self] at here
        cases here
        rw [failed, List.take_left]
        rcases reported with ⟨rfl, isNumber, bad, mayStart⟩ | ⟨⟨expected, rfl⟩, elsewhere⟩
        · exact ⟨.inr rfl, fun _ => ⟨isNumber, bad, mayStart⟩, fun _ => rfl⟩
        · refine ⟨.inl ⟨expected, rfl⟩, fun same => ?_, fun ⟨isNumber, _, mayStart⟩ => ?_⟩
          · cases same
          · exact absurd ⟨isNumber, mayStart⟩ elsewhere
      · rw [failed, viable_iff_run, ran]
        constructor
        · rintro ⟨expected, same⟩
          rcases reported with ⟨rfl, _⟩ | ⟨⟨_, rfl⟩, _⟩ <;> cases same
        · rintro ⟨state, same⟩
          cases same
      · intro other same _ more
        rw [failed] at same
        cases same
        exact parse_eq_error.mpr (trees_of_run_error (State.run_append_of_error more ran))

/-- Where an expression may start, a number with a wrong text is reported, whatever
follows it. -/
theorem wrong_number_is_reported :
    let tokens : List Token := [⟨.ident, "let"⟩, ⟨.ident, "x"⟩, ⟨.equal, "="⟩, ⟨.number, "1e"⟩]
    ¬ Sentence tokens ∧ ¬ Viable tokens ∧
      ∀ more, parse (tokens ++ more) = .error (.invalidNumber "1e") := by
  intro tokens
  have failed : parse tokens = .error (.invalidNumber "1e") := rfl
  have noSentence : ¬ Sentence tokens := by
    rintro ⟨stmts, derives⟩
    cases (parse_eq_error.mp failed).symm.trans (trees_eq_ok.mpr derives)
  obtain ⟨_, needsMore, unchanged⟩ := first_wrong_token_is_reported tokens noSentence
  refine ⟨noSentence, fun viable => ?_, unchanged _ failed fun _ same => by cases same⟩
  obtain ⟨expected, ended⟩ := needsMore.mpr viable
  cases failed.symm.trans ended

end ScopeScript
