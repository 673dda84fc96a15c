import ScopeScript.Proofs.Exhaustion
import ScopeScript.Proofs.Moments
import ScopeScript.Proofs.PrintLog

/-!
Contract: the print calls of a run and the entries of its log.

Owns: the part of the log that belongs to the code of each moment, what a print call does
when its arguments have their values or fail, and the two directions between print calls and
entries: every print call that the run completes has its entry, and every entry has its print
call.

An entry and its print call are matched by the output.  When the call is about to write its
line, the output is the text of the entries before its own.
-/

set_option autoImplicit false

namespace ScopeScript

/-! ## Part of the log for each moment -/

namespace Eval

variable {α β : Type} {machine between : Machine}

theorem IsExhausted.bind {first : Eval α} (next : α → Eval β)
    (exhausted : IsExhausted (first machine)) : IsExhausted ((first >>= next) machine) := by
  obtain ⟨after, halted⟩ := exhausted
  exact ⟨after, bind_of_error next halted⟩

theorem IsExhausted.bind_right {first : Eval α} {next : α → Eval β} {value : α}
    (ran : first machine = .ok value between) (exhausted : IsExhausted (next value between)) :
    IsExhausted ((first >>= next) machine) := by
  rwa [bind_of_ok next ran]

theorem IsExhausted.inCall {body : Eval α} (frame : FrameId)
    (exhausted : IsExhausted (body machine)) : IsExhausted (Eval.inCall frame body machine) := by
  obtain ⟨after, halted⟩ := exhausted
  exact ⟨after.leave frame, inCall_of_error frame halted⟩

theorem IsExhausted.execStmt {eval : Evaluator} {frame : FrameId} {stmt : Stmt ExprId}
    {id : ExprId} (value : stmt.value? = some id)
    (exhausted : IsExhausted (eval id frame machine)) :
    IsExhausted (Eval.execStmt eval frame stmt machine) := by
  cases stmt with
  | letBind name own =>
      cases value
      exact exhausted.bind _
  | fnDef name params body => cases value
  | ret own =>
      cases value
      exact exhausted.bind _
  | expr own =>
      cases value
      exact exhausted.bind _

theorem Approximates.eq_of_not_exhausted {bounded action : Eval α}
    (approximates : Approximates bounded action) (lasts : ¬ IsExhausted (bounded machine)) :
    bounded machine = action machine :=
  ((approximates machine).resolve_left lasts).symm

theorem evalExpr_succ_apply {nodes : Array Node} {settings : Settings} {bound : Nat}
    {id : ExprId} {node : Node} (here : nodes[id]? = some node) (frame : FrameId)
    (machine : Machine) :
    evalExpr nodes settings (bound + 1) id frame machine =
      (evalAll (evalExpr nodes settings bound) frame (node.operands machine.environment frame) >>=
        node.complete settings (evalExpr nodes settings bound) machine.environment frame)
        machine := by
  rw [evalExpr, here]
  exact evalNode_apply settings _ frame node machine

/-- A call that is entered is exhausted with its body. -/
theorem IsExhausted.callWith {eval : Evaluator} {definition : FnDef ExprId} {parent : FrameId}
    {values : List Value} (admitted : machine.calls.refusal? = none)
    (framed : (machine.environment.isLive parent && machine.environment.hasRoom) = true)
    (exhausted : IsExhausted (execBlock eval machine.environment.next definition.body
      (machine.enter definition.name parent (definition.params.zip values)))) :
    IsExhausted (Eval.callWith eval definition parent values machine) := by
  rw [callWith_of_entered eval definition values admitted framed]
  exact IsExhausted.inCall _ (exhausted.bind _)

end Eval

namespace Moment

variable (program : Program) (settings : Settings) (bound : Nat) (moment : Moment)

/-- The prints that are completed while the code of the moment is evaluated, with expressions
nested as deep as the bound says. -/
def prints : List (List Value) :=
  let host := Eval.Logged.host settings
  let logged := host.evalExpr program.nodes bound
  match moment.code with
  | .block stmts => (host.execBlock logged moment.frame stmts).log moment.machine
  | .stmt stmt => (host.execStmt logged moment.frame stmt).log moment.machine
  | .exprs ids => (Host.evalAll logged moment.frame ids).log moment.machine
  | .expr id => (logged id moment.frame).log moment.machine

/-- The bound is too small for the code of the moment. -/
def Exhausted : Prop :=
  let eval := Eval.evalExpr program.nodes settings bound
  match moment.code with
  | .block stmts => Eval.IsExhausted (Eval.execBlock eval moment.frame stmts moment.machine)
  | .stmt stmt => Eval.IsExhausted (Eval.execStmt eval moment.frame stmt moment.machine)
  | .exprs ids => Eval.IsExhausted (Eval.evalAll eval moment.frame ids moment.machine)
  | .expr id => Eval.IsExhausted (eval id moment.frame moment.machine)

end Moment

namespace Moment

variable {program : Program} {settings : Settings} {output : String}

/-- A bound that lasts for an expression leaves one that lasts for its operands. -/
theorem exists_bound {id : ExprId} {node : Node} {frame : FrameId} {machine : Machine}
    {active : List (FnDef ExprId)} {bound : Nat} (here : program.nodes[id]? = some node)
    (enough : bound ≤ program.nesting)
    (lasts : ¬ Exhausted program settings bound ⟨.expr id, frame, machine, active⟩) :
    let operands := node.operands machine.environment frame
    ∃ smaller, bound = smaller + 1 ∧
      ¬ Exhausted program settings smaller ⟨.exprs operands, frame, machine, active⟩ ∧
      Eval.evalAll (Eval.evalExpr program.nodes settings smaller) frame operands machine =
        Eval.evalAll (program.evalExpr settings) frame operands machine := by
  intro operands
  cases bound with
  | zero => exact absurd ⟨machine, rfl⟩ lasts
  | succ smaller =>
      have operandsLast :
          ¬ Exhausted program settings smaller ⟨.exprs operands, frame, machine, active⟩ := by
        refine fun exhausted => lasts ?_
        change Eval.IsExhausted
          (Eval.evalExpr program.nodes settings (smaller + 1) id frame machine)
        rw [Eval.evalExpr_succ_apply here]
        exact Eval.IsExhausted.bind _ exhausted
      have less : smaller ≤ program.nesting := Nat.le_of_succ_le enough
      refine ⟨smaller, rfl, operandsLast, ?_⟩
      exact (Eval.approximates_evalAll (approximates less) frame operands).eq_of_not_exhausted
        operandsLast

section Equations

variable {bound : Nat} (frame : FrameId) (machine : Machine) (active : List (FnDef ExprId))

theorem prints_block (stmt : Stmt ExprId) (rest : List (Stmt ExprId)) :
    prints program settings bound ⟨.block (stmt :: rest), frame, machine, active⟩ =
      Eval.logThen (Eval.execStmt (Eval.evalExpr program.nodes settings bound) frame stmt)
        (fun machine => prints program settings bound ⟨.stmt stmt, frame, machine, active⟩)
        (fun
          | .normal => fun between =>
              prints program settings bound ⟨.block rest, frame, between, active⟩
          | .returned _ => fun _ => []) machine :=
  congrFun (Eval.Logged.log_execBlock_cons settings
    (Eval.records_evalExpr program.nodes settings bound) frame stmt rest) machine

theorem prints_stmt (stmt : Stmt ExprId) :
    prints program settings bound ⟨.stmt stmt, frame, machine, active⟩ =
      match stmt.value? with
      | some id => prints program settings bound ⟨.expr id, frame, machine, active⟩
      | none => [] := by
  refine (congrFun (Eval.Logged.log_execStmt settings frame stmt) machine).trans ?_
  cases stmt.value? <;> rfl

theorem prints_exprs (id : ExprId) (rest : List ExprId) :
    prints program settings bound ⟨.exprs (id :: rest), frame, machine, active⟩ =
      Eval.logThen (Eval.evalExpr program.nodes settings bound id frame)
        (fun machine => prints program settings bound ⟨.expr id, frame, machine, active⟩)
        (fun _ between => prints program settings bound ⟨.exprs rest, frame, between, active⟩)
        machine :=
  congrFun (Eval.Logged.log_evalAll_cons
    (Eval.records_evalExpr program.nodes settings bound) frame id rest) machine

/-- The prints of the operands come first. -/
theorem prints_expr {id : ExprId} {node : Node} (here : program.nodes[id]? = some node) :
    let operands := node.operands machine.environment frame
    prints program settings (bound + 1) ⟨.expr id, frame, machine, active⟩ =
      Eval.logThen (Eval.evalAll (Eval.evalExpr program.nodes settings bound) frame operands)
        (fun machine => prints program settings bound ⟨.exprs operands, frame, machine, active⟩)
        (Eval.Logged.logComplete settings
          ((Eval.Logged.host settings).evalExpr program.nodes bound)
          machine.environment frame node) machine := by
  have split := Eval.Logged.log_evalNode settings
    (Eval.records_evalExpr program.nodes settings bound) frame node machine
  rwa [← Eval.Logged.evalExpr_succ settings here] at split

end Equations

/-- An evaluation hands a part of its log down to each evaluation that it is made of, and has
printed what comes before this part. -/
theorem Step.prints {before after : Moment} (step : Step program settings before after)
    {bound : Nat} (enough : bound ≤ program.nesting)
    (lasts : ¬ before.Exhausted program settings bound) :
    ∃ smaller ≤ bound, ¬ after.Exhausted program settings smaller ∧
      ∃ early late,
        before.prints program settings bound =
          early ++ after.prints program settings smaller ++ late ∧
        after.machine.output = before.machine.output ++ outputText early := by
  have records := Eval.records_evalExpr program.nodes settings bound
  cases step with
  | @firstStmt stmt rest frame machine active =>
      refine ⟨bound, Nat.le_refl _, fun exhausted => lasts ?_, [], _,
        prints_block frame machine active stmt rest, by simp⟩
      exact Eval.IsExhausted.bind _ exhausted
  | @nextStmts stmt rest frame machine after active completed =>
      have stmtLasts : ¬ Eval.IsExhausted
          (Eval.execStmt (Eval.evalExpr program.nodes settings bound) frame stmt machine) :=
        fun exhausted => lasts (Eval.IsExhausted.bind _ exhausted)
      have ran := ((Eval.approximates_execStmt (approximates enough) frame stmt).eq_of_not_exhausted
        stmtLasts).trans completed
      have printed := (Eval.records_execStmt records settings frame stmt).output machine
      rw [ran] at printed
      refine ⟨bound, Nat.le_refl _, fun exhausted => lasts ?_, _, [], ?_, printed⟩
      · exact Eval.IsExhausted.bind_right ran exhausted
      · rw [List.append_nil, prints_block]
        exact Eval.logThen_of_ok _ _ ran
  | @value stmt id frame machine active value =>
      refine ⟨bound, Nat.le_refl _, fun exhausted => lasts ?_, [], [], ?_, by simp⟩
      · exact Eval.IsExhausted.execStmt value exhausted
      · simp [prints_stmt, value]
  | @firstExpr id rest frame machine active =>
      refine ⟨bound, Nat.le_refl _, fun exhausted => lasts ?_, [], _,
        prints_exprs frame machine active id rest, by simp⟩
      exact Eval.IsExhausted.bind _ exhausted
  | @nextExprs id rest frame machine after active value evaluated =>
      have exprLasts : ¬ Eval.IsExhausted
          (Eval.evalExpr program.nodes settings bound id frame machine) :=
        fun exhausted => lasts (Eval.IsExhausted.bind _ exhausted)
      have ran := ((approximates enough id frame).eq_of_not_exhausted exprLasts).trans evaluated
      have printed := (records id frame).output machine
      rw [ran] at printed
      refine ⟨bound, Nat.le_refl _, fun exhausted => lasts ?_, _, [], ?_, printed⟩
      · exact Eval.IsExhausted.bind_right ran (exhausted.bind _)
      · rw [List.append_nil, prints_exprs]
        exact Eval.logThen_of_ok _ _ ran
  | @operands id node frame machine active here =>
      obtain ⟨smaller, rfl, operandsLast, _⟩ := exists_bound here enough lasts
      exact ⟨smaller, Nat.le_succ _, operandsLast, [], _, prints_expr frame machine active here,
        by simp⟩
  | @body id callee args definition frame owner machine between active values here user found
      evaluated admitted framed =>
      obtain ⟨smaller, rfl, _, ran⟩ := exists_bound here enough lasts
      rw [Node.operands_of_found args user found, evaluated] at ran
      have printed := (Eval.records_evalAll (Eval.records_evalExpr program.nodes settings smaller)
        frame (args.take definition.params.length)).output machine
      rw [ran] at printed
      refine ⟨smaller, Nat.le_succ _, fun exhausted => lasts ?_, _, [], ?_, printed⟩
      · change Eval.IsExhausted
          (Eval.evalExpr program.nodes settings (smaller + 1) id frame machine)
        rw [Eval.evalExpr_succ_apply here, Node.operands_of_found args user found,
          Node.complete_of_found settings _ args user found]
        exact Eval.IsExhausted.bind_right ran (.callWith admitted framed exhausted)
      · rw [prints_expr _ _ _ here, Node.operands_of_found args user found,
          Eval.logThen_of_ok _ _ ran, Eval.Logged.logComplete_of_found _ args user found,
          Eval.Logged.log_call_of_entered _ _ _ _ admitted framed, Eval.Logged.log_runBody,
          List.append_nil]
        rfl

end Moment

variable {program : Program} {settings : Settings}

/-- At every moment of a run the prints that were completed before it are on the output, and
those of its code come next in the log. -/
theorem Program.Reaches.prints {moment : Moment} (wellFormed : program.WellFormed)
    (reached : program.Reaches settings "" moment) :
    ∃ bound ≤ program.nesting, ¬ moment.Exhausted program settings bound ∧
      ∃ early late,
        program.completedPrints settings = early ++ moment.prints program settings bound ++ late ∧
        moment.machine.output = outputText early := by
  apply reached.induction
  · refine ⟨program.nesting, Nat.le_refl _, fun exhausted => ?_, [], [], ?_, rfl⟩
    · exact wellFormed.not_exhausted settings "" (Eval.IsExhausted.bind _ exhausted)
    · rw [List.append_nil, Program.completedPrints, Eval.Logged.log_exec]
      rfl
  · rintro before after _ step ⟨bound, enough, lasts, early, late, split, printed⟩
    obtain ⟨smaller, le, afterLasts, between, rest, inner, more⟩ := step.prints enough lasts
    refine ⟨smaller, Nat.le_trans le enough, afterLasts, early ++ between, rest ++ late, ?_, ?_⟩
    · rw [split, inner]
      simp only [List.append_assoc]
    · rw [more, printed, outputText_append]

/-! ## Print calls -/

/-- A print call is evaluated at the moment, and its arguments get these values.  The machine
is the one that they leave. -/
inductive Moment.CompletesPrint (program : Program) (settings : Settings) (values : List Value)
    (between : Machine) : Moment → Prop where
  | call {id : ExprId} {args : List ExprId} {frame : FrameId} {machine : Machine}
      {active : List (FnDef ExprId)}
      (here : program.nodes[id]? = some (.call printName args))
      (evaluated : Eval.evalAll (program.evalExpr settings) frame args machine =
        .ok values between) :
      Moment.CompletesPrint program settings values between ⟨.expr id, frame, machine, active⟩

/-- A print call writes its line when its arguments have their values, and nothing if one of
them fails. -/
theorem Program.Reaches.evalExpr_print {id : ExprId} {args : List ExprId} {frame : FrameId}
    {machine : Machine} {active : List (FnDef ExprId)} (wellFormed : program.WellFormed)
    (reached : program.Reaches settings "" ⟨.expr id, frame, machine, active⟩)
    (here : program.nodes[id]? = some (.call printName args)) :
    program.evalExpr settings id frame machine =
      match Eval.evalAll (program.evalExpr settings) frame args machine with
      | .ok values between =>
          .ok .void { between with output := appendLine between.output (printedLine values) }
      | .error halt between => .error halt between := by
  obtain ⟨bound, enough, lasts, _⟩ := reached.prints wellFormed
  have call := (Moment.approximates enough id frame).eq_of_not_exhausted lasts
  obtain ⟨smaller, rfl, _, arguments⟩ := Moment.exists_bound here enough lasts
  rw [Node.operands_print] at arguments
  rw [← call, Eval.evalExpr_succ_apply here, Node.operands_print, Eval.bind_apply, arguments]
  cases Eval.evalAll (program.evalExpr settings) frame args machine with
  | ok values between =>
      simp only [Node.complete, if_true]
      rfl
  | error halt between => rfl

/-- Every print call that is completed stands in the log, after the prints that are on the
output by then. -/
theorem Moment.CompletesPrint.listed {moment : Moment} {values : List Value} {between : Machine}
    (wellFormed : program.WellFormed) (reached : program.Reaches settings "" moment)
    (completes : moment.CompletesPrint program settings values between) :
    ∃ early late, program.completedPrints settings = early ++ values :: late ∧
      between.output = outputText early := by
  obtain ⟨bound, enough, lasts, early, late, split, printed⟩ := reached.prints wellFormed
  cases completes with
  | @call id args frame machine active here evaluated =>
      obtain ⟨smaller, rfl, _, ran⟩ := Moment.exists_bound here enough lasts
      rw [Node.operands_print, evaluated] at ran
      let nested := Moment.prints program settings smaller ⟨.exprs args, frame, machine, active⟩
      have unfolded : Moment.prints program settings (smaller + 1)
          ⟨.expr id, frame, machine, active⟩ = nested ++ [values] := by
        rw [Moment.prints_expr _ _ _ here, Node.operands_print, Eval.logThen_of_ok _ _ ran]
        simp only [Eval.Logged.logComplete, if_true, nested]
      have before : between.output = machine.output ++ outputText nested := by
        have records := Eval.records_evalAll
          (Eval.records_evalExpr program.nodes settings smaller) frame args
        have printed := records.output machine
        rwa [ran] at printed
      refine ⟨early ++ nested, late, ?_, ?_⟩
      · rw [split, unfolded]
        simp only [List.append_assoc, List.singleton_append]
      · rw [before, outputText_append, ← printed]

/-- Every entry of the log is a print that the run completes, and `start` with the entries
before it is then on the output. -/
def Program.Accounts (program : Program) (settings : Settings) (start : String)
    (prints : List (List Value)) : Prop :=
  ∀ (place : Nat) (values : List Value), prints[place]? = some values →
    ∃ moment between, program.Reaches settings "" moment ∧
      moment.CompletesPrint program settings values between ∧
      between.output = start ++ outputText (prints.take place)

theorem Program.accounts_nil (start : String) : program.Accounts settings start [] :=
  fun _ _ listed => nomatch listed

theorem Program.accounts_singleton {moment : Moment} {values : List Value} {between : Machine}
    (reached : program.Reaches settings "" moment)
    (completes : moment.CompletesPrint program settings values between) :
    program.Accounts settings between.output [values] := by
  intro place other listed
  obtain ⟨rfl, rfl⟩ : place = 0 ∧ values = other := by
    simpa [List.getElem?_singleton] using listed
  exact ⟨moment, between, reached, completes, by simp⟩

theorem Program.accounts_logThen {α : Type} {first : Eval α} {early : Eval.PrintLog}
    {late : α → Eval.PrintLog} {machine : Machine}
    (printed : (Eval.lastMachine (first machine)).output =
      machine.output ++ outputText (early machine))
    (earlyAccounts : program.Accounts settings machine.output (early machine))
    (lateAccounts : ∀ value between, first machine = .ok value between →
      program.Accounts settings between.output (late value between)) :
    program.Accounts settings machine.output (Eval.logThen first early late machine) := by
  intro place values listed
  cases ran : first machine with
  | error halt between =>
      rw [Eval.logThen_of_error _ _ ran] at listed ⊢
      exact earlyAccounts place values listed
  | ok value between =>
      rw [ran] at printed
      rw [Eval.logThen_of_ok _ _ ran] at listed ⊢
      rw [List.getElem?_append] at listed
      split at listed
      · rename_i inside
        rw [List.take_append_of_le_length (Nat.le_of_lt inside)]
        exact earlyAccounts place values listed
      · rename_i beyond
        obtain ⟨moment, after, reached, completes, output⟩ :=
          lateAccounts value between ran _ values listed
        refine ⟨moment, after, reached, completes, ?_⟩
        rw [output, List.take_append, List.take_of_length_le (Nat.le_of_not_lt beyond),
          outputText_append, ← String.append_assoc, ← printed]
        rfl

namespace Moment

section Layer

variable {bound : Nat} (enough : bound ≤ program.nesting)
  (operands : ∀ id frame machine active,
    program.Reaches settings "" ⟨.expr id, frame, machine, active⟩ →
      program.Accounts settings machine.output
        (prints program settings bound ⟨.expr id, frame, machine, active⟩))
  {frame : FrameId} {machine : Machine} {active : List (FnDef ExprId)}

include operands

theorem accounts_stmt {stmt : Stmt ExprId}
    (reached : program.Reaches settings "" ⟨.stmt stmt, frame, machine, active⟩) :
    program.Accounts settings machine.output
      (prints program settings bound ⟨.stmt stmt, frame, machine, active⟩) := by
  rw [prints_stmt]
  cases value : stmt.value? with
  | none => exact Program.accounts_nil _
  | some id => exact operands id frame machine active (reached.step (.value value))

include enough

theorem accounts_exprs {ids : List ExprId}
    (reached : program.Reaches settings "" ⟨.exprs ids, frame, machine, active⟩) :
    program.Accounts settings machine.output
      (prints program settings bound ⟨.exprs ids, frame, machine, active⟩) := by
  induction ids generalizing machine with
  | nil => exact Program.accounts_nil _
  | cons id rest inductionHypothesis =>
      have records := Eval.records_evalExpr program.nodes settings bound id frame
      rw [prints_exprs]
      refine Program.accounts_logThen (records.output machine)
        (operands id frame machine active (reached.step .firstExpr)) fun value between ran => ?_
      have evaluated := (approximates enough id frame).ok ran
      exact inductionHypothesis (reached.step (.nextExprs evaluated))

theorem accounts_block {body : List (Stmt ExprId)}
    (reached : program.Reaches settings "" ⟨.block body, frame, machine, active⟩) :
    program.Accounts settings machine.output
      (prints program settings bound ⟨.block body, frame, machine, active⟩) := by
  induction body generalizing machine with
  | nil => exact Program.accounts_nil _
  | cons stmt rest inductionHypothesis =>
      have records := Eval.records_execStmt
        (Eval.records_evalExpr program.nodes settings bound) settings frame stmt
      rw [prints_block]
      refine Program.accounts_logThen (records.output machine)
        (accounts_stmt operands (reached.step .firstStmt)) fun flow between ran => ?_
      cases flow with
      | returned value => exact Program.accounts_nil _
      | normal =>
          have completed := (Eval.approximates_execStmt (approximates enough) frame stmt).ok ran
          exact inductionHypothesis (reached.step (.nextStmts completed))

theorem accounts_call {definition : FnDef ExprId} {parent : FrameId} {values : List Value}
    (reached : machine.calls.refusal? = none →
      (machine.environment.isLive parent && machine.environment.hasRoom) = true →
        ∃ active, program.Reaches settings "" ⟨.block definition.body, machine.environment.next,
          machine.enter definition.name parent (definition.params.zip values), active⟩) :
    let host := Eval.Logged.host settings
    program.Accounts settings machine.output
      ((host.call definition parent values fun callFrame =>
        host.runBody (host.evalExpr program.nodes bound) callFrame definition.body).log
          machine) := by
  intro host
  rw [Eval.Logged.log_call]
  cases admitted : machine.calls.refusal? with
  | some cause => exact Program.accounts_nil _
  | none =>
      cases framed : machine.environment.isLive parent && machine.environment.hasRoom with
      | false => exact Program.accounts_nil _
      | true =>
          obtain ⟨active, entered⟩ := reached admitted framed
          have accounts := accounts_block enough operands entered
          simp only [if_true, host, Eval.Logged.log_runBody]
          exact accounts

/-- One more level of nesting: a print call accounts for its own entry. -/
theorem accounts_node {id : ExprId} {node : Node} (here : program.nodes[id]? = some node)
    (reached : program.Reaches settings "" ⟨.expr id, frame, machine, active⟩) :
    program.Accounts settings machine.output
      (prints program settings (bound + 1) ⟨.expr id, frame, machine, active⟩) := by
  have records := Eval.records_evalAll (Eval.records_evalExpr program.nodes settings bound)
    frame (node.operands machine.environment frame)
  rw [prints_expr _ _ _ here]
  refine Program.accounts_logThen (records.output machine)
    (accounts_exprs enough operands (reached.step (.operands here))) fun values between ran => ?_
  have evaluated := (Eval.approximates_evalAll (approximates enough) frame _).ok ran
  cases node with
  | number value => exact Program.accounts_nil _
  | text value => exact Program.accounts_nil _
  | ident name => exact Program.accounts_nil _
  | binary op left right => exact Program.accounts_nil _
  | call callee args =>
      by_cases builtin : callee = printName
      · subst builtin
        rw [Node.operands_print] at evaluated
        simp only [Eval.Logged.logComplete, if_true]
        exact Program.accounts_singleton reached (.call here evaluated)
      · cases found : machine.environment.getFn frame callee with
        | found definition owner =>
            rw [Node.operands_of_found args builtin found] at evaluated
            rw [Eval.Logged.logComplete_of_found _ args builtin found]
            exact accounts_call enough operands fun admitted framed =>
              ⟨_, reached.step (.body here builtin found evaluated admitted framed)⟩
        | unbound | gone =>
            simp only [Eval.Logged.logComplete, builtin, if_false, found]
            exact Program.accounts_nil _

end Layer

theorem accounts_expr {bound : Nat} (enough : bound ≤ program.nesting) (id : ExprId)
    (frame : FrameId) (machine : Machine) (active : List (FnDef ExprId))
    (reached : program.Reaches settings "" ⟨.expr id, frame, machine, active⟩) :
    program.Accounts settings machine.output
      (prints program settings bound ⟨.expr id, frame, machine, active⟩) := by
  induction bound generalizing id frame machine active with
  | zero => exact Program.accounts_nil _
  | succ bound inductionHypothesis =>
      have less : bound ≤ program.nesting := Nat.le_of_succ_le enough
      cases here : program.nodes[id]? with
      | none =>
          simp only [prints, Host.evalExpr, here]
          exact Program.accounts_nil _
      | some node => exact accounts_node less (inductionHypothesis less) here reached

end Moment

theorem Program.accounts_completedPrints (program : Program) (settings : Settings) :
    program.Accounts settings "" (program.completedPrints settings) := by
  have enough := Nat.le_refl program.nesting
  rw [Program.completedPrints, Eval.Logged.log_exec]
  exact Moment.accounts_block enough (Moment.accounts_expr enough) Relation.ReflTransGen.refl

end ScopeScript
