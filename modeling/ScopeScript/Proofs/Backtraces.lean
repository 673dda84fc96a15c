import ScopeScript.Proofs.FrameDiscipline
import ScopeScript.Proofs.Lockstep
import ScopeScript.Proofs.Nesting

/-!
Contract: a backtrace names the calls that were active when the error was raised.

Owns: an evaluator that takes the backtrace at the point where it raises an error, actions
that put this off until an error leaves a call, the length of the backtrace of an error of
the limit, and the theorem that both evaluators fail alike.

An error that leaves no call yet has no backtrace, and the calls active at its raise point
are those active where the action began.  So the action that puts the backtrace off
differs from the other one by the backtrace of these calls, if it is not there already.
Nothing is left of the difference when the action begins with no active call.
-/

set_option autoImplicit false

namespace ScopeScript

/-- The names of the active calls, the innermost first, or none if no call is active. -/
def CallStack.capture? (calls : CallStack) : Option Backtrace :=
  if calls.names.isEmpty then none else some ⟨calls.names.toList.reverse⟩

/-! ## Backtraces taken where errors are raised -/

namespace Prompt

section Primitive

variable {α : Type}

/-- Raises an error together with the calls that are active at this point. -/
def raise (cause : Cause) : Eval α := fun machine =>
  .error (.error ⟨cause, machine.calls.capture?⟩) machine

def ofExcept : Except Cause α → Eval α
  | .ok value => pure value
  | .error cause => raise cause

def ofLookup (missing : Cause) : Lookup α → Eval (α × FrameId)
  | .found entry owner => pure (entry, owner)
  | .unbound => raise missing
  | .gone => throw .fault

def readVar (frame : FrameId) (name : String) : Eval Value := do
  let machine ← get
  let (value, _) ← ofLookup (.undefinedVariable name) (machine.environment.getVar frame name)
  pure value

def readFn (frame : FrameId) (name : String) : Eval (FnDef ExprId × FrameId) := do
  let machine ← get
  ofLookup (.undefinedFunction name) (machine.environment.getFn frame name)

/-- Enters a call, up to the limit.  The call that is refused is not active. -/
def enterCall (name : String) : Eval Unit := fun machine =>
  match machine.calls.refusal? with
  | some cause => raise cause machine
  | none => .ok () { machine with calls := machine.calls.push name }

/-- Runs the body of the innermost call and leaves the call.  An error passes as it is. -/
def inCall (frame : FrameId) (body : Eval α) : Eval α := fun machine =>
  match body machine with
  | .ok value after => .ok value (after.leave frame)
  | .error halt after => .error halt (after.leave frame)

end Primitive

section Layer

variable (settings : Settings) (eval : Eval.Evaluator)

def callWith (definition : FnDef ExprId) (parent : FrameId) (values : List Value) :
    Eval Value := do
  enterCall definition.name
  let callFrame ← Eval.enterFrame parent
  Eval.bindVars callFrame (definition.params.zip values)
  inCall callFrame (Eval.runBody eval callFrame definition.body)

def evalCall (callee : String) (args : List ExprId) (frame : FrameId) : Eval Value := do
  let (definition, owner) ← readFn frame callee
  let values ← Eval.evalAll eval frame (args.take definition.params.length)
  callWith eval definition (Eval.callParent settings frame owner) values

/-- Evaluates one node with `eval` for its operands. -/
def evalNode (frame : FrameId) : Node → Eval Value
  | .number value => pure (.number value)
  | .text value => pure (.text value)
  | .ident name => readVar frame name
  | .binary op left right => do
      let left ← eval left frame
      let right ← eval right frame
      ofExcept (op.apply left right)
  | .call callee args =>
      if callee = printName then Eval.evalPrint eval args frame
      else evalCall settings eval callee args frame

end Layer

/-- Evaluates the expression at a position, nested no deeper than the first argument
says. -/
def evalExpr (nodes : Array Node) (settings : Settings) : Nat → Eval.Evaluator
  | 0, _, _ => throw .exhausted
  | depth + 1, id, frame =>
      match nodes[id]? with
      | none => throw .fault
      | some node => evalNode settings (evalExpr nodes settings depth) frame node

end Prompt

namespace Program

variable (program : Program) (settings : Settings)

/-- Evaluates an expression, with backtraces taken where errors are raised. -/
def promptExpr : Eval.Evaluator :=
  Prompt.evalExpr program.nodes settings program.nesting

def promptStmt (frame : FrameId) (stmt : Stmt ExprId) : Eval Flow :=
  Eval.execStmt (program.promptExpr settings) frame stmt

def promptExec : Eval Unit := do
  match ← Eval.execBlock (program.promptExpr settings) Environment.root program.body with
  | .normal => pure ()
  | .returned _ => Prompt.raise .returnOutsideFunction

end Program

namespace Prompt

/-- The machine as a host that takes backtraces where errors are raised. -/
def host (settings : Settings) : Host Eval where
  halt := throw
  raise := raise
  readVar := readVar
  readFn frame name := do
    let (definition, owner) ← readFn frame name
    pure (definition, Eval.callParent settings frame owner)
  bindVar := Eval.bindVar
  bindFn := Eval.bindFn
  print values := Eval.printLine (printedLine values)
  call definition parent values body := do
    enterCall definition.name
    let callFrame ← Eval.enterFrame parent
    Eval.bindVars callFrame (definition.params.zip values)
    inCall callFrame (body callFrame)

variable (settings : Settings)

theorem host_evalNode (eval : Eval.Evaluator) :
    (host settings).evalNode eval = evalNode settings eval := by
  funext frame node
  cases node with
  | number _ | text _ | ident _ => rfl
  | binary op left right =>
      refine bind_congr fun leftValue => bind_congr fun rightValue => ?_
      cases op.apply leftValue rightValue <;> rfl
  | call callee args =>
      rw [Host.evalNode, evalNode, Eval.host_evalAll]
      split
      · rfl
      · refine (bind_assoc _ _ _).trans (bind_congr ?_)
        rintro ⟨definition, owner⟩
        rw [pure_bind, Host.applyFn, Eval.host_evalAll, Eval.host_runBody rfl rfl]
        rfl

theorem host_evalExpr (nodes : Array Node) (bound : Nat) :
    (host settings).evalExpr nodes bound = evalExpr nodes settings bound := by
  induction bound with
  | zero => rfl
  | succ bound inductionHypothesis =>
      funext id frame
      rw [Host.evalExpr, evalExpr, inductionHypothesis, host_evalNode]
      rfl

end Prompt

/-! ## Backtraces that are put off -/

theorem CallStack.capture?_push (calls : CallStack) (name : String) :
    (calls.push name).capture? = some (calls.push name).backtrace := by
  simp [capture?, push, backtrace]

theorem CallStack.length_capture? (calls : CallStack) :
    calls.capture?.map (·.calls.length) =
      if calls.depth = 0 then none else some calls.depth := by
  unfold capture? depth
  by_cases idle : calls.names = #[] <;> simp [idle]

theorem Halt.traced_ofCause (cause : Cause) (calls : CallStack) :
    (Halt.error (.ofCause cause)).traced calls = .error ⟨cause, calls.capture?⟩ := by
  obtain ⟨names, limit⟩ := calls
  rw [Halt.traced_error]
  by_cases idle : names = #[]
  · subst idle
    rfl
  · simp [RuntimeError.ofCause, RuntimeError.withBacktrace, CallStack.capture?,
      CallStack.backtrace, Backtrace.isEmpty, idle]

/-- Inside a call the backtrace is never empty, so no later one replaces it. -/
theorem Halt.traced_traced_push (halt : Halt) (calls outer : CallStack) (name : String) :
    (halt.traced (calls.push name)).traced outer = halt.traced (calls.push name) := by
  cases halt with
  | fault => rfl
  | exhausted => rfl
  | error reason =>
      obtain ⟨cause, backtrace⟩ := reason
      cases backtrace with
      | some backtrace => rfl
      | none =>
          change ((Halt.error (.ofCause cause)).traced _).traced outer =
            (Halt.error (.ofCause cause)).traced _
          rw [Halt.traced_ofCause, CallStack.capture?_push]
          rfl

theorem Halt.traced_empty (halt : Halt) (limit : CallLimit) :
    halt.traced (.empty limit) = halt := by
  cases halt with
  | error reason =>
      obtain ⟨cause, backtrace⟩ := reason
      cases backtrace <;> rfl
  | fault => rfl
  | exhausted => rfl

/-- No more calls are active than the limit admits. -/
def CallStack.Within (calls : CallStack) : Prop :=
  ∀ limit, calls.limit = some limit → calls.depth ≤ limit

theorem CallStack.Within.push {calls : CallStack} (admitted : calls.refusal? = none)
    (name : String) : (calls.push name).Within := by
  intro limit isLimit
  have limited : calls.limit = some limit := isLimit
  have below : calls.depth < limit := by
    simpa [CallStack.refusal?, limited] using admitted
  rw [CallStack.depth_push]
  exact below

/-- A call is refused when exactly as many calls are active as the limit admits. -/
theorem CallStack.Within.refused {calls : CallStack} (within : calls.Within) {cause : Cause}
    (refusal : calls.refusal? = some cause) :
    calls.limit = some calls.depth ∧ cause = .recursionLimit calls.depth := by
  unfold CallStack.refusal? at refusal
  cases limited : calls.limit with
  | none => simp [limited] at refusal
  | some limit =>
      have most := within limit limited
      simp only [limited] at refusal
      split at refusal
      · cases refusal
      · have reached : limit = calls.depth := by omega
        cases refusal
        rw [reached]
        exact ⟨rfl, rfl⟩

namespace Eval

variable {α β : Type} {settings : Settings}

/-- The result with the backtrace of the calls attached to an error that has none. -/
def tracedBy (calls : CallStack) :
    EStateM.Result Halt Machine α → EStateM.Result Halt Machine α
  | .ok value after => .ok value after
  | .error halt after => .error (halt.traced calls) after

theorem tracedBy_empty (limit : CallLimit) (result : EStateM.Result Halt Machine α) :
    tracedBy (.empty limit) result = result := by
  cases result with
  | ok value after => rfl
  | error halt after => exact congrArg (EStateM.Result.error · after) (halt.traced_empty limit)

/-- The error of the limit reports the limit and was raised when as many calls were
active. -/
def ReportsLimit (limit : CallLimit) (reason : RuntimeError) : Prop :=
  ∀ reported, reason.cause = .recursionLimit reported →
    limit = some reported ∧
      ∃ calls : CallStack, calls.depth = reported ∧ reason.backtrace = calls.capture?

theorem Keeps.calls {action : Eval α} (keeps : Keeps none action) (before after : Machine)
    (ended : EndsIn action before after) : after.calls = before.calls :=
  (keeps before after ended).calls

/-- The first action puts off the backtraces that the second one takes at once.  It keeps
the active calls, so these are known when it ends. -/
structure PutsOff (lazy prompt : Eval α) : Prop where
  calls : ∀ before after, EndsIn lazy before after → after.calls = before.calls
  result : ∀ machine, prompt machine = tracedBy machine.calls (lazy machine)
  limit : ∀ machine reason after, machine.calls.Within →
    prompt machine = .error (.error reason) after → ReportsLimit machine.calls.limit reason

/-- Without an active call nothing is put off. -/
theorem PutsOff.result_idle {lazy prompt : Eval α} (putsOff : PutsOff lazy prompt)
    (environment : Environment) {limit : CallLimit} (output : String) :
    lazy ⟨environment, .empty limit, output⟩ = prompt ⟨environment, .empty limit, output⟩ := by
  rw [putsOff.result]
  exact (tracedBy_empty limit _).symm

theorem PutsOff.limit_idle {lazy prompt : Eval α} (putsOff : PutsOff lazy prompt)
    {environment : Environment} {limit : CallLimit} {output : String} {reason : RuntimeError}
    {after : Machine}
    (failed : lazy ⟨environment, .empty limit, output⟩ = .error (.error reason) after) :
    ReportsLimit limit reason := by
  rw [putsOff.result_idle environment output] at failed
  have within : (CallStack.empty limit).Within := fun most _ => Nat.zero_le most
  exact putsOff.limit ⟨environment, .empty limit, output⟩ reason after within failed

/-- An action that raises no error and keeps the calls puts nothing off. -/
theorem PutsOff.of_silent {action : Eval α}
    (calls : ∀ before after, EndsIn action before after → after.calls = before.calls)
    (silent : ∀ machine halt after, action machine = .error halt after → ¬ halt.IsError) :
    PutsOff action action where
  calls := calls
  result machine := by
    cases ended : action machine with
    | ok value after => rfl
    | error halt after =>
        cases halt with
        | error reason => exact absurd ⟨reason, rfl⟩ (silent machine _ after ended)
        | fault => rfl
        | exhausted => rfl
  limit machine reason after _ failed := absurd ⟨reason, rfl⟩ (silent machine _ after failed)

/-- An error of another kind than the limit's, raised at once. -/
theorem putsOff_raise {cause : Cause} (other : cause.isLimit = false) :
    PutsOff (raise cause : Eval α) (Prompt.raise cause) where
  calls := Keeps.calls (keeps_of_unchanged fun _ => .inr ⟨_, rfl⟩)
  result machine := congrArg (EStateM.Result.error · machine)
    (Halt.traced_ofCause cause machine.calls).symm
  limit machine reason after _ failed reported isLimit := by
    cases failed
    have limited : cause = .recursionLimit reported := isLimit
    rw [limited] at other
    cases other

/-- The action that takes backtraces at once keeps the active calls where it returns. -/
theorem PutsOff.calls_of_prompt {lazy prompt : Eval α} (putsOff : PutsOff lazy prompt)
    {before after : Machine} {value : α} (returned : prompt before = .ok value after) :
    after.calls = before.calls := by
  rw [putsOff.result before] at returned
  cases ended : lazy before with
  | error halt last =>
      rw [ended] at returned
      cases returned
  | ok other last =>
      rw [ended] at returned
      cases returned
      exact putsOff.calls before after (.inl ⟨value, ended⟩)

theorem PutsOff.bind {lazy prompt : Eval α} {lazyNext promptNext : α → Eval β}
    (first : PutsOff lazy prompt) (next : ∀ value, PutsOff (lazyNext value) (promptNext value)) :
    PutsOff (lazy >>= lazyNext) (prompt >>= promptNext) where
  calls before after ended := by
    rcases endsIn_bind.mp ended with ⟨reason, failed⟩ | ⟨value, between, returned, ended⟩
    · exact first.calls before after (.inr ⟨reason, failed⟩)
    · exact ((next value).calls between after ended).trans
        (first.calls before between (.inl ⟨value, returned⟩))
  result machine := by
    rw [bind_apply, bind_apply, first.result machine]
    cases ended : lazy machine with
    | error halt between => rfl
    | ok value between =>
        have kept := first.calls machine between (.inl ⟨value, ended⟩)
        have later := (next value).result between
        rw [kept] at later
        exact later
  limit machine reason after within failed := by
    rcases bind_eq_error.mp failed with failed | ⟨value, between, returned, failed⟩
    · exact first.limit machine reason after within failed
    · have kept := first.calls_of_prompt returned
      have later := (next value).limit between reason after
      rw [kept] at later
      exact later within failed

/-- The machine that an action reads first is the one that it begins with. -/
theorem PutsOff.ofGet {lazy prompt : Machine → Eval α}
    (next : ∀ machine, PutsOff (lazy machine) (prompt machine)) :
    PutsOff (get >>= lazy) (get >>= prompt) where
  calls before := (next before).calls before
  result machine := (next machine).result machine
  limit machine := (next machine).limit machine

theorem putsOff_pure (value : α) : PutsOff (pure value : Eval α) (pure value) :=
  .of_silent (Keeps.calls (keeps_pure value)) fun _ _ _ failed => by cases failed

theorem putsOff_throw {halt : Halt} (silent : ¬ halt.IsError) :
    PutsOff (throw halt : Eval α) (throw halt) := by
  apply PutsOff.of_silent
  · exact Keeps.calls (keeps_of_unchanged fun _ => .inr ⟨halt, rfl⟩)
  · intro machine other after failed
    cases failed
    exact silent

theorem putsOff_writeAt (frame : FrameId) (change : Environment → Environment) :
    PutsOff (writeAt frame change) (writeAt frame change) := by
  apply PutsOff.of_silent
  · intro before after ended
    rcases ended with ⟨_, written⟩ | ⟨_, failed⟩
    · obtain ⟨_, rfl⟩ := live_of_writeAt written
      rfl
    · cases fault_of_writeAt failed
  · intro machine halt after failed
    rw [fault_of_writeAt failed]
    exact Halt.not_isError_fault

theorem putsOff_printLine (line : String) : PutsOff (printLine line) (printLine line) :=
  .of_silent (Keeps.calls (keeps_printLine line)) fun _ _ _ failed => by cases failed

theorem putsOff_ofLookup {missing : Cause} (other : missing.isLimit = false)
    (lookup : Lookup α) : PutsOff (ofLookup missing lookup) (Prompt.ofLookup missing lookup) := by
  cases lookup with
  | found entry owner => exact putsOff_pure (entry, owner)
  | unbound => exact putsOff_raise other
  | gone => exact putsOff_throw Halt.not_isError_fault

/-! ## Calls -/

/-- A call is refused, or it finds no frame, or its body is run. -/
theorem prompt_call_apply (definition : FnDef ExprId) (parent : FrameId) (values : List Value)
    (body : FrameId → Eval Value) (machine : Machine) :
    (Prompt.host settings).call definition parent values body machine =
      match machine.calls.refusal? with
      | some cause => .error (.error ⟨cause, machine.calls.capture?⟩) machine
      | none =>
          if machine.environment.isLive parent && machine.environment.hasRoom then
            Prompt.inCall machine.environment.next (body machine.environment.next)
              (machine.enter definition.name parent (definition.params.zip values))
          else .error .fault { machine with calls := machine.calls.push definition.name } := by
  cases refusal : machine.calls.refusal? with
  | some cause =>
      apply bind_of_error
      rw [Prompt.enterCall, refusal]
      rfl
  | none =>
      have entry : Prompt.enterCall definition.name machine =
          .ok () { machine with calls := machine.calls.push definition.name } := by
        rw [Prompt.enterCall, refusal]
      simp only [Prompt.host]
      rw [bind_of_ok _ entry, enterFrame_bindVars]
      rfl

/-- The calls active in the body are those of the caller and the call itself.  An error
of the body has its backtrace when it leaves the call, and the caller adds nothing. -/
theorem putsOff_call (definition : FnDef ExprId) (parent : FrameId) (values : List Value)
    {lazy prompt : FrameId → Eval Value}
    (kept : Keeps none (call definition parent values lazy))
    (bodies : ∀ frame, PutsOff (lazy frame) (prompt frame)) :
    PutsOff (call definition parent values lazy)
      ((Prompt.host settings).call definition parent values prompt) where
  calls := kept.calls
  result machine := by
    have body := bodies machine.environment.next
    rw [prompt_call_apply]
    cases refusal : machine.calls.refusal? with
    | some cause =>
        rw [call_of_refused definition values lazy parent refusal]
        exact congrArg (EStateM.Result.error · machine) (Halt.traced_ofCause _ _).symm
    | none =>
        by_cases framed : (machine.environment.isLive parent && machine.environment.hasRoom) = true
        · rw [call_of_entered definition values lazy refusal framed]
          generalize entered : machine.enter definition.name parent (definition.params.zip values) =
            inside
          have deeper : inside.calls = machine.calls.push definition.name := by
            rw [← entered]
            rfl
          simp only [if_pos framed, Prompt.inCall, body.result inside]
          cases run : lazy machine.environment.next inside with
          | ok value inner => rw [inCall_of_ok _ run]; rfl
          | error halt inner =>
              rw [inCall_of_error _ run]
              cases halt with
              | fault => rfl
              | exhausted => rfl
              | error reason =>
                  -- The body kept its calls, so the trace it gets on leaving is that of
                  -- `inside`, which is not empty.
                  have kept := body.calls inside inner (.inr ⟨reason, run⟩)
                  simp only [tracedBy]
                  rw [kept, deeper, Halt.traced_traced_push]
        · rw [call_of_no_frame definition values lazy refusal (by simpa using framed)]
          simp only [if_neg framed]
          rfl
  limit machine reason after within failed := by
    rw [prompt_call_apply] at failed
    cases refusal : machine.calls.refusal? with
    | some cause =>
        obtain ⟨limited, rfl⟩ := within.refused refusal
        rw [refusal] at failed
        cases failed
        intro reported isLimit
        cases isLimit
        exact ⟨limited, machine.calls, rfl, rfl⟩
    | none =>
        simp only [refusal] at failed
        split at failed
        · unfold Prompt.inCall at failed
          split at failed
          · cases failed
          · rename_i halt inner run
            obtain ⟨rfl, _⟩ := EStateM.Result.error.inj failed
            exact (bodies machine.environment.next).limit
              (machine.enter definition.name parent _) reason inner
              (.push refusal definition.name) run
        · cases failed

/-! ## Evaluation -/

/-- Evaluation keeps the calls of its machine and puts the backtraces off. -/
theorem lockstep_putsOff (settings : Settings) :
    Lockstep .same (host settings) (Prompt.host settings) fun _ _ site lazy prompt =>
      Keeps site.writable lazy ∧ PutsOff lazy prompt where
  lawful := Likeness.lawful_same _
  pure _ := ⟨keeps_pure _, putsOff_pure _⟩
  bind first next := ⟨first.1.bind fun value => (next value (Valued.all_true value)).1,
    first.2.bind fun value => (next value (Valued.all_true value)).2⟩
  inStmt related := ⟨related.1.weaken, related.2⟩
  bindVar := by
    rintro frame name _ value rfl _
    exact ⟨keeps_bindVar frame name value,
      putsOff_writeAt frame fun environment => environment.setVar frame name value⟩
  bindFn := by
    rintro frame definition _ rfl
    exact ⟨keeps_bindFn frame definition,
      putsOff_writeAt frame fun environment => environment.setFn frame definition⟩
  fault frame := ⟨(lockstep_keeps settings).fault frame, putsOff_throw Halt.not_isError_fault⟩
  exhausted frame :=
    ⟨(lockstep_keeps settings).exhausted frame, putsOff_throw Halt.not_isError_exhausted⟩
  raise _ _ plain := ⟨keeps_raise _, putsOff_raise (Cause.isLimit_of_isPlain plain)⟩
  readVar := by
    rintro frame name _ _ rfl
    exact ⟨keeps_readVar frame name,
      .ofGet fun _ => (putsOff_ofLookup rfl _).bind fun _ => putsOff_pure _⟩
  readFn := by
    rintro frame callee _ args next otherNext _ rfl related
    have kept : Keeps none ((host settings).readFn frame callee) :=
      (keeps_readFn frame callee).bind fun _ => keeps_pure _
    have putsOff : PutsOff ((host settings).readFn frame callee)
        ((Prompt.host settings).readFn frame callee) :=
      PutsOff.bind (.ofGet fun _ => putsOff_ofLookup rfl _) fun _ => putsOff_pure _
    exact ⟨kept.bind fun found => (related found.1 _ found.2 rfl trivial).1,
      putsOff.bind fun found => (related found.1 _ found.2 rfl trivial).2⟩
  print _ _ _ := ⟨keeps_printLine _, putsOff_printLine _⟩
  call := by
    rintro frame parent definition _ values lazy prompt rfl _ _ bodies
    have kept := keeps_call definition parent values fun frame => (bodies frame).1
    exact ⟨kept, putsOff_call definition parent values kept fun frame => (bodies frame).2⟩

/-! ## Expressions and programs -/

theorem putsOff_evalExpr (nodes : Array Node) (settings : Settings) (bound : Nat) (id : ExprId)
    (frame : FrameId) :
    PutsOff (evalExpr nodes settings bound id frame)
      (Prompt.evalExpr nodes settings bound id frame) := by
  have related := (lockstep_putsOff settings).evalExpr (Likeness.tables_same nodes) bound id id
    frame rfl
  rw [host_evalExpr, Prompt.host_evalExpr] at related
  exact related.2

end Eval

namespace Program

open Eval

variable (program : Program) (settings : Settings)

theorem putsOff_execStmt (frame : FrameId) (stmt : Stmt ExprId) :
    PutsOff (program.execStmt settings frame stmt) (program.promptStmt settings frame stmt) := by
  have lockstep := lockstep_putsOff settings
  have operands := lockstep.evalExpr (Likeness.tables_same program.nodes) program.nesting
  have related := lockstep.execStmt operands frame (Likeness.sameCode_same.stmts stmt)
  rw [host_execStmt rfl rfl, host_execStmt rfl rfl, host_evalExpr, Prompt.host_evalExpr] at related
  exact related.2

theorem putsOff_exec : PutsOff (program.exec settings) (program.promptExec settings) := by
  have related := (lockstep_putsOff settings).exec (Likeness.tables_same program.nodes)
    program.nesting (Likeness.sameCode_same.blocks _ program.body)
  rw [host_execUpTo, Host.exec, host_execBlock rfl rfl, Prompt.host_evalExpr] at related
  exact related.2

/-- A call whose arguments fail was not entered, so the error is theirs and nothing is
added to it. -/
theorem evalExpr_call_of_args {id : ExprId} {frame : FrameId} {machine after : Machine}
    {callee : String} {args : List ExprId} {definition : FnDef ExprId} {owner : FrameId}
    {reason : RuntimeError} (node : program.nodes[id]? = some (.call callee args))
    (user : callee ≠ printName)
    (found : machine.environment.getFn frame callee = .found definition owner)
    (failed : evalAll (program.evalExpr settings) frame
      (args.take definition.params.length) machine = .error (.error reason) after) :
    IsExhausted (program.evalExpr settings id frame machine) ∨
      program.evalExpr settings id frame machine = .error (.error reason) after := by
  obtain ⟨bound, isBound⟩ : ∃ bound, program.nesting = bound + 1 :=
    Nat.exists_eq_succ_of_ne_zero (Nat.mul_ne_zero (by decide) (Nat.succ_ne_zero _))
  unfold Program.evalExpr at failed ⊢
  rw [isBound] at failed ⊢
  have step : Eval.evalExpr program.nodes settings (bound + 1) id frame machine =
      (evalAll (Eval.evalExpr program.nodes settings bound) frame
        (args.take definition.params.length) >>=
          callWith (Eval.evalExpr program.nodes settings bound) definition
            (callParent settings frame owner)) machine := by
    simp only [Eval.evalExpr, node, evalNode, if_neg user, evalCall_apply, found]
  rw [step]
  -- The arguments of a call are evaluated with one level of nesting less than the call.
  rcases approximates_evalAll (approximates_evalExpr_succ program.nodes settings bound) frame
    (args.take definition.params.length) machine with ⟨last, exhausted⟩ | same
  · exact .inl ⟨last, bind_of_error _ exhausted⟩
  · exact .inr (bind_of_error _ (same.symm.trans failed))

/-- The program, a statement or an expression fails when it is run in the machine. -/
inductive FailsWith (machine : Machine) (reason : RuntimeError) : Prop where
  | program {after : Machine}
      (failed : program.exec settings machine = .error (.error reason) after)
  | stmt {frame : FrameId} {stmt : Stmt ExprId} {after : Machine}
      (failed : program.execStmt settings frame stmt machine = .error (.error reason) after)
  | expr {id : ExprId} {frame : FrameId} {after : Machine}
      (failed : program.evalExpr settings id frame machine = .error (.error reason) after)

theorem FailsWith.reportsLimit {environment : Environment} {limit : CallLimit} {output : String}
    {reason : RuntimeError}
    (fails : program.FailsWith settings ⟨environment, .empty limit, output⟩ reason) :
    ReportsLimit limit reason := by
  cases fails with
  | program failed => exact (program.putsOff_exec settings).limit_idle failed
  | stmt failed => exact (program.putsOff_execStmt settings _ _).limit_idle failed
  | expr failed => exact (putsOff_evalExpr program.nodes settings _ _ _).limit_idle failed

end Program

/-- Backtraces are exact.  From a machine without an active call, a program, a statement
and an expression end as they do when every error takes the names of the active calls at
the point where it is raised, the innermost first, or no backtrace if no call is active.
An error of the limit has as many names as the limit says.  An error of the arguments of
a call is the error of the call, which its backtrace does not list. -/
theorem backtraces_are_exact (program : Program) (settings : Settings)
    (environment : Environment) (output : String) :
    let machine : Machine := ⟨environment, .empty settings.callLimit, output⟩
    program.exec settings machine = program.promptExec settings machine ∧
    (∀ frame stmt, program.execStmt settings frame stmt machine =
      program.promptStmt settings frame stmt machine) ∧
    (∀ id frame, program.evalExpr settings id frame machine =
      program.promptExpr settings id frame machine) ∧
    (∀ reason reported, program.FailsWith settings machine reason →
      reason.cause = .recursionLimit reported →
      settings.callLimit = some reported ∧
        reason.backtrace.map (·.calls.length) = if reported = 0 then none else some reported) ∧
    ∀ (busy : Machine) id frame callee args definition owner reason after,
      program.nodes[id]? = some (.call callee args) → callee ≠ printName →
      busy.environment.getFn frame callee = .found definition owner →
      Eval.evalAll (program.evalExpr settings) frame (args.take definition.params.length)
        busy = .error (.error reason) after →
      Eval.IsExhausted (program.evalExpr settings id frame busy) ∨
        program.evalExpr settings id frame busy = .error (.error reason) after := by
  refine ⟨?_, fun frame stmt => ?_, fun id frame => ?_, fun reason reported fails isLimit => ?_, ?_⟩
  · exact (program.putsOff_exec settings).result_idle environment output
  · exact (program.putsOff_execStmt settings frame stmt).result_idle environment output
  · exact (Eval.putsOff_evalExpr program.nodes settings _ id frame).result_idle environment output
  · obtain ⟨limited, calls, depth, captured⟩ := fails.reportsLimit program settings reported isLimit
    rw [captured, CallStack.length_capture?, depth]
    exact ⟨limited, rfl⟩
  · intro busy id frame callee args definition owner reason after node user found failed
    exact program.evalExpr_call_of_args settings node user found failed

/-- A function that calls itself has two names in its backtrace under the limit two. -/
theorem endless_call_has_full_backtrace :
    let program : Program := ⟨#[.call "f" []], [.fnDef "f" [] [.expr 0], .expr 0]⟩
    let settings : Settings := ⟨.lexical, some 2⟩
    let machine : Machine := ⟨.empty, .empty (some 2), ""⟩
    let reason : RuntimeError := ⟨.recursionLimit 2, some ⟨["f", "f"]⟩⟩
    program.FailsWith settings machine reason ∧
      Eval.halt? (program.promptExec settings machine) = some (.error reason) ∧
      reason.backtrace.map (·.calls.length) = some 2 := by
  intro program settings machine reason
  have stopped : Eval.halt? (program.exec settings machine) = some (.error reason) := by
    decide +kernel
  have fails : program.FailsWith settings machine reason :=
    .program (Eval.eq_error_of_halt? stopped)
  have exact := backtraces_are_exact program settings .empty ""
  refine ⟨fails, ?_, (exact.2.2.2.1 reason 2 fails rfl).2⟩
  rw [← stopped]
  exact congrArg Eval.halt? exact.1.symm

end ScopeScript
