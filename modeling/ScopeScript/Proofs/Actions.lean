import ScopeScript.Eval.Evaluator

/-!
Contract: how the actions of the machine end, one equation for each of them.

Owns: the ends of an action, the equations of sequencing and of every
primitive action, the machine at the start of a function body, the call of a function
cut into the search for its definition, its arguments and its body, and every node cut
into its operands and what is left to do with their values.

Does not own: what a whole evaluation keeps or needs.  The modules that show this
cite the equations here and do not open the actions again.
-/

set_option autoImplicit false

namespace ScopeScript

namespace Halt

/-- A halt that the program can cause by itself: an error, not a fault and not
exhaustion. -/
def IsError (halt : Halt) : Prop :=
  ∃ reason, halt = .error reason

@[simp]
theorem isError_error (reason : RuntimeError) : (Halt.error reason).IsError :=
  ⟨reason, rfl⟩

theorem not_isError_fault : ¬ fault.IsError := by
  rintro ⟨_, isError⟩
  cases isError

theorem not_isError_exhausted : ¬ exhausted.IsError := by
  rintro ⟨_, isError⟩
  cases isError

/-- A backtrace makes no error of a fault. -/
@[simp]
theorem isError_traced (halt : Halt) (calls : CallStack) :
    (halt.traced calls).IsError ↔ halt.IsError := by
  cases halt with
  | error reason =>
      simp only [traced]
      split <;> simp
  | fault => simp [traced]
  | exhausted => simp [traced]

theorem traced_error (reason : RuntimeError) (calls : CallStack) :
    (Halt.error reason).traced calls = .error (reason.withBacktrace calls.backtrace) := by
  obtain ⟨cause, backtrace⟩ := reason
  cases backtrace <;> rfl

end Halt

/-- A backtrace does not change the cause. -/
@[simp]
theorem RuntimeError.cause_withBacktrace (reason : RuntimeError) (backtrace : Backtrace) :
    (reason.withBacktrace backtrace).cause = reason.cause := by
  unfold RuntimeError.withBacktrace
  split <;> rfl

namespace Environment

/-- Binds variables in a frame, one after the other. -/
def setVars (environment : Environment) (frame : FrameId) (bindings : List (String × Value)) :
    Environment :=
  bindings.foldl (fun current binding => current.setVar frame binding.1 binding.2) environment

@[simp]
theorem isLive_setVar (environment : Environment) (frame other : FrameId) (name : String)
    (value : Value) :
    (environment.setVar frame name value).isLive other = environment.isLive other := by
  simp [isLive, setVar]

@[simp]
theorem isLive_push_next (environment : Environment) (parent : FrameId) :
    (environment.push parent).isLive environment.next = true := by
  simp [isLive, push, next]

end Environment

/-- The machine at the start of the body of a call. -/
def Machine.enter (machine : Machine) (name : String) (parent : FrameId)
    (bindings : List (String × Value)) : Machine :=
  { machine with
    environment := (machine.environment.push parent).setVars machine.environment.next bindings
    calls := machine.calls.push name }

namespace Eval

variable {α β : Type}

/-- The action finishes in `after`, with a result or with an error of the
program. -/
def EndsIn (action : Eval α) (before after : Machine) : Prop :=
  (∃ value, action before = .ok value after) ∨
    ∃ reason, action before = .error (.error reason) after

/-- The action finishes. -/
def Ends (action : Eval α) (before : Machine) : Prop :=
  ∃ after, EndsIn action before after

/-- The machine in which an action ends. -/
def lastMachine : EStateM.Result Halt Machine α → Machine
  | .ok _ after => after
  | .error _ after => after

/-- Why an action stops early, if it does. -/
def halt? : EStateM.Result Halt Machine α → Option Halt
  | .ok _ _ => none
  | .error halt _ => some halt

theorem eq_error_of_halt? {result : EStateM.Result Halt Machine α} {halt : Halt}
    (stopped : halt? result = some halt) : result = .error halt (lastMachine result) := by
  cases result with
  | ok value after => cases stopped
  | error other after =>
      cases stopped
      rfl

/-! ## Sequencing -/

theorem bind_apply (first : Eval α) (next : α → Eval β) (machine : Machine) :
    (first >>= next) machine =
      match first machine with
      | .ok value between => next value between
      | .error halt between => .error halt between := by
  change EStateM.bind first next machine = _
  unfold EStateM.bind
  cases first machine <;> rfl

theorem bind_of_ok {first : Eval α} {machine between : Machine} {value : α}
    (next : α → Eval β) (result : first machine = .ok value between) :
    (first >>= next) machine = next value between := by
  rw [bind_apply, result]

theorem bind_of_error {first : Eval α} {machine between : Machine} {halt : Halt}
    (next : α → Eval β) (result : first machine = .error halt between) :
    (first >>= next) machine = .error halt between := by
  rw [bind_apply, result]

/-- A sequence that returns is two actions that return. -/
theorem bind_eq_ok {first : Eval α} {next : α → Eval β} {machine after : Machine} {value : β} :
    (first >>= next) machine = .ok value after ↔
      ∃ middle between, first machine = .ok middle between ∧
        next middle between = .ok value after := by
  rw [bind_apply]
  cases first machine with
  | ok middle between => simp [and_assoc]
  | error halt between => simp

/-- A sequence that halts does so in its first action or in its second. -/
theorem bind_eq_error {first : Eval α} {next : α → Eval β} {machine after : Machine}
    {halt : Halt} :
    (first >>= next) machine = .error halt after ↔
      first machine = .error halt after ∨
        ∃ middle between, first machine = .ok middle between ∧
          next middle between = .error halt after := by
  rw [bind_apply]
  cases first machine with
  | ok middle between => simp [and_assoc]
  | error halt between => simp

theorem endsIn_bind {first : Eval α} {next : α → Eval β} {before after : Machine} :
    EndsIn (first >>= next) before after ↔
      (∃ reason, first before = .error (.error reason) after) ∨
        ∃ value between, first before = .ok value between ∧ EndsIn (next value) between after := by
  unfold EndsIn
  rw [bind_apply]
  cases first before with
  | ok middle between => simp [and_assoc]
  | error halt between => simp

/-! ## Primitive actions -/

theorem ofExcept_apply (result : Except Cause α) (machine : Machine) :
    ofExcept result machine =
      match result with
      | .ok value => .ok value machine
      | .error cause => .error (.error (.ofCause cause)) machine := by
  cases result <;> rfl

theorem readVar_apply (frame : FrameId) (name : String) (machine : Machine) :
    readVar frame name machine =
      match machine.environment.getVar frame name with
      | .found value _ => .ok value machine
      | .unbound => .error (.error (.ofCause (.undefinedVariable name))) machine
      | .gone => .error .fault machine := by
  change (ofLookup _ (machine.environment.getVar frame name) >>= fun entry =>
    (pure entry.1 : Eval Value)) machine = _
  cases machine.environment.getVar frame name <;> rfl

theorem readFn_apply (frame : FrameId) (name : String) (machine : Machine) :
    readFn frame name machine =
      match machine.environment.getFn frame name with
      | .found definition owner => .ok (definition, owner) machine
      | .unbound => .error (.error (.ofCause (.undefinedFunction name))) machine
      | .gone => .error .fault machine := by
  change ofLookup _ (machine.environment.getFn frame name) machine = _
  cases machine.environment.getFn frame name <;> rfl

theorem printLine_apply (line : String) (machine : Machine) :
    printLine line machine =
      .ok () { machine with output := appendLine machine.output line } := rfl

/-- Writing halts only where the frame is not live. -/
theorem writeAt_of_live {frame : FrameId} {machine : Machine}
    (change : Environment → Environment) (live : machine.environment.isLive frame = true) :
    writeAt frame change machine =
      .ok () { machine with environment := change machine.environment } := by
  rw [writeAt, if_pos live]

theorem writeAt_of_not_live {frame : FrameId} {machine : Machine}
    (change : Environment → Environment) (gone : machine.environment.isLive frame = false) :
    writeAt frame change machine = .error .fault machine := by
  rw [writeAt, if_neg (by simp [gone])]

theorem live_of_writeAt {frame : FrameId} {machine after : Machine}
    {change : Environment → Environment} (written : writeAt frame change machine = .ok () after) :
    machine.environment.isLive frame = true ∧
      after = { machine with environment := change machine.environment } := by
  cases live : machine.environment.isLive frame with
  | false =>
      rw [writeAt_of_not_live _ live] at written
      cases written
  | true =>
      rw [writeAt_of_live _ live] at written
      cases written
      exact ⟨rfl, rfl⟩

theorem fault_of_writeAt {frame : FrameId} {machine after : Machine}
    {change : Environment → Environment} {halt : Halt}
    (failed : writeAt frame change machine = .error halt after) : halt = .fault := by
  cases live : machine.environment.isLive frame with
  | false =>
      rw [writeAt_of_not_live _ live] at failed
      cases failed
      rfl
  | true =>
      rw [writeAt_of_live _ live] at failed
      cases failed

theorem bindVars_of_live {frame : FrameId} {machine : Machine}
    (bindings : List (String × Value)) (live : machine.environment.isLive frame = true) :
    bindVars frame bindings machine =
      .ok () { machine with environment := machine.environment.setVars frame bindings } := by
  induction bindings generalizing machine with
  | nil => rfl
  | cons binding rest inductionHypothesis =>
      obtain ⟨name, value⟩ := binding
      have written := writeAt_of_live
        (fun environment => environment.setVar frame name value) live
      have stillLive : (machine.environment.setVar frame name value).isLive frame = true := by
        simpa using live
      rw [bindVars, bindVar, bind_of_ok _ written]
      exact inductionHypothesis stillLive

theorem inCall_of_ok {body : Eval α} {machine after : Machine} {value : α} (frame : FrameId)
    (result : body machine = .ok value after) :
    inCall frame body machine = .ok value (after.leave frame) := by
  rw [inCall, result]

theorem inCall_of_error {body : Eval α} {machine after : Machine} {halt : Halt}
    (frame : FrameId) (result : body machine = .error halt after) :
    inCall frame body machine = .error (halt.traced after.calls) (after.leave frame) := by
  rw [inCall, result]

/-! ## Statements -/

section Statements

variable {eval : Evaluator} {frame : FrameId} {before after : Machine}

/-- What a statement that completes has done. -/
theorem execStmt_ok {stmt : Stmt ExprId} {flow : Flow}
    (result : execStmt eval frame stmt before = .ok flow after) :
    match stmt with
    | .letBind name value =>
        flow = .normal ∧ ∃ bound between, eval value frame before = .ok bound between ∧
          between.environment.isLive frame = true ∧
          after = { between with
            environment := between.environment.setVar frame name bound }
    | .fnDef name params body =>
        flow = .normal ∧ before.environment.isLive frame = true ∧
          after = { before with
            environment := before.environment.setFn frame { name, params, body } }
    | .ret value => ∃ bound, flow = .returned bound ∧ eval value frame before = .ok bound after
    | .expr value => flow = .normal ∧ ∃ bound, eval value frame before = .ok bound after := by
  cases stmt with
  | letBind name value =>
      obtain ⟨bound, between, evaluated, result⟩ := bind_eq_ok.mp result
      obtain ⟨_, written, write, result⟩ := bind_eq_ok.mp result
      obtain ⟨live, rfl⟩ := live_of_writeAt write
      cases result
      exact ⟨rfl, bound, between, evaluated, live, rfl⟩
  | fnDef name params body =>
      obtain ⟨_, written, write, result⟩ := bind_eq_ok.mp result
      obtain ⟨live, rfl⟩ := live_of_writeAt write
      cases result
      exact ⟨rfl, live, rfl⟩
  | ret value =>
      obtain ⟨bound, between, evaluated, result⟩ := bind_eq_ok.mp result
      cases result
      exact ⟨bound, rfl, evaluated⟩
  | expr value =>
      obtain ⟨bound, between, evaluated, result⟩ := bind_eq_ok.mp result
      cases result
      exact ⟨rfl, bound, evaluated⟩

/-- A statement halts in its expression, or else it is a fault. -/
theorem execStmt_error {stmt : Stmt ExprId} {halt : Halt}
    (result : execStmt eval frame stmt before = .error halt after) :
    halt = .fault ∨ ∃ value, eval value frame before = .error halt after := by
  cases stmt with
  | letBind name value =>
      rcases bind_eq_error.mp result with failed | ⟨bound, between, _, result⟩
      · exact .inr ⟨value, failed⟩
      · rcases bind_eq_error.mp result with failed | ⟨_, _, _, result⟩
        · exact .inl (fault_of_writeAt failed)
        · cases result
  | fnDef name params body =>
      rcases bind_eq_error.mp result with failed | ⟨_, _, _, result⟩
      · exact .inl (fault_of_writeAt failed)
      · cases result
  | ret value =>
      rcases bind_eq_error.mp result with failed | ⟨_, _, _, result⟩
      · exact .inr ⟨value, failed⟩
      · cases result
  | expr value =>
      rcases bind_eq_error.mp result with failed | ⟨_, _, _, result⟩
      · exact .inr ⟨value, failed⟩
      · cases result

/-- Statements go on after one that completes. -/
theorem execBlock_cons_of_normal {stmt : Stmt ExprId} {between : Machine}
    (rest : List (Stmt ExprId))
    (completed : execStmt eval frame stmt before = .ok .normal between) :
    execBlock eval frame (stmt :: rest) before = execBlock eval frame rest between := by
  rw [execBlock, bind_of_ok _ completed]

theorem execBlock_cons_of_returned {stmt : Stmt ExprId} {value : Value}
    (rest : List (Stmt ExprId))
    (completed : execStmt eval frame stmt before = .ok (.returned value) after) :
    execBlock eval frame (stmt :: rest) before = .ok (.returned value) after := by
  rw [execBlock, bind_of_ok _ completed]
  rfl

theorem execBlock_cons_of_error {stmt : Stmt ExprId} {halt : Halt}
    (rest : List (Stmt ExprId))
    (failed : execStmt eval frame stmt before = .error halt after) :
    execBlock eval frame (stmt :: rest) before = .error halt after := by
  rw [execBlock, bind_of_error _ failed]

end Statements

/-! ## Calls -/

section Calls

variable (settings : Settings) (eval : Evaluator)

/-- The body of a function, run in its own frame. -/
def runBody (frame : FrameId) (body : List (Stmt ExprId)) : Eval Value := do
  let flow ← execBlock eval frame body
  pure flow.result

/-- Enters the frame of a call and binds the parameters there. -/
def enter (definition : FnDef ExprId) (parent : FrameId) (values : List Value) :
    Eval FrameId := do
  enterCall definition.name
  let callFrame ← enterFrame parent
  bindVars callFrame (definition.params.zip values)
  pure callFrame

/-- A call once its definition is found and its arguments are evaluated.  `body` is run in
the frame that the call enters. -/
def call (definition : FnDef ExprId) (parent : FrameId) (values : List Value)
    (body : FrameId → Eval Value) : Eval Value := do
  let callFrame ← enter definition parent values
  inCall callFrame (body callFrame)

/-- A call that runs the body of its definition. -/
def callWith (definition : FnDef ExprId) (parent : FrameId) (values : List Value) :
    Eval Value :=
  call definition parent values fun frame => runBody eval frame definition.body

/-- A call looks its definition up, then evaluates as many arguments as there are
parameters, then runs the body. -/
theorem evalCall_eq (callee : String) (args : List ExprId) (frame : FrameId) :
    evalCall settings eval callee args frame = (do
      let (definition, owner) ← readFn frame callee
      let values ← evalAll eval frame (args.take definition.params.length)
      callWith eval definition (callParent settings frame owner) values) := by
  simp only [evalCall, callWith, call, enter, runBody, bind_assoc, pure_bind]

theorem evalCall_apply (callee : String) (args : List ExprId) (frame : FrameId)
    (machine : Machine) :
    evalCall settings eval callee args frame machine =
      match machine.environment.getFn frame callee with
      | .found definition owner =>
          (evalAll eval frame (args.take definition.params.length) >>=
            callWith eval definition (callParent settings frame owner)) machine
      | .unbound => .error (.error (.ofCause (.undefinedFunction callee))) machine
      | .gone => .error .fault machine := by
  rw [evalCall_eq, bind_apply, readFn_apply]
  cases machine.environment.getFn frame callee <;> rfl

/-- A call that is admitted enters a frame and binds its parameters there, unless there is
no frame for it. -/
theorem enterFrame_bindVars {α : Type} (parent : FrameId) (bindings : List (String × Value))
    (next : FrameId → Eval α) (machine : Machine) :
    (do
      let callFrame ← enterFrame parent
      bindVars callFrame bindings
      next callFrame) machine =
      if machine.environment.isLive parent && machine.environment.hasRoom then
        next machine.environment.next
          { machine with
            environment :=
              (machine.environment.push parent).setVars machine.environment.next bindings }
      else .error .fault machine := by
  by_cases framed : (machine.environment.isLive parent && machine.environment.hasRoom) = true
  · have pushed : enterFrame parent machine =
        .ok machine.environment.next
          { machine with environment := machine.environment.push parent } := by
      rw [enterFrame, if_pos framed]
    have live : (machine.environment.push parent).isLive machine.environment.next = true := by
      simp
    rw [if_pos framed, bind_of_ok _ pushed, bind_of_ok _ (bindVars_of_live _ live)]
  · have noFrame : enterFrame parent machine = .error .fault machine := by
      rw [enterFrame, if_neg framed]
    rw [if_neg framed, bind_of_error _ noFrame]

/-- A call is refused, finds no frame, or comes to the machine that `enter` describes. -/
theorem enter_apply (definition : FnDef ExprId) (parent : FrameId) (values : List Value)
    (machine : Machine) :
    enter definition parent values machine =
      match machine.calls.refusal? with
      | some cause => .error (.error (.ofCause cause)) machine
      | none =>
          if machine.environment.isLive parent && machine.environment.hasRoom then
            .ok machine.environment.next
              (machine.enter definition.name parent (definition.params.zip values))
          else .error .fault { machine with calls := machine.calls.push definition.name } := by
  cases refusal : machine.calls.refusal? with
  | some cause =>
      have entry : enterCall definition.name machine =
          .error (.error (.ofCause cause)) machine := by
        rw [enterCall, refusal]
      rw [enter, bind_of_error _ entry]
  | none =>
      have entry : enterCall definition.name machine =
          .ok () { machine with calls := machine.calls.push definition.name } := by
        rw [enterCall, refusal]
      rw [enter, bind_of_ok _ entry, enterFrame_bindVars]
      rfl

section Outcomes

variable (definition : FnDef ExprId) (values : List Value) (body : FrameId → Eval Value)
  {parent : FrameId} {machine : Machine}

theorem call_of_refused {cause : Cause} (parent : FrameId)
    (refused : machine.calls.refusal? = some cause) :
    call definition parent values body machine = .error (.error (.ofCause cause)) machine := by
  rw [call, bind_apply, enter_apply, refused]

/-- Without a live parent or without room for a frame a call is a fault. -/
theorem call_of_no_frame (admitted : machine.calls.refusal? = none)
    (noFrame : (machine.environment.isLive parent && machine.environment.hasRoom) = false) :
    call definition parent values body machine =
      .error .fault { machine with calls := machine.calls.push definition.name } := by
  rw [call, bind_apply, enter_apply, admitted, noFrame]
  rfl

/-- A call that is admitted runs its body in the machine that `enter` describes and
leaves the frame that it entered. -/
theorem call_of_entered (admitted : machine.calls.refusal? = none)
    (framed : (machine.environment.isLive parent && machine.environment.hasRoom) = true) :
    call definition parent values body machine =
      inCall machine.environment.next (body machine.environment.next)
        (machine.enter definition.name parent (definition.params.zip values)) := by
  rw [call, bind_apply, enter_apply, admitted, framed]
  rfl

/-- A call is refused, finds no frame, or runs its body. -/
theorem call_cases (parent : FrameId) (machine : Machine) :
    (∃ cause, machine.calls.refusal? = some cause ∧
        call definition parent values body machine =
          .error (.error (.ofCause cause)) machine) ∨
      (machine.calls.refusal? = none ∧
        (machine.environment.isLive parent && machine.environment.hasRoom) = false ∧
        call definition parent values body machine =
          .error .fault { machine with calls := machine.calls.push definition.name }) ∨
      machine.calls.refusal? = none ∧
        (machine.environment.isLive parent && machine.environment.hasRoom) = true ∧
        call definition parent values body machine =
          inCall machine.environment.next (body machine.environment.next)
            (machine.enter definition.name parent (definition.params.zip values)) := by
  cases refusal : machine.calls.refusal? with
  | some cause =>
      exact .inl ⟨cause, rfl, call_of_refused definition values body parent refusal⟩
  | none =>
      cases framed : machine.environment.isLive parent && machine.environment.hasRoom with
      | false =>
          exact .inr (.inl ⟨rfl, rfl, call_of_no_frame definition values body refusal framed⟩)
      | true =>
          exact .inr (.inr ⟨rfl, rfl, call_of_entered definition values body refusal framed⟩)

end Outcomes

theorem callWith_of_refused {machine : Machine} {cause : Cause} (definition : FnDef ExprId)
    (parent : FrameId) (values : List Value) (refused : machine.calls.refusal? = some cause) :
    callWith eval definition parent values machine =
      .error (.error (.ofCause cause)) machine :=
  call_of_refused definition values _ parent refused

theorem callWith_of_no_frame {machine : Machine} {parent : FrameId} (definition : FnDef ExprId)
    (values : List Value) (admitted : machine.calls.refusal? = none)
    (noFrame : (machine.environment.isLive parent && machine.environment.hasRoom) = false) :
    callWith eval definition parent values machine =
      .error .fault { machine with calls := machine.calls.push definition.name } :=
  call_of_no_frame definition values _ admitted noFrame

theorem callWith_of_entered {machine : Machine} {parent : FrameId} (definition : FnDef ExprId)
    (values : List Value) (admitted : machine.calls.refusal? = none)
    (framed : (machine.environment.isLive parent && machine.environment.hasRoom) = true) :
    callWith eval definition parent values machine =
      inCall machine.environment.next
        (runBody eval machine.environment.next definition.body)
        (machine.enter definition.name parent (definition.params.zip values)) :=
  call_of_entered definition values _ admitted framed

theorem callWith_cases (definition : FnDef ExprId) (parent : FrameId) (values : List Value)
    (machine : Machine) :
    (∃ cause, machine.calls.refusal? = some cause ∧
        callWith eval definition parent values machine =
          .error (.error (.ofCause cause)) machine) ∨
      (machine.calls.refusal? = none ∧
        (machine.environment.isLive parent && machine.environment.hasRoom) = false ∧
        callWith eval definition parent values machine =
          .error .fault { machine with calls := machine.calls.push definition.name }) ∨
      machine.calls.refusal? = none ∧
        (machine.environment.isLive parent && machine.environment.hasRoom) = true ∧
        callWith eval definition parent values machine =
          inCall machine.environment.next
            (runBody eval machine.environment.next definition.body)
            (machine.enter definition.name parent (definition.params.zip values)) :=
  call_cases definition values _ parent machine

end Calls

end Eval

/-! ## Nodes -/

/-- The operands of a node that are evaluated in a frame, from left to right.  A call
evaluates no more of them than its function has parameters. -/
def Node.operands (environment : Environment) (frame : FrameId) : Node → List ExprId
  | .number _ | .text _ | .ident _ => []
  | .binary _ left right => [left, right]
  | .call callee args =>
      if callee = printName then args
      else
        match environment.getFn frame callee with
        | .found definition _ => args.take definition.params.length
        | .unbound | .gone => []

theorem Node.operands_subset (node : Node) (environment : Environment) (frame : FrameId) :
    node.operands environment frame ⊆ node.children := by
  cases node with
  | call callee args =>
      simp only [Node.operands, Node.children]
      split
      · exact fun _ member => member
      · split
        · exact List.take_subset _ _
        · exact List.nil_subset _
        · exact List.nil_subset _
  | number _ | text _ | ident _ | binary _ _ _ => exact fun _ member => member

theorem Node.operands_print (environment : Environment) (frame : FrameId) (args : List ExprId) :
    (Node.call printName args).operands environment frame = args := by
  simp only [Node.operands, if_true]

/-- What is left to do for a node once its operands have their values.  The function of
a call is looked up before its arguments are evaluated, so `environment` is the one at
that point. -/
def Node.complete (settings : Settings) (eval : Eval.Evaluator) (environment : Environment)
    (frame : FrameId) : Node → List Value → Eval Value
  | .number value, _ => pure (.number value)
  | .text value, _ => pure (.text value)
  | .ident name, _ => Eval.readVar frame name
  | .binary op _ _, [left, right] => Eval.ofExcept (op.apply left right)
  | .binary .., _ => throw .fault
  | .call callee _, values =>
      if callee = printName then do
        Eval.printLine (printedLine values)
        pure .void
      else
        match environment.getFn frame callee with
        | .found definition owner =>
            Eval.callWith eval definition (Eval.callParent settings frame owner) values
        | .unbound => Eval.raise (.undefinedFunction callee)
        | .gone => throw .fault

section Completion

variable (settings : Settings) (eval : Eval.Evaluator) {environment : Environment}
  {frame : FrameId} {callee : String} (args : List ExprId)

theorem Node.operands_of_found {definition : FnDef ExprId} {owner : FrameId}
    (user : callee ≠ printName)
    (found : environment.getFn frame callee = .found definition owner) :
    (Node.call callee args).operands environment frame =
      args.take definition.params.length := by
  simp only [Node.operands, user, if_false, found]

theorem Node.complete_of_found {definition : FnDef ExprId} {owner : FrameId}
    (user : callee ≠ printName)
    (found : environment.getFn frame callee = .found definition owner) :
    (Node.call callee args).complete settings eval environment frame =
      Eval.callWith eval definition (Eval.callParent settings frame owner) := by
  funext values
  simp only [Node.complete, user, if_false, found]

theorem Node.complete_of_unbound (user : callee ≠ printName)
    (unbound : environment.getFn frame callee = .unbound) :
    (Node.call callee args).complete settings eval environment frame =
      fun _ => Eval.raise (.undefinedFunction callee) := by
  funext values
  simp only [Node.complete, user, if_false, unbound]

theorem Node.complete_of_gone (user : callee ≠ printName)
    (gone : environment.getFn frame callee = .gone) :
    (Node.call callee args).complete settings eval environment frame =
      fun _ => throw .fault := by
  funext values
  simp only [Node.complete, user, if_false, gone]

end Completion

namespace Eval

/-- Every node evaluates its operands first. -/
theorem evalNode_apply (settings : Settings) (eval : Evaluator) (frame : FrameId) (node : Node)
    (machine : Machine) :
    evalNode settings eval frame node machine =
      (evalAll eval frame (node.operands machine.environment frame) >>=
        node.complete settings eval machine.environment frame) machine := by
  cases node with
  | number value => rfl
  | text value => rfl
  | ident name => rfl
  | binary op left right =>
      simp only [evalNode, Node.operands, evalAll, bind_assoc, pure_bind, Node.complete]
  | call callee args =>
      by_cases builtin : callee = printName
      · simp only [evalNode, Node.operands, builtin, if_true]
        rfl
      · rw [evalNode, if_neg builtin, evalCall_apply]
        cases found : machine.environment.getFn frame callee with
        | found definition owner =>
            rw [Node.operands_of_found args builtin found,
              Node.complete_of_found settings eval args builtin found]
        | unbound =>
            rw [Node.complete_of_unbound settings eval args builtin found]
            simp only [Node.operands, builtin, if_false, found]
            rfl
        | gone =>
            rw [Node.complete_of_gone settings eval args builtin found]
            simp only [Node.operands, builtin, if_false, found]
            rfl

end Eval

end ScopeScript
