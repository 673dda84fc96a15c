import ScopeScript.Proofs.Lockstep
import ScopeScript.Proofs.Placement
import ScopeScript.Run

/-!
Contract: the log of the print calls that an evaluation completes.

Owns: the log, which lists the argument values of the print calls in the order of their
completion; the text of a log; the result that an evaluation adds this text to the output,
however it ends; and the logs of statements and nodes in terms of those of their operands.

The log is that of the evaluation on a host whose prints alone add entries.  It lists values,
not text, and does not look at the output.
-/

set_option autoImplicit false

namespace ScopeScript

/-- The text of completed prints: one line for each. -/
def outputText (prints : List (List Value)) : String :=
  String.join (prints.map fun values => printedLine values ++ "\n")

@[simp]
theorem outputText_nil : outputText [] = "" := String.join_nil

@[simp]
theorem outputText_append (first second : List (List Value)) :
    outputText (first ++ second) = outputText first ++ outputText second := by
  simp [outputText]

theorem outputText_singleton (values : List Value) :
    outputText [values] = printedLine values ++ "\n" := by
  simp [outputText]

/-! ## The log -/

namespace Eval

variable {α β : Type}

/-- The prints that an evaluation completes from each machine, as the values of their
arguments, in the order of completion. -/
abbrev PrintLog := Machine → List (List Value)

/-- The prints of an action and then, if it succeeds, of what follows it. -/
def logThen (first : Eval α) (early : PrintLog) (late : α → PrintLog) : PrintLog :=
  fun machine =>
    early machine ++
      match first machine with
      | .ok value between => late value between
      | .error _ _ => []

theorem logThen_of_ok {first : Eval α} {machine between : Machine} {value : α}
    (early : PrintLog) (late : α → PrintLog) (ran : first machine = .ok value between) :
    logThen first early late machine = early machine ++ late value between := by
  rw [logThen, ran]

theorem logThen_of_error {first : Eval α} {machine between : Machine} {halt : Halt}
    (early : PrintLog) (late : α → PrintLog) (failed : first machine = .error halt between) :
    logThen first early late machine = early machine := by
  rw [logThen, failed, List.append_nil]

/-- What follows prints nothing. -/
@[simp]
theorem logThen_nil (first : Eval α) (early : PrintLog) :
    logThen first early (fun _ _ => []) = early := by
  funext machine
  cases ran : first machine with
  | ok value between => rw [logThen_of_ok _ _ ran, List.append_nil]
  | error halt between => rw [logThen_of_error _ _ ran]

/-- An action together with the prints that it completes. -/
structure Logged (α : Type) where
  action : Eval α
  log : PrintLog

namespace Logged

/-- An action that completes no print. -/
def silent (action : Eval α) : Logged α where
  action
  log _ := []

instance : Monad Logged where
  pure value := silent (pure value)
  bind first next :=
    { action := first.action >>= fun value => (next value).action
      log := logThen first.action first.log fun value => (next value).log }

theorem log_bind (first : Logged α) (next : α → Logged β) :
    (first >>= next).log = logThen first.action first.log fun value => (next value).log := rfl

/-- What follows prints nothing. -/
theorem log_bind_left {first : Logged α} {next : α → Logged β}
    (silent : ∀ value, (next value).log = fun _ => []) : (first >>= next).log = first.log := by
  simp only [log_bind, silent, logThen_nil]

theorem log_silent_bind_of_ok {first : Eval α} {machine between : Machine} {value : α}
    (next : α → Logged β) (ran : first machine = .ok value between) :
    (silent first >>= next).log machine = (next value).log between :=
  logThen_of_ok _ _ ran

theorem log_silent_bind_of_error {first : Eval α} {machine between : Machine} {halt : Halt}
    (next : α → Logged β) (failed : first machine = .error halt between) :
    (silent first >>= next).log machine = [] :=
  logThen_of_error _ _ failed

/-- A print has its entry. -/
def print (values : List Value) : Logged Unit where
  action := printLine (printedLine values)
  log _ := [values]

def inCall (frame : FrameId) (body : Logged α) : Logged α where
  action := Eval.inCall frame body.action
  log := body.log

/-- The machine as a host that keeps the log. -/
def host (settings : Settings) : Host Logged where
  halt reason := silent (throw reason)
  raise cause := silent (raise cause)
  readVar frame name := silent (readVar frame name)
  readFn frame name := silent ((Eval.host settings).readFn frame name)
  bindVar frame name value := silent (bindVar frame name value)
  bindFn frame definition := silent (bindFn frame definition)
  print
  call definition parent values body := do
    let callFrame ← silent (enter definition parent values)
    inCall callFrame (body callFrame)

end Logged

end Eval

/-- The print calls that a run of the program completes, however it ends. -/
def Program.completedPrints (program : Program) (settings : Settings) : List (List Value) :=
  ((Eval.Logged.host settings).exec program.nodes program.nesting program.body).log
    (Machine.initial settings.callLimit "")

/-! ## The output -/

namespace Eval

variable {α β : Type}

/-- The action leaves the output as it is. -/
def Quiet (action : Eval α) : Prop :=
  ∀ machine, (lastMachine (action machine)).output = machine.output

theorem Quiet.bind {first : Eval α} {next : α → Eval β} (firstQuiet : Quiet first)
    (nextQuiet : ∀ value, Quiet (next value)) : Quiet (first >>= next) := by
  intro machine
  have before := firstQuiet machine
  rw [bind_apply]
  cases ran : first machine with
  | ok value between =>
      rw [ran] at before
      exact (nextQuiet value between).trans before
  | error halt between =>
      rw [ran] at before
      exact before

theorem quiet_pure (value : α) : Quiet (pure value) := fun _ => rfl

theorem quiet_throw (halt : Halt) : Quiet (throw halt : Eval α) := fun _ => rfl

theorem quiet_writeAt (frame : FrameId) (change : Environment → Environment) :
    Quiet (writeAt frame change) := by
  intro machine
  rw [writeAt]
  split <;> rfl

theorem quiet_bindVar (frame : FrameId) (name : String) (value : Value) :
    Quiet (bindVar frame name value) :=
  quiet_writeAt frame _

theorem quiet_bindFn (frame : FrameId) (definition : FnDef ExprId) :
    Quiet (bindFn frame definition) :=
  quiet_writeAt frame _

theorem quiet_readVar (frame : FrameId) (name : String) : Quiet (readVar frame name) := by
  intro machine
  rw [readVar_apply]
  split <;> rfl

theorem quiet_readFn (frame : FrameId) (name : String) : Quiet (readFn frame name) := by
  intro machine
  rw [readFn_apply]
  split <;> rfl

theorem quiet_enter (definition : FnDef ExprId) (parent : FrameId) (values : List Value) :
    Quiet (enter definition parent values) := by
  intro machine
  rw [enter_apply]
  split
  · rfl
  · split <;> rfl

/-- The log is one of the action, and the action adds its text to the output and nothing
else. -/
structure Records (action : Eval α) (logged : Logged α) : Prop where
  same : logged.action = action
  output : ∀ machine,
    (lastMachine (action machine)).output = machine.output ++ outputText (logged.log machine)

theorem records_silent {action : Eval α} (quiet : Quiet action) :
    Records action (.silent action) where
  same := rfl
  output machine := by rw [quiet, Logged.silent, outputText_nil, String.append_empty]

theorem Records.bind {first : Eval α} {next : α → Eval β} {logged : Logged α}
    {loggedNext : α → Logged β} (firstRecords : Records first logged)
    (nextRecords : ∀ value, Records (next value) (loggedNext value)) :
    Records (first >>= next) (logged >>= loggedNext) := by
  obtain ⟨rfl, printed⟩ := firstRecords
  refine ⟨congrArg (logged.action >>= ·) (funext fun value => (nextRecords value).same), ?_⟩
  intro machine
  have early := printed machine
  rw [Logged.log_bind]
  cases ran : logged.action machine with
  | ok value between =>
      rw [ran] at early
      rw [bind_of_ok _ ran, logThen_of_ok _ _ ran, (nextRecords value).output between,
        outputText_append, ← String.append_assoc, ← early]
      rfl
  | error halt between =>
      rw [ran] at early
      rw [bind_of_error _ ran, logThen_of_error _ _ ran, ← early]
      rfl

theorem Records.inCall {body : Eval α} {logged : Logged α} (frame : FrameId)
    (records : Records body logged) :
    Records (Eval.inCall frame body) (logged.inCall frame) where
  same := congrArg (Eval.inCall frame) records.same
  output machine := by
    have printed := records.output machine
    rw [Eval.inCall]
    cases ran : body machine with
    | ok value after =>
        rw [ran] at printed
        exact printed
    | error halt after =>
        rw [ran] at printed
        exact printed

theorem records_print (values : List Value) :
    Records (printLine (printedLine values)) (.print values) where
  same := rfl
  output machine := by
    rw [printLine_apply, Logged.print, outputText_singleton]
    simp [lastMachine, appendLine, String.append_assoc]

theorem records_call (settings : Settings) (definition : FnDef ExprId) (parent : FrameId)
    (values : List Value) {body : FrameId → Eval Value} {logged : FrameId → Logged Value}
    (bodies : ∀ frame, Records (body frame) (logged frame)) :
    Records (call definition parent values body)
      ((Logged.host settings).call definition parent values logged) :=
  (records_silent (quiet_enter definition parent values)).bind fun frame =>
    (bodies frame).inCall frame

theorem lockstep_records (settings : Settings) :
    Lockstep .same (host settings) (Logged.host settings) fun _ _ _ action logged =>
      Records action logged where
  lawful := Likeness.lawful_same _
  pure value := records_silent (quiet_pure _)
  bind first next := first.bind fun value => next value (Valued.all_true value)
  inStmt records := records
  bindVar := by
    rintro frame name _ value rfl _
    exact records_silent (quiet_bindVar frame name value)
  bindFn := by
    rintro frame definition _ rfl
    exact records_silent (quiet_bindFn frame definition)
  fault _ := records_silent (quiet_throw .fault)
  exhausted _ := records_silent (quiet_throw .exhausted)
  raise _ _ _ := records_silent (quiet_throw _)
  readVar := by
    rintro frame name _ _ rfl
    exact records_silent (quiet_readVar frame name)
  readFn := by
    rintro frame callee _ args next loggedNext _ rfl related
    refine (records_silent ?_).bind fun found => related found.1 _ found.2 rfl trivial
    exact (quiet_readFn frame callee).bind fun _ => quiet_pure _
  print _ _ _ := records_print _
  call := by
    rintro frame parent definition _ values body logged rfl _ _ bodies
    exact records_call settings definition parent values bodies

section Layer

variable {eval : Evaluator} {logged : ExprId → FrameId → Logged Value}
  (operands : ∀ id frame, Records (eval id frame) (logged id frame))

include operands

theorem records_evalAll (frame : FrameId) (ids : List ExprId) :
    Records (evalAll eval frame ids) (Host.evalAll logged frame ids) := by
  rw [← host_evalAll]
  exact (lockstep_records .default).evalAll (Likeness.sameCode_same.operands operands) frame
    (Likeness.sameCode_same.forall₂_positions ids)

theorem records_execStmt (settings : Settings) (frame : FrameId) (stmt : Stmt ExprId) :
    Records (execStmt eval frame stmt) ((Logged.host settings).execStmt logged frame stmt) := by
  rw [← @host_execStmt (host settings) rfl rfl]
  exact (lockstep_records settings).execStmt (Likeness.sameCode_same.operands operands) frame
    (Likeness.sameCode_same.stmts stmt)

end Layer

theorem records_evalExpr (nodes : Array Node) (settings : Settings) (bound : Nat) (id : ExprId)
    (frame : FrameId) :
    Records (evalExpr nodes settings bound id frame)
      ((Logged.host settings).evalExpr nodes bound id frame) := by
  rw [← host_evalExpr]
  exact (lockstep_records settings).evalExpr (Likeness.tables_same nodes) bound id id frame rfl

end Eval

theorem Program.output_run (program : Program) (settings : Settings) :
    (Eval.lastMachine (program.run settings "")).output =
      outputText (program.completedPrints settings) := by
  have records := (Eval.lockstep_records settings).exec (Likeness.tables_same program.nodes)
    program.nesting (Likeness.sameCode_same.blocks _ program.body)
  rw [program.host_execUpTo, ← program.exec_eq_execUpTo] at records
  have printed := records.output (Machine.initial settings.callLimit "")
  rwa [Machine.initial, String.empty_append] at printed

/-! ## Logs of statements and nodes -/

namespace Eval.Logged

variable (settings : Settings) {eval : Evaluator} {logged : ExprId → FrameId → Logged Value}

theorem log_execStmt (frame : FrameId) (stmt : Stmt ExprId) :
    ((host settings).execStmt logged frame stmt).log =
      match stmt.value? with
      | some id => (logged id frame).log
      | none => fun _ => [] := by
  cases stmt with
  | letBind name value => exact log_bind_left fun _ => log_bind_left fun _ => rfl
  | fnDef name params body => exact log_bind_left fun _ => rfl
  | ret value => exact log_bind_left fun _ => rfl
  | expr value => exact log_bind_left fun _ => rfl

theorem log_runBody (frame : FrameId) (body : List (Stmt ExprId)) :
    ((host settings).runBody logged frame body).log =
      ((host settings).execBlock logged frame body).log :=
  log_bind_left fun _ => rfl

/-- A call that is not entered prints nothing. -/
theorem log_call (definition : FnDef ExprId) (parent : FrameId) (values : List Value)
    (body : FrameId → Logged Value) (machine : Machine) :
    ((host settings).call definition parent values body).log machine =
      match machine.calls.refusal? with
      | some _ => []
      | none =>
          if machine.environment.isLive parent && machine.environment.hasRoom then
            (body machine.environment.next).log
              (machine.enter definition.name parent (definition.params.zip values))
          else [] := by
  change logThen (enter definition parent values) _ _ machine = _
  rw [logThen, enter_apply]
  cases machine.calls.refusal? with
  | some cause => rfl
  | none =>
      cases machine.environment.isLive parent && machine.environment.hasRoom <;> rfl

theorem log_call_of_entered (definition : FnDef ExprId) {parent : FrameId} (values : List Value)
    (body : FrameId → Logged Value) {machine : Machine}
    (admitted : machine.calls.refusal? = none)
    (framed : (machine.environment.isLive parent && machine.environment.hasRoom) = true) :
    ((host settings).call definition parent values body).log machine =
      (body machine.environment.next).log
        (machine.enter definition.name parent (definition.params.zip values)) := by
  simp only [log_call, admitted, framed, if_true]

theorem log_exec (nodes : Array Node) (bound : Nat) (body : List (Stmt ExprId)) :
    ((host settings).exec nodes bound body).log =
      ((host settings).execBlock ((host settings).evalExpr nodes bound)
        Environment.root body).log := by
  refine log_bind_left fun flow => ?_
  cases flow <;> rfl

section Layer

variable (operands : ∀ id frame, Records (eval id frame) (logged id frame))

include operands

theorem log_evalAll_cons (frame : FrameId) (id : ExprId) (rest : List ExprId) :
    (Host.evalAll logged frame (id :: rest)).log =
      logThen (eval id frame) (logged id frame).log fun _ =>
        (Host.evalAll logged frame rest).log := by
  rw [Host.evalAll, log_bind, (operands id frame).same]
  congr 1
  funext value
  exact logThen_nil _ _

theorem log_execBlock_cons (frame : FrameId) (stmt : Stmt ExprId) (rest : List (Stmt ExprId)) :
    ((host settings).execBlock logged frame (stmt :: rest)).log =
      logThen (execStmt eval frame stmt) ((host settings).execStmt logged frame stmt).log fun
        | .normal => ((host settings).execBlock logged frame rest).log
        | .returned _ => fun _ => [] := by
  rw [Host.execBlock, log_bind, (records_execStmt operands settings frame stmt).same]
  congr 1
  funext flow
  cases flow <;> rfl

end Layer

/-- What a node prints once its operands have their values.  A print is complete then. -/
def logComplete (logged : ExprId → FrameId → Logged Value) (environment : Environment)
    (frame : FrameId) : Node → List Value → PrintLog
  | .number _, _ | .text _, _ | .ident _, _ | .binary .., _ => fun _ => []
  | .call callee _, values =>
      if callee = printName then fun _ => [values]
      else
        match environment.getFn frame callee with
        | .found definition owner =>
            ((host settings).call definition (callParent settings frame owner) values
              fun callFrame => (host settings).runBody logged callFrame definition.body).log
        | .unbound | .gone => fun _ => []

theorem logComplete_of_found {environment : Environment} {frame owner : FrameId}
    {callee : String} (args : List ExprId) {definition : FnDef ExprId} (user : callee ≠ printName)
    (found : environment.getFn frame callee = .found definition owner) (values : List Value) :
    logComplete settings logged environment frame (.call callee args) values =
      ((host settings).call definition (callParent settings frame owner) values fun callFrame =>
        (host settings).runBody logged callFrame definition.body).log := by
  simp only [logComplete, user, if_false, found]

/-- The prints of the operands come first. -/
theorem log_evalNode (operands : ∀ id frame, Records (eval id frame) (logged id frame))
    (frame : FrameId) (node : Node) (machine : Machine) :
    ((host settings).evalNode logged frame node).log machine =
      logThen (evalAll eval frame (node.operands machine.environment frame))
        (Host.evalAll logged frame (node.operands machine.environment frame)).log
        (logComplete settings logged machine.environment frame node) machine := by
  cases node with
  | number value => rfl
  | text value => rfl
  | ident name => rfl
  | binary op left right =>
      have nothing : logComplete settings logged machine.environment frame
          (.binary op left right) = fun _ _ => [] := rfl
      rw [nothing, logThen_nil]
      -- Both sides go on with the prints of the right operand.
      refine congrFun (congrArg (logThen _ _) (funext fun leftValue => ?_)) machine
      have single : (Host.evalAll logged frame [right]).log = (logged right frame).log :=
        log_bind_left fun _ => log_bind_left fun _ => rfl
      rw [log_bind_left fun rightValue => ?_, log_bind_left fun _ => rfl, single]
      cases op.apply leftValue rightValue <;> rfl
  | call callee args =>
      by_cases builtin : callee = printName
      · subst builtin
        rw [Node.operands_print, Host.evalNode, if_pos rfl, log_bind,
          (records_evalAll operands frame args).same]
        refine congrFun (congrArg (logThen _ _) (funext fun values => ?_)) machine
        exact log_bind_left fun _ => rfl
      · rw [Host.evalNode, if_neg builtin]
        have read := host_readFn_apply settings frame callee machine
        cases found : machine.environment.getFn frame callee with
        | found definition owner =>
            rw [found] at read
            rw [Node.operands_of_found args builtin found]
            refine (log_silent_bind_of_ok _ read).trans ?_
            rw [Host.applyFn, log_bind, (records_evalAll operands frame _).same]
            refine congrFun (congrArg (logThen _ _) (funext fun values => ?_)) machine
            exact (logComplete_of_found settings args builtin found values).symm
        | unbound | gone =>
            rw [found] at read
            have nothing : logComplete settings logged machine.environment frame
                (.call callee args) = fun _ _ => [] := by
              funext values
              simp only [logComplete, builtin, if_false, found]
            have none : (Node.call callee args).operands machine.environment frame = [] := by
              simp only [Node.operands, builtin, if_false, found]
            rw [nothing, none, logThen_nil]
            exact log_silent_bind_of_error _ read

theorem evalExpr_succ {nodes : Array Node} {bound : Nat} {id : ExprId} {node : Node}
    (here : nodes[id]? = some node) (frame : FrameId) :
    (host settings).evalExpr nodes (bound + 1) id frame =
      (host settings).evalNode ((host settings).evalExpr nodes bound) frame node := by
  rw [Host.evalExpr, here]

end Eval.Logged

end ScopeScript
