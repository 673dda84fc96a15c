import ScopeScript.Proofs.Literals
import ScopeScript.Proofs.Lockstep
import ScopeScript.Proofs.Moments

/-!
Contract: every text of a run could be written between quotes.

Owns: values without quotes and line breaks, environments that bind only such values,
actions that keep to them, and the result for every moment of a run: bound values, arguments,
operands and returned values are all of this kind.

Texts come from literals, and the lexer lets neither character into a literal.  Joining texts
is the only operation that makes new ones.
-/

set_option autoImplicit false

namespace ScopeScript

/-- A text contains neither a quote nor a line break. -/
def Value.Quotable : Value → Prop
  | .text value => TokenKind.text.Fits value.toList
  | .number _ | .void => True

theorem BinaryOp.quotable_of_apply {op : BinaryOp} {left right value : Value}
    (leftQuotable : left.Quotable) (rightQuotable : right.Quotable)
    (applied : op.apply left right = .ok value) : value.Quotable := by
  unfold BinaryOp.apply at applied
  split at applied
  · cases applied
  · split at applied
    · cases applied
      trivial
    · split at applied
      · cases applied
        intro char member
        rw [String.toList_append, List.mem_append] at member
        exact member.elim (leftQuotable char) (rightQuotable char)
      · cases applied
    · cases applied

/-! ## Environments -/

namespace Environment

variable {environment : Environment} {condition : Value → Prop}

/-- Every variable that is bound in some frame satisfies the condition. -/
def AllVars (condition : Value → Prop) (environment : Environment) : Prop :=
  ∀ (frame : FrameId) (entry : Frame) (name : String) (value : Value),
    environment.frames[frame]? = some entry → entry.vars.get? name = some value →
      condition value

theorem allVars_empty (condition : Value → Prop) : empty.AllVars condition := by
  intro frame entry name value here bound
  rw [frame_of_empty here] at bound
  simp [Frame.empty] at bound

theorem allVars_push (parent : FrameId) (all : environment.AllVars condition) :
    (environment.push parent).AllVars condition := by
  intro frame entry name value here bound
  rw [push, Array.getElem?_push] at here
  split at here
  · cases here
    simp [Frame.empty] at bound
  · exact all frame entry name value here bound

theorem allVars_setVar (frame : FrameId) (name : String) {value : Value} (holds : condition value)
    (all : environment.AllVars condition) :
    (environment.setVar frame name value).AllVars condition := by
  intro other entry variableName answer here bound
  rcases getElem?_modify_cases here with same | ⟨old, found, rfl⟩
  · exact all other entry variableName answer same bound
  · rw [Table.get?_insert] at bound
    split at bound
    · cases bound
      exact holds
    · exact all other old variableName answer found bound

theorem allVars_setVars (frame : FrameId) {bindings : List (String × Value)}
    (holds : ∀ binding ∈ bindings, condition binding.2) (all : environment.AllVars condition) :
    (environment.setVars frame bindings).AllVars condition := by
  induction bindings generalizing environment with
  | nil => exact all
  | cons binding rest inductionHypothesis =>
      rw [List.forall_mem_cons] at holds
      exact inductionHypothesis holds.2 (allVars_setVar frame binding.1 holds.1 all)

theorem allVars_setFn (frame : FrameId) (definition : FnDef ExprId)
    (all : environment.AllVars condition) :
    (environment.setFn frame definition).AllVars condition := by
  intro other entry name value here bound
  rcases getElem?_modify_cases here with same | ⟨old, found, rfl⟩
  · exact all other entry name value same bound
  · exact all other old name value found bound

theorem allVars_pop (frame : FrameId) (all : environment.AllVars condition) :
    (environment.pop frame).AllVars condition := by
  unfold pop
  split
  · intro other entry name value here bound
    rw [Array.shrink_eq_take, Array.take_eq_extract, Array.getElem?_extract] at here
    split at here
    · rw [Nat.zero_add] at here
      exact all other entry name value here bound
    · cases here
  · exact all

end Environment

/-- The frame of a call binds its arguments. -/
theorem Machine.allVars_enter {condition : Value → Prop} {machine : Machine} (name : String)
    (parent : FrameId) (params : List String) {values : List Value}
    (all : machine.environment.AllVars condition)
    (arguments : ∀ value ∈ values, condition value) :
    (machine.enter name parent (params.zip values)).environment.AllVars condition :=
  Environment.allVars_setVars _ (fun _ member => arguments _ (List.of_mem_zip member).2)
    (Environment.allVars_push parent all)

/-! ## Actions -/

namespace Eval

variable {α β : Type}

/-- Where all bound values are quotable they stay so, and the action returns only what the
condition allows. -/
def KeepsQuotable (condition : α → Prop) (action : Eval α) : Prop :=
  ∀ machine value after, machine.environment.AllVars Value.Quotable →
    action machine = .ok value after →
      condition value ∧ after.environment.AllVars Value.Quotable

theorem KeepsQuotable.bind {condition : α → Prop} {later : β → Prop} {first : Eval α}
    {next : α → Eval β} (firstKeeps : KeepsQuotable condition first)
    (nextKeeps : ∀ value, condition value → KeepsQuotable later (next value)) :
    KeepsQuotable later (first >>= next) := by
  intro machine result after quotable succeeded
  obtain ⟨value, between, ran, rest⟩ := bind_eq_ok.mp succeeded
  obtain ⟨holds, still⟩ := firstKeeps machine value between quotable ran
  exact nextKeeps value holds between result after still rest

theorem KeepsQuotable.inCall {condition : α → Prop} {body : Eval α} (frame : FrameId)
    (keeps : KeepsQuotable condition body) : KeepsQuotable condition (Eval.inCall frame body) := by
  intro machine value after quotable succeeded
  cases run : body machine with
  | error halt inner =>
      rw [inCall_of_error frame run] at succeeded
      cases succeeded
  | ok result inner =>
      rw [inCall_of_ok frame run] at succeeded
      cases succeeded
      obtain ⟨holds, still⟩ := keeps machine value inner quotable run
      exact ⟨holds, Environment.allVars_pop frame still⟩

theorem keepsQuotable_pure {condition : α → Prop} {value : α} (holds : condition value) :
    KeepsQuotable condition (pure value : Eval α) := by
  intro machine result after quotable succeeded
  cases succeeded
  exact ⟨holds, quotable⟩

theorem keepsQuotable_throw {condition : α → Prop} (halt : Halt) :
    KeepsQuotable condition (throw halt : Eval α) := by
  intro machine result after quotable succeeded
  cases succeeded

theorem keepsQuotable_writeAt {frame : FrameId} {change : Environment → Environment}
    (keeps : ∀ environment : Environment, environment.AllVars Value.Quotable →
      (change environment).AllVars Value.Quotable) :
    KeepsQuotable (fun _ => True) (writeAt frame change) := by
  intro machine result after quotable succeeded
  obtain ⟨_, rfl⟩ := live_of_writeAt succeeded
  exact ⟨trivial, keeps machine.environment quotable⟩

theorem keepsQuotable_readVar (frame : FrameId) (name : String) :
    KeepsQuotable Value.Quotable (readVar frame name) := by
  intro machine value after quotable succeeded
  rw [readVar_apply] at succeeded
  split at succeeded
  · rename_i found
    cases succeeded
    obtain ⟨entry, here, bound⟩ := Environment.lookup_bound found
    exact ⟨quotable _ entry name value here bound, quotable⟩
  · cases succeeded
  · cases succeeded

theorem keepsQuotable_readFn (frame : FrameId) (name : String) :
    KeepsQuotable (fun _ => True) (readFn frame name) := by
  intro machine found after quotable succeeded
  rw [readFn_apply] at succeeded
  split at succeeded
  · cases succeeded
    exact ⟨trivial, quotable⟩
  · cases succeeded
  · cases succeeded

theorem keepsQuotable_printLine (line : String) :
    KeepsQuotable (fun _ => True) (printLine line) := by
  intro machine result after quotable succeeded
  cases succeeded
  exact ⟨trivial, quotable⟩

theorem keepsQuotable_call (definition : FnDef ExprId) (parent : FrameId) {values : List Value}
    (arguments : ∀ value ∈ values, value.Quotable) {body : FrameId → Eval Value}
    (bodies : ∀ frame, KeepsQuotable Value.Quotable (body frame)) :
    KeepsQuotable Value.Quotable (call definition parent values body) := by
  intro machine result after quotable succeeded
  rcases call_cases definition values body parent machine with
    ⟨_, _, called⟩ | ⟨_, _, called⟩ | ⟨_, _, called⟩
  · rw [called] at succeeded
    cases succeeded
  · rw [called] at succeeded
    cases succeeded
  · rw [called] at succeeded
    have entered := Machine.allVars_enter definition.name parent definition.params quotable
      arguments
    exact (bodies machine.environment.next).inCall machine.environment.next _ result after entered
      succeeded

/-! ## Evaluation -/

/-- The same code on both sides, with literals and values that are quotable. -/
def quotableCode : Likeness :=
  { Likeness.same with values := Value.Quotable, nodes := Node.Proper }

theorem sameCode_quotableCode : quotableCode.SameCode :=
  ⟨rfl, rfl, rfl, rfl⟩

theorem lawful_quotableCode (settings : Settings) : quotableCode.Lawful (host settings) where
  void := trivial
  number _ := trivial
  text proper := proper
  operator := BinaryOp.quotable_of_apply
  builtin := sameCode_quotableCode.builtin
  params := sameCode_quotableCode.params
  body := sameCode_quotableCode.body _

theorem lockstep_keepsQuotable (settings : Settings) :
    Lockstep quotableCode (host settings) (host settings) fun _ _ _ action _ =>
      KeepsQuotable (Valued.all Value.Quotable) action where
  lawful := lawful_quotableCode settings
  pure holds := keepsQuotable_pure holds
  bind first next := first.bind next
  inStmt keeps := keeps
  bindVar frame name _ _ _ quotable :=
    keepsQuotable_writeAt fun _ => Environment.allVars_setVar frame name quotable
  bindFn frame definition _ _ :=
    keepsQuotable_writeAt fun _ => Environment.allVars_setFn frame definition
  fault _ := keepsQuotable_throw .fault
  exhausted _ := keepsQuotable_throw .exhausted
  raise _ _ _ := keepsQuotable_throw _
  readVar frame name _ _ _ := keepsQuotable_readVar frame name
  readFn frame callee _ _ _ _ _ _ next := by
    have found : KeepsQuotable (fun _ => True) ((host settings).readFn frame callee) :=
      (keepsQuotable_readFn frame callee).bind fun _ _ => keepsQuotable_pure trivial
    exact found.bind fun found _ => next found.1 found.1 found.2 rfl trivial
  print _ _ _ := keepsQuotable_printLine _
  call _ _ arguments bodies := keepsQuotable_call _ _ arguments bodies

section Layer

variable {eval : Evaluator}
  (operands : ∀ id frame, KeepsQuotable Value.Quotable (eval id frame))

include operands

theorem keepsQuotable_evalAll (frame : FrameId) (ids : List ExprId) :
    KeepsQuotable (fun values => ∀ value ∈ values, value.Quotable) (evalAll eval frame ids) :=
  (lockstep_keepsQuotable .default).evalAll_self sameCode_quotableCode eval eval operands frame ids

theorem keepsQuotable_execStmt (frame : FrameId) (stmt : Stmt ExprId) :
    KeepsQuotable (fun flow => flow.result.Quotable) (execStmt eval frame stmt) :=
  (lockstep_keepsQuotable .default).execStmt_self sameCode_quotableCode eval eval operands frame
    stmt

theorem keepsQuotable_execBlock (frame : FrameId) (body : List (Stmt ExprId)) :
    KeepsQuotable (fun flow => flow.result.Quotable) (execBlock eval frame body) :=
  (lockstep_keepsQuotable .default).execBlock_self sameCode_quotableCode eval eval operands frame
    body

end Layer

theorem keepsQuotable_evalExpr {nodes : Array Node} (all : AllProper nodes) (settings : Settings)
    (bound : Nat) (id : ExprId) (frame : FrameId) :
    KeepsQuotable Value.Quotable (evalExpr nodes settings bound id frame) :=
  (lockstep_keepsQuotable settings).evalExpr_self sameCode_quotableCode all bound id frame

end Eval

/-! ## Moments -/

/-- The variables that are bound at the moment are quotable, and so are the values that its
code gives: the operands or arguments, the value of the expression, or the value that is
returned. -/
def Moment.Quotable (program : Program) (settings : Settings) (moment : Moment) : Prop :=
  let eval := program.evalExpr settings
  moment.machine.environment.AllVars Value.Quotable ∧
    match moment.code with
    | .block stmts => ∀ flow after,
        Eval.execBlock eval moment.frame stmts moment.machine = .ok flow after →
          flow.result.Quotable
    | .stmt stmt => ∀ flow after,
        Eval.execStmt eval moment.frame stmt moment.machine = .ok flow after →
          flow.result.Quotable
    | .exprs ids => ∀ values after,
        Eval.evalAll eval moment.frame ids moment.machine = .ok values after →
          ∀ value ∈ values, value.Quotable
    | .expr id => ∀ value after,
        eval id moment.frame moment.machine = .ok value after → value.Quotable

variable {program : Program} {settings : Settings} {output : String}

theorem Program.keepsQuotable_evalExpr (program : Program) (all : AllProper program.nodes)
    (settings : Settings) (id : ExprId) (frame : FrameId) :
    Eval.KeepsQuotable Value.Quotable (program.evalExpr settings id frame) :=
  Eval.keepsQuotable_evalExpr all settings program.nesting id frame

theorem Moment.Step.allVars {before after : Moment} (all : AllProper program.nodes)
    (step : Moment.Step program settings before after)
    (quotable : before.machine.environment.AllVars Value.Quotable) :
    after.machine.environment.AllVars Value.Quotable := by
  have operands := program.keepsQuotable_evalExpr all settings
  cases step with
  | firstStmt => exact quotable
  | nextStmts completed =>
      exact (Eval.keepsQuotable_execStmt operands _ _ _ _ _ quotable completed).2
  | value value => exact quotable
  | firstExpr => exact quotable
  | nextExprs evaluated => exact (operands _ _ _ _ _ quotable evaluated).2
  | operands here => exact quotable
  | body here user found evaluated admitted framed =>
      obtain ⟨arguments, still⟩ :=
        Eval.keepsQuotable_evalAll operands _ _ _ _ _ quotable evaluated
      exact Machine.allVars_enter _ _ _ still arguments

/-- Every moment of a run is quotable if the literals of the program are. -/
theorem Moment.Quotable.of_reaches {moment : Moment} (all : AllProper program.nodes)
    (reached : program.Reaches settings output moment) : moment.Quotable program settings := by
  have operands := program.keepsQuotable_evalExpr all settings
  have bound : moment.machine.environment.AllVars Value.Quotable :=
    reached.induction (Environment.allVars_empty _) fun _ _ _ step => step.allVars all
  refine ⟨bound, ?_⟩
  obtain ⟨code, frame, machine, active⟩ := moment
  cases code with
  | block stmts =>
      exact fun flow after ran =>
        (Eval.keepsQuotable_execBlock operands frame stmts machine flow after bound ran).1
  | stmt stmt =>
      exact fun flow after ran =>
        (Eval.keepsQuotable_execStmt operands frame stmt machine flow after bound ran).1
  | exprs ids =>
      exact fun values after ran =>
        (Eval.keepsQuotable_evalAll operands frame ids machine values after bound ran).1
  | expr id => exact fun value after ran => (operands id frame machine value after bound ran).1

end ScopeScript
