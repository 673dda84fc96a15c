import Mathlib.Logic.Function.Basic
import ScopeScript.Proofs.Exhaustion

/-!
Contract: a program and the same program written in another way, run side by side.

Owns: translations of names and blocks, what they make of nodes, definitions, machines and
results, and the actions that a translation carries over.

A translation has names of its own for variables and for functions, and it may write a
block in any way that does the same as the block with each statement translated.  At every
point the machine of the second run is the translated machine of the first.  So the two runs
are compared by one equation for each action.
-/

set_option autoImplicit false

namespace ScopeScript

/-! ## Translations -/

/-- Other names for variables and for functions, and another way to write a block. -/
structure Translation where
  var : String → String
  fn : String → String
  block : List (Stmt ExprId) → List (Stmt ExprId)

namespace Translation

variable (translation : Translation)

/-- The statement in the other wording. -/
def stmt : Stmt ExprId → Stmt ExprId
  | .letBind name value => .letBind (translation.var name) value
  | .fnDef name params body =>
      .fnDef (translation.fn name) (params.map translation.var) (translation.block body)
  | .ret value => .ret value
  | .expr value => .expr value

/-- The node in the other wording.  Operands stay where they are. -/
def node : Node → Node
  | .number value => .number value
  | .text value => .text value
  | .ident name => .ident (translation.var name)
  | .call callee args => .call (translation.fn callee) args
  | .binary op left right => .binary op left right

/-- The definition in the other wording. -/
def definition (definition : FnDef ExprId) : FnDef ExprId where
  name := translation.fn definition.name
  params := definition.params.map translation.var
  body := translation.block definition.body

/-- The code on the second side is the translated code. -/
def likeness : Likeness :=
  { Likeness.same with
    vars := fun name other => other = translation.var name
    fns := fun name other => other = translation.fn name
    definitions := fun definition other => other = translation.definition definition }

theorem forall₂_stmts (stmts : List (Stmt ExprId)) :
    List.Forall₂ translation.likeness.Stmts stmts (stmts.map translation.stmt) := by
  rw [List.forall₂_map_right_iff, List.forall₂_same]
  intro stmt _
  cases stmt with
  | letBind name value => exact .letBind rfl rfl
  | fnDef name params body => exact .fnDef rfl
  | ret value => exact .ret rfl
  | expr value => exact .expr rfl

theorem tables_map (nodes : Array Node) :
    translation.likeness.Tables nodes (nodes.map translation.node) := by
  rintro id _ rfl
  rw [Array.getElem?_map]
  cases nodes[id]? with
  | none => exact .none
  | some node =>
      refine .some ⟨trivial, ?_⟩
      cases node with
      | number value => exact .number value
      | text value => exact .text value
      | ident name => exact .ident rfl
      | call callee args => exact .call rfl (List.forall₂_same.mpr fun _ _ => rfl)
      | binary op left right => exact .binary op rfl rfl

/-- Different names stay different, printing keeps its name, and a block does what its
translated statements do. -/
structure Lawful : Prop where
  var_injective : translation.var.Injective
  fn_injective : translation.fn.Injective
  fn_print : translation.fn printName = printName
  block : ∀ (eval : Eval.Evaluator) (frame : FrameId) (stmts : List (Stmt ExprId)),
    Eval.execBlock eval frame (translation.block stmts) =
      Eval.execBlock eval frame (stmts.map translation.stmt)

variable {translation}

theorem Lawful.blocks (lawful : translation.Lawful) (settings : Settings)
    (stmts : List (Stmt ExprId)) :
    translation.likeness.Blocks (Eval.host settings) stmts (translation.block stmts) := by
  refine ⟨stmts.map translation.stmt, translation.forall₂_stmts stmts, fun eval frame => ?_⟩
  rw [Eval.host_execBlock rfl rfl]
  exact lawful.block eval frame stmts

end Translation

/-! ## Tables and look-ups -/

namespace Table

variable {α β : Type}

/-- The table with other names and other entries. -/
def translate (key : String → String) (entry : α → β) (table : Table α) : Table β where
  entries := table.entries.map fun binding => (key binding.1, entry binding.2)

theorem get?_translate {key : String → String} (injective : key.Injective) (entry : α → β)
    (table : Table α) (name : String) :
    (table.translate key entry).get? (key name) = (table.get? name).map entry := by
  obtain ⟨entries⟩ := table
  simp only [translate, get?]
  induction entries with
  | nil => rfl
  | cons binding rest inductionHypothesis =>
      simp only [List.map_cons, findEntry?, injective.eq_iff, inductionHypothesis]
      split <;> rfl

theorem translate_insert {key : String → String} (injective : key.Injective) (entry : α → β)
    (table : Table α) (name : String) (value : α) :
    (table.insert name value).translate key entry =
      (table.translate key entry).insert (key name) (entry value) := by
  obtain ⟨entries⟩ := table
  simp only [translate, insert, mk.injEq]
  induction entries with
  | nil => rfl
  | cons binding rest inductionHypothesis =>
      simp only [List.map_cons, insertEntry, injective.eq_iff]
      split
      · rfl
      · rw [List.map_cons, inductionHypothesis]

@[simp]
theorem translate_id (table : Table α) : table.translate id id = table := by
  simp [translate]

end Table

/-- The answer with another entry, found in the same frame. -/
def Lookup.map {α β : Type} (entry : α → β) : Lookup α → Lookup β
  | .found value owner => .found (entry value) owner
  | .unbound => .unbound
  | .gone => .gone

/-! ## Machines and results -/

namespace Translation

variable (translation : Translation)

def frame (entry : Frame) : Frame where
  vars := entry.vars.translate translation.var id
  fns := entry.fns.translate translation.fn translation.definition
  parent := entry.parent

def environment (environment : Environment) : Environment where
  frames := environment.frames.map translation.frame

def calls (calls : CallStack) : CallStack where
  names := calls.names.map translation.fn
  limit := calls.limit

def machine (machine : Machine) : Machine where
  environment := translation.environment machine.environment
  calls := translation.calls machine.calls
  output := machine.output

/-- The cause with the name of its variable or function translated. -/
def cause : Cause → Cause
  | .undefinedVariable name => .undefinedVariable (translation.var name)
  | .undefinedFunction name => .undefinedFunction (translation.fn name)
  | .invalidOperands op left right => .invalidOperands op left right
  | .assignmentInExpression => .assignmentInExpression
  | .returnOutsideFunction => .returnOutsideFunction
  | .recursionLimit limit => .recursionLimit limit

def backtrace (backtrace : Backtrace) : Backtrace where
  calls := backtrace.calls.map translation.fn

/-- The halt with all names in it translated. -/
def halt : Halt → Halt
  | .error reason =>
      .error ⟨translation.cause reason.cause, reason.backtrace.map translation.backtrace⟩
  | .fault => .fault
  | .exhausted => .exhausted

/-- The result with its machine and its halt translated. -/
def result {α : Type} : EStateM.Result Halt Machine α → EStateM.Result Halt Machine α
  | .ok value after => .ok value (translation.machine after)
  | .error halt after => .error (translation.halt halt) (translation.machine after)

theorem lastMachine_result {α : Type} (result : EStateM.Result Halt Machine α) :
    Eval.lastMachine (translation.result result) =
      translation.machine (Eval.lastMachine result) := by
  cases result <;> rfl

theorem halt?_result {α : Type} (result : EStateM.Result Halt Machine α) :
    Eval.halt? (translation.result result) = (Eval.halt? result).map translation.halt := by
  cases result <;> rfl

/-! ### Environments -/

section Environments

variable (environment : Environment)

theorem getElem?_environment (frame : FrameId) :
    (translation.environment environment).frames[frame]? =
      (environment.frames[frame]?).map translation.frame := by
  simp [Translation.environment]

theorem size_environment :
    (translation.environment environment).frames.size = environment.frames.size := by
  simp [Translation.environment]

theorem isLive_environment (frame : FrameId) :
    (translation.environment environment).isLive frame = environment.isLive frame := by
  rw [Environment.isLive, Environment.isLive, size_environment]

theorem hasRoom_environment :
    (translation.environment environment).hasRoom = environment.hasRoom := by
  rw [Environment.hasRoom, Environment.hasRoom, size_environment]

theorem next_environment : (translation.environment environment).next = environment.next :=
  size_environment translation environment

theorem environment_modify (frame : FrameId) {change other : Frame → Frame}
    (commutes : ∀ entry, translation.frame (change entry) = other (translation.frame entry)) :
    translation.environment ⟨environment.frames.modify frame change⟩ =
      ⟨(translation.environment environment).frames.modify frame other⟩ := by
  apply Environment.ext_frames
  intro position
  rw [getElem?_environment, Array.getElem?_modify, Array.getElem?_modify, getElem?_environment]
  split
  · cases environment.frames[position]? with
    | none => rfl
    | some entry => exact congrArg some (commutes entry)
  · rfl

theorem environment_push (parent : FrameId) :
    translation.environment (environment.push parent) =
      (translation.environment environment).push parent := by
  simp only [Translation.environment, Environment.push, Array.map_push]
  rfl

theorem environment_pop (frame : FrameId) :
    translation.environment (environment.pop frame) =
      (translation.environment environment).pop frame := by
  unfold Environment.pop
  rw [size_environment]
  split
  · simp [Translation.environment]
  · rfl

variable {translation}

theorem Lawful.environment_setVar (lawful : translation.Lawful) (frame : FrameId) (name : String)
    (value : Value) :
    translation.environment (environment.setVar frame name value) =
      (translation.environment environment).setVar frame (translation.var name) value := by
  apply environment_modify
  intro entry
  simp only [Translation.frame, Table.translate_insert lawful.var_injective, id]

theorem Lawful.environment_setVars (lawful : translation.Lawful) (frame : FrameId)
    (bindings : List (String × Value)) :
    translation.environment (environment.setVars frame bindings) =
      (translation.environment environment).setVars frame
        (bindings.map (Prod.map translation.var id)) := by
  induction bindings generalizing environment with
  | nil => rfl
  | cons binding rest inductionHypothesis =>
      have later := inductionHypothesis (environment.setVar frame binding.1 binding.2)
      rw [lawful.environment_setVar] at later
      exact later

theorem Lawful.environment_setFn (lawful : translation.Lawful) (frame : FrameId)
    (definition : FnDef ExprId) :
    translation.environment (environment.setFn frame definition) =
      (translation.environment environment).setFn frame (translation.definition definition) := by
  apply environment_modify
  intro entry
  simp only [Translation.frame, Table.translate_insert lawful.fn_injective]
  rfl

/-- A translated look-up gives the translated answer. -/
theorem lookup_environment {α : Type} {table : Frame → Table α} {key : String → String}
    {entry : α → α} (injective : key.Injective)
    (tables : ∀ frame, table (translation.frame frame) = (table frame).translate key entry)
    (name : String) (frame : FrameId) :
    (translation.environment environment).lookup table (key name) frame =
      (environment.lookup table name frame).map entry := by
  induction frame using Nat.strongRecOn with
  | ind frame inductionHypothesis =>
      rw [Environment.lookup, Environment.lookup.eq_def environment, getElem?_environment]
      cases environment.frames[frame]? with
      | none => rfl
      | some here =>
          simp only [Option.map_some, tables, Table.get?_translate injective]
          cases (table here).get? name with
          | some value => rfl
          | none =>
              simp only [Option.map_none, Translation.frame]
              cases here.parent with
              | none => rfl
              | some parent =>
                  simp only
                  split
                  · exact inductionHypothesis parent ‹_›
                  · rfl

theorem Lawful.getVar_environment (lawful : translation.Lawful) (frame : FrameId)
    (name : String) :
    (translation.environment environment).getVar frame (translation.var name) =
      (environment.getVar frame name).map id :=
  lookup_environment environment lawful.var_injective (fun _ => rfl) name frame

theorem Lawful.getFn_environment (lawful : translation.Lawful) (frame : FrameId)
    (name : String) :
    (translation.environment environment).getFn frame (translation.fn name) =
      (environment.getFn frame name).map translation.definition :=
  lookup_environment environment lawful.fn_injective (fun _ => rfl) name frame

end Environments

/-! ### Calls and halts -/

theorem refusal?_calls (calls : CallStack) :
    (translation.calls calls).refusal? = calls.refusal? := by
  unfold CallStack.refusal?
  simp only [CallStack.depth, Translation.calls, Array.size_map]
  cases calls.limit <;> rfl

theorem calls_push (calls : CallStack) (name : String) :
    translation.calls (calls.push name) = (translation.calls calls).push (translation.fn name) := by
  simp [Translation.calls, CallStack.push]

theorem calls_pop (calls : CallStack) :
    translation.calls calls.pop = (translation.calls calls).pop := by
  simp [Translation.calls, CallStack.pop]

theorem cause_of_refusal {calls : CallStack} {cause : Cause}
    (refused : calls.refusal? = some cause) : translation.cause cause = cause := by
  unfold CallStack.refusal? at refused
  split at refused
  · split at refused <;> cases refused
    rfl
  · cases refused

/-- The errors of operators and of `return` have no names in them. -/
theorem cause_of_isPlain {cause : Cause} (plain : cause.isPlain = true) :
    translation.cause cause = cause := by
  cases cause <;> first | rfl | cases plain

theorem halt_traced (halt : Halt) (calls : CallStack) :
    translation.halt (halt.traced calls) =
      (translation.halt halt).traced (translation.calls calls) := by
  cases halt with
  | fault => rfl
  | exhausted => rfl
  | error reason =>
      obtain ⟨cause, backtrace⟩ := reason
      have names : (translation.calls calls).backtrace =
          translation.backtrace calls.backtrace := by
        simp [CallStack.backtrace, Translation.calls, Translation.backtrace]
      rw [Halt.traced_error, Translation.halt, Translation.halt, Halt.traced_error, names]
      cases backtrace with
      | some backtrace => rfl
      | none =>
          obtain ⟨names⟩ := calls.backtrace
          cases names <;> rfl

theorem machine_leave (machine : Machine) (frame : FrameId) :
    translation.machine (machine.leave frame) = (translation.machine machine).leave frame := by
  simp only [Translation.machine, Machine.leave, environment_pop, calls_pop]

variable {translation}

theorem Lawful.machine_enter (lawful : translation.Lawful) (machine : Machine) (name : String)
    (parent : FrameId) (bindings : List (String × Value)) :
    translation.machine (machine.enter name parent bindings) =
      (translation.machine machine).enter (translation.fn name) parent
        (bindings.map (Prod.map translation.var id)) := by
  simp only [Translation.machine, Machine.enter, lawful.environment_setVars, environment_push,
    calls_push, next_environment]

end Translation

/-! ## Actions -/

namespace Eval

variable {α β : Type} {translation : Translation}

/-- The second action does on translated machines what the first one does, in
translation. -/
def Carries (translation : Translation) (action other : Eval α) : Prop :=
  ∀ machine, other (translation.machine machine) = translation.result (action machine)

theorem Carries.bind {action other : Eval α} {next otherNext : α → Eval β}
    (actions : Carries translation action other)
    (continuations : ∀ value, Carries translation (next value) (otherNext value)) :
    Carries translation (action >>= next) (other >>= otherNext) := by
  intro machine
  rw [bind_apply, bind_apply, actions machine]
  cases action machine with
  | ok value between => exact continuations value between
  | error halt between => rfl

theorem carries_pure (value : α) : Carries translation (pure value) (pure value) :=
  fun _ => rfl

theorem carries_throw (halt : Halt) :
    Carries translation (throw halt : Eval α) (throw (translation.halt halt)) :=
  fun _ => rfl

theorem carries_readVar (lawful : translation.Lawful) (frame : FrameId) (name : String) :
    Carries translation (readVar frame name) (readVar frame (translation.var name)) := by
  intro machine
  have answers := lawful.getVar_environment machine.environment frame name
  rw [readVar_apply, readVar_apply, Translation.machine, answers]
  cases machine.environment.getVar frame name <;> rfl

theorem carries_writeAt (frame : FrameId) {change other : Environment → Environment}
    (commutes : ∀ environment, translation.environment (change environment) =
      other (translation.environment environment)) :
    Carries translation (writeAt frame change) (writeAt frame other) := by
  intro machine
  have live := translation.isLive_environment machine.environment frame
  unfold writeAt
  simp only [Translation.machine, live]
  split
  · simp only [Translation.result, Translation.machine, commutes]
  · rfl

theorem carries_bindVar (lawful : translation.Lawful) (frame : FrameId) (name : String)
    (value : Value) :
    Carries translation (bindVar frame name value)
      (bindVar frame (translation.var name) value) :=
  carries_writeAt frame fun environment => lawful.environment_setVar environment frame name value

theorem carries_bindFn (lawful : translation.Lawful) (frame : FrameId)
    (definition : FnDef ExprId) :
    Carries translation (bindFn frame definition)
      (bindFn frame (translation.definition definition)) :=
  carries_writeAt frame fun environment => lawful.environment_setFn environment frame definition

theorem carries_printLine (line : String) :
    Carries translation (printLine line) (printLine line) :=
  fun _ => rfl

theorem Carries.inCall {body other : Eval α} (frame : FrameId)
    (bodies : Carries translation body other) :
    Carries translation (Eval.inCall frame body) (Eval.inCall frame other) := by
  intro machine
  rw [Eval.inCall, Eval.inCall, bodies machine]
  cases body machine with
  | ok value after => simp only [Translation.result, Translation.machine_leave]
  | error halt after =>
      simp only [Translation.result, Translation.machine_leave, Translation.halt_traced]
      rfl

theorem carries_raise {cause : Cause} (plain : cause.isPlain = true) :
    Carries translation (raise cause : Eval α) (raise cause) := by
  have same : translation.halt (.error (.ofCause cause)) = .error (.ofCause cause) := by
    simp only [Translation.halt, RuntimeError.ofCause, translation.cause_of_isPlain plain,
      Option.map_none]
  intro machine
  exact congrArg (EStateM.Result.error · (translation.machine machine)) same.symm

theorem carries_readFn (lawful : translation.Lawful) (settings : Settings) (frame : FrameId)
    (callee : String) {next otherNext : FnDef ExprId → FrameId → Eval α}
    (continuations : ∀ definition parent, Carries translation (next definition parent)
      (otherNext (translation.definition definition) parent)) :
    Carries translation
      ((host settings).readFn frame callee >>= fun found => next found.1 found.2)
      ((host settings).readFn frame (translation.fn callee) >>= fun found =>
        otherNext found.1 found.2) := by
  intro machine
  have answers := lawful.getFn_environment machine.environment frame callee
  rw [bind_apply, bind_apply, host_readFn_apply, host_readFn_apply, Translation.machine, answers]
  cases machine.environment.getFn frame callee with
  | found definition owner => exact continuations definition _ machine
  | unbound => rfl
  | gone => rfl

theorem carries_call (lawful : translation.Lawful) (definition : FnDef ExprId)
    (parent : FrameId) (values : List Value) {body other : FrameId → Eval Value}
    (bodies : ∀ frame, Carries translation (body frame) (other frame)) :
    Carries translation (call definition parent values body)
      (call (translation.definition definition) parent values other) := by
  intro machine
  have refusals : (translation.machine machine).calls.refusal? = machine.calls.refusal? :=
    translation.refusal?_calls machine.calls
  have frames : ((translation.machine machine).environment.isLive parent &&
      (translation.machine machine).environment.hasRoom) =
        (machine.environment.isLive parent && machine.environment.hasRoom) := by
    simp only [Translation.machine, translation.isLive_environment,
      translation.hasRoom_environment]
  rcases call_cases definition values body parent machine with
    ⟨cause, refused, result⟩ | ⟨admitted, noFrame, result⟩ | ⟨admitted, framed, result⟩
  · rw [result, call_of_refused _ values other parent (refusals.trans refused)]
    simp only [Translation.result, Translation.halt, RuntimeError.ofCause,
      translation.cause_of_refusal refused]
    rfl
  · rw [result, call_of_no_frame _ values other (refusals.trans admitted)
      (frames.trans noFrame)]
    simp only [Translation.result, Translation.machine, translation.calls_push]
    rfl
  · have bindings : (definition.params.map translation.var).zip values =
        (definition.params.zip values).map (Prod.map translation.var id) := by
      rw [List.zip_map_left]
    have next : (translation.machine machine).environment.next = machine.environment.next :=
      translation.next_environment machine.environment
    rw [result, call_of_entered _ values other (refusals.trans admitted) (frames.trans framed),
      next]
    simp only [Translation.definition, bindings, ← lawful.machine_enter]
    exact (bodies machine.environment.next).inCall machine.environment.next _

/-! ## Evaluation -/

theorem lawful_likeness (lawful : translation.Lawful) (settings : Settings) :
    translation.likeness.Lawful (host settings) where
  void := trivial
  number _ := trivial
  text _ := trivial
  operator _ _ _ := trivial
  builtin := by
    -- printing keeps its name, and no other function gets it
    rintro callee _ rfl
    rw [← lawful.fn_injective.eq_iff, lawful.fn_print]
  params := by
    rintro definition _ rfl
    exact (List.length_map _).symm
  body := by
    rintro definition _ rfl
    exact lawful.blocks settings definition.body

theorem lockstep_carries (lawful : translation.Lawful) (settings : Settings) :
    Lockstep translation.likeness (host settings) (host settings) fun _ _ _ action other =>
      Carries translation action other where
  lawful := lawful_likeness lawful settings
  pure _ := carries_pure _
  bind first next := first.bind fun value => next value (Valued.all_true value)
  inStmt carries := carries
  bindVar := by
    rintro frame name _ value rfl _
    exact carries_bindVar lawful frame name value
  bindFn := by
    rintro frame definition _ rfl
    exact carries_bindFn lawful frame definition
  fault _ := carries_throw .fault
  exhausted _ := carries_throw .exhausted
  raise _ _ plain := carries_raise plain
  readVar := by
    rintro frame name _ _ rfl
    exact carries_readVar lawful frame name
  readFn := by
    rintro frame callee _ args next otherNext _ rfl continuations
    exact carries_readFn lawful settings frame callee fun definition parent =>
      continuations definition _ parent rfl trivial
  print _ _ _ := carries_printLine _
  call := by
    rintro frame parent definition _ values body other rfl _ _ bodies
    exact carries_call lawful definition parent values bodies

end Eval

/-! ## Programs -/

namespace Translation

variable {translation : Translation}

/-- The program in the other wording. -/
def program (translation : Translation) (program : Program) : Program where
  nodes := program.nodes.map translation.node
  body := translation.block program.body

theorem Lawful.carries_execUpTo (lawful : translation.Lawful) (program : Program)
    (settings : Settings) (bound : Nat) :
    Eval.Carries translation (program.execUpTo settings bound)
      ((translation.program program).execUpTo settings bound) := by
  rw [← program.host_execUpTo, ← (translation.program program).host_execUpTo]
  exact (Eval.lockstep_carries lawful settings).exec (translation.tables_map program.nodes) bound
    (lawful.blocks settings program.body)

theorem machine_initial (translation : Translation) (limit : CallLimit) (output : String) :
    translation.machine (Machine.initial limit output) = Machine.initial limit output := by
  simp [Translation.machine, Machine.initial, Translation.environment, Environment.empty,
    Translation.frame, Frame.empty, Table.translate, Table.empty, Translation.calls,
    CallStack.empty]

/-- Under any bound on nesting the run of the translated program is the translated run. -/
theorem Lawful.execUpTo_initial (lawful : translation.Lawful) (program : Program)
    (settings : Settings) (bound : Nat) (limit : CallLimit) (output : String) :
    (translation.program program).execUpTo settings bound (Machine.initial limit output) =
      translation.result (program.execUpTo settings bound (Machine.initial limit output)) := by
  have carried := lawful.carries_execUpTo program settings bound (Machine.initial limit output)
  rwa [translation.machine_initial] at carried

theorem Lawful.run_program (lawful : translation.Lawful) (program : Program)
    (settings : Settings) (output : String) :
    (translation.program program).run settings output =
      translation.result (program.run settings output) := by
  have nesting : (translation.program program).nesting = program.nesting := by
    simp [Program.nesting, Translation.program]
  rw [Program.run, Program.run, Program.exec_eq_execUpTo, Program.exec_eq_execUpTo, nesting]
  exact lawful.execUpTo_initial program settings program.nesting settings.callLimit output

end Translation

end ScopeScript
