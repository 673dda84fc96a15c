import Mathlib.Data.List.Forall2
import ScopeScript.Proofs.Actions

/-!
Contract: two evaluations in lock-step.

Owns: what evaluation asks of the machine that it runs on, evaluation on any such host, what
the two sides of a comparison have in common, relations between actions that pass through
evaluation, and the layers of evaluation for any such relation.

A relation has to be looked at for the actions of the host only.  That it then holds between
whole evaluations is one induction, made here.  The two sides may run on machines of different
kinds and differ in positions, names and definitions; what they return is the same, and may be
held to a condition.
-/

set_option autoImplicit false

namespace ScopeScript

/-- Whether the error is raised by an operator or by a `return`, not by a name or a limit. -/
def Cause.isPlain : Cause → Bool
  | .invalidOperands .. | .assignmentInExpression | .returnOutsideFunction => true
  | .undefinedVariable _ | .undefinedFunction _ | .recursionLimit _ => false

theorem BinaryOp.isPlain_of_apply {op : BinaryOp} {left right : Value} {cause : Cause}
    (failed : op.apply left right = .error cause) : cause.isPlain = true := by
  unfold BinaryOp.apply at failed
  split at failed
  · cases failed
    rfl
  · split at failed
    · cases failed
    · split at failed <;> cases failed
      rfl
    · cases failed
      rfl

/-- Whether the error is that of a call which the limit refuses. -/
def Cause.isLimit : Cause → Bool
  | .recursionLimit _ => true
  | .undefinedVariable _ | .undefinedFunction _ | .invalidOperands .. | .assignmentInExpression
  | .returnOutsideFunction => false

theorem Cause.isLimit_of_isPlain {cause : Cause} (plain : cause.isPlain = true) :
    cause.isLimit = false := by
  cases cause <;> first | rfl | cases plain

/-! ## Evaluation on a host -/

/-- What evaluation asks of the machine that it runs on.  A function is looked up together
with the frame that the frame of its call asks next. -/
structure Host (m : Type → Type) where
  halt : ∀ {α : Type}, Halt → m α
  raise : ∀ {α : Type}, Cause → m α
  readVar : FrameId → String → m Value
  readFn : FrameId → String → m (FnDef ExprId × FrameId)
  bindVar : FrameId → String → Value → m Unit
  bindFn : FrameId → FnDef ExprId → m Unit
  print : List Value → m Unit
  call : FnDef ExprId → FrameId → List Value → (FrameId → m Value) → m Value

namespace Host

variable {m : Type → Type} [Monad m] (host : Host m)

section Layer

variable (eval : ExprId → FrameId → m Value)

def evalAll (frame : FrameId) : List ExprId → m (List Value)
  | [] => pure []
  | id :: rest => do
      let value ← eval id frame
      let values ← evalAll frame rest
      pure (value :: values)

def execStmt (frame : FrameId) : Stmt ExprId → m Flow
  | .letBind name value => do
      let value ← eval value frame
      host.bindVar frame name value
      pure .normal
  | .fnDef name params body => do
      host.bindFn frame { name, params, body }
      pure .normal
  | .ret value => do
      let value ← eval value frame
      pure (.returned value)
  | .expr value => do
      let _ ← eval value frame
      pure .normal

def execBlock (frame : FrameId) : List (Stmt ExprId) → m Flow
  | [] => pure .normal
  | stmt :: rest => do
      match ← host.execStmt eval frame stmt with
      | .normal => execBlock frame rest
      | .returned value => pure (.returned value)

def runBody (frame : FrameId) (body : List (Stmt ExprId)) : m Value := do
  let flow ← host.execBlock eval frame body
  pure flow.result

/-- Evaluates as many arguments as there are parameters, and runs the body. -/
def applyFn (frame : FrameId) (args : List ExprId) (definition : FnDef ExprId)
    (parent : FrameId) : m Value := do
  let values ← evalAll eval frame (args.take definition.params.length)
  host.call definition parent values fun callFrame =>
    host.runBody eval callFrame definition.body

def evalNode (frame : FrameId) : Node → m Value
  | .number value => pure (.number value)
  | .text value => pure (.text value)
  | .ident name => host.readVar frame name
  | .binary op left right => do
      let left ← eval left frame
      let right ← eval right frame
      match op.apply left right with
      | .ok value => pure value
      | .error cause => host.raise cause
  | .call callee args =>
      if callee = printName then do
        let values ← evalAll eval frame args
        host.print values
        pure .void
      else do
        let found ← host.readFn frame callee
        host.applyFn eval frame args found.1 found.2

end Layer

def evalExpr (nodes : Array Node) : Nat → ExprId → FrameId → m Value
  | 0, _, _ => host.halt .exhausted
  | depth + 1, id, frame =>
      match nodes[id]? with
      | none => host.halt .fault
      | some node => host.evalNode (evalExpr nodes depth) frame node

def exec (nodes : Array Node) (bound : Nat) (body : List (Stmt ExprId)) : m Unit := do
  match ← host.execBlock (host.evalExpr nodes bound) Environment.root body with
  | .normal => pure ()
  | .returned _ => host.raise .returnOutsideFunction

end Host

namespace Eval

theorem host_evalAll (eval : Evaluator) : Host.evalAll eval = evalAll eval := by
  funext frame ids
  induction ids with
  | nil => rfl
  | cons id rest inductionHypothesis => rw [Host.evalAll, evalAll, inductionHypothesis]

/-! ### Hosts that write as the machine does -/

section Writes

variable {host : Host Eval} (writesVars : host.bindVar = bindVar)
  (writesFns : host.bindFn = bindFn) (eval : Evaluator)

include writesVars writesFns

theorem host_execStmt : host.execStmt eval = execStmt eval := by
  funext frame stmt
  cases stmt with
  | letBind name value => rw [Host.execStmt, execStmt, writesVars]
  | fnDef name params body => rw [Host.execStmt, execStmt, writesFns]
  | ret _ | expr _ => rfl

theorem host_execBlock : host.execBlock eval = execBlock eval := by
  funext frame body
  induction body with
  | nil => rfl
  | cons stmt rest inductionHypothesis =>
      rw [Host.execBlock, execBlock, host_execStmt writesVars writesFns]
      refine bind_congr fun flow => ?_
      cases flow with
      | normal => exact inductionHypothesis
      | returned value => rfl

theorem host_runBody : host.runBody eval = runBody eval := by
  funext frame body
  rw [Host.runBody, runBody, host_execBlock writesVars writesFns]

end Writes

/-! ### The machine -/

/-- The machine as a host. -/
def host (settings : Settings) : Host Eval where
  halt := throw
  raise := raise
  readVar := readVar
  readFn frame name := do
    let (definition, owner) ← readFn frame name
    pure (definition, callParent settings frame owner)
  bindVar := bindVar
  bindFn := bindFn
  print values := printLine (printedLine values)
  call := call

section Machine

variable (settings : Settings) (eval : Evaluator)

theorem host_readFn_apply (frame : FrameId) (name : String) (machine : Machine) :
    (host settings).readFn frame name machine =
      match machine.environment.getFn frame name with
      | .found definition owner => .ok (definition, callParent settings frame owner) machine
      | .unbound => .error (.error (.ofCause (.undefinedFunction name))) machine
      | .gone => .error .fault machine := by
  simp only [host]
  rw [bind_apply, readFn_apply]
  cases machine.environment.getFn frame name <;> rfl

theorem host_applyFn (frame : FrameId) (args : List ExprId) (definition : FnDef ExprId)
    (parent : FrameId) :
    (host settings).applyFn eval frame args definition parent =
      evalAll eval frame (args.take definition.params.length) >>=
        callWith eval definition parent := by
  rw [Host.applyFn, host_evalAll, host_runBody rfl rfl]
  rfl

theorem host_evalNode : (host settings).evalNode eval = evalNode settings eval := by
  funext frame node
  cases node with
  | number _ | text _ | ident _ => rfl
  | binary op left right =>
      refine bind_congr fun leftValue => bind_congr fun rightValue => ?_
      cases op.apply leftValue rightValue <;> rfl
  | call callee args =>
      rw [Host.evalNode, evalNode, host_evalAll]
      split
      · rfl
      · rw [evalCall_eq]
        refine (bind_assoc _ _ _).trans (bind_congr ?_)
        rintro ⟨definition, owner⟩
        rw [pure_bind, host_applyFn]

theorem host_evalExpr (nodes : Array Node) (bound : Nat) :
    (host settings).evalExpr nodes bound = evalExpr nodes settings bound := by
  induction bound with
  | zero => rfl
  | succ bound inductionHypothesis =>
      funext id frame
      rw [Host.evalExpr, evalExpr, inductionHypothesis, host_evalNode]
      rfl

end Machine

end Eval

namespace Program

variable (program : Program) (settings : Settings)

/-- The run of a program with another bound on nesting. -/
def execUpTo (bound : Nat) : Eval Unit := do
  match ← Eval.execBlock (Eval.evalExpr program.nodes settings bound) Environment.root
      program.body with
  | .normal => pure ()
  | .returned _ => Eval.raise .returnOutsideFunction

theorem exec_eq_execUpTo : program.exec settings = program.execUpTo settings program.nesting := rfl

theorem host_execUpTo (bound : Nat) :
    (Eval.host settings).exec program.nodes bound program.body =
      program.execUpTo settings bound := by
  rw [Host.exec, Eval.host_execBlock rfl rfl, Eval.host_evalExpr]
  rfl

end Program

/-! ## What the sides have in common -/

/-- What is alike on the two sides of a comparison, which values and which nodes there are, and
which frames calls ask next. -/
structure Likeness where
  positions : ExprId → ExprId → Prop
  vars : String → String → Prop
  fns : String → String → Prop
  definitions : FnDef ExprId → FnDef ExprId → Prop
  values : Value → Prop
  nodes : Node → Prop
  parents : FrameId → FrameId → Prop

namespace Likeness

/-- The same program on both sides. -/
def same : Likeness where
  positions := Eq
  vars := Eq
  fns := Eq
  definitions := Eq
  values _ := True
  nodes _ := True
  parents _ _ := True

variable (like : Likeness)

/-- Nodes of one kind with the same literals, names that are alike and operands at positions
that are. -/
inductive Nodes : Node → Node → Prop where
  | number (value : Float) : Nodes (.number value) (.number value)
  | text (value : String) : Nodes (.text value) (.text value)
  | ident {name other : String} (names : like.vars name other) :
      Nodes (.ident name) (.ident other)
  | call {callee other : String} {args others : List ExprId} (names : like.fns callee other)
      (operands : List.Forall₂ like.positions args others) :
      Nodes (.call callee args) (.call other others)
  | binary (op : BinaryOp) {left right otherLeft otherRight : ExprId}
      (first : like.positions left otherLeft) (second : like.positions right otherRight) :
      Nodes (.binary op left right) (.binary op otherLeft otherRight)

/-- Statements of one kind that write what is alike. -/
inductive Stmts : Stmt ExprId → Stmt ExprId → Prop where
  | letBind {name other : String} {value otherValue : ExprId} (names : like.vars name other)
      (values : like.positions value otherValue) :
      Stmts (.letBind name value) (.letBind other otherValue)
  | fnDef {name other : String} {params others : List String}
      {body otherBody : List (Stmt ExprId)}
      (definitions : like.definitions ⟨name, params, body⟩ ⟨other, others, otherBody⟩) :
      Stmts (.fnDef name params body) (.fnDef other others otherBody)
  | ret {value otherValue : ExprId} (values : like.positions value otherValue) :
      Stmts (.ret value) (.ret otherValue)
  | expr {value otherValue : ExprId} (values : like.positions value otherValue) :
      Stmts (.expr value) (.expr otherValue)

/-- Both tables have a node at the positions, of the right kind and alike, or neither has. -/
def Tables (nodes others : Array Node) : Prop :=
  ∀ id other, like.positions id other →
    Option.Rel (fun node otherNode => like.nodes node ∧ like.Nodes node otherNode)
      nodes[id]? others[other]?

/-- The second block does on its host what a block does that is alike to the first. -/
def Blocks {m : Type → Type} [Monad m] (host : Host m) (body other : List (Stmt ExprId)) : Prop :=
  ∃ stmts, List.Forall₂ like.Stmts body stmts ∧
    ∀ eval frame, host.execBlock eval frame other = host.execBlock eval frame stmts

theorem blocks_of_forall₂ {like : Likeness} {m : Type → Type} [Monad m] {host : Host m}
    {body other : List (Stmt ExprId)} (alike : List.Forall₂ like.Stmts body other) :
    like.Blocks host body other :=
  ⟨other, alike, fun _ _ => rfl⟩

/-- What is alike is read alike on both sides, and the values that there are include all that
literals, operators and functions without a result give. -/
structure Lawful {m : Type → Type} [Monad m] (host : Host m) : Prop where
  void : like.values .void
  number : ∀ {value : Float}, like.nodes (.number value) → like.values (.number value)
  text : ∀ {value : String}, like.nodes (.text value) → like.values (.text value)
  operator : ∀ {op : BinaryOp} {left right value : Value}, like.values left →
    like.values right → op.apply left right = .ok value → like.values value
  builtin : ∀ {callee other : String}, like.fns callee other →
    (callee = printName ↔ other = printName)
  params : ∀ {definition other : FnDef ExprId}, like.definitions definition other →
    definition.params.length = other.params.length
  body : ∀ {definition other : FnDef ExprId}, like.definitions definition other →
    like.Blocks host definition.body other.body

/-- The code is the same on both sides. -/
structure SameCode : Prop where
  positions : like.positions = Eq
  vars : like.vars = Eq
  fns : like.fns = Eq
  definitions : like.definitions = Eq

theorem sameCode_same : same.SameCode :=
  ⟨rfl, rfl, rfl, rfl⟩

namespace SameCode

variable {like} (code : like.SameCode)

include code

theorem forall₂_positions (ids : List ExprId) : List.Forall₂ like.positions ids ids := by
  rw [code.positions, List.forall₂_eq_eq_eq]

theorem stmts (stmt : Stmt ExprId) : like.Stmts stmt stmt := by
  have positions : ∀ id, like.positions id id := by simp [code.positions]
  cases stmt with
  | letBind name value => exact .letBind (by rw [code.vars]) (positions value)
  | fnDef name params body => exact .fnDef (by rw [code.definitions])
  | ret value => exact .ret (positions value)
  | expr value => exact .expr (positions value)

theorem forall₂_stmts (body : List (Stmt ExprId)) : List.Forall₂ like.Stmts body body :=
  List.forall₂_same.mpr fun stmt _ => code.stmts stmt

theorem blocks {m : Type → Type} [Monad m] (host : Host m) (body : List (Stmt ExprId)) :
    like.Blocks host body body :=
  blocks_of_forall₂ (code.forall₂_stmts body)

theorem nodes (node : Node) : like.Nodes node node := by
  have positions : ∀ id, like.positions id id := by simp [code.positions]
  cases node with
  | number value => exact .number value
  | text value => exact .text value
  | ident name => exact .ident (by rw [code.vars])
  | call callee args => exact .call (by rw [code.fns]) (code.forall₂_positions args)
  | binary op left right => exact .binary op (positions left) (positions right)

theorem builtin {callee other : String} (names : like.fns callee other) :
    callee = printName ↔ other = printName := by
  rw [code.fns] at names
  rw [names]

theorem params {definition other : FnDef ExprId}
    (definitions : like.definitions definition other) :
    definition.params.length = other.params.length := by
  rw [code.definitions] at definitions
  rw [definitions]

theorem body {m : Type → Type} [Monad m] (host : Host m) {definition other : FnDef ExprId}
    (definitions : like.definitions definition other) :
    like.Blocks host definition.body other.body := by
  rw [code.definitions] at definitions
  exact definitions ▸ code.blocks host definition.body

/-- Without a condition on values. -/
theorem lawful {m : Type → Type} [Monad m] (host : Host m) (all : ∀ value, like.values value) :
    like.Lawful host where
  void := all _
  number _ := all _
  text _ := all _
  operator _ _ _ := all _
  builtin := code.builtin
  params := code.params
  body := code.body host

theorem tables {nodes : Array Node} (proper : ∀ node ∈ nodes, like.nodes node) :
    like.Tables nodes nodes := by
  intro id other alike
  rw [code.positions] at alike
  subst alike
  cases here : nodes[id]? with
  | none => exact .none
  | some node => exact .some ⟨proper node (Array.mem_of_getElem? here), code.nodes node⟩

end SameCode

end Likeness

theorem Likeness.lawful_same {m : Type → Type} [Monad m] (host : Host m) : same.Lawful host :=
  sameCode_same.lawful host fun _ => trivial

theorem Likeness.tables_same (nodes : Array Node) : same.Tables nodes nodes :=
  sameCode_same.tables fun _ _ => trivial

/-- Results that are made of values. -/
class Valued (α : Type) where
  /-- All values in the result satisfy the condition. -/
  all : (Value → Prop) → α → Prop
  all_true : ∀ result, all (fun _ => True) result

instance : Valued Unit where
  all _ _ := True
  all_true _ := trivial

instance : Valued Value where
  all condition value := condition value
  all_true _ := trivial

instance : Valued (List Value) where
  all condition values := ∀ value ∈ values, condition value
  all_true _ _ _ := trivial

instance : Valued Flow where
  all condition flow := condition flow.result
  all_true _ := trivial

/-- Where an action stands: in an expression, or in a statement, which may write to its
frame. -/
inductive Site where
  | expr (frame : FrameId)
  | stmt (frame : FrameId)

/-! ## Relations between evaluations -/

section Relations

variable {m n : Type → Type} [Monad m] [Monad n]

/-- The relation holds between the actions of the two hosts, passes through sequences of
actions, and holds between calls whose bodies it holds for. -/
structure Lockstep (like : Likeness) (first : Host m) (second : Host n)
    (relates : ∀ (α : Type) [Valued α], Site → m α → n α → Prop) : Prop where
  lawful : like.Lawful second
  pure : ∀ {α : Type} [Valued α] {site : Site} {value : α}, Valued.all like.values value →
    relates α site (Pure.pure value) (Pure.pure value)
  bind : ∀ {α β : Type} [Valued α] [Valued β] {site : Site} {action : m α} {other : n α}
    {next : α → m β} {otherNext : α → n β}, relates α site action other →
      (∀ value, Valued.all like.values value → relates β site (next value) (otherNext value)) →
      relates β site (action >>= next) (other >>= otherNext)
  inStmt : ∀ {α : Type} [Valued α] {frame : FrameId} {action : m α} {other : n α},
    relates α (.expr frame) action other → relates α (.stmt frame) action other
  bindVar : ∀ (frame : FrameId) {name other : String} {value : Value}, like.vars name other →
    like.values value →
      relates Unit (.stmt frame) (first.bindVar frame name value)
        (second.bindVar frame other value)
  bindFn : ∀ (frame : FrameId) {definition other : FnDef ExprId},
    like.definitions definition other →
      relates Unit (.stmt frame) (first.bindFn frame definition) (second.bindFn frame other)
  fault : ∀ (frame : FrameId),
    relates Value (.expr frame) (first.halt .fault) (second.halt .fault)
  exhausted : ∀ (frame : FrameId),
    relates Value (.expr frame) (first.halt .exhausted) (second.halt .exhausted)
  raise : ∀ {α : Type} [Valued α] (site : Site) {cause : Cause}, cause.isPlain = true →
    relates α site (first.raise cause) (second.raise cause)
  readVar : ∀ (frame : FrameId) {name other : String}, like.nodes (.ident name) →
    like.vars name other →
      relates Value (.expr frame) (first.readVar frame name) (second.readVar frame other)
  readFn : ∀ (frame : FrameId) {callee other : String} {args : List ExprId}
    {next : FnDef ExprId → FrameId → m Value} {otherNext : FnDef ExprId → FrameId → n Value},
    like.nodes (.call callee args) → like.fns callee other →
      (∀ definition otherDefinition parent, like.definitions definition otherDefinition →
        like.parents frame parent →
          relates Value (.expr frame) (next definition parent)
            (otherNext otherDefinition parent)) →
      relates Value (.expr frame) (first.readFn frame callee >>= fun found => next found.1 found.2)
        (second.readFn frame other >>= fun found => otherNext found.1 found.2)
  print : ∀ (frame : FrameId) {values : List Value}, (∀ value ∈ values, like.values value) →
    relates Unit (.expr frame) (first.print values) (second.print values)
  call : ∀ {frame parent : FrameId} {definition other : FnDef ExprId} {values : List Value}
    {body : FrameId → m Value} {otherBody : FrameId → n Value},
    like.definitions definition other → like.parents frame parent →
      (∀ value ∈ values, like.values value) →
      (∀ callFrame, relates Value (.stmt callFrame) (body callFrame) (otherBody callFrame)) →
      relates Value (.expr frame) (first.call definition parent values body)
        (second.call other parent values otherBody)

variable {like : Likeness} {first : Host m} {second : Host n}
  {relates : ∀ (α : Type) [Valued α], Site → m α → n α → Prop}

section Layer

variable {eval : ExprId → FrameId → m Value} {other : ExprId → FrameId → n Value}
  (operands : ∀ id otherId frame, like.positions id otherId →
    relates Value (.expr frame) (eval id frame) (other otherId frame))

include operands

theorem Lockstep.evalAll (lockstep : Lockstep like first second relates) (frame : FrameId)
    {ids others : List ExprId} (alike : List.Forall₂ like.positions ids others) :
    relates (List Value) (.expr frame) (Host.evalAll eval frame ids)
      (Host.evalAll other frame others) := by
  induction alike with
  | nil => exact lockstep.pure nofun
  | cons head tail inductionHypothesis =>
      refine lockstep.bind (operands _ _ frame head) fun value holds => ?_
      refine lockstep.bind inductionHypothesis fun values all => ?_
      exact lockstep.pure (List.forall_mem_cons.mpr ⟨holds, all⟩)

theorem Lockstep.execStmt (lockstep : Lockstep like first second relates)
    (frame : FrameId) {stmt otherStmt : Stmt ExprId} (alike : like.Stmts stmt otherStmt) :
    relates Flow (.stmt frame) (first.execStmt eval frame stmt)
      (second.execStmt other frame otherStmt) := by
  cases alike with
  | letBind names values =>
      refine lockstep.bind (lockstep.inStmt (operands _ _ frame values)) fun value holds => ?_
      refine lockstep.bind (lockstep.bindVar frame names holds) fun _ _ => ?_
      exact lockstep.pure lockstep.lawful.void
  | fnDef definitions =>
      exact lockstep.bind (lockstep.bindFn frame definitions) fun _ _ =>
        lockstep.pure lockstep.lawful.void
  | ret values =>
      exact lockstep.bind (lockstep.inStmt (operands _ _ frame values)) fun _ holds =>
        lockstep.pure holds
  | expr values =>
      exact lockstep.bind (lockstep.inStmt (operands _ _ frame values)) fun _ _ =>
        lockstep.pure lockstep.lawful.void

theorem Lockstep.execBlock (lockstep : Lockstep like first second relates)
    (frame : FrameId) {body otherBody : List (Stmt ExprId)}
    (alike : List.Forall₂ like.Stmts body otherBody) :
    relates Flow (.stmt frame) (first.execBlock eval frame body)
      (second.execBlock other frame otherBody) := by
  induction alike with
  | nil => exact lockstep.pure lockstep.lawful.void
  | cons head tail inductionHypothesis =>
      refine lockstep.bind (lockstep.execStmt operands frame head) fun flow holds => ?_
      cases flow with
      | normal => exact inductionHypothesis
      | returned value => exact lockstep.pure holds

theorem Lockstep.runBody (lockstep : Lockstep like first second relates) (frame : FrameId)
    {definition otherDefinition : FnDef ExprId}
    (alike : like.definitions definition otherDefinition) :
    relates Value (.stmt frame) (first.runBody eval frame definition.body)
      (second.runBody other frame otherDefinition.body) := by
  obtain ⟨stmts, bodies, same⟩ := lockstep.lawful.body alike
  rw [Host.runBody, Host.runBody, same]
  exact lockstep.bind (lockstep.execBlock operands frame bodies) fun _ holds =>
    lockstep.pure holds

theorem Lockstep.evalNode (lockstep : Lockstep like first second relates) (frame : FrameId)
    {node otherNode : Node} (proper : like.nodes node) (alike : like.Nodes node otherNode) :
    relates Value (.expr frame) (first.evalNode eval frame node)
      (second.evalNode other frame otherNode) := by
  cases alike with
  | number value => exact lockstep.pure (lockstep.lawful.number proper)
  | text value => exact lockstep.pure (lockstep.lawful.text proper)
  | ident names => exact lockstep.readVar frame proper names
  | binary op left right =>
      refine lockstep.bind (operands _ _ frame left) fun leftValue leftHolds => ?_
      refine lockstep.bind (operands _ _ frame right) fun rightValue rightHolds => ?_
      cases result : op.apply leftValue rightValue with
      | ok value => exact lockstep.pure (lockstep.lawful.operator leftHolds rightHolds result)
      | error cause => exact lockstep.raise _ (BinaryOp.isPlain_of_apply result)
  | @call callee otherCallee args others names alike =>
      rw [Host.evalNode, Host.evalNode]
      by_cases builtin : callee = printName
      · rw [if_pos builtin, if_pos ((lockstep.lawful.builtin names).mp builtin)]
        refine lockstep.bind (lockstep.evalAll operands frame alike) fun values all => ?_
        exact lockstep.bind (lockstep.print frame all) fun _ _ => lockstep.pure lockstep.lawful.void
      · rw [if_neg builtin, if_neg (mt (lockstep.lawful.builtin names).mpr builtin)]
        refine lockstep.readFn frame proper names fun definition otherDefinition parent
          definitions parents => ?_
        rw [Host.applyFn, Host.applyFn, ← lockstep.lawful.params definitions]
        refine lockstep.bind (lockstep.evalAll operands frame (List.forall₂_take _ alike))
          fun values all => ?_
        exact lockstep.call definitions parents all fun callFrame =>
          lockstep.runBody operands callFrame definitions

end Layer

omit [Monad m] [Monad n] in
theorem Likeness.SameCode.operands (code : like.SameCode)
    {eval : ExprId → FrameId → m Value} {other : ExprId → FrameId → n Value}
    (operands : ∀ id frame, relates Value (.expr frame) (eval id frame) (other id frame))
    (id otherId : ExprId) (frame : FrameId) (alike : like.positions id otherId) :
    relates Value (.expr frame) (eval id frame) (other otherId frame) := by
  rw [code.positions] at alike
  exact alike ▸ operands id frame

/-! ## Expressions and programs -/

theorem Lockstep.evalExpr (lockstep : Lockstep like first second relates)
    {nodes others : Array Node} (tables : like.Tables nodes others) (bound : Nat)
    (id other : ExprId) (frame : FrameId) (alike : like.positions id other) :
    relates Value (.expr frame) (first.evalExpr nodes bound id frame)
      (second.evalExpr others bound other frame) := by
  induction bound generalizing id other frame with
  | zero => exact lockstep.exhausted frame
  | succ bound inductionHypothesis =>
      have here := tables id other alike
      rw [Host.evalExpr, Host.evalExpr]
      generalize nodes[id]? = node at here
      generalize others[other]? = otherNode at here
      cases here with
      | none => exact lockstep.fault frame
      | some found => exact lockstep.evalNode inductionHypothesis frame found.1 found.2

theorem Lockstep.exec (lockstep : Lockstep like first second relates)
    {nodes others : Array Node} (tables : like.Tables nodes others) (bound : Nat)
    {body otherBody : List (Stmt ExprId)} (alike : like.Blocks second body otherBody) :
    relates Unit (.stmt Environment.root) (first.exec nodes bound body)
      (second.exec others bound otherBody) := by
  obtain ⟨stmts, alike, same⟩ := alike
  rw [Host.exec, Host.exec, same]
  refine lockstep.bind (lockstep.execBlock (lockstep.evalExpr tables bound) _ alike)
    fun flow _ => ?_
  cases flow with
  | normal => exact lockstep.pure trivial
  | returned value => exact lockstep.raise _ rfl

end Relations

/-! ## The same code on one machine -/

section SameCode

variable {like : Likeness} {settings : Settings}
  {relates : ∀ (α : Type) [Valued α], Site → Eval α → Eval α → Prop}
  (lockstep : Lockstep like (Eval.host settings) (Eval.host settings) relates)
  (code : like.SameCode)

include lockstep code

section Layer

variable (eval other : Eval.Evaluator)
  (operands : ∀ id frame, relates Value (.expr frame) (eval id frame) (other id frame))

include operands

theorem Lockstep.evalAll_self (frame : FrameId) (ids : List ExprId) :
    relates (List Value) (.expr frame) (Eval.evalAll eval frame ids)
      (Eval.evalAll other frame ids) := by
  rw [← Eval.host_evalAll, ← Eval.host_evalAll]
  exact lockstep.evalAll (code.operands operands) frame
    (code.forall₂_positions ids)

theorem Lockstep.execStmt_self (frame : FrameId) (stmt : Stmt ExprId) :
    relates Flow (.stmt frame) (Eval.execStmt eval frame stmt)
      (Eval.execStmt other frame stmt) := by
  have writes := @Eval.host_execStmt (Eval.host settings) rfl rfl
  rw [← writes, ← writes]
  exact lockstep.execStmt (code.operands operands) frame
    (code.stmts stmt)

theorem Lockstep.execBlock_self (frame : FrameId) (body : List (Stmt ExprId)) :
    relates Flow (.stmt frame) (Eval.execBlock eval frame body)
      (Eval.execBlock other frame body) := by
  have writes := @Eval.host_execBlock (Eval.host settings) rfl rfl
  rw [← writes, ← writes]
  exact lockstep.execBlock (code.operands operands) frame
    (code.forall₂_stmts body)

theorem Lockstep.evalNode_self (frame : FrameId) {node : Node} (proper : like.nodes node) :
    relates Value (.expr frame) (Eval.evalNode settings eval frame node)
      (Eval.evalNode settings other frame node) := by
  rw [← Eval.host_evalNode, ← Eval.host_evalNode]
  exact lockstep.evalNode (code.operands operands) frame proper
    (code.nodes node)

end Layer

theorem Lockstep.evalExpr_self {nodes : Array Node} (proper : ∀ node ∈ nodes, like.nodes node)
    (bound : Nat) (id : ExprId) (frame : FrameId) :
    relates Value (.expr frame) (Eval.evalExpr nodes settings bound id frame)
      (Eval.evalExpr nodes settings bound id frame) := by
  have alike : like.positions id id := by rw [code.positions]
  rw [← Eval.host_evalExpr]
  exact lockstep.evalExpr (code.tables proper) bound id id frame alike

theorem Lockstep.execUpTo_self {program : Program}
    (proper : ∀ node ∈ program.nodes, like.nodes node) (bound : Nat) :
    relates Unit (.stmt Environment.root) (program.execUpTo settings bound)
      (program.execUpTo settings bound) := by
  rw [← program.host_execUpTo]
  exact lockstep.exec (code.tables proper) bound (code.blocks _ program.body)

end SameCode

/-! ## Relations without conditions -/

namespace Eval

/-- The relation holds between each action of the machine and itself, and passes through
sequences and calls.  It does not depend on where the actions stand or on what they
return. -/
structure Uniform (relates : ∀ α : Type, Eval α → Eval α → Prop) : Prop where
  pure : ∀ {α : Type} (value : α), relates α (Pure.pure value) (Pure.pure value)
  bind : ∀ {α β : Type} {action other : Eval α} {next otherNext : α → Eval β},
    relates α action other → (∀ value, relates β (next value) (otherNext value)) →
      relates β (action >>= next) (other >>= otherNext)
  write : ∀ (frame : FrameId) (change : Environment → Environment),
    relates Unit (writeAt frame change) (writeAt frame change)
  fault : ∀ {α : Type}, relates α (throw .fault) (throw .fault)
  exhausted : ∀ {α : Type}, relates α (throw .exhausted) (throw .exhausted)
  raise : ∀ {α : Type} {cause : Cause}, cause.isPlain = true →
    relates α (Eval.raise cause) (Eval.raise cause)
  readVar : ∀ (frame : FrameId) (name : String),
    relates Value (Eval.readVar frame name) (Eval.readVar frame name)
  readFn : ∀ (frame : FrameId) (name : String),
    relates (FnDef ExprId × FrameId) (Eval.readFn frame name) (Eval.readFn frame name)
  printLine : ∀ line : String, relates Unit (Eval.printLine line) (Eval.printLine line)
  call : ∀ (definition : FnDef ExprId) (parent : FrameId) (values : List Value)
    {body other : FrameId → Eval Value}, (∀ frame, relates Value (body frame) (other frame)) →
      relates Value (Eval.call definition parent values body)
        (Eval.call definition parent values other)

variable {relates : ∀ α : Type, Eval α → Eval α → Prop}

theorem Uniform.lockstep (uniform : Uniform relates) (settings : Settings) :
    Lockstep .same (host settings) (host settings) fun α _ _ action other =>
      relates α action other where
  lawful := Likeness.lawful_same _
  pure _ := uniform.pure _
  bind action next := uniform.bind action fun value => next value (Valued.all_true value)
  inStmt related := related
  bindVar := by
    rintro frame name _ value rfl _
    exact uniform.write frame fun environment => environment.setVar frame name value
  bindFn := by
    rintro frame definition _ rfl
    exact uniform.write frame fun environment => environment.setFn frame definition
  fault _ := uniform.fault
  exhausted _ := uniform.exhausted
  raise _ _ plain := uniform.raise plain
  readVar := by
    rintro frame name _ _ rfl
    exact uniform.readVar frame name
  readFn := by
    rintro frame callee _ args next otherNext _ rfl related
    refine uniform.bind ?_ fun found => related found.1 _ found.2 rfl trivial
    exact uniform.bind (uniform.readFn frame callee) fun found => uniform.pure _
  print _ _ _ := uniform.printLine _
  call := by
    rintro frame parent definition _ values body other rfl _ _ related
    exact uniform.call definition parent values related

namespace Uniform

variable (uniform : Uniform relates)

include uniform

section Layer

variable {eval other : Evaluator}
  (operands : ∀ id frame, relates Value (eval id frame) (other id frame))

include operands

theorem evalAll (frame : FrameId) (ids : List ExprId) :
    relates (List Value) (evalAll eval frame ids) (evalAll other frame ids) :=
  (uniform.lockstep .default).evalAll_self Likeness.sameCode_same _ _ operands frame ids

theorem execStmt (frame : FrameId) (stmt : Stmt ExprId) :
    relates Flow (execStmt eval frame stmt) (execStmt other frame stmt) :=
  (uniform.lockstep .default).execStmt_self Likeness.sameCode_same _ _ operands frame stmt

theorem execBlock (frame : FrameId) (body : List (Stmt ExprId)) :
    relates Flow (execBlock eval frame body) (execBlock other frame body) :=
  (uniform.lockstep .default).execBlock_self Likeness.sameCode_same _ _ operands frame body

theorem evalNode (settings : Settings) (frame : FrameId) (node : Node) :
    relates Value (evalNode settings eval frame node) (evalNode settings other frame node) :=
  (uniform.lockstep settings).evalNode_self Likeness.sameCode_same _ _ operands frame trivial

end Layer

theorem exec (program : Program) (settings : Settings) :
    relates Unit (program.exec settings) (program.exec settings) :=
  (uniform.lockstep settings).execUpTo_self Likeness.sameCode_same (fun _ _ => trivial)
    program.nesting

end Uniform

end Eval

end ScopeScript
