import Mathlib.Logic.Relation
import ScopeScript.Proofs.Chains
import ScopeScript.Proofs.Nesting
import ScopeScript.Proofs.Placement
import ScopeScript.Run

/-!
Contract: the moments of a run.

Owns: moments at which code is about to be evaluated, the step from one moment to a later
one, the moments that a run reaches, what a step can do to frames, how frames and calls
stand at each moment, and the success that a run hands down to every moment it reaches.

An evaluation hands on to the evaluations that it is made of.  A step goes from an
evaluation to one of these, with the machine that the evaluator itself has produced by
then, so the moments are those of the evaluator and not of a second one.  Besides the
machine a moment knows which definitions the active calls belong to; frames do not tell.
-/

set_option autoImplicit false

namespace ScopeScript

/-! ## Moments and steps -/

/-- The code that is about to be evaluated: the rest of a block, a statement, the operands
that are left, or an expression. -/
inductive Code where
  | block (stmts : List (Stmt ExprId))
  | stmt (stmt : Stmt ExprId)
  | exprs (ids : List ExprId)
  | expr (id : ExprId)

/-- A moment of a run: the code, the frame in which it is evaluated, the machine, and the
definitions of the active calls, the outermost first. -/
structure Moment where
  code : Code
  frame : FrameId
  machine : Machine
  active : List (FnDef ExprId)

/-- The definition whose call entered the frame.  The root belongs to none. -/
def Moment.definitionOf (moment : Moment) : FrameId → Option (FnDef ExprId)
  | 0 => none
  | call + 1 => moment.active[call]?

/-- With one call more, an active call is an earlier one or the new one. -/
theorem Moment.called_of_concat {active : List (FnDef ExprId)} {definition called : FnDef ExprId}
    {call : Nat} (here : (active ++ [definition])[call]? = some called) :
    active[call]? = some called ∨ call = active.length ∧ called = definition := by
  rw [List.getElem?_append] at here
  split at here
  · exact .inl here
  · rename_i beyond
    rw [List.getElem?_singleton] at here
    split at here
    · cases here
      exact .inr ⟨by omega, rfl⟩
    · cases here

section Steps

variable (program : Program) (settings : Settings)

/-- The step from a moment to the next evaluation that it gives rise to. -/
inductive Moment.Step : Moment → Moment → Prop where
  | firstStmt {stmt : Stmt ExprId} {rest : List (Stmt ExprId)} {frame : FrameId}
      {machine : Machine} {active : List (FnDef ExprId)} :
      Moment.Step ⟨.block (stmt :: rest), frame, machine, active⟩
        ⟨.stmt stmt, frame, machine, active⟩
  | nextStmts {stmt : Stmt ExprId} {rest : List (Stmt ExprId)} {frame : FrameId}
      {machine after : Machine} {active : List (FnDef ExprId)}
      (completed : program.execStmt settings frame stmt machine = .ok .normal after) :
      Moment.Step ⟨.block (stmt :: rest), frame, machine, active⟩
        ⟨.block rest, frame, after, active⟩
  | value {stmt : Stmt ExprId} {id : ExprId} {frame : FrameId} {machine : Machine}
      {active : List (FnDef ExprId)} (value : stmt.value? = some id) :
      Moment.Step ⟨.stmt stmt, frame, machine, active⟩ ⟨.expr id, frame, machine, active⟩
  | firstExpr {id : ExprId} {rest : List ExprId} {frame : FrameId} {machine : Machine}
      {active : List (FnDef ExprId)} :
      Moment.Step ⟨.exprs (id :: rest), frame, machine, active⟩
        ⟨.expr id, frame, machine, active⟩
  | nextExprs {id : ExprId} {rest : List ExprId} {frame : FrameId} {machine after : Machine}
      {active : List (FnDef ExprId)} {value : Value}
      (evaluated : program.evalExpr settings id frame machine = .ok value after) :
      Moment.Step ⟨.exprs (id :: rest), frame, machine, active⟩
        ⟨.exprs rest, frame, after, active⟩
  | operands {id : ExprId} {node : Node} {frame : FrameId} {machine : Machine}
      {active : List (FnDef ExprId)} (here : program.nodes[id]? = some node) :
      Moment.Step ⟨.expr id, frame, machine, active⟩
        ⟨.exprs (node.operands machine.environment frame), frame, machine, active⟩
  | body {id : ExprId} {callee : String} {args : List ExprId} {definition : FnDef ExprId}
      {frame owner : FrameId} {machine between : Machine} {active : List (FnDef ExprId)}
      {values : List Value} (here : program.nodes[id]? = some (.call callee args))
      (user : callee ≠ printName)
      (found : machine.environment.getFn frame callee = .found definition owner)
      (evaluated : Eval.evalAll (program.evalExpr settings) frame
        (args.take definition.params.length) machine = .ok values between)
      (admitted : between.calls.refusal? = none)
      (framed : (between.environment.isLive (Eval.callParent settings frame owner) &&
        between.environment.hasRoom) = true) :
      Moment.Step ⟨.expr id, frame, machine, active⟩
        ⟨.block definition.body, between.environment.next,
          between.enter definition.name (Eval.callParent settings frame owner)
            (definition.params.zip values),
          active ++ [definition]⟩

/-- The first moment of a run. -/
def Program.start (output : String) : Moment where
  code := .block program.body
  frame := Environment.root
  machine := Machine.initial settings.callLimit output
  active := []

/-- The run comes to this moment, however it ends. -/
def Program.Reaches (output : String) (moment : Moment) : Prop :=
  Relation.ReflTransGen (Moment.Step program settings) (program.start settings output) moment

end Steps

variable {program : Program} {settings : Settings} {output : String}

/-- What holds at the start and is kept by every step holds at every moment of a run. -/
theorem Program.Reaches.induction {holds : Moment → Prop} {moment : Moment}
    (reached : program.Reaches settings output moment)
    (start : holds (program.start settings output))
    (step : ∀ before after, program.Reaches settings output before →
      Moment.Step program settings before after → holds before → holds after) :
    holds moment := by
  induction reached with
  | refl => exact start
  | tail earlier last inductionHypothesis => exact step _ _ earlier last inductionHypothesis

theorem Program.Reaches.step {before after : Moment}
    (reached : program.Reaches settings output before)
    (step : Moment.Step program settings before after) : program.Reaches settings output after :=
  Relation.ReflTransGen.tail reached step

theorem Program.neutral (program : Program) (settings : Settings) (id : ExprId)
    (frame : FrameId) : Eval.Keeps none (program.evalExpr settings id frame) :=
  Eval.keeps_evalExpr program.nodes settings program.nesting id frame

/-- An expression that has its value has left the frames as they were. -/
theorem Program.environment_of_evalExpr {id : ExprId} {frame : FrameId} {machine after : Machine}
    {value : Value} (evaluated : program.evalExpr settings id frame machine = .ok value after) :
    after.environment = machine.environment :=
  (program.neutral settings id frame machine after (.inl ⟨value, evaluated⟩)).environment_eq

theorem Program.agrees_of_evalAll {ids : List ExprId} {frame : FrameId} {machine after : Machine}
    {values : List Value}
    (evaluated : Eval.evalAll (program.evalExpr settings) frame ids machine = .ok values after) :
    machine.AgreesOutside none after :=
  Eval.keeps_evalAll (program.neutral settings) frame ids machine after (.inl ⟨values, evaluated⟩)

/-! ## What a step can do to frames -/

/-- The step stays in its frame and changes no other. -/
structure Moment.Stays (before after : Moment) : Prop where
  active : after.active = before.active
  frame : after.frame = before.frame
  agree : before.machine.AgreesOutside (some before.frame) after.machine

/-- The step enters the body of a function, in a new frame. -/
inductive Moment.Enters (settings : Settings) : Moment → Moment → Prop where
  | call {id : ExprId} {callee : String} {definition : FnDef ExprId} {frame owner : FrameId}
      {machine between : Machine} {active : List (FnDef ExprId)} {values : List Value}
      (agree : machine.AgreesOutside none between)
      (found : between.environment.getFn frame callee = .found definition owner)
      (live : between.environment.isLive (Eval.callParent settings frame owner) = true) :
      Moment.Enters settings ⟨.expr id, frame, machine, active⟩
        ⟨.block definition.body, between.environment.next,
          between.enter definition.name (Eval.callParent settings frame owner)
            (definition.params.zip values),
          active ++ [definition]⟩

theorem Moment.Stays.of_agrees {code later : Code} {frame : FrameId} {machine after : Machine}
    {active : List (FnDef ExprId)} (agree : machine.AgreesOutside (some frame) after) :
    Moment.Stays ⟨code, frame, machine, active⟩ ⟨later, frame, after, active⟩ :=
  ⟨rfl, rfl, agree⟩

theorem Moment.Step.stays_or_enters {before after : Moment}
    (step : Moment.Step program settings before after) :
    before.Stays after ∨ Moment.Enters settings before after := by
  cases step with
  | firstStmt => exact .inl (.of_agrees (.refl _ _))
  | nextStmts completed =>
      exact .inl (.of_agrees
        (Eval.keeps_execStmt (program.neutral settings) _ _ _ _ (.inl ⟨_, completed⟩)))
  | value value => exact .inl (.of_agrees (.refl _ _))
  | firstExpr => exact .inl (.of_agrees (.refl _ _))
  | nextExprs evaluated =>
      exact .inl (.of_agrees (program.neutral settings _ _ _ _ (.inl ⟨_, evaluated⟩)).weaken)
  | operands here => exact .inl (.of_agrees (.refl _ _))
  | body here user found evaluated admitted framed =>
      have agree := Program.agrees_of_evalAll evaluated
      rw [← agree.environment_eq] at found
      exact .inr (.call agree found (Bool.and_eq_true_iff.mp framed).1)

/-! ## Frames and calls -/

theorem Machine.AgreesOutside.ordered {writable : Option FrameId} {before after : Machine}
    (agree : before.AgreesOutside writable after) (ordered : before.environment.Ordered) :
    after.environment.Ordered := by
  intro frame entry parent here link
  have parents := agree.parents frame
  rw [here, Option.map_some, link] at parents
  obtain ⟨old, oldHere, oldLink⟩ := Option.map_eq_some_iff.mp parents.symm
  exact ordered frame old parent oldHere oldLink

/-- The code is evaluated in the last frame, there is one frame for the top level and one
for each active call, and the active calls have the names of their definitions. -/
structure Moment.Framed (settings : Settings) (moment : Moment) : Prop where
  last : moment.frame = moment.active.length
  depth : moment.machine.environment.depth = moment.active.length + 1
  names : moment.machine.calls.names.toList = moment.active.map FnDef.name
  limit : moment.machine.calls.limit = settings.callLimit
  ordered : moment.machine.environment.Ordered

namespace Moment.Framed

variable {moment : Moment}

theorem live (framed : moment.Framed settings) :
    moment.frame < moment.machine.environment.depth := by
  rw [framed.last, framed.depth]
  exact Nat.lt_succ_self _

theorem calls_depth (framed : moment.Framed settings) :
    moment.machine.calls.depth = moment.active.length := by
  rw [CallStack.depth, ← Array.length_toList, framed.names, List.length_map]

/-- Whatever was written to the frame, frames and calls stand as before. -/
theorem of_stays {after : Moment} (stays : moment.Stays after) (framed : moment.Framed settings) :
    after.Framed settings where
  last := by rw [stays.frame, stays.active, framed.last]
  depth := by rw [stays.agree.depth, stays.active, framed.depth]
  names := by rw [stays.agree.calls, stays.active, framed.names]
  limit := by rw [stays.agree.calls, framed.limit]
  ordered := stays.agree.ordered framed.ordered

theorem of_enters {after : Moment} (enters : Enters settings moment after)
    (framed : moment.Framed settings) : after.Framed settings := by
  cases enters with
  | @call id callee definition frame owner machine between active values agree found live =>
      have inner : Framed settings ⟨.expr id, frame, between, active⟩ :=
        of_stays (.of_agrees agree.weaken) framed
      refine ⟨?_, ?_, ?_, inner.limit, ?_⟩
      · change between.environment.depth = _
        rw [inner.depth, List.length_append]
        rfl
      · change (between.enter _ _ _).environment.depth = _
        rw [Machine.depth_enter, inner.depth, List.length_append]
        rfl
      · change (between.calls.names.push definition.name).toList = _
        rw [Array.toList_push, inner.names, List.map_append]
        rfl
      · exact Environment.ordered_setVars _ _ (Environment.ordered_push inner.ordered live)

theorem start (program : Program) (settings : Settings) (output : String) :
    (program.start settings output).Framed settings where
  last := rfl
  depth := rfl
  names := rfl
  limit := rfl
  ordered := Environment.ordered_empty

theorem of_reaches (reached : program.Reaches settings output moment) :
    moment.Framed settings :=
  reached.induction (start program settings output) fun _ _ _ last framed =>
    last.stays_or_enters.elim (fun stays => framed.of_stays stays)
      fun enters => framed.of_enters enters

end Moment.Framed

/-- Entering a call changes no frame that was there. -/
theorem Moment.Enters.frames_eq {before after : Moment}
    (enters : Moment.Enters settings before after)
    (framed : before.Framed settings) (frame : FrameId) (live : frame ≤ before.active.length) :
    after.machine.environment.frames[frame]? = before.machine.environment.frames[frame]? := by
  have depth := framed.depth
  cases enters with
  | @call id callee definition caller owner machine between active values agree found _ =>
      have below : frame < between.environment.depth := by
        rw [agree.depth, depth]
        exact Nat.lt_succ_of_le live
      exact (Machine.getElem?_enter_of_live below _ _ _).trans
        (congrArg (fun environment => environment.frames[frame]?) agree.environment_eq)

/-! ## Success -/

/-- The code of the moment is evaluated without a halt when expressions may be nested as
deep as the bound says. -/
def Moment.Succeeds (program : Program) (settings : Settings) (bound : Nat) (moment : Moment) :
    Prop :=
  let eval := Eval.evalExpr program.nodes settings bound
  match moment.code with
  | .block stmts => ∃ flow after,
      Eval.execBlock eval moment.frame stmts moment.machine = .ok flow after
  | .stmt stmt => ∃ flow after,
      Eval.execStmt eval moment.frame stmt moment.machine = .ok flow after
  | .exprs ids => ∃ values after,
      Eval.evalAll eval moment.frame ids moment.machine = .ok values after
  | .expr id => ∃ value after, eval id moment.frame moment.machine = .ok value after

namespace Eval

variable {eval : Evaluator} {frame : FrameId} {machine after : Machine}

/-- Statements that succeed begin with one that does; after one that completes, so do the
others. -/
theorem execBlock_cons_ok {stmt : Stmt ExprId} {rest : List (Stmt ExprId)} {flow : Flow}
    (result : execBlock eval frame (stmt :: rest) machine = .ok flow after) :
    (∃ value, execStmt eval frame stmt machine = .ok (.returned value) after ∧
        flow = .returned value) ∨
      ∃ between, execStmt eval frame stmt machine = .ok .normal between ∧
        execBlock eval frame rest between = .ok flow after := by
  cases first : execStmt eval frame stmt machine with
  | error halt between =>
      rw [execBlock_cons_of_error rest first] at result
      cases result
  | ok ends between =>
      cases ends with
      | normal =>
          rw [execBlock_cons_of_normal rest first] at result
          exact .inr ⟨between, rfl, result⟩
      | returned value =>
          rw [execBlock_cons_of_returned rest first] at result
          cases result
          exact .inl ⟨value, rfl, rfl⟩

theorem evalAll_cons_ok {id : ExprId} {rest : List ExprId} {values : List Value}
    (result : evalAll eval frame (id :: rest) machine = .ok values after) :
    ∃ value others between, values = value :: others ∧
      eval id frame machine = .ok value between ∧
      evalAll eval frame rest between = .ok others after := by
  obtain ⟨value, between, evaluated, result⟩ := bind_eq_ok.mp result
  obtain ⟨others, last, others_ok, result⟩ := bind_eq_ok.mp result
  cases result
  exact ⟨value, others, between, rfl, evaluated, others_ok⟩

/-- A statement that succeeds has evaluated its expression. -/
theorem execStmt_value_ok {stmt : Stmt ExprId} {flow : Flow} {id : ExprId}
    (value : stmt.value? = some id) (result : execStmt eval frame stmt machine = .ok flow after) :
    ∃ bound between, eval id frame machine = .ok bound between := by
  have done := execStmt_ok result
  cases stmt with
  | letBind name own =>
      cases value
      obtain ⟨_, bound, between, evaluated, _⟩ := done
      exact ⟨bound, between, evaluated⟩
  | fnDef name params body => cases value
  | ret own =>
      cases value
      obtain ⟨bound, _, evaluated⟩ := done
      exact ⟨bound, after, evaluated⟩
  | expr own =>
      cases value
      obtain ⟨_, bound, evaluated⟩ := done
      exact ⟨bound, after, evaluated⟩

/-- A call that succeeds was admitted, got its frame, and its body succeeds. -/
theorem callWith_ok {definition : FnDef ExprId} {parent : FrameId} {values : List Value}
    {result : Value} (called : callWith eval definition parent values machine = .ok result after) :
    machine.calls.refusal? = none ∧
      (machine.environment.isLive parent && machine.environment.hasRoom) = true ∧
      ∃ flow inner, execBlock eval machine.environment.next definition.body
          (machine.enter definition.name parent (definition.params.zip values)) = .ok flow inner ∧
        result = flow.result ∧ after = inner.leave machine.environment.next := by
  cases refusal : machine.calls.refusal? with
  | some cause =>
      rw [callWith_of_refused eval definition parent values refusal] at called
      cases called
  | none =>
      cases framed : machine.environment.isLive parent && machine.environment.hasRoom with
      | false =>
          rw [callWith_of_no_frame eval definition values refusal framed] at called
          cases called
      | true =>
          rw [callWith_of_entered eval definition values refusal framed] at called
          cases run : runBody eval machine.environment.next definition.body
              (machine.enter definition.name parent (definition.params.zip values)) with
          | error halt inner =>
              rw [inCall_of_error _ run] at called
              cases called
          | ok value inner =>
              rw [inCall_of_ok _ run] at called
              obtain ⟨flow, last, body, returned⟩ := bind_eq_ok.mp run
              cases returned
              cases called
              exact ⟨rfl, rfl, flow, inner, body, rfl, rfl⟩

/-- A node that succeeds has evaluated its operands. -/
theorem evalExpr_ok {nodes : Array Node} {settings : Settings} {bound : Nat} {id : ExprId}
    {value : Value} {node : Node} (here : nodes[id]? = some node)
    (result : evalExpr nodes settings bound id frame machine = .ok value after) :
    ∃ smaller values between, bound = smaller + 1 ∧
      evalAll (evalExpr nodes settings smaller) frame (node.operands machine.environment frame)
        machine = .ok values between ∧
      node.complete settings (evalExpr nodes settings smaller) machine.environment frame values
        between = .ok value after := by
  cases bound with
  | zero => cases result
  | succ smaller =>
      rw [evalExpr, here] at result
      simp only at result
      rw [evalNode_apply] at result
      obtain ⟨values, between, evaluated, completed⟩ := bind_eq_ok.mp result
      exact ⟨smaller, values, between, rfl, evaluated, completed⟩

/-- A call that succeeds has evaluated its arguments, and then its function was called. -/
theorem evalExpr_call_ok {nodes : Array Node} {settings : Settings} {bound : Nat} {id : ExprId}
    {value : Value} {callee : String} {args : List ExprId} {definition : FnDef ExprId}
    {owner : FrameId} (here : nodes[id]? = some (.call callee args)) (user : callee ≠ printName)
    (found : machine.environment.getFn frame callee = .found definition owner)
    (result : evalExpr nodes settings bound id frame machine = .ok value after) :
    ∃ smaller values between, bound = smaller + 1 ∧
      evalAll (evalExpr nodes settings smaller) frame (args.take definition.params.length)
        machine = .ok values between ∧
      callWith (evalExpr nodes settings smaller) definition (callParent settings frame owner)
        values between = .ok value after := by
  obtain ⟨smaller, values, between, same, evaluated, completed⟩ := evalExpr_ok here result
  rw [Node.operands_of_found _ user found] at evaluated
  rw [Node.complete_of_found _ _ _ user found] at completed
  exact ⟨smaller, values, between, same, evaluated, completed⟩

end Eval

namespace Moment

/-- The evaluator of the program does what a smaller bound allows. -/
theorem approximates {bound : Nat} (enough : bound ≤ program.nesting) (id : ExprId)
    (frame : FrameId) :
    Eval.Approximates (Eval.evalExpr program.nodes settings bound id frame)
      (program.evalExpr settings id frame) :=
  Eval.approximates_evalExpr program.nodes settings enough id frame

/-- An evaluation that succeeds hands its success down to those that it is made of, and
each call on the way costs one level of nesting. -/
theorem Step.succeeds {before after : Moment} (step : Step program settings before after)
    {bound : Nat} (enough : bound ≤ program.nesting)
    (success : before.Succeeds program settings bound) :
    ∃ smaller, smaller ≤ bound ∧ smaller + after.active.length ≤ bound + before.active.length ∧
      after.Succeeds program settings smaller := by
  cases step with
  | firstStmt =>
      obtain ⟨flow, last, result⟩ := success
      refine ⟨bound, Nat.le_refl _, Nat.le_refl _, ?_⟩
      rcases Eval.execBlock_cons_ok result with ⟨value, first, _⟩ | ⟨between, first, _⟩
      · exact ⟨_, _, first⟩
      · exact ⟨_, _, first⟩
  | nextStmts completed =>
      obtain ⟨flow, last, result⟩ := success
      refine ⟨bound, Nat.le_refl _, Nat.le_refl _, ?_⟩
      rcases Eval.execBlock_cons_ok result with ⟨value, first, _⟩ | ⟨between, first, others⟩
      · have again := (Eval.approximates_execStmt (approximates enough) _ _).ok first
        cases completed.symm.trans again
      · have again := (Eval.approximates_execStmt (approximates enough) _ _).ok first
        cases completed.symm.trans again
        exact ⟨flow, last, others⟩
  | value value =>
      obtain ⟨flow, last, result⟩ := success
      exact ⟨bound, Nat.le_refl _, Nat.le_refl _, Eval.execStmt_value_ok value result⟩
  | firstExpr =>
      obtain ⟨values, last, result⟩ := success
      obtain ⟨value, others, between, _, first, _⟩ := Eval.evalAll_cons_ok result
      exact ⟨bound, Nat.le_refl _, Nat.le_refl _, value, between, first⟩
  | nextExprs evaluated =>
      obtain ⟨values, last, result⟩ := success
      obtain ⟨value, others, between, _, first, rest⟩ := Eval.evalAll_cons_ok result
      cases evaluated.symm.trans ((approximates enough _ _).ok first)
      exact ⟨bound, Nat.le_refl _, Nat.le_refl _, others, last, rest⟩
  | operands here =>
      obtain ⟨value, last, result⟩ := success
      obtain ⟨smaller, values, between, rfl, evaluated, _⟩ := Eval.evalExpr_ok here result
      exact ⟨smaller, Nat.le_succ _, Nat.add_le_add_right (Nat.le_succ _) _, values, between,
        evaluated⟩
  | body here user found evaluated admitted framed =>
      obtain ⟨value, last, result⟩ := success
      obtain ⟨smaller, values, between, rfl, first, called⟩ :=
        Eval.evalExpr_call_ok here user found result
      have again := (Eval.approximates_evalAll
        (approximates (Nat.le_of_succ_le enough)) _ _).ok first
      cases evaluated.symm.trans again
      obtain ⟨_, _, flow, inner, body, _⟩ := Eval.callWith_ok called
      refine ⟨smaller, Nat.le_succ _, ?_, flow, inner, body⟩
      simp only [List.length_append, List.length_singleton]
      omega

theorem succeeds_of_path {before after : Moment}
    (path : Relation.ReflTransGen (Step program settings) before after) {bound : Nat}
    (enough : bound ≤ program.nesting) (success : before.Succeeds program settings bound) :
    ∃ smaller, smaller ≤ bound ∧ smaller + after.active.length ≤ bound + before.active.length ∧
      after.Succeeds program settings smaller := by
  induction path with
  | refl => exact ⟨bound, Nat.le_refl _, Nat.le_refl _, success⟩
  | tail _ last inductionHypothesis =>
      obtain ⟨middle, le, calls, success⟩ := inductionHypothesis
      obtain ⟨smaller, smallerLe, moreCalls, success⟩ :=
        last.succeeds (Nat.le_trans le enough) success
      exact ⟨smaller, Nat.le_trans smallerLe le, by omega, success⟩

end Moment

theorem Program.succeeds_start {after : Machine}
    (succeeded : program.run settings output = .ok () after) :
    (program.start settings output).Succeeds program settings program.nesting := by
  obtain ⟨flow, inner, block, _⟩ := Eval.bind_eq_ok.mp succeeded
  exact ⟨flow, inner, block⟩

end ScopeScript
