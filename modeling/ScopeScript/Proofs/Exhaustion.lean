import ScopeScript.Proofs.Termination
import ScopeScript.Run

/-!
Contract: no run of a well-formed program comes to the bound on nesting.

Owns: machines that can enter so many frames more, the place where an exhausted evaluation
was exhausted first, and runs under a larger bound than the program's own.

Nothing is assumed of the limit on calls.  A call that is entered takes one of the positions
for frames, and these are limited; a call that finds none is a fault.  So the measure is the
pair of the positions that are left and of the position in the table.
-/

set_option autoImplicit false

namespace ScopeScript

/-! ## Machines with room for frames -/

/-- At most `room` frames may still be entered, and the functions that are bound stay inside
a table of the given size. -/
structure Machine.Roomed (size room : Nat) (machine : Machine) : Prop where
  frames : Environment.capacity ≤ machine.environment.depth + room
  definitions : machine.environment.AllFns (FnDef.Inside size)

namespace Machine.Roomed

variable {size room : Nat} {machine after : Machine}

theorem of_environment (roomed : machine.Roomed size room)
    (same : after.environment = machine.environment) : after.Roomed size room where
  frames := by
    rw [same]
    exact roomed.frames
  definitions := by
    rw [same]
    exact roomed.definitions

theorem setVar (roomed : machine.Roomed size room) (frame : FrameId) (name : String)
    (value : Value) :
    Roomed size room { machine with
      environment := machine.environment.setVar frame name value } where
  frames := by simpa using roomed.frames
  definitions := Environment.allFns_setVar frame name value roomed.definitions

theorem setFn (roomed : machine.Roomed size room) (frame : FrameId) {definition : FnDef ExprId}
    (inside : definition.Inside size) :
    Roomed size room { machine with
      environment := machine.environment.setFn frame definition } where
  frames := by simpa using roomed.frames
  definitions := Environment.allFns_setFn frame inside roomed.definitions

theorem inside (roomed : machine.Roomed size room) {frame owner : FrameId} {name : String}
    {definition : FnDef ExprId}
    (found : machine.environment.getFn frame name = .found definition owner) :
    definition.Inside size := by
  obtain ⟨entry, here, bound⟩ := Environment.lookup_bound found
  exact roomed.definitions owner entry name definition here bound

/-- A call that finds a position for its frame leaves one less. -/
theorem enter (roomed : machine.Roomed size room) (hasRoom : machine.environment.hasRoom = true)
    (name : String) (parent : FrameId) (bindings : List (String × Value)) :
    ∃ fewer, room = fewer + 1 ∧ (machine.enter name parent bindings).Roomed size fewer := by
  have frames := roomed.frames
  have below : machine.environment.depth < Environment.capacity := by
    simpa [Environment.hasRoom, Environment.depth] using hasRoom
  refine ⟨room - 1, by omega, ?_, ?_⟩
  · simp only [Machine.enter, Environment.depth_setVars, Environment.depth_push]
    omega
  · exact Environment.allFns_setVars _ bindings
      (Environment.allFns_push parent roomed.definitions)

end Machine.Roomed

/-! ## Where an evaluation is exhausted -/

namespace Eval

variable {α β : Type}

theorem IsExhausted.of_bind {first : Eval α} {next : α → Eval β} {machine : Machine}
    (exhausted : IsExhausted ((first >>= next) machine)) :
    IsExhausted (first machine) ∨
      ∃ value between, first machine = .ok value between ∧ IsExhausted (next value between) := by
  obtain ⟨after, halted⟩ := exhausted
  rcases bind_eq_error.mp halted with early | ⟨value, between, returned, late⟩
  · exact .inl ⟨after, early⟩
  · exact .inr ⟨value, between, returned, after, late⟩

theorem IsExhausted.of_inCall {body : Eval α} {frame : FrameId} {machine : Machine}
    (exhausted : IsExhausted (inCall frame body machine)) : IsExhausted (body machine) := by
  obtain ⟨after, halted⟩ := exhausted
  cases run : body machine with
  | ok value inner =>
      rw [inCall_of_ok frame run] at halted
      cases halted
  | error halt inner =>
      rw [inCall_of_error frame run] at halted
      cases halt with
      | error reason =>
          rw [Halt.traced_error] at halted
          cases halted
      | fault => cases halted
      | exhausted => exact ⟨inner, rfl⟩

theorem not_exhausted_pure (value : α) (machine : Machine) :
    ¬ IsExhausted ((pure value : Eval α) machine) := by
  rintro ⟨after, halted⟩
  cases halted

theorem not_exhausted_writeAt (frame : FrameId) (change : Environment → Environment)
    (machine : Machine) : ¬ IsExhausted (writeAt frame change machine) := by
  rintro ⟨after, halted⟩
  cases fault_of_writeAt halted

section Layer

variable {eval : Evaluator} {frame : FrameId} {machine : Machine}

/-- A sequence whose second part is harmless is exhausted in its first part. -/
theorem IsExhausted.of_bind_left {first : Eval α} {next : α → Eval β}
    (exhausted : IsExhausted ((first >>= next) machine))
    (harmless : ∀ value between, ¬ IsExhausted (next value between)) :
    IsExhausted (first machine) := by
  rcases exhausted.of_bind with early | ⟨value, between, _, late⟩
  · exact early
  · exact absurd late (harmless value between)

theorem exhausted_execStmt {stmt : Stmt ExprId}
    (exhausted : IsExhausted (execStmt eval frame stmt machine)) :
    ∃ id ∈ stmt.roots, IsExhausted (eval id frame machine) := by
  have harmless : ∀ (write : Eval Unit) (between : Machine),
      (∀ machine, ¬ IsExhausted (write machine)) →
        ¬ IsExhausted ((write >>= fun _ => pure Flow.normal) between) := by
    intro write between never stopped
    exact never between (stopped.of_bind_left fun _ => not_exhausted_pure _)
  cases stmt with
  | letBind name value =>
      exact ⟨value, by simp [Stmt.roots], exhausted.of_bind_left fun bound between =>
        harmless _ between (not_exhausted_writeAt frame _)⟩
  | fnDef name params body =>
      exact absurd exhausted (harmless _ machine (not_exhausted_writeAt frame _))
  | ret value =>
      exact ⟨value, by simp [Stmt.roots], exhausted.of_bind_left fun _ => not_exhausted_pure _⟩
  | expr value =>
      exact ⟨value, by simp [Stmt.roots], exhausted.of_bind_left fun _ => not_exhausted_pure _⟩

theorem exhausted_callWith {definition : FnDef ExprId} {parent : FrameId} {values : List Value}
    (exhausted : IsExhausted (callWith eval definition parent values machine)) :
    machine.environment.hasRoom = true ∧
      IsExhausted (execBlock eval machine.environment.next definition.body
        (machine.enter definition.name parent (definition.params.zip values))) := by
  rcases callWith_cases eval definition parent values machine with
    ⟨_, _, result⟩ | ⟨_, _, result⟩ | ⟨_, framed, result⟩
  · obtain ⟨after, halted⟩ := exhausted
    cases result.symm.trans halted
  · obtain ⟨after, halted⟩ := exhausted
    cases result.symm.trans halted
  · rw [result] at exhausted
    exact ⟨(Bool.and_eq_true_iff.mp framed).2,
      exhausted.of_inCall.of_bind_left fun _ => not_exhausted_pure _⟩

/-- Once a node has its operands, only the call of a function can be exhausted. -/
theorem exhausted_complete {settings : Settings} {environment : Environment} {node : Node}
    {values : List Value}
    (exhausted : IsExhausted (node.complete settings eval environment frame values machine)) :
    ∃ callee definition owner, environment.getFn frame callee = .found definition owner ∧
      IsExhausted (callWith eval definition (callParent settings frame owner) values machine) := by
  cases node with
  | number value => exact absurd exhausted (not_exhausted_pure _ machine)
  | text value => exact absurd exhausted (not_exhausted_pure _ machine)
  | ident name =>
      obtain ⟨after, halted⟩ := exhausted
      rw [Node.complete, readVar_apply] at halted
      split at halted <;> cases halted
  | binary op left right =>
      obtain ⟨after, halted⟩ := exhausted
      -- A list of any other length than two is a fault.
      rcases values with _ | ⟨first, _ | ⟨second, _ | ⟨third, rest⟩⟩⟩
      · cases halted
      · cases halted
      · rw [Node.complete, ofExcept_apply] at halted
        split at halted <;> cases halted
      · cases halted
  | call callee args =>
      by_cases builtin : callee = printName
      · obtain ⟨after, halted⟩ := exhausted
        simp only [Node.complete, builtin, if_true] at halted
        rcases bind_eq_error.mp halted with printed | ⟨_, between, _, returned⟩
        · cases printed
        · cases returned
      · cases found : environment.getFn frame callee with
        | found definition owner =>
            rw [Node.complete_of_found settings eval args builtin found] at exhausted
            exact ⟨callee, definition, owner, found, exhausted⟩
        | unbound =>
            rw [Node.complete_of_unbound settings eval args builtin found] at exhausted
            obtain ⟨after, halted⟩ := exhausted
            cases halted
        | gone =>
            rw [Node.complete_of_gone settings eval args builtin found] at exhausted
            obtain ⟨after, halted⟩ := exhausted
            cases halted

variable (neutral : ∀ id frame, Keeps none (eval id frame))

include neutral

theorem exhausted_evalAll {ids : List ExprId}
    (exhausted : IsExhausted (evalAll eval frame ids machine)) :
    ∃ id ∈ ids, ∃ between : Machine, between.environment = machine.environment ∧
      IsExhausted (eval id frame between) := by
  induction ids generalizing machine with
  | nil => exact absurd exhausted (not_exhausted_pure _ machine)
  | cons id rest inductionHypothesis =>
      rcases exhausted.of_bind with first | ⟨value, between, evaluated, later⟩
      · exact ⟨id, by simp, machine, rfl, first⟩
      · have same := (neutral id frame machine between (.inl ⟨value, evaluated⟩)).environment_eq
        obtain ⟨other, member, last, kept, stopped⟩ :=
          inductionHypothesis (later.of_bind_left fun _ => not_exhausted_pure _)
        exact ⟨other, by simp [member], last, kept.trans same, stopped⟩

variable {size room : Nat}

theorem roomed_of_execStmt {stmt : Stmt ExprId} {flow : Flow} {after : Machine}
    (inside : ∀ id ∈ stmt.roots, id < size) (roomed : machine.Roomed size room)
    (completed : execStmt eval frame stmt machine = .ok flow after) : after.Roomed size room := by
  have unchanged : ∀ id bound (between : Machine), eval id frame machine = .ok bound between →
      between.Roomed size room := fun id bound between evaluated =>
    roomed.of_environment
      (neutral id frame machine between (.inl ⟨bound, evaluated⟩)).environment_eq
  have done := execStmt_ok completed
  cases stmt with
  | letBind name value =>
      obtain ⟨_, bound, between, evaluated, _, rfl⟩ := done
      exact (unchanged value bound between evaluated).setVar frame name bound
  | fnDef name params body =>
      obtain ⟨_, _, rfl⟩ := done
      apply roomed.setFn frame
      intro id member
      apply inside
      rw [Stmt.roots]
      exact member
  | ret value =>
      obtain ⟨bound, _, evaluated⟩ := done
      exact unchanged value bound after evaluated
  | expr value =>
      obtain ⟨_, bound, evaluated⟩ := done
      exact unchanged value bound after evaluated

theorem exhausted_execBlock {body : List (Stmt ExprId)}
    (inside : ∀ id ∈ Stmt.rootsAll body, id < size) (roomed : machine.Roomed size room)
    (exhausted : IsExhausted (execBlock eval frame body machine)) :
    ∃ id < size, ∃ between : Machine, between.Roomed size room ∧
      IsExhausted (eval id frame between) := by
  induction body generalizing machine with
  | nil => exact absurd exhausted (not_exhausted_pure _ machine)
  | cons stmt rest inductionHypothesis =>
      have stmtInside : ∀ id ∈ stmt.roots, id < size := fun id member =>
        inside id (by simp [Stmt.rootsAll, member])
      have restInside : ∀ id ∈ Stmt.rootsAll rest, id < size := fun id member =>
        inside id (by simp [Stmt.rootsAll, member])
      rw [execBlock] at exhausted
      rcases exhausted.of_bind with first | ⟨flow, between, completed, later⟩
      · obtain ⟨id, member, stopped⟩ := exhausted_execStmt first
        exact ⟨id, stmtInside id member, machine, roomed, stopped⟩
      · cases flow with
        | normal =>
            exact inductionHypothesis restInside
              (roomed_of_execStmt neutral stmtInside roomed completed) later
        | returned value => exact absurd later (not_exhausted_pure _ between)

/-- A node is exhausted in one of its operands or in the body of the function that it
calls. -/
theorem exhausted_evalNode {settings : Settings} {node : Node} (roomed : machine.Roomed size room)
    (exhausted : IsExhausted (evalNode settings eval frame node machine)) :
    (∃ id ∈ node.children, ∃ between : Machine, between.Roomed size room ∧
        IsExhausted (eval id frame between)) ∨
      ∃ fewer, room = fewer + 1 ∧ ∃ id < size, ∃ (inner : FrameId) (between : Machine),
        between.Roomed size fewer ∧ IsExhausted (eval id inner between) := by
  rw [evalNode_apply] at exhausted
  rcases exhausted.of_bind with operands | ⟨values, between, evaluated, completion⟩
  · obtain ⟨id, member, between, same, stopped⟩ := exhausted_evalAll neutral operands
    exact .inl ⟨id, node.operands_subset _ _ member, between, roomed.of_environment same, stopped⟩
  · have agree := keeps_evalAll neutral frame _ machine between (.inl ⟨values, evaluated⟩)
    obtain ⟨callee, definition, owner, found, called⟩ := exhausted_complete completion
    obtain ⟨hasRoom, body⟩ := exhausted_callWith called
    obtain ⟨fewer, one, inner⟩ := (roomed.of_environment agree.environment_eq).enter hasRoom
      definition.name (callParent settings frame owner) (definition.params.zip values)
    obtain ⟨id, inside, last, lastRoomed, stopped⟩ :=
      exhausted_execBlock neutral (roomed.inside found) inner body
    exact .inr ⟨fewer, one, id, inside, between.environment.next, last, lastRoomed, stopped⟩

end Layer

/-- The bound pays for every frame that may be entered and, within one call, for the way
down the table. -/
theorem not_exhausted_evalExpr {nodes : Array Node} (descending : Storage.Descending nodes)
    (settings : Settings) {bound room level : Nat}
    (enough : room * (nodes.size + 1) + level ≤ bound) {machine : Machine}
    (roomed : machine.Roomed nodes.size room) {id : ExprId} (below : id < level)
    (frame : FrameId) : ¬ IsExhausted (evalExpr nodes settings bound id frame machine) := by
  induction bound generalizing room level machine id frame with
  | zero =>
      have none : level = 0 := by omega
      rw [none] at below
      exact absurd below (Nat.not_lt_zero id)
  | succ bound inductionHypothesis =>
      intro exhausted
      rw [evalExpr] at exhausted
      cases here : nodes[id]? with
      | none =>
          rw [here] at exhausted
          obtain ⟨after, halted⟩ := exhausted
          cases halted
      | some node =>
          rw [here] at exhausted
          -- An operand stands earlier in the table.  A body may be anywhere in it, but then
          -- one position for frames less is left.
          rcases exhausted_evalNode (keeps_evalExpr nodes settings bound) roomed exhausted with
            ⟨child, member, between, betweenRoomed, stopped⟩ |
            ⟨fewer, rfl, root, inside, inner, between, betweenRoomed, stopped⟩
          · have older := descending id node here child member
            have less : room * (nodes.size + 1) + id ≤ bound :=
              Nat.le_of_lt_succ (Nat.lt_of_lt_of_le (Nat.add_lt_add_left below _) enough)
            exact inductionHypothesis less betweenRoomed older frame stopped
          · rw [Nat.succ_mul] at enough
            have less : fewer * (nodes.size + 1) + nodes.size ≤ bound := by omega
            exact inductionHypothesis less betweenRoomed inside inner stopped

end Eval

/-! ## Programs -/

namespace Program

theorem approximates_execUpTo (program : Program) (settings : Settings) {bound larger : Nat}
    (le : bound ≤ larger) :
    Eval.Approximates (program.execUpTo settings bound) (program.execUpTo settings larger) := by
  refine (Eval.uniform_approximates.execBlock
    (Eval.approximates_evalExpr program.nodes settings le) Environment.root program.body).bind ?_
  intro flow
  exact .refl _

variable {program : Program} (wellFormed : program.WellFormed)

include wellFormed

/-- No run of a well-formed program is exhausted. -/
theorem WellFormed.not_exhausted (settings : Settings) (output : String) :
    ¬ Eval.IsExhausted (program.run settings output) := by
  intro exhausted
  have roomed : (Machine.initial settings.callLimit output).Roomed program.nodes.size
      (Environment.capacity - 1) := by
    refine ⟨?_, Environment.allFns_empty _⟩
    change Environment.capacity ≤ 1 + (Environment.capacity - 1)
    omega
  have block := exhausted.of_bind_left (fun flow between stopped => ?_)
  · obtain ⟨id, inside, between, betweenRoomed, stopped⟩ := Eval.exhausted_execBlock
      (Eval.keeps_evalExpr program.nodes settings program.nesting) wellFormed.body roomed block
    refine Eval.not_exhausted_evalExpr wellFormed.nodes settings ?_ betweenRoomed inside _ stopped
    have frames : (Environment.capacity - 1 + 1) * (program.nodes.size + 1) = program.nesting := rfl
    rw [Nat.succ_mul] at frames
    omega
  · cases flow with
    | normal => exact absurd stopped (Eval.not_exhausted_pure _ between)
    | returned value =>
        obtain ⟨after, halted⟩ := stopped
        cases halted

/-- The bound on nesting may be taken larger without changing the run. -/
theorem WellFormed.run_eq (settings : Settings) (output : String) {bound : Nat}
    (enough : program.nesting ≤ bound) :
    program.run settings output =
      program.execUpTo settings bound (Machine.initial settings.callLimit output) := by
  have notExhausted := wellFormed.not_exhausted settings output
  rw [Program.run, exec_eq_execUpTo] at notExhausted ⊢
  rcases program.approximates_execUpTo settings enough
      (Machine.initial settings.callLimit output) with exhausted | same
  · exact absurd exhausted notExhausted
  · exact same.symm

end Program

end ScopeScript
