import ScopeScript.Proofs.Lockstep

/-!
Contract: evaluation gives back the frames and the calls that it found.

Owns: agreement of two machines outside one frame, the actions that keep it, and
what expressions, statements, function bodies and whole programs leave behind
when they finish.

An expression keeps everything.  A statement may write to the frame that it is
executed in and to no other.  A call is the one place where frames come and go:
its body keeps everything outside the frame that the call entered, so leaving that
frame gives the caller's machine back, however the body ended.
-/

set_option autoImplicit false

namespace ScopeScript

/-! ## Agreement outside one frame -/

/-- The machines have the same active calls and frames with the same parents, and
they bind the same names everywhere but in the frame `writable`. -/
structure Machine.AgreesOutside (writable : Option FrameId) (before after : Machine) : Prop where
  calls : after.calls = before.calls
  depth : after.environment.depth = before.environment.depth
  frames : ∀ frame : FrameId, writable ≠ some frame →
    after.environment.frames[frame]? = before.environment.frames[frame]?
  parents : ∀ frame : FrameId, (after.environment.frames[frame]?).map Frame.parent =
    (before.environment.frames[frame]?).map Frame.parent

namespace Machine.AgreesOutside

variable {writable : Option FrameId} {before between after : Machine}

theorem refl (writable : Option FrameId) (machine : Machine) :
    machine.AgreesOutside writable machine :=
  ⟨rfl, rfl, fun _ _ => rfl, fun _ => rfl⟩

theorem trans (first : before.AgreesOutside writable between)
    (second : between.AgreesOutside writable after) : before.AgreesOutside writable after where
  calls := second.calls.trans first.calls
  depth := second.depth.trans first.depth
  frames frame outside := (second.frames frame outside).trans (first.frames frame outside)
  parents frame := (second.parents frame).trans (first.parents frame)

/-- Machines that agree everywhere agree outside any frame. -/
theorem weaken (agree : before.AgreesOutside none after) : before.AgreesOutside writable after where
  calls := agree.calls
  depth := agree.depth
  frames frame _ := agree.frames frame (by simp)
  parents := agree.parents

theorem environment_eq (agree : before.AgreesOutside none after) :
    after.environment = before.environment := by
  have sameFrames : after.environment.frames = before.environment.frames := by
    apply Array.ext_getElem?
    intro frame
    exact agree.frames frame (by simp)
  cases beforeEnvironment : before.environment
  cases afterEnvironment : after.environment
  simpa [beforeEnvironment, afterEnvironment] using sameFrames

/-- The output is no part of the agreement. -/
theorem of_eq (environment : after.environment = before.environment)
    (calls : after.calls = before.calls) : before.AgreesOutside writable after where
  calls := calls
  depth := by rw [environment]
  frames _ _ := by rw [environment]
  parents _ := by rw [environment]

/-- A change to the tables of one frame is seen in that frame only. -/
theorem of_modify (machine : Machine) (frame : FrameId) (change : Frame → Frame)
    (sameParent : ∀ entry, (change entry).parent = entry.parent) :
    machine.AgreesOutside (some frame)
      { machine with environment := { frames := machine.environment.frames.modify frame change } }
    where
  calls := rfl
  depth := by simp [Environment.depth]
  frames other outside := by
    have different : frame ≠ other := fun same => outside (congrArg some same)
    simp [Array.getElem?_modify, different]
  parents other := by
    simp only [Array.getElem?_modify]
    split
    · cases machine.environment.frames[other]? <;> simp [sameParent]
    · rfl

theorem of_setVar (machine : Machine) (frame : FrameId) (name : String) (value : Value) :
    machine.AgreesOutside (some frame)
      { machine with environment := machine.environment.setVar frame name value } :=
  of_modify machine frame _ fun _ => rfl

theorem of_setFn (machine : Machine) (frame : FrameId) (definition : FnDef ExprId) :
    machine.AgreesOutside (some frame)
      { machine with environment := machine.environment.setFn frame definition } :=
  of_modify machine frame _ fun _ => rfl

theorem of_setVars (machine : Machine) (frame : FrameId) (bindings : List (String × Value)) :
    machine.AgreesOutside (some frame)
      { machine with environment := machine.environment.setVars frame bindings } := by
  induction bindings generalizing machine with
  | nil => exact refl _ _
  | cons binding rest inductionHypothesis =>
      have head := of_setVar machine frame binding.1 binding.2
      have tail := inductionHypothesis
        { machine with environment := machine.environment.setVar frame binding.1 binding.2 }
      exact head.trans tail

end Machine.AgreesOutside

/-! ## Entering and leaving -/

section Leaving

variable {before after : Machine} {name : String} {parent : FrameId}
  {bindings : List (String × Value)}

/-- The frames below the one that a call entered are the caller's. -/
theorem Machine.AgreesOutside.frames_of_enter {frame : FrameId}
    (agree : (before.enter name parent bindings).AgreesOutside
      (some before.environment.next) after)
    (other : frame ≠ before.environment.next) :
    after.environment.frames[frame]? = before.environment.frames[frame]? := by
  have outside : some before.environment.next ≠ some frame := by
    simpa using Ne.symm other
  have bound := Machine.AgreesOutside.of_setVars
    { before with
      environment := before.environment.push parent
      calls := before.calls.push name }
    before.environment.next bindings
  calc after.environment.frames[frame]?
    _ = (before.enter name parent bindings).environment.frames[frame]? :=
        agree.frames frame outside
    _ = (before.environment.push parent).frames[frame]? := bound.frames frame outside
    _ = before.environment.frames[frame]? := by
        have notLast : frame ≠ before.environment.frames.size := other
        simp [Environment.push, Array.getElem?_push, notLast]

theorem Machine.AgreesOutside.depth_of_enter
    (agree : (before.enter name parent bindings).AgreesOutside
      (some before.environment.next) after) :
    after.environment.depth = before.environment.depth + 1 := by
  have bound := Machine.AgreesOutside.of_setVars
    { before with
      environment := before.environment.push parent
      calls := before.calls.push name }
    before.environment.next bindings
  rw [agree.depth, ← Environment.depth_push before.environment parent]
  exact bound.depth

/-- Leaving the frame that a call entered gives the caller's frames and calls
back, whatever was written to that frame. -/
theorem Machine.AgreesOutside.leave (inhabited : 0 < before.environment.depth)
    (agree : (before.enter name parent bindings).AgreesOutside
      (some before.environment.next) after) :
    before.AgreesOutside none (after.leave before.environment.next) := by
  have deeper := agree.depth_of_enter
  have popped : after.environment.pop before.environment.next = before.environment := by
    have several : 1 < after.environment.frames.size := by
      change 1 < after.environment.depth
      omega
    have sameFrames : after.environment.frames.take before.environment.next =
        before.environment.frames := by
      apply Array.ext_getElem?
      intro frame
      have size : after.environment.frames.size = before.environment.frames.size + 1 := deeper
      have shorter : min before.environment.next after.environment.frames.size =
          before.environment.frames.size := by
        rw [size]
        exact Nat.min_eq_left (Nat.le_succ _)
      rw [Array.take_eq_extract, Array.getElem?_extract, shorter, Nat.sub_zero, Nat.zero_add]
      split
      · rename_i below
        exact agree.frames_of_enter (Nat.ne_of_lt below)
      · rename_i above
        exact (Array.getElem?_eq_none (Nat.le_of_not_lt above)).symm
    rw [Environment.pop, if_pos several, Array.shrink_eq_take, sameFrames]
  have uncalled : after.calls.pop = before.calls := by
    rw [agree.calls]
    exact CallStack.pop_push before.calls name
  exact .of_eq popped uncalled

end Leaving

/-! ## Actions that keep all but one frame -/

/-- The frame that code may write to where it stands. -/
def Site.writable : Site → Option FrameId
  | .expr _ => none
  | .stmt frame => some frame

namespace Eval

variable {α β : Type} {writable : Option FrameId}

/-- When the action finishes, nothing has changed outside the frame `writable`. -/
def Keeps (writable : Option FrameId) (action : Eval α) : Prop :=
  ∀ before after, EndsIn action before after → before.AgreesOutside writable after

/-- An action that never changes the machine keeps everything. -/
theorem keeps_of_unchanged {action : Eval α}
    (unchanged : ∀ machine, (∃ value, action machine = .ok value machine) ∨
      ∃ halt, action machine = .error halt machine) : Keeps writable action := by
  intro before after ended
  have same : after = before := by
    rcases unchanged before with ⟨value, result⟩ | ⟨halt, result⟩
    · rcases ended with ⟨_, ended⟩ | ⟨_, ended⟩
      · rw [result] at ended
        cases ended
        rfl
      · rw [result] at ended
        cases ended
    · rcases ended with ⟨_, ended⟩ | ⟨_, ended⟩
      · rw [result] at ended
        cases ended
      · rw [result] at ended
        cases ended
        rfl
  rw [same]
  exact .refl _ _

theorem Keeps.weaken {action : Eval α} (keeps : Keeps none action) : Keeps writable action :=
  fun before after ended => (keeps before after ended).weaken

theorem keeps_pure (value : α) : Keeps writable (pure value : Eval α) :=
  keeps_of_unchanged fun _ => .inl ⟨value, rfl⟩

theorem Keeps.bind {first : Eval α} {next : α → Eval β} (firstKeeps : Keeps writable first)
    (nextKeeps : ∀ value, Keeps writable (next value)) : Keeps writable (first >>= next) := by
  intro before after ended
  rcases endsIn_bind.mp ended with ⟨reason, failed⟩ | ⟨value, between, returned, ended⟩
  · exact firstKeeps before after (.inr ⟨reason, failed⟩)
  · exact (firstKeeps before between (.inl ⟨value, returned⟩)).trans
      (nextKeeps value between after ended)

theorem keeps_readVar (frame : FrameId) (name : String) : Keeps writable (readVar frame name) := by
  apply keeps_of_unchanged
  intro machine
  rw [readVar_apply]
  cases machine.environment.getVar frame name with
  | found value owner => exact .inl ⟨value, rfl⟩
  | unbound => exact .inr ⟨_, rfl⟩
  | gone => exact .inr ⟨_, rfl⟩

theorem keeps_printLine (line : String) : Keeps writable (printLine line) := by
  intro before after ended
  rcases ended with ⟨_, ended⟩ | ⟨_, ended⟩
  · rw [printLine_apply] at ended
    cases ended
    exact .of_eq rfl rfl
  · rw [printLine_apply] at ended
    cases ended

theorem keeps_raise (cause : Cause) : Keeps writable (raise cause : Eval α) :=
  keeps_of_unchanged fun _ => .inr ⟨.error (.ofCause cause), rfl⟩

theorem keeps_readFn (frame : FrameId) (name : String) : Keeps writable (readFn frame name) := by
  apply keeps_of_unchanged
  intro machine
  rw [readFn_apply]
  cases machine.environment.getFn frame name with
  | found definition owner => exact .inl ⟨(definition, owner), rfl⟩
  | unbound => exact .inr ⟨_, rfl⟩
  | gone => exact .inr ⟨_, rfl⟩

theorem keeps_writeAt {frame : FrameId} {change : Environment → Environment}
    (agrees : ∀ machine : Machine, machine.AgreesOutside (some frame)
      { machine with environment := change machine.environment }) :
    Keeps (some frame) (writeAt frame change) := by
  intro before after ended
  rcases ended with ⟨_, written⟩ | ⟨_, failed⟩
  · obtain ⟨_, rfl⟩ := live_of_writeAt written
    exact agrees before
  · cases fault_of_writeAt failed

theorem keeps_bindVar (frame : FrameId) (name : String) (value : Value) :
    Keeps (some frame) (bindVar frame name value) :=
  keeps_writeAt fun machine => .of_setVar machine frame name value

theorem keeps_bindFn (frame : FrameId) (definition : FnDef ExprId) :
    Keeps (some frame) (bindFn frame definition) :=
  keeps_writeAt fun machine => .of_setFn machine frame definition

/-- The body of a call may write to the frame that the call entered only, so a
call keeps everything. -/
theorem keeps_call (definition : FnDef ExprId) (parent : FrameId) (values : List Value)
    {body : FrameId → Eval Value} (bodies : ∀ frame, Keeps (some frame) (body frame)) :
    Keeps none (call definition parent values body) := by
  intro before after ended
  rcases call_cases definition values body parent before with
    ⟨cause, _, result⟩ | ⟨_, _, result⟩ | ⟨_, framed, result⟩
  · rw [EndsIn, result] at ended
    rcases ended with ⟨_, ended⟩ | ⟨_, ended⟩ <;> cases ended
    exact .refl _ _
  · rw [EndsIn, result] at ended
    rcases ended with ⟨_, ended⟩ | ⟨_, ended⟩ <;> cases ended
  · have inhabited : 0 < before.environment.depth := by
      simp only [Bool.and_eq_true, Environment.isLive, decide_eq_true_eq] at framed
      exact Nat.lt_of_le_of_lt (Nat.zero_le parent) framed.1
    have kept := bodies before.environment.next
      (before.enter definition.name parent (definition.params.zip values))
    rw [EndsIn, result] at ended
    cases run : body before.environment.next
        (before.enter definition.name parent (definition.params.zip values)) with
    | ok value inner =>
        rw [inCall_of_ok _ run] at ended
        rcases ended with ⟨_, ended⟩ | ⟨_, ended⟩ <;> cases ended
        exact (kept inner (.inl ⟨value, run⟩)).leave inhabited
    | error halt inner =>
        rw [inCall_of_error _ run] at ended
        rcases ended with ⟨_, ended⟩ | ⟨reason, ended⟩
        · cases ended
        · have error : halt.IsError := by
            rw [← Halt.isError_traced halt inner.calls]
            exact ⟨reason, (EStateM.Result.error.inj ended).1⟩
          obtain ⟨cause, rfl⟩ := error
          rw [← (EStateM.Result.error.inj ended).2]
          exact (kept inner (.inr ⟨cause, run⟩)).leave inhabited

/-! ## Evaluation -/

theorem lockstep_keeps (settings : Settings) :
    Lockstep .same (host settings) (host settings) fun _ _ site action _ =>
      Keeps site.writable action where
  lawful := Likeness.lawful_same _
  pure _ := keeps_pure _
  bind first next := first.bind fun value => next value (Valued.all_true value)
  inStmt kept := kept.weaken
  bindVar frame name _ value _ _ := keeps_bindVar frame name value
  bindFn frame definition _ _ := keeps_bindFn frame definition
  fault _ := keeps_of_unchanged fun _ => .inr ⟨.fault, rfl⟩
  exhausted _ := keeps_of_unchanged fun _ => .inr ⟨.exhausted, rfl⟩
  raise _ _ _ := keeps_raise _
  readVar frame name _ _ _ := keeps_readVar frame name
  readFn frame callee _ _ _ _ _ _ next :=
    ((keeps_readFn frame callee).bind fun _ => keeps_pure _).bind fun found =>
      next found.1 found.1 found.2 rfl trivial
  print _ _ _ := keeps_printLine _
  call _ _ _ bodies := keeps_call _ _ _ bodies

section Layer

variable {eval : Evaluator} (neutral : ∀ id frame, Keeps none (eval id frame))

include neutral

theorem keeps_evalAll (frame : FrameId) (ids : List ExprId) :
    Keeps none (evalAll eval frame ids) :=
  (lockstep_keeps .default).evalAll_self Likeness.sameCode_same eval eval neutral frame ids

theorem keeps_execStmt (frame : FrameId) (stmt : Stmt ExprId) :
    Keeps (some frame) (execStmt eval frame stmt) :=
  (lockstep_keeps .default).execStmt_self Likeness.sameCode_same eval eval neutral frame stmt

theorem keeps_execBlock (frame : FrameId) (body : List (Stmt ExprId)) :
    Keeps (some frame) (execBlock eval frame body) :=
  (lockstep_keeps .default).execBlock_self Likeness.sameCode_same eval eval neutral frame body

end Layer

/-- However deep expressions may be nested, evaluating one keeps everything. -/
theorem keeps_evalExpr (nodes : Array Node) (settings : Settings) (bound : Nat) (id : ExprId)
    (frame : FrameId) : Keeps none (evalExpr nodes settings bound id frame) :=
  (lockstep_keeps settings).evalExpr_self Likeness.sameCode_same (fun _ _ => trivial) bound id
    frame

end Eval

/-! ## Statements and programs -/

/-- The variable that a statement binds. -/
def Stmt.boundVar? {ε : Type} : Stmt ε → Option String
  | .letBind name _ => some name
  | .fnDef .. | .ret _ | .expr _ => none

/-- The function that a statement binds. -/
def Stmt.boundFn? {ε : Type} : Stmt ε → Option String
  | .fnDef name _ _ => some name
  | .letBind .. | .ret _ | .expr _ => none

/-- Of all entries of all frames only the variable `boundVar?` and the function
`boundFn?` of one frame may differ. -/
structure Environment.DiffersAtMost (frame : FrameId) (boundVar? boundFn? : Option String)
    (before after : Environment) : Prop where
  depth : after.depth = before.depth
  others : ∀ other : FrameId, other ≠ frame → after.frames[other]? = before.frames[other]?
  parent : (after.frames[frame]?).map Frame.parent = (before.frames[frame]?).map Frame.parent
  vars : ∀ name, boundVar? ≠ some name →
    (after.frames[frame]?).map (fun entry => entry.vars.get? name) =
      (before.frames[frame]?).map fun entry => entry.vars.get? name
  fns : ∀ name, boundFn? ≠ some name →
    (after.frames[frame]?).map (fun entry => entry.fns.get? name) =
      (before.frames[frame]?).map fun entry => entry.fns.get? name

namespace Environment

theorem DiffersAtMost.refl (frame : FrameId) (boundVar? boundFn? : Option String)
    (environment : Environment) :
    environment.DiffersAtMost frame boundVar? boundFn? environment :=
  ⟨rfl, fun _ _ => rfl, rfl, fun _ _ => rfl, fun _ _ => rfl⟩

theorem differsAtMost_setVar (environment : Environment) (frame : FrameId) (name : String)
    (value : Value) :
    environment.DiffersAtMost frame (some name) none (environment.setVar frame name value) where
  depth := depth_setVar environment frame name value
  others other different := by
    simp [setVar, Array.getElem?_modify, Ne.symm different]
  parent := by
    cases here : environment.frames[frame]? <;> simp [setVar, Array.getElem?_modify, here]
  vars other different := by
    have distinct : other ≠ name := fun same => different (congrArg some same.symm)
    cases here : environment.frames[frame]? <;>
      simp [setVar, Array.getElem?_modify, here, distinct]
  fns other _ := by
    cases here : environment.frames[frame]? <;> simp [setVar, Array.getElem?_modify, here]

theorem differsAtMost_setFn (environment : Environment) (frame : FrameId)
    (definition : FnDef ExprId) :
    environment.DiffersAtMost frame none (some definition.name)
      (environment.setFn frame definition) where
  depth := depth_setFn environment frame definition
  others other different := by
    simp [setFn, Array.getElem?_modify, Ne.symm different]
  parent := by
    cases here : environment.frames[frame]? <;> simp [setFn, Array.getElem?_modify, here]
  vars other _ := by
    cases here : environment.frames[frame]? <;> simp [setFn, Array.getElem?_modify, here]
  fns other different := by
    have distinct : other ≠ definition.name := fun same => different (congrArg some same.symm)
    cases here : environment.frames[frame]? <;>
      simp [setFn, Array.getElem?_modify, here, distinct]

end Environment

namespace Eval

variable {eval : Evaluator} {frame : FrameId} {before after : Machine}

theorem differsAtMost_of_execStmt (neutral : ∀ id frame, Keeps none (eval id frame))
    {stmt : Stmt ExprId} {flow : Flow}
    (completed : execStmt eval frame stmt before = .ok flow after) :
    before.environment.DiffersAtMost frame stmt.boundVar? stmt.boundFn? after.environment := by
  have done := execStmt_ok completed
  cases stmt with
  | letBind name value =>
      obtain ⟨_, bound, between, evaluated, _, rfl⟩ := done
      have kept := (neutral value frame before between (.inl ⟨bound, evaluated⟩)).environment_eq
      rw [← kept]
      exact between.environment.differsAtMost_setVar frame name bound
  | fnDef name params body =>
      obtain ⟨_, _, rfl⟩ := done
      exact before.environment.differsAtMost_setFn frame { name, params, body }
  | ret value =>
      obtain ⟨bound, _, evaluated⟩ := done
      rw [(neutral value frame before after (.inl ⟨bound, evaluated⟩)).environment_eq]
      exact .refl _ _ _ _
  | expr value =>
      obtain ⟨_, bound, evaluated⟩ := done
      rw [(neutral value frame before after (.inl ⟨bound, evaluated⟩)).environment_eq]
      exact .refl _ _ _ _

/-- A statement that fails has evaluated its expression and written nothing. -/
theorem agrees_of_execStmt_error (neutral : ∀ id frame, Keeps none (eval id frame))
    {stmt : Stmt ExprId} {reason : RuntimeError}
    (failed : execStmt eval frame stmt before = .error (.error reason) after) :
    before.AgreesOutside none after := by
  rcases execStmt_error failed with fault | ⟨value, failed⟩
  · cases fault
  · exact neutral value frame before after (.inr ⟨reason, failed⟩)

theorem agrees_of_execStmt_returned (neutral : ∀ id frame, Keeps none (eval id frame))
    {stmt : Stmt ExprId} {result : Value}
    (returned : execStmt eval frame stmt before = .ok (.returned result) after) :
    before.AgreesOutside none after := by
  have done := execStmt_ok returned
  cases stmt with
  | letBind name value => cases done.1
  | fnDef name params body => cases done.1
  | ret value =>
      obtain ⟨bound, _, evaluated⟩ := done
      exact neutral value frame before after (.inl ⟨bound, evaluated⟩)
  | expr value => cases done.1

/-- The statements complete one after the other and none of them returns. -/
inductive Completes (eval : Evaluator) (frame : FrameId) :
    List (Stmt ExprId) → Machine → Machine → Prop where
  | nil (machine : Machine) : Completes eval frame [] machine machine
  | cons {stmt : Stmt ExprId} {rest : List (Stmt ExprId)} {before between after : Machine}
      (first : execStmt eval frame stmt before = .ok .normal between)
      (others : Completes eval frame rest between after) :
      Completes eval frame (stmt :: rest) before after

theorem Completes.calls_eq (neutral : ∀ id frame, Keeps none (eval id frame))
    {stmts : List (Stmt ExprId)} (completes : Completes eval frame stmts before after) :
    after.calls = before.calls := by
  induction completes with
  | nil machine => rfl
  | @cons stmt rest before between after first others inductionHypothesis =>
      have kept := keeps_execStmt neutral frame stmt before between (.inl ⟨.normal, first⟩)
      exact inductionHypothesis.trans kept.calls

/-- A block that stops early does so in one of its statements, and all statements
before that one have completed. -/
theorem execBlock_stops {body : List (Stmt ExprId)} {result : EStateM.Result Halt Machine Flow}
    (stopped : execBlock eval frame body before = result)
    (early : ∀ machine, result ≠ .ok .normal machine) :
    ∃ done last rest between, body = done ++ last :: rest ∧
      Completes eval frame done before between ∧
      execStmt eval frame last between = result := by
  induction body generalizing before with
  | nil => exact absurd stopped.symm (early before)
  | cons stmt rest inductionHypothesis =>
      cases first : execStmt eval frame stmt before with
      | error halt between =>
          rw [execBlock_cons_of_error rest first] at stopped
          exact ⟨[], stmt, rest, before, rfl, .nil before, first.trans stopped⟩
      | ok flow between =>
          cases flow with
          | normal =>
              rw [execBlock_cons_of_normal rest first] at stopped
              obtain ⟨done, last, others, inner, rfl, completes, stopped⟩ :=
                inductionHypothesis stopped
              exact ⟨stmt :: done, last, others, inner, rfl, .cons first completes, stopped⟩
          | returned value =>
              rw [execBlock_cons_of_returned rest first] at stopped
              exact ⟨[], stmt, rest, before, rfl, .nil before, first.trans stopped⟩

end Eval

/-- A program fails in one of its top-level statements, which failed itself or
returned, after all statements before it have completed. -/
theorem Program.exec_error {program : Program} {settings : Settings} {before after : Machine}
    {reason : RuntimeError}
    (failed : program.exec settings before = .error (.error reason) after) :
    ∃ done last rest between, program.body = done ++ last :: rest ∧
      Eval.Completes (program.evalExpr settings) Environment.root done before between ∧
      (program.execStmt settings Environment.root last between = .error (.error reason) after ∨
        reason = .ofCause .returnOutsideFunction ∧
          ∃ value, program.execStmt settings Environment.root last between =
            .ok (.returned value) after) := by
  rcases Eval.bind_eq_error.mp failed with failed | ⟨flow, inner, block, raised⟩
  · obtain ⟨done, last, rest, between, split, completes, stopped⟩ :=
      Eval.execBlock_stops failed (by simp)
    exact ⟨done, last, rest, between, split, completes, .inl stopped⟩
  · cases flow with
    | normal => cases raised
    | returned value =>
        cases raised
        obtain ⟨done, last, rest, between, split, completes, stopped⟩ :=
          Eval.execBlock_stops block (by simp)
        exact ⟨done, last, rest, between, split, completes, .inr ⟨rfl, value, stopped⟩⟩

/-- Evaluation gives back the frames and calls that it found.  An expression that
finishes has changed no frame and no active call.  A function body that finishes
leaves one frame more than its call found, which is the frame that the call
entered, and leaving it restores the caller.  A statement that fails has changed
nothing, and one that completes has changed at most the entry that it binds in its
own frame.  A program that fails leaves the bindings of the top-level statements
that completed before. -/
theorem evaluation_restores_frames (program : Program) (settings : Settings) (before : Machine)
    (frame : FrameId) :
    (∀ id after, Eval.EndsIn (program.evalExpr settings id frame) before after →
      after.environment = before.environment ∧ after.calls = before.calls) ∧
    (∀ (definition : FnDef ExprId) (parent : FrameId) (bindings : List (String × Value)) after,
      before.environment.isLive parent = true →
      Eval.EndsIn
        (Eval.execBlock (program.evalExpr settings) before.environment.next definition.body)
        (before.enter definition.name parent bindings) after →
      after.environment.depth = before.environment.depth + 1 ∧
        after.environment.pop before.environment.next = before.environment ∧
        after.calls.pop = before.calls) ∧
    (∀ stmt reason after,
      program.execStmt settings frame stmt before = .error (.error reason) after →
      after.environment = before.environment ∧ after.calls = before.calls) ∧
    (∀ stmt flow after, program.execStmt settings frame stmt before = .ok flow after →
      before.environment.DiffersAtMost frame stmt.boundVar? stmt.boundFn? after.environment ∧
        after.calls = before.calls) ∧
    (∀ reason after, program.exec settings before = .error (.error reason) after →
      ∃ done last rest between, program.body = done ++ last :: rest ∧
        Eval.Completes (program.evalExpr settings) Environment.root done before between ∧
        (program.execStmt settings Environment.root last between = .error (.error reason) after ∨
          reason = .ofCause .returnOutsideFunction ∧
            ∃ value, program.execStmt settings Environment.root last between =
              .ok (.returned value) after) ∧
        after.environment = between.environment ∧ after.calls = before.calls) := by
  have neutral : ∀ id frame, Eval.Keeps none (program.evalExpr settings id frame) :=
    Eval.keeps_evalExpr program.nodes settings program.nesting
  refine ⟨?_, ?_, ?_, ?_, ?_⟩
  · intro id after ended
    have agree := neutral id frame before after ended
    exact ⟨agree.environment_eq, agree.calls⟩
  · intro definition parent bindings after live ended
    have inhabited : 0 < before.environment.depth :=
      Nat.lt_of_le_of_lt (Nat.zero_le parent) (of_decide_eq_true live)
    have agree := Eval.keeps_execBlock neutral before.environment.next definition.body _ _ ended
    have left := agree.leave inhabited
    exact ⟨agree.depth_of_enter, left.environment_eq, left.calls⟩
  · intro stmt reason after failed
    have agree := Eval.agrees_of_execStmt_error neutral failed
    exact ⟨agree.environment_eq, agree.calls⟩
  · intro stmt flow after completed
    have agree := Eval.keeps_execStmt neutral frame stmt before after (.inl ⟨flow, completed⟩)
    exact ⟨Eval.differsAtMost_of_execStmt neutral completed, agree.calls⟩
  · intro reason after failed
    obtain ⟨done, last, rest, between, split, completes, stopped⟩ := Program.exec_error failed
    have agree : between.AgreesOutside none after := by
      rcases stopped with failed | ⟨_, value, returned⟩
      · exact Eval.agrees_of_execStmt_error neutral failed
      · exact Eval.agrees_of_execStmt_returned neutral returned
    exact ⟨done, last, rest, between, split, completes, stopped, agree.environment_eq,
      agree.calls.trans (completes.calls_eq neutral)⟩

end ScopeScript
