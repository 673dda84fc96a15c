import ScopeScript.Proofs.Moments

/-!
Contract: a run that succeeds succeeds in the same way on machines of another form.

Owns: other forms of frames and active calls, what makes them fit for the moments that a
run reaches, and the run on machines of that form.

Only what a run comes to has to be found again in the other form.  So the conditions on
look-ups and on calls speak of the moments of the first run, and the proof follows the
evaluator together with these moments.
-/

set_option autoImplicit false

namespace ScopeScript

/-- Another form of the frames and of the active calls. -/
structure Recast where
  frames : Environment → Environment
  calls : CallStack → CallStack

/-- The machine in the other form.  What is printed is the same. -/
def Recast.apply (recast : Recast) (machine : Machine) : Machine where
  environment := recast.frames machine.environment
  calls := recast.calls machine.calls
  output := machine.output

/-- Writing, entering and leaving do the same in both forms, and what a run with the first
settings finds and enters is found and entered with the other settings. -/
structure Recast.Fits (recast : Recast) (program : Program) (settings other : Settings)
    (output : String) : Prop where
  depth : ∀ environment, (recast.frames environment).depth = environment.depth
  setVar : ∀ environment frame name value,
    recast.frames (environment.setVar frame name value) =
      (recast.frames environment).setVar frame name value
  setFn : ∀ environment frame definition,
    recast.frames (environment.setFn frame definition) =
      (recast.frames environment).setFn frame definition
  pop : ∀ environment frame,
    recast.frames (environment.pop frame) = (recast.frames environment).pop frame
  /-- Calls are made from the last frame. -/
  push : ∀ (environment : Environment) (frame owner : FrameId), environment.depth = frame + 1 →
    recast.frames (environment.push (Eval.callParent settings frame owner)) =
      (recast.frames environment).push (Eval.callParent other frame owner)
  popCall : ∀ calls, recast.calls calls.pop = (recast.calls calls).pop
  pushCall : ∀ calls name, recast.calls (calls.push name) = (recast.calls calls).push name
  getVar : ∀ moment, program.Reaches settings output moment → ∀ name value owner,
    moment.machine.environment.getVar moment.frame name = .found value owner →
      ∃ holder, (recast.frames moment.machine.environment).getVar moment.frame name =
        .found value holder
  getFn : ∀ moment, program.Reaches settings output moment → ∀ name definition owner,
    moment.machine.environment.getFn moment.frame name = .found definition owner →
      (recast.frames moment.machine.environment).getFn moment.frame name =
        .found definition owner
  admits : ∀ moment, program.Reaches settings output moment → ∀ (calls : CallStack) (name : String),
    moment.machine.calls = calls.push name → calls.refusal? = none →
      (recast.calls calls).refusal? = none

namespace Recast.Fits

variable {recast : Recast} {program : Program} {settings other : Settings} {output : String}

theorem isLive (fits : recast.Fits program settings other output) (environment : Environment)
    (frame : FrameId) : (recast.frames environment).isLive frame = environment.isLive frame := by
  have same : (recast.frames environment).frames.size = environment.frames.size :=
    fits.depth environment
  rw [Environment.isLive, Environment.isLive, same]

theorem hasRoom (fits : recast.Fits program settings other output) (environment : Environment) :
    (recast.frames environment).hasRoom = environment.hasRoom := by
  have same : (recast.frames environment).frames.size = environment.frames.size :=
    fits.depth environment
  rw [Environment.hasRoom, Environment.hasRoom, same]

theorem setVars (fits : recast.Fits program settings other output) (environment : Environment)
    (frame : FrameId) (bindings : List (String × Value)) :
    recast.frames (environment.setVars frame bindings) =
      (recast.frames environment).setVars frame bindings := by
  induction bindings generalizing environment with
  | nil => rfl
  | cons binding rest inductionHypothesis =>
      have later := inductionHypothesis (environment.setVar frame binding.1 binding.2)
      rw [fits.setVar] at later
      exact later

theorem enter (fits : recast.Fits program settings other output) {machine : Machine}
    {frame : FrameId} (last : machine.environment.depth = frame + 1) (owner : FrameId)
    (name : String) (bindings : List (String × Value)) :
    recast.apply (machine.enter name (Eval.callParent settings frame owner) bindings) =
      (recast.apply machine).enter name (Eval.callParent other frame owner) bindings := by
  have next : (recast.frames machine.environment).next = machine.environment.next :=
    fits.depth machine.environment
  simp only [apply, Machine.enter, fits.setVars, fits.push _ _ _ last, fits.pushCall, next]

theorem leave (fits : recast.Fits program settings other output) (machine : Machine)
    (frame : FrameId) :
    recast.apply (machine.leave frame) = (recast.apply machine).leave frame := by
  simp only [apply, Machine.leave, fits.pop, fits.popCall]

end Recast.Fits

/-! ## One layer of evaluation -/

namespace Eval

/-- Where a run comes to an expression and the first evaluator gives it a value, the second
one does so in the other form. -/
def Follows (recast : Recast) (program : Program) (settings : Settings) (output : String)
    (first second : Evaluator) : Prop :=
  ∀ id frame machine active, program.Reaches settings output ⟨.expr id, frame, machine, active⟩ →
    ∀ value after, first id frame machine = .ok value after →
      second id frame (recast.apply machine) = .ok value (recast.apply after)

section Layer

variable {recast : Recast} {program : Program} {settings other : Settings} {output : String}
  {first second : Evaluator} {frame : FrameId} {active : List (FnDef ExprId)}
  {machine after : Machine}

theorem follows_evalAll
    (approximates : ∀ id frame, Approximates (first id frame) (program.evalExpr settings id frame))
    (follows : Follows recast program settings output first second) {ids : List ExprId}
    {values : List Value}
    (reached : program.Reaches settings output ⟨.exprs ids, frame, machine, active⟩)
    (result : evalAll first frame ids machine = .ok values after) :
    evalAll second frame ids (recast.apply machine) = .ok values (recast.apply after) := by
  induction ids generalizing machine values with
  | nil =>
      cases result
      rfl
  | cons id rest inductionHypothesis =>
      obtain ⟨value, others, between, rfl, evaluated, others_ok⟩ := evalAll_cons_ok result
      have head := follows id frame machine active (reached.step .firstExpr) value between evaluated
      have tail := inductionHypothesis
        (reached.step (.nextExprs ((approximates id frame).ok evaluated))) others_ok
      rw [evalAll, bind_of_ok _ head, bind_of_ok _ tail]
      rfl

theorem follows_execStmt (fits : recast.Fits program settings other output)
    (follows : Follows recast program settings output first second) {stmt : Stmt ExprId}
    {flow : Flow} (reached : program.Reaches settings output ⟨.stmt stmt, frame, machine, active⟩)
    (result : execStmt first frame stmt machine = .ok flow after) :
    execStmt second frame stmt (recast.apply machine) = .ok flow (recast.apply after) := by
  have done := execStmt_ok result
  have value {id : ExprId} {bound : Value} {between : Machine} (own : stmt.value? = some id)
      (evaluated : first id frame machine = .ok bound between) :=
    follows id frame machine active (reached.step (.value own)) bound between evaluated
  cases stmt with
  | letBind name id =>
      obtain ⟨rfl, bound, between, evaluated, live, rfl⟩ := done
      have otherLive : (recast.apply between).environment.isLive frame = true :=
        (fits.isLive between.environment frame).trans live
      rw [execStmt, bind_of_ok _ (value rfl evaluated), bindVar,
        bind_of_ok _ (writeAt_of_live _ otherLive)]
      simp only [Recast.apply, fits.setVar]
      rfl
  | fnDef name params body =>
      obtain ⟨rfl, live, rfl⟩ := done
      have otherLive : (recast.apply machine).environment.isLive frame = true :=
        (fits.isLive machine.environment frame).trans live
      rw [execStmt, bindFn, bind_of_ok _ (writeAt_of_live _ otherLive)]
      simp only [Recast.apply, fits.setFn]
      rfl
  | ret id =>
      obtain ⟨bound, rfl, evaluated⟩ := done
      rw [execStmt, bind_of_ok _ (value rfl evaluated)]
      rfl
  | expr id =>
      obtain ⟨rfl, bound, evaluated⟩ := done
      rw [execStmt, bind_of_ok _ (value rfl evaluated)]
      rfl

theorem follows_execBlock (fits : recast.Fits program settings other output)
    (approximates : ∀ id frame, Approximates (first id frame) (program.evalExpr settings id frame))
    (follows : Follows recast program settings output first second) {stmts : List (Stmt ExprId)}
    {flow : Flow}
    (reached : program.Reaches settings output ⟨.block stmts, frame, machine, active⟩)
    (result : execBlock first frame stmts machine = .ok flow after) :
    execBlock second frame stmts (recast.apply machine) = .ok flow (recast.apply after) := by
  induction stmts generalizing machine with
  | nil =>
      cases result
      rfl
  | cons stmt rest inductionHypothesis =>
      rcases execBlock_cons_ok result with ⟨value, returned, rfl⟩ | ⟨between, normal, others⟩
      · exact execBlock_cons_of_returned rest
          (follows_execStmt fits follows (reached.step .firstStmt) returned)
      · have again := (approximates_execStmt approximates frame stmt).ok normal
        rw [execBlock_cons_of_normal rest
          (follows_execStmt fits follows (reached.step .firstStmt) normal)]
        exact inductionHypothesis (reached.step (.nextStmts again)) others

/-- A call that is entered in the one form is entered in the other. -/
theorem follows_callWith (fits : recast.Fits program settings other output)
    (approximates : ∀ id frame, Approximates (first id frame) (program.evalExpr settings id frame))
    (follows : Follows recast program settings output first second) {id : ExprId}
    {callee : String} {args : List ExprId} {definition : FnDef ExprId} {owner : FrameId}
    {between : Machine} {values : List Value} {value : Value}
    (reached : program.Reaches settings output ⟨.expr id, frame, machine, active⟩)
    (here : program.nodes[id]? = some (.call callee args)) (user : callee ≠ printName)
    (found : machine.environment.getFn frame callee = .found definition owner)
    (evaluated : evalAll (program.evalExpr settings) frame (args.take definition.params.length)
      machine = .ok values between)
    (called : callWith first definition (callParent settings frame owner) values between =
      .ok value after) :
    callWith second definition (callParent other frame owner) values (recast.apply between) =
      .ok value (recast.apply after) := by
  obtain ⟨admitted, framed, flow, inner, body, rfl, rfl⟩ := callWith_ok called
  have entered := reached.step (.body here user found evaluated admitted framed)
  have standing := Moment.Framed.of_reaches reached
  have agree := Program.agrees_of_evalAll evaluated
  have last : between.environment.depth = frame + 1 := by
    rw [agree.depth, standing.depth, ← standing.last]
  have otherAdmitted : (recast.apply between).calls.refusal? = none :=
    fits.admits _ entered between.calls definition.name rfl admitted
  have otherFramed : ((recast.apply between).environment.isLive (callParent other frame owner) &&
      (recast.apply between).environment.hasRoom) = true := by
    obtain ⟨frameLive, ownerLive, _⟩ := Environment.lookup_found standing.ordered found
    refine Bool.and_eq_true_iff.mpr ⟨(fits.isLive between.environment _).trans ?_,
      (fits.hasRoom between.environment).trans (Bool.and_eq_true_iff.mp framed).2⟩
    rw [agree.environment_eq, Environment.isLive_iff]
    unfold callParent
    cases other.scoping with
    | dynamic => exact frameLive
    | lexical => exact ownerLive
  have otherBody := follows_execBlock fits approximates follows entered body
  rw [fits.enter last] at otherBody
  have next : (recast.apply between).environment.next = between.environment.next :=
    fits.depth between.environment
  have run : runBody second between.environment.next definition.body
      ((recast.apply between).enter definition.name (callParent other frame owner)
        (definition.params.zip values)) = .ok flow.result (recast.apply inner) := by
    rw [runBody, bind_of_ok _ otherBody]
    rfl
  rw [callWith_of_entered _ _ _ otherAdmitted otherFramed, next, inCall_of_ok _ run, fits.leave]

/-- What is left to do for a node is done in the other form. -/
theorem follows_complete (fits : recast.Fits program settings other output)
    (approximates : ∀ id frame, Approximates (first id frame) (program.evalExpr settings id frame))
    (follows : Follows recast program settings output first second) {id : ExprId} {node : Node}
    {between : Machine} {values : List Value} {value : Value}
    (reached : program.Reaches settings output ⟨.expr id, frame, machine, active⟩)
    (here : program.nodes[id]? = some node)
    (evaluated : evalAll first frame (node.operands machine.environment frame) machine =
      .ok values between)
    (completed : node.complete settings first machine.environment frame values between =
      .ok value after) :
    node.operands (recast.apply machine).environment frame =
        node.operands machine.environment frame ∧
      node.complete other second (recast.apply machine).environment frame values
        (recast.apply between) = .ok value (recast.apply after) := by
  cases node with
  | number content =>
      cases completed
      exact ⟨rfl, rfl⟩
  | text content =>
      cases completed
      exact ⟨rfl, rfl⟩
  | ident name =>
      cases evaluated
      refine ⟨rfl, ?_⟩
      simp only [Node.complete, readVar_apply] at completed ⊢
      split at completed
      · rename_i found
        cases completed
        obtain ⟨holder, otherFound⟩ := fits.getVar _ reached name _ _ found
        have here : (recast.apply machine).environment.getVar frame name = .found _ holder :=
          otherFound
        rw [here]
      · cases completed
      · cases completed
  | binary op left right =>
      obtain ⟨leftValue, others, _, rfl, _, evaluated⟩ := evalAll_cons_ok evaluated
      obtain ⟨rightValue, others, _, rfl, _, evaluated⟩ := evalAll_cons_ok evaluated
      cases evaluated
      refine ⟨rfl, ?_⟩
      simp only [Node.complete, ofExcept_apply] at completed ⊢
      split at completed
      · cases completed
        rfl
      · cases completed
  | call callee args =>
      by_cases builtin : callee = printName
      · simp only [Node.operands, Node.complete, builtin, if_true] at completed ⊢
        cases completed
        exact ⟨trivial, rfl⟩
      · cases found : machine.environment.getFn frame callee with
        | found definition owner =>
            have otherFound : (recast.apply machine).environment.getFn frame callee =
                .found definition owner :=
              fits.getFn _ reached callee definition owner found
            rw [Node.operands_of_found _ builtin found] at evaluated ⊢
            rw [Node.complete_of_found _ _ _ builtin found] at completed
            rw [Node.operands_of_found _ builtin otherFound,
              Node.complete_of_found _ _ _ builtin otherFound]
            exact ⟨rfl, follows_callWith fits approximates follows reached here builtin found
              ((approximates_evalAll approximates _ _).ok evaluated) completed⟩
        | unbound =>
            rw [Node.complete_of_unbound _ _ _ builtin found] at completed
            cases completed
        | gone =>
            rw [Node.complete_of_gone _ _ _ builtin found] at completed
            cases completed

end Layer

/-! ## Programs -/

theorem follows_evalExpr {recast : Recast} {program : Program} {settings other : Settings}
    {output : String} (fits : recast.Fits program settings other output) {bound : Nat}
    (enough : bound ≤ program.nesting) :
    Follows recast program settings output (evalExpr program.nodes settings bound)
      (evalExpr program.nodes other bound) := by
  induction bound with
  | zero => exact fun _ _ _ _ _ _ _ result => nomatch result
  | succ smaller inductionHypothesis =>
      intro id frame machine active reached value after result
      have smallerEnough := Nat.le_of_succ_le enough
      have approximates : ∀ id frame,
          Approximates (evalExpr program.nodes settings smaller id frame)
            (program.evalExpr settings id frame) := Moment.approximates smallerEnough
      have follows := inductionHypothesis smallerEnough
      cases here : program.nodes[id]? with
      | none =>
          rw [evalExpr, here] at result
          cases result
      | some node =>
          obtain ⟨_, values, between, same, evaluated, completed⟩ := evalExpr_ok here result
          cases same
          have operands :=
            follows_evalAll approximates follows (reached.step (.operands here)) evaluated
          obtain ⟨same, rest⟩ :=
            follows_complete fits approximates follows reached here evaluated completed
          rw [evalExpr, here]
          simp only
          rw [evalNode_apply, same, bind_of_ok _ operands]
          exact rest

end Eval

/-- A run that succeeds succeeds in the other form. -/
theorem Recast.Fits.run {recast : Recast} {program : Program} {settings other : Settings}
    {output : String} (fits : recast.Fits program settings other output) {after : Machine}
    (initial : recast.apply (Machine.initial settings.callLimit output) =
      Machine.initial other.callLimit output)
    (succeeded : program.run settings output = .ok () after) :
    program.run other output = .ok () (recast.apply after) := by
  obtain ⟨flow, inner, block, ended⟩ := Eval.bind_eq_ok.mp succeeded
  have otherBlock : Eval.execBlock (program.evalExpr other) Environment.root program.body
      (Machine.initial other.callLimit output) = .ok flow (recast.apply inner) := by
    rw [← initial]
    exact Eval.follows_execBlock fits (Moment.approximates (Nat.le_refl _))
      (Eval.follows_evalExpr fits (Nat.le_refl _)) Relation.ReflTransGen.refl block
  rw [Program.run, Program.exec, Eval.bind_of_ok _ otherBlock]
  cases flow with
  | normal =>
      cases ended
      rfl
  | returned value => cases ended

end ScopeScript
