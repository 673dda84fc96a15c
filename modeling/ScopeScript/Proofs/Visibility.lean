import ScopeScript.Proofs.Chains

/-!
Contract: evaluation depends on nothing but the visible chain.

Owns: machines that look alike from two frames, outcomes of two runs that agree, the
layers of evaluation that keep them agreeing, and the theorem on expressions and on
calls under lexical scoping.

The two runs go in lock-step.  Their frames stand at different positions and have
different parents, so the relation between them is that the chains correspond; it is
kept by entering a frame on corresponding parents and by writing to the heads of the
chains.  One difference cannot be hidden: an environment with more frames comes first to
the end of the positions.
-/

set_option autoImplicit false

namespace ScopeScript

/-! ## Machines that look alike -/

/-- The frames bind the same names to the same entries. -/
def Frame.SameBindings (left right : Frame) : Prop :=
  (∀ name, left.vars.get? name = right.vars.get? name) ∧
    ∀ name, left.fns.get? name = right.fns.get? name

/-- The chains from the two frames have the same length and pairwise the same bindings. -/
def Environment.SameChain (first : Environment) (left : FrameId) (second : Environment)
    (right : FrameId) : Prop :=
  List.Forall₂ (fun leftLink rightLink => Frame.SameBindings leftLink.2 rightLink.2)
    (first.chain left) (second.chain right)

namespace CallStack

/-- The number of calls that may still be entered; `none` is no limit. -/
def remaining? (calls : CallStack) : Option Nat :=
  calls.limit.map (· - calls.depth)

/-- The limit is the same and so is the number of calls that it still admits. -/
def SameBudget (first second : CallStack) : Prop :=
  first.limit = second.limit ∧ first.remaining? = second.remaining?

theorem SameBudget.refusal?_eq {first second : CallStack} (budget : first.SameBudget second) :
    first.refusal? = second.refusal? := by
  obtain ⟨limits, rest⟩ := budget
  unfold remaining? at rest
  unfold refusal?
  rw [limits] at rest ⊢
  cases limited : second.limit with
  | none => rfl
  | some limit =>
      simp only [limited, Option.map_some, Option.some.injEq] at rest
      have sameSide : first.depth < limit ↔ second.depth < limit := by omega
      simp only [sameSide]

theorem SameBudget.push {first second : CallStack} (budget : first.SameBudget second)
    (firstName secondName : String) :
    (first.push firstName).SameBudget (second.push secondName) := by
  obtain ⟨limits, rest⟩ := budget
  refine ⟨limits, ?_⟩
  unfold remaining? at rest ⊢
  change first.limit.map _ = second.limit.map _
  rw [limits] at rest ⊢
  cases limited : second.limit with
  | none => rfl
  | some limit =>
      simp only [limited, Option.map_some, Option.some.injEq, depth_push] at rest ⊢
      omega

end CallStack

namespace Machine

/-- Seen from the two frames the machines bind the same names, and they admit the same
number of calls. -/
structure SameView (left right : FrameId) (first second : Machine) : Prop where
  chains : Environment.ChainsMatch Frame.SameBindings first.environment second.environment
    left right
  budget : first.calls.SameBudget second.calls

/-- There is a position for the frame of every call that the limit still admits. -/
def RoomForCalls (machine : Machine) : Prop :=
  ∃ limit, machine.calls.limit = some limit ∧
    machine.environment.depth + limit ≤ Environment.capacity + machine.calls.depth

/-- The machine has more frames than the other and may run out of positions. -/
def FullBefore (machine other : Machine) : Prop :=
  other.environment.depth < machine.environment.depth ∧ ¬ machine.RoomForCalls

end Machine

/-! ## Outcomes that agree -/

/-- The halt without its backtrace. -/
def Halt.untraced : Halt → Halt
  | .error reason => .error (.ofCause reason.cause)
  | .fault => .fault
  | .exhausted => .exhausted

@[simp]
theorem Halt.untraced_traced (halt : Halt) (calls : CallStack) :
    (halt.traced calls).untraced = halt.untraced := by
  cases halt with
  | error reason =>
      simp only [Halt.traced]
      split
      · rfl
      · simp only [Halt.untraced, RuntimeError.withBacktrace]
        split <;> rfl
  | fault => rfl
  | exhausted => rfl

namespace Eval

variable {α β : Type}

/-- Both runs return the same value or halt for the same reason, and on the way they
print the same text. -/
inductive SameOutcome (first second : Machine) :
    EStateM.Result Halt Machine α → EStateM.Result Halt Machine α → Prop where
  | ok (value : α) (text : String) {firstAfter secondAfter : Machine}
      (firstPrints : firstAfter.output = first.output ++ text)
      (secondPrints : secondAfter.output = second.output ++ text) :
      SameOutcome first second (.ok value firstAfter) (.ok value secondAfter)
  | halt {firstHalt secondHalt : Halt} (text : String) {firstAfter secondAfter : Machine}
      (alike : firstHalt.untraced = secondHalt.untraced)
      (firstPrints : firstAfter.output = first.output ++ text)
      (secondPrints : secondAfter.output = second.output ++ text) :
      SameOutcome first second (.error firstHalt firstAfter) (.error secondHalt secondAfter)

/-- The outcomes are the same, or one of the runs found no position for a frame where
the other could go on. -/
inductive OutcomesAgree (first second : Machine) :
    EStateM.Result Halt Machine α → EStateM.Result Halt Machine α → Prop where
  | same {firstResult secondResult : EStateM.Result Halt Machine α}
      (outcome : SameOutcome first second firstResult secondResult) :
      OutcomesAgree first second firstResult secondResult
  | firstFull {after : Machine} (full : first.FullBefore second)
      (secondResult : EStateM.Result Halt Machine α) :
      OutcomesAgree first second (.error .fault after) secondResult
  | secondFull {after : Machine} (full : second.FullBefore first)
      (firstResult : EStateM.Result Halt Machine α) :
      OutcomesAgree first second firstResult (.error .fault after)

theorem SameOutcome.silent_ok (first second : Machine) (value : α) :
    SameOutcome first second (.ok value first) (.ok value second) :=
  .ok value "" (by simp) (by simp)

theorem SameOutcome.silent_halt (first second : Machine) (halt : Halt) :
    SameOutcome (α := α) first second (.error halt first) (.error halt second) :=
  .halt "" rfl (by simp) (by simp)

namespace OutcomesAgree

variable {first second firstAfter secondAfter : Machine}

theorem value_eq {firstValue secondValue : α}
    (outcomes : OutcomesAgree first second (.ok firstValue firstAfter)
      (.ok secondValue secondAfter)) : firstValue = secondValue := by
  cases outcomes with
  | same outcome =>
      cases outcome with
      | ok value text firstPrints secondPrints => rfl

/-- The outcomes of what comes after both runs have printed the same text. -/
theorem precede {firstResult secondResult : EStateM.Result Halt Machine α} {text : String}
    (outcomes : OutcomesAgree firstAfter secondAfter firstResult secondResult)
    (firstPrints : firstAfter.output = first.output ++ text)
    (secondPrints : secondAfter.output = second.output ++ text)
    (firstDepth : firstAfter.environment.depth = first.environment.depth)
    (secondDepth : secondAfter.environment.depth = second.environment.depth)
    (firstCalls : firstAfter.calls = first.calls) (secondCalls : secondAfter.calls = second.calls) :
    OutcomesAgree first second firstResult secondResult := by
  cases outcomes with
  | same outcome =>
      cases outcome with
      | ok value more firstMore secondMore =>
          refine .same (.ok value (text ++ more) ?_ ?_)
          · rw [firstMore, firstPrints, String.append_assoc]
          · rw [secondMore, secondPrints, String.append_assoc]
      | halt more alike firstMore secondMore =>
          refine .same (.halt (text ++ more) alike ?_ ?_)
          · rw [firstMore, firstPrints, String.append_assoc]
          · rw [secondMore, secondPrints, String.append_assoc]
  | firstFull full secondResult =>
      refine .firstFull ?_ secondResult
      simpa only [Machine.FullBefore, Machine.RoomForCalls, firstDepth, secondDepth, firstCalls]
        using full
  | secondFull full firstResult =>
      refine .secondFull ?_ firstResult
      simpa only [Machine.FullBefore, Machine.RoomForCalls, firstDepth, secondDepth, secondCalls]
        using full

/-- Sequences agree if their first actions do and, where both return, so do their
second. -/
theorem bind {firstAction secondAction : Eval α} {firstNext secondNext : α → Eval β}
    {firstFrame secondFrame : Option FrameId}
    (outcomes : OutcomesAgree first second (firstAction first) (secondAction second))
    (firstKeeps : Keeps firstFrame firstAction) (secondKeeps : Keeps secondFrame secondAction)
    (next : ∀ value firstAfter secondAfter, firstAction first = .ok value firstAfter →
      secondAction second = .ok value secondAfter →
      OutcomesAgree firstAfter secondAfter (firstNext value firstAfter)
        (secondNext value secondAfter)) :
    OutcomesAgree first second ((firstAction >>= firstNext) first)
      ((secondAction >>= secondNext) second) := by
  generalize firstRun : firstAction first = firstResult at outcomes
  generalize secondRun : secondAction second = secondResult at outcomes
  cases outcomes with
  | same outcome =>
      cases outcome with
      | @ok value text firstAfter secondAfter firstPrints secondPrints =>
          have firstAgree := firstKeeps first firstAfter (.inl ⟨value, firstRun⟩)
          have secondAgree := secondKeeps second secondAfter (.inl ⟨value, secondRun⟩)
          rw [bind_of_ok firstNext firstRun, bind_of_ok secondNext secondRun]
          exact (next value firstAfter secondAfter firstRun secondRun).precede firstPrints
            secondPrints firstAgree.depth secondAgree.depth firstAgree.calls secondAgree.calls
      | halt text alike firstPrints secondPrints =>
          rw [bind_of_error firstNext firstRun, bind_of_error secondNext secondRun]
          exact .same (.halt text alike firstPrints secondPrints)
  | firstFull full =>
      rw [bind_of_error firstNext firstRun]
      exact .firstFull full _
  | secondFull full =>
      rw [bind_of_error secondNext secondRun]
      exact .secondFull full _

end OutcomesAgree

end Eval

/-! ## Keeping the same view -/

namespace Machine.SameView

variable {left right : FrameId} {first second firstAfter secondAfter : Machine}

theorem of_agrees (view : SameView left right first second)
    (firstAgree : first.AgreesOutside none firstAfter)
    (secondAgree : second.AgreesOutside none secondAfter) :
    SameView left right firstAfter secondAfter where
  chains := by
    rw [firstAgree.environment_eq, secondAgree.environment_eq]
    exact view.chains
  budget := by
    rw [firstAgree.calls, secondAgree.calls]
    exact view.budget

theorem setVar (view : SameView left right first second) (name : String) (value : Value) :
    SameView left right
      { first with environment := first.environment.setVar left name value }
      { second with environment := second.environment.setVar right name value } where
  chains := by
    refine view.chains.setVar fun leftEntry rightEntry same => ⟨fun other => ?_, same.2⟩
    simp only [Table.get?_insert, same.1]
  budget := view.budget

theorem setFn (view : SameView left right first second) (definition : FnDef ExprId) :
    SameView left right
      { first with environment := first.environment.setFn left definition }
      { second with environment := second.environment.setFn right definition } where
  chains := by
    refine view.chains.setFn fun leftEntry rightEntry same => ⟨same.1, fun other => ?_⟩
    simp only [Table.get?_insert, same.2]
  budget := view.budget

theorem enter (view : SameView left right first second) (name : String)
    (bindings : List (String × Value)) :
    SameView first.environment.next second.environment.next
      (first.enter name left bindings) (second.enter name right bindings) where
  chains := view.chains.enter ⟨fun _ => rfl, fun _ => rfl⟩
  budget := view.budget.push name name

theorem isLive (view : SameView left right first second) :
    first.environment.isLive left = true ∧ second.environment.isLive right = true := by
  rw [Environment.isLive_iff, Environment.isLive_iff]
  exact view.chains.live

/-- A call is found in both machines or in neither. -/
theorem getFn (view : SameView left right first second) (name : String) :
    (first.environment.getFn left name = .unbound ∧
        second.environment.getFn right name = .unbound) ∨
      ∃ definition leftOwner rightOwner,
        first.environment.getFn left name = .found definition leftOwner ∧
        second.environment.getFn right name = .found definition rightOwner ∧
        SameView leftOwner rightOwner first second := by
  rcases view.chains.lookup (fun _ _ same => same.2) name with
    unbound | ⟨definition, leftOwner, rightOwner, leftFound, rightFound, owners⟩
  · exact .inl unbound
  · exact .inr ⟨definition, leftOwner, rightOwner, leftFound, rightFound, owners, view.budget⟩

theorem operands_eq (view : SameView left right first second) (node : Node) :
    node.operands first.environment left = node.operands second.environment right := by
  cases node with
  | call callee args =>
      simp only [Node.operands]
      rcases view.getFn callee with
        ⟨leftUnbound, rightUnbound⟩ | ⟨definition, _, _, leftFound, rightFound, _⟩
      · rw [leftUnbound, rightUnbound]
      · rw [leftFound, rightFound]
  | number _ | text _ | ident _ | binary _ _ _ => rfl

end Machine.SameView

/-! ## Room for frames -/

namespace Machine

theorem RoomForCalls.hasRoom {machine : Machine} (room : machine.RoomForCalls)
    (admitted : machine.calls.refusal? = none) : machine.environment.hasRoom = true := by
  obtain ⟨limit, isLimit, enough⟩ := room
  have below : machine.calls.depth < limit := by
    simpa [CallStack.refusal?, isLimit] using admitted
  simp only [Environment.hasRoom, decide_eq_true_eq]
  change machine.environment.depth < Environment.capacity
  omega

/-- A call spends one position and one of the calls that the limit admits. -/
theorem RoomForCalls.enter {machine : Machine} (room : machine.RoomForCalls) (name : String)
    (parent : FrameId) (bindings : List (String × Value)) :
    (machine.enter name parent bindings).RoomForCalls := by
  obtain ⟨limit, isLimit, enough⟩ := room
  refine ⟨limit, isLimit, ?_⟩
  have deeper : (machine.enter name parent bindings).calls.depth = machine.calls.depth + 1 :=
    CallStack.depth_push machine.calls name
  rw [depth_enter, deeper]
  omega

theorem FullBefore.of_enter {machine other : Machine} {name : String} {parent otherParent : FrameId}
    {bindings : List (String × Value)}
    (full : (machine.enter name parent bindings).FullBefore
      (other.enter name otherParent bindings)) : machine.FullBefore other := by
  obtain ⟨deeper, cramped⟩ := full
  rw [depth_enter, depth_enter] at deeper
  exact ⟨Nat.lt_of_succ_lt_succ deeper, fun room => cramped (room.enter name parent bindings)⟩

/-- Where only one of two machines has a position left, the other is full first. -/
theorem fullBefore_of_hasRoom {machine other : Machine}
    (admitted : machine.calls.refusal? = none) (noRoom : machine.environment.hasRoom = false)
    (otherRoom : other.environment.hasRoom = true) : machine.FullBefore other := by
  refine ⟨?_, fun room => ?_⟩
  · simp only [Environment.hasRoom, decide_eq_false_iff_not, decide_eq_true_eq] at noRoom otherRoom
    exact Nat.lt_of_lt_of_le otherRoom (Nat.le_of_not_lt noRoom)
  · rw [room.hasRoom admitted] at noRoom
    cases noRoom

end Machine

/-! ## One layer of evaluation -/

namespace Eval

/-- Wherever two machines look alike, the evaluator comes to outcomes that agree. -/
def SeesChain (eval : Evaluator) : Prop :=
  ∀ (id : ExprId) (left right : FrameId) (first second : Machine),
    Machine.SameView left right first second →
      OutcomesAgree first second (eval id left first) (eval id right second)

/-- Leaving the frames of two calls drops nothing that was printed. -/
theorem OutcomesAgree.inCall {α : Type} {firstBody secondBody : Eval α} {first second : Machine}
    {name : String} {leftParent rightParent : FrameId} {bindings : List (String × Value)}
    (leftFrame rightFrame : FrameId)
    (outcomes : OutcomesAgree (first.enter name leftParent bindings)
      (second.enter name rightParent bindings)
      (firstBody (first.enter name leftParent bindings))
      (secondBody (second.enter name rightParent bindings))) :
    OutcomesAgree first second
      (Eval.inCall leftFrame firstBody (first.enter name leftParent bindings))
      (Eval.inCall rightFrame secondBody (second.enter name rightParent bindings)) := by
  generalize firstRun : firstBody (first.enter name leftParent bindings) = firstResult at outcomes
  generalize secondRun : secondBody (second.enter name rightParent bindings) = secondResult
    at outcomes
  cases outcomes with
  | same outcome =>
      cases outcome with
      | ok value text firstPrints secondPrints =>
          rw [inCall_of_ok leftFrame firstRun, inCall_of_ok rightFrame secondRun]
          exact .same (.ok value text firstPrints secondPrints)
      | halt text alike firstPrints secondPrints =>
          rw [inCall_of_error leftFrame firstRun, inCall_of_error rightFrame secondRun]
          exact .same (.halt text (by simpa using alike) firstPrints secondPrints)
  | firstFull full =>
      rw [inCall_of_error leftFrame firstRun]
      exact .firstFull full.of_enter _
  | secondFull full =>
      rw [inCall_of_error rightFrame secondRun]
      exact .secondFull full.of_enter _

section Layer

variable {eval : Evaluator} (neutral : ∀ id frame, Keeps none (eval id frame))
  (sees : SeesChain eval) {left right : FrameId} {first second : Machine}

include neutral sees

theorem agree_evalAll (view : Machine.SameView left right first second) (ids : List ExprId) :
    OutcomesAgree first second (evalAll eval left ids first) (evalAll eval right ids second) := by
  induction ids generalizing first second with
  | nil => exact .same (.silent_ok first second [])
  | cons id rest inductionHypothesis =>
      refine (sees id left right first second view).bind (neutral id left) (neutral id right) ?_
      intro value firstAfter secondAfter firstRun secondRun
      have after := view.of_agrees (neutral id left first firstAfter (.inl ⟨value, firstRun⟩))
        (neutral id right second secondAfter (.inl ⟨value, secondRun⟩))
      refine (inductionHypothesis after).bind (keeps_evalAll neutral left rest)
        (keeps_evalAll neutral right rest) ?_
      intro values firstEnd secondEnd _ _
      exact .same (.silent_ok firstEnd secondEnd (value :: values))

theorem agree_execStmt (view : Machine.SameView left right first second) (stmt : Stmt ExprId) :
    OutcomesAgree first second (execStmt eval left stmt first)
      (execStmt eval right stmt second) := by
  cases stmt with
  | letBind name value =>
      refine (sees value left right first second view).bind (neutral value left)
        (neutral value right) ?_
      intro bound firstAfter secondAfter firstRun secondRun
      have after := view.of_agrees (neutral value left first firstAfter (.inl ⟨bound, firstRun⟩))
        (neutral value right second secondAfter (.inl ⟨bound, secondRun⟩))
      rw [bindVar, bindVar, bind_of_ok _ (writeAt_of_live _ after.isLive.1),
        bind_of_ok _ (writeAt_of_live _ after.isLive.2)]
      exact .same (.ok Flow.normal "" (by simp) (by simp))
  | fnDef name params body =>
      rw [execStmt, execStmt, bindFn, bindFn, bind_of_ok _ (writeAt_of_live _ view.isLive.1),
        bind_of_ok _ (writeAt_of_live _ view.isLive.2)]
      exact .same (.ok Flow.normal "" (by simp) (by simp))
  | ret value =>
      refine (sees value left right first second view).bind (neutral value left)
        (neutral value right) ?_
      intro bound firstAfter secondAfter _ _
      exact .same (.silent_ok firstAfter secondAfter (Flow.returned bound))
  | expr value =>
      refine (sees value left right first second view).bind (neutral value left)
        (neutral value right) ?_
      intro _ firstAfter secondAfter _ _
      exact .same (.silent_ok firstAfter secondAfter Flow.normal)

/-- A statement that completes in both machines leaves them alike. -/
theorem sameView_execStmt {stmt : Stmt ExprId} {flow : Flow} {firstAfter secondAfter : Machine}
    (view : Machine.SameView left right first second)
    (firstRun : execStmt eval left stmt first = .ok flow firstAfter)
    (secondRun : execStmt eval right stmt second = .ok flow secondAfter) :
    Machine.SameView left right firstAfter secondAfter := by
  have firstDone := execStmt_ok firstRun
  have secondDone := execStmt_ok secondRun
  cases stmt with
  | letBind name value =>
      obtain ⟨_, bound, firstBetween, firstEvaluated, _, rfl⟩ := firstDone
      obtain ⟨_, other, secondBetween, secondEvaluated, _, rfl⟩ := secondDone
      have outcomes := sees value left right first second view
      rw [firstEvaluated, secondEvaluated] at outcomes
      obtain rfl := outcomes.value_eq
      exact (view.of_agrees
        (neutral value left first firstBetween (.inl ⟨bound, firstEvaluated⟩))
        (neutral value right second secondBetween (.inl ⟨bound, secondEvaluated⟩))).setVar
          name bound
  | fnDef name params body =>
      obtain ⟨_, _, rfl⟩ := firstDone
      obtain ⟨_, _, rfl⟩ := secondDone
      exact view.setFn { name, params, body }
  | ret value =>
      obtain ⟨bound, _, firstEvaluated⟩ := firstDone
      obtain ⟨other, _, secondEvaluated⟩ := secondDone
      exact view.of_agrees (neutral value left first firstAfter (.inl ⟨bound, firstEvaluated⟩))
        (neutral value right second secondAfter (.inl ⟨other, secondEvaluated⟩))
  | expr value =>
      obtain ⟨_, bound, firstEvaluated⟩ := firstDone
      obtain ⟨_, other, secondEvaluated⟩ := secondDone
      exact view.of_agrees (neutral value left first firstAfter (.inl ⟨bound, firstEvaluated⟩))
        (neutral value right second secondAfter (.inl ⟨other, secondEvaluated⟩))

theorem agree_execBlock (view : Machine.SameView left right first second)
    (body : List (Stmt ExprId)) :
    OutcomesAgree first second (execBlock eval left body first)
      (execBlock eval right body second) := by
  induction body generalizing first second with
  | nil => exact .same (.silent_ok first second Flow.normal)
  | cons stmt rest inductionHypothesis =>
      rw [execBlock, execBlock]
      refine (agree_execStmt neutral sees view stmt).bind (keeps_execStmt neutral left stmt)
        (keeps_execStmt neutral right stmt) ?_
      intro flow firstAfter secondAfter firstRun secondRun
      cases flow with
      | normal => exact inductionHypothesis (sameView_execStmt neutral sees view firstRun secondRun)
      | returned value => exact .same (.silent_ok firstAfter secondAfter (Flow.returned value))

/-- A call depends on the chain of its parent and on its arguments. -/
theorem agree_callWith (view : Machine.SameView left right first second)
    (definition : FnDef ExprId) (values : List Value) :
    OutcomesAgree first second (callWith eval definition left values first)
      (callWith eval definition right values second) := by
  cases refusal : second.calls.refusal? with
  | some cause =>
      rw [callWith_of_refused eval definition left values
          (view.budget.refusal?_eq.trans refusal),
        callWith_of_refused eval definition right values refusal]
      exact .same (.silent_halt first second _)
  | none =>
      have admitted := view.budget.refusal?_eq.trans refusal
      obtain ⟨leftLive, rightLive⟩ := view.isLive
      cases firstRoom : first.environment.hasRoom with
      | false =>
          rw [callWith_of_no_frame eval definition values admitted (by simp [firstRoom])]
          cases secondRoom : second.environment.hasRoom with
          | false =>
              rw [callWith_of_no_frame eval definition values refusal (by simp [secondRoom])]
              exact .same (.halt "" rfl (by simp) (by simp))
          | true =>
              exact .firstFull (Machine.fullBefore_of_hasRoom admitted firstRoom secondRoom) _
      | true =>
          cases secondRoom : second.environment.hasRoom with
          | false =>
              rw [callWith_of_no_frame eval definition values refusal (by simp [secondRoom])]
              exact .secondFull (Machine.fullBefore_of_hasRoom refusal secondRoom firstRoom) _
          | true =>
              rw [callWith_of_entered eval definition values admitted
                  (by simp [leftLive, firstRoom]),
                callWith_of_entered eval definition values refusal
                  (by simp [rightLive, secondRoom])]
              have inner := view.enter definition.name (definition.params.zip values)
              refine OutcomesAgree.inCall _ _ ?_
              refine (agree_execBlock neutral sees inner definition.body).bind
                (keeps_execBlock neutral _ _) (keeps_execBlock neutral _ _) ?_
              intro flow firstAfter secondAfter _ _
              exact .same (.silent_ok firstAfter secondAfter flow.result)

theorem agree_complete (settings : Settings) (view : Machine.SameView left right first second)
    (node : Node) (values : List Value) :
    OutcomesAgree first second
      (node.complete settings eval first.environment left values first)
      (node.complete settings eval second.environment right values second) := by
  cases node with
  | number value => exact .same (.silent_ok first second (Value.number value))
  | text value => exact .same (.silent_ok first second (Value.text value))
  | ident name =>
      simp only [Node.complete, readVar_apply, Environment.getVar]
      rcases view.chains.lookup (fun _ _ same => same.1) name with
        ⟨leftUnbound, rightUnbound⟩ | ⟨value, _, _, leftFound, rightFound, _⟩
      · rw [leftUnbound, rightUnbound]
        exact .same (.silent_halt first second _)
      · rw [leftFound, rightFound]
        exact .same (.silent_ok first second value)
  | binary op leftId rightId =>
      rcases values with _ | ⟨leftValue, _ | ⟨rightValue, _ | ⟨_, _⟩⟩⟩
      · exact .same (.silent_halt first second .fault)
      · exact .same (.silent_halt first second .fault)
      · simp only [Node.complete, ofExcept_apply]
        cases op.apply leftValue rightValue with
        | ok value => exact .same (.silent_ok first second value)
        | error cause => exact .same (.silent_halt first second _)
      · exact .same (.silent_halt first second .fault)
  | call callee args =>
      by_cases builtin : callee = printName
      · simp only [Node.complete, builtin, if_true]
        rw [bind_of_ok _ (printLine_apply _ first), bind_of_ok _ (printLine_apply _ second)]
        exact .same (.ok Value.void (printedLine values ++ "\n")
          String.append_assoc String.append_assoc)
      · rcases view.getFn callee with
          ⟨leftUnbound, rightUnbound⟩ | ⟨definition, _, _, leftFound, rightFound, owners⟩
        · rw [Node.complete_of_unbound settings eval args builtin leftUnbound,
            Node.complete_of_unbound settings eval args builtin rightUnbound]
          exact .same (.silent_halt first second _)
        · rw [Node.complete_of_found settings eval args builtin leftFound,
            Node.complete_of_found settings eval args builtin rightFound]
          unfold callParent
          cases settings.scoping with
          | dynamic => exact agree_callWith neutral sees view definition values
          | lexical => exact agree_callWith neutral sees owners definition values

theorem agree_evalNode (settings : Settings) (view : Machine.SameView left right first second)
    (node : Node) :
    OutcomesAgree first second (evalNode settings eval left node first)
      (evalNode settings eval right node second) := by
  rw [evalNode_apply, evalNode_apply, view.operands_eq node]
  refine (agree_evalAll neutral sees view _).bind (keeps_evalAll neutral left _)
    (keeps_evalAll neutral right _) ?_
  intro values firstAfter secondAfter firstRun secondRun
  have firstAgree := keeps_evalAll neutral left _ first firstAfter (.inl ⟨values, firstRun⟩)
  have secondAgree := keeps_evalAll neutral right _ second secondAfter (.inl ⟨values, secondRun⟩)
  rw [← firstAgree.environment_eq, ← secondAgree.environment_eq]
  exact agree_complete neutral sees settings (view.of_agrees firstAgree secondAgree) node values

end Layer

theorem seesChain_evalExpr (nodes : Array Node) (settings : Settings) (bound : Nat) :
    SeesChain (evalExpr nodes settings bound) := by
  induction bound with
  | zero =>
      exact fun id left right first second view => .same (.silent_halt first second .exhausted)
  | succ bound inductionHypothesis =>
      intro id left right first second view
      rw [evalExpr, evalExpr]
      cases nodes[id]? with
      | none => exact .same (.silent_halt first second .fault)
      | some node =>
          exact agree_evalNode (keeps_evalExpr nodes settings bound) inductionHypothesis settings
            view node

end Eval

/-- Evaluation depends only on the chain that is visible from its frame.  In two machines
with the same limit and equally many active calls, whose chains from the two frames have
the same length and pairwise the same bindings, an expression comes to the same value, or
halts for the same reason, and prints the same text; the one exception is a run that finds
no position for a frame because its environment is the larger one and the limit does not
rule this out.  Under lexical scoping two calls of a function with the same arguments and
the same number of calls left agree in this way as soon as the chains agree from the frames
in which the function was found, whatever else the callers see. -/
theorem evaluation_sees_only_chain (program : Program) (settings : Settings)
    (first second : Machine) (left right : FrameId)
    (firstOrdered : first.environment.Ordered) (secondOrdered : second.environment.Ordered)
    (limits : first.calls.limit = second.calls.limit) :
    (first.environment.isLive left = true → second.environment.isLive right = true →
      first.calls.depth = second.calls.depth →
      first.environment.SameChain left second.environment right →
      ∀ id, Eval.OutcomesAgree first second (program.evalExpr settings id left first)
        (program.evalExpr settings id right second)) ∧
    (settings.scoping = .lexical → first.calls.remaining? = second.calls.remaining? →
      ∀ (leftCallee rightCallee : String) (leftArgs rightArgs : List ExprId)
        (definition : FnDef ExprId) (leftOwner rightOwner : FrameId) (values : List Value)
        (firstBetween secondBetween : Machine),
      first.environment.getFn left leftCallee = .found definition leftOwner →
      second.environment.getFn right rightCallee = .found definition rightOwner →
      first.environment.SameChain leftOwner second.environment rightOwner →
      Eval.evalAll (program.evalExpr settings) left (leftArgs.take definition.params.length)
        first = .ok values firstBetween →
      Eval.evalAll (program.evalExpr settings) right (rightArgs.take definition.params.length)
        second = .ok values secondBetween →
      Eval.OutcomesAgree firstBetween secondBetween
        (Eval.evalCall settings (program.evalExpr settings) leftCallee leftArgs left first)
        (Eval.evalCall settings (program.evalExpr settings) rightCallee rightArgs right
          second)) := by
  have neutral : ∀ id frame, Eval.Keeps none (program.evalExpr settings id frame) :=
    Eval.keeps_evalExpr program.nodes settings program.nesting
  have sees : Eval.SeesChain (program.evalExpr settings) :=
    Eval.seesChain_evalExpr program.nodes settings program.nesting
  refine ⟨?_, ?_⟩
  · intro leftLive rightLive depths chains id
    refine sees id left right first second ⟨?_, limits, ?_⟩
    · exact .of_chains firstOrdered secondOrdered (Environment.isLive_iff.mp leftLive)
        (Environment.isLive_iff.mp rightLive) chains
    · rw [CallStack.remaining?, CallStack.remaining?, limits, depths]
  · intro lexical rest leftCallee rightCallee leftArgs rightArgs definition leftOwner rightOwner
      values firstBetween secondBetween leftFound rightFound chains leftEvaluated rightEvaluated
    have leftLive := (Environment.lookup_found firstOrdered leftFound).2.1
    have rightLive := (Environment.lookup_found secondOrdered rightFound).2.1
    have owners : Machine.SameView leftOwner rightOwner first second :=
      ⟨.of_chains firstOrdered secondOrdered leftLive rightLive chains, limits, rest⟩
    have after := owners.of_agrees
      (Eval.keeps_evalAll neutral left _ first firstBetween (.inl ⟨values, leftEvaluated⟩))
      (Eval.keeps_evalAll neutral right _ second secondBetween (.inl ⟨values, rightEvaluated⟩))
    rw [Eval.evalCall_apply, Eval.evalCall_apply, leftFound, rightFound]
    simp only [Eval.callParent, lexical]
    rw [Eval.bind_of_ok _ leftEvaluated, Eval.bind_of_ok _ rightEvaluated]
    exact Eval.agree_callWith neutral sees after definition values

theorem caller_frame_is_unseen :
    let definition : FnDef ExprId := ⟨"f", [], [.ret 0]⟩
    let program : Program := ⟨#[.text "seen", .call "f" []], []⟩
    let settings : Settings := ⟨.lexical, some 2⟩
    let first : Machine := { Machine.initial (some 2) "" with
      environment := Environment.empty.setFn 0 definition }
    let second : Machine := { first with
      environment := (first.environment.push 0).setVar 1 "x" .void }
    Eval.OutcomesAgree first second (program.evalExpr settings 1 0 first)
        (program.evalExpr settings 1 0 second) ∧
      Eval.OutcomesAgree first second
        (Eval.evalCall settings (program.evalExpr settings) "f" [] 0 first)
        (Eval.evalCall settings (program.evalExpr settings) "f" [] 1 second) := by
  intro definition program settings first second
  have firstOrdered : first.environment.Ordered :=
    Environment.ordered_setFn 0 definition Environment.ordered_empty
  have secondOrdered : second.environment.Ordered :=
    Environment.ordered_setVar 1 "x" .void (Environment.ordered_push firstOrdered rfl)
  have chains : first.environment.SameChain 0 second.environment 0 := by
    have firstRoot : first.environment.frames[0]? =
        some { Frame.empty none with fns := Table.empty.insert "f" definition } := rfl
    have secondRoot : second.environment.frames[0]? =
        some { Frame.empty none with fns := Table.empty.insert "f" definition } := rfl
    rw [Environment.SameChain, Environment.chain_of_root firstRoot rfl,
      Environment.chain_of_root secondRoot rfl]
    exact .cons ⟨fun _ => rfl, fun _ => rfl⟩ .nil
  have firstFound : first.environment.getFn 0 "f" = .found definition 0 := by
    rw [Environment.getFn, Environment.lookup]
    rfl
  have secondFound : second.environment.getFn 1 "f" = .found definition 0 := by
    rw [Environment.getFn, Environment.lookup]
    change second.environment.lookup Frame.fns "f" 0 = _
    rw [Environment.lookup]
    rfl
  exact ⟨(evaluation_sees_only_chain program settings first second 0 0 firstOrdered secondOrdered
      rfl).1 rfl rfl rfl chains 1,
    (evaluation_sees_only_chain program settings first second 0 1 firstOrdered secondOrdered
      rfl).2 rfl rfl "f" "f" [] [] definition 0 0 [] first second firstFound secondFound chains
      rfl rfl⟩

end ScopeScript
