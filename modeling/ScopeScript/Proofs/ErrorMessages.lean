import ScopeScript.Proofs.Literals
import ScopeScript.Proofs.Lockstep
import ScopeScript.Proofs.Quoting

/-!
Contract: the error of a program that is read from source text has a message of one line.

Owns: causes whose names are identifiers, and the actions that raise no other cause.

The names in a message are those of the node that failed.  They come from tokens, and no
identifier has a line break.
-/

set_option autoImplicit false

namespace ScopeScript

/-! ## Causes -/

/-- The names in the cause are identifiers. -/
def Cause.Named : Cause → Prop
  | .undefinedVariable name | .undefinedFunction name => IsName name
  | .invalidOperands .. | .assignmentInExpression | .returnOutsideFunction
  | .recursionLimit _ => True

theorem Cause.message_unbroken {cause : Cause} (named : cause.Named) :
    '\n' ∉ cause.message.toList := by
  cases cause with
  | undefinedVariable name =>
      change '\n' ∉ ("undefined variable: " ++ name).toList
      exact Text.not_mem_append (by decide +kernel) (IsName.not_mem named (by decide))
  | undefinedFunction name =>
      change '\n' ∉ ("undefined function: " ++ name).toList
      exact Text.not_mem_append (by decide +kernel) (IsName.not_mem named (by decide))
  | invalidOperands op left right =>
      change '\n' ∉ ("operator `" ++ op.symbol ++ "` cannot be applied to " ++ left.name ++
        " and " ++ right.name).toList
      have symbol : '\n' ∉ op.symbol.toList := by cases op <;> decide
      have names : ∀ type : ValueType, '\n' ∉ type.name.toList := by
        intro type
        cases type <;> decide
      refine Text.not_mem_append (Text.not_mem_append (Text.not_mem_append (Text.not_mem_append
        (Text.not_mem_append ?_ symbol) ?_) (names left)) ?_) (names right) <;> decide +kernel
  | assignmentInExpression =>
      change '\n' ∉ "assignment operator `=` is not supported in expressions".toList
      decide +kernel
  | returnOutsideFunction =>
      change '\n' ∉ "`return` outside of a function".toList
      decide +kernel
  | recursionLimit limit =>
      change '\n' ∉ ("maximum recursion depth of " ++ limit.repr ++ " exceeded").toList
      have digits : '\n' ∉ limit.repr.toList := by
        intro member
        rw [Nat.toList_repr] at member
        exact absurd ((Number.digits_toDigits limit).2 _ member) (by decide)
      exact Text.not_mem_append (Text.not_mem_append (by decide +kernel) digits) (by decide +kernel)

theorem CallStack.named_of_refusal {calls : CallStack} {cause : Cause}
    (refused : calls.refusal? = some cause) : cause.Named := by
  unfold CallStack.refusal? at refused
  split at refused
  · split at refused
    · cases refused
    · cases refused
      trivial
  · cases refused

theorem Cause.named_of_isPlain {cause : Cause} (plain : cause.isPlain = true) : cause.Named := by
  cases cause <;> trivial

/-! ## Actions -/

namespace Eval

variable {α β : Type}

/-- The errors that the action raises have identifiers for names. -/
def RaisesNamed (action : Eval α) : Prop :=
  ∀ machine reason after, action machine = .error (.error reason) after → reason.cause.Named

theorem RaisesNamed.bind {first : Eval α} {next : α → Eval β} (firstRaises : RaisesNamed first)
    (nextRaises : ∀ value, RaisesNamed (next value)) : RaisesNamed (first >>= next) := by
  intro machine reason after failed
  rcases bind_eq_error.mp failed with early | ⟨value, between, _, late⟩
  · exact firstRaises machine reason after early
  · exact nextRaises value between reason after late

theorem RaisesNamed.inCall {body : Eval α} (frame : FrameId) (raises : RaisesNamed body) :
    RaisesNamed (Eval.inCall frame body) := by
  intro machine reason after failed
  cases run : body machine with
  | ok value inner =>
      rw [inCall_of_ok frame run] at failed
      cases failed
  | error halt inner =>
      rw [inCall_of_error frame run] at failed
      cases halt with
      | error raised =>
          rw [Halt.traced_error] at failed
          cases failed
          rw [RuntimeError.cause_withBacktrace]
          exact raises machine raised inner run
      | fault => cases failed
      | exhausted => cases failed

theorem raisesNamed_pure (value : α) : RaisesNamed (pure value : Eval α) := by
  intro machine reason after failed
  cases failed

theorem raisesNamed_raise {cause : Cause} (named : cause.Named) :
    RaisesNamed (raise cause : Eval α) := by
  intro machine reason after failed
  cases failed
  exact named

theorem raisesNamed_throw {halt : Halt} (silent : ¬ halt.IsError) :
    RaisesNamed (throw halt : Eval α) := by
  intro machine reason after failed
  cases failed
  exact absurd (Halt.isError_error reason) silent

theorem raisesNamed_writeAt (frame : FrameId) (change : Environment → Environment) :
    RaisesNamed (writeAt frame change) := by
  intro machine reason after failed
  cases fault_of_writeAt failed

theorem raisesNamed_printLine (line : String) : RaisesNamed (printLine line) := by
  intro machine reason after failed
  cases failed

theorem raisesNamed_readVar (frame : FrameId) {name : String} (isName : IsName name) :
    RaisesNamed (readVar frame name) := by
  intro machine reason after failed
  rw [readVar_apply] at failed
  split at failed
  · cases failed
  · cases failed
    exact isName
  · cases failed

theorem raisesNamed_readFn (frame : FrameId) {name : String} (isName : IsName name) :
    RaisesNamed (readFn frame name) := by
  intro machine reason after failed
  rw [readFn_apply] at failed
  split at failed
  · cases failed
  · cases failed
    exact isName
  · cases failed

theorem raisesNamed_call (definition : FnDef ExprId) (parent : FrameId) (values : List Value)
    {body : FrameId → Eval Value} (bodies : ∀ frame, RaisesNamed (body frame)) :
    RaisesNamed (call definition parent values body) := by
  intro machine reason after failed
  rcases call_cases definition values body parent machine with
    ⟨cause, refused, result⟩ | ⟨_, _, result⟩ | ⟨_, _, result⟩
  · rw [result] at failed
    cases failed
    exact CallStack.named_of_refusal refused
  · rw [result] at failed
    cases failed
  · rw [result] at failed
    exact (bodies machine.environment.next).inCall machine.environment.next _ reason after failed

/-! ## Evaluation -/

/-- The same code on both sides, with nodes that can be written as tokens. -/
def properCode : Likeness :=
  { Likeness.same with nodes := Node.Proper }

theorem sameCode_properCode : properCode.SameCode :=
  ⟨rfl, rfl, rfl, rfl⟩

theorem lockstep_raisesNamed (settings : Settings) :
    Lockstep properCode (host settings) (host settings) fun _ _ _ action _ =>
      RaisesNamed action where
  lawful := sameCode_properCode.lawful _ fun _ => trivial
  pure _ := raisesNamed_pure _
  bind first next := first.bind fun value => next value (Valued.all_true value)
  inStmt raises := raises
  bindVar frame name _ value _ _ :=
    raisesNamed_writeAt frame fun environment => environment.setVar frame name value
  bindFn frame definition _ _ :=
    raisesNamed_writeAt frame fun environment => environment.setFn frame definition
  fault _ := raisesNamed_throw Halt.not_isError_fault
  exhausted _ := raisesNamed_throw Halt.not_isError_exhausted
  raise _ _ plain := raisesNamed_raise (Cause.named_of_isPlain plain)
  readVar frame _ _ proper _ := raisesNamed_readVar frame proper
  readFn frame _ _ _ _ _ proper _ next :=
    ((raisesNamed_readFn frame proper).bind fun _ => raisesNamed_pure _).bind fun found =>
      next found.1 found.1 found.2 rfl trivial
  print _ _ _ := raisesNamed_printLine _
  call _ _ _ bodies := raisesNamed_call _ _ _ bodies

end Eval

/-- The error of a program that is read from source text has a message of one line. -/
theorem message_unbroken_of_run {source : String} {program : Program}
    (read : readProgram source = .ok program) {settings : Settings} {output : String}
    {reason : RuntimeError} {machine : Machine}
    (failed : program.run settings output = .error (.error reason) machine) :
    '\n' ∉ reason.message.toList := by
  obtain ⟨trees, rfl, proper⟩ := readProgram_eq_ok read
  have raises := (Eval.lockstep_raisesNamed settings).execUpTo_self Eval.sameCode_properCode
    (allProper_ofTrees proper) (Program.ofTrees trees).nesting
  exact Cause.message_unbroken (raises _ reason machine failed)

end ScopeScript
