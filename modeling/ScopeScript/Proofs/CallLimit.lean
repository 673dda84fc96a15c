import ScopeScript.Proofs.Printing

/-!
Contract: the limit on active calls cuts runs short and does nothing else.

Owns: machines with another limit, two results of which the first may be cut short, the
actions that keep this between a smaller and a larger limit, and the theorem on programs.

The two runs go in lock-step on machines that differ in their limit only, up to the call
that the smaller limit refuses.  What the other run does from there on is left open,
except that it goes on printing where the first run stopped.
-/

set_option autoImplicit false

namespace ScopeScript

/-- Whether a run was stopped by the limit on active calls. -/
def Halt.isLimit : Halt → Bool
  | .error reason => reason.cause.isLimit
  | .fault | .exhausted => false

/-- A backtrace does not make up a limit. -/
@[simp]
theorem Halt.isLimit_traced (halt : Halt) (calls : CallStack) :
    (halt.traced calls).isLimit = halt.isLimit := by
  cases halt with
  | error reason => simp [Halt.traced_error, Halt.isLimit]
  | fault => rfl
  | exhausted => rfl

/-- The machine with another limit on its active calls. -/
def Machine.withLimit (limit : CallLimit) (machine : Machine) : Machine :=
  { machine with calls := { machine.calls with limit } }

@[simp]
theorem Machine.environment_withLimit (limit : CallLimit) (machine : Machine) :
    (machine.withLimit limit).environment = machine.environment := rfl

theorem CallStack.refusal?_of_lt {calls : CallStack} {limit : CallLimit}
    (below : ∀ most, limit = some most → calls.depth < most) :
    ({ calls with limit } : CallStack).refusal? = none := by
  cases limit with
  | none => rfl
  | some most => exact if_pos (below most rfl)

theorem CallStack.refusal?_of_le {calls : CallStack} {limit : Nat} (reached : limit ≤ calls.depth) :
    ({ calls with limit := some limit } : CallStack).refusal? = some (.recursionLimit limit) :=
  if_neg (Nat.not_lt_of_le reached)

namespace Eval

variable {α β : Type}

/-! ## Results that are cut short -/

/-- Both runs end in the same way, or the first one was refused a call and the second has
printed all that the first one has. -/
inductive CutShort (limit : Nat) (larger : CallLimit) :
    EStateM.Result Halt Machine α → EStateM.Result Halt Machine α → Prop where
  | returned (value : α) (after : Machine) :
      CutShort limit larger (.ok value (after.withLimit (some limit)))
        (.ok value (after.withLimit larger))
  | halted {halt : Halt} (after : Machine) (other : halt.isLimit = false) :
      CutShort limit larger (.error halt (after.withLimit (some limit)))
        (.error halt (after.withLimit larger))
  | refused {reason : RuntimeError} {after : Machine} {result : EStateM.Result Halt Machine α}
      (cause : reason.cause = .recursionLimit limit)
      (printed : ∃ more, (lastMachine result).output = after.output ++ more) :
      CutShort limit larger (.error (.error reason) after) result

/-- The first action under the smaller limit does what the second does under the larger
one, unless it is cut short. -/
structure CutsShort (limit : Nat) (larger : CallLimit) (short long : Eval α) : Prop where
  appends : Appends long
  outcomes : ∀ machine : Machine, CutShort limit larger (short (machine.withLimit (some limit)))
    (long (machine.withLimit larger))

variable {limit : Nat} {larger : CallLimit}

/-- An action that does not look at the limit is not cut short. -/
theorem CutsShort.of_blind {action : Eval α} (appends : Appends action)
    (blind : ∀ (new : CallLimit) (machine : Machine),
      action (machine.withLimit new) = changeMachine (Machine.withLimit new) (action machine))
    (other : ∀ machine halt after, action machine = .error halt after → halt.isLimit = false) :
    CutsShort limit larger action action where
  appends := appends
  outcomes machine := by
    rw [blind, blind]
    cases result : action machine with
    | ok value after => exact .returned value after
    | error halt after => exact .halted after (other machine halt after result)

theorem CutsShort.bind {short long : Eval α} {shortNext longNext : α → Eval β}
    (first : CutsShort limit larger short long)
    (next : ∀ value, CutsShort limit larger (shortNext value) (longNext value)) :
    CutsShort limit larger (short >>= shortNext) (long >>= longNext) where
  appends := first.appends.bind fun value => (next value).appends
  outcomes machine := by
    have outcome := first.outcomes machine
    rw [bind_apply, bind_apply]
    generalize short (machine.withLimit (some limit)) = shortResult at outcome ⊢
    generalize long (machine.withLimit larger) = longResult at outcome ⊢
    cases outcome with
    | returned value after => exact (next value).outcomes after
    | halted after other => exact .halted after other
    | refused cause printed =>
        refine .refused cause ?_
        cases longResult with
        | error halt after => exact printed
        | ok value after =>
            obtain ⟨before, same⟩ := printed
            obtain ⟨more, grown⟩ := (next value).appends.output after
            exact ⟨before ++ more, by rw [grown, ← String.append_assoc, ← same]; rfl⟩

theorem CutsShort.inCall {short long : Eval α} (frame : FrameId)
    (body : CutsShort limit larger short long) :
    CutsShort limit larger (Eval.inCall frame short) (Eval.inCall frame long) where
  appends := body.appends.inCall frame
  outcomes machine := by
    have outcome := body.outcomes machine
    unfold Eval.inCall
    generalize short (machine.withLimit (some limit)) = shortResult at outcome ⊢
    generalize long (machine.withLimit larger) = longResult at outcome ⊢
    cases outcome with
    | returned value after => exact .returned value (after.leave frame)
    | @halted halt after other =>
        exact .halted (after.leave frame) (by simpa using other)
    | refused cause printed =>
        simp only [Halt.traced_error]
        refine .refused (by simpa using cause) ?_
        cases longResult <;> exact printed

/-! ## Primitive actions -/

theorem cutsShort_pure (value : α) :
    CutsShort limit larger (pure value : Eval α) (pure value) :=
  .of_blind (uniform_appends.pure value) (fun _ _ => rfl) fun _ _ _ failed => by cases failed

theorem cutsShort_halt {halt : Halt} (other : halt.isLimit = false) :
    CutsShort limit larger (throw halt : Eval α) (throw halt) :=
  .of_blind (fun _ _ => rfl) (fun _ _ => rfl) fun _ _ _ failed => by
    cases failed
    exact other

theorem cutsShort_writeAt (frame : FrameId) (change : Environment → Environment) :
    CutsShort limit larger (writeAt frame change) (writeAt frame change) := by
  refine .of_blind (uniform_appends.write frame change) ?_ ?_
  · intro new machine
    unfold writeAt
    rw [Machine.environment_withLimit]
    split <;> rfl
  · intro machine halt after failed
    rw [fault_of_writeAt failed]
    rfl

theorem cutsShort_readVar (frame : FrameId) (name : String) :
    CutsShort limit larger (readVar frame name) (readVar frame name) := by
  refine .of_blind (uniform_appends.readVar frame name) ?_ ?_
  · intro new machine
    rw [readVar_apply, readVar_apply, Machine.environment_withLimit]
    cases machine.environment.getVar frame name <;> rfl
  · intro machine halt after failed
    rw [readVar_apply] at failed
    split at failed <;> cases failed <;> rfl

theorem cutsShort_readFn (frame : FrameId) (name : String) :
    CutsShort limit larger (readFn frame name) (readFn frame name) := by
  refine .of_blind (uniform_appends.readFn frame name) ?_ ?_
  · intro new machine
    rw [readFn_apply, readFn_apply, Machine.environment_withLimit]
    cases machine.environment.getFn frame name <;> rfl
  · intro machine halt after failed
    rw [readFn_apply] at failed
    split at failed <;> cases failed <;> rfl

theorem cutsShort_printLine (line : String) :
    CutsShort limit larger (printLine line) (printLine line) := by
  refine .of_blind (uniform_appends.printLine line) (fun _ _ => rfl) ?_
  intro machine halt after failed
  rw [printLine_apply] at failed
  cases failed

/-! ## Calls -/

theorem cutsShort_call (le : ∀ most, larger = some most → limit ≤ most)
    (definition : FnDef ExprId) (parent : FrameId) (values : List Value)
    {short long : FrameId → Eval Value}
    (bodies : ∀ frame, CutsShort limit larger (short frame) (long frame)) :
    CutsShort limit larger (call definition parent values short)
      (call definition parent values long) where
  appends := appends_call definition parent values fun frame => (bodies frame).appends
  outcomes machine := by
    by_cases below : machine.calls.depth < limit
    · -- both runs are admitted, and both have a frame or neither has
      have shortAdmitted : (machine.withLimit (some limit)).calls.refusal? = none :=
        CallStack.refusal?_of_lt fun most same => by
          cases same
          exact below
      have longAdmitted : (machine.withLimit larger).calls.refusal? = none :=
        CallStack.refusal?_of_lt fun most same => Nat.lt_of_lt_of_le below (le most same)
      cases framed : machine.environment.isLive parent && machine.environment.hasRoom with
      | false =>
          rw [call_of_no_frame definition values short shortAdmitted framed,
            call_of_no_frame definition values long longAdmitted framed]
          exact .halted { machine with calls := machine.calls.push definition.name } rfl
      | true =>
          rw [call_of_entered definition values short shortAdmitted framed,
            call_of_entered definition values long longAdmitted framed]
          exact ((bodies machine.environment.next).inCall machine.environment.next).outcomes
            (machine.enter definition.name parent (definition.params.zip values))
    · have refused : (machine.withLimit (some limit)).calls.refusal? =
          some (.recursionLimit limit) := CallStack.refusal?_of_le (Nat.le_of_not_lt below)
      have appends : Appends (call definition parent values long) :=
        appends_call definition parent values fun frame => (bodies frame).appends
      rw [call_of_refused definition values short parent refused]
      exact .refused rfl (appends.output (machine.withLimit larger))

theorem uniform_cutsShort (le : ∀ most, larger = some most → limit ≤ most) :
    Uniform fun _ short long => CutsShort limit larger short long where
  pure := cutsShort_pure
  bind := CutsShort.bind
  write := cutsShort_writeAt
  fault := cutsShort_halt rfl
  exhausted := cutsShort_halt rfl
  raise plain := cutsShort_halt (Cause.isLimit_of_isPlain plain)
  readVar := cutsShort_readVar
  readFn := cutsShort_readFn
  printLine := cutsShort_printLine
  call definition parent values _ _ bodies := cutsShort_call le definition parent values bodies

/-- Of the settings evaluation looks at the scoping only; the limit stands in the machine. -/
theorem evalExpr_of_scoping {settings other : Settings} (same : settings.scoping = other.scoping)
    (nodes : Array Node) (bound : Nat) :
    evalExpr nodes settings bound = evalExpr nodes other bound := by
  have parents : callParent settings = callParent other := by
    funext caller owner
    rw [callParent, callParent, same]
  induction bound with
  | zero => rfl
  | succ bound inductionHypothesis =>
      funext id frame
      rw [evalExpr, evalExpr, inductionHypothesis]
      cases nodes[id]? with
      | none => rfl
      | some node =>
          have calls : evalCall settings (evalExpr nodes other bound) =
              evalCall other (evalExpr nodes other bound) := by
            funext callee args frame
            rw [evalCall, evalCall, parents]
          cases node with
          | call callee args => simp only [evalNode, calls]
          | number _ | text _ | ident _ | binary _ _ _ => rfl

end Eval

/-! ## Programs -/

theorem Program.exec_of_scoping {settings other : Settings}
    (same : settings.scoping = other.scoping) (program : Program) :
    program.exec settings = program.exec other := by
  unfold Program.exec Program.evalExpr
  rw [Eval.evalExpr_of_scoping same]

/-- The limit on active calls only cuts runs short.  A run that ends in any other way than
by its limit ends in the same way under every larger limit and under none, with the same
output and the same bindings.  A run that ends by its limit reports that limit, and what it
has printed until then is the beginning of what the other run prints. -/
theorem limit_only_cuts_short (program : Program) (scoping : Scoping) (environment : Environment)
    (output : String) (limit : Nat) (larger : CallLimit)
    (le : ∀ most, larger = some most → limit ≤ most) :
    let short := program.exec ⟨scoping, some limit⟩ ⟨environment, .empty (some limit), output⟩
    let long := program.exec ⟨scoping, larger⟩ ⟨environment, .empty larger, output⟩
    (∀ after, short = .ok () after → ∃ last, long = .ok () last ∧
      last.output = after.output ∧ last.environment = after.environment) ∧
    (∀ halt after, short = .error halt after → halt.isLimit = false →
      ∃ last, long = .error halt last ∧
        last.output = after.output ∧ last.environment = after.environment) ∧
    ∀ reason after reported, short = .error (.error reason) after →
      reason.cause = .recursionLimit reported →
      reported = limit ∧ ∃ more, (Eval.lastMachine long).output = after.output ++ more := by
  intro short long
  have same : (⟨scoping, some limit⟩ : Settings).scoping = (⟨scoping, larger⟩ : Settings).scoping :=
    rfl
  have outcome : Eval.CutShort limit larger short long := by
    change Eval.CutShort limit larger (program.exec ⟨scoping, some limit⟩ _) _
    rw [Program.exec_of_scoping same]
    exact ((Eval.uniform_cutsShort le).exec program ⟨scoping, larger⟩).outcomes
      ⟨environment, .empty none, output⟩
  clear_value short long
  cases outcome with
  | returned value after =>
      refine ⟨fun last ended => ?_, fun halt last ended => ?_, fun reason last reported ended => ?_⟩
      · cases ended
        exact ⟨_, rfl, rfl, rfl⟩
      · cases ended
      · cases ended
  | halted after other =>
      refine ⟨fun last ended => ?_, fun halt last ended _ => ?_,
        fun reason last reported ended cause => ?_⟩
      · cases ended
      · cases ended
        exact ⟨_, rfl, rfl, rfl⟩
      · cases ended
        rw [Halt.isLimit, cause] at other
        cases other
  | refused cause printed =>
      refine ⟨fun last ended => ?_, fun halt last ended other => ?_,
        fun reason last reported ended reports => ?_⟩
      · cases ended
      · cases ended
        rw [Halt.isLimit, cause] at other
        cases other
      · cases ended
        rw [cause] at reports
        cases reports
        exact ⟨rfl, printed⟩

/-- A function that prints and calls itself prints once under the limit one, and what it
prints under a larger limit begins with that. -/
theorem endless_printing_is_cut_short :
    let program : Program := ⟨#[.text "x", .call "print" [0], .call "f" []],
      [.fnDef "f" [] [.expr 1, .expr 2], .expr 2]⟩
    let short := program.exec ⟨.dynamic, some 1⟩ ⟨.empty, .empty (some 1), ""⟩
    let long := program.exec ⟨.dynamic, some 3⟩ ⟨.empty, .empty (some 3), ""⟩
    (∀ most, some 3 = some most → 1 ≤ most) ∧
      short = .error (.error ⟨.recursionLimit 1, some ⟨["f"]⟩⟩) (Eval.lastMachine short) ∧
      (Eval.lastMachine short).output = "x\n" ∧
      ∃ more, (Eval.lastMachine long).output = "x\n" ++ more := by
  intro program short long
  have le : ∀ most, some 3 = some most → 1 ≤ most := by
    intro most same
    cases same
    decide
  have stopped : short = .error (.error ⟨.recursionLimit 1, some ⟨["f"]⟩⟩)
      (Eval.lastMachine short) := Eval.eq_error_of_halt? (by decide +kernel)
  have printed : (Eval.lastMachine short).output = "x\n" := by decide +kernel
  have cut := (limit_only_cuts_short program .dynamic .empty "" 1 (some 3) le).2.2 _ _ 1 stopped rfl
  rw [printed] at cut
  exact ⟨le, stopped, printed, cut.2⟩

end ScopeScript
