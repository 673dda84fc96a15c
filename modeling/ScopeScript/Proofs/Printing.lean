import ScopeScript.Proofs.Lockstep

/-!
Contract: printing adds to the end of the output.

Owns: the machine with text printed in front of its own, and the actions that such text
has no influence on.  Every evaluation is one of them, so what was printed earlier stays
where it is.
-/

set_option autoImplicit false

namespace ScopeScript

/-- The machine with `text` printed in front of all that it has printed. -/
def Machine.printedAfter (text : String) (machine : Machine) : Machine :=
  { machine with output := text ++ machine.output }

@[simp]
theorem Machine.environment_printedAfter (text : String) (machine : Machine) :
    (machine.printedAfter text).environment = machine.environment := rfl

namespace Eval

variable {α β : Type}

/-- The result with its machine changed. -/
def changeMachine (change : Machine → Machine) :
    EStateM.Result Halt Machine α → EStateM.Result Halt Machine α
  | .ok value after => .ok value (change after)
  | .error halt after => .error halt (change after)

/-- Text in front of the output stays there and has no other influence. -/
def Appends (action : Eval α) : Prop :=
  ∀ (text : String) (machine : Machine),
    action (machine.printedAfter text) =
      changeMachine (Machine.printedAfter text) (action machine)

theorem lastMachine_changeMachine (change : Machine → Machine)
    (result : EStateM.Result Halt Machine α) :
    lastMachine (changeMachine change result) = change (lastMachine result) := by
  cases result <;> rfl

/-- An action that appends leaves what was printed before it. -/
theorem Appends.output {action : Eval α} (appends : Appends action) (machine : Machine) :
    ∃ more, (lastMachine (action machine)).output = machine.output ++ more := by
  have fromNothing :
      machine = Machine.printedAfter machine.output { machine with output := "" } := by
    simp [Machine.printedAfter]
  have result := appends machine.output { machine with output := "" }
  rw [← fromNothing] at result
  rw [result, lastMachine_changeMachine]
  exact ⟨_, rfl⟩

theorem Appends.bind {first : Eval α} {next : α → Eval β} (firstAppends : Appends first)
    (nextAppends : ∀ value, Appends (next value)) : Appends (first >>= next) := by
  intro text machine
  rw [bind_apply, bind_apply, firstAppends text machine]
  cases first machine with
  | ok value between => exact nextAppends value text between
  | error halt between => rfl

theorem Appends.inCall {body : Eval α} (frame : FrameId) (appends : Appends body) :
    Appends (Eval.inCall frame body) := by
  intro text machine
  rw [Eval.inCall, Eval.inCall, appends text machine]
  cases body machine <;> rfl

theorem appends_writeAt (frame : FrameId) (change : Environment → Environment) :
    Appends (writeAt frame change) := by
  intro text machine
  by_cases live : machine.environment.isLive frame = true
  · rw [writeAt_of_live change live]
    have stillLive : (machine.printedAfter text).environment.isLive frame = true := live
    exact writeAt_of_live change stillLive
  · have gone : machine.environment.isLive frame = false := by simpa using live
    rw [writeAt_of_not_live change gone]
    have stillGone : (machine.printedAfter text).environment.isLive frame = false := gone
    exact writeAt_of_not_live change stillGone

theorem appends_readVar (frame : FrameId) (name : String) : Appends (readVar frame name) := by
  intro text machine
  rw [readVar_apply, readVar_apply, Machine.environment_printedAfter]
  cases machine.environment.getVar frame name <;> rfl

theorem appends_readFn (frame : FrameId) (name : String) : Appends (readFn frame name) := by
  intro text machine
  rw [readFn_apply, readFn_apply, Machine.environment_printedAfter]
  cases machine.environment.getFn frame name <;> rfl

theorem appends_printLine (line : String) : Appends (printLine line) := by
  intro text machine
  simp [printLine_apply, changeMachine, Machine.printedAfter, appendLine, String.append_assoc]

/-- Neither the limit nor the positions for frames depend on what was printed. -/
theorem appends_call (definition : FnDef ExprId) (parent : FrameId) (values : List Value)
    {body : FrameId → Eval Value} (bodies : ∀ frame, Appends (body frame)) :
    Appends (call definition parent values body) := by
  intro text machine
  cases refusal : machine.calls.refusal? with
  | some cause =>
      have refused : (machine.printedAfter text).calls.refusal? = some cause := refusal
      rw [call_of_refused definition values body parent refusal,
        call_of_refused definition values body parent refused]
      rfl
  | none =>
      have admitted : (machine.printedAfter text).calls.refusal? = none := refusal
      cases framed : machine.environment.isLive parent && machine.environment.hasRoom with
      | false =>
          rw [call_of_no_frame definition values body refusal framed,
            call_of_no_frame definition values body admitted framed]
          rfl
      | true =>
          rw [call_of_entered definition values body refusal framed,
            call_of_entered definition values body admitted framed]
          exact (bodies machine.environment.next).inCall machine.environment.next text
            (machine.enter definition.name parent (definition.params.zip values))

theorem uniform_appends : Uniform fun _ _ action => Appends action where
  pure _ _ _ := rfl
  bind := Appends.bind
  write := appends_writeAt
  fault _ _ := rfl
  exhausted _ _ := rfl
  raise _ _ _ := rfl
  readVar := appends_readVar
  readFn := appends_readFn
  printLine := appends_printLine
  call definition parent values _ _ bodies := appends_call definition parent values bodies

end Eval

end ScopeScript
