import ScopeScript.Proofs.Lockstep

/-!
Contract: the bound on nesting is no part of the meaning of a program.

Owns: the comparison of two actions of which the first may be exhausted, and the result
that an evaluation which is not exhausted comes out the same under every larger bound.
-/

set_option autoImplicit false

namespace ScopeScript.Eval

variable {α β : Type}

/-- The action ran into the bound on nesting. -/
def IsExhausted (result : EStateM.Result Halt Machine α) : Prop :=
  ∃ machine, result = .error .exhausted machine

theorem isExhausted_iff {result : EStateM.Result Halt Machine α} :
    IsExhausted result ↔ halt? result = some .exhausted :=
  ⟨fun ⟨_, exhausted⟩ => by rw [exhausted]; rfl, fun halted => ⟨_, eq_error_of_halt? halted⟩⟩

/-- The second action does what the first one does, unless the first is
exhausted. -/
def Approximates (bounded action : Eval α) : Prop :=
  ∀ machine, IsExhausted (bounded machine) ∨ action machine = bounded machine

theorem Approximates.refl (action : Eval α) : Approximates action action :=
  fun _ => .inr rfl

theorem Approximates.trans {first second third : Eval α} (left : Approximates first second)
    (right : Approximates second third) : Approximates first third := by
  intro machine
  rcases left machine with exhausted | same
  · exact .inl exhausted
  · rw [← same]
    exact right machine

theorem Approximates.ok {bounded action : Eval α} {machine after : Machine} {value : α}
    (approximates : Approximates bounded action) (result : bounded machine = .ok value after) :
    action machine = .ok value after := by
  rcases approximates machine with ⟨_, exhausted⟩ | same
  · cases exhausted.symm.trans result
  · exact same.trans result

theorem Approximates.bind {bounded action : Eval α} {boundedNext next : α → Eval β}
    (first : Approximates bounded action)
    (second : ∀ value, Approximates (boundedNext value) (next value)) :
    Approximates (bounded >>= boundedNext) (action >>= next) := by
  intro machine
  rcases first machine with ⟨after, exhausted⟩ | same
  · exact .inl ⟨after, bind_of_error boundedNext exhausted⟩
  · cases result : bounded machine with
    | ok value between =>
        rw [bind_of_ok boundedNext result, bind_of_ok next (same.trans result)]
        exact second value between
    | error halt between =>
        rw [bind_of_error boundedNext result, bind_of_error next (same.trans result)]
        exact .inr rfl

theorem Approximates.inCall {bounded action : Eval α} (frame : FrameId)
    (body : Approximates bounded action) :
    Approximates (Eval.inCall frame bounded) (Eval.inCall frame action) := by
  intro machine
  rcases body machine with ⟨after, exhausted⟩ | same
  · exact .inl ⟨_, inCall_of_error frame exhausted⟩
  · right
    rw [Eval.inCall, Eval.inCall, same]

/-! ## One layer of evaluation -/

theorem uniform_approximates : Uniform fun _ bounded action => Approximates bounded action where
  pure _ := .refl _
  bind := Approximates.bind
  write _ _ := .refl _
  fault := .refl _
  exhausted := .refl _
  raise _ := .refl _
  readVar _ _ := .refl _
  readFn _ _ := .refl _
  printLine _ := .refl _
  call _ _ _ _ _ body := (Approximates.refl _).bind fun callFrame =>
    (body callFrame).inCall callFrame

section Layer

variable {bounded eval : Evaluator}
  (approximates : ∀ id frame, Approximates (bounded id frame) (eval id frame))

include approximates

theorem approximates_evalAll (frame : FrameId) (ids : List ExprId) :
    Approximates (evalAll bounded frame ids) (evalAll eval frame ids) :=
  uniform_approximates.evalAll approximates frame ids

theorem approximates_execStmt (frame : FrameId) (stmt : Stmt ExprId) :
    Approximates (execStmt bounded frame stmt) (execStmt eval frame stmt) :=
  uniform_approximates.execStmt approximates frame stmt

end Layer

theorem approximates_evalExpr_succ (nodes : Array Node) (settings : Settings) (bound : Nat)
    (id : ExprId) (frame : FrameId) :
    Approximates (evalExpr nodes settings bound id frame)
      (evalExpr nodes settings (bound + 1) id frame) := by
  induction bound generalizing id frame with
  | zero => exact fun machine => .inl ⟨machine, rfl⟩
  | succ bound inductionHypothesis =>
      rw [evalExpr, evalExpr]
      cases nodes[id]? with
      | none => exact .refl _
      | some node => exact uniform_approximates.evalNode inductionHypothesis settings frame node

/-- A larger bound on nesting changes no evaluation that is not exhausted. -/
theorem approximates_evalExpr (nodes : Array Node) (settings : Settings) {bound larger : Nat}
    (le : bound ≤ larger) (id : ExprId) (frame : FrameId) :
    Approximates (evalExpr nodes settings bound id frame)
      (evalExpr nodes settings larger id frame) := by
  induction le with
  | refl => exact .refl _
  | step _ inductionHypothesis =>
      exact inductionHypothesis.trans (approximates_evalExpr_succ nodes settings _ id frame)

end ScopeScript.Eval
