import ScopeScript.Proofs.Translation
import ScopeScript.Proofs.TreeMeaning

/-!
Contract: what stands after a `return` is never executed.

Owns: programs whose bodies end at their first `return`, and the theorem that they run as
the whole programs do.

Within one block the argument is local: a `return` gives a value or halts, and the block
ends with it either way.  The functions that are bound hold bodies too, and in the
second run these are shorter ones.  That difference is carried by a translation which keeps
all names and writes blocks without their dead ends.
-/

set_option autoImplicit false

namespace ScopeScript

/-! ## Bodies without dead ends -/

section Statements

variable {ε : Type}

/-- Whether the statement is a `return`. -/
def Stmt.returns : Stmt ε → Bool
  | .ret _ => true
  | .letBind .. | .fnDef .. | .expr _ => false

mutual

/-- The statement with every body inside it ending at its first `return`. -/
def Stmt.trim : Stmt ε → Stmt ε
  | .letBind name value => .letBind name value
  | .fnDef name params body => .fnDef name params (Stmt.trimAll body)
  | .ret value => .ret value
  | .expr value => .expr value

/-- The statements up to the first `return`, with every body inside them trimmed. -/
def Stmt.trimAll : List (Stmt ε) → List (Stmt ε)
  | [] => []
  | stmt :: rest => stmt.trim :: if stmt.returns then [] else Stmt.trimAll rest

end

end Statements

/-- The program with every body, the top level included, ending at its first `return`.  The
table of nodes is kept. -/
def Program.trim (program : Program) : Program where
  nodes := program.nodes
  body := Stmt.trimAll program.body

/-- Nothing is executed after a `return`, whether its expression has a value or halts. -/
theorem Eval.execBlock_of_returns {stmt : Stmt ExprId} (returns : stmt.returns = true)
    (eval : Evaluator) (frame : FrameId) (rest : List (Stmt ExprId)) :
    execBlock eval frame (stmt :: rest) = execBlock eval frame [stmt] := by
  cases stmt with
  | ret value =>
      funext machine
      simp only [execBlock, execStmt, bind_assoc, pure_bind]
  | letBind name value => cases returns
  | fnDef name params body => cases returns
  | expr value => cases returns

/-! ## Trimming as a translation -/

/-- All names are kept and blocks are trimmed. -/
def Translation.trimming : Translation where
  var := id
  fn := id
  block := Stmt.trimAll

namespace Translation

theorem trimming_stmt (stmt : Stmt ExprId) : trimming.stmt stmt = stmt.trim := by
  cases stmt with
  | fnDef name params body => simp [Translation.stmt, trimming, Stmt.trim]
  | letBind _ _ | ret _ | expr _ => rfl

theorem returns_trim {ε : Type} (stmt : Stmt ε) : stmt.trim.returns = stmt.returns := by
  cases stmt <;> rfl

theorem execBlock_trimAll (eval : Eval.Evaluator) (frame : FrameId)
    (stmts : List (Stmt ExprId)) :
    Eval.execBlock eval frame (Stmt.trimAll stmts) =
      Eval.execBlock eval frame (stmts.map trimming.stmt) := by
  induction stmts with
  | nil => rfl
  | cons stmt rest inductionHypothesis =>
      rw [Stmt.trimAll, List.map_cons, trimming_stmt]
      by_cases returns : stmt.returns = true
      · have trimmed : stmt.trim.returns = true := (returns_trim stmt).trans returns
        rw [if_pos returns]
        exact (Eval.execBlock_of_returns trimmed eval frame _).symm
      · rw [if_neg returns, Eval.execBlock, Eval.execBlock, inductionHypothesis]

theorem lawful_trimming : trimming.Lawful where
  var_injective := Function.injective_id
  fn_injective := Function.injective_id
  fn_print := rfl
  block := execBlock_trimAll

/-! Names are kept, so all that a run shows is kept. -/

theorem trimming_program (program : Program) : trimming.program program = program.trim := by
  have nodes : trimming.node = id := by
    funext node
    cases node <;> rfl
  simp only [Translation.program, nodes, Array.map_id]
  rfl

theorem trimming_halt (halt : Halt) : trimming.halt halt = halt := by
  cases halt with
  | fault => rfl
  | exhausted => rfl
  | error reason =>
      obtain ⟨cause, backtrace⟩ := reason
      have sameCause : trimming.cause cause = cause := by
        cases cause <;> rfl
      have sameBacktrace : trimming.backtrace = id := by
        funext backtrace
        simp [Translation.backtrace, trimming]
      simp only [Translation.halt, sameCause, sameBacktrace, Option.map_id, id]

theorem trimming_rootVars? (machine : Machine) :
    (trimming.machine machine).rootVars? = machine.rootVars? := by
  have vars : Frame.vars ∘ trimming.frame = Frame.vars := by
    funext entry
    exact Table.translate_id entry.vars
  simp only [Machine.rootVars?, Translation.machine, getElem?_environment, Option.map_map, vars]

end Translation

/-- Code after a `return` is dead.  A program and the program in which every body ends at
its first `return` end in the same way, with the same error and backtrace if with any, after
the same output and with the same variables at the top level; and under every bound on
nesting one of them is exhausted exactly when the other is, so one run ends exactly when the
other does. -/
theorem code_after_return_is_dead (program : Program) (settings : Settings) (output : String) :
    let whole := program.run settings output
    let trimmed := program.trim.run settings output
    Eval.halt? trimmed = Eval.halt? whole ∧
      (Eval.lastMachine trimmed).output = (Eval.lastMachine whole).output ∧
      (Eval.lastMachine trimmed).rootVars? = (Eval.lastMachine whole).rootVars? ∧
      ∀ bound,
        Eval.IsExhausted (program.trim.execUpTo settings bound
            (Machine.initial settings.callLimit output)) ↔
          Eval.IsExhausted (program.execUpTo settings bound
            (Machine.initial settings.callLimit output)) := by
  intro whole trimmed
  have same : trimmed = Translation.trimming.result whole := by
    have run := Translation.lawful_trimming.run_program program settings output
    rwa [Translation.trimming_program] at run
  have halts (result : EStateM.Result Halt Machine Unit) :
      Eval.halt? (Translation.trimming.result result) = Eval.halt? result := by
    have keeps : Translation.trimming.halt = id := funext Translation.trimming_halt
    rw [Translation.halt?_result, keeps, Option.map_id, id]
  refine ⟨?_, ?_, ?_, fun bound => ?_⟩
  · rw [same, halts]
  · rw [same, Translation.lastMachine_result]
    rfl
  · rw [same, Translation.lastMachine_result, Translation.trimming_rootVars?]
  · have run := Translation.lawful_trimming.execUpTo_initial program settings bound
      settings.callLimit output
    rw [Translation.trimming_program] at run
    rw [run, Eval.isExhausted_iff, Eval.isExhausted_iff, halts]

/-- Code after a `return` at the top level, in a function and in a function inside it, with a
definition among it that would change what is called. -/
theorem nested_dead_code_is_cut :
    let program : Program :=
      ⟨#[.text "a", .text "b", .call "print" [1], .call "g" [], .call "f" [], .call "print" [4]],
        [.fnDef "f" [] [.fnDef "g" [] [.ret 0, .expr 2], .ret 3, .fnDef "g" [] [.ret 1], .expr 2],
          .expr 5, .ret 0, .expr 2]⟩
    program.trim.body = [.fnDef "f" [] [.fnDef "g" [] [.ret 0], .ret 3], .expr 5, .ret 0] ∧
      Eval.halt? (program.trim.run Settings.default "") =
        some (.error (.ofCause .returnOutsideFunction)) ∧
      (Eval.lastMachine (program.trim.run Settings.default "")).output = "a\n" := by
  intro program
  have failed : Eval.halt? (program.run Settings.default "") =
      some (.error (.ofCause .returnOutsideFunction)) := by decide +kernel
  have printed : (Eval.lastMachine (program.run Settings.default "")).output = "a\n" := by
    decide +kernel
  obtain ⟨halts, outputs, _⟩ := code_after_return_is_dead program Settings.default ""
  exact ⟨rfl, halts.trans failed, outputs.trans printed⟩

end ScopeScript
