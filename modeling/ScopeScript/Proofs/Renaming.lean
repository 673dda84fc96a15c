import Mathlib.Logic.Equiv.Basic
import ScopeScript.Proofs.Translation

/-!
Contract: names mean nothing but identity, and variables and functions do not share them.

Owns: renamings, renamed statements and programs, and the theorem that a renamed program
runs as before, up to the names in its errors.

Variables and functions are renamed independently.  If a look-up went to the wrong table,
a name that both kinds use could not be renamed for one of them alone.
-/

set_option autoImplicit false

namespace ScopeScript

/-- New names for variables and, independently, for functions.  Different names stay
different, and printing keeps its name among the functions. -/
structure Renaming where
  var : String → String
  fn : String → String
  var_injective : var.Injective
  fn_injective : fn.Injective
  fn_print : fn printName = printName

section Statements

variable {ε : Type} (names : Renaming)

mutual

/-- The statement under new names, nested definitions included. -/
def Stmt.rename : Stmt ε → Stmt ε
  | .letBind name value => .letBind (names.var name) value
  | .fnDef name params body =>
      .fnDef (names.fn name) (params.map names.var) (Stmt.renameAll body)
  | .ret value => .ret value
  | .expr value => .expr value

def Stmt.renameAll : List (Stmt ε) → List (Stmt ε)
  | [] => []
  | stmt :: rest => stmt.rename :: Stmt.renameAll rest

end

end Statements

namespace Renaming

variable (names : Renaming)

/-- Renaming writes a program in another way, statement by statement. -/
def translation : Translation where
  var := names.var
  fn := names.fn
  block := Stmt.renameAll names

theorem renameAll_eq_map (stmts : List (Stmt ExprId)) :
    Stmt.renameAll names stmts = stmts.map names.translation.stmt := by
  induction stmts with
  | nil => rfl
  | cons stmt rest inductionHypothesis =>
      rw [Stmt.renameAll, inductionHypothesis]
      cases stmt <;> rfl

theorem lawful : names.translation.Lawful where
  var_injective := names.var_injective
  fn_injective := names.fn_injective
  fn_print := names.fn_print
  block eval frame stmts :=
    congrArg (Eval.execBlock eval frame) (names.renameAll_eq_map stmts)

end Renaming

/-- The program under new names: each variable in a `let`, a parameter or an expression, and
each function in a definition or a call. -/
def Program.rename (program : Program) (names : Renaming) : Program :=
  names.translation.program program

/-- Names mean nothing but identity.  A program under new names prints the same text and
succeeds exactly when it did before.  If it halts, it halts as before, with the new name
of the variable or function in the error and new names in the backtrace; and it leaves the
same bindings, under their new names. -/
theorem renamed_program_runs_alike (program : Program) (names : Renaming)
    (settings : Settings) (output : String) :
    let plain := program.run settings output
    let renamed := (program.rename names).run settings output
    (Eval.lastMachine renamed).output = (Eval.lastMachine plain).output ∧
      ((∃ after, renamed = .ok () after) ↔ ∃ after, plain = .ok () after) ∧
      Eval.halt? renamed = (Eval.halt? plain).map names.translation.halt ∧
      (Eval.lastMachine renamed).environment =
        names.translation.environment (Eval.lastMachine plain).environment := by
  intro plain renamed
  have same : renamed = names.translation.result plain :=
    names.lawful.run_program program settings output
  clear_value plain renamed
  subst same
  cases plain with
  | ok value after => exact ⟨rfl, ⟨fun _ => ⟨_, rfl⟩, fun _ => ⟨_, rfl⟩⟩, rfl, rfl⟩
  | error halt after =>
      refine ⟨rfl, ⟨?_, ?_⟩, rfl, rfl⟩
      · rintro ⟨_, returned⟩
        cases returned
      · rintro ⟨_, returned⟩
        cases returned

/-- A variable and a function with one name get two different ones. -/
theorem shared_name_is_split :
    let names : Renaming :=
      { var := fun name => "my " ++ name
        fn := Equiv.swap "f" "g"
        var_injective := fun _ _ same => (String.append_right_inj _).mp same
        fn_injective := (Equiv.swap "f" "g").injective
        fn_print := by decide }
    let program : Program := ⟨#[.text "s", .ident "f", .call "print" [1], .ident "y",
        .call "f" [1]],
      [.letBind "f" 0, .fnDef "f" ["f"] [.expr 2, .ret 3], .expr 4]⟩
    let renamed := (program.rename names).run Settings.default ""
    (program.rename names).nodes = #[.text "s", .ident "my f", .call "print" [1],
        .ident "my y", .call "g" [1]] ∧
      Eval.halt? (program.run Settings.default "") =
        some (.error ⟨.undefinedVariable "y", some ⟨["f"]⟩⟩) ∧
      Eval.halt? renamed = some (.error ⟨.undefinedVariable "my y", some ⟨["g"]⟩⟩) ∧
      (Eval.lastMachine renamed).output = "s\n" := by
  intro names program renamed
  have failed : Eval.halt? (program.run Settings.default "") =
      some (.error ⟨.undefinedVariable "y", some ⟨["f"]⟩⟩) := by decide +kernel
  have printed : (Eval.lastMachine (program.run Settings.default "")).output = "s\n" := by
    decide +kernel
  obtain ⟨outputs, _, halts, _⟩ :=
    renamed_program_runs_alike program names Settings.default ""
  refine ⟨by decide +kernel, failed, ?_, outputs.trans printed⟩
  rw [failed] at halts
  exact halts.trans (by decide +kernel)

end ScopeScript
