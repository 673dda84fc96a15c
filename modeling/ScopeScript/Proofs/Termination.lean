import ScopeScript.Proofs.FrameDiscipline
import ScopeScript.Proofs.Lookup
import ScopeScript.Proofs.Nesting
import ScopeScript.Proofs.TableParser

/-!
Contract: under a limit on active calls every run comes to its end, with a result or
with an error of the program, and never asks for a node or a frame that is not there.

Owns: the machines from which evaluation can go on, the layers of evaluation that
come to their end, and the theorem on expressions, statements and programs.

Operands stand earlier in the table than the node that they belong to, and a body
runs with one call less to spend.  So the measure is the pair of the calls that may
still be entered and the position in the table, and the bound on nesting counts both
in one number.
-/

set_option autoImplicit false

namespace ScopeScript

/-! ## Machines from which evaluation can go on -/

/-- The body of the definition stays inside a table of the given size. -/
def FnDef.Inside (size : Nat) (definition : FnDef ExprId) : Prop :=
  ∀ id ∈ Stmt.rootsAll definition.body, id < size

/-- At most `rest` calls may be entered on top of the active ones, there is a frame
for each of them, and whatever a look-up finds stays inside the table. -/
structure Machine.Ready (size rest : Nat) (machine : Machine) : Prop where
  limited : ∃ limit, machine.calls.limit = some limit ∧ limit ≤ machine.calls.depth + rest
  room : machine.environment.depth + rest ≤ Environment.capacity
  ordered : machine.environment.Ordered
  definitions : machine.environment.AllFns (FnDef.Inside size)

namespace Machine.Ready

variable {size rest : Nat} {machine after : Machine}

theorem of_agrees (ready : machine.Ready size rest)
    (agree : machine.AgreesOutside none after) : after.Ready size rest where
  limited := by
    rw [agree.calls]
    exact ready.limited
  room := by
    rw [agree.environment_eq]
    exact ready.room
  ordered := by
    rw [agree.environment_eq]
    exact ready.ordered
  definitions := by
    rw [agree.environment_eq]
    exact ready.definitions

theorem setVar (ready : machine.Ready size rest) (frame : FrameId) (name : String)
    (value : Value) :
    Ready size rest { machine with
      environment := machine.environment.setVar frame name value } where
  limited := ready.limited
  room := by simpa using ready.room
  ordered := Environment.ordered_setVar frame name value ready.ordered
  definitions := Environment.allFns_setVar frame name value ready.definitions

theorem setFn (ready : machine.Ready size rest) (frame : FrameId) {definition : FnDef ExprId}
    (inside : definition.Inside size) :
    Ready size rest { machine with
      environment := machine.environment.setFn frame definition } where
  limited := ready.limited
  room := by simpa using ready.room
  ordered := Environment.ordered_setFn frame definition ready.ordered
  definitions := Environment.allFns_setFn frame inside ready.definitions

/-- A call that is not refused spends one of the calls that are left. -/
theorem rest_pos (ready : machine.Ready size rest)
    (admitted : machine.calls.refusal? = none) : 0 < rest := by
  obtain ⟨limit, isLimit, enough⟩ := ready.limited
  have below : machine.calls.depth < limit := by
    simpa [CallStack.refusal?, isLimit] using admitted
  omega

theorem hasRoom (ready : machine.Ready size (rest + 1)) :
    machine.environment.hasRoom = true := by
  have room := ready.room
  simp only [Environment.depth] at room
  simp only [Environment.hasRoom, decide_eq_true_eq]
  omega

theorem enter (ready : machine.Ready size (rest + 1)) (name : String) {parent : FrameId}
    (live : machine.environment.isLive parent = true) (bindings : List (String × Value)) :
    (machine.enter name parent bindings).Ready size rest where
  limited := by
    obtain ⟨limit, isLimit, enough⟩ := ready.limited
    refine ⟨limit, isLimit, ?_⟩
    simp only [CallStack.depth] at enough
    simp only [Machine.enter, CallStack.push, CallStack.depth, Array.size_push]
    omega
  room := by
    have room := ready.room
    simp only [Machine.enter, Environment.depth_setVars, Environment.depth_push]
    omega
  ordered := Environment.ordered_setVars _ bindings (Environment.ordered_push ready.ordered live)
  definitions :=
    Environment.allFns_setVars _ bindings (Environment.allFns_push parent ready.definitions)

end Machine.Ready

/-! ## Actions that come to their end -/

namespace Eval

variable {α β : Type}

theorem ends_of_ok {action : Eval α} {before after : Machine} {value : α}
    (result : action before = .ok value after) : Ends action before :=
  ⟨after, .inl ⟨value, result⟩⟩

theorem ends_of_error {action : Eval α} {before after : Machine} {reason : RuntimeError}
    (result : action before = .error (.error reason) after) : Ends action before :=
  ⟨after, .inr ⟨reason, result⟩⟩

theorem Ends.bind {first : Eval α} {next : α → Eval β} {before : Machine}
    (firstEnds : Ends first before)
    (nextEnds : ∀ value between, first before = .ok value between → Ends (next value) between) :
    Ends (first >>= next) before := by
  obtain ⟨between, ⟨value, returned⟩ | ⟨reason, failed⟩⟩ := firstEnds
  · obtain ⟨after, ended⟩ := nextEnds value between returned
    exact ⟨after, endsIn_bind.mpr (.inr ⟨value, between, returned, ended⟩)⟩
  · exact ⟨between, endsIn_bind.mpr (.inl ⟨reason, failed⟩)⟩

theorem Ends.inCall {body : Eval α} {before : Machine} (frame : FrameId)
    (bodyEnds : Ends body before) : Ends (Eval.inCall frame body) before := by
  obtain ⟨after, ⟨value, returned⟩ | ⟨reason, failed⟩⟩ := bodyEnds
  · exact ends_of_ok (inCall_of_ok frame returned)
  · obtain ⟨traced, isError⟩ :=
      (Halt.isError_traced (.error reason) after.calls).mpr (Halt.isError_error reason)
    have left := inCall_of_error frame failed
    rw [isError] at left
    exact ends_of_error left

/-- The evaluator comes to its end on every position below `level` when at most
`rest` calls may still be entered. -/
def Serves (eval : Evaluator) (size rest level : Nat) : Prop :=
  ∀ (machine : Machine) (frame : FrameId) (id : ExprId), machine.Ready size rest →
    machine.environment.isLive frame = true → id < level → Ends (eval id frame) machine

/-! ## One layer of evaluation -/

section Layer

variable {eval : Evaluator} (neutral : ∀ id frame, Keeps none (eval id frame))
  {size rest level : Nat} {machine : Machine} {frame : FrameId}

include neutral

theorem ends_evalAll (serves : Serves eval size rest level) {ids : List ExprId}
    (below : ∀ id ∈ ids, id < level) (ready : machine.Ready size rest)
    (live : machine.environment.isLive frame = true) :
    Ends (evalAll eval frame ids) machine := by
  induction ids generalizing machine with
  | nil => exact ends_of_ok rfl
  | cons id others inductionHypothesis =>
      refine (serves machine frame id ready live (below id (by simp))).bind ?_
      intro value between evaluated
      have agree := neutral id frame machine between (.inl ⟨value, evaluated⟩)
      have othersEnd : Ends (evalAll eval frame others) between := by
        apply inductionHypothesis (fun other member => below other (by simp [member]))
          (ready.of_agrees agree)
        rw [agree.environment_eq]
        exact live
      exact othersEnd.bind fun values after _ => ends_of_ok rfl

theorem ends_execStmt (serves : Serves eval size rest size) {stmt : Stmt ExprId}
    (inside : ∀ id ∈ stmt.roots, id < size) (ready : machine.Ready size rest)
    (live : machine.environment.isLive frame = true) :
    Ends (execStmt eval frame stmt) machine := by
  cases stmt with
  | letBind name value =>
      refine (serves machine frame value ready live (inside value (by simp [Stmt.roots]))).bind ?_
      intro bound between evaluated
      have agree := neutral value frame machine between (.inl ⟨bound, evaluated⟩)
      have stillLive : between.environment.isLive frame = true := by
        rw [agree.environment_eq]
        exact live
      exact (ends_of_ok (writeAt_of_live _ stillLive)).bind fun _ _ _ => ends_of_ok rfl
  | fnDef name params body =>
      exact (ends_of_ok (writeAt_of_live _ live)).bind fun _ _ _ => ends_of_ok rfl
  | ret value =>
      exact (serves machine frame value ready live (inside value (by simp [Stmt.roots]))).bind
        fun _ _ _ => ends_of_ok rfl
  | expr value =>
      exact (serves machine frame value ready live (inside value (by simp [Stmt.roots]))).bind
        fun _ _ _ => ends_of_ok rfl

/-- A statement that completes leaves a machine from which the next one can go
on. -/
theorem ready_of_execStmt {stmt : Stmt ExprId} {flow : Flow} {after : Machine}
    (inside : ∀ id ∈ stmt.roots, id < size) (ready : machine.Ready size rest)
    (completed : execStmt eval frame stmt machine = .ok flow after) : after.Ready size rest := by
  have done := execStmt_ok completed
  cases stmt with
  | letBind name value =>
      obtain ⟨_, bound, between, evaluated, _, rfl⟩ := done
      have agree := neutral value frame machine between (.inl ⟨bound, evaluated⟩)
      exact (ready.of_agrees agree).setVar frame name bound
  | fnDef name params body =>
      obtain ⟨_, _, rfl⟩ := done
      apply ready.setFn frame
      intro id member
      apply inside
      rw [Stmt.roots]
      exact member
  | ret value =>
      obtain ⟨bound, _, evaluated⟩ := done
      exact ready.of_agrees (neutral value frame machine after (.inl ⟨bound, evaluated⟩))
  | expr value =>
      obtain ⟨_, bound, evaluated⟩ := done
      exact ready.of_agrees (neutral value frame machine after (.inl ⟨bound, evaluated⟩))

theorem ends_execBlock (serves : Serves eval size rest size) {body : List (Stmt ExprId)}
    (inside : ∀ id ∈ Stmt.rootsAll body, id < size) (ready : machine.Ready size rest)
    (live : machine.environment.isLive frame = true) :
    Ends (execBlock eval frame body) machine := by
  induction body generalizing machine with
  | nil => exact ends_of_ok rfl
  | cons stmt others inductionHypothesis =>
      have stmtInside : ∀ id ∈ stmt.roots, id < size := fun id member =>
        inside id (by simp [Stmt.rootsAll, member])
      have othersInside : ∀ id ∈ Stmt.rootsAll others, id < size := fun id member =>
        inside id (by simp [Stmt.rootsAll, member])
      rw [execBlock]
      refine (ends_execStmt neutral serves stmtInside ready live).bind ?_
      intro flow between completed
      cases flow with
      | normal =>
          apply inductionHypothesis othersInside
            (ready_of_execStmt neutral stmtInside ready completed)
          have agree := keeps_execStmt neutral frame stmt machine between
            (.inl ⟨.normal, completed⟩)
          rw [Environment.isLive_iff, agree.depth, ← Environment.isLive_iff]
          exact live
      | returned value => exact ends_of_ok rfl

theorem ends_callWith (bodies : ∀ fewer, rest = fewer + 1 → Serves eval size fewer size)
    {definition : FnDef ExprId} (inside : definition.Inside size) {parent : FrameId}
    (values : List Value) (ready : machine.Ready size rest)
    (live : machine.environment.isLive parent = true) :
    Ends (callWith eval definition parent values) machine := by
  cases refusal : machine.calls.refusal? with
  | some cause => exact ends_of_error (callWith_of_refused eval definition parent values refusal)
  | none =>
      obtain ⟨fewer, rfl⟩ := Nat.exists_eq_add_one_of_ne_zero
        (Nat.ne_of_gt (ready.rest_pos refusal))
      have framed : (machine.environment.isLive parent && machine.environment.hasRoom) = true := by
        simp [live, ready.hasRoom]
      have entry := callWith_of_entered eval definition values refusal framed
      have bodyReady := ready.enter definition.name live (definition.params.zip values)
      have bodyLive : (machine.enter definition.name parent
          (definition.params.zip values)).environment.isLive machine.environment.next = true := by
        have deeper : (machine.enter definition.name parent
            (definition.params.zip values)).environment.depth = machine.environment.depth + 1 := by
          simp [Machine.enter]
        rw [Environment.isLive_iff, deeper]
        exact Nat.lt_succ_self _
      have bodyEnds : Ends (runBody eval machine.environment.next definition.body)
          (machine.enter definition.name parent (definition.params.zip values)) :=
        (ends_execBlock neutral (bodies fewer rfl) inside bodyReady bodyLive).bind
          fun _ _ _ => ends_of_ok rfl
      obtain ⟨after, ended⟩ := bodyEnds.inCall machine.environment.next
      refine ⟨after, ?_⟩
      rw [EndsIn, entry]
      exact ended

theorem ends_evalCall (settings : Settings) (callee : String) {args : List ExprId}
    (operands : Serves eval size rest level) (below : ∀ id ∈ args, id < level)
    (bodies : ∀ fewer, rest = fewer + 1 → Serves eval size fewer size)
    (ready : machine.Ready size rest) (live : machine.environment.isLive frame = true) :
    Ends (evalCall settings eval callee args frame) machine := by
  have call := evalCall_apply settings eval callee args frame machine
  cases found : machine.environment.getFn frame callee with
  | gone => exact absurd found (Environment.getFn_ne_gone ready.ordered callee live)
  | unbound =>
      rw [found] at call
      exact ends_of_error call
  | found definition owner =>
      obtain ⟨inside, ownerLive⟩ :=
        Environment.getFn_found ready.ordered ready.definitions live found
      have someBelow : ∀ id ∈ args.take definition.params.length, id < level :=
        fun id member => below id (List.mem_of_mem_take member)
      have parentLive : machine.environment.isLive (callParent settings frame owner) = true := by
        unfold callParent
        cases settings.scoping with
        | dynamic => exact live
        | lexical => exact ownerLive
      have ended : Ends (evalAll eval frame (args.take definition.params.length) >>=
          callWith eval definition (callParent settings frame owner)) machine := by
        refine (ends_evalAll neutral operands someBelow ready live).bind ?_
        intro values between evaluated
        have agree := keeps_evalAll neutral frame _ machine between (.inl ⟨values, evaluated⟩)
        apply ends_callWith neutral bodies inside values (ready.of_agrees agree)
        rw [agree.environment_eq]
        exact parentLive
      rw [found] at call
      obtain ⟨after, ended⟩ := ended
      refine ⟨after, ?_⟩
      rw [EndsIn, call]
      exact ended

theorem ends_evalNode (settings : Settings) {node : Node}
    (operands : Serves eval size rest level) (below : ∀ id ∈ node.children, id < level)
    (bodies : ∀ fewer, rest = fewer + 1 → Serves eval size fewer size)
    (ready : machine.Ready size rest) (live : machine.environment.isLive frame = true) :
    Ends (evalNode settings eval frame node) machine := by
  cases node with
  | number value => exact ends_of_ok rfl
  | text value => exact ends_of_ok rfl
  | ident name =>
      have read := readVar_apply frame name machine
      cases answer : machine.environment.getVar frame name with
      | gone => exact absurd answer (Environment.getVar_ne_gone ready.ordered name live)
      | unbound =>
          rw [answer] at read
          exact ends_of_error read
      | found value owner =>
          rw [answer] at read
          exact ends_of_ok read
  | binary op left right =>
      refine (operands machine frame left ready live (below left (by simp [Node.children]))).bind ?_
      intro leftValue between evaluated
      have agree := neutral left frame machine between (.inl ⟨leftValue, evaluated⟩)
      have stillLive : between.environment.isLive frame = true := by
        rw [agree.environment_eq]
        exact live
      refine (operands between frame right (ready.of_agrees agree) stillLive
        (below right (by simp [Node.children]))).bind ?_
      intro rightValue after _
      have applied := ofExcept_apply (op.apply leftValue rightValue) after
      cases result : op.apply leftValue rightValue with
      | ok value =>
          rw [result] at applied
          exact ends_of_ok applied
      | error cause =>
          rw [result] at applied
          exact ends_of_error applied
  | call callee args =>
      rw [evalNode]
      split
      · refine (ends_evalAll neutral operands below ready live).bind ?_
        intro values between _
        exact (ends_of_ok (printLine_apply _ between)).bind fun _ _ _ => ends_of_ok rfl
      · exact ends_evalCall neutral settings callee operands below bodies ready live

end Layer

/-- The bound on nesting pays for all calls that may be entered and, within one
call, for the way down the table. -/
theorem serves_evalExpr {nodes : Array Node} (descending : Storage.Descending nodes)
    (settings : Settings) {bound rest level : Nat} (inside : level ≤ nodes.size)
    (enough : rest * (nodes.size + 1) + level ≤ bound) :
    Serves (evalExpr nodes settings bound) nodes.size rest level := by
  induction bound generalizing rest level with
  | zero =>
      intro machine frame id _ _ below
      have : level = 0 := by omega
      rw [this] at below
      exact absurd below (Nat.not_lt_zero id)
  | succ bound inductionHypothesis =>
      intro machine frame id ready live below
      have idInside : id < nodes.size := Nat.lt_of_lt_of_le below inside
      have here : nodes[id]? = some nodes[id] := Array.getElem?_eq_getElem idInside
      have operands : Serves (evalExpr nodes settings bound) nodes.size rest id := by
        apply inductionHypothesis (Nat.le_of_lt idInside)
        exact Nat.le_of_lt_succ (Nat.lt_of_lt_of_le (Nat.add_lt_add_left below _) enough)
      have bodies : ∀ fewer, rest = fewer + 1 →
          Serves (evalExpr nodes settings bound) nodes.size fewer nodes.size := by
        intro fewer more
        apply inductionHypothesis (Nat.le_refl _)
        rw [more, Nat.succ_mul] at enough
        omega
      rw [evalExpr, here]
      exact ends_evalNode (keeps_evalExpr nodes settings bound) settings operands
        (descending id nodes[id] here) bodies ready live

end Eval

/-! ## Programs -/

namespace Program

theorem serves {program : Program} (wellFormed : program.WellFormed) (settings : Settings)
    {rest : Nat} (room : rest < Environment.capacity) :
    Eval.Serves (program.evalExpr settings) program.nodes.size rest program.nodes.size := by
  apply Eval.serves_evalExpr wellFormed.nodes settings (Nat.le_refl _)
  have product : (rest + 1) * (program.nodes.size + 1) ≤ program.nesting :=
    Nat.mul_le_mul_right _ room
  rw [Nat.succ_mul] at product
  omega

/-- A machine whose frames and limit leave room for all calls. -/
theorem WellFormed.ready {program : Program} (wellFormed : program.WellFormed)
    {machine : Machine} {limit : Nat} (limited : machine.calls.limit = some limit)
    (room : machine.environment.depth + limit ≤ Environment.capacity)
    (ordered : machine.environment.Ordered)
    (definitions : machine.environment.AllFns program.Defines) :
    machine.Ready program.nodes.size limit where
  limited := ⟨limit, limited, Nat.le_add_left _ _⟩
  room := room
  ordered := ordered
  definitions := definitions.mono fun _ => wellFormed.definition

theorem ends_exec {program : Program} (wellFormed : program.WellFormed) {settings : Settings}
    {machine : Machine} {rest : Nat} (ready : machine.Ready program.nodes.size rest)
    (live : machine.environment.isLive Environment.root = true)
    (serves : Eval.Serves (program.evalExpr settings) program.nodes.size rest
      program.nodes.size) :
    Eval.Ends (program.exec settings) machine := by
  have neutral : ∀ id frame, Eval.Keeps none (program.evalExpr settings id frame) :=
    Eval.keeps_evalExpr program.nodes settings program.nesting
  refine (Eval.ends_execBlock neutral serves wellFormed.body ready live).bind ?_
  intro flow between _
  cases flow with
  | normal => exact Eval.ends_of_ok rfl
  | returned value => exact Eval.ends_of_error rfl

end Program

/-- Every program that is parsed is well formed.  Under a limit on active calls a
well-formed program, each of its statements and each of its expressions comes to its
end in every live frame, with a result or with an error of the program: it is never
exhausted, whatever larger bound on nesting is taken, and no node and no frame is
ever missing. -/
theorem limited_runs_end :
    (∀ (tokens : List Token) (program : Program), parse tokens = .ok program →
      program.WellFormed) ∧
    ∀ (program : Program) (settings : Settings) (machine : Machine) (limit : Nat)
      (frame : FrameId), program.WellFormed → machine.calls.limit = some limit →
      machine.environment.depth + limit ≤ Environment.capacity →
      machine.environment.Ordered → machine.environment.AllFns program.Defines →
      machine.environment.isLive frame = true →
      Eval.Ends (program.exec settings) machine ∧
      (∀ stmt : Stmt ExprId, (∀ id ∈ stmt.roots, id < program.nodes.size) →
        Eval.Ends (program.execStmt settings frame stmt) machine) ∧
      ∀ id : ExprId, id < program.nodes.size →
        Eval.Ends (program.evalExpr settings id frame) machine ∧
        ∀ bound, program.nesting ≤ bound →
          Eval.evalExpr program.nodes settings bound id frame machine =
            program.evalExpr settings id frame machine := by
  refine ⟨?_, ?_⟩
  · intro tokens program parsed
    obtain ⟨trees, _, rfl⟩ := parse_eq_ok.mp parsed
    exact Program.wellFormed_ofTrees trees
  · intro program settings machine limit frame wellFormed limited room ordered definitions live
    have inhabited : 0 < machine.environment.depth :=
      Nat.lt_of_le_of_lt (Nat.zero_le frame) (Environment.isLive_iff.mp live)
    have ready := wellFormed.ready limited room ordered definitions
    have serves := Program.serves wellFormed settings (show limit < Environment.capacity by omega)
    refine ⟨?_, ?_, ?_⟩
    · exact Program.ends_exec wellFormed ready (Environment.isLive_iff.mpr inhabited) serves
    · intro stmt inside
      exact Eval.ends_execStmt (Eval.keeps_evalExpr program.nodes settings program.nesting)
        serves inside ready live
    · intro id inside
      have ended := serves machine frame id ready live inside
      refine ⟨ended, fun bound le => ?_⟩
      -- an evaluation that ended was not exhausted, so a larger bound changes nothing
      rcases Eval.approximates_evalExpr program.nodes settings le id frame machine with
        ⟨after, exhausted⟩ | same
      · obtain ⟨_, ⟨value, returned⟩ | ⟨reason, failed⟩⟩ := ended
        · cases exhausted.symm.trans returned
        · cases exhausted.symm.trans failed
      · exact same

theorem endless_recursion_ends :
    Eval.Ends ((Program.ofTrees [.fnDef "f" [] [.expr (.call "f" [])],
      .expr (.call "f" [])]).exec Settings.default) (Machine.initial (some 3) "") := by
  have ends := limited_runs_end.2 (Program.ofTrees [.fnDef "f" [] [.expr (.call "f" [])],
    .expr (.call "f" [])]) Settings.default (Machine.initial (some 3) "") 3 Environment.root
    (Program.wellFormed_ofTrees _) rfl (by decide) Environment.ordered_empty
    (Environment.allFns_empty _) rfl
  exact ends.1

end ScopeScript
