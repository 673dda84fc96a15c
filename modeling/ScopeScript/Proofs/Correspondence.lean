import ScopeScript.Proofs.Lockstep
import ScopeScript.Proofs.Lookup

/-!
Contract: evaluation over two tables of nodes whose positions correspond.

Owns: statements, definitions and machines that differ in corresponding positions only, and
actions that match on such machines.

Which positions correspond is a parameter.  All that is asked of it is that the nodes at
corresponding positions are alike, with corresponding operands.  The functions that are
bound hold positions as well, so two machines are alike when their functions are, and not
when they are the same.
-/

set_option autoImplicit false

namespace ScopeScript

/-! ## Alike up to positions -/

/-- Statements of one kind with the same names and corresponding expressions. -/
inductive Stmt.Alike (related : ExprId → ExprId → Prop) : Stmt ExprId → Stmt ExprId → Prop where
  | letBind (name : String) {value other : ExprId} (values : related value other) :
      Stmt.Alike related (.letBind name value) (.letBind name other)
  | fnDef (name : String) (params : List String) {body other : List (Stmt ExprId)}
      (bodies : List.Forall₂ (Stmt.Alike related) body other) :
      Stmt.Alike related (.fnDef name params body) (.fnDef name params other)
  | ret {value other : ExprId} (values : related value other) :
      Stmt.Alike related (.ret value) (.ret other)
  | expr {value other : ExprId} (values : related value other) :
      Stmt.Alike related (.expr value) (.expr other)

/-- Definitions with the same name and parameters and with bodies that are alike. -/
structure FnDef.Alike (related : ExprId → ExprId → Prop) (first second : FnDef ExprId) : Prop where
  name : first.name = second.name
  params : first.params = second.params
  body : List.Forall₂ (Stmt.Alike related) first.body second.body

/-- The same code on both sides, up to positions. -/
def alikeCode (related : ExprId → ExprId → Prop) : Likeness :=
  { Likeness.same with positions := related, definitions := FnDef.Alike related }

/-- Frames with the same variables and parent, and with functions that are alike. -/
structure Frame.Alike (related : ExprId → ExprId → Prop) (first second : Frame) : Prop where
  vars : first.vars = second.vars
  fns : ∀ name, Option.Rel (FnDef.Alike related) (first.fns.get? name) (second.fns.get? name)
  parent : first.parent = second.parent

/-- Frames that are alike at every position. -/
structure Environment.Alike (related : ExprId → ExprId → Prop) (first second : Environment) :
    Prop where
  depth : first.depth = second.depth
  frames : ∀ frame : FrameId,
    Option.Rel (Frame.Alike related) first.frames[frame]? second.frames[frame]?

/-- Machines that are alike in their frames and the same in all else. -/
structure Machine.Alike (related : ExprId → ExprId → Prop) (first second : Machine) : Prop where
  environment : first.environment.Alike related second.environment
  calls : first.calls = second.calls
  output : first.output = second.output

/-- Look-ups that end in the same way and at the same frame, with related entries. -/
inductive Lookup.Match {α : Type} (entries : α → α → Prop) : Lookup α → Lookup α → Prop where
  | found {first second : α} (owner : FrameId) (related : entries first second) :
      Lookup.Match entries (.found first owner) (.found second owner)
  | unbound : Lookup.Match entries .unbound .unbound
  | gone : Lookup.Match entries .gone .gone

theorem Lookup.Match.eq {α : Type} {first second : Lookup α}
    (answers : Lookup.Match Eq first second) : first = second := by
  cases answers with
  | found owner same => rw [same]
  | unbound => rfl
  | gone => rfl

variable {related : ExprId → ExprId → Prop}

theorem Stmt.Alike.stmts {stmt other : Stmt ExprId} (alike : stmt.Alike related other) :
    (alikeCode related).Stmts stmt other := by
  cases alike with
  | letBind name values => exact .letBind rfl values
  | fnDef name params bodies => exact .fnDef ⟨rfl, rfl, bodies⟩
  | ret values => exact .ret values
  | expr values => exact .expr values

theorem blocks_alikeCode {m : Type → Type} [Monad m] {host : Host m}
    {body other : List (Stmt ExprId)} (alike : List.Forall₂ (Stmt.Alike related) body other) :
    (alikeCode related).Blocks host body other :=
  Likeness.blocks_of_forall₂ (alike.imp fun _ _ => Stmt.Alike.stmts)

/-! ## Environments -/

namespace Environment.Alike

variable {first second : Environment}

theorem size_eq (alike : first.Alike related second) : first.frames.size = second.frames.size :=
  alike.depth

theorem isLive_eq (alike : first.Alike related second) (frame : FrameId) :
    first.isLive frame = second.isLive frame := by
  rw [Environment.isLive, Environment.isLive, alike.size_eq]

theorem hasRoom_eq (alike : first.Alike related second) : first.hasRoom = second.hasRoom := by
  rw [Environment.hasRoom, Environment.hasRoom, alike.size_eq]

theorem next_eq (alike : first.Alike related second) : first.next = second.next :=
  alike.depth

/-- Two frames at one position may be changed while they stay alike. -/
theorem modify (alike : first.Alike related second) (frame : FrameId)
    {change otherChange : Frame → Frame} (keeps : ∀ entry other, Frame.Alike related entry other →
      Frame.Alike related (change entry) (otherChange other)) :
    Alike related { frames := first.frames.modify frame change }
      { frames := second.frames.modify frame otherChange } where
  depth := by simpa [Environment.depth] using alike.depth
  frames position := by
    have here := alike.frames position
    simp only [Array.getElem?_modify]
    split
    · generalize first.frames[position]? = entry at here
      generalize second.frames[position]? = other at here
      cases here with
      | some entries => exact .some (keeps _ _ entries)
      | none => exact .none
    · exact here

theorem setVar (alike : first.Alike related second) (frame : FrameId) (name : String)
    (value : Value) :
    (first.setVar frame name value).Alike related (second.setVar frame name value) :=
  alike.modify frame fun _ _ entries => ⟨by rw [entries.vars], entries.fns, entries.parent⟩

theorem setVars (alike : first.Alike related second) (frame : FrameId)
    (bindings : List (String × Value)) :
    (first.setVars frame bindings).Alike related (second.setVars frame bindings) := by
  induction bindings generalizing first second with
  | nil => exact alike
  | cons binding rest inductionHypothesis =>
      exact inductionHypothesis (alike.setVar frame binding.1 binding.2)

theorem setFn (alike : first.Alike related second) (frame : FrameId)
    {definition other : FnDef ExprId} (definitions : definition.Alike related other) :
    (first.setFn frame definition).Alike related (second.setFn frame other) := by
  refine alike.modify frame fun entry otherEntry entries => ⟨entries.vars, ?_, entries.parent⟩
  intro name
  simp only [Table.get?_insert, definitions.name]
  split
  · exact .some definitions
  · exact entries.fns name

theorem push (alike : first.Alike related second) (parent : FrameId) :
    (first.push parent).Alike related (second.push parent) where
  depth := by simpa using alike.depth
  frames position := by
    simp only [Environment.push, Array.getElem?_push, alike.size_eq]
    split
    · exact .some ⟨rfl, fun _ => .none, rfl⟩
    · exact alike.frames position

theorem pop (alike : first.Alike related second) (frame : FrameId) :
    (first.pop frame).Alike related (second.pop frame) := by
  unfold Environment.pop
  rw [alike.size_eq]
  split
  · refine ⟨?_, fun position => ?_⟩
    · simp [Environment.depth, alike.size_eq]
    · simp only [Array.shrink_eq_take, Array.take_eq_extract, Array.getElem?_extract,
        alike.size_eq]
      split
      · exact alike.frames _
      · exact .none
  · exact alike

theorem lookup {α : Type} (alike : first.Alike related second) {table : Frame → Table α}
    {entries : α → α → Prop} (tables : ∀ entry other, Frame.Alike related entry other →
      ∀ name, Option.Rel entries ((table entry).get? name) ((table other).get? name))
    (name : String) (frame : FrameId) :
    Lookup.Match entries (first.lookup table name frame) (second.lookup table name frame) := by
  induction frame using Nat.strongRecOn with
  | ind frame inductionHypothesis =>
      have here := alike.frames frame
      rw [Environment.lookup, Environment.lookup.eq_def second]
      generalize first.frames[frame]? = entry at here
      generalize second.frames[frame]? = other at here
      cases here with
      | none => exact .gone
      | @some entry other frames =>
          have bound := tables entry other frames name
          simp only
          generalize (table entry).get? name = value at bound
          generalize (table other).get? name = otherValue at bound
          cases bound with
          | some values => exact .found frame values
          | none =>
              -- The parents are the same, so both look-ups go on at one position.
              simp only [frames.parent]
              cases other.parent with
              | none => exact .unbound
              | some parent =>
                  simp only
                  split
                  · exact inductionHypothesis parent ‹_›
                  · exact .gone

theorem getVar_eq (alike : first.Alike related second) (frame : FrameId) (name : String) :
    first.getVar frame name = second.getVar frame name := by
  have answers : Lookup.Match Eq (first.getVar frame name) (second.getVar frame name) := by
    refine alike.lookup (fun entry other frames name => ?_) name frame
    rw [frames.vars]
    cases other.vars.get? name with
    | some value => exact .some rfl
    | none => exact .none
  exact answers.eq

theorem getFn (alike : first.Alike related second) (frame : FrameId) (name : String) :
    Lookup.Match (FnDef.Alike related) (first.getFn frame name) (second.getFn frame name) :=
  alike.lookup (fun _ _ frames => frames.fns) name frame

end Environment.Alike

/-! ## Machines -/

namespace Machine.Alike

variable {first second : Machine}

theorem withEnvironment (alike : first.Alike related second) {environment other : Environment}
    (environments : environment.Alike related other) :
    Alike related { first with environment := environment } { second with environment := other } :=
  ⟨environments, alike.calls, alike.output⟩

theorem enter (alike : first.Alike related second) (name : String) (parent : FrameId)
    (bindings : List (String × Value)) :
    (first.enter name parent bindings).Alike related (second.enter name parent bindings) where
  environment := by
    simp only [Machine.enter, alike.environment.next_eq]
    exact (alike.environment.push parent).setVars _ bindings
  calls := by simp only [Machine.enter, alike.calls]
  output := alike.output

theorem leave (alike : first.Alike related second) (frame : FrameId) :
    (first.leave frame).Alike related (second.leave frame) where
  environment := alike.environment.pop frame
  calls := by simp only [Machine.leave, alike.calls]
  output := alike.output

theorem initial (related : ExprId → ExprId → Prop) (limit : CallLimit) (output : String) :
    (Machine.initial limit output).Alike related (Machine.initial limit output) where
  environment := by
    refine ⟨rfl, fun frame => ?_⟩
    cases here : (Machine.initial limit output).environment.frames[frame]? with
    | none => exact .none
    | some entry =>
        rw [Environment.frame_of_empty here]
        exact .some ⟨rfl, fun _ => .none, rfl⟩
  calls := rfl
  output := rfl

end Machine.Alike

/-! ## Actions that match -/

namespace Eval

variable {α β : Type}

/-- Both return the same, or both halt for the same reason; the machines that they leave are
alike. -/
inductive ResultsMatch (related : ExprId → ExprId → Prop) :
    EStateM.Result Halt Machine α → EStateM.Result Halt Machine α → Prop where
  | ok (value : α) {first second : Machine} (machines : first.Alike related second) :
      ResultsMatch related (.ok value first) (.ok value second)
  | error (halt : Halt) {first second : Machine} (machines : first.Alike related second) :
      ResultsMatch related (.error halt first) (.error halt second)

/-- On machines that are alike the two actions have matching results. -/
def Matches (related : ExprId → ExprId → Prop) (action other : Eval α) : Prop :=
  ∀ first second : Machine, first.Alike related second →
    ResultsMatch related (action first) (other second)

theorem Matches.bind {action other : Eval α} {next otherNext : α → Eval β}
    (actions : Matches related action other)
    (continuations : ∀ value, Matches related (next value) (otherNext value)) :
    Matches related (action >>= next) (other >>= otherNext) := by
  intro first second alike
  have results := actions first second alike
  rw [bind_apply, bind_apply]
  generalize action first = result at results
  generalize other second = otherResult at results
  cases results with
  | ok value machines => exact continuations value _ _ machines
  | error halt machines => exact .error halt machines

theorem matches_pure (value : α) : Matches related (pure value) (pure value) :=
  fun _ _ alike => .ok value alike

theorem matches_throw (halt : Halt) : Matches related (throw halt : Eval α) (throw halt) :=
  fun _ _ alike => .error halt alike

theorem matches_readVar (frame : FrameId) (name : String) :
    Matches related (readVar frame name) (readVar frame name) := by
  intro first second alike
  rw [readVar_apply, readVar_apply, alike.environment.getVar_eq]
  cases second.environment.getVar frame name with
  | found value owner => exact .ok value alike
  | unbound => exact .error _ alike
  | gone => exact .error _ alike

theorem matches_readFn (settings : Settings) (frame : FrameId) (callee : String)
    {next otherNext : FnDef ExprId → FrameId → Eval α}
    (continuations : ∀ definition other parent, definition.Alike related other →
      Matches related (next definition parent) (otherNext other parent)) :
    Matches related ((host settings).readFn frame callee >>= fun found => next found.1 found.2)
      ((host settings).readFn frame callee >>= fun found => otherNext found.1 found.2) := by
  intro first second alike
  have answers := alike.environment.getFn frame callee
  rw [bind_apply, bind_apply, host_readFn_apply, host_readFn_apply]
  generalize first.environment.getFn frame callee = answer at answers
  generalize second.environment.getFn frame callee = otherAnswer at answers
  cases answers with
  | found owner definitions => exact continuations _ _ _ definitions first second alike
  | unbound => exact .error _ alike
  | gone => exact .error _ alike

theorem matches_writeAt (frame : FrameId) {change otherChange : Environment → Environment}
    (keeps : ∀ environment other : Environment, environment.Alike related other →
      (change environment).Alike related (otherChange other)) :
    Matches related (writeAt frame change) (writeAt frame otherChange) := by
  intro first second alike
  have lives := alike.environment.isLive_eq frame
  cases live : second.environment.isLive frame with
  | true =>
      rw [writeAt_of_live change (lives.trans live), writeAt_of_live otherChange live]
      exact .ok () (alike.withEnvironment (keeps _ _ alike.environment))
  | false =>
      rw [writeAt_of_not_live change (lives.trans live), writeAt_of_not_live otherChange live]
      exact .error _ alike

theorem matches_printLine (line : String) :
    Matches related (printLine line) (printLine line) := by
  intro first second alike
  rw [printLine_apply, printLine_apply, alike.output]
  exact .ok () ⟨alike.environment, alike.calls, rfl⟩

theorem Matches.inCall {body other : Eval α} (frame : FrameId)
    (bodies : Matches related body other) :
    Matches related (Eval.inCall frame body) (Eval.inCall frame other) := by
  intro first second alike
  have results := bodies first second alike
  rw [Eval.inCall, Eval.inCall]
  generalize body first = result at results
  generalize other second = otherResult at results
  cases results with
  | ok value machines => exact .ok value (machines.leave frame)
  | error halt machines =>
      simp only [machines.calls]
      exact .error _ (machines.leave frame)

theorem matches_call {definition otherDefinition : FnDef ExprId}
    (definitions : definition.Alike related otherDefinition) (parent : FrameId)
    (values : List Value) {body other : FrameId → Eval Value}
    (bodies : ∀ frame, Matches related (body frame) (other frame)) :
    Matches related (call definition parent values body)
      (call otherDefinition parent values other) := by
  intro first second alike
  have refusals : first.calls.refusal? = second.calls.refusal? := by rw [alike.calls]
  cases refusal : second.calls.refusal? with
  | some cause =>
      rw [call_of_refused definition values body parent (refusals.trans refusal),
        call_of_refused otherDefinition values other parent refusal]
      exact .error _ alike
  | none =>
      have frames : (first.environment.isLive parent && first.environment.hasRoom) =
          (second.environment.isLive parent && second.environment.hasRoom) := by
        rw [alike.environment.isLive_eq, alike.environment.hasRoom_eq]
      cases framed : second.environment.isLive parent && second.environment.hasRoom with
      | false =>
          rw [call_of_no_frame definition values body (refusals.trans refusal)
              (frames.trans framed),
            call_of_no_frame otherDefinition values other refusal framed]
          refine .error _ ⟨alike.environment, ?_, alike.output⟩
          rw [alike.calls, definitions.name]
      | true =>
          rw [call_of_entered definition values body (refusals.trans refusal)
              (frames.trans framed),
            call_of_entered otherDefinition values other refusal framed,
            alike.environment.next_eq, definitions.name, definitions.params]
          exact (bodies second.environment.next).inCall second.environment.next _ _
            (alike.enter otherDefinition.name parent (otherDefinition.params.zip values))

/-! ## Evaluation -/

theorem lawful_alikeCode (related : ExprId → ExprId → Prop) (settings : Settings) :
    (alikeCode related).Lawful (host settings) where
  void := trivial
  number _ := trivial
  text _ := trivial
  operator _ _ _ := trivial
  builtin := by
    rintro callee _ rfl
    exact Iff.rfl
  params definitions := by rw [definitions.params]
  body definitions := blocks_alikeCode definitions.body

theorem lockstep_matches (related : ExprId → ExprId → Prop) (settings : Settings) :
    Lockstep (alikeCode related) (host settings) (host settings) fun _ _ _ action other =>
      Matches related action other where
  lawful := lawful_alikeCode related settings
  pure _ := matches_pure _
  bind first next := first.bind fun value => next value (Valued.all_true value)
  inStmt related := related
  bindVar := by
    rintro frame name _ value rfl _
    exact matches_writeAt frame fun _ _ environments => environments.setVar frame name value
  bindFn frame _ _ definitions :=
    matches_writeAt frame fun _ _ environments => environments.setFn frame definitions
  fault _ := matches_throw .fault
  exhausted _ := matches_throw .exhausted
  raise _ _ _ := matches_throw _
  readVar := by
    rintro frame name _ _ rfl
    exact matches_readVar frame name
  readFn := by
    rintro frame callee _ args next otherNext _ rfl continuations
    exact matches_readFn settings frame callee fun definition other parent definitions =>
      continuations definition other parent definitions trivial
  print _ _ _ := matches_printLine _
  call definitions _ _ bodies := matches_call definitions _ _ bodies

end Eval

end ScopeScript
