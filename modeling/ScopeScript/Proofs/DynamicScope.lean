import ScopeScript.Proofs.ScopingModes
import ScopeScript.Proofs.StackEvaluator

/-!
Contract: under dynamic scoping the frames of a run are a plain stack.

Owns: environments whose frames are a stack, what look-ups in them find, the stack of tables
that an environment amounts to, the plain stack as a host of evaluation, and the agreement
with the evaluator that has only a stack.

The parent of a frame comes from the frame that the evaluator was handed, not from a stack.
That this frame is always the last one is carried through every action: from a machine whose
last frame it is, the action comes to such a machine again, however it ends.
-/

set_option autoImplicit false

namespace ScopeScript

/-! ## Environments that are stacks -/

namespace Environment

variable {environment : Environment} {top : FrameId}

/-- The frame is the last one, and the parent of every frame is the one before it. -/
structure IsStack (environment : Environment) (top : FrameId) : Prop where
  depth : environment.depth = top + 1
  stacked : environment.stacked = environment

namespace IsStack

theorem live (isStack : environment.IsStack top) : environment.isLive top = true := by
  rw [isLive_iff, isStack.depth]
  exact Nat.lt_succ_self top

theorem parent (isStack : environment.IsStack top) {frame : FrameId} {entry : Frame}
    (here : environment.frames[frame]? = some entry) : entry.parent = before? frame := by
  have stacked := environment.getElem?_stacked frame
  rw [isStack.stacked, here] at stacked
  exact congrArg Frame.parent (Option.some.inj stacked)

theorem of_parents (depth : environment.depth = top + 1)
    (parents : ∀ (frame : FrameId) (entry : Frame),
      environment.frames[frame]? = some entry → entry.parent = before? frame) :
    environment.IsStack top := by
  refine ⟨depth, environment.stacked_eq_self fun frame => ?_⟩
  cases here : environment.frames[frame]? with
  | none => rfl
  | some entry => exact congrArg some (parents frame entry here)

theorem empty : Environment.empty.IsStack root := by
  refine of_parents rfl fun frame entry here => ?_
  have first : frame = 0 := Nat.lt_one_iff.mp (Array.getElem?_eq_some_iff.mp here).1
  rw [frame_of_empty here, first]
  rfl

theorem modify (isStack : environment.IsStack top) (frame : FrameId) (change : Frame → Frame)
    (independent : ∀ (entry : Frame) (parent : Option FrameId),
      change { entry with parent := parent } = { change entry with parent := parent }) :
    IsStack ⟨environment.frames.modify frame change⟩ top where
  depth := by
    rw [← isStack.depth]
    exact Array.size_modify
  stacked := by rw [environment.stacked_modify frame change independent, isStack.stacked]

theorem setVar (isStack : environment.IsStack top) (frame : FrameId) (name : String)
    (value : Value) : (environment.setVar frame name value).IsStack top :=
  isStack.modify frame _ fun _ _ => rfl

theorem setVars (isStack : environment.IsStack top) (frame : FrameId)
    (bindings : List (String × Value)) : (environment.setVars frame bindings).IsStack top := by
  induction bindings generalizing environment with
  | nil => exact isStack
  | cons binding rest inductionHypothesis =>
      exact inductionHypothesis (isStack.setVar frame binding.1 binding.2)

theorem push (isStack : environment.IsStack top) : (environment.push top).IsStack (top + 1) where
  depth := by rw [depth_push, isStack.depth]
  stacked := by rw [environment.stacked_push isStack.depth top, isStack.stacked]

theorem pop (isStack : environment.IsStack (top + 1)) :
    (environment.pop (top + 1)).IsStack top where
  depth := by
    rw [depth_pop isStack.depth.symm, isStack.depth, Nat.add_sub_cancel]
    exact Nat.max_eq_right (Nat.le_add_left 1 top)
  stacked := by rw [environment.stacked_pop, isStack.stacked]

theorem of_agrees {writable : Option FrameId} {before after : Machine}
    (isStack : before.environment.IsStack top)
    (agree : before.AgreesOutside writable after) : after.environment.IsStack top := by
  refine of_parents (agree.depth.trans isStack.depth) fun frame entry here => ?_
  have parents := agree.parents frame
  rw [here, Option.map_some] at parents
  obtain ⟨old, oldHere, same⟩ := Option.map_eq_some_iff.mp parents.symm
  rw [← same]
  exact isStack.parent oldHere

/-- A call enters the frame after the last one, and the caller is its parent. -/
theorem enter {machine : Machine} (isStack : machine.environment.IsStack top) (name : String)
    (bindings : List (String × Value)) :
    (machine.enter name top bindings).environment.IsStack (top + 1) :=
  isStack.push.setVars machine.environment.next bindings

end IsStack

/-! ## Look-ups in a stack -/

/-- The answer is the entry of the name in the newest frame, up to the given one, that has an
entry for it. -/
def Newest {α : Type} (environment : Environment) (table : Frame → Table α) (name : String)
    (frame : FrameId) : Lookup α → Prop
  | .found value owner =>
      owner ≤ frame ∧
      (∃ entry, environment.frames[owner]? = some entry ∧
        (table entry).get? name = some value) ∧
      ∀ (newer : FrameId) (entry : Frame), owner < newer → newer ≤ frame →
        environment.frames[newer]? = some entry → (table entry).get? name = none
  | .unbound =>
      ∀ (other : FrameId) (entry : Frame), other ≤ frame →
        environment.frames[other]? = some entry → (table entry).get? name = none
  | .gone => False

/-- What is newest up to a frame is newest up to the next one, which does not bind the
name. -/
theorem Newest.succ {α : Type} {table : Frame → Table α} {name : String} {frame : FrameId}
    {entry : Frame} {answer : Lookup α} (newest : environment.Newest table name frame answer)
    (here : environment.frames[frame + 1]? = some entry)
    (free : (table entry).get? name = none) :
    environment.Newest table name (frame + 1) answer := by
  have freeAt : ∀ (other : FrameId) (found : Frame), other = frame + 1 →
      environment.frames[other]? = some found → (table found).get? name = none := by
    rintro other found rfl foundHere
    rw [here] at foundHere
    cases foundHere
    exact free
  cases answer with
  | found value owner =>
      obtain ⟨older, bound, newer⟩ := newest
      refine ⟨Nat.le_succ_of_le older, bound, fun other found above below foundHere => ?_⟩
      rcases Nat.le_succ_iff.mp below with inside | last
      · exact newer other found above inside foundHere
      · exact freeAt other found last foundHere
  | unbound =>
      intro other found below foundHere
      rcases Nat.le_succ_iff.mp below with inside | last
      · exact newest other found inside foundHere
      · exact freeAt other found last foundHere
  | gone => exact newest

theorem Newest.of_bound {α : Type} {table : Frame → Table α} {name : String} {frame : FrameId}
    {entry : Frame} {value : α} (here : environment.frames[frame]? = some entry)
    (bound : (table entry).get? name = some value) :
    environment.Newest table name frame (.found value frame) :=
  ⟨Nat.le_refl frame, ⟨entry, here, bound⟩, fun _ _ above below _ =>
    absurd below (Nat.not_le_of_lt above)⟩

/-- In a stack a look-up finds the newest entry. -/
theorem IsStack.newest {α : Type} (isStack : environment.IsStack top)
    (table : Frame → Table α) (name : String) {frame : FrameId}
    (live : frame < environment.depth) :
    environment.Newest table name frame (environment.lookup table name frame) := by
  induction frame with
  | zero =>
      have here : environment.frames[0]? = some environment.frames[0] :=
        Array.getElem?_eq_getElem live
      have last : environment.frames[0].parent = none := isStack.parent here
      rw [lookup, here]
      cases bound : (table environment.frames[0]).get? name with
      | some value =>
          simp only [bound]
          exact .of_bound here bound
      | none =>
          simp only [bound, last]
          intro other entry below found
          rw [Nat.le_zero.mp below, here] at found
          cases found
          exact bound
  | succ previous inductionHypothesis =>
      have here : environment.frames[previous + 1]? = some environment.frames[previous + 1] :=
        Array.getElem?_eq_getElem live
      have link : environment.frames[previous + 1].parent = some previous := isStack.parent here
      rw [lookup, here]
      cases bound : (table environment.frames[previous + 1]).get? name with
      | some value =>
          simp only [bound]
          exact .of_bound here bound
      | none =>
          simp only [bound, link, Nat.lt_succ_self, if_true]
          exact (inductionHypothesis (Nat.lt_of_succ_lt live)).succ here bound

end Environment

/-! ## The stack of tables that an environment amounts to -/

/-- The tables of a frame. -/
def Stack.Level.ofFrame (entry : Frame) : Level where
  vars := entry.vars
  fns := entry.fns

/-- The tables of the frames, those of the last frame on top. -/
def Environment.levels (environment : Environment) : List Stack.Level :=
  (environment.frames.toList.map Stack.Level.ofFrame).reverse

namespace Environment

open Stack (Level)

variable {environment : Environment} {top : FrameId}

@[simp]
theorem length_levels (environment : Environment) :
    environment.levels.length = environment.depth := by
  simp [levels, depth]

theorem levels_push (environment : Environment) (parent : FrameId) :
    (environment.push parent).levels = Level.binding [] :: environment.levels := by
  rw [levels, push, Array.toList_push, List.map_append, List.reverse_append]
  rfl

/-- The last frame set apart from the others. -/
theorem IsStack.exists_push (isStack : environment.IsStack top) :
    ∃ (older : Array Frame) (entry : Frame),
      environment.frames = older.push entry ∧ older.size = top := by
  have size : environment.frames.size = top + 1 := isStack.depth
  have inhabited : environment.frames.size ≠ 0 := by omega
  obtain ⟨older, entry, frames⟩ := Array.eq_push_of_size_ne_zero inhabited
  refine ⟨older, entry, frames, ?_⟩
  rw [frames, Array.size_push] at size
  exact Nat.succ.inj size

/-- A change to the last frame is a change to the tables on top. -/
theorem IsStack.levels_modify (isStack : environment.IsStack top) {change : Frame → Frame}
    {write : Level → Level}
    (tables : ∀ entry, Level.ofFrame (change entry) = write (Level.ofFrame entry)) :
    levels ⟨environment.frames.modify top change⟩ = environment.levels.modifyHead write := by
  obtain ⟨older, entry, frames, rfl⟩ := isStack.exists_push
  have changed : (older.push entry).modify older.size change = older.push (change entry) := by
    apply Array.ext_getElem?
    intro position
    rw [Array.getElem?_modify, Array.getElem?_push, Array.getElem?_push]
    by_cases last : position = older.size
    · simp [last]
    · simp [last, Ne.symm last]
  rw [levels, levels, frames, changed]
  simp [tables]

theorem IsStack.levels_setVars (isStack : environment.IsStack top) {level : Level}
    {older : List Level} (levels : environment.levels = level :: older)
    (bindings : List (String × Value)) :
    (environment.setVars top bindings).levels =
      { level with
        vars := bindings.foldl (fun vars binding => vars.insert binding.1 binding.2) level.vars }
      :: older := by
  induction bindings generalizing environment level with
  | nil => exact levels
  | cons binding rest inductionHypothesis =>
      have written : (environment.setVar top binding.1 binding.2).levels =
          { level with vars := level.vars.insert binding.1 binding.2 } :: older := by
        have changed : (environment.setVar top binding.1 binding.2).levels =
            environment.levels.modifyHead fun level =>
              { level with vars := level.vars.insert binding.1 binding.2 } :=
          isStack.levels_modify fun _ => rfl
        rwa [levels] at changed
      exact inductionHypothesis (isStack.setVar top binding.1 binding.2) written

theorem IsStack.levels_pop (isStack : environment.IsStack (top + 1)) :
    (environment.pop (top + 1)).levels = environment.levels.tail := by
  obtain ⟨older, entry, frames, size⟩ := isStack.exists_push
  have several : 1 < environment.frames.size := by
    have depth : environment.frames.size = top + 2 := isStack.depth
    omega
  rw [Environment.pop, if_pos several, levels, levels, frames, ← size]
  simp

theorem IsStack.le_top (isStack : environment.IsStack top) {frame : FrameId} {entry : Frame}
    (here : environment.frames[frame]? = some entry) : frame ≤ top := by
  have inside : frame < environment.depth := (Array.getElem?_eq_some_iff.mp here).1
  rw [isStack.depth] at inside
  exact Nat.le_of_lt_succ inside

/-- The levels above and below a frame. -/
theorem levels_split {frame : FrameId} {entry : Frame}
    (here : environment.frames[frame]? = some entry) :
    environment.levels =
      ((environment.frames.toList.drop (frame + 1)).map Level.ofFrame).reverse ++
        Level.ofFrame entry ::
          ((environment.frames.toList.take frame).map Level.ofFrame).reverse := by
  rw [← Array.getElem?_toList] at here
  obtain ⟨inside, same⟩ := List.getElem?_eq_some_iff.mp here
  calc environment.levels
      = ((environment.frames.toList.take frame ++ environment.frames.toList.drop frame).map
          Level.ofFrame).reverse := by rw [List.take_append_drop, levels]
    _ = _ := by rw [List.drop_eq_getElem_cons inside, same]; simp

/-- In a stack a search from the top finds what a look-up from the last frame finds. -/
theorem IsStack.search_levels {α : Type} (isStack : environment.IsStack top)
    (table : Frame → Table α) (levelTable : Level → Table α)
    (tables : ∀ entry, levelTable (Level.ofFrame entry) = table entry) (name : String) :
    (∃ value owner, environment.lookup table name top = .found value owner ∧
        Stack.search levelTable name environment.levels = some value) ∨
      environment.lookup table name top = .unbound ∧
        Stack.search levelTable name environment.levels = none := by
  have newest := isStack.newest table name (isLive_iff.mp isStack.live)
  cases answer : environment.lookup table name top with
  | found value owner =>
      rw [answer] at newest
      obtain ⟨_, ⟨entry, here, bound⟩, newer⟩ := newest
      refine .inl ⟨value, owner, rfl, ?_⟩
      rw [Stack.search, List.findSome?_eq_some_iff]
      refine ⟨_, _, _, levels_split here, (tables entry).symm ▸ bound, ?_⟩
      intro level passed
      obtain ⟨later, member, rfl⟩ := List.mem_map.mp (List.mem_reverse.mp passed)
      obtain ⟨distance, laterHere⟩ := List.mem_iff_getElem?.mp member
      rw [List.getElem?_drop, Array.getElem?_toList] at laterHere
      rw [tables]
      have above : owner < owner + 1 + distance :=
        Nat.lt_of_lt_of_le (Nat.lt_succ_self owner) (Nat.le_add_right _ _)
      exact newer _ later above (isStack.le_top laterHere) laterHere
  | unbound =>
      rw [answer] at newest
      refine .inr ⟨rfl, ?_⟩
      rw [Stack.search, List.findSome?_eq_none_iff]
      intro level passed
      obtain ⟨entry, member, rfl⟩ := List.mem_map.mp (List.mem_reverse.mp passed)
      obtain ⟨frame, here⟩ := List.mem_iff_getElem?.mp member
      rw [Array.getElem?_toList] at here
      rw [tables]
      exact newest frame entry (isStack.le_top here) here
  | gone =>
      rw [answer] at newest
      exact newest.elim

end Environment

/-- The state of a plain stack that a machine amounts to. -/
def Stack.State.ofMachine (machine : Machine) : State where
  levels := machine.environment.levels
  calls := machine.calls
  output := machine.output

theorem Stack.State.ofMachine_enter {machine : Machine} {top : FrameId}
    (isStack : machine.environment.IsStack top) (name : String)
    (bindings : List (String × Value)) :
    ofMachine (machine.enter name top bindings) =
      { ofMachine machine with
        levels := .binding bindings :: machine.environment.levels
        calls := machine.calls.push name } := by
  have next : machine.environment.next = top + 1 := isStack.depth
  have levels := isStack.push.levels_setVars
    (Environment.levels_push machine.environment top) bindings
  simp only [ofMachine, Machine.enter, next, levels]
  rfl

theorem Stack.State.ofMachine_leave {machine : Machine} {top : FrameId}
    (isStack : machine.environment.IsStack (top + 1)) :
    ofMachine (machine.leave (top + 1)) = (ofMachine machine).leave := by
  simp only [ofMachine, Machine.leave, isStack.levels_pop]
  rfl

/-! ## The plain stack as a host -/

namespace Stack

/-- The plain stack as a host.  Positions of frames are passed on, and nothing depends on
them. -/
def host : Host Action where
  halt := throw
  raise := raise
  readVar _ name := read Level.vars .undefinedVariable name
  readFn frame name := do
    let definition ← read Level.fns .undefinedFunction name
    pure (definition, frame)
  bindVar _ name value := write fun level => { level with vars := level.vars.insert name value }
  bindFn _ definition := write fun level =>
    { level with fns := level.fns.insert definition.name definition }
  print values := printLine (printedLine values)
  call definition parent values body := do
    enterCall definition.name
    enterLevel (.binding (definition.params.zip values))
    inCall (body (parent + 1))

theorem host_readFn_apply (frame : FrameId) (name : String) (state : State) :
    host.readFn frame name state =
      match search Level.fns name state.levels with
      | some definition => .ok (definition, frame) state
      | none => .error (.error (.ofCause (.undefinedFunction name))) state := by
  simp only [host]
  rw [bind_apply, read_apply]
  cases search Level.fns name state.levels <;> rfl

/-- A call is refused, finds no room, or runs its body with its parameters on top. -/
theorem host_call_apply (definition : FnDef ExprId) (parent : FrameId) (values : List Value)
    (body : FrameId → Action Value) (state : State) :
    host.call definition parent values body state =
      match state.calls.refusal? with
      | some cause => .error (.error (.ofCause cause)) state
      | none =>
          if state.levels.length < Environment.capacity then
            inCall (body (parent + 1))
              { state with
                levels := .binding (definition.params.zip values) :: state.levels
                calls := state.calls.push definition.name }
          else .error .fault { state with calls := state.calls.push definition.name } := by
  simp only [host]
  rw [bind_apply, enterCall]
  cases state.calls.refusal? with
  | some cause => rfl
  | none =>
      simp only
      rw [bind_apply, enterLevel]
      by_cases room : state.levels.length < Environment.capacity
      · simp only [room, if_true]
      · simp only [room, if_false]

section Layer

variable (plain : ExprId → Action Value) (frame : FrameId)

theorem host_evalAll (ids : List ExprId) :
    Host.evalAll (fun id _ => plain id) frame ids = evalAll plain ids := by
  induction ids with
  | nil => rfl
  | cons id rest inductionHypothesis => rw [Host.evalAll, evalAll, inductionHypothesis]

theorem host_execStmt (stmt : Stmt ExprId) :
    host.execStmt (fun id _ => plain id) frame stmt = execStmt plain stmt := by
  cases stmt <;> rfl

theorem host_execBlock (body : List (Stmt ExprId)) :
    host.execBlock (fun id _ => plain id) frame body = execBlock plain body := by
  induction body with
  | nil => rfl
  | cons stmt rest inductionHypothesis =>
      rw [Host.execBlock, execBlock, host_execStmt]
      refine bind_congr fun flow => ?_
      cases flow with
      | normal => exact inductionHypothesis
      | returned value => rfl

theorem host_applyFn (args : List ExprId) (definition : FnDef ExprId) (parent : FrameId) :
    host.applyFn (fun id _ => plain id) frame args definition parent = (do
      let values ← evalAll plain (args.take definition.params.length)
      call plain definition values) := by
  simp only [Host.applyFn, Host.runBody, host_evalAll, host_execBlock]
  rfl

theorem host_evalNode (node : Node) :
    host.evalNode (fun id _ => plain id) frame node = evalNode plain node := by
  cases node with
  | number value => rfl
  | text value => rfl
  | ident name => rfl
  | binary op left right => rfl
  | call callee args =>
      rw [Host.evalNode, evalNode, host_evalAll]
      split
      · rfl
      · simp only [host_applyFn]
        simp only [host, bind_assoc, pure_bind]

end Layer

theorem host_evalExpr (nodes : Array Node) (bound : Nat) :
    host.evalExpr nodes bound = fun id _ => evalExpr nodes bound id := by
  induction bound with
  | zero => rfl
  | succ bound inductionHypothesis =>
      funext id frame
      rw [Host.evalExpr, evalExpr, inductionHypothesis]
      cases nodes[id]? with
      | none => rfl
      | some node => exact host_evalNode _ frame node

end Stack

theorem Program.host_execOnStack (program : Program) :
    Stack.host.exec program.nodes program.nesting program.body = program.execOnStack := by
  rw [Host.exec, Stack.host_evalExpr, Stack.host_execBlock]
  rfl

/-! ## Actions -/

/-- The frame that code stands in. -/
def Site.frame : Site → FrameId
  | .expr frame => frame
  | .stmt frame => frame

/-- The result with the plain state in which it ends. -/
def Stack.ofResult {α : Type} :
    EStateM.Result Halt Machine α → EStateM.Result Halt Stack.State α
  | .ok value after => .ok value (.ofMachine after)
  | .error halt after => .error halt (.ofMachine after)

namespace Eval

open Stack (Level State Action ofResult)

variable {α β : Type} {top : FrameId}

/-- From a machine whose frames are a stack with `top` last, the second action does on the
plain stack what the first one does, and the frames are such a stack again, however the
actions end. -/
def Mirrors (top : FrameId) (action : Eval α) (plain : Action α) : Prop :=
  ∀ machine : Machine, machine.environment.IsStack top →
    plain (.ofMachine machine) = ofResult (action machine) ∧
      (lastMachine (action machine)).environment.IsStack top

theorem Mirrors.bind {action : Eval α} {plain : Action α} {next : α → Eval β}
    {plainNext : α → Action β} (actions : Mirrors top action plain)
    (continuations : ∀ value, Mirrors top (next value) (plainNext value)) :
    Mirrors top (action >>= next) (plain >>= plainNext) := by
  intro machine isStack
  obtain ⟨same, after⟩ := actions machine isStack
  rw [Stack.bind_apply, same, bind_apply]
  cases result : action machine with
  | ok value between =>
      rw [result] at after
      exact continuations value between after
  | error halt between =>
      rw [result] at after
      exact ⟨rfl, after⟩

theorem mirrors_pure (value : α) : Mirrors top (pure value) (pure value) :=
  fun _ isStack => ⟨rfl, isStack⟩

theorem mirrors_throw (halt : Halt) : Mirrors top (throw halt : Eval α) (throw halt) :=
  fun _ isStack => ⟨rfl, isStack⟩

theorem mirrors_printLine (line : String) :
    Mirrors top (printLine line) (Stack.printLine line) :=
  fun _ isStack => ⟨rfl, isStack⟩

theorem mirrors_readVar (name : String) :
    Mirrors top (readVar top name) (Stack.read Level.vars .undefinedVariable name) := by
  intro machine isStack
  rw [readVar_apply, Environment.getVar, Stack.read_apply, State.ofMachine]
  rcases isStack.search_levels Frame.vars Level.vars (fun _ => rfl) name with
    ⟨value, owner, found, searched⟩ | ⟨unbound, searched⟩
  · simp only [found, searched]
    exact ⟨rfl, isStack⟩
  · simp only [unbound, searched]
    exact ⟨rfl, isStack⟩

/-- A change to the frame that is last is a write to the tables on top. -/
theorem mirrors_writeAt {change : Frame → Frame} {write : Level → Level}
    (tables : ∀ entry, Level.ofFrame (change entry) = write (Level.ofFrame entry))
    (independent : ∀ (entry : Frame) (parent : Option FrameId),
      change { entry with parent := parent } = { change entry with parent := parent }) :
    Mirrors top
      (writeAt top fun environment => ⟨environment.frames.modify top change⟩)
      (Stack.write write) := by
  intro machine isStack
  rw [writeAt_of_live _ isStack.live]
  refine ⟨?_, isStack.modify top change independent⟩
  simp only [ofResult, State.ofMachine, isStack.levels_modify tables]
  rfl

/-- A body that runs in the next frame, and the call left in the end. -/
theorem Mirrors.inCall {body : Eval α} {plain : Action α} {machine : Machine}
    (bodies : Mirrors (top + 1) body plain)
    (isStack : machine.environment.IsStack (top + 1)) :
    Stack.inCall plain (.ofMachine machine) = ofResult (Eval.inCall (top + 1) body machine) ∧
      (lastMachine (Eval.inCall (top + 1) body machine)).environment.IsStack top := by
  obtain ⟨same, after⟩ := bodies machine isStack
  rw [Stack.inCall, same, Eval.inCall]
  cases result : body machine with
  | ok value last =>
      rw [result] at after
      exact ⟨congrArg (EStateM.Result.ok value) (State.ofMachine_leave after).symm, after.pop⟩
  | error halt last =>
      rw [result] at after
      exact ⟨congrArg (EStateM.Result.error _) (State.ofMachine_leave after).symm, after.pop⟩

theorem mirrors_readFn (limit : CallLimit) (callee : String)
    {next : FnDef ExprId → FrameId → Eval α} {plainNext : FnDef ExprId → FrameId → Action α}
    (continuations : ∀ definition, Mirrors top (next definition top) (plainNext definition top)) :
    Mirrors top
      ((host ⟨.dynamic, limit⟩).readFn top callee >>= fun found => next found.1 found.2)
      (Stack.host.readFn top callee >>= fun found => plainNext found.1 found.2) := by
  intro machine isStack
  rw [bind_apply, host_readFn_apply, Environment.getFn, Stack.bind_apply,
    Stack.host_readFn_apply]
  rcases isStack.search_levels Frame.fns Level.fns (fun _ => rfl) callee with
    ⟨definition, owner, found, searched⟩ | ⟨unbound, searched⟩
  · simp only [found, State.ofMachine, searched]
    exact continuations definition machine isStack
  · simp only [unbound, State.ofMachine, searched]
    exact ⟨rfl, isStack⟩

theorem mirrors_call (top : FrameId) (definition : FnDef ExprId) (values : List Value)
    {body : FrameId → Eval Value} {plain : FrameId → Action Value}
    (bodies : ∀ frame, Mirrors frame (body frame) (plain frame)) :
    Mirrors top (call definition top values body)
      (Stack.host.call definition top values plain) := by
  intro machine isStack
  have room : (State.ofMachine machine).levels.length < Environment.capacity ↔
      machine.environment.hasRoom = true := by
    simp [State.ofMachine, Environment.hasRoom, Environment.depth]
  have calls : (State.ofMachine machine).calls = machine.calls := rfl
  rw [Stack.host_call_apply, calls]
  -- the caller's frame is live, so a call without a frame is one without room
  rcases call_cases definition values body top machine with
    ⟨cause, refused, result⟩ | ⟨admitted, noFrame, result⟩ | ⟨admitted, framed, result⟩
  · rw [result]
    simp only [refused]
    exact ⟨rfl, isStack⟩
  · rw [isStack.live, Bool.true_and] at noFrame
    have full : ¬ (State.ofMachine machine).levels.length < Environment.capacity := by
      rw [room, noFrame]
      exact Bool.false_ne_true
    rw [result]
    simp only [admitted, if_neg full]
    exact ⟨rfl, isStack⟩
  · rw [isStack.live, Bool.true_and] at framed
    have next : machine.environment.next = top + 1 := isStack.depth
    have called := (bodies (top + 1)).inCall
      (isStack.enter definition.name (definition.params.zip values))
    rw [State.ofMachine_enter isStack] at called
    rw [result, next]
    simp only [admitted, if_pos (room.mpr framed)]
    exact called

/-! ## Evaluation -/

/-- The same code on both sides, with calls that ask their caller next. -/
def calledCode : Likeness :=
  { Likeness.same with parents := fun caller parent => parent = caller }

theorem sameCode_calledCode : calledCode.SameCode :=
  ⟨rfl, rfl, rfl, rfl⟩

theorem lockstep_mirrors (limit : CallLimit) :
    Lockstep calledCode (host ⟨.dynamic, limit⟩) Stack.host fun _ _ site action plain =>
      Mirrors site.frame action plain where
  lawful := sameCode_calledCode.lawful _ fun _ => trivial
  pure _ := mirrors_pure _
  bind first next := first.bind fun value => next value (Valued.all_true value)
  inStmt mirrors := mirrors
  bindVar := by
    rintro frame name _ value rfl _
    exact mirrors_writeAt (fun _ => rfl) fun _ _ => rfl
  bindFn := by
    rintro frame definition _ rfl
    exact mirrors_writeAt (fun _ => rfl) fun _ _ => rfl
  fault _ := mirrors_throw .fault
  exhausted _ := mirrors_throw .exhausted
  raise _ _ _ := mirrors_throw _
  readVar := by
    rintro frame name _ _ rfl
    exact mirrors_readVar name
  readFn := by
    rintro frame callee _ args next otherNext _ rfl continuations
    exact mirrors_readFn limit callee fun definition => continuations definition _ frame rfl rfl
  print _ _ _ := mirrors_printLine _
  call := by
    rintro frame _ definition _ values body plain rfl rfl _ bodies
    exact mirrors_call _ definition values bodies

end Eval

/-! ## Runs -/

theorem Program.mirrors_exec (program : Program) (limit : CallLimit) :
    Eval.Mirrors Environment.root (program.exec ⟨.dynamic, limit⟩) program.execOnStack := by
  have tables : Eval.calledCode.Tables program.nodes program.nodes :=
    Eval.sameCode_calledCode.tables fun _ _ => trivial
  rw [program.exec_eq_execUpTo, ← program.host_execUpTo, ← program.host_execOnStack]
  exact (Eval.lockstep_mirrors limit).exec tables program.nesting
    (Eval.sameCode_calledCode.blocks _ program.body)

theorem Program.runOnStack_eq (program : Program) (limit : CallLimit) (output : String) :
    program.runOnStack limit output = Stack.ofResult (program.run ⟨.dynamic, limit⟩ output) :=
  (program.mirrors_exec limit (Machine.initial limit output) Environment.IsStack.empty).1

/-- The frames are a stack, and the code is evaluated in the last of them. -/
def Moment.OnStack (moment : Moment) : Prop :=
  moment.machine.environment.IsStack moment.frame

theorem Moment.OnStack.of_enters {limit : CallLimit} {before after : Moment}
    (onStack : before.OnStack) (enters : Moment.Enters ⟨.dynamic, limit⟩ before after) :
    after.OnStack := by
  cases enters with
  | @call id callee definition frame owner machine between active values agree found live =>
      have isStack := Environment.IsStack.of_agrees onStack agree
      have next : between.environment.next = frame + 1 := isStack.depth
      rw [Moment.OnStack, next]
      exact isStack.enter definition.name (definition.params.zip values)

theorem Moment.OnStack.of_reaches {program : Program} {limit : CallLimit} {output : String}
    {moment : Moment} (reached : program.Reaches ⟨.dynamic, limit⟩ output moment) :
    moment.OnStack := by
  refine reached.induction Environment.IsStack.empty fun before after _ step onStack => ?_
  rcases step.stays_or_enters with stays | enters
  · rw [Moment.OnStack, stays.frame]
    exact Environment.IsStack.of_agrees onStack stays.agree
  · exact onStack.of_enters enters

/-- Dynamic scoping is a plain stack.  At every moment of a run the code is evaluated in the
last frame, the parent of every frame is the one before it, and there is one frame more than
there are active calls.  So every variable and every function is found in the newest frame
that binds it.  And the run ends as it does on a plain stack of tables that is searched from
the top, with the same result, the same tables, the same active calls and the same output. -/
theorem dynamic_scope_is_plain_stack (program : Program) (limit : CallLimit) (output : String) :
    (∀ moment, program.Reaches ⟨.dynamic, limit⟩ output moment →
      let environment := moment.machine.environment
      moment.frame + 1 = environment.depth ∧
      (∀ (frame : FrameId) (entry : Frame), environment.frames[frame]? = some entry →
        entry.parent = Environment.before? frame) ∧
      environment.depth = moment.machine.calls.depth + 1 ∧
      ∀ name,
        environment.Newest Frame.vars name moment.frame
          (environment.getVar moment.frame name) ∧
        environment.Newest Frame.fns name moment.frame
          (environment.getFn moment.frame name)) ∧
    program.runOnStack limit output =
      Stack.ofResult (program.run ⟨.dynamic, limit⟩ output) := by
  refine ⟨fun moment reached => ?_, program.runOnStack_eq limit output⟩
  have isStack : moment.machine.environment.IsStack moment.frame :=
    Moment.OnStack.of_reaches reached
  have framed := Moment.Framed.of_reaches reached
  refine ⟨isStack.depth.symm, fun _ _ here => isStack.parent here, ?_, fun name => ⟨?_, ?_⟩⟩
  · rw [framed.calls_depth, framed.depth]
  · exact isStack.newest Frame.vars name framed.live
  · exact isStack.newest Frame.fns name framed.live

/-- A function reads a variable that the top level and its caller bind.  It is defined at the
top level, but the caller's frame is newer. -/
theorem caller_binding_is_newest :
    let program : Program :=
      ⟨#[.text "outer", .text "inner", .ident "x", .call "f" [], .call "g" []],
        [.letBind "x" 0, .fnDef "f" [] [.ret 2], .fnDef "g" [] [.letBind "x" 1, .ret 3],
          .expr 4]⟩
    ∃ moment, program.Reaches ⟨.dynamic, none⟩ "" moment ∧ moment.code = .expr 2 ∧
      moment.machine.environment.depth = 3 ∧
      moment.machine.environment.Newest Frame.vars "x" 2 (.found (.text "inner") 1) := by
  intro program
  have start : program.Reaches ⟨.dynamic, none⟩ "" (program.start ⟨.dynamic, none⟩ "") := .refl
  have defined := ((start.step (.nextStmts rfl)).step (.nextStmts rfl)).step (.nextStmts rfl)
  have calling := (defined.step .firstStmt).step (.value rfl)
  have entered := calling.step (.body rfl (by decide)
    (by rw [Environment.getFn, Environment.lookup]; rfl) rfl rfl rfl)
  have bound := entered.step (.nextStmts rfl)
  have callingInner := (bound.step .firstStmt).step (.value rfl)
  have enteredInner := callingInner.step (.body rfl (by decide)
    ((Environment.lookup.eq_def _ _ _ _).trans (Environment.lookup.eq_def _ _ _ _)) rfl rfl rfl)
  have reading := (enteredInner.step .firstStmt).step (.value rfl)
  obtain ⟨_, _, _, newest⟩ := (dynamic_scope_is_plain_stack program none "").1 _ reading
  refine ⟨_, reading, rfl, rfl, Eq.mp (congrArg _ ?_) (newest "x").1⟩
  exact (Environment.lookup.eq_def _ _ _ _).trans (Environment.lookup.eq_def _ _ _ _)

end ScopeScript
