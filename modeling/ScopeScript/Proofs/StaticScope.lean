import ScopeScript.Proofs.Moments

/-!
Contract: under lexical scoping the chain of a frame follows the text of the program.

Owns: the scope that is evaluated in a frame, moments whose code and whose bindings stand
where the text puts them, frames whose parents belong to the enclosing definitions, the
definitions around a frame, and the theorem on chains and variables.

A function is found by its name at each call, and its frame gets the frame in which it
was found as its parent.  That this frame belongs to the enclosing definition is an
invariant of runs: functions are bound only in frames whose block defines them.
-/

set_option autoImplicit false

namespace ScopeScript

/-! ## Code and bindings in their place -/

namespace Program

variable (program : Program) (active : List (FnDef ExprId))

/-- The scope whose code is evaluated in a frame: the top level, or that of the definition
whose call entered the frame. -/
def scopeAt : FrameId → Scope
  | 0 => program.topLevel
  | call + 1 => (active[call]?).elim ⟨[], []⟩ FnDef.scope

variable {program active}

theorem scopeAt_append {frame : FrameId} (live : frame ≤ active.length)
    (more : List (FnDef ExprId)) :
    program.scopeAt (active ++ more) frame = program.scopeAt active frame := by
  cases frame with
  | zero => rfl
  | succ call => rw [scopeAt, scopeAt, List.getElem?_append_left live]

theorem scopeAt_called {call : Nat} {definition : FnDef ExprId}
    (called : active[call]? = some definition) :
    program.scopeAt active (call + 1) = definition.scope := by
  rw [scopeAt, called]
  rfl

theorem scopeAt_last (definition : FnDef ExprId) :
    program.scopeAt (active ++ [definition]) (active.length + 1) = definition.scope :=
  scopeAt_called List.getElem?_concat_length

end Program

theorem Scope.mem_vars_of_let {scope : Scope} {name : String} {value : ExprId}
    (member : .letBind name value ∈ scope.body) : name ∈ scope.vars :=
  List.mem_append_right _ (List.mem_filterMap.mpr ⟨_, member, rfl⟩)

/-- The code stands in the block, and not in a definition of it. -/
def Code.StandsIn (nodes : Array Node) (block : List (Stmt ExprId)) : Code → Prop
  | .block stmts => stmts ⊆ block
  | .stmt single => single ∈ block
  | .exprs ids => ∀ id ∈ ids, Stmt.Holds nodes block id
  | .expr id => Stmt.Holds nodes block id

/-- Frames bind only variables and functions that satisfy the conditions. -/
structure Environment.BindsOnly (vars : FrameId → String → Prop)
    (fns : FrameId → String → FnDef ExprId → Prop) (environment : Environment) : Prop where
  var : ∀ (frame : FrameId) (entry : Frame) (name : String) (value : Value),
    environment.frames[frame]? = some entry → entry.vars.get? name = some value → vars frame name
  fn : ∀ (frame : FrameId) (entry : Frame) (name : String) (definition : FnDef ExprId),
    environment.frames[frame]? = some entry → entry.fns.get? name = some definition →
      fns frame name definition

namespace Environment.BindsOnly

variable {vars : FrameId → String → Prop} {fns : FrameId → String → FnDef ExprId → Prop}
  {environment : Environment}

theorem setVar (only : environment.BindsOnly vars fns) {frame : FrameId} {name : String}
    (holds : vars frame name) (value : Value) :
    (environment.setVar frame name value).BindsOnly vars fns where
  var other entry read bound here get := by
    rw [Environment.setVar, Array.getElem?_modify] at here
    split at here
    · rename_i same
      subst same
      obtain ⟨old, oldHere, rfl⟩ := Option.map_eq_some_iff.mp here
      rw [Table.get?_insert] at get
      split at get
      · rename_i same
        rw [same]
        exact holds
      · exact only.var frame old read bound oldHere get
    · exact only.var other entry read bound here get
  fn other entry function definition here get := by
    rcases getElem?_modify_cases here with same | ⟨old, oldHere, rfl⟩
    · exact only.fn other entry function definition same get
    · exact only.fn other old function definition oldHere get

theorem setFn (only : environment.BindsOnly vars fns) {frame : FrameId}
    {definition : FnDef ExprId} (holds : fns frame definition.name definition) :
    (environment.setFn frame definition).BindsOnly vars fns where
  var other entry read bound here get := by
    rcases getElem?_modify_cases here with same | ⟨old, oldHere, rfl⟩
    · exact only.var other entry read bound same get
    · exact only.var other old read bound oldHere get
  fn other entry function found here get := by
    rw [Environment.setFn, Array.getElem?_modify] at here
    split at here
    · rename_i same
      subst same
      obtain ⟨old, oldHere, rfl⟩ := Option.map_eq_some_iff.mp here
      rw [Table.get?_insert] at get
      split at get
      · rename_i same
        cases get
        rw [same]
        exact holds
      · exact only.fn frame old function found oldHere get
    · exact only.fn other entry function found here get

end Environment.BindsOnly

/-- The code of the moment stands in the block of its frame, every frame binds only what
its own block and parameters bind, and every frame but the last has an expression, which
called the next one. -/
structure Moment.Placed (program : Program) (moment : Moment) : Prop where
  code : moment.code.StandsIn program.nodes (program.scopeAt moment.active moment.frame).body
  bindings : moment.machine.environment.BindsOnly
    (fun frame name => name ∈ (program.scopeAt moment.active frame).vars)
    fun frame name definition =>
      name = definition.name ∧ definition.stmt ∈ (program.scopeAt moment.active frame).body
  callers : ∀ frame < moment.active.length,
    ∃ id, Stmt.Holds program.nodes (program.scopeAt moment.active frame).body id

namespace Moment.Placed

variable {program : Program} {settings : Settings} {output : String} {moment : Moment}

theorem start (program : Program) (settings : Settings) (output : String) :
    (program.start settings output).Placed program where
  code := List.Subset.refl _
  bindings := by
    refine ⟨?_, ?_⟩
    · intro frame entry name value here bound
      rw [Environment.frame_of_empty here] at bound
      cases bound
    · intro frame entry name definition here bound
      rw [Environment.frame_of_empty here] at bound
      cases bound
  callers frame below := absurd below (Nat.not_lt_zero frame)

/-- Other code of the same block, where no binding has changed. -/
theorem with_code {code later : Code} {frame : FrameId} {machine after : Machine}
    {active : List (FnDef ExprId)} (placed : Placed program ⟨code, frame, machine, active⟩)
    (same : after.environment = machine.environment)
    (stands : later.StandsIn program.nodes (program.scopeAt active frame).body) :
    Placed program ⟨later, frame, after, active⟩ where
  code := stands
  bindings := by
    rw [show (⟨later, frame, after, active⟩ : Moment).machine.environment = machine.environment
      from same]
    exact placed.bindings
  callers := placed.callers

/-- The frame of a call binds its parameters only. -/
theorem enter {id : ExprId} {frame parent : FrameId} {machine : Machine}
    {active : List (FnDef ExprId)} {definition : FnDef ExprId} {values : List Value}
    (placed : Placed program ⟨.expr id, frame, machine, active⟩)
    (framed : Framed settings ⟨.expr id, frame, machine, active⟩) :
    Placed program ⟨.block definition.body, machine.environment.next,
      machine.enter definition.name parent (definition.params.zip values),
      active ++ [definition]⟩ := by
  have next : machine.environment.next = active.length + 1 := framed.depth
  have last : frame = active.length := framed.last
  have older : ∀ {other : FrameId} {entry : Frame}, other ≠ machine.environment.next →
      (machine.enter definition.name parent
        (definition.params.zip values)).environment.frames[other]? = some entry →
      machine.environment.frames[other]? = some entry ∧ other ≤ active.length := by
    intro other entry different here
    rw [Machine.getElem?_enter, if_neg different] at here
    have live : other < machine.environment.depth := (Array.getElem?_eq_some_iff.mp here).1
    rw [framed.depth] at live
    exact ⟨here, Nat.le_of_lt_succ live⟩
  refine ⟨?_, ⟨?_, ?_⟩, ?_⟩
  · change definition.body ⊆
      (program.scopeAt (active ++ [definition]) machine.environment.next).body
    rw [next, Program.scopeAt_last]
    exact List.Subset.refl _
  · intro other entry name value here bound
    by_cases new : other = machine.environment.next
    · subst new
      rw [Machine.getElem?_enter, if_pos rfl] at here
      cases here
      rw [next, Program.scopeAt_last]
      rcases Frame.bound_of_bind bound with before | parameter
      · cases before
      · apply List.mem_append_left
        obtain ⟨⟨param, argument⟩, member, rfl⟩ := List.mem_map.mp parameter
        exact (List.of_mem_zip member).1
    · obtain ⟨oldHere, live⟩ := older new here
      rw [Program.scopeAt_append live]
      exact placed.bindings.var other entry name value oldHere bound
  · intro other entry name found here bound
    by_cases new : other = machine.environment.next
    · subst new
      rw [Machine.getElem?_enter, if_pos rfl] at here
      cases here
      cases bound
    · obtain ⟨oldHere, live⟩ := older new here
      rw [Program.scopeAt_append live]
      exact placed.bindings.fn other entry name found oldHere bound
  · intro other below
    rw [List.length_append, List.length_singleton] at below
    rw [Program.scopeAt_append (Nat.le_of_lt_succ below)]
    by_cases caller : other = active.length
    · rw [caller, ← last]
      exact ⟨id, placed.code⟩
    · exact placed.callers other (Nat.lt_of_le_of_ne (Nat.le_of_lt_succ below) caller)

theorem step {before after : Moment} (step : Moment.Step program settings before after)
    (framed : before.Framed settings) (placed : before.Placed program) :
    after.Placed program := by
  cases step with
  | firstStmt => exact placed.with_code rfl (placed.code List.mem_cons_self)
  | @nextStmts stmt rest frame machine after active completed =>
      have member : stmt ∈ (program.scopeAt active frame).body := placed.code List.mem_cons_self
      have others : rest ⊆ (program.scopeAt active frame).body :=
        fun _ inRest => placed.code (List.mem_cons_of_mem _ inRest)
      have done := Eval.execStmt_ok completed
      cases stmt with
      | letBind name value =>
          obtain ⟨_, bound, between, evaluated, _, rfl⟩ := done
          refine ⟨others, ?_, placed.callers⟩
          change (between.environment.setVar frame name bound).BindsOnly _ _
          rw [Program.environment_of_evalExpr evaluated]
          exact placed.bindings.setVar (Scope.mem_vars_of_let member) bound
      | fnDef name params body =>
          obtain ⟨_, _, rfl⟩ := done
          exact ⟨others, placed.bindings.setFn ⟨rfl, member⟩, placed.callers⟩
      | ret value => cases done.choose_spec.1
      | expr value =>
          obtain ⟨_, bound, evaluated⟩ := done
          exact placed.with_code (Program.environment_of_evalExpr evaluated) others
  | value value => exact placed.with_code rfl ⟨_, placed.code, _, value, .root⟩
  | firstExpr => exact placed.with_code rfl (placed.code _ List.mem_cons_self)
  | nextExprs evaluated =>
      exact placed.with_code (Program.environment_of_evalExpr evaluated)
        fun id member => placed.code id (List.mem_cons_of_mem _ member)
  | operands here =>
      refine placed.with_code rfl fun operand member => ?_
      obtain ⟨stmt, inBlock, root, value, occurs⟩ := placed.code
      exact ⟨stmt, inBlock, root, value,
        .operand occurs here (Node.operands_subset _ _ _ member)⟩
  | body here user found evaluated admitted parentFramed =>
      have agree := Program.agrees_of_evalAll evaluated
      exact (placed.with_code agree.environment_eq placed.code).enter
        (framed.of_stays (.of_agrees agree.weaken))

theorem of_reaches (reached : program.Reaches settings output moment) : moment.Placed program :=
  reached.induction (start program settings output)
    fun _ _ earlier last => step last (.of_reaches earlier)

end Moment.Placed

/-! ## Parents in their place -/

/-- The root has no parent, and the parent of the frame of a call belongs to a block that
makes the definition called. -/
structure Moment.Static (program : Program) (moment : Moment) : Prop where
  top : (moment.machine.environment.frames[Environment.root]?).map Frame.parent = some none
  call : ∀ (call : Nat) (definition : FnDef ExprId), moment.active[call]? = some definition →
    ∃ parent ≤ call,
      (moment.machine.environment.frames[call + 1]?).map Frame.parent = some (some parent) ∧
      definition.stmt ∈ (program.scopeAt moment.active parent).body

namespace Moment.Static

variable {program : Program} {limit : Option Nat} {output : String} {moment : Moment}

theorem of_stays {after : Moment} (stays : moment.Stays after)
    (static : moment.Static program) : after.Static program where
  top := (stays.agree.parents _).trans static.top
  call call definition called := by
    rw [stays.active] at called ⊢
    obtain ⟨parent, older, link, member⟩ := static.call call definition called
    exact ⟨parent, older, (stays.agree.parents _).trans link, member⟩

theorem start (program : Program) (settings : Settings) (output : String) :
    (program.start settings output).Static program where
  top := rfl
  call _ _ called := nomatch called

/-- The frame of a call is made under the frame in which the function was found. -/
theorem of_enters {after : Moment} (enters : Enters ⟨.lexical, limit⟩ moment after)
    (framed : moment.Framed ⟨.lexical, limit⟩) (placed : moment.Placed program)
    (static : moment.Static program) : after.Static program := by
  have kept := enters.frames_eq framed
  cases enters with
  | @call id callee definition frame owner machine between active values agree found live =>
      have depth : machine.environment.depth = active.length + 1 := framed.depth
      rw [agree.environment_eq] at found
      obtain ⟨_, ownerLive, entry, ownerHere, bound⟩ :=
        Environment.lookup_found framed.ordered found
      rw [depth] at ownerLive
      have ownerOlder : owner ≤ active.length := Nat.le_of_lt_succ ownerLive
      refine ⟨?_, ?_⟩
      · exact (congrArg _ (kept _ (Nat.zero_le _))).trans static.top
      · intro call called calledHere
        rcases called_of_concat calledHere with earlier | ⟨rfl, rfl⟩
        · obtain ⟨parent, parentOlder, link, member⟩ := static.call call called earlier
          have below : call < active.length := (List.getElem?_eq_some_iff.mp earlier).1
          refine ⟨parent, parentOlder, (congrArg _ (kept _ below)).trans link, ?_⟩
          rw [Program.scopeAt_append (Nat.le_trans parentOlder (Nat.le_of_lt below))]
          exact member
        · refine ⟨owner, ownerOlder, ?_, ?_⟩
          · have next : between.environment.next = active.length + 1 := agree.depth.trans depth
            change ((between.enter called.name owner _).environment.frames[
              active.length + 1]?).map Frame.parent = _
            rw [Machine.getElem?_enter, if_pos next.symm]
            rfl
          · rw [Program.scopeAt_append ownerOlder]
            exact (placed.bindings.fn owner entry callee called ownerHere bound).2

theorem of_reaches (reached : program.Reaches ⟨.lexical, limit⟩ output moment) :
    moment.Static program :=
  reached.induction (start program _ output) fun _ _ earlier last static =>
    last.stays_or_enters.elim (fun stays => static.of_stays stays)
      fun enters => static.of_enters enters (.of_reaches earlier) (.of_reaches earlier)

end Moment.Static

/-! ## The definitions around a frame -/

/-- The definitions whose calls entered the frame and the frames around it, each of them
made in the block of the next frame. -/
inductive Moment.Enclosed (program : Program) (moment : Moment) :
    FrameId → List (FnDef ExprId) → Prop where
  | top : Moment.Enclosed program moment Environment.root []
  | call {call : Nat} {parent : FrameId} {definition : FnDef ExprId}
      {outer : List (FnDef ExprId)} (called : moment.active[call]? = some definition)
      (older : parent ≤ call)
      (link : (moment.machine.environment.frames[call + 1]?).map Frame.parent = some (some parent))
      (made : definition.stmt ∈ (program.scopeAt moment.active parent).body)
      (around : Moment.Enclosed program moment parent outer) :
      Moment.Enclosed program moment (call + 1) (definition :: outer)

namespace Moment.Enclosed

variable {program : Program} {moment : Moment} {frame : FrameId}
  {definitions : List (FnDef ExprId)}

theorem innermost (enclosed : moment.Enclosed program frame definitions) :
    Stmt.innermost program.body definitions = (program.scopeAt moment.active frame).body := by
  cases enclosed with
  | top => rfl
  | call called =>
      rw [Program.scopeAt_called called]
      rfl

theorem nested (enclosed : moment.Enclosed program frame definitions) :
    Stmt.Nested program.body definitions := by
  induction enclosed with
  | top => trivial
  | call called older link made around inductionHypothesis =>
      refine ⟨?_, inductionHypothesis⟩
      rw [around.innermost]
      exact made

/-- Every frame has its definitions around it. -/
theorem of_static (static : moment.Static program) {frame : FrameId}
    (live : frame ≤ moment.active.length) :
    ∃ definitions, moment.Enclosed program frame definitions := by
  induction frame using Nat.strongRecOn with
  | ind frame inductionHypothesis =>
      cases frame with
      | zero => exact ⟨[], .top⟩
      | succ call =>
          have called : moment.active[call]? = some moment.active[call] :=
            List.getElem?_eq_getElem live
          obtain ⟨parent, older, link, made⟩ := static.call call _ called
          obtain ⟨outer, around⟩ := inductionHypothesis parent (Nat.lt_succ_of_le older)
            (Nat.le_trans older (Nat.le_of_lt live))
          exact ⟨_, .call called older link made around⟩

/-- The chain of a frame goes through calls of the definitions around it and ends at the
root. -/
theorem chain (enclosed : moment.Enclosed program frame definitions)
    (static : moment.Static program) :
    ∃ calls, (moment.machine.environment.chain frame).map Prod.fst = calls ++ [Environment.root] ∧
      calls.map moment.definitionOf = definitions.map some := by
  induction enclosed with
  | top =>
      obtain ⟨entry, here, last⟩ := Option.map_eq_some_iff.mp static.top
      rw [Environment.chain_of_root here last]
      exact ⟨[], rfl, rfl⟩
  | @call call parent definition outer called older link made around inductionHypothesis =>
      obtain ⟨calls, chain, entered⟩ := inductionHypothesis
      obtain ⟨entry, here, parentHere⟩ := Option.map_eq_some_iff.mp link
      rw [Environment.chain_of_parent here parentHere (Nat.lt_succ_of_le older), List.map_cons,
        chain]
      refine ⟨(call + 1) :: calls, rfl, ?_⟩
      rw [List.map_cons, List.map_cons, entered]
      exact congrArg (· :: _) called

end Moment.Enclosed

/-- A look-up finds entries in the frames of the chain only. -/
theorem Environment.lookup_mem_chain {α : Type} {environment : Environment}
    {table : Frame → Table α} {name : String} {frame owner : FrameId} {value : α}
    (found : environment.lookup table name frame = .found value owner) :
    owner ∈ (environment.chain frame).map Prod.fst := by
  induction frame using Nat.strongRecOn with
  | ind frame inductionHypothesis =>
      rw [Environment.lookup] at found
      rw [Environment.chain]
      cases here : environment.frames[frame]? with
      | none =>
          rw [here] at found
          cases found
      | some entry =>
          simp only [here] at found ⊢
          cases bound : (table entry).get? name with
          | some _ =>
              simp only [bound] at found
              cases found
              split
              · exact List.mem_cons_self
              · split
                · exact List.mem_cons_self
                · exact List.mem_cons_self
          | none =>
              simp only [bound] at found
              cases link : entry.parent with
              | none =>
                  simp only [link] at found
                  cases found
              | some parent =>
                  simp only [link] at found ⊢
                  split at found
                  · rename_i older
                    rw [if_pos older]
                    exact List.mem_cons_of_mem _ (inductionHypothesis parent older found)
                  · cases found

/-! ## Chains follow the text -/

/-- The code stands inside the definitions, the innermost first, and the chain of its
frame goes through the calls, one for each of the definitions, to the root. -/
structure Moment.FollowsText (program : Program) (moment : Moment)
    (definitions : List (FnDef ExprId)) (calls : List FrameId) : Prop where
  nested : Stmt.Nested program.body definitions
  inside : moment.code.StandsIn program.nodes (Stmt.innermost program.body definitions)
  chain : (moment.machine.environment.chain moment.frame).map Prod.fst =
    calls ++ [Environment.root]
  entered : calls.map moment.definitionOf = definitions.map some
  /-- A variable that can be read is one of the top level, bound in the root, or one of a
  definition around the code, bound in the call of that definition. -/
  reads : ∀ (name : String) (value : Value) (owner : FrameId),
    moment.machine.environment.getVar moment.frame name = .found value owner →
      (owner = Environment.root ∧ name ∈ program.topLevel.vars) ∨
        ∃ definition ∈ definitions, owner ∈ calls ∧
          moment.definitionOf owner = some definition ∧ name ∈ definition.scope.vars

theorem Moment.Placed.var_found {program : Program} {settings : Settings} {moment : Moment}
    (placed : moment.Placed program) (framed : moment.Framed settings) {name : String}
    {value : Value} {owner : FrameId}
    (found : moment.machine.environment.getVar moment.frame name = .found value owner) :
    name ∈ (program.scopeAt moment.active owner).vars := by
  obtain ⟨_, _, entry, here, bound⟩ := Environment.lookup_found framed.ordered found
  exact placed.bindings.var owner entry name value here bound

theorem Moment.followsText {program : Program} {limit : Option Nat} {output : String}
    {moment : Moment} (reached : program.Reaches ⟨.lexical, limit⟩ output moment) :
    ∃ definitions calls, moment.FollowsText program definitions calls := by
  have framed := Framed.of_reaches reached
  have placed := Placed.of_reaches reached
  have static := Static.of_reaches reached
  obtain ⟨definitions, enclosed⟩ := Enclosed.of_static static (Nat.le_of_eq framed.last)
  obtain ⟨calls, chain, entered⟩ := enclosed.chain static
  refine ⟨definitions, calls, enclosed.nested, ?_, chain, entered, ?_⟩
  · rw [enclosed.innermost]
    exact placed.code
  · intro name value owner found
    have bound := placed.var_found framed found
    have onChain := Environment.lookup_mem_chain found
    rw [chain, List.mem_append, List.mem_singleton] at onChain
    rcases onChain with called | rfl
    · have definitionHere : moment.definitionOf owner ∈ definitions.map some := by
        rw [← entered]
        exact List.mem_map_of_mem called
      obtain ⟨definition, member, here⟩ := List.mem_map.mp definitionHere
      refine .inr ⟨definition, member, called, here.symm, ?_⟩
      cases owner with
      | zero => cases here
      | succ call =>
          rw [Program.scopeAt_called here.symm] at bound
          exact bound
    · exact .inl ⟨rfl, bound⟩

/-- At every moment of a run under lexical scoping the chain of the current frame follows
the text around the code: it goes through one call of each definition around the code, in
their order, and ends at the root.  Only the variables of these definitions and of the top
level can be read, and the chain is no longer than definitions are nested, and one. -/
theorem lexical_chain_follows_text {tokens : List Token} {program : Program}
    (parsed : parse tokens = .ok program) (limit : Option Nat) (output : String)
    (moment : Moment) (reached : program.Reaches ⟨.lexical, limit⟩ output moment) :
    ∃ definitions calls, moment.FollowsText program definitions calls ∧
      (∀ (id : ExprId) (others : List (FnDef ExprId)),
        Stmt.Holds program.nodes (Stmt.innermost program.body definitions) id →
        Stmt.Nested program.body others →
        Stmt.Holds program.nodes (Stmt.innermost program.body others) id → others = definitions) ∧
      (moment.machine.environment.chain moment.frame).length = definitions.length + 1 ∧
      definitions.length ≤ Stmt.levelsAll program.body := by
  obtain ⟨definitions, calls, follows⟩ := Moment.followsText reached
  refine ⟨definitions, calls, follows, ?_, ?_, follows.nested.length_le_levels⟩
  · intro id others holds nested otherHolds
    exact Program.nested_unique parsed nested follows.nested otherHolds holds
  · have positions := congrArg List.length follows.chain
    have entered := congrArg List.length follows.entered
    rw [List.length_map, List.length_append, List.length_singleton] at positions
    rw [List.length_map, List.length_map] at entered
    omega

theorem inner_call_follows_text :
    let tokens : List Token := [⟨.ident, "fn"⟩, ⟨.ident, "f"⟩, ⟨.leftParen, "("⟩, ⟨.ident, "a"⟩,
      ⟨.rightParen, ")"⟩, ⟨.leftBrace, "\x7b"⟩, ⟨.ident, "fn"⟩, ⟨.ident, "g"⟩, ⟨.leftParen, "("⟩,
      ⟨.rightParen, ")"⟩, ⟨.leftBrace, "\x7b"⟩, ⟨.ident, "return"⟩, ⟨.ident, "a"⟩,
      ⟨.semicolon, ";"⟩, ⟨.rightBrace, "\x7d"⟩, ⟨.ident, "return"⟩, ⟨.ident, "g"⟩,
      ⟨.leftParen, "("⟩, ⟨.rightParen, ")"⟩, ⟨.semicolon, ";"⟩, ⟨.rightBrace, "\x7d"⟩,
      ⟨.ident, "f"⟩, ⟨.leftParen, "("⟩, ⟨.text, "x"⟩, ⟨.rightParen, ")"⟩, ⟨.semicolon, ";"⟩]
    let inner : FnDef ExprId := ⟨"g", [], [.ret 0]⟩
    let outer : FnDef ExprId := ⟨"f", ["a"], [inner.stmt, .ret 1]⟩
    let program : Program :=
      ⟨#[.ident "a", .call "g" [], .text "x", .call "f" [2]], [outer.stmt, .expr 3]⟩
    parse tokens = .ok program ∧ ∃ moment, program.Reaches ⟨.lexical, none⟩ "" moment ∧
      moment.code = .expr 0 ∧ moment.active = [outer, inner] ∧
      ∃ definitions calls, moment.FollowsText program definitions calls ∧
        (moment.machine.environment.chain moment.frame).length = definitions.length + 1 := by
  intro tokens inner outer program
  have parsed : parse tokens = .ok program := by cbv
  have start : program.Reaches ⟨.lexical, none⟩ "" (program.start ⟨.lexical, none⟩ "") := .refl
  have outerDefined := start.step (.nextStmts rfl)
  have outerCalling := (outerDefined.step .firstStmt).step (.value rfl)
  have outerEntered := outerCalling.step (.body rfl (by decide)
    (by rw [Environment.getFn, Environment.lookup]; rfl) rfl rfl rfl)
  have innerDefined := outerEntered.step (.nextStmts rfl)
  have innerCalling := (innerDefined.step .firstStmt).step (.value rfl)
  have innerEntered := innerCalling.step (.body rfl (by decide)
    (by rw [Environment.getFn, Environment.lookup]; rfl) rfl rfl rfl)
  have reading := (innerEntered.step .firstStmt).step (.value rfl)
  obtain ⟨definitions, calls, follows, _, length, _⟩ :=
    lexical_chain_follows_text parsed none "" _ reading
  exact ⟨parsed, _, reading, rfl, rfl, definitions, calls, follows, length⟩

end ScopeScript
