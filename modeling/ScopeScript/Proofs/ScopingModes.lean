import ScopeScript.Proofs.Recursion

/-!
Contract: without name clashes both ways of scoping agree on runs that succeed.

Owns: scopes that share no name, the environment in which every frame asks the one before
it, look-ups there, and the agreement of the two ways of scoping.

Under dynamic scoping the parent of a frame is the frame before it.  So a dynamic run that
keeps up with a lexical one has the frames of the lexical run with other parents.  A
look-up in them passes frames that the lexical one does not ask.  These belong to other
scopes, since no scope is active twice, and do not bind the name.
-/

set_option autoImplicit false

namespace ScopeScript

/-! ## Scopes that share no name -/

/-- No variable is bound and no function is defined in both scopes. -/
def Scope.Apart (first second : Scope) : Prop :=
  first.vars.Disjoint second.vars ∧ first.fns.Disjoint second.fns

theorem Scope.mem_fns_of_stmt {scope : Scope} {name : String} {definition : FnDef ExprId}
    (made : name = definition.name ∧ definition.stmt ∈ scope.body) : name ∈ scope.fns := by
  obtain ⟨rfl, member⟩ := made
  exact List.mem_filterMap.mpr ⟨_, member, rfl⟩

instance : DecidableRel Scope.Apart := fun first second =>
  decidable_of_iff ((∀ name ∈ first.vars, name ∉ second.vars) ∧
    ∀ name ∈ first.fns, name ∉ second.fns) Iff.rfl

theorem Scope.Apart.symm {first second : Scope} (apart : first.Apart second) :
    second.Apart first :=
  ⟨List.disjoint_symm apart.1, List.disjoint_symm apart.2⟩

/-- Different frames belong to scopes that share no name. -/
theorem Program.scopeAt_apart {program : Program} (apart : program.scopes.Pairwise Scope.Apart)
    {active : List (FnDef ExprId)} (distinct : active.Nodup)
    (known : active ⊆ program.definitions) {first second : FrameId}
    (firstLive : first ≤ active.length) (secondLive : second ≤ active.length)
    (different : first ≠ second) :
    (program.scopeAt active first).Apart (program.scopeAt active second) := by
  rw [Program.scopes, List.pairwise_cons, List.pairwise_map] at apart
  obtain ⟨top, others⟩ := apart
  have topApart : ∀ {call : Nat}, call < active.length →
      program.topLevel.Apart (program.scopeAt active (call + 1)) := by
    intro call inside
    rw [Program.scopeAt_called (List.getElem?_eq_getElem inside)]
    exact top _ (List.mem_map_of_mem (known (List.getElem_mem inside)))
  cases first with
  | zero =>
      cases second with
      | zero => exact absurd rfl different
      | succ call => exact topApart secondLive
  | succ firstCall =>
      cases second with
      | zero => exact (topApart firstLive).symm
      | succ secondCall =>
          have : Std.Symm fun one other : FnDef ExprId => one.scope.Apart other.scope :=
            ⟨fun _ _ => Scope.Apart.symm⟩
          rw [Program.scopeAt_called (List.getElem?_eq_getElem firstLive),
            Program.scopeAt_called (List.getElem?_eq_getElem secondLive)]
          apply others.forall (known (List.getElem_mem firstLive))
            (known (List.getElem_mem secondLive))
          intro same
          exact different (congrArg Nat.succ ((List.getElem_inj distinct).mp same))

/-! ## Frames that ask the one before them -/

namespace Environment

/-- The frame before, if there is one. -/
def before? : FrameId → Option FrameId
  | 0 => none
  | frame + 1 => some frame

/-- The same bindings, with the frame before as the parent of every frame. -/
def stacked (environment : Environment) : Environment where
  frames := environment.frames.mapIdx fun frame entry => { entry with parent := before? frame }

variable (environment : Environment)

theorem getElem?_stacked (frame : FrameId) :
    environment.stacked.frames[frame]? =
      (environment.frames[frame]?).map fun entry => { entry with parent := before? frame } := by
  rw [stacked, Array.getElem?_mapIdx]

@[simp]
theorem depth_stacked : environment.stacked.depth = environment.depth := by
  simp [stacked, depth]

theorem stacked_modify (frame : FrameId) (change : Frame → Frame)
    (independent : ∀ (entry : Frame) (parent : Option FrameId),
      change { entry with parent := parent } = { change entry with parent := parent }) :
    stacked ⟨environment.frames.modify frame change⟩ =
      ⟨environment.stacked.frames.modify frame change⟩ := by
  apply ext_frames
  intro other
  rw [getElem?_stacked, Array.getElem?_modify, Array.getElem?_modify, getElem?_stacked]
  by_cases same : frame = other
  · rw [if_pos same, if_pos same]
    cases environment.frames[other]? with
    | none => rfl
    | some entry => exact congrArg some (independent entry _).symm
  · rw [if_neg same, if_neg same]

theorem stacked_push {frame : FrameId} (last : environment.depth = frame + 1) (parent : FrameId) :
    stacked (environment.push parent) = environment.stacked.push frame := by
  apply ext_frames
  intro other
  have size : environment.stacked.frames.size = environment.frames.size :=
    depth_stacked environment
  rw [getElem?_stacked, push, push, Array.getElem?_push, Array.getElem?_push, size,
    getElem?_stacked]
  by_cases new : other = environment.frames.size
  · have next : other = frame + 1 := new.trans last
    rw [if_pos new, if_pos new, next]
    rfl
  · rw [if_neg new, if_neg new]

theorem stacked_pop (frame : FrameId) :
    stacked (environment.pop frame) = environment.stacked.pop frame := by
  have size : environment.stacked.frames.size = environment.frames.size :=
    depth_stacked environment
  rw [pop, pop, size]
  split
  · apply ext_frames
    intro other
    rw [getElem?_stacked]
    simp only [Array.shrink_eq_take, Array.take_eq_extract, Array.getElem?_extract, size]
    split
    · rw [Nat.zero_add, getElem?_stacked]
    · rfl
  · rfl

/-- Nothing changes where the frame before is the parent already. -/
theorem stacked_eq_self
    (parents : ∀ frame : FrameId, (environment.frames[frame]?).map Frame.parent =
      (environment.frames[frame]?).map fun _ => before? frame) :
    environment.stacked = environment := by
  apply ext_frames
  intro frame
  have parent := parents frame
  rw [getElem?_stacked]
  cases here : environment.frames[frame]? with
  | none => rfl
  | some entry =>
      rw [here] at parent
      have same : entry.parent = before? frame := Option.some.inj parent
      rw [Option.map_some, ← same]

/-- A look-up among stacked frames finds the one entry that there is. -/
theorem lookup_stacked {α : Type} {table : Frame → Table α}
    (independent : ∀ (entry : Frame) (parent : Option FrameId),
      table { entry with parent := parent } = table entry)
    {name : String} {owner : FrameId} {record : Frame} {value : α}
    (ownerHere : environment.frames[owner]? = some record)
    (bound : (table record).get? name = some value)
    (only : ∀ (other : FrameId) (entry : Frame), environment.frames[other]? = some entry →
      other ≠ owner → (table entry).get? name = none)
    {frame : FrameId} (live : frame < environment.depth) (older : owner ≤ frame) :
    environment.stacked.lookup table name frame = .found value owner := by
  induction frame with
  | zero =>
      obtain rfl := Nat.le_zero.mp older
      rw [lookup, getElem?_stacked, ownerHere]
      simp only [Option.map_some, independent, bound]
  | succ previous inductionHypothesis =>
      by_cases same : owner = previous + 1
      · subst same
        rw [lookup, getElem?_stacked, ownerHere]
        simp only [Option.map_some, independent, bound]
      · have here : environment.frames[previous + 1]? = some environment.frames[previous + 1] :=
          Array.getElem?_eq_getElem live
        have unbound := only (previous + 1) _ here (Ne.symm same)
        rw [lookup, getElem?_stacked, here]
        simp only [Option.map_some, independent, unbound, before?, Nat.lt_succ_self, if_true]
        exact inductionHypothesis (Nat.lt_of_succ_lt live)
          (Nat.le_of_lt_succ (Nat.lt_of_le_of_ne older same))

end Environment

/-! ## Agreement -/

/-- The machine whose frames ask the ones before them. -/
def Recast.stacked : Recast where
  frames := Environment.stacked
  calls active := active

namespace Moment

variable {program : Program} {tokens : List Token} {limit : Option Nat} {output : String}
  {machine : Machine} {moment : Moment}

/-- At a moment of a run that succeeds different frames belong to scopes that share no
name. -/
theorem scopes_apart (parsed : parse tokens = .ok program)
    (apart : program.scopes.Pairwise Scope.Apart)
    (succeeded : program.run ⟨.lexical, limit⟩ output = .ok () machine)
    (reached : program.Reaches ⟨.lexical, limit⟩ output moment) {first second : FrameId}
    {firstEntry secondEntry : Frame}
    (firstHere : moment.machine.environment.frames[first]? = some firstEntry)
    (secondHere : moment.machine.environment.frames[second]? = some secondEntry)
    (different : first ≠ second) :
    (program.scopeAt moment.active first).Apart (program.scopeAt moment.active second) := by
  have depth : moment.machine.environment.frames.size = moment.active.length + 1 :=
    (Framed.of_reaches reached).depth
  have live : ∀ {frame : FrameId} {entry : Frame},
      moment.machine.environment.frames[frame]? = some entry → frame ≤ moment.active.length := by
    intro frame entry here
    have inside := (Array.getElem?_eq_some_iff.mp here).1
    rw [depth] at inside
    exact Nat.le_of_lt_succ inside
  exact Program.scopeAt_apart apart (active_nodup parsed succeeded reached)
    (active_subset reached) (live firstHere) (live secondHere) different

/-- At a moment of a run that succeeds a look-up finds the same entry when every frame asks
the one before it. -/
theorem lookup_stacked (parsed : parse tokens = .ok program)
    (apart : program.scopes.Pairwise Scope.Apart)
    (succeeded : program.run ⟨.lexical, limit⟩ output = .ok () machine)
    (reached : program.Reaches ⟨.lexical, limit⟩ output moment) {α : Type}
    (table : Frame → Table α) (names : Scope → List String)
    (independent : ∀ (entry : Frame) (parent : Option FrameId),
      table { entry with parent := parent } = table entry)
    (disjoint : ∀ first second : Scope, first.Apart second →
      (names first).Disjoint (names second))
    (binds : ∀ (frame : FrameId) (entry : Frame) (name : String) (value : α),
      moment.machine.environment.frames[frame]? = some entry →
      (table entry).get? name = some value →
      name ∈ names (program.scopeAt moment.active frame))
    {name : String} {value : α} {owner : FrameId}
    (found : moment.machine.environment.lookup table name moment.frame = .found value owner) :
    moment.machine.environment.stacked.lookup table name moment.frame = .found value owner := by
  have framed := Framed.of_reaches reached
  obtain ⟨live, ownerLive, record, ownerHere, bound⟩ :=
    Environment.lookup_found framed.ordered found
  rw [framed.depth, ← framed.last] at ownerLive
  refine Environment.lookup_stacked _ independent ownerHere bound ?_ live
    (Nat.le_of_lt_succ ownerLive)
  intro other entry here different
  cases clash : (table entry).get? name with
  | none => rfl
  | some clashing =>
      have scopes := scopes_apart parsed apart succeeded reached here ownerHere different
      exact (disjoint _ _ scopes (binds other entry name clashing here clash)
        (binds owner record name value ownerHere bound)).elim

end Moment

theorem Recast.fits_stacked {program : Program} {tokens : List Token} {limit : Option Nat}
    {output : String} {machine : Machine} (parsed : parse tokens = .ok program)
    (apart : program.scopes.Pairwise Scope.Apart)
    (succeeded : program.run ⟨.lexical, limit⟩ output = .ok () machine) :
    stacked.Fits program ⟨.lexical, limit⟩ ⟨.dynamic, limit⟩ output where
  depth := Environment.depth_stacked
  setVar environment frame _ _ := environment.stacked_modify frame _ fun _ _ => rfl
  setFn environment frame _ := environment.stacked_modify frame _ fun _ _ => rfl
  pop := Environment.stacked_pop
  push environment _ owner last := environment.stacked_push last owner
  popCall _ := rfl
  pushCall _ _ := rfl
  getVar _ reached _ _ owner found :=
    ⟨owner, Moment.lookup_stacked parsed apart succeeded reached Frame.vars Scope.vars
      (fun _ _ => rfl) (fun _ _ names => names.1) (Moment.Placed.of_reaches reached).bindings.var
      found⟩
  getFn _ reached _ _ _ found :=
    Moment.lookup_stacked parsed apart succeeded reached Frame.fns Scope.fns (fun _ _ => rfl)
      (fun _ _ names => names.2)
      (fun frame entry name definition here bound =>
        Scope.mem_fns_of_stmt ((Moment.Placed.of_reaches reached).bindings.fn frame entry name
          definition here bound))
      found
  admits _ _ _ _ _ admitted := admitted

/-- A run that succeeds leaves the root alone, without a parent. -/
theorem Program.stacked_of_run {program : Program} {settings : Settings} {output : String}
    {after : Machine} (succeeded : program.run settings output = .ok () after) :
    after.environment.stacked = after.environment := by
  obtain ⟨flow, inner, block, ended⟩ := Eval.bind_eq_ok.mp succeeded
  have agree := Eval.keeps_execBlock (program.neutral settings) _ _ _ _ (.inl ⟨_, block⟩)
  have same : inner = after := by
    cases flow with
    | normal =>
        cases ended
        rfl
    | returned value => cases ended
  subst same
  apply Environment.stacked_eq_self
  intro frame
  cases frame with
  | zero =>
      have top : (inner.environment.frames[0]?).map Frame.parent = some none := agree.parents 0
      obtain ⟨entry, here, last⟩ := Option.map_eq_some_iff.mp top
      rw [here]
      exact congrArg some last
  | succ call =>
      have beyond : (inner.environment.frames[call + 1]?).map Frame.parent = none :=
        agree.parents (call + 1)
      rw [Option.map_eq_none_iff.mp beyond]
      rfl

/-- Where no variable is bound and no function is defined in two scopes of a program, a run
that succeeds under lexical scoping succeeds under dynamic scoping, with the same output
and the same bindings at the end. -/
theorem scoping_modes_agree {tokens : List Token} {program : Program}
    (parsed : parse tokens = .ok program) (apart : program.scopes.Pairwise Scope.Apart)
    (limit : Option Nat) (output : String) (after : Machine)
    (succeeded : program.run ⟨.lexical, limit⟩ output = .ok () after) :
    program.run ⟨.dynamic, limit⟩ output = .ok () after := by
  have result := (Recast.fits_stacked parsed apart succeeded).run rfl succeeded
  have same : Recast.stacked.apply after = after := by
    simp only [Recast.apply, Recast.stacked, Program.stacked_of_run succeeded]
  rw [same] at result
  exact result

theorem calls_under_both_modes :
    let tokens : List Token := [⟨.ident, "let"⟩, ⟨.ident, "x"⟩, ⟨.equal, "="⟩, ⟨.text, "t"⟩,
      ⟨.semicolon, ";"⟩, ⟨.ident, "fn"⟩, ⟨.ident, "h"⟩, ⟨.leftParen, "("⟩, ⟨.ident, "c"⟩,
      ⟨.rightParen, ")"⟩, ⟨.leftBrace, "\x7b"⟩, ⟨.ident, "print"⟩, ⟨.leftParen, "("⟩,
      ⟨.ident, "c"⟩, ⟨.comma, ","⟩, ⟨.ident, "x"⟩, ⟨.rightParen, ")"⟩, ⟨.semicolon, ";"⟩,
      ⟨.rightBrace, "\x7d"⟩, ⟨.ident, "fn"⟩, ⟨.ident, "f"⟩, ⟨.leftParen, "("⟩, ⟨.ident, "a"⟩,
      ⟨.rightParen, ")"⟩, ⟨.leftBrace, "\x7b"⟩, ⟨.ident, "fn"⟩, ⟨.ident, "g"⟩, ⟨.leftParen, "("⟩,
      ⟨.ident, "b"⟩, ⟨.rightParen, ")"⟩, ⟨.leftBrace, "\x7b"⟩, ⟨.ident, "h"⟩, ⟨.leftParen, "("⟩,
      ⟨.ident, "b"⟩, ⟨.rightParen, ")"⟩, ⟨.semicolon, ";"⟩, ⟨.rightBrace, "\x7d"⟩, ⟨.ident, "g"⟩,
      ⟨.leftParen, "("⟩, ⟨.ident, "a"⟩, ⟨.rightParen, ")"⟩, ⟨.semicolon, ";"⟩,
      ⟨.rightBrace, "\x7d"⟩, ⟨.ident, "f"⟩, ⟨.leftParen, "("⟩, ⟨.text, "s"⟩, ⟨.rightParen, ")"⟩,
      ⟨.semicolon, ";"⟩]
    let program : Program := ⟨#[.text "t", .ident "c", .ident "x", .call "print" [1, 2],
        .ident "b", .call "h" [4], .ident "a", .call "g" [6], .text "s", .call "f" [8]],
      [.letBind "x" 0, .fnDef "h" ["c"] [.expr 3],
        .fnDef "f" ["a"] [.fnDef "g" ["b"] [.expr 5], .expr 7], .expr 9]⟩
    parse tokens = .ok program ∧ program.scopes.Pairwise Scope.Apart ∧
      ∃ after, program.run ⟨.lexical, some 3⟩ "" = .ok () after ∧
        program.run ⟨.dynamic, some 3⟩ "" = .ok () after := by
  intro tokens program
  have parsed : parse tokens = .ok program := by cbv
  have apart : program.scopes.Pairwise Scope.Apart := by decide
  have succeeds : program.succeeds ⟨.lexical, some 3⟩ "" = true := by decide +kernel
  obtain ⟨after, succeeded⟩ := Program.run_of_succeeds succeeds
  exact ⟨parsed, apart, after, succeeded,
    scoping_modes_agree parsed apart (some 3) "" after succeeded⟩

end ScopeScript
