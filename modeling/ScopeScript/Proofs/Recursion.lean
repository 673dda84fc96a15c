import Mathlib.Data.List.Perm.Subperm
import ScopeScript.Proofs.StaticScope
import ScopeScript.Proofs.Transfer

/-!
Contract: under lexical scoping no definition is active twice in a run that succeeds.

Owns: moments at which the same functions are visible to the same code, the replay of a
path from one such moment at another, the moment at which an active call entered its
frame, the definitions of the active calls of a run that succeeds, and the limit on calls
that such a run can do with.

No statement decides by a value what comes next, so the functions that are visible
determine which calls the code makes.  A definition that is entered again under the same
frame sees the functions that it saw before.  It then comes to enter itself once more,
and so on: the run does not end well.
-/

set_option autoImplicit false

namespace ScopeScript

/-! ## Code that sees the same functions -/

def Frame.SameFns (first second : Frame) : Prop :=
  first.fns = second.fns

theorem Frame.SameFns.refl (entry : Frame) : entry.SameFns entry :=
  Eq.refl entry.fns

/-- The same code is evaluated where the same functions are visible. -/
structure Moment.Alike (first second : Moment) : Prop where
  code : first.code = second.code
  visible : Environment.ChainsMatch Frame.SameFns first.machine.environment
    second.machine.environment first.frame second.frame

namespace Environment.ChainsMatch

variable {first second : Environment} {left right : FrameId}

theorem getFn (matching : ChainsMatch Frame.SameFns first second left right) (name : String) :
    (first.getFn left name = .unbound ∧ second.getFn right name = .unbound) ∨
      ∃ definition leftOwner rightOwner, first.getFn left name = .found definition leftOwner ∧
        second.getFn right name = .found definition rightOwner ∧
        ChainsMatch Frame.SameFns first second leftOwner rightOwner := by
  apply matching.lookup
  intro leftEntry rightEntry same read
  rw [show leftEntry.fns = rightEntry.fns from same]

/-- Which operands a node evaluates depends on the visible functions only. -/
theorem operands (matching : ChainsMatch Frame.SameFns first second left right) (node : Node) :
    node.operands second right = node.operands first left := by
  cases node with
  | call callee args =>
      simp only [Node.operands]
      rcases matching.getFn callee with
        ⟨unbound, otherUnbound⟩ | ⟨definition, _, _, found, otherFound, _⟩
      · rw [unbound, otherUnbound]
      · rw [found, otherFound]
  | number _ | text _ | ident _ | binary _ _ _ => rfl

end Environment.ChainsMatch

/-! ## Replay -/

namespace Moment

variable {program : Program} {settings : Settings} {output : String}

/-- Statements that complete where the same functions are visible leave the same functions
visible. -/
theorem Alike.after_stmt {stmt : Stmt ExprId} {left right : FrameId}
    {first firstAfter second secondAfter : Machine}
    (visible : Environment.ChainsMatch Frame.SameFns first.environment second.environment
      left right)
    (firstCompleted : program.execStmt settings left stmt first = .ok .normal firstAfter)
    (secondCompleted : program.execStmt settings right stmt second = .ok .normal secondAfter) :
    Environment.ChainsMatch Frame.SameFns firstAfter.environment secondAfter.environment
      left right := by
  have firstDone := Eval.execStmt_ok firstCompleted
  have secondDone := Eval.execStmt_ok secondCompleted
  cases stmt with
  | letBind name value =>
      obtain ⟨_, firstBound, firstBetween, firstEvaluated, _, rfl⟩ := firstDone
      obtain ⟨_, secondBound, secondBetween, secondEvaluated, _, rfl⟩ := secondDone
      rw [← Program.environment_of_evalExpr firstEvaluated,
        ← Program.environment_of_evalExpr secondEvaluated] at visible
      exact visible.setVar fun _ _ same => same
  | fnDef name params body =>
      obtain ⟨_, _, rfl⟩ := firstDone
      obtain ⟨_, _, rfl⟩ := secondDone
      refine visible.setFn fun leftEntry rightEntry same => ?_
      exact congrArg (·.insert name ⟨name, params, body⟩) same
  | ret value => cases firstDone.choose_spec.1
  | expr value =>
      obtain ⟨_, _, firstEvaluated⟩ := firstDone
      obtain ⟨_, _, secondEvaluated⟩ := secondDone
      rw [Program.environment_of_evalExpr firstEvaluated,
        Program.environment_of_evalExpr secondEvaluated]
      exact visible

/-- Whether a statement returns is seen in its text. -/
theorem not_returned_of_normal {eval other : Eval.Evaluator} {stmt : Stmt ExprId}
    {frame otherFrame : FrameId} {before after otherBefore otherAfter : Machine} {value : Value}
    (completed : Eval.execStmt eval frame stmt before = .ok .normal after) :
    Eval.execStmt other otherFrame stmt otherBefore ≠ .ok (.returned value) otherAfter := by
  intro returned
  have done := Eval.execStmt_ok completed
  have otherDone := Eval.execStmt_ok returned
  cases stmt with
  | letBind name id => cases otherDone.1
  | fnDef name params body => cases otherDone.1
  | ret id => cases done.choose_spec.1
  | expr id => cases otherDone.1

/-- A call that evaluates well has found its function and entered its body. -/
theorem Succeeds.enters {id : ExprId} {callee : String} {args : List ExprId}
    {definition : FnDef ExprId} {frame owner : FrameId} {machine : Machine}
    {active : List (FnDef ExprId)} {bound : Nat} (enough : bound ≤ program.nesting)
    (success : Succeeds program settings bound ⟨.expr id, frame, machine, active⟩)
    (here : program.nodes[id]? = some (.call callee args)) (user : callee ≠ printName)
    (found : machine.environment.getFn frame callee = .found definition owner) :
    ∃ (values : List Value) (between : Machine), between.environment = machine.environment ∧
      Step program settings ⟨.expr id, frame, machine, active⟩
        ⟨.block definition.body, between.environment.next,
          between.enter definition.name (Eval.callParent settings frame owner)
            (definition.params.zip values),
          active ++ [definition]⟩ := by
  obtain ⟨value, last, result⟩ := success
  obtain ⟨smaller, values, between, rfl, evaluated, called⟩ :=
    Eval.evalExpr_call_ok here user found result
  have again := (Eval.approximates_evalAll
    (approximates (Nat.le_of_succ_le enough)) _ _).ok evaluated
  obtain ⟨admitted, framed, _⟩ := Eval.callWith_ok called
  exact ⟨values, between, (Program.agrees_of_evalAll again).environment_eq,
    .body here user found again admitted framed⟩

/-- A step is made again where the same functions are visible. -/
theorem Alike.step {before after other : Moment} (step : Step program settings before after)
    (alike : before.Alike other) {bound : Nat} (enough : bound ≤ program.nesting)
    (success : other.Succeeds program settings bound) :
    ∃ later, Step program settings other later ∧ after.Alike later ∧
      later.active.length + before.active.length = other.active.length + after.active.length := by
  obtain ⟨code, right, second, otherActive⟩ := other
  obtain ⟨rfl, visible⟩ := alike
  cases step with
  | firstStmt => exact ⟨_, .firstStmt, ⟨rfl, visible⟩, rfl⟩
  | @nextStmts stmt rest left first firstAfter active completed =>
      obtain ⟨flow, last, result⟩ := success
      rcases Eval.execBlock_cons_ok result with ⟨value, returned, _⟩ | ⟨between, normal, _⟩
      · exact absurd returned (not_returned_of_normal completed)
      · have again := (Eval.approximates_execStmt (approximates enough) _ _).ok normal
        exact ⟨_, .nextStmts again, ⟨rfl, after_stmt visible completed again⟩, rfl⟩
  | value value => exact ⟨_, .value value, ⟨rfl, visible⟩, rfl⟩
  | firstExpr => exact ⟨_, .firstExpr, ⟨rfl, visible⟩, rfl⟩
  | nextExprs evaluated =>
      obtain ⟨values, last, result⟩ := success
      obtain ⟨value, others, between, _, first, _⟩ := Eval.evalAll_cons_ok result
      have again := (approximates enough _ _).ok first
      rw [← Program.environment_of_evalExpr evaluated,
        ← Program.environment_of_evalExpr again] at visible
      exact ⟨_, .nextExprs again, ⟨rfl, visible⟩, rfl⟩
  | @operands id node left first active here =>
      refine ⟨_, .operands here, ⟨?_, visible⟩, rfl⟩
      exact congrArg Code.exprs (visible.operands node).symm
  | @body id callee args definition left owner first between active values here user found
      evaluated admitted framed =>
      have agree := Program.agrees_of_evalAll evaluated
      rcases visible.getFn callee with
        ⟨unbound, _⟩ | ⟨_, _, otherOwner, foundHere, otherFound, owners⟩
      · cases found.symm.trans unbound
      · cases found.symm.trans foundHere
        obtain ⟨otherValues, otherBetween, same, enters⟩ :=
          success.enters enough here user otherFound
        refine ⟨_, enters, ⟨rfl, ?_⟩, ?_⟩
        · apply Environment.ChainsMatch.enter
          · rw [agree.environment_eq, same]
            unfold Eval.callParent
            cases settings.scoping with
            | dynamic => exact visible
            | lexical => exact owners
          · rfl
        · simp only [List.length_append, List.length_singleton]
          omega

/-- A path is taken again where the same functions are visible. -/
theorem Alike.path {before after other : Moment}
    (path : Relation.ReflTransGen (Step program settings) before after)
    (alike : before.Alike other) {bound : Nat} (enough : bound ≤ program.nesting)
    (success : other.Succeeds program settings bound) :
    ∃ later, Relation.ReflTransGen (Step program settings) other later ∧ after.Alike later ∧
      later.active.length + before.active.length = other.active.length + after.active.length := by
  induction path with
  | refl => exact ⟨other, .refl, alike, rfl⟩
  | tail _ last inductionHypothesis =>
      obtain ⟨middle, again, middleAlike, length⟩ := inductionHypothesis
      obtain ⟨smaller, le, _, middleSuccess⟩ := succeeds_of_path again enough success
      obtain ⟨later, step, laterAlike, laterLength⟩ :=
        middleAlike.step last (Nat.le_trans le enough) middleSuccess
      exact ⟨later, again.tail step, laterAlike, by omega⟩

/-- Code that succeeds does not come back, inside further calls, to where it sees the same
functions. -/
theorem Alike.no_return {bound : Nat} (enough : bound ≤ program.nesting) {before after : Moment}
    (success : before.Succeeds program settings bound)
    (path : Relation.ReflTransGen (Step program settings) before after)
    (deeper : before.active.length < after.active.length) : ¬ before.Alike after := by
  -- the path can be taken again and again, and each time the bound gets smaller
  induction bound using Nat.strongRecOn generalizing before after with
  | ind bound inductionHypothesis =>
      intro alike
      obtain ⟨smaller, le, calls, afterSuccess⟩ := succeeds_of_path path enough success
      have smallerEnough := Nat.le_trans le enough
      obtain ⟨later, again, laterAlike, length⟩ := alike.path path smallerEnough afterSuccess
      exact inductionHypothesis smaller (by omega) smallerEnough afterSuccess again (by omega)
        laterAlike

/-! ## The moment at which a call was entered -/

/-- A step leaves the frames below the current one as they are, and all parents. -/
theorem Step.keeps {before after : Moment} (step : Step program settings before after)
    (framed : before.Framed settings) :
    before.active <+: after.active ∧
      (∀ frame < before.active.length, after.machine.environment.frames[frame]? =
        before.machine.environment.frames[frame]?) ∧
      ∀ frame ≤ before.active.length,
        (after.machine.environment.frames[frame]?).map Frame.parent =
          (before.machine.environment.frames[frame]?).map Frame.parent := by
  rcases step.stays_or_enters with stays | enters
  · refine ⟨stays.active ▸ List.prefix_refl _, fun frame below => ?_,
      fun frame _ => stays.agree.parents frame⟩
    apply stays.agree.frames
    rw [framed.last]
    exact fun same => Nat.ne_of_gt below (Option.some.inj same)
  · have kept := enters.frames_eq framed
    refine ⟨?_, fun frame below => kept frame (Nat.le_of_lt below),
      fun frame below => congrArg _ (kept frame below)⟩
    cases enters
    exact List.prefix_append _ _

/-- The call was entered at the moment `entry`, with no function defined in its frame, and
its code is being evaluated since. -/
structure EntersAt (program : Program) (settings : Settings) (entry : Moment) (call : Nat)
    (definition : FnDef ExprId) (moment : Moment) : Prop where
  code : entry.code = .block definition.body
  frame : entry.frame = call + 1
  active : entry.active = moment.active.take (call + 1)
  fresh : (entry.machine.environment.frames[call + 1]?).map Frame.fns = some Table.empty
  path : Relation.ReflTransGen (Step program settings) entry moment
  frames : ∀ frame ≤ call, moment.machine.environment.frames[frame]? =
    entry.machine.environment.frames[frame]?
  parent : (moment.machine.environment.frames[call + 1]?).map Frame.parent =
    (entry.machine.environment.frames[call + 1]?).map Frame.parent

theorem EntersAt.step {entry before after : Moment} {call : Nat} {definition : FnDef ExprId}
    (enters : EntersAt program settings entry call definition before)
    (called : call < before.active.length) (framed : before.Framed settings)
    (step : Step program settings before after) :
    EntersAt program settings entry call definition after := by
  obtain ⟨grown, frames, parents⟩ := step.keeps framed
  refine ⟨enters.code, enters.frame, ?_, enters.fresh, enters.path.tail step, ?_, ?_⟩
  · obtain ⟨more, same⟩ := grown
    rw [enters.active, ← same, List.take_append_of_le_length called]
  · intro frame below
    exact (frames frame (Nat.lt_of_le_of_lt below called)).trans (enters.frames frame below)
  · exact (parents (call + 1) called).trans enters.parent

theorem EntersAt.length {entry moment : Moment} {call : Nat} {definition : FnDef ExprId}
    (enters : EntersAt program settings entry call definition moment)
    (called : moment.active[call]? = some definition) : entry.active.length = call + 1 := by
  rw [enters.active, List.length_take]
  exact Nat.min_eq_left (List.getElem?_eq_some_iff.mp called).1

/-- Every active call was entered at a moment of the run. -/
def CallsEntered (program : Program) (settings : Settings) (output : String) (moment : Moment) :
    Prop :=
  ∀ (call : Nat) (definition : FnDef ExprId), moment.active[call]? = some definition →
    ∃ entry, program.Reaches settings output entry ∧
      EntersAt program settings entry call definition moment

theorem CallsEntered.step {before after : Moment}
    (entered : before.CallsEntered program settings output)
    (reached : program.Reaches settings output before)
    (step : Step program settings before after) : after.CallsEntered program settings output := by
  have framed := Framed.of_reaches reached
  have afterReached := reached.step step
  have kept : ∀ (call : Nat) (definition : FnDef ExprId), before.active[call]? = some definition →
      ∃ entry, program.Reaches settings output entry ∧
        EntersAt program settings entry call definition after := by
    intro call definition called
    obtain ⟨entry, entryReached, enters⟩ := entered call definition called
    exact ⟨entry, entryReached, enters.step (List.getElem?_eq_some_iff.mp called).1 framed step⟩
  intro call definition called
  rcases step.stays_or_enters with stays | enters
  · rw [stays.active] at called
    exact kept call definition called
  · cases enters with
    | @call id callee found frame owner machine between active values agree _ live =>
        rcases called_of_concat called with older | ⟨rfl, rfl⟩
        · exact kept call definition older
        · have depth : machine.environment.depth = active.length + 1 := framed.depth
          have next : between.environment.next = active.length + 1 := agree.depth.trans depth
          refine ⟨_, afterReached, rfl, next, ?_, ?_, .refl, fun _ _ => rfl, rfl⟩
          · exact (List.take_of_length_le (by simp)).symm
          · change ((between.enter definition.name _ _).environment.frames[
              active.length + 1]?).map Frame.fns = _
            rw [Machine.getElem?_enter, if_pos next.symm]
            rfl

theorem CallsEntered.of_reaches {moment : Moment}
    (reached : program.Reaches settings output moment) :
    moment.CallsEntered program settings output :=
  reached.induction (fun _ _ called => nomatch called) fun _ _ earlier last entered =>
    entered.step earlier last

/-! ## Distinct definitions -/

/-- A definition that is entered twice under the same frame sees the same functions. -/
theorem EntersAt.alike {earlier later moment : Moment} {first second : Nat} {parent : FrameId}
    {definition : FnDef ExprId}
    (firstEnters : EntersAt program settings earlier first definition later)
    (secondEnters : EntersAt program settings later second definition moment)
    (framed : later.Framed settings) (older : first < second) (parentOlder : parent ≤ first)
    (firstLink : (later.machine.environment.frames[first + 1]?).map Frame.parent =
      some (some parent))
    (secondLink : (later.machine.environment.frames[second + 1]?).map Frame.parent =
      some (some parent)) : earlier.Alike later := by
  obtain ⟨record, here, fns⟩ := Option.map_eq_some_iff.mp firstEnters.fresh
  obtain ⟨laterRecord, laterHere, laterFns⟩ := Option.map_eq_some_iff.mp secondEnters.fresh
  rw [firstEnters.parent, here] at firstLink
  rw [laterHere] at secondLink
  have parentBelow : parent < second + 1 :=
    Nat.lt_succ_of_le (Nat.le_trans parentOlder (Nat.le_of_lt older))
  have parentLive : parent < later.machine.environment.depth :=
    Nat.lt_trans parentBelow (Array.getElem?_eq_some_iff.mp laterHere).1
  -- from the parent on, both look at the same frames
  have around : Environment.ChainsMatch Frame.SameFns earlier.machine.environment
      later.machine.environment parent parent :=
    (Environment.ChainsMatch.refl framed.ordered Frame.SameFns.refl parentLive).congr
      (fun frame below => (firstEnters.frames frame (Nat.le_trans below parentOlder)).symm)
      fun _ _ => rfl
  refine ⟨firstEnters.code.trans secondEnters.code.symm, ?_⟩
  rw [firstEnters.frame, secondEnters.frame]
  exact .next here laterHere (fns.trans laterFns.symm) (Option.some.inj firstLink)
    (Option.some.inj secondLink) (Nat.lt_succ_of_le parentOlder) parentBelow around

/-- In a run that succeeds a definition is not entered twice under the same frame. -/
theorem not_entered_twice {machine : Machine} {moment : Moment}
    (succeeded : program.run settings output = .ok () machine)
    (reached : program.Reaches settings output moment) {first second : Nat} {parent : FrameId}
    {definition : FnDef ExprId} (older : first < second) (parentOlder : parent ≤ first)
    (firstCalled : moment.active[first]? = some definition)
    (secondCalled : moment.active[second]? = some definition)
    (firstLink : (moment.machine.environment.frames[first + 1]?).map Frame.parent =
      some (some parent))
    (secondLink : (moment.machine.environment.frames[second + 1]?).map Frame.parent =
      some (some parent)) : False := by
  obtain ⟨later, laterReached, secondEnters⟩ :=
    CallsEntered.of_reaches reached second definition secondCalled
  have laterCalled : later.active[first]? = some definition := by
    rw [secondEnters.active, List.getElem?_take_of_lt (Nat.lt_succ_of_lt older)]
    exact firstCalled
  obtain ⟨earlier, earlierReached, firstEnters⟩ :=
    CallsEntered.of_reaches laterReached first definition laterCalled
  rw [secondEnters.frames (first + 1) older] at firstLink
  rw [secondEnters.parent] at secondLink
  have alike := firstEnters.alike secondEnters (.of_reaches laterReached) older parentOlder
    firstLink secondLink
  obtain ⟨bound, enough, _, success⟩ :=
    succeeds_of_path earlierReached (Nat.le_refl _) (Program.succeeds_start succeeded)
  refine Alike.no_return enough success firstEnters.path ?_ alike
  rw [firstEnters.length laterCalled, secondEnters.length secondCalled]
  exact Nat.succ_lt_succ older

variable {limit : Option Nat}

/-- In a run that succeeds no two frames have the same definitions around them. -/
theorem Enclosed.injective {machine : Machine} {moment : Moment}
    (succeeded : program.run ⟨.lexical, limit⟩ output = .ok () machine)
    (reached : program.Reaches ⟨.lexical, limit⟩ output moment)
    {definitions : List (FnDef ExprId)} {first second : FrameId}
    (firstEnclosed : moment.Enclosed program first definitions)
    (secondEnclosed : moment.Enclosed program second definitions) : first = second := by
  induction firstEnclosed generalizing second with
  | top =>
      cases secondEnclosed
      rfl
  | @call firstCall parent definition outer called older link made around inductionHypothesis =>
      cases secondEnclosed with
      | @call secondCall otherParent _ _ otherCalled otherOlder otherLink _ otherAround =>
          obtain rfl := inductionHypothesis otherAround
          rcases Nat.lt_trichotomy firstCall secondCall with before | rfl | after
          · exact (not_entered_twice succeeded reached before older called otherCalled link
              otherLink).elim
          · rfl
          · exact (not_entered_twice succeeded reached after otherOlder otherCalled called
              otherLink link).elim

/-- The definitions of the active calls of a run that succeeds are all different. -/
theorem active_nodup {tokens : List Token} (parsed : parse tokens = .ok program)
    {machine : Machine} {moment : Moment}
    (succeeded : program.run ⟨.lexical, limit⟩ output = .ok () machine)
    (reached : program.Reaches ⟨.lexical, limit⟩ output moment) : moment.active.Nodup := by
  have placed := Placed.of_reaches reached
  have static := Static.of_reaches reached
  rw [List.Nodup, List.pairwise_iff_getElem]
  intro first second firstInside secondInside older same
  obtain ⟨firstAround, firstEnclosed⟩ := Enclosed.of_static static firstInside
  obtain ⟨secondAround, secondEnclosed⟩ := Enclosed.of_static static secondInside
  -- the earlier of the two calls has made a call itself, so there is code to tell it by
  obtain ⟨id, holds⟩ := placed.callers (first + 1) (Nat.lt_of_le_of_lt older secondInside)
  have scopes : program.scopeAt moment.active (first + 1) =
      program.scopeAt moment.active (second + 1) := by
    rw [Program.scopeAt_called (List.getElem?_eq_getElem firstInside),
      Program.scopeAt_called (List.getElem?_eq_getElem secondInside), same]
  have otherHolds := holds
  rw [scopes, ← secondEnclosed.innermost] at otherHolds
  rw [← firstEnclosed.innermost] at holds
  obtain rfl := Program.nested_unique parsed firstEnclosed.nested secondEnclosed.nested holds
    otherHolds
  have frames := Enclosed.injective succeeded reached firstEnclosed secondEnclosed
  exact Nat.ne_of_lt older (Nat.succ.inj frames)

theorem active_subset {moment : Moment}
    (reached : program.Reaches ⟨.lexical, limit⟩ output moment) :
    moment.active ⊆ program.definitions := by
  intro definition member
  obtain ⟨call, inside, rfl⟩ := List.getElem_of_mem member
  obtain ⟨definitions, enclosed⟩ := Enclosed.of_static (Static.of_reaches reached) inside
  have nested := enclosed.nested
  cases enclosed with
  | call called =>
      rw [List.getElem?_eq_getElem inside] at called
      cases called
      exact nested.mem_definitions

/-- A run that succeeds has no more active calls at a time than the program has
definitions. -/
theorem active_length_le {tokens : List Token} (parsed : parse tokens = .ok program)
    {machine : Machine} (succeeded : program.run ⟨.lexical, limit⟩ output = .ok () machine)
    (moment : Moment) (reached : program.Reaches ⟨.lexical, limit⟩ output moment) :
    moment.active.length ≤ program.definitions.length :=
  (List.subperm_of_subset (active_nodup parsed succeeded reached)
    (active_subset reached)).length_le

end Moment

/-! ## The limit that is enough -/

/-- The machine with another limit on its active calls. -/
def Recast.withLimit (limit : Nat) : Recast where
  frames environment := environment
  calls active := { active with limit := some limit }

theorem Recast.fits_withLimit {program : Program} {scoping : Scoping} {limit : Option Nat}
    {output : String} {enough : Nat}
    (short : ∀ moment, program.Reaches ⟨scoping, limit⟩ output moment →
      moment.active.length ≤ enough) :
    (withLimit enough).Fits program ⟨scoping, limit⟩ ⟨scoping, some enough⟩ output where
  depth _ := rfl
  setVar _ _ _ _ := rfl
  setFn _ _ _ := rfl
  pop _ _ := rfl
  push _ _ _ _ := rfl
  popCall _ := rfl
  pushCall _ _ := rfl
  getVar _ _ _ _ owner found := ⟨owner, found⟩
  getFn _ _ _ _ _ found := found
  admits moment reached calls name pushed _ := by
    have depth := (Moment.Framed.of_reaches reached).calls_depth
    rw [pushed, CallStack.depth_push] at depth
    have below : calls.depth < enough := by
      have bounded := short moment reached
      omega
    exact if_pos below

/-- Whether a run succeeds. -/
def Program.succeeds (program : Program) (settings : Settings) (output : String) : Bool :=
  match program.run settings output with
  | .ok _ _ => true
  | .error _ _ => false

theorem Program.run_of_succeeds {program : Program} {settings : Settings} {output : String}
    (succeeds : program.succeeds settings output = true) :
    ∃ after, program.run settings output = .ok () after := by
  unfold Program.succeeds at succeeds
  split at succeeds
  · rename_i after result
    exact ⟨after, result⟩
  · cases succeeds

/-- A run under lexical scoping that succeeds has no definition active twice at a time, so
it never has more active calls than the program has definitions, nested ones included, and
it succeeds and prints the same with that number as the limit. -/
theorem successful_runs_never_recurse {tokens : List Token} {program : Program}
    (parsed : parse tokens = .ok program) (limit : Option Nat) (output : String)
    (after : Machine) (succeeded : program.run ⟨.lexical, limit⟩ output = .ok () after) :
    (∀ moment, program.Reaches ⟨.lexical, limit⟩ output moment →
      moment.machine.calls.names.toList = moment.active.map FnDef.name ∧
      moment.active.Nodup ∧ moment.active ⊆ program.definitions ∧
      moment.machine.calls.depth ≤ program.definitions.length) ∧
    ∃ limited, program.run ⟨.lexical, some program.definitions.length⟩ output = .ok () limited ∧
      limited.output = after.output ∧ limited.environment = after.environment := by
  have short := Moment.active_length_le parsed succeeded
  refine ⟨?_, ?_⟩
  · intro moment reached
    have framed := Moment.Framed.of_reaches reached
    refine ⟨framed.names, Moment.active_nodup parsed succeeded reached,
      Moment.active_subset reached, ?_⟩
    rw [framed.calls_depth]
    exact short moment reached
  · exact ⟨_, (Recast.fits_withLimit short).run rfl succeeded, rfl, rfl⟩

theorem nested_calls_never_recurse :
    let tokens : List Token := [⟨.ident, "fn"⟩, ⟨.ident, "f"⟩, ⟨.leftParen, "("⟩,
      ⟨.rightParen, ")"⟩, ⟨.leftBrace, "\x7b"⟩, ⟨.ident, "return"⟩, ⟨.text, "x"⟩,
      ⟨.semicolon, ";"⟩, ⟨.rightBrace, "\x7d"⟩, ⟨.ident, "fn"⟩, ⟨.ident, "g"⟩, ⟨.leftParen, "("⟩,
      ⟨.rightParen, ")"⟩, ⟨.leftBrace, "\x7b"⟩, ⟨.ident, "return"⟩, ⟨.ident, "f"⟩,
      ⟨.leftParen, "("⟩, ⟨.rightParen, ")"⟩, ⟨.semicolon, ";"⟩, ⟨.rightBrace, "\x7d"⟩,
      ⟨.ident, "print"⟩, ⟨.leftParen, "("⟩, ⟨.ident, "g"⟩, ⟨.leftParen, "("⟩, ⟨.rightParen, ")"⟩,
      ⟨.rightParen, ")"⟩, ⟨.semicolon, ";"⟩]
    let program : Program := ⟨#[.text "x", .call "f" [], .call "g" [], .call "print" [2]],
      [.fnDef "f" [] [.ret 0], .fnDef "g" [] [.ret 1], .expr 3]⟩
    parse tokens = .ok program ∧ ∃ after, program.run ⟨.lexical, none⟩ "" = .ok () after ∧
      ∃ limited, program.run ⟨.lexical, some 2⟩ "" = .ok () limited ∧
        limited.output = after.output ∧ limited.environment = after.environment := by
  intro tokens program
  have parsed : parse tokens = .ok program := by cbv
  have succeeds : program.succeeds ⟨.lexical, none⟩ "" = true := by decide +kernel
  obtain ⟨after, succeeded⟩ := Program.run_of_succeeds succeeds
  exact ⟨parsed, after, succeeded,
    (successful_runs_never_recurse parsed none "" after succeeded).2⟩

end ScopeScript
