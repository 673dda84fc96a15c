import Mathlib.Data.List.Forall2
import ScopeScript.Proofs.FrameDiscipline
import ScopeScript.Proofs.Lookup

/-!
Contract: the frames that a look-up asks, and two environments side by side.

Owns: the chain of a frame, the frame that a call enters, chains of two environments
whose frames correspond one by one, what look-ups along such chains answer, and the
changes that keep the correspondence.

Positions on two chains need not be the same, only the frames at them correspond.  What
it means for two frames to correspond is a parameter: all their bindings may have to
agree, or only the functions.
-/

set_option autoImplicit false

namespace ScopeScript

/-! ## Chains -/

/-- The frame and its position, then those of its parent, and so on outwards. -/
def Environment.chain (environment : Environment) (frame : FrameId) : List (FrameId × Frame) :=
  match environment.frames[frame]? with
  | none => []
  | some entry =>
      match entry.parent with
      | none => [(frame, entry)]
      | some parent =>
          if parent < frame then (frame, entry) :: environment.chain parent
          else [(frame, entry)]
termination_by frame

theorem Environment.chain_of_root {environment : Environment} {frame : FrameId} {entry : Frame}
    (here : environment.frames[frame]? = some entry) (last : entry.parent = none) :
    environment.chain frame = [(frame, entry)] := by
  rw [Environment.chain, here]
  simp only [last]

theorem Environment.chain_of_parent {environment : Environment} {frame parent : FrameId}
    {entry : Frame} (here : environment.frames[frame]? = some entry)
    (link : entry.parent = some parent) (older : parent < frame) :
    environment.chain frame = (frame, entry) :: environment.chain parent := by
  rw [Environment.chain, here]
  simp only [link, older, if_true]

theorem Environment.chain_ne_nil {environment : Environment} {frame : FrameId}
    (live : frame < environment.depth) : environment.chain frame ≠ [] := by
  have here : environment.frames[frame]? = some environment.frames[frame] :=
    Array.getElem?_eq_getElem live
  rw [Environment.chain, here]
  simp only
  split
  · simp
  · split <;> simp

/-! ## The frame of a call -/

/-- The frame after variables have been bound in it, one after the other. -/
def Frame.bind (entry : Frame) (bindings : List (String × Value)) : Frame :=
  { entry with
    vars := bindings.foldl (fun vars binding => vars.insert binding.1 binding.2) entry.vars }

/-- A variable that is bound afterwards was bound before or is one of those bound. -/
theorem Frame.bound_of_bind {entry : Frame} {bindings : List (String × Value)} {name : String}
    {value : Value} (bound : (entry.bind bindings).vars.get? name = some value) :
    entry.vars.get? name = some value ∨ name ∈ bindings.map Prod.fst := by
  induction bindings generalizing entry with
  | nil => exact .inl bound
  | cons binding rest inductionHypothesis =>
      have rest : (Frame.bind { entry with vars := entry.vars.insert binding.1 binding.2 }
          rest).vars.get? name = some value := bound
      rcases inductionHypothesis rest with before | later
      · rw [Table.get?_insert] at before
        split at before
        · rename_i same
          exact .inr (by simp [same])
        · exact .inl before
      · exact .inr (by simp [later])

theorem Environment.getElem?_setVars (environment : Environment) (frame other : FrameId)
    (bindings : List (String × Value)) :
    (environment.setVars frame bindings).frames[other]? =
      if frame = other then (environment.frames[other]?).map (·.bind bindings)
      else environment.frames[other]? := by
  induction bindings generalizing environment with
  | nil =>
      have unchanged : (fun entry : Frame => entry.bind []) = id := rfl
      simp [Environment.setVars, unchanged]
  | cons binding rest inductionHypothesis =>
      have step := inductionHypothesis (environment.setVar frame binding.1 binding.2)
      change ((environment.setVar frame binding.1 binding.2).setVars frame rest).frames[other]? = _
      rw [step]
      by_cases same : frame = other
      · subst same
        simp only [Environment.setVar, Array.getElem?_modify, if_true, Option.map_map]
        rfl
      · simp [Environment.setVar, Array.getElem?_modify, same]

/-- A call adds one frame, which holds its arguments, and changes no other. -/
theorem Machine.getElem?_enter (machine : Machine) (name : String) (parent frame : FrameId)
    (bindings : List (String × Value)) :
    (machine.enter name parent bindings).environment.frames[frame]? =
      if frame = machine.environment.next then
        some ((Frame.empty (some parent)).bind bindings)
      else machine.environment.frames[frame]? := by
  change ((machine.environment.push parent).setVars _ bindings).frames[frame]? = _
  rw [Environment.getElem?_setVars, Environment.push, Array.getElem?_push]
  by_cases last : frame = machine.environment.next
  · simp [last, Environment.next]
  · have below : frame ≠ machine.environment.frames.size := last
    simp [last, Ne.symm last, below]

theorem Machine.getElem?_enter_of_live {machine : Machine} {frame : FrameId}
    (live : frame < machine.environment.depth) (name : String) (parent : FrameId)
    (bindings : List (String × Value)) :
    (machine.enter name parent bindings).environment.frames[frame]? =
      machine.environment.frames[frame]? := by
  have below : frame ≠ machine.environment.next := Nat.ne_of_lt live
  rw [Machine.getElem?_enter, if_neg below]

@[simp]
theorem Machine.depth_enter (machine : Machine) (name : String) (parent : FrameId)
    (bindings : List (String × Value)) :
    (machine.enter name parent bindings).environment.depth = machine.environment.depth + 1 := by
  simp [Machine.enter]

/-! ## Corresponding chains -/

namespace Environment

/-- From the two positions outwards, the frames on one chain correspond to those on the
other. -/
inductive ChainsMatch (related : Frame → Frame → Prop) (first second : Environment) :
    FrameId → FrameId → Prop where
  | last {left right : FrameId} {leftEntry rightEntry : Frame}
      (leftHere : first.frames[left]? = some leftEntry)
      (rightHere : second.frames[right]? = some rightEntry)
      (entries : related leftEntry rightEntry)
      (leftLast : leftEntry.parent = none) (rightLast : rightEntry.parent = none) :
      ChainsMatch related first second left right
  | next {left right leftParent rightParent : FrameId} {leftEntry rightEntry : Frame}
      (leftHere : first.frames[left]? = some leftEntry)
      (rightHere : second.frames[right]? = some rightEntry)
      (entries : related leftEntry rightEntry)
      (leftLink : leftEntry.parent = some leftParent)
      (rightLink : rightEntry.parent = some rightParent)
      (leftOlder : leftParent < left) (rightOlder : rightParent < right)
      (outer : ChainsMatch related first second leftParent rightParent) :
      ChainsMatch related first second left right

namespace ChainsMatch

variable {related : Frame → Frame → Prop} {first second : Environment} {left right : FrameId}

theorem entries_of_head (matching : ChainsMatch related first second left right) :
    ∃ leftEntry rightEntry, first.frames[left]? = some leftEntry ∧
      second.frames[right]? = some rightEntry ∧ related leftEntry rightEntry := by
  cases matching with
  | last leftHere rightHere entries => exact ⟨_, _, leftHere, rightHere, entries⟩
  | next leftHere rightHere entries => exact ⟨_, _, leftHere, rightHere, entries⟩

theorem live (matching : ChainsMatch related first second left right) :
    left < first.depth ∧ right < second.depth := by
  obtain ⟨_, _, leftHere, rightHere, _⟩ := matching.entries_of_head
  exact ⟨(Array.getElem?_eq_some_iff.mp leftHere).1, (Array.getElem?_eq_some_iff.mp rightHere).1⟩

/-- Chains of the same length whose frames correspond pairwise. -/
theorem of_chains (firstOrdered : first.Ordered) (secondOrdered : second.Ordered)
    (leftLive : left < first.depth) (rightLive : right < second.depth)
    (chains : List.Forall₂ (fun leftLink rightLink => related leftLink.2 rightLink.2)
      (first.chain left) (second.chain right)) : ChainsMatch related first second left right := by
  induction left using Nat.strongRecOn generalizing right with
  | ind left inductionHypothesis =>
      have leftHere : first.frames[left]? = some first.frames[left] :=
        Array.getElem?_eq_getElem leftLive
      have rightHere : second.frames[right]? = some second.frames[right] :=
        Array.getElem?_eq_getElem rightLive
      cases leftLink : first.frames[left].parent with
      | none =>
          rw [chain_of_root leftHere leftLink] at chains
          cases rightLink : second.frames[right].parent with
          | none =>
              rw [chain_of_root rightHere rightLink, List.forall₂_cons] at chains
              exact .last leftHere rightHere chains.1 leftLink rightLink
          | some rightParent =>
              have rightOlder := secondOrdered right _ rightParent rightHere rightLink
              rw [chain_of_parent rightHere rightLink rightOlder, List.forall₂_cons,
                List.forall₂_nil_left_iff] at chains
              exact absurd chains.2 (chain_ne_nil (Nat.lt_trans rightOlder rightLive))
      | some leftParent =>
          have leftOlder := firstOrdered left _ leftParent leftHere leftLink
          have leftParentLive := Nat.lt_trans leftOlder leftLive
          rw [chain_of_parent leftHere leftLink leftOlder] at chains
          cases rightLink : second.frames[right].parent with
          | none =>
              rw [chain_of_root rightHere rightLink, List.forall₂_cons,
                List.forall₂_nil_right_iff] at chains
              exact absurd chains.2 (chain_ne_nil leftParentLive)
          | some rightParent =>
              have rightOlder := secondOrdered right _ rightParent rightHere rightLink
              rw [chain_of_parent rightHere rightLink rightOlder, List.forall₂_cons] at chains
              exact .next leftHere rightHere chains.1 leftLink rightLink leftOlder rightOlder
                (inductionHypothesis leftParent leftOlder leftParentLive
                  (Nat.lt_trans rightOlder rightLive) chains.2)

/-- Only the frames up to the two positions matter. -/
theorem congr {firstAfter secondAfter : Environment}
    (matching : ChainsMatch related first second left right)
    (leftSame : ∀ frame ≤ left, firstAfter.frames[frame]? = first.frames[frame]?)
    (rightSame : ∀ frame ≤ right, secondAfter.frames[frame]? = second.frames[frame]?) :
    ChainsMatch related firstAfter secondAfter left right := by
  induction matching with
  | @last left right _ _ leftHere rightHere entries leftLast rightLast =>
      exact .last ((leftSame left (Nat.le_refl _)).trans leftHere)
        ((rightSame right (Nat.le_refl _)).trans rightHere) entries leftLast rightLast
  | @next left right _ _ _ _ leftHere rightHere entries leftLink rightLink leftOlder rightOlder
      _ inductionHypothesis =>
      refine .next ((leftSame left (Nat.le_refl _)).trans leftHere)
        ((rightSame right (Nat.le_refl _)).trans rightHere) entries leftLink rightLink
        leftOlder rightOlder (inductionHypothesis ?_ ?_)
      · exact fun frame below => leftSame frame (Nat.le_of_lt (Nat.lt_of_le_of_lt below leftOlder))
      · exact fun frame below =>
          rightSame frame (Nat.le_of_lt (Nat.lt_of_le_of_lt below rightOlder))

/-- Every chain corresponds to itself. -/
theorem refl {environment : Environment} (ordered : environment.Ordered)
    (reflexive : ∀ entry, related entry entry) {frame : FrameId}
    (live : frame < environment.depth) :
    ChainsMatch related environment environment frame frame :=
  of_chains ordered ordered live live (List.forall₂_same.mpr fun link _ => reflexive link.2)

/-- The frames at the head of the chains may change while they correspond and keep their
parents. -/
theorem change_heads {firstAfter secondAfter : Environment}
    (matching : ChainsMatch related first second left right)
    (leftChange rightChange : Frame → Frame)
    (leftHead : firstAfter.frames[left]? = (first.frames[left]?).map leftChange)
    (rightHead : secondAfter.frames[right]? = (second.frames[right]?).map rightChange)
    (leftSame : ∀ frame < left, firstAfter.frames[frame]? = first.frames[frame]?)
    (rightSame : ∀ frame < right, secondAfter.frames[frame]? = second.frames[frame]?)
    (leftParent : ∀ entry, (leftChange entry).parent = entry.parent)
    (rightParent : ∀ entry, (rightChange entry).parent = entry.parent)
    (keeps : ∀ leftEntry rightEntry, related leftEntry rightEntry →
      related (leftChange leftEntry) (rightChange rightEntry)) :
    ChainsMatch related firstAfter secondAfter left right := by
  cases matching with
  | last leftHere rightHere entries leftLast rightLast =>
      rw [leftHere] at leftHead
      rw [rightHere] at rightHead
      exact .last leftHead rightHead (keeps _ _ entries) ((leftParent _).trans leftLast)
        ((rightParent _).trans rightLast)
  | next leftHere rightHere entries leftLink rightLink leftOlder rightOlder outer =>
      rw [leftHere] at leftHead
      rw [rightHere] at rightHead
      refine .next leftHead rightHead (keeps _ _ entries) ((leftParent _).trans leftLink)
        ((rightParent _).trans rightLink) leftOlder rightOlder (outer.congr ?_ ?_)
      · exact fun frame below => leftSame frame (Nat.lt_of_le_of_lt below leftOlder)
      · exact fun frame below => rightSame frame (Nat.lt_of_le_of_lt below rightOlder)

theorem setVar {name : String} {leftValue rightValue : Value}
    (matching : ChainsMatch related first second left right)
    (keeps : ∀ leftEntry rightEntry, related leftEntry rightEntry →
      related { leftEntry with vars := leftEntry.vars.insert name leftValue }
        { rightEntry with vars := rightEntry.vars.insert name rightValue }) :
    ChainsMatch related (first.setVar left name leftValue)
      (second.setVar right name rightValue) left right := by
  refine matching.change_heads
    (fun entry => { entry with vars := entry.vars.insert name leftValue })
    (fun entry => { entry with vars := entry.vars.insert name rightValue })
    ?_ ?_ ?_ ?_ (fun _ => rfl) (fun _ => rfl) keeps
  · simp [Environment.setVar, Array.getElem?_modify]
  · simp [Environment.setVar, Array.getElem?_modify]
  · intro frame below
    simp [Environment.setVar, Array.getElem?_modify, Nat.ne_of_gt below]
  · intro frame below
    simp [Environment.setVar, Array.getElem?_modify, Nat.ne_of_gt below]

theorem setFn {definition : FnDef ExprId}
    (matching : ChainsMatch related first second left right)
    (keeps : ∀ leftEntry rightEntry, related leftEntry rightEntry →
      related { leftEntry with fns := leftEntry.fns.insert definition.name definition }
        { rightEntry with fns := rightEntry.fns.insert definition.name definition }) :
    ChainsMatch related (first.setFn left definition) (second.setFn right definition)
      left right := by
  refine matching.change_heads
    (fun entry => { entry with fns := entry.fns.insert definition.name definition })
    (fun entry => { entry with fns := entry.fns.insert definition.name definition })
    ?_ ?_ ?_ ?_ (fun _ => rfl) (fun _ => rfl) keeps
  · simp [Environment.setFn, Array.getElem?_modify]
  · simp [Environment.setFn, Array.getElem?_modify]
  · intro frame below
    simp [Environment.setFn, Array.getElem?_modify, Nat.ne_of_gt below]
  · intro frame below
    simp [Environment.setFn, Array.getElem?_modify, Nat.ne_of_gt below]

/-- Look-ups in corresponding tables give the same answer, and where they find an entry
the chains correspond from its owners on. -/
theorem lookup {α : Type} {table : Frame → Table α}
    (matching : ChainsMatch related first second left right)
    (tables : ∀ leftEntry rightEntry, related leftEntry rightEntry → ∀ name,
      (table leftEntry).get? name = (table rightEntry).get? name) (name : String) :
    (first.lookup table name left = .unbound ∧ second.lookup table name right = .unbound) ∨
      ∃ entry leftOwner rightOwner, first.lookup table name left = .found entry leftOwner ∧
        second.lookup table name right = .found entry rightOwner ∧
        ChainsMatch related first second leftOwner rightOwner := by
  induction matching with
  | @last left right leftEntry rightEntry leftHere rightHere entries leftLast rightLast =>
      have same := tables _ _ entries name
      rw [Environment.lookup, Environment.lookup, leftHere, rightHere]
      cases bound : (table rightEntry).get? name with
      | some entry =>
          simp only [same.trans bound, bound]
          exact .inr ⟨entry, left, right, rfl, rfl,
            .last leftHere rightHere entries leftLast rightLast⟩
      | none =>
          simp only [same.trans bound, bound, leftLast, rightLast]
          exact .inl ⟨trivial, trivial⟩
  | @next left right leftParent rightParent leftEntry rightEntry leftHere rightHere entries
      leftLink rightLink leftOlder rightOlder outer inductionHypothesis =>
      have same := tables _ _ entries name
      rw [Environment.lookup, leftHere]
      rw [Environment.lookup.eq_def second, rightHere]
      cases bound : (table rightEntry).get? name with
      | some entry =>
          simp only [same.trans bound, bound]
          exact .inr ⟨entry, left, right, rfl, rfl, .next leftHere rightHere entries leftLink
            rightLink leftOlder rightOlder outer⟩
      | none =>
          simp only [same.trans bound, bound, leftLink, rightLink, leftOlder, rightOlder, if_true]
          exact inductionHypothesis

end ChainsMatch

end Environment

/-- Calls that enter frames with corresponding parents enter corresponding frames. -/
theorem Environment.ChainsMatch.enter {related : Frame → Frame → Prop} {first second : Machine}
    {leftParent rightParent : FrameId} {leftName rightName : String}
    {leftBindings rightBindings : List (String × Value)}
    (parents : ChainsMatch related first.environment second.environment leftParent rightParent)
    (entries : related ((Frame.empty (some leftParent)).bind leftBindings)
      ((Frame.empty (some rightParent)).bind rightBindings)) :
    ChainsMatch related (first.enter leftName leftParent leftBindings).environment
      (second.enter rightName rightParent rightBindings).environment
      first.environment.next second.environment.next := by
  obtain ⟨leftLive, rightLive⟩ := parents.live
  refine .next ?_ ?_ entries rfl rfl leftLive rightLive (parents.congr ?_ ?_)
  · rw [Machine.getElem?_enter, if_pos rfl]
  · rw [Machine.getElem?_enter, if_pos rfl]
  · exact fun frame below =>
      Machine.getElem?_enter_of_live (Nat.lt_of_le_of_lt below leftLive) _ _ _
  · exact fun frame below =>
      Machine.getElem?_enter_of_live (Nat.lt_of_le_of_lt below rightLive) _ _ _

end ScopeScript
