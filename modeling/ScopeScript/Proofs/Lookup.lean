import ScopeScript.Proofs.Actions

/-!
Contract: look-up in environments whose frames have older parents.

Owns: the order of frames, a condition on all functions that are bound, what a
look-up from a live frame answers, and how entering a frame and writing to one keep
the order and the condition.
-/

set_option autoImplicit false

namespace ScopeScript.Environment

variable {environment : Environment}

/-- The parent of every frame is an older one. -/
def Ordered (environment : Environment) : Prop :=
  ∀ (frame : FrameId) (entry : Frame) (parent : FrameId),
    environment.frames[frame]? = some entry → entry.parent = some parent → parent < frame

/-- Every function that is bound in some frame satisfies the condition. -/
def AllFns (condition : FnDef ExprId → Prop) (environment : Environment) : Prop :=
  ∀ (frame : FrameId) (entry : Frame) (name : String) (definition : FnDef ExprId),
    environment.frames[frame]? = some entry → entry.fns.get? name = some definition →
      condition definition

theorem AllFns.mono {condition weaker : FnDef ExprId → Prop}
    (all : environment.AllFns condition)
    (implies : ∀ definition, condition definition → weaker definition) :
    environment.AllFns weaker :=
  fun frame entry name definition here bound =>
    implies definition (all frame entry name definition here bound)

theorem isLive_iff {frame : FrameId} :
    environment.isLive frame = true ↔ frame < environment.depth := by
  simp [isLive, depth]

/-- Environments with the same frames are the same. -/
theorem ext_frames {first second : Environment}
    (same : ∀ frame : FrameId, first.frames[frame]? = second.frames[frame]?) : first = second := by
  cases first
  cases second
  exact congrArg Environment.mk (Array.ext_getElem? same)

/-! ## Answers of a look-up -/

/-- From a live frame a look-up finds an entry in a frame that is live too, or
nothing; it never comes to a frame that is gone. -/
theorem lookup_of_live {α : Type} (ordered : environment.Ordered) (table : Frame → Table α)
    (name : String) (frame : FrameId) (live : frame < environment.depth) :
    environment.lookup table name frame = .unbound ∨
      ∃ value owner entry, environment.lookup table name frame = .found value owner ∧
        owner < environment.depth ∧ environment.frames[owner]? = some entry ∧
        (table entry).get? name = some value := by
  induction frame using Nat.strongRecOn with
  | ind frame inductionHypothesis =>
      have here : environment.frames[frame]? = some environment.frames[frame] :=
        Array.getElem?_eq_getElem live
      rw [lookup, here]
      cases bound : (table environment.frames[frame]).get? name with
      | some value => exact .inr ⟨value, frame, _, by simp [bound], live, here, bound⟩
      | none =>
          cases link : environment.frames[frame].parent with
          | none => exact .inl (by simp [bound, link])
          | some parent =>
              have older : parent < frame := ordered frame _ parent here link
              simp only [bound, link, older, if_true]
              exact inductionHypothesis parent older (Nat.lt_trans older live)

/-- A look-up that finds an entry began at a live frame and ends at one that holds the
entry. -/
theorem lookup_found {α : Type} (ordered : environment.Ordered) {table : Frame → Table α}
    {name : String} {frame owner : FrameId} {value : α}
    (found : environment.lookup table name frame = .found value owner) :
    frame < environment.depth ∧ owner < environment.depth ∧
      ∃ entry, environment.frames[owner]? = some entry ∧ (table entry).get? name = some value := by
  have live : frame < environment.depth := by
    apply Nat.lt_of_not_le
    intro beyond
    rw [lookup, Array.getElem?_eq_none beyond] at found
    cases found
  rcases lookup_of_live ordered table name frame live with
    unbound | ⟨other, holder, entry, answer, inside, here, bound⟩
  · rw [unbound] at found
    cases found
  · rw [answer] at found
    cases found
    exact ⟨live, inside, entry, here, bound⟩

/-- An entry that a look-up finds is bound in some frame. -/
theorem lookup_bound {α : Type} {table : Frame → Table α} {name : String} {frame owner : FrameId}
    {value : α} (found : environment.lookup table name frame = .found value owner) :
    ∃ entry, environment.frames[owner]? = some entry ∧ (table entry).get? name = some value := by
  fun_induction lookup environment table name frame with
  | case1 frame gone => cases found
  | case2 frame entry here value bound =>
      cases found
      exact ⟨entry, here, bound⟩
  | case3 frame entry here missing last => cases found
  | case4 frame entry here missing parent link older inductionHypothesis =>
      exact inductionHypothesis found
  | case5 frame entry here missing parent link later => cases found

theorem getVar_ne_gone (ordered : environment.Ordered) {frame : FrameId} (name : String)
    (live : environment.isLive frame = true) : environment.getVar frame name ≠ .gone := by
  have answer := lookup_of_live ordered Frame.vars name frame (isLive_iff.mp live)
  rw [getVar]
  rcases answer with unbound | ⟨value, owner, entry, found, _⟩
  · simp [unbound]
  · simp [found]

theorem getFn_ne_gone (ordered : environment.Ordered) {frame : FrameId} (name : String)
    (live : environment.isLive frame = true) : environment.getFn frame name ≠ .gone := by
  have answer := lookup_of_live ordered Frame.fns name frame (isLive_iff.mp live)
  rw [getFn]
  rcases answer with unbound | ⟨value, owner, entry, found, _⟩
  · simp [unbound]
  · simp [found]

/-- The function that a look-up finds is bound in a live frame. -/
theorem getFn_found {condition : FnDef ExprId → Prop} (ordered : environment.Ordered)
    (all : environment.AllFns condition) {frame owner : FrameId} {name : String}
    {definition : FnDef ExprId} (live : environment.isLive frame = true)
    (found : environment.getFn frame name = .found definition owner) :
    condition definition ∧ environment.isLive owner = true := by
  have answer := lookup_of_live ordered Frame.fns name frame (isLive_iff.mp live)
  rw [getFn] at found
  rcases answer with unbound | ⟨value, holder, entry, answer, inside, here, bound⟩
  · rw [unbound] at found
    cases found
  · rw [answer] at found
    cases found
    exact ⟨all owner entry name definition here bound, isLive_iff.mpr inside⟩

/-! ## Entering a frame and writing to one -/

theorem frame_of_empty {frame : FrameId} {entry : Frame}
    (here : empty.frames[frame]? = some entry) : entry = Frame.empty none := by
  obtain ⟨inside, same⟩ := Array.getElem?_eq_some_iff.mp here
  have first : frame = 0 := Nat.lt_one_iff.mp inside
  subst first
  exact same.symm

theorem ordered_empty : empty.Ordered := by
  intro frame entry parent here linked
  rw [frame_of_empty here] at linked
  cases linked

theorem allFns_empty (condition : FnDef ExprId → Prop) : empty.AllFns condition := by
  intro frame entry name definition here bound
  rw [frame_of_empty here] at bound
  simp [Frame.empty] at bound

theorem ordered_push {parent : FrameId} (ordered : environment.Ordered)
    (live : environment.isLive parent = true) : (environment.push parent).Ordered := by
  intro frame entry link here linked
  rw [push, Array.getElem?_push] at here
  split at here
  · rename_i last
    cases here
    cases linked
    rw [last]
    exact isLive_iff.mp live
  · exact ordered frame entry link here linked

theorem allFns_push {condition : FnDef ExprId → Prop} (parent : FrameId)
    (all : environment.AllFns condition) : (environment.push parent).AllFns condition := by
  intro frame entry name definition here bound
  rw [push, Array.getElem?_push] at here
  split at here
  · cases here
    simp [Frame.empty] at bound
  · exact all frame entry name definition here bound

/-- A frame after a change to one frame was there before, and only that one is changed. -/
theorem getElem?_modify_eq_some {frame other : FrameId} {change : Frame → Frame} {entry : Frame}
    (here : (environment.frames.modify frame change)[other]? = some entry) :
    ∃ old, environment.frames[other]? = some old ∧
      entry = if frame = other then change old else old := by
  rw [Array.getElem?_modify] at here
  by_cases same : frame = other
  · rw [if_pos same] at here
    obtain ⟨old, found, changed⟩ := Option.map_eq_some_iff.mp here
    exact ⟨old, found, by rw [if_pos same, changed]⟩
  · rw [if_neg same] at here
    exact ⟨entry, here, by rw [if_neg same]⟩

/-- A frame after a change to one frame is an old frame or the changed one. -/
theorem getElem?_modify_cases {frame other : FrameId} {change : Frame → Frame} {entry : Frame}
    (here : (environment.frames.modify frame change)[other]? = some entry) :
    environment.frames[other]? = some entry ∨
      ∃ old, environment.frames[other]? = some old ∧ entry = change old := by
  obtain ⟨old, found, rfl⟩ := getElem?_modify_eq_some here
  split
  · exact .inr ⟨old, found, rfl⟩
  · exact .inl found

theorem ordered_modify (frame : FrameId) (change : Frame → Frame)
    (sameParent : ∀ entry, (change entry).parent = entry.parent)
    (ordered : environment.Ordered) :
    Ordered { frames := environment.frames.modify frame change } := by
  intro other entry parent here linked
  rcases getElem?_modify_cases here with same | ⟨old, found, rfl⟩
  · exact ordered other entry parent same linked
  · exact ordered other old parent found ((sameParent old).symm.trans linked)

theorem ordered_setVar (frame : FrameId) (name : String) (value : Value)
    (ordered : environment.Ordered) : (environment.setVar frame name value).Ordered :=
  ordered_modify frame _ (fun _ => rfl) ordered

theorem ordered_setFn (frame : FrameId) (definition : FnDef ExprId)
    (ordered : environment.Ordered) : (environment.setFn frame definition).Ordered :=
  ordered_modify frame _ (fun _ => rfl) ordered

theorem allFns_setVar {condition : FnDef ExprId → Prop} (frame : FrameId) (name : String)
    (value : Value) (all : environment.AllFns condition) :
    (environment.setVar frame name value).AllFns condition := by
  intro other entry function definition here bound
  rcases getElem?_modify_cases here with same | ⟨old, found, rfl⟩
  · exact all other entry function definition same bound
  · exact all other old function definition found bound

theorem allFns_setFn {condition : FnDef ExprId → Prop} (frame : FrameId)
    {definition : FnDef ExprId} (holds : condition definition)
    (all : environment.AllFns condition) :
    (environment.setFn frame definition).AllFns condition := by
  intro other entry function answer here bound
  rcases getElem?_modify_cases here with same | ⟨old, found, rfl⟩
  · exact all other entry function answer same bound
  · rw [Table.get?_insert] at bound
    split at bound
    · cases bound
      exact holds
    · exact all other old function answer found bound

theorem ordered_setVars (frame : FrameId) (bindings : List (String × Value))
    (ordered : environment.Ordered) : (environment.setVars frame bindings).Ordered := by
  induction bindings generalizing environment with
  | nil => exact ordered
  | cons binding rest inductionHypothesis =>
      exact inductionHypothesis (ordered_setVar frame binding.1 binding.2 ordered)

theorem allFns_setVars {condition : FnDef ExprId → Prop} (frame : FrameId)
    (bindings : List (String × Value)) (all : environment.AllFns condition) :
    (environment.setVars frame bindings).AllFns condition := by
  induction bindings generalizing environment with
  | nil => exact all
  | cons binding rest inductionHypothesis =>
      exact inductionHypothesis (allFns_setVar frame binding.1 binding.2 all)

/-- Leaving the last frame leaves one frame less, but never none. -/
theorem depth_pop {frame : FrameId} (last : frame + 1 = environment.depth) :
    (environment.pop frame).depth = max 1 (environment.depth - 1) := by
  have size : environment.frames.size = frame + 1 := last.symm
  rw [pop, depth, depth, size]
  split
  · simp only [Array.shrink_eq_take, Array.take_eq_extract, Array.size_extract, size]
    omega
  · omega

@[simp]
theorem depth_setVars (environment : Environment) (frame : FrameId)
    (bindings : List (String × Value)) :
    (environment.setVars frame bindings).depth = environment.depth := by
  induction bindings generalizing environment with
  | nil => rfl
  | cons binding rest inductionHypothesis =>
      exact (inductionHypothesis _).trans (depth_setVar environment frame binding.1 binding.2)

end ScopeScript.Environment
