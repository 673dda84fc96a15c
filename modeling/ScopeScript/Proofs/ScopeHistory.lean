import ScopeScript.Proofs.Lookup

/-!
Contract: an environment answers as the history of its changes says.

Owns: changes of an environment and when they are allowed, histories and what they say
about frames without building any, and the agreement of look-ups with them.

A position is used again after its frame was left.  So a history is read backwards, and
what it says about a frame ends at the change that entered the frame last.
-/

set_option autoImplicit false

namespace ScopeScript

/-! ## Changes -/

/-- A change of an environment. -/
inductive Change where
  | push (parent : FrameId)
  | pop (frame : FrameId)
  | setVar (frame : FrameId) (name : String) (value : Value)
  | setFn (frame : FrameId) (definition : FnDef ExprId)

namespace Change

/-- The environment after the change. -/
def apply (environment : Environment) : Change → Environment
  | push parent => environment.push parent
  | pop frame => environment.pop frame
  | setVar frame name value => environment.setVar frame name value
  | setFn frame definition => environment.setFn frame definition

/-- A parent is live, the last frame is the one that is left, and only live frames are
written to. -/
def allowed (environment : Environment) : Change → Bool
  | push parent => environment.isLive parent
  | pop frame => frame + 1 == environment.depth
  | setVar frame _ _ => environment.isLive frame
  | setFn frame _ => environment.isLive frame

/-- The value that the change gives to a variable of a frame. -/
def var? (frame : FrameId) (name : String) : Change → Option Value
  | setVar target other value => if target = frame ∧ name = other then some value else none
  | _ => none

/-- The definition that the change gives to a function of a frame. -/
def fn? (frame : FrameId) (name : String) : Change → Option (FnDef ExprId)
  | setFn target definition =>
      if target = frame ∧ name = definition.name then some definition else none
  | _ => none

end Change

/-! ## Histories -/

/-- Changes of an environment, the latest first. -/
abbrev History := List Change

namespace History

/-- The environment that the changes make, if each was allowed when it came. -/
def replay? : History → Option Environment
  | [] => some .empty
  | change :: earlier =>
      (replay? earlier).bind fun environment =>
        if change.allowed environment then some (change.apply environment) else none

/-- The number of frames.  The root stays. -/
def depth : History → Nat
  | [] => 1
  | .push _ :: earlier => depth earlier + 1
  | .pop _ :: earlier => max 1 (depth earlier - 1)
  | _ :: earlier => depth earlier

/-- The parent that a frame got when it was entered last. -/
def parent? : History → FrameId → Option FrameId
  | [], _ => none
  | .push parent :: earlier, frame =>
      if frame = depth earlier then some parent else parent? earlier frame
  | _ :: earlier, frame => parent? earlier frame

/-- The changes since a frame was entered last. -/
def since : History → FrameId → History
  | [], _ => []
  | .push parent :: earlier, frame =>
      if frame = depth earlier then [] else .push parent :: since earlier frame
  | change :: earlier, frame => change :: since earlier frame

/-- The frame, its parent, and so on outwards. -/
def chain (history : History) (frame : FrameId) : List FrameId :=
  match history.parent? frame with
  | none => [frame]
  | some parent => if parent < frame then frame :: history.chain parent else [frame]
termination_by frame

variable {α : Type} (written? : FrameId → String → Change → Option α)

/-- The latest entry that a name got in a frame since the frame was entered last. -/
def latest? (history : History) (frame : FrameId) (name : String) : Option α :=
  (history.since frame).findSome? (written? frame name)

/-- The latest entry of a name in the nearest frame that has one, and that frame. -/
def nearest? (history : History) (frame : FrameId) (name : String) : Option (α × FrameId) :=
  (history.chain frame).findSome? fun owner =>
    (history.latest? written? owner name).map fun entry => (entry, owner)

end History

/-- An entry with its frame is found, and nothing is unbound. -/
def Lookup.ofOption {α : Type} : Option (α × FrameId) → Lookup α
  | some (entry, owner) => .found entry owner
  | none => .unbound

/-! ## What a change does to a frame -/

namespace Change

variable {environment : Environment} {change : Change} {frame : FrameId} {entry : Frame}

/-- The frame after a change that neither enters nor leaves it. -/
def update (frame : FrameId) (entry : Frame) : Change → Frame
  | setVar target name value =>
      if target = frame then { entry with vars := entry.vars.insert name value } else entry
  | setFn target definition =>
      if target = frame then
        { entry with fns := entry.fns.insert definition.name definition }
      else entry
  | _ => entry

@[simp]
theorem parent_update (change : Change) (frame : FrameId) (entry : Frame) :
    (change.update frame entry).parent = entry.parent := by
  cases change with
  | push parent => rfl
  | pop last => rfl
  | setVar target name value => simp only [update]; split <;> rfl
  | setFn target definition => simp only [update]; split <;> rfl

/-- A frame after a change was just entered, or it was there before and is updated. -/
theorem entry_cases (after : (change.apply environment).frames[frame]? = some entry) :
    (∃ parent, change = .push parent ∧ frame = environment.depth ∧
      entry = Frame.empty (some parent)) ∨
    ∃ old, environment.frames[frame]? = some old ∧ entry = change.update frame old := by
  cases change with
  | push parent =>
      rw [apply, Environment.push, Array.getElem?_push] at after
      split at after
      · rename_i last
        exact .inl ⟨parent, rfl, last, (Option.some.inj after).symm⟩
      · exact .inr ⟨entry, after, rfl⟩
  | pop last =>
      refine .inr ⟨entry, ?_, rfl⟩
      rw [apply, Environment.pop] at after
      split at after
      · rw [Array.shrink_eq_take, Array.take_eq_extract, Array.getElem?_extract] at after
        split at after
        · rwa [Nat.zero_add] at after
        · cases after
      · exact after
  | setVar target name value => exact .inr (Environment.getElem?_modify_eq_some after)
  | setFn target definition => exact .inr (Environment.getElem?_modify_eq_some after)

/-- The table holds what changes write, and a new frame has none of it. -/
structure Records {α : Type} (table : Frame → Table α)
    (written? : FrameId → String → Change → Option α) : Prop where
  empty : ∀ parent, table (Frame.empty parent) = .empty
  update : ∀ (change : Change) (frame : FrameId) (entry : Frame) (name : String),
    (table (change.update frame entry)).get? name =
      (written? frame name change).or ((table entry).get? name)

theorem records_vars : Records Frame.vars var? where
  empty _ := rfl
  update change frame entry name := by
    cases change with
    | push parent => rfl
    | pop last => rfl
    | setVar target other value =>
        by_cases here : target = frame
        · by_cases same : name = other <;> simp [Change.update, var?, here, same]
        · simp [Change.update, var?, here]
    | setFn target definition => simp only [Change.update, var?]; split <;> rfl

theorem records_fns : Records Frame.fns fn? where
  empty _ := rfl
  update change frame entry name := by
    cases change with
    | push parent => rfl
    | pop last => rfl
    | setVar target other value => simp only [Change.update, fn?]; split <;> rfl
    | setFn target definition =>
        by_cases here : target = frame
        · by_cases same : name = definition.name <;> simp [Change.update, fn?, here, same]
        · simp [Change.update, fn?, here]

end Change

/-! ## What a change adds to a history -/

namespace History

variable {α : Type} {written? : FrameId → String → Change → Option α} {history : History}

/-- The root is never left. -/
theorem depth_pos (history : History) : 0 < history.depth := by
  induction history with
  | nil => exact Nat.zero_lt_one
  | cons change earlier inductionHypothesis =>
      cases change with
      | push parent => exact Nat.succ_pos _
      | pop frame => exact Nat.le_max_left _ _
      | setVar frame name value => exact inductionHypothesis
      | setFn frame definition => exact inductionHypothesis

theorem parent?_cons {frame : FrameId} (live : frame < history.depth) (change : Change) :
    History.parent? (change :: history) frame = history.parent? frame := by
  cases change with
  | push parent => rw [parent?, if_neg (Nat.ne_of_lt live)]
  | pop last => rfl
  | setVar target name value => rfl
  | setFn target definition => rfl

theorem latest?_cons {frame : FrameId} (live : frame < history.depth) (change : Change)
    (name : String) :
    latest? written? (change :: history) frame name =
      (written? frame name change).or (history.latest? written? frame name) := by
  have begins : since (change :: history) frame = change :: history.since frame := by
    cases change with
    | push parent => rw [since, if_neg (Nat.ne_of_lt live)]
    | pop last => rfl
    | setVar target other value => rfl
    | setFn target definition => rfl
  rw [latest?, begins, List.findSome?_cons]
  cases written? frame name change with
  | none => rfl
  | some entry => rfl

/-- The history tells the number of frames, their parents and their entries. -/
structure Describes (history : History) (environment : Environment) : Prop where
  depth : environment.depth = history.depth
  parents : ∀ (frame : FrameId) (entry : Frame),
    environment.frames[frame]? = some entry → entry.parent = history.parent? frame
  root : history.parent? Environment.root = none
  older : ∀ frame : FrameId, frame ≠ Environment.root → frame < environment.depth →
    ∃ parent, history.parent? frame = some parent ∧ parent < frame
  entries : ∀ {α : Type} {table : Frame → Table α}
    {written? : FrameId → String → Change → Option α}, Change.Records table written? →
    ∀ (frame : FrameId) (entry : Frame) (name : String),
      environment.frames[frame]? = some entry →
        (table entry).get? name = history.latest? written? frame name

namespace Describes

variable {environment : Environment} {change : Change}

theorem empty : Describes [] Environment.empty where
  depth := rfl
  parents frame entry here := by
    rw [Environment.frame_of_empty here]
    rfl
  root := rfl
  older frame inner live := absurd (Nat.lt_one_iff.mp live) inner
  entries records frame entry name here := by
    rw [Environment.frame_of_empty here, records.empty]
    rfl

theorem depth_apply (describes : history.Describes environment)
    (allowed : change.allowed environment = true) :
    (change.apply environment).depth = History.depth (change :: history) := by
  have before := describes.depth
  cases change with
  | push parent => rw [Change.apply, Environment.depth_push, before, History.depth]
  | pop frame =>
      rw [Change.apply, Environment.depth_pop (beq_iff_eq.mp allowed), before, History.depth]
  | setVar frame name value => exact (Environment.depth_setVar ..).trans before
  | setFn frame definition => exact (Environment.depth_setFn ..).trans before

theorem inhabited (describes : history.Describes environment) : 0 < environment.depth := by
  rw [describes.depth]
  exact history.depth_pos

theorem live_of_entry (describes : history.Describes environment) {frame : FrameId}
    {entry : Frame} (here : environment.frames[frame]? = some entry) :
    frame < history.depth := by
  rw [← describes.depth]
  exact (Array.getElem?_eq_some_iff.mp here).1

/-- A change that is allowed keeps the history true. -/
theorem apply (describes : history.Describes environment)
    (allowed : change.allowed environment = true) :
    Describes (change :: history) (change.apply environment) where
  depth := describes.depth_apply allowed
  parents frame entry here := by
    rcases Change.entry_cases here with ⟨parent, rfl, last, rfl⟩ | ⟨old, before, rfl⟩
    · rw [parent?, if_pos (last.trans describes.depth)]
      rfl
    · rw [parent?_cons (describes.live_of_entry before), Change.parent_update]
      exact describes.parents frame old before
  root := (parent?_cons history.depth_pos change).trans describes.root
  older frame inner live := by
    have here := Array.getElem?_eq_getElem live
    rcases Change.entry_cases here with ⟨parent, rfl, last, -⟩ | ⟨old, before, -⟩
    · refine ⟨parent, if_pos (last.trans describes.depth), ?_⟩
      rw [last]
      exact Environment.isLive_iff.mp allowed
    · rw [parent?_cons (describes.live_of_entry before)]
      exact describes.older frame inner (Array.getElem?_eq_some_iff.mp before).1
  entries records frame entry name here := by
    rcases Change.entry_cases here with ⟨parent, rfl, last, rfl⟩ | ⟨old, before, rfl⟩
    · rw [latest?, since, if_pos (last.trans describes.depth), records.empty]
      rfl
    · rw [latest?_cons (describes.live_of_entry before), records.update,
        describes.entries records frame old name before]

theorem of_replay? (made : history.replay? = some environment) :
    history.Describes environment := by
  induction history generalizing environment with
  | nil =>
      cases made
      exact empty
  | cons change earlier inductionHypothesis =>
      obtain ⟨between, before, made⟩ := Option.bind_eq_some_iff.mp made
      split at made
      · rename_i allowed
        cases made
        exact (inductionHypothesis before).apply allowed
      · cases made

/-! ## Answers -/

theorem ordered (describes : history.Describes environment) : environment.Ordered := by
  intro frame entry parent here link
  rw [describes.parents frame entry here] at link
  have inner : frame ≠ Environment.root := by
    rintro rfl
    rw [describes.root] at link
    cases link
  have live := (Array.getElem?_eq_some_iff.mp here).1
  obtain ⟨other, given, older⟩ := describes.older frame inner live
  rw [given] at link
  cases link
  exact older

/-- From a live frame a look-up answers with the latest entry in the nearest frame that has
one. -/
theorem lookup_eq (describes : history.Describes environment) {table : Frame → Table α}
    (records : Change.Records table written?) (name : String) {frame : FrameId}
    (live : frame < environment.depth) :
    environment.lookup table name frame =
      .ofOption (history.nearest? written? frame name) := by
  -- a look-up and a chain go on at the parent, which is older
  induction frame using Nat.strongRecOn with
  | ind frame inductionHypothesis =>
      have here : environment.frames[frame]? = some environment.frames[frame] :=
        Array.getElem?_eq_getElem live
      have bound := describes.entries records frame _ name here
      have link := describes.parents frame _ here
      rw [Environment.lookup, here, nearest?, chain]
      simp only [bound, link]
      cases given : history.parent? frame with
      | none =>
          cases found : history.latest? written? frame name with
          | none => simp [found, Lookup.ofOption]
          | some value => simp [found, Lookup.ofOption]
      | some parent =>
          have older : parent < frame :=
            describes.ordered frame _ parent here (link.trans given)
          cases found : history.latest? written? frame name with
          | none =>
              simp only [older, if_true, List.findSome?_cons, found, Option.map_none]
              exact inductionHypothesis parent older (Nat.lt_trans older live)
          | some value => simp [older, found, Lookup.ofOption]

/-- A change alters an answer only by an entry that it writes and that is the nearest one
afterwards. -/
theorem lookup_apply (describes : history.Describes environment) {table : Frame → Table α}
    (records : Change.Records table written?) (change : Change) (name : String) {frame : FrameId}
    (live : frame < environment.depth) (stays : frame < (change.apply environment).depth) :
    (change.apply environment).lookup table name frame = environment.lookup table name frame ∨
      ∃ value owner, written? owner name change = some value ∧
        (change.apply environment).lookup table name frame = .found value owner := by
  induction frame using Nat.strongRecOn with
  | ind frame inductionHypothesis =>
      have after := Array.getElem?_eq_getElem stays
      -- a frame that was live before is not the one that the change enters
      rcases Change.entry_cases after with ⟨parent, -, last, -⟩ | ⟨old, before, updated⟩
      · exact absurd last (Nat.ne_of_lt live)
      rw [Environment.lookup, after, Environment.lookup, before]
      simp only [updated, records.update, Change.parent_update]
      cases written : written? frame name change with
      | some value => exact .inr ⟨value, frame, written, rfl⟩
      | none =>
          rw [Option.none_or]
          cases (table old).get? name with
          | some value => exact .inl rfl
          | none =>
              cases link : old.parent with
              | none => exact .inl rfl
              | some parent =>
                  have older := describes.ordered frame old parent before link
                  simp only [older, if_true]
                  exact inductionHypothesis parent older (Nat.lt_trans older live)
                    (Nat.lt_trans older stays)

theorem lookup_apply_of_unwritten (describes : history.Describes environment)
    {table : Frame → Table α} (records : Change.Records table written?) (change : Change)
    {name : String} (unwritten : ∀ owner, written? owner name change = none) {frame : FrameId}
    (live : frame < environment.depth) (stays : frame < (change.apply environment).depth) :
    (change.apply environment).lookup table name frame =
      environment.lookup table name frame := by
  rcases describes.lookup_apply records change name live stays with
    same | ⟨value, owner, written, -⟩
  · exact same
  · rw [unwritten owner] at written
    cases written

/-- A frame that is entered answers as its parent does. -/
theorem lookup_push (describes : history.Describes environment) {table : Frame → Table α}
    (records : Change.Records table written?) {name : String} {parent : FrameId}
    (unwritten : ∀ owner, written? owner name (.push parent) = none)
    (live : parent < environment.depth) :
    (environment.push parent).lookup table name environment.next =
      environment.lookup table name parent := by
  have here : (environment.push parent).frames[environment.next]? =
      some (Frame.empty (some parent)) := by
    simp [Environment.push, Environment.next]
  have stays : parent < (environment.push parent).depth := by
    rw [Environment.depth_push]
    exact Nat.lt_succ_of_lt live
  have link : (Frame.empty (some parent)).parent = some parent := rfl
  rw [Environment.lookup, here]
  simp only [records.empty, Table.get?_empty, link]
  rw [if_pos (show parent < environment.next from live)]
  exact describes.lookup_apply_of_unwritten records (.push parent) unwritten live stays

end Describes

end History

/-! ## Nested scopes -/

namespace Environment

/-- The root has no parent, and every other frame has an older one. -/
structure Nested (environment : Environment) : Prop where
  root : (environment.frames[Environment.root]?).map Frame.parent = some none
  older : ∀ (frame : FrameId) (entry : Frame), frame ≠ Environment.root →
    environment.frames[frame]? = some entry → ∃ parent, entry.parent = some parent ∧
      parent < frame

/-- Every name has the same answers from a frame of one environment as from a frame of the
other. -/
def SameAnswers (first : Environment) (left : FrameId) (second : Environment)
    (right : FrameId) : Prop :=
  ∀ name, first.getVar left name = second.getVar right name ∧
    first.getFn left name = second.getFn right name

end Environment

theorem History.Describes.nested {history : History} {environment : Environment}
    (describes : history.Describes environment) : environment.Nested where
  root := by
    have here := Array.getElem?_eq_getElem describes.inhabited
    have parentless := describes.parents 0 _ here
    rw [Environment.root, here, Option.map_some, parentless]
    exact congrArg some describes.root
  older frame entry inner here := by
    have live := (Array.getElem?_eq_some_iff.mp here).1
    rw [describes.parents frame entry here]
    exact describes.older frame inner live

/-- A change that writes no entry alters no answers. -/
theorem History.Describes.sameAnswers {history : History} {environment : Environment}
    (describes : history.Describes environment) (change : Change)
    (noVar : ∀ owner name, change.var? owner name = none)
    (noFn : ∀ owner name, change.fn? owner name = none) {frame : FrameId}
    (live : frame < environment.depth) (stays : frame < (change.apply environment).depth) :
    (change.apply environment).SameAnswers frame environment frame := by
  intro name
  constructor
  · exact describes.lookup_apply_of_unwritten Change.records_vars change
      (fun owner => noVar owner name) live stays
  · exact describes.lookup_apply_of_unwritten Change.records_fns change
      (fun owner => noFn owner name) live stays

/-- An answer that a write alters is the entry written, and its frame is the nearest one
with an entry. -/
theorem History.Describes.nearest?_of_write {α : Type} {history : History}
    {environment : Environment} {table : Frame → Table α}
    {written? : FrameId → String → Change → Option α} {change : Change} {frame : FrameId}
    {name : String} (describes : history.Describes environment)
    (records : Change.Records table written?) (allowed : change.allowed environment = true)
    (live : frame < environment.depth) (stays : frame < (change.apply environment).depth)
    (altered : (change.apply environment).lookup table name frame ≠
      environment.lookup table name frame) :
    ∃ value owner, written? owner name change = some value ∧
      nearest? written? (change :: history) frame name = some (value, owner) := by
  rcases describes.lookup_apply records change name live stays with
    same | ⟨value, owner, written, found⟩
  · exact absurd same altered
  refine ⟨value, owner, written, ?_⟩
  rw [(describes.apply allowed).lookup_eq records name stays] at found
  cases nearest : nearest? written? (change :: history) frame name with
  | none =>
      rw [nearest] at found
      cases found
  | some answer =>
      rw [nearest] at found
      cases found
      rfl

/-- Frames are nested scopes.  Whatever changes were made, each of them allowed: the root is
there and has no parent, and every other frame has an older one.  From a live frame a name
has the latest entry that it got in the nearest frame with one, since that frame was entered.
A write alters the answers for its own name only, where its frame is the nearest one with an
entry.  Entering and leaving a frame alter no answers from frames that stay, and a new frame,
also at a position that was used before, answers as its parent does. -/
theorem frames_are_nested_scopes {history : History} {environment : Environment}
    (made : history.replay? = some environment) :
    environment.Nested ∧
    (∀ (frame : FrameId) (name : String), environment.isLive frame = true →
      environment.getVar frame name = .ofOption (history.nearest? Change.var? frame name) ∧
      environment.getFn frame name = .ofOption (history.nearest? Change.fn? frame name)) ∧
    (∀ (target : FrameId) (written : String) (value : Value) (frame : FrameId) (name : String),
      environment.isLive target = true → environment.isLive frame = true →
      (environment.setVar target written value).getFn frame name =
        environment.getFn frame name ∧
      ((environment.setVar target written value).getVar frame name ≠
          environment.getVar frame name →
        name = written ∧
          History.nearest? Change.var? (.setVar target written value :: history) frame name =
            some (value, target))) ∧
    (∀ (target : FrameId) (definition : FnDef ExprId) (frame : FrameId) (name : String),
      environment.isLive target = true → environment.isLive frame = true →
      (environment.setFn target definition).getVar frame name =
        environment.getVar frame name ∧
      ((environment.setFn target definition).getFn frame name ≠
          environment.getFn frame name →
        name = definition.name ∧
          History.nearest? Change.fn? (.setFn target definition :: history) frame name =
            some (definition, target))) ∧
    (∀ parent frame : FrameId, environment.isLive parent = true →
      environment.isLive frame = true →
      (environment.push parent).SameAnswers frame environment frame) ∧
    (∀ last frame : FrameId, last + 1 = environment.depth →
      (environment.pop last).isLive frame = true →
      (environment.pop last).SameAnswers frame environment frame) ∧
    (∀ parent : FrameId, environment.isLive parent = true →
      (environment.push parent).SameAnswers environment.next environment parent) := by
  have describes := History.Describes.of_replay? made
  simp only [Environment.isLive_iff]
  refine ⟨describes.nested, ?answers, ?setVar, ?setFn, ?push, ?pop, ?fresh⟩
  case answers =>
    intro frame name live
    exact ⟨describes.lookup_eq Change.records_vars name live,
      describes.lookup_eq Change.records_fns name live⟩
  case setVar =>
    intro target written value frame name targetLive live
    have allowed : (Change.setVar target written value).allowed environment = true :=
      Environment.isLive_iff.mpr targetLive
    have stays : frame < (environment.setVar target written value).depth := by
      rwa [Environment.depth_setVar]
    refine ⟨describes.lookup_apply_of_unwritten Change.records_fns
      (.setVar target written value) (fun _ => rfl) live stays, ?_⟩
    intro altered
    obtain ⟨entry, owner, wrote, nearest⟩ :=
      describes.nearest?_of_write Change.records_vars allowed live stays altered
    simp only [Change.var?, Option.ite_none_right_eq_some, Option.some.injEq] at wrote
    obtain ⟨⟨rfl, same⟩, rfl⟩ := wrote
    exact ⟨same, nearest⟩
  case setFn =>
    intro target definition frame name targetLive live
    have allowed : (Change.setFn target definition).allowed environment = true :=
      Environment.isLive_iff.mpr targetLive
    have stays : frame < (environment.setFn target definition).depth := by
      rwa [Environment.depth_setFn]
    refine ⟨describes.lookup_apply_of_unwritten Change.records_vars
      (.setFn target definition) (fun _ => rfl) live stays, ?_⟩
    intro altered
    obtain ⟨entry, owner, wrote, nearest⟩ :=
      describes.nearest?_of_write Change.records_fns allowed live stays altered
    simp only [Change.fn?, Option.ite_none_right_eq_some, Option.some.injEq] at wrote
    obtain ⟨⟨rfl, same⟩, rfl⟩ := wrote
    exact ⟨same, nearest⟩
  case push =>
    intro parent frame _ live
    have stays : frame < (environment.push parent).depth := by
      rw [Environment.depth_push]
      exact Nat.lt_succ_of_lt live
    exact describes.sameAnswers (.push parent) (fun _ _ => rfl) (fun _ _ => rfl) live stays
  case pop =>
    intro last frame isLast stays
    have fewer : (environment.pop last).depth ≤ environment.depth := by
      rw [Environment.depth_pop isLast]
      exact Nat.max_le.mpr ⟨describes.inhabited, Nat.sub_le _ _⟩
    exact describes.sameAnswers (.pop last) (fun _ _ => rfl) (fun _ _ => rfl)
      (Nat.lt_of_lt_of_le stays fewer) stays
  case fresh =>
    intro parent live name
    exact ⟨describes.lookup_push Change.records_vars (fun _ => rfl) live,
      describes.lookup_push Change.records_fns (fun _ => rfl) live⟩

/-- The frame at position 1 is left and another one is entered there.  The variable that was
bound in the old one does not show, and that of the root does. -/
theorem reused_position_is_clean :
    ∃ environment, History.replay? [.push 0, .pop 1, .setVar 1 "x" (.text "inner"), .push 0,
        .setVar 0 "x" (.text "outer")] = some environment ∧
      environment.getVar 1 "x" = .found (.text "outer") 0 := by
  have made : History.replay? [.push 0, .pop 1, .setVar 1 "x" (.text "inner"), .push 0,
      .setVar 0 "x" (.text "outer")] = some _ := rfl
  refine ⟨_, made, ((frames_are_nested_scopes made).2.1 1 "x" rfl).1.trans ?_⟩
  cbv

end ScopeScript
