import ScopeScript.Eval.Table
import ScopeScript.Eval.Value
import ScopeScript.Syntax.Program

/-!
Contract: frames of bindings and look-up along their parents.

Owns: frames, the environment as a stack of frames, entering and leaving a frame,
writing to a frame, and look-up from a frame outwards.

A frame is known by its position.  Its parent is an older frame, so a look-up
goes to smaller positions and ends.  A position can outlive its frame: `isLive`
tells, and a look-up that comes to such a position says so instead of answering.
-/

set_option autoImplicit false

namespace ScopeScript

/-- The position of a frame. -/
abbrev FrameId := Nat

/-- The bindings of one call, or of the top level, and the frame to ask next. -/
structure Frame where
  vars : Table Value
  fns : Table (FnDef ExprId)
  parent : Option FrameId
deriving Repr

/-- A frame without bindings. -/
def Frame.empty (parent : Option FrameId) : Frame where
  vars := .empty
  fns := .empty
  parent

/-- The answer of a look-up: an entry with the frame that holds it, no entry in
any frame asked, or a frame that is gone. -/
inductive Lookup (α : Type) where
  | found (entry : α) (owner : FrameId)
  | unbound
  | gone
deriving DecidableEq, Repr

/-- The frames, the root first. -/
structure Environment where
  frames : Array Frame
deriving Repr

namespace Environment

/-- The frame of the top level. -/
def root : FrameId := 0

/-- Positions of frames are below this bound. -/
def capacity : Nat := Nat.pow 2 32

/-- The environment with only the root. -/
def empty : Environment where
  frames := #[Frame.empty none]

/-- The number of frames. -/
def depth (environment : Environment) : Nat :=
  environment.frames.size

/-- Whether there is a frame at a position. -/
def isLive (environment : Environment) (frame : FrameId) : Bool :=
  frame < environment.frames.size

/-- Whether a position is left for one more frame. -/
def hasRoom (environment : Environment) : Bool :=
  environment.frames.size < capacity

/-- The position that the next frame gets. -/
def next (environment : Environment) : FrameId :=
  environment.frames.size

/-- Enters a new frame at position `next`. -/
def push (environment : Environment) (parent : FrameId) : Environment where
  frames := environment.frames.push (Frame.empty (some parent))

/-- Leaves a frame and every later one.  A root that is alone stays. -/
def pop (environment : Environment) (frame : FrameId) : Environment :=
  if 1 < environment.frames.size then { frames := environment.frames.shrink frame }
  else environment

/-- Binds a variable in a frame itself.  Outer bindings of the name are hidden,
not changed. -/
def setVar (environment : Environment) (frame : FrameId) (name : String) (value : Value) :
    Environment where
  frames := environment.frames.modify frame fun entry =>
    { entry with vars := entry.vars.insert name value }

/-- Binds a function in a frame itself, under the name of its definition. -/
def setFn (environment : Environment) (frame : FrameId) (definition : FnDef ExprId) :
    Environment where
  frames := environment.frames.modify frame fun entry =>
    { entry with fns := entry.fns.insert definition.name definition }

@[simp]
theorem depth_push (environment : Environment) (parent : FrameId) :
    (environment.push parent).depth = environment.depth + 1 := by
  simp [push, depth]

@[simp]
theorem depth_setVar (environment : Environment) (frame : FrameId) (name : String)
    (value : Value) : (environment.setVar frame name value).depth = environment.depth := by
  simp [setVar, depth]

@[simp]
theorem depth_setFn (environment : Environment) (frame : FrameId)
    (definition : FnDef ExprId) :
    (environment.setFn frame definition).depth = environment.depth := by
  simp [setFn, depth]

/-- Leaving a frame undoes entering it. -/
theorem pop_push (environment : Environment) (parent : FrameId)
    (inhabited : 0 < environment.depth) :
    (environment.push parent).pop environment.next = environment := by
  have deeper : 1 < (environment.push parent).frames.size := by
    simpa [push, depth] using inhabited
  rw [pop, if_pos deeper]
  simp [push, next]

/-- Asks a frame, then its parent, and so on outwards. -/
def lookup {α : Type} (environment : Environment) (table : Frame → Table α) (name : String)
    (frame : FrameId) : Lookup α :=
  match environment.frames[frame]? with
  | none => .gone
  | some entry =>
      match (table entry).get? name with
      | some value => .found value frame
      | none =>
          match entry.parent with
          | none => .unbound
          | some parent =>
              if parent < frame then environment.lookup table name parent else .gone
termination_by frame

/-- Looks up a variable. -/
def getVar (environment : Environment) (frame : FrameId) (name : String) : Lookup Value :=
  environment.lookup Frame.vars name frame

/-- Looks up a function and the frame that holds it. -/
def getFn (environment : Environment) (frame : FrameId) (name : String) :
    Lookup (FnDef ExprId) :=
  environment.lookup Frame.fns name frame

end Environment

end ScopeScript
