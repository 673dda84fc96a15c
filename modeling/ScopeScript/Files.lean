import ScopeScript.Run

/-!
Contract: a directory of files held in memory.

Owns: building such a directory and reading from it by path, with the failures
that a path can lead to.

Paths are relative to the directory.  Making an entry and reading one follow the
same steps, so an entry is known by the place that its path leads to and not by
the spelling of the path.  What lies outside the directory, named by an absolute
path or by going up, is empty until something is made there.
-/

set_option autoImplicit false

namespace ScopeScript

/-- What stands at a place. -/
inductive Entry where
  | file (bytes : ByteArray)
  | directory

/-- Where a path sets out: a number of levels above the directory, or the top of
everything. -/
inductive Origin where
  | above (levels : Nat)
  | top
deriving DecidableEq, Repr

/-- Where a path leads: the names below an origin, the last one first. -/
structure Place where
  origin : Origin
  names : List String
deriving DecidableEq, Repr

namespace Place

/-- The directory itself. -/
def here : Place := ⟨.above 0, []⟩

/-- The top of everything, where absolute paths set out. -/
def top : Place := ⟨.top, []⟩

/-- The directory that holds a place.  Nothing is above the top. -/
def parent : Place → Place
  | ⟨origin, _ :: names⟩ => ⟨origin, names⟩
  | ⟨.above levels, []⟩ => ⟨.above (levels + 1), []⟩
  | ⟨.top, []⟩ => top

/-- The place that one step of a path leads to. -/
def enter (place : Place) (step : String) : Place :=
  if step == "" || step == "." then place
  else if step == ".." then place.parent
  else { place with names := step :: place.names }

/-- Where a path sets out and the steps it takes from there. -/
def route (path : String) : Place × List String :=
  match (path.toList.splitOn '/').map String.ofList with
  | "" :: steps => (top, steps)
  | steps => (here, steps)

end Place

/-- A directory: what was made at each place, the latest first. -/
structure Files where
  entries : List (Place × Entry)

namespace Files

/-- The directory in which nothing was made. -/
def empty : Files := ⟨[]⟩

/-- What stands at a place.  Every origin is a directory. -/
def at? (files : Files) (place : Place) : Option Entry :=
  if place.names.isEmpty then some .directory else files.entries.lookup place

/-- Puts an entry at a place, over what stood there. -/
def put (files : Files) (place : Place) (entry : Entry) : Files :=
  ⟨(place, entry) :: files.entries⟩

/-- The latest entry at a place is the one that stands there. -/
@[simp]
theorem at?_put_self (files : Files) (place : Place) (entry : Entry)
    (below : place.names ≠ []) :
    (files.put place entry).at? place = some entry := by
  simp [at?, put, below]

/-- An entry changes nothing at other places. -/
theorem at?_put_of_ne (files : Files) {place other : Place} (entry : Entry)
    (apart : other ≠ place) :
    (files.put place entry).at? other = files.at? other := by
  simp [at?, put, List.lookup_cons, beq_eq_false_iff_ne.mpr apart]

/-- Takes steps from a place, making every directory on the way that is not there
yet. -/
def makeWay (files : Files) (place : Place) : List String → Files × Place
  | [] => (files, place)
  | step :: rest =>
      let next := place.enter step
      let files := if (files.at? next).isNone then files.put next .directory else files
      files.makeWay next rest

/-- Makes an entry under a path, with the directories that the path passes. -/
def insert (files : Files) (path : String) (entry : Entry) : Files :=
  let (origin, steps) := Place.route path
  let (files, place) := files.makeWay origin steps.dropLast
  files.put (place.enter (steps.getLastD "")) entry

/-- Follows steps.  Every place that is left has to be a directory. -/
def follow (files : Files) (place : Place) : List String → Except ReadError Place
  | [] => .ok place
  | step :: rest =>
      match files.at? place with
      | none => .error .missing
      | some (.file _) => .error .notDirectory
      | some .directory => files.follow (place.enter step) rest

/-- The place that a path leads to. -/
def resolve (files : Files) (path : String) : Except ReadError Place :=
  if path.isEmpty then .error .missing
  else
    let (origin, steps) := Place.route path
    files.follow origin steps

/-- The text of the file under a path. -/
def read (files : Files) (path : String) : Except ReadError String :=
  match files.resolve path with
  | .error error => .error error
  | .ok place =>
      match files.at? place with
      | none => .error .missing
      | some .directory => .error .isDirectory
      | some (.file bytes) => decodeText bytes

end Files

end ScopeScript
