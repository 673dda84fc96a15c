/-!
Contract: tables from names to entries.

Owns: `Table`, look-up and insertion.  A name is listed once, in the order in
which names were first inserted.
-/

set_option autoImplicit false

namespace ScopeScript

/-- A table from names to entries. -/
structure Table (α : Type) where
  entries : List (String × α)
deriving DecidableEq, Repr

namespace Table

variable {α : Type}

/-- The table without entries. -/
def empty : Table α where
  entries := []

/-- The first entry listed under a name. -/
def findEntry? (name : String) : List (String × α) → Option α
  | [] => none
  | (other, value) :: rest => if other = name then some value else findEntry? name rest

/-- The entry of a name. -/
def get? (table : Table α) (name : String) : Option α :=
  findEntry? name table.entries

/-- Replaces the entry of a name, or adds it at the end. -/
def insertEntry (name : String) (value : α) : List (String × α) → List (String × α)
  | [] => [(name, value)]
  | (other, old) :: rest =>
      if other = name then (name, value) :: rest
      else (other, old) :: insertEntry name value rest

/-- The table with a new entry for a name. -/
def insert (table : Table α) (name : String) (value : α) : Table α where
  entries := insertEntry name value table.entries

@[simp]
theorem get?_empty (name : String) : (empty : Table α).get? name = none := rfl

theorem findEntry?_insertEntry (name other : String) (value : α)
    (entries : List (String × α)) :
    findEntry? other (insertEntry name value entries)
      = if other = name then some value else findEntry? other entries := by
  induction entries with
  | nil => simp [insertEntry, findEntry?, eq_comm]
  | cons head rest inductionHypothesis =>
      obtain ⟨key, old⟩ := head
      by_cases here : key = name
      · subst here
        by_cases same : key = other
        · simp [insertEntry, findEntry?, same]
        · simp [insertEntry, findEntry?, same, Ne.symm same]
      · by_cases same : key = other
        · subst same
          simp [insertEntry, findEntry?, here]
        · simp [insertEntry, findEntry?, here, same, inductionHypothesis]

/-- Insertion changes the entry of its own name and no other. -/
@[simp]
theorem get?_insert (table : Table α) (name other : String) (value : α) :
    (table.insert name value).get? other
      = if other = name then some value else table.get? other :=
  findEntry?_insertEntry name other value table.entries

end Table

end ScopeScript
