/-!
# A store with generational identifiers

An arena keeps values in numbered slots. A slot given up by a removal is filled again, but the
identifier of a value names the slot together with the generation in which it was filled, and every
removal starts a new generation; so an identifier never comes to denote another value.

A new value takes the slot that was given up last, or the first slot never used.

## Main definitions

* `NodeId` — a slot and a generation
* `Arena` — the store
* `Arena.get?`, `Arena.insert`, `Arena.modify`, `Arena.remove` — its operations
-/

namespace Targeting

/-- The identity of a stored value: its slot, and the generation in which the slot was filled. -/
structure NodeId where
  index : Nat
  generation : Nat
  deriving DecidableEq

/-- A store of values in numbered slots. -/
structure Arena (α : Type) where
  /-- The slots in use so far; a filled one holds its generation and its value. -/
  slots : Array (Option (Nat × α)) := #[]
  /-- The slots given up, the last one first. -/
  vacant : List Nat := []
  /-- The number of removals so far. -/
  generation : Nat := 0

namespace Arena

variable {α : Type}

/-- The value that an identifier denotes, if it is still there. -/
def get? (a : Arena α) (id : NodeId) : Option α :=
  match a.slots[id.index]? with
  | some (some (generation, value)) => if generation = id.generation then some value else none
  | _ => none

/-- Whether an identifier denotes a value. -/
def contains (a : Arena α) (id : NodeId) : Bool := (a.get? id).isSome

/-- The number of values. -/
def size (a : Arena α) : Nat := a.slots.toList.countP Option.isSome

/-- Stores a value and returns its identifier. -/
def insert (a : Arena α) (value : α) : NodeId × Arena α :=
  match a.vacant with
  | index :: vacant =>
    (⟨index, a.generation⟩,
      { a with slots := a.slots.setIfInBounds index (some (a.generation, value)), vacant })
  | [] =>
    (⟨a.slots.size, a.generation⟩, { a with slots := a.slots.push (some (a.generation, value)) })

/-- Replaces the value that an identifier denotes, if there is one. -/
def modify (a : Arena α) (id : NodeId) (f : α → α) : Arena α :=
  match a.get? id with
  | some value =>
    { a with slots := a.slots.setIfInBounds id.index (some (id.generation, f value)) }
  | none => a

/-- Removes the value that an identifier denotes, if there is one. -/
def remove (a : Arena α) (id : NodeId) : Arena α :=
  if a.contains id then
    { slots := a.slots.setIfInBounds id.index none
      vacant := id.index :: a.vacant
      generation := a.generation + 1 }
  else a

end Arena

end Targeting
