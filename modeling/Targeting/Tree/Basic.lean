import Targeting.Tree.Node

/-!
# Expression trees

A tree keeps its nodes in an arena, names one of them as the root and may hold others that are not
attached to anything yet. Identifiers handed out earlier may be stale, so every look-up is partial
and reads of a missing node give nothing.

## Main definitions

* `Tree` — an arena of nodes with a root
* `Tree.node?`, `Tree.kind?`, `Tree.children`, `Tree.parent?` — what a node holds
* `Tree.ancestors` — a node with the chain of its parents
-/

namespace Targeting

/-- An arena of nodes, one of which may be the root. -/
structure Tree where
  arena : Arena Node := {}
  root : Option NodeId := none

namespace Tree

/-- The tree without nodes. -/
def empty : Tree := {}

/-- Whether a tree has no root. -/
def isEmpty (t : Tree) : Bool := t.root.isNone

/-- The number of live nodes, detached ones included. -/
def size (t : Tree) : Nat := t.arena.size

/-- The node with the given identifier. -/
def node? (t : Tree) (id : NodeId) : Option Node := t.arena.get? id

/-- The kind of a node. -/
def kind? (t : Tree) (id : NodeId) : Option NodeKind := (t.node? id).map (·.kind)

/-- The parent of a node. -/
def parent? (t : Tree) (id : NodeId) : Option NodeId := (t.node? id).bind (·.parent)

/-- The children of a node; a missing node has none. -/
def children (t : Tree) (id : NodeId) : List NodeId := ((t.node? id).map (·.children)).getD []

/-- The category key of a node. -/
def categoryKey? (t : Tree) (id : NodeId) : Option String := (t.kind? id).bind (·.categoryKey?)

/-! ### Ancestors -/

/-- A node and its parents, at most `fuel` of them. -/
def ancestorsWithin (t : Tree) : Nat → NodeId → List NodeId
  | 0, _ => []
  | fuel + 1, id =>
    id :: match t.parent? id with
      | some parent => t.ancestorsWithin fuel parent
      | none => []

/-- A node, its parent, the parent of that, and so on. A chain without repetition ends after at
most as many nodes as there are slots. -/
def ancestors (t : Tree) (id : NodeId) : List NodeId :=
  t.ancestorsWithin (t.arena.slots.size + 1) id

/-! ### Changes -/

/-- Replaces a node, if it is there. -/
def modifyNode (t : Tree) (id : NodeId) (f : Node → Node) : Tree :=
  { t with arena := t.arena.modify id f }

/-- Stores a node without parent and children. -/
def create (t : Tree) (kind : NodeKind) : NodeId × Tree :=
  let (id, arena) := t.arena.insert { kind }
  (id, { t with arena })

/-- Makes one node the last child of another. -/
def attach (t : Tree) (parent child : NodeId) : Tree :=
  (t.modifyNode child fun n => { n with parent := some parent }).modifyNode parent
    fun n => { n with children := n.children ++ [child] }

/-- Removes nodes one by one. -/
def discard (t : Tree) (ids : List NodeId) : Tree :=
  { t with arena := ids.foldl Arena.remove t.arena }

end Tree

end Targeting
