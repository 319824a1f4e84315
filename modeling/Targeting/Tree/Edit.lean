import Targeting.Tree.Error
import Targeting.Tree.Walk

/-!
# Editing a tree

An edit runs on a tree, changes it and gives a result or an error. The three structural edits check
everything before they change anything: a node becomes the root or a child only while it has no
parent, and never below itself. Removing a child releases all nodes under it.

## Main definitions

* `Edit` — a computation that changes a tree and may fail
* `Edit.create`, `Edit.setRoot`, `Edit.appendChild`, `Edit.removeChild` — the structural edits
-/

namespace Targeting

/-- A computation that changes a tree and may fail. Changes made before a failure stay. -/
abbrev Edit := ExceptT TreeError (StateM Tree)

namespace Tree

/-- Removes all nodes reached from an identifier, children first. -/
def release (t : Tree) (id : NodeId) : Tree := t.discard ((t.postorderFrom id).map (·.1))

end Tree

namespace Edit

/-- The result of an edit on a tree, and the tree afterwards. -/
def on {α : Type} (edit : Edit α) (t : Tree) : Except TreeError α × Tree :=
  (ExceptT.run edit).run t

/-- The node with the given identifier. -/
def node (id : NodeId) : Edit Node := do
  match (← get).node? id with
  | some node => return node
  | none => throw (.nodeNotFound id)

/-- Stores a node without parent and children. -/
def create (kind : NodeKind) : Edit NodeId := do
  let (id, t) := (← get).create kind
  set t
  return id

/-- Makes a parentless node the root; everything under the former root is released. -/
def setRoot (id : NodeId) : Edit Unit := do
  if (← node id).parent.isSome then throw (.alreadyAttached id)
  let t ← get
  match t.root with
  | some old => if old = id then pure () else set ({ t with root := some id }.release old)
  | none => set { t with root := some id }

/-- Makes a parentless node the last child of an operator node. -/
def appendChild (parent child : NodeId) : Edit Unit := do
  let parentNode ← node parent
  if parentNode.kind.isLeaf then throw (.wrongKind .appendChild parentNode.kind)
  let childNode ← node child
  let t ← get
  if childNode.parent.isSome ∨ t.root = some child then throw (.alreadyAttached child)
  if child ∈ t.ancestors parent then throw (.wouldCreateCycle child)
  set (t.attach parent child)

/-- Removes a child with everything under it. Returns whether it was a child. -/
def removeChild (parent child : NodeId) : Edit Bool := do
  let parentNode ← node parent
  if child ∈ parentNode.children then
    let children := parentNode.children.erase child
    modify fun t => (t.modifyNode parent fun n => { n with children }).release child
    return true
  else return false

end Edit

end Targeting
