import Targeting.Tree.Branch

/-!
# Depth-first walks

The walks keep a stack of identifiers still to visit. In the order in which parents come first, a
node is listed when it is taken from the stack, and its children are put there. In the order in
which parents come last, a node goes back on the stack under its children, marked as seen, and is
listed when it is met again. Identifiers without a node are skipped.

## Main definitions

* `Tree.preorder`, `Tree.postorder` — the nodes reached from the root
* `Tree.categoryKeys` — the keys of the categories reached from the root
-/

namespace Targeting.Tree

/-- Lists the nodes on a stack, each before its children; `fuel` bounds the number of identifiers
taken from the stack. -/
def walk (t : Tree) : Nat → List NodeId → List (NodeId × Node)
  | 0, _ => []
  | _, [] => []
  | fuel + 1, id :: stack =>
    match t.node? id with
    | some node => (id, node) :: t.walk fuel (node.children ++ stack)
    | none => t.walk fuel stack

/-- Lists the nodes on a stack, each after its children. A marked identifier has its children
behind it already. -/
def walkMarked (t : Tree) : Nat → List (NodeId × Bool) → List (NodeId × Node)
  | 0, _ => []
  | _, [] => []
  | fuel + 1, (id, seen) :: stack =>
    match t.node? id, seen with
    | some node, false =>
      t.walkMarked fuel (node.children.map (·, false) ++ (id, true) :: stack)
    | some node, true => (id, node) :: t.walkMarked fuel stack
    | none, _ => t.walkMarked fuel stack

/-- The nodes reached from an identifier, each before its children. -/
def preorderFrom (t : Tree) (id : NodeId) : List (NodeId × Node) :=
  t.walk (t.branch id).size [id]

/-- The nodes reached from an identifier, each after its children. -/
def postorderFrom (t : Tree) (id : NodeId) : List (NodeId × Node) :=
  t.walkMarked (2 * (t.branch id).size) [(id, false)]

/-- The nodes reached from the root, each before its children. -/
def preorder (t : Tree) : List (NodeId × Node) := (t.root.map t.preorderFrom).getD []

/-- The nodes reached from the root, each after its children. -/
def postorder (t : Tree) : List (NodeId × Node) := (t.root.map t.postorderFrom).getD []

/-- The keys of the categories reached from the root, from left to right. -/
def categoryKeys (t : Tree) : List String :=
  t.preorder.filterMap fun (_, node) => node.kind.categoryKey?

end Targeting.Tree
