import Targeting.Tree.Basic

/-!
# Branches

A branch is the part of a tree that hangs under an identifier, spread out as a recursive value:
each child list is replaced by the branches of its identifiers, and an identifier without a node
ends its branch. Whatever looks at a whole subtree is defined by recursion on branches.

## Main definitions

* `Branch` — a node with its branches, or an identifier without a node
* `Tree.branch` — the branch of an identifier
* `Branch.preorder`, `Branch.postorder` — its nodes in the two depth-first orders
* `Branch.depth`, `Branch.sameShape` — its height, and equality up to identifiers and names
-/

namespace Targeting

/-- A node with the branches of its children, or an identifier without a node. -/
inductive Branch where
  | dangling (id : NodeId)
  | node (id : NodeId) (node : Node) (branches : List Branch)

namespace Branch

mutual

/-- The number of identifiers in a branch. -/
def size : Branch → Nat
  | .dangling _ => 1
  | .node _ _ branches => sizeAll branches + 1

/-- The number of identifiers in several branches. -/
def sizeAll : List Branch → Nat
  | [] => 0
  | b :: bs => b.size + sizeAll bs

end

mutual

/-- The number of nodes on the longest way down. -/
def depth : Branch → Nat
  | .dangling _ => 0
  | .node _ _ branches => depthAll branches + 1

/-- The greatest depth of several branches. -/
def depthAll : List Branch → Nat
  | [] => 0
  | b :: bs => max b.depth (depthAll bs)

end

mutual

/-- The nodes of a branch, each before its children. -/
def preorder : Branch → List (NodeId × Node)
  | .dangling _ => []
  | .node id n branches => (id, n) :: preorderAll branches

/-- The nodes of several branches, each before its children. -/
def preorderAll : List Branch → List (NodeId × Node)
  | [] => []
  | b :: bs => b.preorder ++ preorderAll bs

end

mutual

/-- The nodes of a branch, each after its children. -/
def postorder : Branch → List (NodeId × Node)
  | .dangling _ => []
  | .node id n branches => postorderAll branches ++ [(id, n)]

/-- The nodes of several branches, each after its children. -/
def postorderAll : List Branch → List (NodeId × Node)
  | [] => []
  | b :: bs => b.postorder ++ postorderAll bs

end

mutual

/-- Whether two branches agree in the kinds of their nodes and in the order of children. An
identifier without a node agrees with nothing. -/
def sameShape : Branch → Branch → Bool
  | .node _ n branches, .node _ n' branches' =>
    n.kind == n'.kind && sameShapes branches branches'
  | _, _ => false

/-- Whether two lists of branches agree one by one. -/
def sameShapes : List Branch → List Branch → Bool
  | [], [] => true
  | b :: bs, b' :: bs' => b.sameShape b' && sameShapes bs bs'
  | _, _ => false

end

end Branch

namespace Tree

/-- The branch of an identifier, cut off below `fuel` levels. -/
def branchWithin (t : Tree) : Nat → NodeId → Branch
  | 0, id => .dangling id
  | fuel + 1, id =>
    match t.node? id with
    | some node => .node id node (node.children.map (t.branchWithin fuel))
    | none => .dangling id

/-- The branch of an identifier. A way down without repetition passes at most as many nodes as the
tree has. -/
def branch (t : Tree) (id : NodeId) : Branch := t.branchWithin t.size id

/-- The number of nodes on the longest way down from the root. -/
def depth (t : Tree) : Nat := (t.root.map fun root => (t.branch root).depth).getD 0

/-- Whether two trees agree in kinds, category keys and the order of children. Identifiers, display
names and detached nodes do not matter. -/
def structurallyEqual (a b : Tree) : Bool :=
  match a.root, b.root with
  | none, none => true
  | some x, some y => (a.branch x).sameShape (b.branch y)
  | _, _ => false

end Tree

end Targeting
