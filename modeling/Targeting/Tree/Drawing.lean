import Targeting.Tree.Branch

/-!
# Drawing a tree

A drawing has one line for each node. A child stands under its parent behind a bracket, and further
levels are indented by rules that join the children of one node.

## Main definitions

* `Branch.label` — the text of one node
* `Tree.drawing` — the drawing of a tree
-/

namespace Targeting

namespace Branch

/-- The text of the topmost node; an identifier without a node is a question mark. -/
def label : Branch → String
  | .dangling _ => "?"
  | .node _ n _ => n.label

mutual

/-- The lines of a branch; `indent` stands before the lines of its children. -/
def draw (indent : String) : Branch → String
  | .dangling id => (Branch.dangling id).label ++ "\n"
  | .node id n branches =>
    (Branch.node id n branches).label ++ "\n" ++ drawAll indent branches

/-- The lines of the children of one node. -/
def drawAll (indent : String) : List Branch → String
  | [] => ""
  | [b] => indent ++ "└── " ++ b.draw (indent ++ "    ")
  | b :: bs => indent ++ "├── " ++ b.draw (indent ++ "│   ") ++ drawAll indent bs

end

end Branch

namespace Tree

/-- The drawing of the branch of the root. -/
def drawing (t : Tree) : String :=
  match t.root with
  | some root => (t.branch root).draw ""
  | none => "Empty expression\n"

end Tree

end Targeting
