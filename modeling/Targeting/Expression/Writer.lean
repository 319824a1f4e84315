import Targeting.Json.Value
import Targeting.Tree.Branch

/-!
# Writing a serialized expression

## Main definitions

* `Branch.toJson` — the serialized form of a branch
* `Tree.toJson` — the serialized form of a tree
-/

namespace Targeting

namespace Branch

mutual

/-- The serialized form of a branch; an identifier without a node is `null`. -/
def toJson : Branch → Json
  | .dangling _ => .null
  | .node _ n branches =>
    match n.kind with
    | .category key => .object [("category", .string key)]
    | .operator op => .object [(op.tag, .array (toJsonAll branches))]

/-- The serialized forms of several branches. -/
def toJsonAll : List Branch → List Json
  | [] => []
  | b :: bs => b.toJson :: toJsonAll bs

end

end Branch

namespace Tree

/-- The serialized form of what an identifier denotes. -/
def jsonFrom (t : Tree) (id : NodeId) : Json := (t.branch id).toJson

/-- The serialized form of a tree; without a root it is `null`. -/
def toJson (t : Tree) : Json := (t.root.map t.jsonFrom).getD .null

end Tree

end Targeting
