import Targeting.Tree.Error
import Targeting.Tree.Basic

/-!
# The editable grammar

Not every expression can be edited, only those of a restricted shape: an `and` whose children are
groups. An inclusion group is an `or` of categories; an exclusion group is a `not` around exactly
one such `or`. A `Grammar` bounds the number of groups of either role.

## Main definitions

* `Grammar` — the bounds
* `Tree.isEditable` — whether a tree has the restricted shape within the bounds
-/

namespace Targeting

/-- How many groups of either role an editable expression may have. -/
structure Grammar where
  maxInclusionGroups : Nat := 2
  maxExclusionGroups : Nat := 1
  deriving DecidableEq

namespace Grammar

/-- The bound for a role. -/
def limit (g : Grammar) : GroupRole → Nat
  | .inclusion => g.maxInclusionGroups
  | .exclusion => g.maxExclusionGroups

end Grammar

/-- The kind of the child of the root that stands for a group of the given role. -/
def GroupRole.marker : GroupRole → NodeKind
  | .inclusion => .or
  | .exclusion => .not

namespace Tree

/-- The number of children of a node that have the given kind. -/
def countChildren (t : Tree) (parent : NodeId) (kind : NodeKind) : Nat :=
  (t.children parent).countP fun child => t.kind? child = some kind

/-- Whether a node is an `or` of categories. -/
def isCategoryGroup (t : Tree) (id : NodeId) : Bool :=
  t.kind? id = some .or && (t.children id).all fun child => (t.categoryKey? child).isSome

/-- Whether a node is an inclusion group, or a `not` around one such group. -/
def isGroup (t : Tree) (id : NodeId) : Bool :=
  match t.kind? id with
  | some .or => t.isCategoryGroup id
  | some .not =>
    match t.children id with
    | [only] => t.isCategoryGroup only
    | _ => false
  | _ => false

/-- Whether a tree is empty or has the restricted shape within the bounds. -/
def isEditable (t : Tree) (g : Grammar) : Bool :=
  match t.root with
  | none => true
  | some root =>
    t.kind? root = some .and && (t.children root).all t.isGroup
      && t.countChildren root .or ≤ g.maxInclusionGroups
      && t.countChildren root .not ≤ g.maxExclusionGroups

end Tree

end Targeting
