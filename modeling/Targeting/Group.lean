import Targeting.Grammar
import Targeting.Tree.Edit

/-!
# Groups of categories

The edits of an editable expression. They keep its shape: categories are added to and removed from
groups, groups are added while the grammar allows more of their role, and removing an exclusion
group removes the `not` around it.

## Main definitions

* `Edit.enableTargeting` — the root with a first inclusion group
* `Edit.addGroup`, `Edit.removeGroup` — whole groups
* `Edit.addCategory`, `Edit.removeCategory` — the categories of a group
* `Tree.inclusionGroups`, `Tree.exclusionGroup`, `Tree.groupCategories` — the groups of a tree
-/

namespace Targeting

namespace Tree

/-- Whether the root has fewer groups of a role than the grammar allows. -/
def canAddGroup (t : Tree) (role : GroupRole) (root : NodeId) (g : Grammar) : Bool :=
  t.countChildren root role.marker < g.limit role

/-- The inclusion groups under the root, in order. -/
def inclusionGroups (t : Tree) : List NodeId :=
  match t.root with
  | some root => (t.children root).filter fun child => t.kind? child = some .or
  | none => []

/-- The `or` inside the first `not` under the root. -/
def exclusionGroup (t : Tree) : Option NodeId := do
  let root ← t.root
  let wrapper ← (t.children root).find? fun child => t.kind? child = some .not
  let group ← (t.children wrapper).head?
  if t.kind? group = some .or then some group else none

/-- The category keys of a group, in order. -/
def groupCategories (t : Tree) (group : NodeId) : List String :=
  (t.children group).filterMap t.categoryKey?

/-- Whether some group holds a category. -/
def isEnabled (t : Tree) : Bool :=
  t.root.isSome
    && (t.inclusionGroups ++ t.exclusionGroup.toList).any fun group => !(t.children group).isEmpty

/-- The first child of a group that is the given category. -/
def findCategory? (t : Tree) (group : NodeId) (key : String) : Option NodeId :=
  (t.children group).find? fun child => t.kind? child = some (.category key)

end Tree

namespace Edit

/-- The kind of the node with the given identifier. -/
def kind (id : NodeId) : Edit NodeKind := return (← node id).kind

/-- Fails unless a node has the kind that an operation asks for. -/
def expectKind (operation : Operation) (expected : NodeKind) (id : NodeId) : Edit Unit := do
  let found ← kind id
  if found = expected then return () else throw (.wrongKind operation found)

/-- Creates the root with a first, empty inclusion group. A root that exists already is returned
as it is. -/
def enableTargeting : Edit NodeId := do
  match (← get).root with
  | some root => return root
  | none =>
    let root ← create .and
    setRoot root
    let group ← create .or
    appendChild root group
    return root

/-- Appends an empty group of a role to the root, and returns the `or` that categories go into. -/
def addGroup (role : GroupRole) (root : NodeId) (g : Grammar) : Edit NodeId := do
  expectKind (.addGroup role) .and root
  if !(← get).canAddGroup role root g then throw (.groupLimitReached role (g.limit role))
  match role with
  | .inclusion =>
    let group ← create .or
    appendChild root group
    return group
  | .exclusion =>
    let wrapper ← create .not
    appendChild root wrapper
    let group ← create .or
    appendChild wrapper group
    return group

/-- Appends a category to a group. A key that the group holds already is not added again; its node
is returned. -/
def addCategory (group : NodeId) (key : String) : Edit NodeId := do
  expectKind .addCategory .or group
  match (← get).findCategory? group key with
  | some existing => return existing
  | none =>
    let leaf ← create (.category key)
    appendChild group leaf
    return leaf

/-- Removes the first category with the given key from a group. Returns whether there was one. -/
def removeCategory (group : NodeId) (key : String) : Edit Bool := do
  expectKind .removeCategory .or group
  match (← get).findCategory? group key with
  | some leaf => removeChild group leaf
  | none => return false

/-- Removes a group; the `not` around an exclusion group goes with it. Returns whether the group
was attached to something. -/
def removeGroup (group : NodeId) : Edit Bool := do
  expectKind .removeGroup .or group
  match (← node group).parent with
  | none => return false
  | some parent =>
    if (← kind parent) ≠ .not then removeChild parent group
    else
      match (← node parent).parent with
      | some root => removeChild root parent
      | none => return false

end Edit

end Targeting
