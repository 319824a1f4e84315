import Targeting.Group
import Targeting.Json.Value
import Targeting.Taxonomy

/-!
# Description of an expression

What a view shows beside the expression itself: the categories with their display names, and how
full the groups are. The description is computed from a tree and plays no part in editing.

## Main definitions

* `CategoryInfo`, `TargetingInfo` — the description
* `Tree.resolveNames` — fills in missing display names
* `TargetingInfo.ofTree` — the description of a tree
-/

namespace Targeting

/-- A category and its display name, if the taxonomy knows it. -/
structure CategoryInfo where
  key : String
  name : Option String
  deriving DecidableEq

/-- The description of an expression. -/
structure TargetingInfo where
  /-- The distinct categories in the order of their first occurrence. -/
  categories : List CategoryInfo := []
  /-- The categories of the inclusion groups; of an expression that cannot be edited none. -/
  inclusion : List (List String) := []
  /-- The categories of the exclusion group. -/
  exclusion : Option (List String) := none
  /-- The number of categories without a display name. -/
  unresolved : Nat := 0
  deriving DecidableEq

namespace Tree

/-- Fills in the display names of the categories that have none. -/
def resolveNames (t : Tree) (resolve : Resolver) : Tree :=
  t.preorder.foldl (fun t (id, node) =>
    match node.kind.categoryKey?, node.displayName with
    | some key, none => t.modifyNode id fun n => { n with displayName := resolve key }
    | _, _ => t) t

end Tree

namespace TargetingInfo

/-- Categories without later repetitions of a key. -/
def distinct (categories : List CategoryInfo) : List CategoryInfo :=
  categories.foldl (fun seen c => if seen.any (·.key = c.key) then seen else seen ++ [c]) []

/-- The categories reached from the root, from left to right. -/
def categoriesOf (t : Tree) : List CategoryInfo :=
  t.preorder.filterMap fun (_, node) =>
    node.kind.categoryKey?.map fun key => { key, name := node.displayName }

/-- The description of a tree; its groups only if it can be edited. -/
def ofTree (t : Tree) (editable : Bool) : TargetingInfo :=
  let categories := distinct (categoriesOf t)
  { categories
    inclusion := if editable then t.inclusionGroups.map t.groupCategories else []
    exclusion := if editable then t.exclusionGroup.map t.groupCategories else none
    unresolved := categories.countP (·.name.isNone) }

/-- The display name of a key. -/
def nameOf (info : TargetingInfo) (key : String) : Option String :=
  (info.categories.find? (·.key = key)).bind (·.name)

/-- A group as a value. -/
def groupJson (categories : List String) : Json :=
  .object [("categories", .array (categories.map .string))]

/-- A text or `null`. -/
def textOrNull (text : Option String) : Json := (text.map Json.string).getD .null

/-- The description as a value. -/
def toJson (info : TargetingInfo) : Json :=
  .object [
    ("categories", .array (info.categories.map fun c =>
      .object [("key", .string c.key), ("name", textOrNull c.name)])),
    ("inclusion", .array (info.inclusion.map groupJson)),
    ("exclusion", (info.exclusion.map groupJson).getD .null),
    ("unresolved", .ofNat info.unresolved)]

end TargetingInfo

end Targeting
