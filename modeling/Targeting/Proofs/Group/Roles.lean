import Targeting.Proofs.Group.View

/-!
# Groups by their roles

A view asks a tree for its inclusion groups, its exclusion group and the categories of a group, and
the answers are read off the children of the root. Of a tree that is a list of groups they are the
entries of one role, the first entry of the other, and the keys of an entry.

## Main results

* `Tree.inclusionGroups_eq`, `Tree.exclusionGroup_eq` — the entries of either role
* `Tree.groupCategories_eq`, `Tree.map_groupCategories_inclusionGroups`,
  `Tree.map_groupCategories_exclusionGroup` — their keys
-/

namespace Targeting.Tree

variable {t : Tree} {r id : NodeId} {gs : List Group} {keys : List String} {e : Group}

theorem groupCategories_eq (hkeys : t.categories? id = some keys) :
    t.groupCategories id = keys := by
  have hmap := (categories?_eq_some_iff.mp hkeys).2
  calc t.groupCategories id
      = ((t.children id).map t.categoryKey?).filterMap (fun key => key) := by
        rw [List.filterMap_map]
        rfl
    _ = keys := by rw [hmap, List.filterMap_map, Function.comp_def, List.filterMap_some]

section Groups

variable (hroot : t.root = some r) (hgs : t.groups? = some gs)
include hroot hgs

theorem groupCategories_of_mem (he : e ∈ gs) : t.groupCategories e.id = e.categories :=
  groupCategories_eq (categories?_of_mem_groups hroot hgs he)

/-- The inclusion groups are the entries of this role, in order. -/
theorem inclusionGroups_eq :
    t.inclusionGroups = (gs.filter fun e => e.role = .inclusion).map Group.id := by
  have hall := forall₂_filter_of_groups? hroot hgs .inclusion
  simp only [inclusionGroups, hroot]
  rw [← List.forall₂_eq_eq_eq, List.forall₂_map_right_iff]
  exact hall.imp fun _ _ hc => eq_id_of_group? hc.1 hc.2

/-- Each `not` under the root holds the `or` of an entry of the exclusion role, in order. -/
theorem map_children_nots :
    ((t.children r).filter fun c => t.kind? c = some .not).map t.children
      = (gs.filter fun e => e.role = .exclusion).map fun e => [e.id] := by
  have hall := forall₂_filter_of_groups? hroot hgs .exclusion
  rw [← List.forall₂_eq_eq_eq, List.forall₂_map_left_iff, List.forall₂_map_right_iff]
  exact hall.imp fun _ _ hc => children_of_group? hc.1 hc.2

/-- The first `not` under the root holds the `or` of the first entry of the exclusion role. -/
theorem find?_not_of_groups? :
    ((t.children r).find? fun c => t.kind? c = some .not).map t.children
      = (gs.find? fun e => e.role = .exclusion).map fun e => [e.id] := by
  rw [← List.head?_filter, ← List.head?_filter, ← List.head?_map, ← List.head?_map,
    map_children_nots hroot hgs]

/-- The exclusion group is the first entry of this role. -/
theorem exclusionGroup_eq :
    t.exclusionGroup = (gs.find? fun e => e.role = .exclusion).map Group.id := by
  have hfind := find?_not_of_groups? hroot hgs
  simp only [exclusionGroup, hroot, Option.bind_eq_bind, Option.bind_some]
  cases hentry : gs.find? fun e => e.role = .exclusion with
  | none =>
    rw [hentry, Option.map_none, Option.map_eq_none_iff] at hfind
    rw [hfind]
    rfl
  | some e =>
    rw [hentry, Option.map_some, Option.map_eq_some_iff] at hfind
    obtain ⟨wrapper, hwrapper, honly⟩ := hfind
    have hkeys := categories?_of_mem_groups hroot hgs (List.mem_of_find?_eq_some hentry)
    have hor := (categories?_eq_some_iff.mp hkeys).1
    simp [hwrapper, honly, hor]

theorem map_groupCategories_inclusionGroups :
    t.inclusionGroups.map t.groupCategories
      = (gs.filter fun e => e.role = .inclusion).map Group.categories := by
  rw [inclusionGroups_eq hroot hgs, List.map_map]
  apply List.map_congr_left
  intro e he
  exact groupCategories_of_mem hroot hgs (List.mem_of_mem_filter he)

theorem map_groupCategories_exclusionGroup :
    t.exclusionGroup.map t.groupCategories
      = (gs.find? fun e => e.role = .exclusion).map Group.categories := by
  rw [exclusionGroup_eq hroot hgs, Option.map_map]
  cases hentry : gs.find? fun e => e.role = .exclusion with
  | none => rfl
  | some e =>
    have hmem := groupCategories_of_mem hroot hgs (List.mem_of_find?_eq_some hentry)
    rw [Option.map_some, Option.map_some, Function.comp_apply, hmem]

end Groups

end Targeting.Tree
