import Targeting.Proofs.Group.Roles
import Targeting.Proofs.Group.Shape

/-!
# Which categories a view shows

A grammar can allow several exclusion groups, but a view asks for the exclusion group and gets the
first one. So it shows every category of the expression, in one group each, except those of further
exclusion groups. Whether targeting is enabled is found out from the groups of the view as well: an
expression all of whose categories are out of sight counts as one without categories.

## Main definitions

* `Tree.viewedGroups`, `Tree.viewedKeys` — the groups that a view shows, and their keys
* `Tree.exclusionGroups`, `Tree.hiddenKeys` — all exclusion groups, and the keys in those that a
  view does not show

## Main results

* `Tree.categoryKeys_perm` — every category is either shown or hidden
* `Tree.isEnabled_iff` — targeting is enabled if a category is shown
* `Tree.hiddenKeys_eq_nil_of_single` — if the grammar allows one exclusion group, nothing is hidden
* `Tree.view_covers_iff` — when the view covers the expression
-/

namespace Targeting.Tree

variable {t : Tree} {r : NodeId} {gs : List Group} {g : Grammar}

/-- The groups that a view shows: the inclusion groups and the exclusion group. -/
def viewedGroups (t : Tree) : List NodeId := t.inclusionGroups ++ t.exclusionGroup.toList

/-- The keys in the groups that a view shows. -/
def viewedKeys (t : Tree) : List String := t.viewedGroups.flatMap t.groupCategories

/-- What is inside each `not` under the root, in order. -/
def exclusionGroups (t : Tree) : List NodeId :=
  match t.root with
  | some root =>
    ((t.children root).filter fun child => t.kind? child = some .not).flatMap t.children
  | none => []

/-- The keys in the exclusion groups behind the first one. -/
def hiddenKeys (t : Tree) : List String := t.exclusionGroups.tail.flatMap t.groupCategories

/-! ### The groups of a view as entries -/

section Groups

variable (hroot : t.root = some r) (hgs : t.groups? = some gs)
include hroot hgs

/-- The exclusion groups are the entries of this role, in order. -/
theorem exclusionGroups_eq :
    t.exclusionGroups = (gs.filter fun e => e.role = .exclusion).map Group.id := by
  simp only [exclusionGroups, hroot]
  rw [List.flatMap_def, map_children_nots hroot hgs, ← List.flatMap_def, ← List.map_eq_flatMap]

/-- The view shows the first exclusion group. -/
theorem exclusionGroup_eq_head? : t.exclusionGroup = t.exclusionGroups.head? := by
  rw [exclusionGroup_eq hroot hgs, exclusionGroups_eq hroot hgs, List.head?_map, List.head?_filter]

/-- The groups of the view and the other exclusion groups are all groups. -/
theorem viewedGroups_append_tail :
    t.viewedGroups ++ t.exclusionGroups.tail = t.inclusionGroups ++ t.exclusionGroups := by
  rw [viewedGroups, exclusionGroup_eq_head? hroot hgs, List.append_assoc]
  cases t.exclusionGroups <;> rfl

/-- Groups that are entries have the keys of these entries. -/
theorem flatMap_groupCategories {entries : List Group} (hsub : ∀ e ∈ entries, e ∈ gs) :
    (entries.map Group.id).flatMap t.groupCategories = entries.flatMap Group.categories := by
  rw [List.flatMap_map]
  exact List.flatMap_congr fun e he => groupCategories_of_mem hroot hgs (hsub e he)

/-- The keys of a list of groups are those of its entries. -/
theorem categoryKeys_eq_flatMap (h : t.IsForest) :
    t.categoryKeys = gs.flatMap Group.categories := by
  have hdenotes := (exists_groups?_iff hroot).mp ⟨gs, hgs, rfl⟩
  rw [hdenotes.categoryKeys_eq h hroot, Formula.keys_ofGroups, List.flatMap_map]
  rfl

/-- A group of the view is an entry. -/
theorem mem_ids_of_mem_viewedGroups {id : NodeId} (hid : id ∈ t.viewedGroups) :
    id ∈ gs.map Group.id := by
  have hmem : id ∈ t.inclusionGroups ++ t.exclusionGroups := by
    rw [← viewedGroups_append_tail hroot hgs]
    exact List.mem_append_left _ hid
  rw [inclusionGroups_eq hroot hgs, exclusionGroups_eq hroot hgs, ← List.map_append] at hmem
  obtain ⟨e, he, rfl⟩ := List.mem_map.mp hmem
  refine List.mem_map_of_mem ?_
  rcases List.mem_append.mp he with he | he <;> exact List.mem_of_mem_filter he

/-- A group of the view has a child if and only if it has a key. -/
theorem children_eq_nil_iff {id : NodeId} (hid : id ∈ t.viewedGroups) :
    t.children id = [] ↔ t.groupCategories id = [] := by
  obtain ⟨e, he, rfl⟩ := List.mem_map.mp (mem_ids_of_mem_viewedGroups hroot hgs hid)
  have hkeys := categories?_of_mem_groups hroot hgs he
  rw [groupCategories_of_mem hroot hgs he, ← List.map_eq_nil_iff (f := t.categoryKey?),
    (categories?_eq_some_iff.mp hkeys).2, List.map_eq_nil_iff]

/-- A list of groups is shown up to order, but for what is hidden. -/
theorem perm_categories_of_groups? :
    (t.viewedKeys ++ t.hiddenKeys).Perm (gs.flatMap Group.categories) := by
  have hexclusion : (fun e : Group => decide (e.role = .exclusion))
      = fun e => !decide (e.role = .inclusion) := by
    funext e
    cases e.role <;> rfl
  have hentries : ((gs.filter fun e => e.role = .inclusion)
      ++ gs.filter fun e => e.role = .exclusion).Perm gs := by
    rw [hexclusion]
    exact List.filter_append_perm _ gs
  have hkeys : t.viewedKeys ++ t.hiddenKeys = ((gs.filter fun e => e.role = .inclusion)
      ++ gs.filter fun e => e.role = .exclusion).flatMap Group.categories := by
    rw [viewedKeys, hiddenKeys, ← List.flatMap_append, viewedGroups_append_tail hroot hgs,
      inclusionGroups_eq hroot hgs, exclusionGroups_eq hroot hgs, ← List.map_append]
    exact flatMap_groupCategories hroot hgs fun e he => hentries.mem_iff.mp he
  rw [hkeys]
  exact hentries.flatMap_right _

end Groups

/-! ### Editable trees -/

/-- Without a root nothing is shown or hidden, since there is nothing. -/
theorem keys_eq_nil_of_no_root (hroot : t.root = none) :
    t.categoryKeys = [] ∧ t.viewedKeys = [] ∧ t.hiddenKeys = [] := by
  simp [categoryKeys, preorder, viewedKeys, viewedGroups, hiddenKeys, inclusionGroups,
    exclusionGroup, exclusionGroups, hroot]

/-- Every category of an editable tree is either shown or hidden. -/
theorem categoryKeys_perm (h : t.IsForest) (hedit : t.isEditable g = true) :
    t.categoryKeys.Perm (t.viewedKeys ++ t.hiddenKeys) := by
  cases hroot : t.root with
  | none =>
    obtain ⟨hkeys, hviewed, hhidden⟩ := keys_eq_nil_of_no_root hroot
    rw [hkeys, hviewed, hhidden]
    exact .nil
  | some r =>
    obtain hnone | ⟨gs, hgs, -⟩ := isEditable_iff.mp hedit
    · cases hroot.symm.trans hnone
    · rw [categoryKeys_eq_flatMap hroot hgs h]
      exact (perm_categories_of_groups? hroot hgs).symm

/-- Targeting is enabled if a category is shown. -/
theorem isEnabled_iff (hedit : t.isEditable g = true) :
    t.isEnabled = true ↔ t.viewedKeys ≠ [] := by
  cases hroot : t.root with
  | none => simp [isEnabled, hroot, (keys_eq_nil_of_no_root hroot).2.1]
  | some r =>
    obtain hnone | ⟨gs, hgs, -⟩ := isEditable_iff.mp hedit
    · cases hroot.symm.trans hnone
    · rw [isEnabled, hroot, Option.isSome_some, Bool.true_and, ← viewedGroups, List.any_eq_true,
        viewedKeys, Ne, List.flatMap_eq_nil_iff, not_forall]
      refine exists_congr fun id => ?_
      rw [Classical.not_imp, Bool.not_eq_true', List.isEmpty_eq_false_iff]
      exact and_congr_right fun hid => not_congr (children_eq_nil_iff hroot hgs hid)

/-- If the grammar allows one exclusion group at most, nothing is hidden. -/
theorem hiddenKeys_eq_nil_of_single (hedit : t.isEditable g = true)
    (hsingle : g.maxExclusionGroups ≤ 1) : t.hiddenKeys = [] := by
  cases hroot : t.root with
  | none => exact (keys_eq_nil_of_no_root hroot).2.2
  | some r =>
    obtain hnone | ⟨gs, hgs, hwithin⟩ := isEditable_iff.mp hedit
    · cases hroot.symm.trans hnone
    · have hcount := (hwithin .exclusion).trans hsingle
      rw [List.countP_eq_length_filter] at hcount
      have htail : t.exclusionGroups.tail = [] := by
        rw [exclusionGroups_eq hroot hgs, ← List.length_eq_zero_iff, List.length_tail,
          List.length_map]
        omega
      rw [hiddenKeys, htail, List.flatMap_nil]

/-- A view shows every category of an editable expression exactly once, except those in the
exclusion groups behind the first one, which only a grammar that allows several admits. Targeting is
enabled if a category is shown. So these say the same as the category keys if and only if nothing is
hidden, or something is shown beside it. -/
theorem view_covers_iff (h : t.IsReached) (hedit : t.isEditable g = true) :
    t.categoryKeys.Perm (t.viewedKeys ++ t.hiddenKeys) ∧
    (t.viewedKeys.Perm t.categoryKeys ↔ t.hiddenKeys = []) ∧
    (t.isEnabled = true ↔ t.viewedKeys ≠ []) ∧
    ((t.isEnabled = true ↔ t.categoryKeys ≠ []) ↔ t.viewedKeys ≠ [] ∨ t.hiddenKeys = []) ∧
    (g.maxExclusionGroups ≤ 1 → t.hiddenKeys = []) := by
  have hperm := categoryKeys_perm h.isForest hedit
  have henabled := isEnabled_iff hedit
  refine ⟨hperm, ⟨fun hcovers => ?_, fun hnone => ?_⟩, henabled, ?_,
    hiddenKeys_eq_nil_of_single hedit⟩
  · have hlength := (hcovers.trans hperm).length_eq
    rw [List.length_append] at hlength
    exact List.length_eq_zero_iff.mp (by omega)
  · rw [hnone, List.append_nil] at hperm
    exact hperm.symm
  · have hnil : t.categoryKeys = [] ↔ t.viewedKeys = [] ∧ t.hiddenKeys = [] := by
      rw [← List.append_eq_nil_iff]
      exact ⟨fun hkeys => (hkeys ▸ hperm).nil_eq.symm, fun hkeys => (hkeys ▸ hperm).eq_nil⟩
    rw [henabled, Ne, Ne, hnil]
    tauto

/-- With two exclusion groups, the only category is in the one that a view does not show. -/
theorem view_covers_iff_second_exclusion :
    ∃ t : Tree, t.IsReached ∧ t.isEditable { maxExclusionGroups := 2 } = true ∧
      t.categoryKeys = ["sport"] ∧ t.isEnabled = false ∧ ¬ t.viewedKeys.Perm t.categoryKeys := by
  obtain ⟨t, h, hedit, hkeys, hviewed, hhidden⟩ : ∃ t : Tree, t.IsReached ∧
      t.isEditable { maxExclusionGroups := 2 } = true ∧ t.categoryKeys = ["sport"] ∧
      t.viewedKeys = [] ∧ t.hiddenKeys = ["sport"] :=
    ⟨_, ⟨_, [], Or.inr ⟨.object [("and", .array [
      .object [("not", .array [.object [("or", .array [])]])],
      .object [("not", .array [.object [("or", .array [
        .object [("category", .string "sport")]])]])]])], rfl⟩, rfl⟩,
      by decide +kernel, by decide +kernel, by decide +kernel, by decide +kernel⟩
  obtain ⟨-, hcovers, henabled, -⟩ := view_covers_iff h hedit
  refine ⟨t, h, hedit, hkeys, ?_, fun hperm => ?_⟩
  · rw [← Bool.not_eq_true, henabled, not_not, hviewed]
  · rw [hcovers.mp hperm] at hhidden
    cases hhidden

end Targeting.Tree
