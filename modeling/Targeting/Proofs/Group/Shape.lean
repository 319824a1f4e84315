import Targeting.Proofs.Expression.Reading
import Targeting.Proofs.Group.Editable

/-!
# The formula of a list of groups

Without the identifiers, a list of groups is the same as a formula of the editable shape. So whether
a tree can be edited is a question about the formula it holds, and all trees that hold the same
formula show the same groups up to identifiers.

## Main definitions

* `Group.shape` — the role and the keys of an entry
* `Formula.ofGroups` — the formula of the editable shape

## Main results

* `Tree.exists_groups?_iff` — the groups of a tree and the formula at its root
* `Tree.isEditable_iff_formula` — editable trees by their formulas
* `Formula.keys_ofGroups` — the keys of a list of groups
-/

namespace Targeting

/-- The role and the keys of an entry. -/
def Group.shape (e : Group) : GroupRole × List String := (e.role, e.categories)

theorem Group.countP_map_shape (gs : List Group) (role : GroupRole) :
    (gs.map Group.shape).countP (fun shape => shape.1 = role)
      = gs.countP fun e => e.role = role := by
  rw [List.countP_map]
  rfl

namespace Formula

/-- The disjunction of categories with the given keys. -/
def ofKeys (keys : List String) : Formula := .operator .or (keys.map .category)

/-- The formula of a group. -/
def ofGroup : GroupRole × List String → Formula
  | (.inclusion, keys) => ofKeys keys
  | (.exclusion, keys) => .operator .not [ofKeys keys]

/-- The formula of the editable shape. -/
def ofGroups (shapes : List (GroupRole × List String)) : Formula :=
  .operator .and (shapes.map ofGroup)

variable {key : String} {shapes : List (GroupRole × List String)}

theorem keys_ofKeys (keys : List String) : (ofKeys keys).keys = keys := by
  rw [ofKeys, Formula.keys]
  induction keys with
  | nil => rfl
  | cons key keys ih =>
    rw [List.map_cons, keysAll, ih, Formula.keys]
    rfl

theorem keys_ofGroup (shape : GroupRole × List String) : (ofGroup shape).keys = shape.2 := by
  obtain ⟨role, keys⟩ := shape
  cases role with
  | inclusion => exact keys_ofKeys keys
  | exclusion => rw [ofGroup, Formula.keys, keysAll, keysAll, keys_ofKeys, List.append_nil]

/-- The keys of a list of groups are those of its entries, in order. -/
theorem keys_ofGroups (shapes : List (GroupRole × List String)) :
    (ofGroups shapes).keys = shapes.flatMap Prod.snd := by
  rw [ofGroups, Formula.keys]
  induction shapes with
  | nil => rfl
  | cons shape shapes ih =>
    rw [List.map_cons, keysAll, ih, keys_ofGroup, List.flatMap_cons]

theorem mem_keys_ofGroups : key ∈ (ofGroups shapes).keys ↔ ∃ shape ∈ shapes, key ∈ shape.2 := by
  rw [keys_ofGroups, List.mem_flatMap]

end Formula

namespace Tree

variable {t : Tree} {r c id : NodeId} {ids : List NodeId} {f : Formula} {gs : List Group}
  {keys : List String} {shape : GroupRole × List String}
  {shapes : List (GroupRole × List String)}

/-- Nodes stand for categories if they have the keys of these categories. -/
theorem denotesAll_category_iff :
    t.DenotesAll ids (keys.map .category) ↔ ids.map t.categoryKey? = keys.map some := by
  induction ids generalizing keys with
  | nil => cases keys <;> simp
  | cons id ids ih =>
    cases keys with
    | nil => simp
    | cons key keys =>
      rw [denotesAll_cons, List.map_cons, List.map_cons, List.map_cons, List.cons.injEq, ← ih,
        categoryKey?_eq_some_iff]
      constructor
      · rintro ⟨f, fs, heq, hf, hfs⟩
        cases heq
        exact ⟨denotes_category.mp hf, hfs⟩
      · rintro ⟨hkey, hfs⟩
        exact ⟨_, _, rfl, denotes_category.mpr hkey, hfs⟩

theorem denotes_ofKeys_iff : t.Denotes id (.ofKeys keys) ↔ t.categories? id = some keys := by
  rw [Formula.ofKeys, denotes_operator, denotesAll_category_iff, categories?_eq_some_iff]

/-- A node stands for the formula of a group if it shows a group of this shape. -/
theorem denotes_ofGroup_iff :
    t.Denotes c (.ofGroup shape) ↔ ∃ e, t.group? c = some e ∧ e.shape = shape := by
  obtain ⟨role, keys⟩ := shape
  cases role with
  | inclusion =>
    rw [Formula.ofGroup, denotes_ofKeys_iff]
    constructor
    · intro hkeys
      exact ⟨⟨.inclusion, c, keys⟩, group?_eq_some_iff.mpr ⟨Or.inl ⟨rfl, rfl⟩, hkeys⟩, rfl⟩
    · rintro ⟨⟨role, id, keys'⟩, he, hshape⟩
      cases hshape
      obtain ⟨⟨-, hid⟩ | ⟨hrole, -⟩, hkeys⟩ := group?_eq_some_iff.mp he
      · exact hid ▸ hkeys
      · cases hrole
  | exclusion =>
    rw [Formula.ofGroup, denotes_operator]
    constructor
    · rintro ⟨hnot, hinner⟩
      cases hchildren : t.children c with
      | nil => simp [hchildren] at hinner
      | cons only rest =>
        rw [hchildren, denotesAll_cons] at hinner
        obtain ⟨f, fs, heq, hf, hfs⟩ := hinner
        cases heq
        have hrest : rest = [] := by
          cases rest with
          | nil => rfl
          | cons x xs => simp at hfs
        refine ⟨⟨.exclusion, only, keys⟩, group?_eq_some_iff.mpr ⟨Or.inr ⟨rfl, hnot, ?_⟩,
          denotes_ofKeys_iff.mp hf⟩, rfl⟩
        rw [hchildren, hrest]
    · rintro ⟨⟨role, id, keys'⟩, he, hshape⟩
      cases hshape
      obtain ⟨⟨hrole, -⟩ | ⟨-, hnot, honly⟩, hkeys⟩ := group?_eq_some_iff.mp he
      · cases hrole
      · rw [honly]
        exact ⟨hnot, denotesAll_cons.mpr
          ⟨_, _, rfl, denotes_ofKeys_iff.mpr hkeys, denotesAll_nil.mpr rfl⟩⟩

theorem denotesAll_ofGroup_iff :
    t.DenotesAll ids (shapes.map .ofGroup) ↔
      ∃ gs : List Group, ids.map t.group? = gs.map some ∧ gs.map Group.shape = shapes := by
  induction ids generalizing shapes with
  | nil =>
    rw [denotesAll_nil, List.map_eq_nil_iff]
    constructor
    · rintro rfl
      exact ⟨[], rfl, rfl⟩
    · rintro ⟨gs, hnil, rfl⟩
      cases gs with
      | nil => rfl
      | cons e gs => cases hnil
  | cons id ids ih =>
    cases shapes with
    | nil =>
      rw [List.map_nil, denotesAll_cons]
      constructor
      · rintro ⟨f, fs, heq, -⟩
        cases heq
      · rintro ⟨gs, hmap, hnil⟩
        rw [List.map_eq_nil_iff.mp hnil] at hmap
        cases hmap
    | cons shape shapes =>
      rw [denotesAll_cons]
      constructor
      · rintro ⟨f, fs, heq, hf, hfs⟩
        cases heq
        obtain ⟨e, he, hshape⟩ := denotes_ofGroup_iff.mp hf
        obtain ⟨gs, hgs, hshapes⟩ := ih.mp hfs
        refine ⟨e :: gs, ?_, ?_⟩
        · rw [List.map_cons, List.map_cons, he, hgs]
        · rw [List.map_cons, hshape, hshapes]
      · rintro ⟨gs, hmap, hshapes⟩
        cases gs with
        | nil => cases hmap
        | cons e gs =>
          obtain ⟨he, hmap⟩ := List.cons.inj hmap
          obtain ⟨hshape, hshapes⟩ := List.cons.inj hshapes
          exact ⟨_, _, rfl, denotes_ofGroup_iff.mpr ⟨e, he, hshape⟩, ih.mpr ⟨gs, hmap, hshapes⟩⟩

/-- A tree shows groups of the given shapes if its root stands for the formula of these. -/
theorem exists_groups?_iff (hroot : t.root = some r) :
    (∃ gs, t.groups? = some gs ∧ gs.map Group.shape = shapes) ↔ t.Denotes r (.ofGroups shapes) := by
  rw [Formula.ofGroups, denotes_operator, denotesAll_ofGroup_iff]
  constructor
  · rintro ⟨gs, hgs, hshapes⟩
    exact ⟨kind?_root_of_groups? hroot hgs, gs, map_group?_of_groups? hroot hgs, hshapes⟩
  · rintro ⟨hkind, gs, hmap, hshapes⟩
    exact ⟨gs, groups?_eq_some_iff.mpr ⟨r, hroot, hkind, hmap⟩, hshapes⟩

/-- A tree can be edited if the formula at its root has the editable shape within the bounds. -/
theorem isEditable_iff_formula {g : Grammar} (hroot : t.root = some r) (hf : t.Denotes r f) :
    t.isEditable g = true ↔ ∃ shapes, f = .ofGroups shapes ∧
      ∀ role, shapes.countP (fun shape => shape.1 = role) ≤ g.limit role := by
  rw [isEditable_iff, hroot]
  simp only [reduceCtorEq, false_or]
  constructor
  · rintro ⟨gs, hgs, hbound⟩
    refine ⟨gs.map Group.shape, ?_, fun role => by rw [Group.countP_map_shape]; exact hbound role⟩
    exact hf.unique ((exists_groups?_iff hroot).mp ⟨gs, hgs, rfl⟩)
  · rintro ⟨shapes, rfl, hbound⟩
    obtain ⟨gs, hgs, rfl⟩ := (exists_groups?_iff hroot).mpr hf
    exact ⟨gs, hgs, fun role => by rw [← Group.countP_map_shape]; exact hbound role⟩

end Tree

end Targeting
