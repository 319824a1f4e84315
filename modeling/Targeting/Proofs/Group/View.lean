import Mathlib.Data.List.Forall2
import Targeting.Grammar
import Targeting.Group
import Targeting.Proofs.Tree.Names

/-!
# The groups of an editable tree

An editable tree with a root is an ordered list of groups. An entry of the list has a role, the
identifier of the `or` that its categories go into, and the keys of these categories in order. For
an exclusion group this `or` is not the child of the root itself but the one inside the `not`.

## Main definitions

* `Group` — an entry of the list
* `Tree.group?` — the group that a child of the root stands for
* `Tree.groups?` — the list, for a tree of the right shape

## Main results

* `Tree.isEditable_iff` — a tree is editable if it is a list of groups within the bounds
* `Tree.reaches_of_groups?` — the nodes reached from the root of a list of groups
* `Tree.nodup_ids_of_groups?` — no two entries share their `or`
* `Tree.groups?_congr` — what the list depends on
-/

namespace Targeting

/-- A group of an editable tree: its role, the `or` that categories go into, and their keys. -/
structure Group where
  role : GroupRole
  id : NodeId
  categories : List String
  deriving DecidableEq

/-- Without an entry of the `or` there is nothing to leave out. -/
theorem Group.filter_id_ne_eq_self {gs : List Group} {id : NodeId}
    (hnone : id ∉ gs.map Group.id) : (gs.filter fun e => e.id ≠ id) = gs := by
  refine List.filter_eq_self.mpr fun e he => decide_eq_true ?_
  rintro rfl
  exact hnone (List.mem_map_of_mem he)

/-- A list is mapped to results throughout if the results are what its elements are mapped to. -/
theorem mapM_eq_some_iff {α β : Type} {f : α → Option β} {xs : List α} {ys : List β} :
    xs.mapM f = some ys ↔ xs.map f = ys.map some := by
  induction xs generalizing ys with
  | nil =>
    cases ys <;> simp
  | cons x xs ih =>
    simp only [List.mapM_cons, Option.bind_eq_bind, Option.bind_eq_some_iff, List.map_cons,
      Option.pure_def, Option.some.injEq]
    constructor
    · rintro ⟨y, hy, rest, hrest, rfl⟩
      rw [List.map_cons, hy, ih.mp hrest]
    · intro h
      cases ys with
      | nil => cases h
      | cons y ys =>
        obtain ⟨hy, hrest⟩ := List.cons.inj h
        exact ⟨y, hy, ys, ih.mpr hrest, rfl⟩

/-- Results are found for a list if they are found for each of its elements. -/
theorem exists_mapM_eq_some {α β : Type} {f : α → Option β} {xs : List α} :
    (∃ ys, xs.mapM f = some ys) ↔ ∀ x ∈ xs, ∃ y, f x = some y := by
  induction xs with
  | nil => simp
  | cons x xs ih =>
    simp only [List.mapM_cons, Option.bind_eq_bind, Option.bind_eq_some_iff, Option.pure_def,
      Option.some.injEq, List.forall_mem_cons, ← ih]
    constructor
    · rintro ⟨_, y, hy, ys, hys, rfl⟩
      exact ⟨⟨y, hy⟩, ys, hys⟩
    · rintro ⟨⟨y, hy⟩, ys, hys⟩
      exact ⟨y :: ys, y, hy, ys, hys, rfl⟩

namespace Tree

variable {t t' : Tree} {r c id x : NodeId} {e e' : Group} {gs : List Group}

/-- The keys in an `or` of categories. -/
def categories? (t : Tree) (id : NodeId) : Option (List String) :=
  if t.kind? id = some .or then (t.children id).mapM t.categoryKey? else none

/-- The group that a child of the root stands for. -/
def group? (t : Tree) (child : NodeId) : Option Group :=
  match t.kind? child with
  | some .or => (t.categories? child).map fun keys => ⟨.inclusion, child, keys⟩
  | some .not =>
    match t.children child with
    | [only] => (t.categories? only).map fun keys => ⟨.exclusion, only, keys⟩
    | _ => none
  | _ => none

/-- The groups of a tree whose root is an `and` of groups. -/
def groups? (t : Tree) : Option (List Group) := do
  let root ← t.root
  if t.kind? root = some .and then (t.children root).mapM t.group? else none

/-! ### Reading the view -/

theorem categoryKey?_eq_some_iff {key : String} :
    t.categoryKey? id = some key ↔ t.kind? id = some (.category key) := by
  rw [categoryKey?, Option.bind_eq_some_iff]
  constructor
  · rintro ⟨kind, hkind, hkey⟩
    cases kind with
    | operator op => cases hkey
    | category key' =>
      cases hkey
      exact hkind
  · intro hkind
    exact ⟨_, hkind, rfl⟩

theorem categories?_eq_some_iff {keys : List String} :
    t.categories? id = some keys ↔
      t.kind? id = some .or ∧ (t.children id).map t.categoryKey? = keys.map some := by
  rw [categories?]
  split
  · next hkind => simp only [hkind, true_and, mapM_eq_some_iff]
  · next hkind => simp [hkind]

/-- The nodes that an entry consists of. -/
theorem group?_eq_some_iff :
    t.group? c = some e ↔
      (e.role = .inclusion ∧ c = e.id ∨
        e.role = .exclusion ∧ t.kind? c = some .not ∧ t.children c = [e.id]) ∧
      t.categories? e.id = some e.categories := by
  obtain ⟨role, id, keys⟩ := e
  constructor
  · intro h
    unfold group? at h
    split at h
    · obtain ⟨keys', hkeys, heq⟩ := Option.map_eq_some_iff.mp h
      cases heq
      exact ⟨Or.inl ⟨rfl, rfl⟩, hkeys⟩
    · next hkind =>
      split at h
      · next only honly =>
        obtain ⟨keys', hkeys, heq⟩ := Option.map_eq_some_iff.mp h
        cases heq
        exact ⟨Or.inr ⟨rfl, hkind, honly⟩, hkeys⟩
      · cases h
    · cases h
  · rintro ⟨⟨hrole, hc⟩ | ⟨hrole, hkind, honly⟩, hkeys⟩
    · have hkind := (categories?_eq_some_iff.mp hkeys).1
      dsimp only at hrole hc hkeys hkind
      subst hrole hc
      simp [group?, hkind, hkeys]
    · dsimp only at hrole honly hkeys
      subst hrole
      simp [group?, hkind, honly, hkeys]

theorem groups?_eq_some_iff :
    t.groups? = some gs ↔
      ∃ r, t.root = some r ∧ t.kind? r = some .and ∧ (t.children r).map t.group? = gs.map some := by
  simp only [groups?, Option.bind_eq_bind, Option.bind_eq_some_iff]
  constructor
  · rintro ⟨r, hr, h⟩
    split at h
    · next hkind => exact ⟨r, hr, hkind, mapM_eq_some_iff.mp h⟩
    · cases h
  · rintro ⟨r, hr, hkind, h⟩
    refine ⟨r, hr, ?_⟩
    rw [if_pos hkind, mapM_eq_some_iff.mpr h]

/-- The kind of the child of the root that stands for an entry. -/
theorem kind?_of_group? (h : t.group? c = some e) : t.kind? c = some e.role.marker := by
  obtain ⟨⟨hrole, hc⟩ | ⟨hrole, hkind, -⟩, hkeys⟩ := group?_eq_some_iff.mp h
  · rw [hrole, hc]
    exact (categories?_eq_some_iff.mp hkeys).1
  · rw [hrole]
    exact hkind

/-- Categories go into an `or`. -/
theorem kind?_id_of_group? (h : t.group? c = some e) : t.kind? e.id = some .or :=
  (categories?_eq_some_iff.mp (group?_eq_some_iff.mp h).2).1

/-- The `or` of an entry is reached from the child of the root that stands for the entry. -/
theorem reaches_id_of_group? (h : t.group? c = some e) : t.Reaches c e.id := by
  obtain ⟨⟨-, hc⟩ | ⟨-, -, honly⟩, -⟩ := group?_eq_some_iff.mp h
  · rw [hc]
    exact Reaches.refl e.id
  · exact Reaches.head (honly ▸ List.mem_singleton_self e.id) (Reaches.refl e.id)

/-- The `or` of an entry that includes is itself the child of the root. -/
theorem eq_id_of_group? (h : t.group? c = some e) (hrole : e.role = .inclusion) : c = e.id := by
  obtain ⟨⟨-, hc⟩ | ⟨hother, -⟩, -⟩ := group?_eq_some_iff.mp h
  · exact hc
  · cases hrole.symm.trans hother

/-- The `or` of an entry that excludes is all that there is inside its `not`. -/
theorem children_of_group? (h : t.group? c = some e) (hrole : e.role = .exclusion) :
    t.children c = [e.id] := by
  obtain ⟨⟨hother, -⟩ | ⟨-, -, honly⟩, -⟩ := group?_eq_some_iff.mp h
  · cases hrole.symm.trans hother
  · exact honly

section Groups

variable (hroot : t.root = some r) (hgs : t.groups? = some gs)
include hroot hgs

theorem kind?_root_of_groups? : t.kind? r = some .and := by
  obtain ⟨r', hr', hkind, -⟩ := groups?_eq_some_iff.mp hgs
  cases hroot.symm.trans hr'
  exact hkind

theorem map_group?_of_groups? : (t.children r).map t.group? = gs.map some := by
  obtain ⟨r', hr', -, hmap⟩ := groups?_eq_some_iff.mp hgs
  cases hroot.symm.trans hr'
  exact hmap

/-- Child by child, the children of the root stand for the entries. -/
theorem forall₂_group?_of_groups? :
    List.Forall₂ (fun c e => t.group? c = some e) (t.children r) gs := by
  have hmap := map_group?_of_groups? hroot hgs
  rwa [← List.forall₂_eq_eq_eq, List.forall₂_map_left_iff, List.forall₂_map_right_iff] at hmap

/-- The children of the kind that marks a role stand for the entries of this role. -/
theorem forall₂_filter_of_groups? (role : GroupRole) :
    List.Forall₂ (fun c e => t.group? c = some e ∧ e.role = role)
      ((t.children r).filter fun c => t.kind? c = some role.marker)
      (gs.filter fun e => e.role = role) := by
  have hall := forall₂_group?_of_groups? hroot hgs
  clear hgs
  generalize t.children r = cs at hall
  induction hall with
  | nil => exact .nil
  | @cons c e cs gs hc _ ih =>
    -- the kind of a child tells the role of its entry
    have hkind : t.kind? c = some role.marker ↔ e.role = role := by
      rw [kind?_of_group? hc]
      cases e.role <;> cases role <;> simp [GroupRole.marker]
    by_cases hrole : e.role = role
    · rw [List.filter_cons_of_pos (by simpa using hkind.mpr hrole),
        List.filter_cons_of_pos (by simpa using hrole)]
      exact .cons ⟨hc, hrole⟩ ih
    · rw [List.filter_cons_of_neg (by simpa using mt hkind.mp hrole),
        List.filter_cons_of_neg (by simpa using hrole)]
      exact ih

/-- Every child of the root stands for an entry. -/
theorem exists_group?_of_mem_children (hc : c ∈ t.children r) : ∃ e ∈ gs, t.group? c = some e := by
  have hmem : t.group? c ∈ gs.map some :=
    map_group?_of_groups? hroot hgs ▸ List.mem_map_of_mem hc
  obtain ⟨e, he, heq⟩ := List.mem_map.mp hmem
  exact ⟨e, he, heq.symm⟩

/-- Every entry belongs to a child of the root. -/
theorem exists_group?_of_mem_groups (he : e ∈ gs) : ∃ c ∈ t.children r, t.group? c = some e := by
  have hmem : some e ∈ (t.children r).map t.group? :=
    map_group?_of_groups? hroot hgs ▸ List.mem_map_of_mem he
  exact List.mem_map.mp hmem

/-- The categories of an entry are those of its `or`. -/
theorem categories?_of_mem_groups (he : e ∈ gs) : t.categories? e.id = some e.categories := by
  obtain ⟨c, -, hce⟩ := exists_group?_of_mem_groups hroot hgs he
  exact (group?_eq_some_iff.mp hce).2

end Groups

/-! ### Editable trees -/

theorem isCategoryGroup_iff :
    t.isCategoryGroup id = true ↔ ∃ keys, t.categories? id = some keys := by
  simp only [isCategoryGroup, categories?, Bool.and_eq_true, decide_eq_true_eq, List.all_eq_true,
    Option.isSome_iff_exists, ← exists_mapM_eq_some]
  split
  · next hkind => simp only [hkind, true_and]
  · next hkind => simp [hkind]

/-- A child of the root has the right shape if it stands for a group. -/
theorem isGroup_iff : t.isGroup c = true ↔ ∃ e, t.group? c = some e := by
  rw [isGroup]
  constructor
  · intro h
    split at h
    · obtain ⟨keys, hkeys⟩ := isCategoryGroup_iff.mp h
      exact ⟨⟨.inclusion, c, keys⟩, group?_eq_some_iff.mpr ⟨Or.inl ⟨rfl, rfl⟩, hkeys⟩⟩
    · next hkind =>
      split at h
      · next only honly =>
        obtain ⟨keys, hkeys⟩ := isCategoryGroup_iff.mp h
        exact ⟨⟨.exclusion, only, keys⟩,
          group?_eq_some_iff.mpr ⟨Or.inr ⟨rfl, hkind, honly⟩, hkeys⟩⟩
      · cases h
    · cases h
  · rintro ⟨e, he⟩
    have hgroup : t.isCategoryGroup e.id = true :=
      isCategoryGroup_iff.mpr ⟨_, (group?_eq_some_iff.mp he).2⟩
    obtain ⟨⟨-, hc⟩ | ⟨-, hkind, honly⟩, -⟩ := group?_eq_some_iff.mp he
    · have hkind := kind?_id_of_group? he
      rw [← hc] at hkind hgroup
      simpa only [hkind] using hgroup
    · simpa only [hkind, honly] using hgroup

/-- The children of a kind are the entries of a role. -/
theorem countChildren_eq (hroot : t.root = some r) (hgs : t.groups? = some gs) (role : GroupRole) :
    t.countChildren r role.marker = gs.countP fun e => e.role = role := by
  have hall := forall₂_filter_of_groups? hroot hgs role
  rw [countChildren, List.countP_eq_length_filter, List.countP_eq_length_filter, hall.length_eq]

/-- A tree is editable if it is empty or a list of groups within the bounds. -/
theorem isEditable_iff {g : Grammar} :
    t.isEditable g = true ↔ t.root = none ∨
      ∃ gs, t.groups? = some gs ∧ ∀ role, gs.countP (fun e => e.role = role) ≤ g.limit role := by
  cases hroot : t.root with
  | none => simp [isEditable, hroot]
  | some r =>
    simp only [isEditable, hroot, Bool.and_eq_true, decide_eq_true_eq, List.all_eq_true,
      isGroup_iff, reduceCtorEq, false_or]
    rw [← exists_mapM_eq_some]
    constructor
    · rintro ⟨⟨⟨hkind, gs, hmap⟩, hincl⟩, hexcl⟩
      have hgs : t.groups? = some gs :=
        groups?_eq_some_iff.mpr ⟨r, hroot, hkind, mapM_eq_some_iff.mp hmap⟩
      refine ⟨gs, hgs, fun role => ?_⟩
      rw [← countChildren_eq hroot hgs]
      cases role with
      | inclusion => exact hincl
      | exclusion => exact hexcl
    · rintro ⟨gs, hgs, hcount⟩
      simp only [← countChildren_eq hroot hgs] at hcount
      refine ⟨⟨⟨kind?_root_of_groups? hroot hgs, gs, ?_⟩, hcount .inclusion⟩, hcount .exclusion⟩
      exact mapM_eq_some_iff.mpr (map_group?_of_groups? hroot hgs)

/-! ### What a list of groups consists of -/

/-- The children of a group are categories, one for each key. -/
theorem kind?_of_mem_categories {keys : List String} (hkeys : t.categories? id = some keys)
    (hx : x ∈ t.children id) : ∃ key ∈ keys, t.kind? x = some (.category key) := by
  have hmem : t.categoryKey? x ∈ keys.map some :=
    (categories?_eq_some_iff.mp hkeys).2 ▸ List.mem_map_of_mem hx
  obtain ⟨key, hkey, heq⟩ := List.mem_map.mp hmem
  exact ⟨key, hkey, categoryKey?_eq_some_iff.mp heq.symm⟩

section Forest

variable (h : t.IsForest) (hroot : t.root = some r) (hgs : t.groups? = some gs)
include h hroot hgs

/-- Below the root of a list of groups there are its children, the `or` of each entry, and
categories. -/
theorem reaches_of_groups? (hreach : t.Reaches r x) :
    x = r ∨ (∃ c ∈ t.children r, ∃ e ∈ gs, t.group? c = some e ∧ (x = c ∨ x = e.id)) ∨
      ∃ key, t.kind? x = some (.category key) := by
  induction hreach with
  | refl => exact Or.inl rfl
  | @tail p x _ hx ih =>
    right
    -- one step down from the root, from a child of it or its `or`, or from a category
    rcases ih with rfl | ⟨c, hc, e, he, hce, hp⟩ | ⟨key, hkey⟩
    · obtain ⟨e, he, hxe⟩ := exists_group?_of_mem_children hroot hgs hx
      exact Or.inl ⟨x, hx, e, he, hxe, Or.inl rfl⟩
    · obtain ⟨hshape, hkeys⟩ := group?_eq_some_iff.mp hce
      have hcategory : p = e.id → ∃ key, t.kind? x = some (.category key) := by
        rintro rfl
        obtain ⟨key, -, hkey⟩ := kind?_of_mem_categories hkeys hx
        exact ⟨key, hkey⟩
      rcases hp with rfl | hp
      · rcases hshape with ⟨-, hid⟩ | ⟨-, -, honly⟩
        · exact Or.inr (hcategory hid)
        · rw [honly] at hx
          exact Or.inl ⟨p, hc, e, he, hce, Or.inr (List.mem_singleton.mp hx)⟩
      · exact Or.inr (hcategory hp)
    · simp [h.childless hkey] at hx

/-- The only `and` that the root reaches is the root itself. -/
theorem eq_root_of_reaches (hreach : t.Reaches r x) (hkind : t.kind? x = some .and) : x = r := by
  rcases reaches_of_groups? h hroot hgs hreach with hx | ⟨c, -, e, -, hce, rfl | rfl⟩ | ⟨key, hkey⟩
  · exact hx
  · rw [kind?_of_group? hce] at hkind
    cases hrole : e.role <;> simp [hrole, GroupRole.marker] at hkind
  · rw [kind?_id_of_group? hce] at hkind
    cases hkind
  · rw [hkey] at hkind
    cases hkind

/-- An `or` is reached from the root if and only if it belongs to an entry. -/
theorem mem_ids_iff_of_kind? (hkind : t.kind? x = some .or) :
    x ∈ gs.map Group.id ↔ t.Reaches r x := by
  constructor
  · intro hx
    obtain ⟨e, he, rfl⟩ := List.mem_map.mp hx
    obtain ⟨c, hc, hce⟩ := exists_group?_of_mem_groups hroot hgs he
    exact Reaches.head hc (reaches_id_of_group? hce)
  · intro hreach
    rcases reaches_of_groups? h hroot hgs hreach with rfl | ⟨c, hc, e, he, hce, hx⟩ | ⟨key, hkey⟩
    · rw [kind?_root_of_groups? hroot hgs] at hkind
      cases hkind
    · refine List.mem_map.mpr ⟨e, he, ?_⟩
      rcases hx with rfl | rfl
      · obtain ⟨⟨-, hid⟩ | ⟨-, hnot, -⟩, -⟩ := group?_eq_some_iff.mp hce
        · exact hid.symm
        · rw [hnot] at hkind
          cases hkind
      · rfl
    · rw [hkey] at hkind
      cases hkind

/-- No two entries share their `or`. -/
theorem nodup_ids_of_groups? : (gs.map Group.id).Nodup := by
  have hids : (gs.map Group.id).map some
      = (t.children r).map fun c => (t.group? c).map Group.id := by
    rw [← Function.comp_def, ← List.map_map, map_group?_of_groups? hroot hgs]
    simp
  refine List.Nodup.of_map some ?_
  rw [hids]
  -- two children of the root reach nothing in common, so neither do they share an `or`
  refine List.Nodup.map_on (fun c hc c' hc' heq => ?_) (h.nodup r)
  obtain ⟨e, -, he⟩ := exists_group?_of_mem_children hroot hgs hc
  obtain ⟨e', -, he'⟩ := exists_group?_of_mem_children hroot hgs hc'
  rw [he, he', Option.map_some, Option.map_some, Option.some_inj] at heq
  exact h.eq_of_reaches_siblings hc hc' (reaches_id_of_group? he)
    (heq ▸ reaches_id_of_group? he')

end Forest

/-! ### Changes elsewhere -/

/-- The categories of a group depend on the group and its children only. -/
theorem categories?_congr (hid : t'.kind? id = t.kind? id ∧ t'.children id = t.children id)
    (hchildren : ∀ x ∈ t.children id, t'.kind? x = t.kind? x) :
    t'.categories? id = t.categories? id := by
  have hkeys : (t.children id).map t'.categoryKey? = (t.children id).map t.categoryKey? :=
    List.map_congr_left fun x hx => by rw [categoryKey?, hchildren x hx, categoryKey?]
  ext keys
  simp only [categories?_eq_some_iff, hid, hkeys]

/-- A group depends on what is reached from its child of the root only. -/
theorem group?_congr
    (hbelow : ∀ x, t.Reaches c x → t'.kind? x = t.kind? x ∧ t'.children x = t.children x)
    (hc : t.group? c = some e) : t'.group? c = some e := by
  obtain ⟨hshape, hkeys⟩ := group?_eq_some_iff.mp hc
  have hid := reaches_id_of_group? hc
  refine group?_eq_some_iff.mpr ⟨?_, ?_⟩
  · simpa only [hbelow c (Reaches.refl c)] using hshape
  · rw [categories?_congr (hbelow e.id hid) fun x hx => (hbelow x (hid.tail hx)).1, hkeys]

/-- The groups depend on what is reached from the root only. -/
theorem groups?_congr (hroot : t'.root = t.root)
    (hbelow : ∀ r x, t.root = some r → t.Reaches r x →
      t'.kind? x = t.kind? x ∧ t'.children x = t.children x)
    (hgs : t.groups? = some gs) : t'.groups? = some gs := by
  obtain ⟨r, hr, hkind, hmap⟩ := groups?_eq_some_iff.mp hgs
  have hself := hbelow r r hr (Reaches.refl r)
  refine groups?_eq_some_iff.mpr ⟨r, hroot.trans hr, hself.1.trans hkind, ?_⟩
  rw [hself.2, ← hmap]
  refine List.map_congr_left fun c hc => ?_
  obtain ⟨e, -, hce⟩ := exists_group?_of_mem_children hr hgs hc
  rw [hce, group?_congr (fun x hx => hbelow r x hr (Reaches.head hc hx)) hce]

/-- Names play no part in the groups. -/
theorem groups?_eq_of_nameless_eq (heq : t'.nameless = t.nameless) (hgs : t.groups? = some gs) :
    t'.groups? = some gs := by
  have hroot : t'.root = t.root := by rw [← root_nameless, heq, root_nameless]
  refine groups?_congr hroot (fun _ x _ _ => ⟨?_, ?_⟩) hgs
  · rw [← kind?_nameless, heq, kind?_nameless]
  · rw [← children_nameless, heq, children_nameless]

end Tree

end Targeting
