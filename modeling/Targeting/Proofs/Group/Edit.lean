import Targeting.Proofs.Group.Outcome

/-!
# What the edits of groups do

Each edit of a list of groups changes the list in one way, whatever identifiers and keys it is
called with: an identifier that is stale, of the wrong kind or out of reach of the root leaves the
list alone. In all cases the root stays, and no node becomes loose or stops being loose.

## Main definitions

* `Tree.Shows` — a later tree with its groups, the same root and the same loose nodes
* `insertKey` — a list of keys with one more, unless it is there

## Main results

* `Edit.on_enableTargeting_of_no_root`, `Edit.on_addGroup`, `Edit.on_addCategory`,
  `Edit.on_removeCategory`, `Edit.on_removeGroup` — the results of the edits and the groups
  afterwards
-/

namespace Targeting

/-- A list of keys with one more at the end, unless it is there already. -/
def insertKey (key : String) (keys : List String) : List String :=
  if key ∈ keys then keys else keys ++ [key]

theorem mem_insertKey {key name : String} {keys : List String} :
    key ∈ insertKey name keys ↔ key ∈ keys ∨ key = name := by
  unfold insertKey
  split
  · next hmem =>
    refine ⟨Or.inl, ?_⟩
    rintro (hkey | rfl)
    · exact hkey
    · exact hmem
  · rw [List.mem_append, List.mem_singleton]

namespace Tree

variable {t t' : Tree} {r p c g id x : NodeId} {gs gs' : List Group}

/-- The second tree is a forest that shows the given groups under the same root, and it has the same
loose nodes. -/
structure Shows (t t' : Tree) (gs : List Group) : Prop where
  isForest : t'.IsForest
  root : t'.root = t.root
  isLoose : ∀ x, t'.IsLoose x ↔ t.IsLoose x
  groups : t'.groups? = some gs

theorem Shows.refl (h : t.IsForest) (hgs : t.groups? = some gs) : Shows t t gs :=
  ⟨h, rfl, fun _ => Iff.rfl, hgs⟩

theorem shows_grow {op : Operator} (h : t.IsForest) (hp : t.kind? p = some (.operator op))
    {kind : NodeKind} (hgs : (t.grow p kind).groups? = some gs) : Shows t (t.grow p kind) gs :=
  ⟨h.grow hp kind, rfl, fun x => isLoose_grow h hp kind x, hgs⟩

theorem shows_prune (h : t.IsForest) (hc : c ∈ t.children p)
    (hgs : (t.prune p c).groups? = some gs) : Shows t (t.prune p c) gs :=
  ⟨h.prune hc, rfl, fun _ => isLoose_prune h hc, hgs⟩

end Tree

namespace Edit

open Targeting.Tree

variable {t : Tree} {r : NodeId} {gs : List Group}

/-! ### A first root -/

theorem groups?_withNewRoot (h : t.IsForest) : t.withNewRoot.groups? = some [] := by
  refine groups?_eq_some_iff.mpr ⟨t.nextId, rfl, kind?_withNewRoot h, ?_⟩
  have hchildren : t.withNewRoot.children t.nextId = [] :=
    (children_create h.wellFormed .and _).trans (children_of_not_isLive h.not_isLive_nextId)
  rw [hchildren]
  rfl

/-- Enabling a tree without a root makes one, with one empty inclusion group. -/
theorem on_enableTargeting_of_no_root (h : t.IsForest) (hroot : t.root = none) :
    ∃ r t' id, enableTargeting.on t = (.ok r, t') ∧ t'.IsForest ∧ t'.root = some r ∧
      (∀ x, t'.IsLoose x ↔ x = r ∨ t.IsLoose x) ∧ t'.groups? = some [⟨.inclusion, id, []⟩] := by
  have h' := isForest_withNewRoot h
  have hkind := kind?_withNewRoot h
  refine ⟨t.nextId, t.withNewRoot.grow t.nextId .or, _, enableTargeting_of_no_root h hroot,
    h'.grow hkind .or, rfl, fun x => ?_, groups?_grow_inclusion h' rfl (groups?_withNewRoot h)⟩
  rw [isLoose_grow h' hkind]
  exact isLoose_create h .and x

/-! ### Edits of a list of groups -/

section Groups

variable (h : t.IsForest) (hroot : t.root = some r) (hgs : t.groups? = some gs)
include h hroot hgs

/-- A group is added at the end if the node is the root. Another `and` has no part in the list. -/
theorem on_addGroup (role : GroupRole) (p : NodeId) (g : Grammar) :
    (t.kind? p ≠ some .and ∧
      (addGroup role p g).on t = (.error (t.kindError (.addGroup role) p), t)) ∨
    (t.kind? p = some .and ∧ g.limit role ≤ t.countChildren p role.marker ∧
      (addGroup role p g).on t = (.error (.groupLimitReached role (g.limit role)), t)) ∨
    (t.kind? p = some .and ∧ t.countChildren p role.marker < g.limit role ∧
      ∃ id t', (addGroup role p g).on t = (.ok id, t') ∧ ¬ t.IsLive id ∧
        Shows t t' (if p = r then gs ++ [⟨role, id, []⟩] else gs)) := by
  obtain hno | ⟨hkind, hfull, hon⟩ | ⟨hkind, hroom, hon⟩ := addGroup_cases h role p g
  · exact Or.inl hno
  · exact Or.inr (Or.inl ⟨hkind, by simpa [canAddGroup] using hfull, hon⟩)
  · refine Or.inr (Or.inr ⟨hkind, by simpa [canAddGroup] using hroom, _, _, hon, ?_⟩)
    cases role with
    | inclusion =>
      exact ⟨h.not_isLive_nextId, shows_grow h hkind (groups?_grow_or h hroot hgs hkind)⟩
    | exclusion =>
      have h' := h.grow hkind .not
      have hwrapper := kind?_grow_nextId h hkind .not
      have hroot' : ((t.grow p .not).grow t.nextId .or).root = t.root := by
        rw [root_grow, root_grow]
      refine ⟨h.not_isLive_nextId_grow hkind .not, h'.grow hwrapper .or, hroot', fun x => ?_,
        groups?_grow_not_or h hroot hgs hkind⟩
      exact (isLoose_grow h' hwrapper .or x).trans (isLoose_grow h hkind .not x)

omit h in
/-- A category is found below the `or` of an entry if the entry has it. -/
theorem findCategory?_eq_none_iff_of_id {g : NodeId} (key : String) :
    ∀ e ∈ gs, e.id = g → (t.findCategory? g key = none ↔ key ∉ e.categories) := by
  rintro e he rfl
  exact findCategory?_id_eq_none_iff hroot hgs he key

/-- A category is added at the end of the entry of the `or`, if the entry does not have it. The
node that is returned is this category. -/
theorem on_addCategory (g : NodeId) (key : String) :
    (t.kind? g ≠ some .or ∧
      (addCategory g key).on t = (.error (t.kindError .addCategory g), t)) ∨
    (t.kind? g = some .or ∧
      ∃ leaf t', (addCategory g key).on t = (.ok leaf, t') ∧ leaf ∈ t'.children g ∧
        t'.kind? leaf = some (.category key) ∧
        Shows t t' (gs.map (Group.update g (insertKey key)))) := by
  have hfound := findCategory?_eq_none_iff_of_id hroot hgs (g := g) key
  obtain hno | ⟨hkind, leaf, hfind, hon⟩ | ⟨hkind, hfind, hon⟩ := addCategory_cases h g key
  · exact Or.inl hno
  · obtain ⟨hmem, hleaf⟩ := mem_of_findCategory? hfind
    refine Or.inr ⟨hkind, leaf, t, hon, hmem, hleaf, ?_⟩
    rw [Group.map_update_eq_self fun e he hid => ?_]
    · exact Shows.refl h hgs
    · have hkey : key ∈ e.categories := by
        by_contra hkey
        rw [(hfound e he hid).mpr hkey] at hfind
        cases hfind
      rw [insertKey, if_pos hkey]
  · refine Or.inr ⟨hkind, t.nextId, t.grow g (.category key), hon,
      nextId_mem_children_grow h hkind _, kind?_grow_nextId h hkind _, shows_grow h hkind ?_⟩
    rw [groups?_grow_category h hkind key hgs]
    refine congrArg some (Group.map_update_congr fun e he hid => ?_)
    rw [insertKey, if_neg ((hfound e he hid).mp hfind)]

/-- The first occurrence of a category is removed from the entry of the `or`, if the entry has
it. -/
theorem on_removeCategory (g : NodeId) (key : String) :
    (t.kind? g ≠ some .or ∧
      (removeCategory g key).on t = (.error (t.kindError .removeCategory g), t)) ∨
    (t.kind? g = some .or ∧
      ∃ b t', (removeCategory g key).on t = (.ok b, t') ∧
        (∀ e ∈ gs, e.id = g → (b = true ↔ key ∈ e.categories)) ∧
        Shows t t' (gs.map (Group.update g (·.erase key)))) := by
  have hfound := findCategory?_eq_none_iff_of_id hroot hgs (g := g) key
  obtain hno | ⟨hkind, hfind, hon⟩ | ⟨hkind, leaf, hfind, hon⟩ := removeCategory_cases t g key
  · exact Or.inl hno
  · refine Or.inr ⟨hkind, false, t, hon, fun e he hid => ?_, ?_⟩
    · simpa [hfind] using hfound e he hid
    · rw [Group.map_update_eq_self fun e he hid => ?_]
      · exact Shows.refl h hgs
      · exact List.erase_of_not_mem ((hfound e he hid).mp hfind)
  · obtain ⟨hmem, -⟩ := mem_of_findCategory? hfind
    refine Or.inr ⟨hkind, true, t.prune g leaf, hon, fun e he hid => ?_,
      shows_prune h hmem (groups?_prune_category h hkind hfind hgs)⟩
    rw [hfind] at hfound
    simpa using hfound e he hid

/-- The entry of the `or` is removed, if there is one. -/
theorem on_removeGroup (g : NodeId) :
    (t.kind? g ≠ some .or ∧
      (removeGroup g).on t = (.error (t.kindError .removeGroup g), t)) ∨
    (t.kind? g = some .or ∧
      ∃ b t', (removeGroup g).on t = (.ok b, t') ∧ (g ∈ gs.map Group.id → b = true) ∧
        Shows t t' (gs.filter fun e => e.id ≠ g)) := by
  obtain hno | ⟨hkind, hnone, hon⟩ | ⟨hkind, p, c, htop, hon⟩ := removeGroup_cases h g
  · exact Or.inl hno
  · have hout : g ∉ gs.map Group.id := fun hmem => by
      obtain ⟨c, htop⟩ := exists_isTop_of_mem_ids hroot hgs hmem
      exact hnone r c htop
    refine Or.inr ⟨hkind, false, t, hon, fun hmem => absurd hmem hout, ?_⟩
    rw [Group.filter_id_ne_eq_self hout]
    exact Shows.refl h hgs
  · exact Or.inr ⟨hkind, true, t.prune p c, hon, fun _ => rfl,
      shows_prune h htop.mem (groups?_prune_group htop hkind h hroot hgs)⟩

end Groups

end Edit

end Targeting
