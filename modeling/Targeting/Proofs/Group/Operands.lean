import Targeting.Proofs.Group.View
import Targeting.Proofs.Tree.Growth
import Targeting.Proofs.Tree.Removal

/-!
# What operators see of their children

An operator sees a category by its key and any other child by its identifier. Seen in this way, one
more category below a node is one more operand of this node, and the operands of all other nodes are
the same. A category that is removed is the same step backwards.

## Main definitions

* `Operand` — a child as the operator above it sees it
* `Tree.operands` — the children of a node in this view
* `Tree.application?` — the operator at a node with its operands
* `Tree.GainsCategory` — one more category below a node

## Main results

* `Tree.groupCategories_eq_operands`, `Tree.categories?_eq_some_iff_operands`,
  `Tree.findCategory?_eq_none_iff_operands` — what is read off the operands of a group
* `Tree.operands_grow`, `Tree.operands_prune` — the operands of a group that gains or loses a
  category
* `Tree.GainsCategory.application?_of_ne` — all other applications stay the same
-/

namespace Targeting

/-- What an operator sees of a child: a category by its key, any other node by its identifier. -/
inductive Operand where
  | category (key : String)
  | node (id : NodeId)
  deriving DecidableEq

/-- The key of a category. -/
def Operand.key? : Operand → Option String
  | .category key => some key
  | .node _ => none

namespace Tree

variable {t t' : Tree} {x y g leaf : NodeId} {key : String} {op : Operator} {l : List Operand}

/-! ### Operands -/

/-- A node as an operator above it sees it. -/
def operand (t : Tree) (id : NodeId) : Operand :=
  match t.categoryKey? id with
  | some key => .category key
  | none => .node id

/-- The children of a node as the node sees them. -/
def operands (t : Tree) (id : NodeId) : List Operand := (t.children id).map t.operand

/-- The operator at a node, with its operands. -/
def application? (t : Tree) (id : NodeId) : Option (Operator × List Operand) :=
  match t.kind? id with
  | some (.operator op) => some (op, t.operands id)
  | _ => none

theorem operand_eq_category_iff :
    t.operand x = .category key ↔ t.kind? x = some (.category key) := by
  rw [← categoryKey?_eq_some_iff, operand]
  cases t.categoryKey? x <;> simp

theorem operand_of_operator (h : t.kind? x = some (.operator op)) : t.operand x = .node x := by
  rw [operand, categoryKey?, h]
  rfl

theorem eq_of_operand_eq_node (h : t.operand x = .node y) : x = y := by
  unfold operand at h
  split at h
  · cases h
  · exact Operand.node.inj h

theorem key?_operand (t : Tree) (x : NodeId) : (t.operand x).key? = t.categoryKey? x := by
  unfold operand
  cases t.categoryKey? x <;> rfl

theorem application?_eq_some_iff :
    t.application? x = some (op, l) ↔ t.kind? x = some (.operator op) ∧ t.operands x = l := by
  unfold application?
  split
  · next heq => simp [heq]
  · next hno => exact iff_of_false nofun fun h => hno op h.1

/-! ### What is read off the operands -/

theorem groupCategories_eq_operands (t : Tree) (g : NodeId) :
    t.groupCategories g = (t.operands g).filterMap Operand.key? := by
  rw [groupCategories, operands, List.filterMap_map]
  exact congrArg (List.filterMap · _) (funext fun x => (t.key?_operand x).symm)

/-- A category that was found is a child of the group with the right key. -/
theorem mem_of_findCategory? (hfind : t.findCategory? g key = some leaf) :
    leaf ∈ t.children g ∧ t.kind? leaf = some (.category key) :=
  ⟨List.mem_of_find?_eq_some hfind, by simpa using List.find?_some hfind⟩

/-- A category that is found is an operand. -/
theorem mem_operands_of_findCategory? (hfind : t.findCategory? g key = some leaf) :
    .category key ∈ t.operands g := by
  obtain ⟨hmem, hleaf⟩ := mem_of_findCategory? hfind
  exact List.mem_map.mpr ⟨leaf, hmem, operand_eq_category_iff.mpr hleaf⟩

theorem findCategory?_eq_none_iff_operands :
    t.findCategory? g key = none ↔ .category key ∉ t.operands g := by
  constructor
  · intro hfind hkey
    obtain ⟨leaf, hmem, hleaf⟩ := List.mem_map.mp hkey
    rw [findCategory?, List.find?_eq_none] at hfind
    exact hfind leaf hmem (decide_eq_true (operand_eq_category_iff.mp hleaf))
  · intro hkey
    cases hfind : t.findCategory? g key with
    | none => rfl
    | some leaf => exact absurd (mem_operands_of_findCategory? hfind) hkey

/-- The keys of a group of categories are its operands. -/
theorem categories?_eq_some_iff_operands {keys : List String} :
    t.categories? g = some keys ↔ t.kind? g = some .or ∧ t.operands g = keys.map .category := by
  have hkey : ∀ x k, t.categoryKey? x = some k ↔ t.operand x = .category k :=
    fun x k => categoryKey?_eq_some_iff.trans operand_eq_category_iff.symm
  rw [categories?_eq_some_iff, operands]
  simp only [← List.forall₂_eq_eq_eq, List.forall₂_map_left_iff, List.forall₂_map_right_iff, hkey]

/-! ### One more category

Adding a category gains it, and removing one is the same step backwards. -/

/-- A category reaches nothing but itself. -/
theorem not_reaches_of_category (h : t.IsForest)
    (hleaf : t.kind? leaf = some (.category key)) (hne : x ≠ leaf) : ¬ t.Reaches leaf x :=
  fun hreach => hne (hreach.eq_of_childless (h.childless hleaf))

/-- The second tree is the first with one more category below the given node: whatever else is live
keeps its kind, and its children unless it is the given node. -/
structure GainsCategory (t t' : Tree) (g leaf : NodeId) (key : String) : Prop where
  isForest : t.IsForest
  isForest' : t'.IsForest
  root : t'.root = t.root
  not_isLive : ¬ t.IsLive leaf
  kind : ∀ x, t'.kind? x = if x = leaf then some (.category key) else t.kind? x
  children : ∀ {x}, x ≠ leaf → x ≠ g → t'.children x = t.children x

theorem gainsCategory_grow (h : t.IsForest) (hg : t.kind? g = some .or) (key : String) :
    GainsCategory t (t.grow g (.category key)) g t.nextId key where
  isForest := h
  isForest' := h.grow hg _
  root := rfl
  not_isLive := h.not_isLive_nextId
  kind x := kind?_grow h hg _ x
  children _ hx := by rw [children_grow h hg, if_neg hx]

theorem gainsCategory_prune (h : t.IsForest) (hfind : t.findCategory? g key = some leaf) :
    GainsCategory (t.prune g leaf) t g leaf key := by
  obtain ⟨hmem, hleaf⟩ := mem_of_findCategory? hfind
  have hbelow : ∀ {x}, x ≠ leaf → ¬ t.Reaches leaf x := not_reaches_of_category h hleaf
  exact
    { isForest := h.prune hmem
      isForest' := h
      root := rfl
      not_isLive := fun hlive => ((isLive_prune h hmem).mp hlive).2 (Reaches.refl leaf)
      kind := fun x => by
        split
        · next hx => rw [hx, hleaf]
        · next hx => rw [kind?_prune h hmem (hbelow hx)]
      children := fun hx hxg => by rw [children_prune h hmem (hbelow hx), if_neg hxg] }

namespace GainsCategory

variable (hgain : GainsCategory t t' g leaf key)
include hgain

theorem ne_leaf (hx : t.IsLive x) : x ≠ leaf := by
  rintro rfl
  exact hgain.not_isLive hx

theorem kind?_of_isLive (hx : t.IsLive x) : t'.kind? x = t.kind? x := by
  rw [hgain.kind, if_neg (hgain.ne_leaf hx)]

/-- Whatever was there looks the same from above. -/
theorem operand_eq (hx : t.IsLive x) : t'.operand x = t.operand x := by
  rw [operand, operand, categoryKey?, categoryKey?, hgain.kind?_of_isLive hx]

theorem map_operand (x : NodeId) : (t.children x).map t'.operand = t.operands x :=
  List.map_congr_left fun _ hc =>
    hgain.operand_eq (isLive_of_parent? (hgain.isForest.parent?_of_mem hc))

theorem map_root : t'.root.map t'.operand = t.root.map t.operand := by
  rw [hgain.root]
  refine Option.map_congr fun r hr => ?_
  exact hgain.operand_eq (hgain.isForest.root_isLoose hr).isLive

theorem application?_of_ne (hx : x ≠ g) : t'.application? x = t.application? x := by
  unfold application?
  by_cases hleaf : x = leaf
  · subst hleaf
    have hdead : t.kind? x = none :=
      Option.eq_none_iff_forall_ne_some.mpr fun _ hkind => hgain.not_isLive (isLive_of_kind? hkind)
    rw [hgain.kind, if_pos rfl, hdead]
  · rw [hgain.kind, if_neg hleaf, operands, hgain.children hleaf hx, hgain.map_operand]

theorem size_eq : t'.size = t.size + 1 := by
  refine (Arena.size_add_length (List.nodup_singleton leaf) (fun id hid => ?_) fun id => ?_).symm
  · rw [List.mem_singleton.mp hid]
    exact isLive_of_kind? ((hgain.kind leaf).trans (if_pos rfl))
  · rw [List.mem_singleton]
    change t.IsLive id ↔ t'.IsLive id ∧ id ≠ leaf
    by_cases hid : id = leaf
    · subst hid
      exact iff_of_false hgain.not_isLive fun h => h.2 rfl
    · rw [isLive_iff_kind?, isLive_iff_kind?, hgain.kind, if_neg hid]
      exact (and_iff_left hid).symm

end GainsCategory

/-! ### The operands of the group -/

/-- Taking the first node with an image out of a list takes the first such image out of the list of
images. -/
theorem map_erase_of_find? {β : Type} [BEq β] [LawfulBEq β] {f : NodeId → β} {b : β}
    {found : NodeId → Bool} (hfound : ∀ x, found x = true ↔ f x = b) {xs : List NodeId}
    (hfind : xs.find? found = some leaf) : (xs.erase leaf).map f = (xs.map f).erase b := by
  have hleaf : f leaf = b := (hfound leaf).mp (List.find?_some hfind)
  induction xs with
  | nil => cases hfind
  | cons x xs ih =>
    rw [List.map_cons]
    by_cases hx : f x = b
    · rw [List.find?_cons_of_pos ((hfound x).mpr hx)] at hfind
      cases hfind
      rw [hx, List.erase_cons_head, List.erase_cons_head]
    · have hne : x ≠ leaf := by
        rintro rfl
        exact hx hleaf
      rw [List.find?_cons_of_neg (mt (hfound x).mp hx)] at hfind
      rw [List.erase_cons_tail (by simpa using hne), List.erase_cons_tail (by simpa using hx),
        List.map_cons, ih hfind]

/-- A new category comes behind the other operands. -/
theorem operands_grow (h : t.IsForest) (hg : t.kind? g = some .or) (key : String) :
    (t.grow g (.category key)).operands g = t.operands g ++ [.category key] := by
  have hgain := gainsCategory_grow h hg key
  rw [operands, children_grow h hg, if_pos rfl, List.map_append, hgain.map_operand,
    List.map_singleton, operand_eq_category_iff.mpr (kind?_grow_nextId h hg _)]

/-- The category that is found is the first operand with its key. -/
theorem operands_prune (h : t.IsForest) (hfind : t.findCategory? g key = some leaf) :
    (t.prune g leaf).operands g = (t.operands g).erase (.category key) := by
  obtain ⟨hmem, hleaf⟩ := mem_of_findCategory? hfind
  have hgl : g ≠ leaf := (h.ne_of_mem_children hmem).symm
  have hfound : ∀ x, decide (t.kind? x = some (.category key)) = true
      ↔ t.operand x = .category key :=
    fun x => decide_eq_true_iff.trans operand_eq_category_iff.symm
  rw [← (gainsCategory_prune h hfind).map_operand,
    children_prune h hmem (not_reaches_of_category h hleaf hgl), if_pos rfl,
    map_erase_of_find? hfound hfind, operands]

end Tree

end Targeting
