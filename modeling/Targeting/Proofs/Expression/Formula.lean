import Targeting.Expression.Writer
import Targeting.Proofs.Tree.Walk

/-!
# Expressions as recursive values

A node of a tree stands for a formula: a category, or an operator with what its children stand for.
Formulas have no identifiers and no names, so nodes of different trees can stand for the same one,
and what is written to storage is the formula alone.

## Main definitions

* `Formula` — a category, or an operator with operands
* `Formula.toJson`, `Formula.keys` — its serialized form, and the keys in it
* `Tree.Denotes` — a node stands for a formula

## Main results

* `Tree.IsGrounded.exists_denotes` — every live node of a forest stands for a formula
* `Tree.Denotes.congr` — only what is reached from a node plays a part
* `Tree.Denotes.jsonFrom_eq`, `Tree.Denotes.mem_keys_iff`, `Tree.Denotes.categoryKeys_eq` — what is
  read off the tree
-/

namespace Targeting

/-- An expression as a recursive value. -/
inductive Formula where
  | category (key : String)
  | operator (op : Operator) (operands : List Formula)

namespace Formula

mutual

/-- The serialized form of a formula. -/
def toJson : Formula → Json
  | .category key => .object [("category", .string key)]
  | .operator op operands => .object [(op.tag, .array (toJsonAll operands))]

/-- The serialized forms of several formulas. -/
def toJsonAll : List Formula → List Json
  | [] => []
  | f :: fs => f.toJson :: toJsonAll fs

end

mutual

/-- The keys of the categories in a formula, from left to right. -/
def keys : Formula → List String
  | .category key => [key]
  | .operator _ operands => keysAll operands

/-- The keys of the categories in several formulas. -/
def keysAll : List Formula → List String
  | [] => []
  | f :: fs => f.keys ++ keysAll fs

end

/-- A formula is never written as `null`. -/
theorem isNull_toJson (f : Formula) : f.toJson.isNull = false := by
  cases f <;> rfl

theorem toJson_ne_null (f : Formula) : f.toJson ≠ .null := by
  intro hnull
  have hwritten := f.isNull_toJson
  rw [hnull] at hwritten
  cases hwritten

end Formula

namespace Tree

variable {t t' : Tree} {id c x : NodeId} {ids : List NodeId} {key : String} {op : Operator}
  {f f' : Formula} {fs fs' : List Formula}

mutual

/-- A node stands for a formula. -/
def Denotes (t : Tree) (id : NodeId) : Formula → Prop
  | .category key => t.kind? id = some (.category key)
  | .operator op operands =>
    t.kind? id = some (.operator op) ∧ DenotesAll t (t.children id) operands

/-- Nodes stand for formulas one by one. -/
def DenotesAll (t : Tree) : List NodeId → List Formula → Prop
  | [], [] => True
  | id :: ids, f :: fs => Denotes t id f ∧ DenotesAll t ids fs
  | _, _ => False

end

@[simp] theorem denotes_category :
    t.Denotes id (.category key) ↔ t.kind? id = some (.category key) := by
  rw [Denotes]

@[simp] theorem denotes_operator :
    t.Denotes id (.operator op fs) ↔
      t.kind? id = some (.operator op) ∧ t.DenotesAll (t.children id) fs := by
  rw [Denotes]

@[simp] theorem denotesAll_nil : t.DenotesAll [] fs ↔ fs = [] := by
  cases fs <;> simp [DenotesAll]

@[simp] theorem denotesAll_cons :
    t.DenotesAll (id :: ids) fs ↔
      ∃ f fs', fs = f :: fs' ∧ t.Denotes id f ∧ t.DenotesAll ids fs' := by
  cases fs <;> simp [DenotesAll]

theorem Denotes.isLive (h : t.Denotes id f) : t.IsLive id := by
  cases f with
  | category key => exact isLive_of_kind? (denotes_category.mp h)
  | operator op fs => exact isLive_of_kind? (denotes_operator.mp h).1

/-- Formulas are found for a list of nodes if they are found for each of them. -/
theorem exists_denotesAll (h : ∀ x ∈ ids, ∃ f, t.Denotes x f) : ∃ fs, t.DenotesAll ids fs := by
  induction ids with
  | nil => exact ⟨[], denotesAll_nil.mpr rfl⟩
  | cons id ids ih =>
    obtain ⟨f, hf⟩ := h id List.mem_cons_self
    obtain ⟨fs, hfs⟩ := ih fun x hx => h x (List.mem_cons_of_mem id hx)
    exact ⟨f :: fs, denotesAll_cons.mpr ⟨f, fs, rfl, hf, hfs⟩⟩

/-- Every live node of a forest stands for a formula. -/
theorem IsGrounded.exists_denotes (h : t.IsGrounded) (hlive : t.IsLive id) :
    ∃ f, t.Denotes id f := by
  induction id using h.induction with
  | missing id hdead => exact absurd hlive hdead
  | node id n hn ih =>
    have hkind := kind?_eq hn
    cases hk : n.kind with
    | category key => exact ⟨.category key, denotes_category.mpr (hkind.trans (congrArg some hk))⟩
    | operator op =>
      rw [hk] at hkind
      -- children are live, since they know their parent
      obtain ⟨fs, hfs⟩ : ∃ fs, t.DenotesAll (t.children id) fs := exists_denotesAll fun c hc =>
        ih c (children_eq hn ▸ hc) (isLive_of_parent? (h.parent?_of_mem hc))
      exact ⟨.operator op fs, denotes_operator.mpr ⟨hkind, hfs⟩⟩

mutual

/-- A node stands for at most one formula. -/
theorem Denotes.unique : ∀ {f f' : Formula} {id : NodeId},
    t.Denotes id f → t.Denotes id f' → f = f'
  | .category key, f', id, h, h' => by
    rw [denotes_category] at h
    cases f' with
    | category key' =>
      rw [denotes_category, h] at h'
      cases h'
      rfl
    | operator op fs =>
      rw [denotes_operator, h] at h'
      cases h'.1
  | .operator op fs, f', id, h, h' => by
    rw [denotes_operator] at h
    cases f' with
    | category key' =>
      rw [denotes_category, h.1] at h'
      cases h'
    | operator op' fs' =>
      rw [denotes_operator, h.1] at h'
      cases h'.1
      rw [DenotesAll.unique h.2 h'.2]

/-- Nodes stand for at most one list of formulas. -/
theorem DenotesAll.unique : ∀ {fs fs' : List Formula} {ids : List NodeId},
    t.DenotesAll ids fs → t.DenotesAll ids fs' → fs = fs'
  | [], fs', ids, h, h' => by
    cases ids with
    | nil => exact (denotesAll_nil.mp h').symm
    | cons id ids => simp at h
  | f :: fs, fs', ids, h, h' => by
    cases ids with
    | nil => simp at h
    | cons id ids =>
      obtain ⟨g, gs, heq, hg, hgs⟩ := denotesAll_cons.mp h
      cases heq
      obtain ⟨f', fs'', rfl, hf', hfs'⟩ := denotesAll_cons.mp h'
      rw [Denotes.unique hg hf', DenotesAll.unique hgs hfs']

end

mutual

/-- What a node stands for depends only on what it reaches. -/
theorem Denotes.congr : ∀ {f : Formula} {id : NodeId}, t.Denotes id f →
    (∀ x, t.Reaches id x → t'.kind? x = t.kind? x ∧ t'.children x = t.children x) →
    t'.Denotes id f
  | .category key, id, h, hsame => by
    rw [denotes_category] at h ⊢
    rw [(hsame id (Reaches.refl id)).1, h]
  | .operator op fs, id, h, hsame => by
    rw [denotes_operator] at h ⊢
    obtain ⟨hkind, hchildren⟩ := hsame id (Reaches.refl id)
    rw [hkind, hchildren]
    exact ⟨h.1, DenotesAll.congr h.2 fun c hc x hx => hsame x (Reaches.head hc hx)⟩

/-- What nodes stand for depends only on what they reach. -/
theorem DenotesAll.congr : ∀ {fs : List Formula} {ids : List NodeId}, t.DenotesAll ids fs →
    (∀ c ∈ ids, ∀ x, t.Reaches c x → t'.kind? x = t.kind? x ∧ t'.children x = t.children x) →
    t'.DenotesAll ids fs
  | [], [], _, _ => denotesAll_nil.mpr rfl
  | [], _ :: _, h, _ => by simp at h
  | _ :: _, [], h, _ => by simp at h
  | f :: fs, id :: ids, h, hsame => by
    obtain ⟨g, gs, heq, hg, hgs⟩ := denotesAll_cons.mp h
    cases heq
    exact denotesAll_cons.mpr ⟨f, fs, rfl, Denotes.congr hg (hsame id List.mem_cons_self),
      DenotesAll.congr hgs fun c hc => hsame c (List.mem_cons_of_mem id hc)⟩

end

/-! ### What is read off a tree -/

mutual

/-- The serialized form of a branch is that of the formula. -/
theorem Denotes.jsonFrom_eq (h : t.IsGrounded) : ∀ {f : Formula} {id : NodeId}, t.Denotes id f →
    t.jsonFrom id = f.toJson
  | .category key, id, hf => by
    obtain ⟨n, hn, hkind⟩ := kind?_eq_some_iff.mp (denotes_category.mp hf)
    rw [jsonFrom, h.branch_eq hn, Branch.toJson, hkind, Formula.toJson]
  | .operator op fs, id, hf => by
    obtain ⟨hop, hfs⟩ := denotes_operator.mp hf
    obtain ⟨n, hn, hkind⟩ := kind?_eq_some_iff.mp hop
    rw [children_eq hn] at hfs
    rw [jsonFrom, h.branch_eq hn, Branch.toJson, hkind, Formula.toJson,
      ← DenotesAll.toJsonAll_eq h hfs]

/-- The serialized forms of branches are those of the formulas. -/
theorem DenotesAll.toJsonAll_eq (h : t.IsGrounded) : ∀ {fs : List Formula} {ids : List NodeId},
    t.DenotesAll ids fs → Branch.toJsonAll (ids.map t.branch) = Formula.toJsonAll fs
  | [], [], _ => rfl
  | [], _ :: _, hfs => by simp at hfs
  | _ :: _, [], hfs => by simp at hfs
  | f :: fs, id :: ids, hfs => by
    obtain ⟨g, gs, heq, hg, hgs⟩ := denotesAll_cons.mp hfs
    cases heq
    rw [List.map_cons, Branch.toJsonAll, Formula.toJsonAll, DenotesAll.toJsonAll_eq h hgs,
      ← Denotes.jsonFrom_eq h hg, jsonFrom]

end

mutual

/-- The keys met on the way through a branch are those of the formula. -/
theorem Denotes.preorder_keys (h : t.IsForest) : ∀ {f : Formula} {id : NodeId}, t.Denotes id f →
    (t.branch id).preorder.filterMap (fun entry => entry.2.kind.categoryKey?) = f.keys
  | .category key, id, hf => by
    have hleaf := denotes_category.mp hf
    obtain ⟨n, hn, hkind⟩ := kind?_eq_some_iff.mp hleaf
    have hchildless := h.childless hleaf
    rw [children_eq hn] at hchildless
    rw [h.branch_eq hn, hchildless, Branch.preorder, List.filterMap_cons_some, Formula.keys]
    · rfl
    · rw [hkind]
      rfl
  | .operator op fs, id, hf => by
    obtain ⟨hop, hfs⟩ := denotes_operator.mp hf
    obtain ⟨n, hn, hkind⟩ := kind?_eq_some_iff.mp hop
    rw [children_eq hn] at hfs
    rw [h.branch_eq hn, Branch.preorder, List.filterMap_cons_none,
      DenotesAll.preorderAll_keys h hfs, Formula.keys]
    rw [hkind]
    rfl

/-- The keys met on the way through branches are those of the formulas. -/
theorem DenotesAll.preorderAll_keys (h : t.IsForest) : ∀ {fs : List Formula} {ids : List NodeId},
    t.DenotesAll ids fs →
    (Branch.preorderAll (ids.map t.branch)).filterMap (fun entry => entry.2.kind.categoryKey?)
      = Formula.keysAll fs
  | [], [], _ => rfl
  | [], _ :: _, hfs => by simp at hfs
  | _ :: _, [], hfs => by simp at hfs
  | f :: fs, id :: ids, hfs => by
    obtain ⟨g, gs, heq, hg, hgs⟩ := denotesAll_cons.mp hfs
    cases heq
    rw [List.map_cons, Branch.preorderAll, List.filterMap_append, Denotes.preorder_keys h hg,
      DenotesAll.preorderAll_keys h hgs, Formula.keysAll]

end

/-- The keys of a formula are those of the categories reached from its node. -/
theorem Denotes.mem_keys_iff (h : t.IsForest) (hf : t.Denotes id f) :
    key ∈ f.keys ↔ ∃ x, t.Reaches id x ∧ t.kind? x = some (.category key) := by
  rw [← hf.preorder_keys h, List.mem_filterMap]
  constructor
  · rintro ⟨⟨x, m⟩, hmem, hkey⟩
    obtain ⟨hreach, hm⟩ := h.mem_preorder_branch.mp hmem
    cases hkind : m.kind with
    | operator op => simp [hkind, NodeKind.categoryKey?] at hkey
    | category key' =>
      simp only [hkind, NodeKind.categoryKey?, Option.some.injEq] at hkey
      exact ⟨x, hreach, by rw [kind?_eq hm, hkind, hkey]⟩
  · rintro ⟨x, hreach, hkind⟩
    obtain ⟨m, hm, hcategory⟩ := kind?_eq_some_iff.mp hkind
    exact ⟨(x, m), h.mem_preorder_branch.mpr ⟨hreach, hm⟩, by rw [hcategory]; rfl⟩

/-- The serialized form of a tree is that of the formula at its root. -/
theorem Denotes.toJson_eq (h : t.IsGrounded) (hroot : t.root = some id) (hf : t.Denotes id f) :
    t.toJson = f.toJson := by
  rw [toJson, hroot, Option.map_some, Option.getD_some, hf.jsonFrom_eq h]

/-- The category keys of a tree are those of the formula at its root. -/
theorem Denotes.categoryKeys_eq (h : t.IsForest) (hroot : t.root = some id)
    (hf : t.Denotes id f) : t.categoryKeys = f.keys := by
  rw [categoryKeys, preorder, hroot, Option.map_some, Option.getD_some, h.preorderFrom_eq]
  exact hf.preorder_keys h

end Tree

end Targeting
