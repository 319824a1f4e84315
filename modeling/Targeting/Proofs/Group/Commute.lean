import Targeting.Proofs.Expression.Equality
import Targeting.Proofs.Group.Outcome

/-!
# Edits of different groups commute

Adding and removing categories in one order or the other fills and vacates the slots of the arena
differently, so the new categories get different identifiers. Structural equality does not see
these: a tree is determined, up to the identifiers of its categories, by its root and by what each
of its operators is applied to. An edit of the categories of one group changes what this group is
applied to, and nothing else of that kind. So two edits of different groups commute, also when one
group lies inside the other.

## Main definitions

* `Tree.Alters` — a change of the operands of one node
* `CategoryEdit` — adding or removing a category

## Main results

* `Tree.structurallyEqual_of_application?_eq` — trees with the same applications are structurally
  equal
* `CategoryEdit.on_call` — what an edit of categories does to the operands of its group
* `Tree.Alters.commute` — changes at different nodes commute
* `Tree.categoryEdits_commute` — what this means in every tree that calls reach
-/

namespace Targeting

namespace Tree

variable {t t' t₁ t₂ t₁₂ t₂₁ : Tree} {x y g g₁ g₂ leaf : NodeId} {key : String} {op : Operator}
  {l l₁ l₂ : List Operand} {f f₁ f₂ : List Operand → List Operand}

/-! ### Applications of operators -/

mutual

/-- A node stands for the same formula as one that looks the same from above, if the applications
are the same. -/
theorem Denotes.of_application?_eq (hsame : t'.application? = t.application?) :
    ∀ {f : Formula} {x y : NodeId}, t'.operand y = t.operand x → t.Denotes x f → t'.Denotes y f
  | .category key, x, y, hxy, hf => by
    rw [denotes_category] at hf ⊢
    rw [← operand_eq_category_iff, hxy, operand_eq_category_iff, hf]
  | .operator op fs, x, y, hxy, hf => by
    obtain ⟨hkind, hfs⟩ := denotes_operator.mp hf
    obtain rfl := eq_of_operand_eq_node (hxy.trans (operand_of_operator hkind))
    obtain ⟨hkind', hoperands⟩ := application?_eq_some_iff.mp
      ((congrFun hsame y).trans (application?_eq_some_iff.mpr ⟨hkind, rfl⟩))
    exact denotes_operator.mpr ⟨hkind', DenotesAll.of_application?_eq hsame hoperands hfs⟩

/-- Nodes that look the same from above stand for the same formulas. -/
theorem DenotesAll.of_application?_eq (hsame : t'.application? = t.application?) :
    ∀ {fs : List Formula} {xs ys : List NodeId}, ys.map t'.operand = xs.map t.operand →
      t.DenotesAll xs fs → t'.DenotesAll ys fs
  | [], [], [], _, _ => denotesAll_nil.mpr rfl
  | f :: fs, x :: xs, y :: ys, hxy, hfs => by
    obtain ⟨hhead, htail⟩ := List.cons.inj hxy
    obtain ⟨f', fs', heq, hf, hfs⟩ := denotesAll_cons.mp hfs
    cases heq
    exact denotesAll_cons.mpr ⟨f, fs, rfl, Denotes.of_application?_eq hsame hhead hf,
      DenotesAll.of_application?_eq hsame htail hfs⟩
  -- in all other cases nodes and formulas are not equally many
  | _, [], _ :: _, hxy, _ => by cases hxy
  | _, _ :: _, [], hxy, _ => by cases hxy
  | [], _ :: _, _, _, hfs => by simp at hfs
  | _ :: _, [], _, _, hfs => by simp at hfs

end

/-- Trees with the same applications whose roots look the same are structurally equal. -/
theorem structurallyEqual_of_application?_eq (h : t.IsForest) (h' : t'.IsForest)
    (hsame : t'.application? = t.application?)
    (hroot : t'.root.map t'.operand = t.root.map t.operand) : t.structurallyEqual t' = true := by
  cases hr : t.root with
  | none =>
    rw [hr, Option.map_none, Option.map_eq_none_iff] at hroot
    simp [structurallyEqual, hr, hroot]
  | some r =>
    rw [hr, Option.map_some, Option.map_eq_some_iff] at hroot
    obtain ⟨r', hr', hoperand⟩ := hroot
    obtain ⟨f, hf⟩ := h.exists_denotes (h.root_isLoose hr).isLive
    exact (structurallyEqual_iff h h' hr hr' hf (hf.of_application?_eq hsame hoperand)).mpr rfl

/-! ### Changes of one application -/

/-- In the second tree the operands of one node are what a function makes of those in the first; all
other applications are the same, and the root looks the same. No nodes come or go but operands of
this node. -/
structure Alters (t t' : Tree) (g : NodeId) (f : List Operand → List Operand) : Prop where
  isForest : t'.IsForest
  root : t'.root.map t'.operand = t.root.map t.operand
  application? : ∀ x, t'.application? x =
    if x = g then (t.application? x).map (Prod.map id f) else t.application? x
  size : ∀ {op l}, t.application? g = some (op, l) → t'.size + l.length = t.size + (f l).length

theorem Alters.application?_self (h : t.Alters t' g f) (hg : t.application? g = some (op, l)) :
    t'.application? g = some (op, f l) := by
  rw [h.application?, if_pos rfl, hg]
  rfl

theorem Alters.application?_of_ne (h : t.Alters t' g f) (hne : x ≠ g) :
    t'.application? x = t.application? x := by
  rw [h.application?, if_neg hne]

theorem Alters.groupCategories_of_ne (h : t.Alters t' g f) (hne : x ≠ g)
    (hx : t.application? x = some (op, l)) : t'.groupCategories x = t.groupCategories x := by
  have hx' := (h.application?_of_ne hne).trans hx
  rw [groupCategories_eq_operands, groupCategories_eq_operands, (application?_eq_some_iff.mp hx).2,
    (application?_eq_some_iff.mp hx').2]

/-- Changes of the operands of different nodes commute. -/
theorem Alters.commute {op₁ op₂ : Operator} (hne : g₁ ≠ g₂)
    (hg₁ : t.application? g₁ = some (op₁, l₁)) (hg₂ : t.application? g₂ = some (op₂, l₂))
    (h₁ : t.Alters t₁ g₁ f₁) (h₁₂ : t₁.Alters t₁₂ g₂ f₂)
    (h₂ : t.Alters t₂ g₂ f₂) (h₂₁ : t₂.Alters t₂₁ g₁ f₁) :
    t₁₂.structurallyEqual t₂₁ = true ∧ t₁₂.size = t₂₁.size := by
  constructor
  · refine structurallyEqual_of_application?_eq h₁₂.isForest h₂₁.isForest (funext fun x => ?_) ?_
    · rw [h₁₂.application?, h₁.application?, h₂₁.application?, h₂.application?]
      by_cases hx : x = g₁
      · subst hx
        simp [hne]
      · simp [hx]
    · rw [h₁₂.root, h₁.root, h₂₁.root, h₂.root]
  · have hsize₁ := h₁.size hg₁
    have hsize₂ := h₂.size hg₂
    -- what is at one node is still there after the change at the other
    have hsize₁₂ := h₁₂.size ((h₁.application?_of_ne hne.symm).trans hg₂)
    have hsize₂₁ := h₂₁.size ((h₂.application?_of_ne hne).trans hg₁)
    omega

/-- The operands of one node are changed if its application is, and nothing else is. -/
theorem alters_of_application? (h' : t'.IsForest)
    (hroot : t'.root.map t'.operand = t.root.map t.operand)
    (hother : ∀ {x}, x ≠ g → t'.application? x = t.application? x)
    (hg : t.application? g = some (op, l)) (hg' : t'.application? g = some (op, f l))
    (hsize : t'.size + l.length = t.size + (f l).length) : t.Alters t' g f where
  isForest := h'
  root := hroot
  application? x := by
    split
    · next hx =>
      rw [hx, hg, hg']
      rfl
    · next hx => exact hother hx
  size hg₁ := by
    cases hg.symm.trans hg₁
    exact hsize

/-- A function that leaves the operands as they are changes nothing. -/
theorem alters_self (h : t.IsForest) (hg : t.application? g = some (op, l)) (hf : f l = l) :
    t.Alters t g f :=
  alters_of_application? h rfl (fun _ => rfl) hg (hf.symm ▸ hg) (by rw [hf])

section Category

variable (h : t.IsForest) (hg : t.kind? g = some .or)
include h hg

theorem alters_grow (hf : f (t.operands g) = t.operands g ++ [.category key]) :
    t.Alters (t.grow g (.category key)) g f := by
  have hgain := gainsCategory_grow h hg key
  have hg' := (hgain.kind?_of_isLive (isLive_of_kind? hg)).trans hg
  refine alters_of_application? hgain.isForest' hgain.map_root hgain.application?_of_ne
    (application?_eq_some_iff.mpr ⟨hg, rfl⟩)
    (application?_eq_some_iff.mpr ⟨hg', (operands_grow h hg key).trans hf.symm⟩) ?_
  rw [hf, hgain.size_eq, List.length_append, List.length_singleton]
  omega

variable (hfind : t.findCategory? g key = some leaf)
include hfind

theorem alters_prune (hf : f (t.operands g) = (t.operands g).erase (.category key)) :
    t.Alters (t.prune g leaf) g f := by
  have hgain := gainsCategory_prune h hfind
  obtain ⟨hmem, hleaf⟩ := mem_of_findCategory? hfind
  have hg' : (t.prune g leaf).kind? g = some .or := by
    rw [kind?_prune h hmem (h.not_reaches_parent hmem), hg]
  refine alters_of_application? hgain.isForest hgain.map_root.symm
    (fun hx => (hgain.application?_of_ne hx).symm) (application?_eq_some_iff.mpr ⟨hg, rfl⟩)
    (application?_eq_some_iff.mpr ⟨hg', (operands_prune h hfind).trans hf.symm⟩) ?_
  have hkey := mem_operands_of_findCategory? hfind
  have hlength := List.length_pos_of_mem hkey
  rw [hf, List.length_erase_of_mem hkey, hgain.size_eq]
  omega

end Category

end Tree

/-! ### Edits of categories -/

/-- Adding a category to a group, or removing one from it. -/
inductive CategoryEdit where
  | add (key : String)
  | remove (key : String)

namespace CategoryEdit

open Targeting.Tree

variable {t : Tree} {g : NodeId}

/-- The call that edits a group. -/
def call (g : NodeId) : CategoryEdit → Call
  | .add key => .addCategory g key
  | .remove key => .removeCategory g key

/-- What an edit makes of the operands of the group. -/
def apply : CategoryEdit → List Operand → List Operand
  | .add key, l => if .category key ∈ l then l else l ++ [.category key]
  | .remove key, l => l.erase (.category key)

/-- Whether a removal finds its category among the operands; an addition answers with a node. -/
def found? : CategoryEdit → List Operand → Option Bool
  | .add _, _ => none
  | .remove key, l => some (decide (.category key ∈ l))

/-- An edit of the categories of an `or` succeeds in every forest. It alters the operands of this
`or` alone, and what a removal answers depends on them alone. -/
theorem on_call (h : t.IsForest) (hg : t.kind? g = some .or) (e : CategoryEdit) :
    ∃ a t', (e.call g).edit.on t = (.ok a, t') ∧ t.Alters t' g e.apply ∧
      ∀ b, a = .found b ↔ e.found? (t.operands g) = some b := by
  have happ := application?_eq_some_iff.mpr ⟨hg, rfl⟩
  cases e with
  | add key =>
    obtain ⟨hno, -⟩ | ⟨-, leaf, hfind, hon⟩ | ⟨-, hfind, hon⟩ := Edit.addCategory_cases h g key
    · exact absurd hg hno
    · have hkey := mem_operands_of_findCategory? hfind
      exact ⟨.node leaf, t, Edit.on_map_ok hon _,
        alters_self h happ (if_pos hkey), by simp [found?]⟩
    · have hkey := findCategory?_eq_none_iff_operands.mp hfind
      exact ⟨.node t.nextId, _, Edit.on_map_ok hon _,
        alters_grow h hg (if_neg hkey), by simp [found?]⟩
  | remove key =>
    obtain ⟨hno, -⟩ | ⟨-, hfind, hon⟩ | ⟨-, leaf, hfind, hon⟩ := Edit.removeCategory_cases t g key
    · exact absurd hg hno
    · have hkey := findCategory?_eq_none_iff_operands.mp hfind
      exact ⟨.found false, t, Edit.on_map_ok hon _,
        alters_self h happ (List.erase_of_not_mem hkey), by simp [found?, hkey]⟩
    · have hkey := mem_operands_of_findCategory? hfind
      exact ⟨.found true, _, Edit.on_map_ok hon _,
        alters_prune h hg hfind rfl, by simp [found?, hkey]⟩

end CategoryEdit

namespace Tree

variable {t : Tree} {g₁ g₂ : NodeId}

/-- In every tree that calls reach, edits of the categories of two groups succeed in either order.
Removals answer the same in both orders, and the trees have the same size and are structurally
equal. No edit changes the categories of the other group, be it the first of the two or the
second. -/
theorem categoryEdits_commute (h : t.IsReached) (hne : g₁ ≠ g₂) (hg₁ : t.kind? g₁ = some .or)
    (hg₂ : t.kind? g₂ = some .or) (e₁ e₂ : CategoryEdit) :
    ∃ t₁ t₁₂ t₂ t₂₁ : Tree, ∃ a₁ a₂ a₁' a₂' : Answer,
      (e₁.call g₁).edit.on t = (.ok a₁, t₁) ∧ (e₂.call g₂).edit.on t₁ = (.ok a₂, t₁₂) ∧
      (e₂.call g₂).edit.on t = (.ok a₂', t₂) ∧ (e₁.call g₁).edit.on t₂ = (.ok a₁', t₂₁) ∧
      (∀ b, a₁ = .found b ↔ a₁' = .found b) ∧ (∀ b, a₂ = .found b ↔ a₂' = .found b) ∧
      t₁₂.structurallyEqual t₂₁ = true ∧ t₁₂.size = t₂₁.size ∧
      t₁.groupCategories g₂ = t.groupCategories g₂ ∧
      t₁₂.groupCategories g₁ = t₁.groupCategories g₁ ∧
      t₂.groupCategories g₁ = t.groupCategories g₁ ∧
      t₂₁.groupCategories g₂ = t₂.groupCategories g₂ := by
  have happ₁ := application?_eq_some_iff.mpr ⟨hg₁, rfl⟩
  have happ₂ := application?_eq_some_iff.mpr ⟨hg₂, rfl⟩
  obtain ⟨a₁, t₁, hon₁, h₁, ha₁⟩ := e₁.on_call h.isForest hg₁
  obtain ⟨a₂', t₂, hon₂, h₂, ha₂'⟩ := e₂.on_call h.isForest hg₂
  -- after the first edit the other group is as it was
  have happ₂' := (h₁.application?_of_ne hne.symm).trans happ₂
  have happ₁' := (h₂.application?_of_ne hne).trans happ₁
  obtain ⟨hg₂', hoperands₂⟩ := application?_eq_some_iff.mp happ₂'
  obtain ⟨hg₁', hoperands₁⟩ := application?_eq_some_iff.mp happ₁'
  obtain ⟨a₂, t₁₂, hon₁₂, h₁₂, ha₂⟩ := e₂.on_call h₁.isForest hg₂'
  obtain ⟨a₁', t₂₁, hon₂₁, h₂₁, ha₁'⟩ := e₁.on_call h₂.isForest hg₁'
  obtain ⟨hequal, hsize⟩ := h₁.commute hne happ₁ happ₂ h₁₂ h₂ h₂₁
  rw [hoperands₂] at ha₂
  rw [hoperands₁] at ha₁'
  refine ⟨t₁, t₁₂, t₂, t₂₁, a₁, a₂, a₁', a₂', hon₁, hon₁₂, hon₂, hon₂₁,
    fun b => (ha₁ b).trans (ha₁' b).symm, fun b => (ha₂ b).trans (ha₂' b).symm, hequal, hsize, ?_⟩
  exact ⟨h₁.groupCategories_of_ne hne.symm happ₂,
    h₁₂.groupCategories_of_ne hne (h₁.application?_self happ₁),
    h₂.groupCategories_of_ne hne happ₁,
    h₂₁.groupCategories_of_ne hne.symm (h₂.application?_self happ₂)⟩

/-- An `or` gets a category, and the `or` inside it loses one. The new category goes into a new slot
or into the vacated one, as the order has it. -/
theorem categoryEdits_commute_nested :
    ∃ t t₁₂ t₂₁ : Tree, t.IsReached ∧ t.root = some ⟨0, 0⟩ ∧ t.children ⟨0, 0⟩ = [⟨1, 0⟩] ∧
      t.kind? ⟨0, 0⟩ = some .or ∧ t.kind? ⟨1, 0⟩ = some .or ∧
      t.after [.addCategory ⟨0, 0⟩ "news", .removeCategory ⟨1, 0⟩ "sport"] = t₁₂ ∧
      t.after [.removeCategory ⟨1, 0⟩ "sport", .addCategory ⟨0, 0⟩ "news"] = t₂₁ ∧
      t₁₂.children ⟨0, 0⟩ = [⟨1, 0⟩, ⟨3, 0⟩] ∧ t₂₁.children ⟨0, 0⟩ = [⟨1, 0⟩, ⟨2, 1⟩] ∧
      t₁₂.structurallyEqual t₂₁ = true ∧ t₁₂.size = t₂₁.size := by
  obtain ⟨t, h, hroot, hinside, hg₁, hg₂, hnew, hrefilled⟩ : ∃ t : Tree, t.IsReached ∧
      t.root = some ⟨0, 0⟩ ∧ t.children ⟨0, 0⟩ = [⟨1, 0⟩] ∧
      t.kind? ⟨0, 0⟩ = some .or ∧ t.kind? ⟨1, 0⟩ = some .or ∧
      (t.after [.addCategory ⟨0, 0⟩ "news", .removeCategory ⟨1, 0⟩ "sport"]).children ⟨0, 0⟩
        = [⟨1, 0⟩, ⟨3, 0⟩] ∧
      (t.after [.removeCategory ⟨1, 0⟩ "sport", .addCategory ⟨0, 0⟩ "news"]).children ⟨0, 0⟩
        = [⟨1, 0⟩, ⟨2, 1⟩] :=
    ⟨after .empty [.create .or, .create .or, .appendChild ⟨0, 0⟩ ⟨1, 0⟩, .setRoot ⟨0, 0⟩,
      .addCategory ⟨1, 0⟩ "sport"], ⟨_, _, Or.inl rfl, rfl⟩, rfl, rfl, rfl, rfl,
      by decide +kernel, by decide +kernel⟩
  obtain ⟨t₁, t₁₂, t₂, t₂₁, a₁, a₂, a₁', a₂', hon₁, hon₁₂, hon₂, hon₂₁, -, -, hequal, hsize, -⟩ :=
    categoryEdits_commute h (by decide) hg₁ hg₂ (.add "news") (.remove "sport")
  have h₁₂ : t.after [.addCategory ⟨0, 0⟩ "news", .removeCategory ⟨1, 0⟩ "sport"] = t₁₂ := by
    simp only [CategoryEdit.call] at hon₁ hon₁₂
    simp [after, hon₁, hon₁₂]
  have h₂₁ : t.after [.removeCategory ⟨1, 0⟩ "sport", .addCategory ⟨0, 0⟩ "news"] = t₂₁ := by
    simp only [CategoryEdit.call] at hon₂ hon₂₁
    simp [after, hon₂, hon₂₁]
  exact ⟨t, t₁₂, t₂₁, h, hroot, hinside, hg₁, hg₂, h₁₂, h₂₁, h₁₂ ▸ hnew, h₂₁ ▸ hrefilled, hequal,
    hsize⟩

end Tree

end Targeting
