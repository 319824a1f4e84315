import Targeting.Proofs.Expression.Reading

/-!
# Equality up to identifiers

Structural equality compares two trees node by node and sees kinds, category keys and the order of
children. In forests this is a question about the formulas at the two roots: how the nodes lie in
their arenas, which identifiers were used before and what else is stored there plays no part. Since
the serialized form determines the formula, structural equality compares what trees are written as,
without writing them.

## Main results

* `Tree.Denotes.sameShape_iff` — branches of the same shape stand for the same formula
* `Tree.structurallyEqual_iff` — structurally equal trees have the same formula at their roots
* `Tree.structurallyEqual_iff_toJson_eq` — structurally equal trees are written alike
-/

namespace Targeting.Tree

variable {t t' : Tree} {x y : NodeId} {f f' : Formula}

/-- Two branches have the same shape if their nodes agree in kind and the branches of the children
do, one by one. -/
theorem sameShape_branch_iff (h : t.IsGrounded) (h' : t'.IsGrounded) {n n' : Node}
    (hn : t.node? x = some n) (hn' : t'.node? y = some n') :
    (t.branch x).sameShape (t'.branch y) = true ↔ n.kind = n'.kind ∧
      Branch.sameShapes ((t.children x).map t.branch) ((t'.children y).map t'.branch) = true := by
  rw [h.branch_eq hn, h'.branch_eq hn', Branch.sameShape, children_eq hn, children_eq hn',
    Bool.and_eq_true, beq_iff_eq]

mutual

/-- Branches have the same shape if and only if their nodes stand for the same formula. -/
theorem Denotes.sameShape_iff (h : t.IsForest) (h' : t'.IsForest) :
    ∀ {f f' : Formula} {x y : NodeId}, t.Denotes x f → t'.Denotes y f' →
      ((t.branch x).sameShape (t'.branch y) = true ↔ f = f')
  | .category key, .category key', x, y, hf, hf' => by
    rw [denotes_category] at hf hf'
    obtain ⟨n, hn, hkind⟩ := kind?_eq_some_iff.mp hf
    obtain ⟨n', hn', hkind'⟩ := kind?_eq_some_iff.mp hf'
    -- categories have no children that could tell them apart
    rw [sameShape_branch_iff h.toIsGrounded h'.toIsGrounded hn hn', hkind, hkind',
      h.childless hf, h'.childless hf']
    simp [Branch.sameShapes]
  | .category key, .operator op' fs', x, y, hf, hf' => by
    obtain ⟨n, hn, hkind⟩ := kind?_eq_some_iff.mp (denotes_category.mp hf)
    obtain ⟨n', hn', hkind'⟩ := kind?_eq_some_iff.mp (denotes_operator.mp hf').1
    rw [sameShape_branch_iff h.toIsGrounded h'.toIsGrounded hn hn', hkind, hkind']
    simp
  | .operator op fs, .category key', x, y, hf, hf' => by
    obtain ⟨n, hn, hkind⟩ := kind?_eq_some_iff.mp (denotes_operator.mp hf).1
    obtain ⟨n', hn', hkind'⟩ := kind?_eq_some_iff.mp (denotes_category.mp hf')
    rw [sameShape_branch_iff h.toIsGrounded h'.toIsGrounded hn hn', hkind, hkind']
    simp
  | .operator op fs, .operator op' fs', x, y, hf, hf' => by
    obtain ⟨hop, hfs⟩ := denotes_operator.mp hf
    obtain ⟨hop', hfs'⟩ := denotes_operator.mp hf'
    obtain ⟨n, hn, hkind⟩ := kind?_eq_some_iff.mp hop
    obtain ⟨n', hn', hkind'⟩ := kind?_eq_some_iff.mp hop'
    rw [sameShape_branch_iff h.toIsGrounded h'.toIsGrounded hn hn', hkind, hkind',
      DenotesAll.sameShapes_iff h h' hfs hfs']
    simp

/-- Branches have the same shapes one by one if and only if their nodes stand for the same
formulas. -/
theorem DenotesAll.sameShapes_iff (h : t.IsForest) (h' : t'.IsForest) :
    ∀ {fs fs' : List Formula} {xs ys : List NodeId}, t.DenotesAll xs fs → t'.DenotesAll ys fs' →
      (Branch.sameShapes (xs.map t.branch) (ys.map t'.branch) = true ↔ fs = fs')
  | [], [], [], [], _, _ => by simp [Branch.sameShapes]
  | [], _ :: _, [], _ :: _, _, _ => by simp [Branch.sameShapes]
  | _ :: _, [], _ :: _, [], _, _ => by simp [Branch.sameShapes]
  | f :: fs, f' :: fs', x :: xs, y :: ys, hfs, hfs' => by
    obtain ⟨g, gs, heq, hg, hgs⟩ := denotesAll_cons.mp hfs
    obtain ⟨g', gs', heq', hg', hgs'⟩ := denotesAll_cons.mp hfs'
    cases heq
    cases heq'
    rw [List.map_cons, List.map_cons, Branch.sameShapes, Bool.and_eq_true,
      Denotes.sameShape_iff h h' hg hg', DenotesAll.sameShapes_iff h h' hgs hgs', List.cons.injEq]
  -- in all other cases nodes and formulas are not equally many
  | [], _, _ :: _, _, hfs, _ => by simp at hfs
  | _ :: _, _, [], _, hfs, _ => by simp at hfs
  | _, [], _, _ :: _, _, hfs' => by simp at hfs'
  | _, _ :: _, _, [], _, hfs' => by simp at hfs'

end

/-- Trees are structurally equal if and only if their roots stand for the same formula. -/
theorem structurallyEqual_iff (h : t.IsForest) (h' : t'.IsForest) (hroot : t.root = some x)
    (hroot' : t'.root = some y) (hf : t.Denotes x f) (hf' : t'.Denotes y f') :
    t.structurallyEqual t' = true ↔ f = f' := by
  rw [structurallyEqual, hroot, hroot']
  exact hf.sameShape_iff h h' hf'

/-! ### Equality of what is written -/

/-- A forest without a root is written as `null`, and one with a root as the formula at its root. -/
theorem IsForest.toJson_cases (h : t.IsForest) :
    (t.root = none ∧ t.toJson = .null) ∨
    ∃ r f, t.root = some r ∧ t.Denotes r f ∧ t.toJson = f.toJson := by
  cases hroot : t.root with
  | none => exact Or.inl ⟨rfl, by rw [toJson, hroot]; rfl⟩
  | some r =>
    obtain ⟨f, hf⟩ := h.exists_denotes (h.root_isLoose hroot).isLive
    exact Or.inr ⟨r, f, rfl, hf, hf.toJson_eq h.toIsGrounded hroot⟩

/-- Forests are structurally equal if and only if they are written alike. -/
theorem IsForest.structurallyEqual_iff_toJson (h : t.IsForest) (h' : t'.IsForest) :
    t.structurallyEqual t' = true ↔ t.toJson = t'.toJson := by
  obtain ⟨hroot, hjson⟩ | ⟨r, f, hroot, hf, hjson⟩ := h.toJson_cases <;>
    obtain ⟨hroot', hjson'⟩ | ⟨r', f', hroot', hf', hjson'⟩ := h'.toJson_cases <;>
    rw [hjson, hjson']
  · simp [structurallyEqual, hroot, hroot']
  · simp [structurallyEqual, hroot, hroot', f'.toJson_ne_null.symm]
  · simp [structurallyEqual, hroot, hroot', f.toJson_ne_null]
  · rw [structurallyEqual_iff h h' hroot hroot' hf hf']
    -- the serialized form determines the formula
    exact ⟨fun heq => congrArg Formula.toJson heq, Formula.toJson_injective⟩

/-- Whatever calls two trees come from, they are structurally equal if and only if they are written
alike. So structural equality is an equivalence of the trees that calls reach. -/
theorem structurallyEqual_iff_toJson_eq :
    (∀ t t' : Tree, t.IsReached → t'.IsReached →
      (t.structurallyEqual t' = true ↔ t.toJson = t'.toJson)) ∧
    Equivalence fun t t' : {t : Tree // t.IsReached} => t.1.structurallyEqual t'.1 = true := by
  have hiff : ∀ t t' : Tree, t.IsReached → t'.IsReached →
      (t.structurallyEqual t' = true ↔ t.toJson = t'.toJson) :=
    fun t t' h h' => h.isForest.structurallyEqual_iff_toJson h'.isForest
  refine ⟨hiff, ?_⟩
  constructor
  case refl =>
    rintro ⟨t, h⟩
    exact (hiff t t h h).mpr rfl
  case symm =>
    rintro ⟨t, h⟩ ⟨t', h'⟩ hequal
    exact (hiff t' t h' h).mpr ((hiff t t' h h').mp hequal).symm
  case trans =>
    rintro ⟨t, h⟩ ⟨t', h'⟩ ⟨t'', h''⟩ hequal hequal'
    exact (hiff t t'' h h'').mpr
      (((hiff t t' h h').mp hequal).trans ((hiff t' t'' h' h'').mp hequal'))

/-- A tree with refilled slots, a name and a detached node is structurally equal to one that was
read, and no longer after a key has been added to that one. -/
theorem structurallyEqual_iff_toJson_eq_refilled :
    ∃ t t' : Tree, t.IsReached ∧ t'.IsReached ∧ t.root ≠ t'.root ∧ t.size ≠ t'.size ∧
      t.toJson = t'.toJson ∧ t.structurallyEqual t' = true ∧ t'.structurallyEqual t = true ∧
      ¬ t.structurallyEqual (t'.after [.addCategory ⟨1, 0⟩ "news"]) = true := by
  obtain ⟨t, h, hroot, hsize, hjson⟩ : ∃ t : Tree, t.IsReached ∧ t.root = some ⟨3, 0⟩ ∧
      t.size = 4 ∧ t.toJson = .object [("and", .array [.object [("or", .array
        [.object [("category", .string "sport")]])]])] :=
    ⟨after .empty [.enableTargeting, .addCategory ⟨1, 0⟩ "news", .create .and, .setRoot ⟨3, 0⟩,
      .create .or, .appendChild ⟨3, 0⟩ ⟨0, 3⟩, .addCategory ⟨0, 3⟩ "sport",
      .writeName ⟨1, 3⟩ (some "Sport"), .create .not],
      ⟨_, _, Or.inl rfl, rfl⟩, by decide +kernel, by decide +kernel, by decide +kernel⟩
  obtain ⟨t', h', hroot', hsize', hjson', hother⟩ : ∃ t' : Tree, t'.IsReached ∧
      t'.root = some ⟨0, 0⟩ ∧ t'.size = 3 ∧ t'.toJson = t.toJson ∧
      (t'.after [.addCategory ⟨1, 0⟩ "news"]).toJson ≠ t.toJson := by
    rw [hjson]
    exact ⟨_, ⟨_, [], Or.inr ⟨.object [("and", .array [.object [("or", .array
      [.object [("category", .string "sport")]])]])], rfl⟩, rfl⟩, by decide, by decide,
      by decide +kernel, by decide +kernel⟩
  obtain ⟨hiff, hequivalence⟩ := structurallyEqual_iff_toJson_eq
  have hequal := (hiff t t' h h').mpr hjson'.symm
  refine ⟨t, t', h, h', by simp [hroot, hroot'], by simp [hsize, hsize'], hjson'.symm, hequal,
    hequivalence.symm (x := ⟨t, h⟩) (y := ⟨t', h'⟩) hequal, ?_⟩
  exact mt (hiff t _ h (h'.after _)).mp hother.symm

end Targeting.Tree
