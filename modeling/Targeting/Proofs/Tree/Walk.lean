import Mathlib.Algebra.GroupWithZero.Nat
import Targeting.Proofs.Tree.Forest
import Targeting.Tree.Walk

/-!
# What the depth-first walks list

A walk with a stack lists, for each entry of the stack, what the entry stands for: the branch of an
identifier in one of the two orders, or a node alone when it is met again. So a walk from one
identifier is the recursive order of its branch, and it lists the live nodes reached from there.

## Main results

* `Tree.IsGrounded.preorderFrom_eq`, `Tree.IsGrounded.postorderFrom_eq` — walks are the recursive
  orders
* `Tree.IsGrounded.mem_preorder_branch`, `Tree.IsForest.nodup_preorder_branch` — a branch lists the
  live nodes that are reached, each once
* `Tree.IsForest.size_eq_length_preorder` — the size of a tree all of which is reached
-/

namespace Targeting

namespace Branch

theorem sizeAll_eq (bs : List Branch) : sizeAll bs = (bs.map size).sum := by
  induction bs with
  | nil => rfl
  | cons b bs ih => simp [sizeAll, ih]

theorem preorderAll_eq (bs : List Branch) : preorderAll bs = bs.flatMap preorder := by
  induction bs with
  | nil => rfl
  | cons b bs ih => simp [preorderAll, ih]

theorem postorderAll_eq (bs : List Branch) : postorderAll bs = bs.flatMap postorder := by
  induction bs with
  | nil => rfl
  | cons b bs ih => simp [postorderAll, ih]

mutual

/-- The two orders list the same nodes. -/
theorem postorder_perm : ∀ b : Branch, b.postorder.Perm b.preorder
  | .dangling _ => .refl _
  | .node id n branches => by
    rw [postorder, preorder]
    exact (List.perm_append_singleton _ _).trans ((postorderAll_perm branches).cons _)

/-- The two orders list the same nodes of several branches. -/
theorem postorderAll_perm : ∀ bs : List Branch, (postorderAll bs).Perm (preorderAll bs)
  | [] => .refl _
  | b :: bs => by
    rw [postorderAll, preorderAll]
    exact (postorder_perm b).append (postorderAll_perm bs)

end

end Branch

namespace Tree

variable {t : Tree} {id x : NodeId} {m : Node}

/-! ### Walks are orders of branches -/

/-- Every branch costs something, that of a dead identifier too. -/
theorem IsGrounded.size_branch_pos (h : t.IsGrounded) (id : NodeId) : 0 < (t.branch id).size := by
  by_cases hlive : t.IsLive id
  · obtain ⟨n, hn⟩ := hlive
    rw [h.branch_eq hn, Branch.size]
    omega
  · rw [branch_of_not_isLive hlive, Branch.size]
    omega

theorem IsGrounded.walk_eq (h : t.IsGrounded) (fuel : Nat) (stack : List NodeId)
    (hfuel : (stack.map fun id => (t.branch id).size).sum ≤ fuel) :
    t.walk fuel stack = stack.flatMap fun id => (t.branch id).preorder := by
  -- the fuel covers what is left on the stack
  induction fuel generalizing stack with
  | zero =>
    cases stack with
    | nil => rfl
    | cons id stack =>
      exfalso
      have hpos := h.size_branch_pos id
      rw [List.map_cons, List.sum_cons] at hfuel
      omega
  | succ fuel ih =>
    cases stack with
    | nil => rfl
    | cons id stack =>
      rw [walk, List.flatMap_cons]
      cases hn : t.node? id with
      | none =>
        rw [branch_of_not_isLive (not_isLive_iff.mpr hn), Branch.preorder, List.nil_append]
        refine ih stack ?_
        rw [List.map_cons, branch_of_not_isLive (not_isLive_iff.mpr hn), Branch.size,
          List.sum_cons] at hfuel
        omega
      | some n =>
        -- the children take the place of the node on the stack, for one step of fuel
        rw [h.branch_eq hn, Branch.preorder, Branch.preorderAll_eq, List.flatMap_map,
          List.cons_append, ← List.flatMap_append]
        simp only
        rw [ih]
        rw [List.map_cons, h.branch_eq hn, Branch.size, Branch.sizeAll_eq, List.sum_cons,
          List.map_map] at hfuel
        rw [List.map_append, List.sum_append]
        simp only [Function.comp_def] at hfuel
        omega

/-- What an entry of the stack of a walk with marks stands for. -/
def entryOrder (t : Tree) : NodeId × Bool → List (NodeId × Node)
  | (id, false) => (t.branch id).postorder
  | (id, true) => ((t.node? id).map (id, ·)).toList

/-- How often the stack is popped for an entry. -/
def entryCost (t : Tree) : NodeId × Bool → Nat
  | (id, false) => 2 * (t.branch id).size
  | (_, true) => 1

theorem IsGrounded.entryCost_pos (h : t.IsGrounded) (entry : NodeId × Bool) :
    0 < t.entryCost entry := by
  obtain ⟨id, _ | _⟩ := entry
  · have hpos := h.size_branch_pos id
    simp only [entryCost]
    omega
  · exact Nat.one_pos

theorem sum_entryCost (t : Tree) (ids : List NodeId) :
    ((ids.map (·, false)).map t.entryCost).sum
      = 2 * (ids.map fun id => (t.branch id).size).sum := by
  induction ids with
  | nil => rfl
  | cons id ids ih =>
    simp only [List.map_cons, List.sum_cons, ih, entryCost]
    omega

theorem IsGrounded.walkMarked_eq (h : t.IsGrounded) (fuel : Nat) (stack : List (NodeId × Bool))
    (hfuel : (stack.map t.entryCost).sum ≤ fuel) :
    t.walkMarked fuel stack = stack.flatMap t.entryOrder := by
  induction fuel generalizing stack with
  | zero =>
    cases stack with
    | nil => rfl
    | cons entry stack =>
      exfalso
      have hpos := h.entryCost_pos entry
      rw [List.map_cons, List.sum_cons] at hfuel
      omega
  | succ fuel ih =>
    cases stack with
    | nil => rfl
    | cons entry stack =>
      obtain ⟨id, seen⟩ := entry
      rw [List.flatMap_cons]
      rw [List.map_cons, List.sum_cons] at hfuel
      cases hn : t.node? id with
      | none =>
        have hcost := h.entryCost_pos (id, seen)
        have horder : t.entryOrder (id, seen) = [] := by
          cases seen <;>
            simp [entryOrder, hn, branch_of_not_isLive (not_isLive_iff.mpr hn), Branch.postorder]
        simp only [walkMarked, hn]
        rw [horder, List.nil_append]
        exact ih stack (by omega)
      | some n =>
        cases seen with
        | true =>
          simp only [entryCost] at hfuel
          simp only [walkMarked, hn, entryOrder, Option.map_some, Option.toList_some,
            List.cons_append, List.nil_append]
          rw [ih stack (by omega)]
        | false =>
          -- the node is met again when all that is below it has been listed
          have horder : t.entryOrder (id, false) =
              (n.children.map (·, false)).flatMap t.entryOrder ++ t.entryOrder (id, true) := by
            simp [entryOrder, h.branch_eq hn, Branch.postorder, Branch.postorderAll_eq, hn,
              List.flatMap_map]
          simp only [walkMarked, hn]
          rw [ih, List.flatMap_append, List.flatMap_cons, horder, List.append_assoc]
          rw [List.map_append, List.sum_append, sum_entryCost, List.map_cons, List.sum_cons]
          simp only [entryCost, h.branch_eq hn, Branch.size, Branch.sizeAll_eq, List.map_map,
            Function.comp_def] at hfuel ⊢
          omega

/-- A walk that lists parents first is the recursive order of the branch. -/
theorem IsGrounded.preorderFrom_eq (h : t.IsGrounded) (id : NodeId) :
    t.preorderFrom id = (t.branch id).preorder := by
  rw [preorderFrom, h.walk_eq _ _ (by simp)]
  simp

/-- A walk that lists parents last is the recursive order of the branch. -/
theorem IsGrounded.postorderFrom_eq (h : t.IsGrounded) (id : NodeId) :
    t.postorderFrom id = (t.branch id).postorder := by
  rw [postorderFrom, h.walkMarked_eq _ _ (by simp [entryCost])]
  simp [entryOrder]

/-! ### The nodes listed -/

/-- A branch lists the live nodes that its identifier reaches. -/
theorem IsGrounded.mem_preorder_branch (h : t.IsGrounded) :
    (x, m) ∈ (t.branch id).preorder ↔ t.Reaches id x ∧ t.node? x = some m := by
  induction id using h.induction with
  | missing id hdead =>
    rw [branch_of_not_isLive hdead, Branch.preorder]
    constructor
    · intro hmem
      cases hmem
    · rintro ⟨hreach, hm⟩
      have hx := hreach.eq_of_childless (children_of_not_isLive hdead)
      exact absurd ⟨m, hx ▸ hm⟩ hdead
  | node id n hn ih =>
    rw [h.branch_eq hn, Branch.preorder, List.mem_cons, Branch.preorderAll_eq, List.flatMap_map,
      List.mem_flatMap]
    constructor
    · rintro (heq | ⟨c, hc, hmem⟩)
      · cases heq
        exact ⟨Reaches.refl _, hn⟩
      · obtain ⟨hreach, hm⟩ := (ih c hc).mp hmem
        exact ⟨hreach.head (children_eq hn ▸ hc), hm⟩
    · rintro ⟨hreach, hm⟩
      rcases hreach.cases_head with rfl | ⟨c, hc, hrest⟩
      · exact Or.inl (by simp_all)
      · rw [children_eq hn] at hc
        exact Or.inr ⟨c, hc, (ih c hc).mpr ⟨hrest, hm⟩⟩

theorem IsGrounded.mem_map_preorder_branch (h : t.IsGrounded) :
    x ∈ (t.branch id).preorder.map Prod.fst ↔ t.Reaches id x ∧ t.IsLive x := by
  rw [List.mem_map]
  constructor
  · rintro ⟨⟨x, m⟩, hmem, rfl⟩
    obtain ⟨hreach, hm⟩ := h.mem_preorder_branch.mp hmem
    exact ⟨hreach, m, hm⟩
  · rintro ⟨hreach, m, hm⟩
    exact ⟨(x, m), h.mem_preorder_branch.mpr ⟨hreach, hm⟩, rfl⟩

/-- A branch lists no node twice. -/
theorem IsForest.nodup_preorder_branch (h : t.IsForest) (id : NodeId) :
    ((t.branch id).preorder.map Prod.fst).Nodup := by
  induction id using h.induction with
  | missing id hdead =>
    rw [branch_of_not_isLive hdead]
    exact List.nodup_nil
  | node id n hn ih =>
    have hchildren := children_eq hn
    rw [h.branch_eq hn, Branch.preorder, Branch.preorderAll_eq, List.flatMap_map, List.map_cons,
      List.map_flatMap, List.nodup_cons, List.nodup_flatMap]
    refine ⟨fun hmem => ?_, ih, ?_⟩
    · obtain ⟨c, hc, hmem⟩ := List.mem_flatMap.mp hmem
      exact h.not_reaches_parent (hchildren ▸ hc) (h.mem_map_preorder_branch.mp hmem).1
    · -- two children list nothing in common, as they reach nothing in common
      refine (hchildren ▸ h.nodup id).imp_of_mem fun {c c'} hc hc' hne => ?_
      refine List.disjoint_left.mpr fun x hx hx' => hne ?_
      exact h.eq_of_reaches_siblings (hchildren.symm ▸ hc) (hchildren.symm ▸ hc')
        (h.mem_map_preorder_branch.mp hx).1 (h.mem_map_preorder_branch.mp hx').1

/-- A tree in which one identifier reaches every live node is as large as its branch. -/
theorem IsForest.size_eq_length_preorder (h : t.IsForest)
    (hall : ∀ x, t.IsLive x → t.Reaches id x) : t.size = (t.branch id).preorder.length := by
  rw [← List.length_map (f := Prod.fst)]
  refine Arena.size_eq_length (h.nodup_preorder_branch id) fun x => ?_
  rw [h.mem_map_preorder_branch]
  exact ⟨fun hx => hx.2, fun hlive => ⟨hall x hlive, hlive⟩⟩

end Tree

end Targeting
