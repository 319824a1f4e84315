import Mathlib.Order.Bounds.Basic
import Targeting.Proofs.Tree.Forest

/-!
# Depth

The depth of a tree is computed by recursion on what hangs below a node. Seen from below it is the
length of a chain of parents: every chain up to the root is at most that long, and a deepest child
of each node on the way leads to one that is.

## Main definitions

* `Tree.IsChainUp` — a chain of parents from one node up to another

## Main results

* `Tree.IsForest.isGreatest_depth` — the depth is the length of a longest chain up to the root
-/

namespace Targeting

namespace Branch

theorem depth_le_depthAll {b : Branch} {bs : List Branch} (h : b ∈ bs) :
    b.depth ≤ depthAll bs := by
  induction bs with
  | nil => cases h
  | cons b' bs ih =>
    rw [depthAll]
    rcases List.mem_cons.mp h with rfl | h
    · exact le_max_left _ _
    · exact (ih h).trans (le_max_right _ _)

theorem exists_depth_eq_depthAll {bs : List Branch} (h : bs ≠ []) :
    ∃ b ∈ bs, b.depth = depthAll bs := by
  induction bs with
  | nil => exact absurd rfl h
  | cons b bs ih =>
    rw [depthAll]
    rcases le_total (depthAll bs) b.depth with hle | hle
    · exact ⟨b, List.mem_cons_self, (max_eq_left hle).symm⟩
    · cases bs with
      | nil => exact ⟨b, List.mem_cons_self, (max_eq_left (Nat.zero_le _)).symm⟩
      | cons b' bs =>
        obtain ⟨b'', hmem, hdepth⟩ := ih (List.cons_ne_nil _ _)
        exact ⟨b'', List.mem_cons_of_mem _ hmem, hdepth.trans (max_eq_right hle).symm⟩

end Branch

namespace Tree

variable {t : Tree} {id p c r x : NodeId}

/-! ### Chains of parents -/

/-- A list is the way from one node to its parent, to the parent of that and so on, up to a second
node. -/
structure IsChainUp (t : Tree) (low top : NodeId) (way : List NodeId) : Prop where
  isChain : way.IsChain fun c p => t.parent? c = some p
  head : way.head? = some low
  last : way.getLast? = some top

theorem isChainUp_singleton (id : NodeId) : t.IsChainUp id id [id] :=
  ⟨List.isChain_singleton _, rfl, rfl⟩

/-- A chain goes on with the parent of its last node. -/
theorem IsChainUp.concat {way : List NodeId} (h : t.IsChainUp x c way)
    (hparent : t.parent? c = some p) : t.IsChainUp x p (way ++ [p]) where
  isChain := by
    refine h.isChain.append (List.isChain_singleton _) fun last hlast top htop => ?_
    cases hlast.symm.trans h.last
    cases htop
    exact hparent
  head := by rw [List.head?_append, h.head, Option.some_or]
  last := List.getLast?_concat

/-- A chain up to a node is that node alone, or goes through a child of it. -/
theorem IsChainUp.cases_last {way : List NodeId} (h : t.IsChainUp x p way) :
    way = [p] ∨ ∃ c way', way = way' ++ [p] ∧ t.parent? c = some p ∧ t.IsChainUp x c way' := by
  obtain ⟨way', rfl⟩ := List.getLast?_eq_some_iff.mp h.last
  cases hlast : way'.getLast? with
  | none => exact Or.inl (by rw [List.getLast?_eq_none_iff.mp hlast, List.nil_append])
  | some c =>
    obtain ⟨hchain, -, hedge⟩ := List.isChain_append.mp h.isChain
    refine Or.inr ⟨c, way', rfl, hedge c hlast p rfl, hchain, ?_, hlast⟩
    rw [← h.head]
    exact (List.head?_append_of_ne_nil _ (by rintro rfl; cases hlast)).symm

/-! ### Branches and chains -/

/-- No chain up to a node is longer than the branch of the node is deep. -/
theorem IsForest.length_le_depth (h : t.IsForest) (hlive : t.IsLive id) {way : List NodeId}
    (hway : t.IsChainUp x id way) : way.length ≤ (t.branch id).depth := by
  induction id using h.induction generalizing way with
  | missing id hdead => exact absurd hlive hdead
  | node id n hn ih =>
    rw [h.branch_eq hn, Branch.depth]
    obtain rfl | ⟨c, way', rfl, hparent, hway'⟩ := hway.cases_last
    · exact Nat.le_add_left 1 _
    · have hc : c ∈ n.children := children_eq hn ▸ h.mem_children hparent
      have hdeep := Branch.depth_le_depthAll (List.mem_map_of_mem (f := t.branch) hc)
      rw [List.length_append, List.length_singleton]
      exact Nat.succ_le_succ ((ih c hc (isLive_of_parent? hparent) hway').trans hdeep)

/-- A deepest child is at the top of a longest chain. -/
theorem IsForest.exists_isChainUp (h : t.IsForest) (hlive : t.IsLive id) :
    ∃ x way, t.Reaches id x ∧ t.IsChainUp x id way ∧ way.length = (t.branch id).depth := by
  induction id using h.induction with
  | missing id hdead => exact absurd hlive hdead
  | node id n hn ih =>
    rw [h.branch_eq hn, Branch.depth]
    rcases eq_or_ne (n.children.map t.branch) [] with hnil | hne
    · refine ⟨id, [id], Reaches.refl id, isChainUp_singleton id, ?_⟩
      rw [hnil, Branch.depthAll, List.length_singleton]
    · obtain ⟨b, hb, hdepth⟩ := Branch.exists_depth_eq_depthAll hne
      obtain ⟨c, hc, rfl⟩ := List.mem_map.mp hb
      have hmem : c ∈ t.children id := children_eq hn ▸ hc
      have hparent := h.parent?_of_mem hmem
      obtain ⟨x, way, hreach, hway, hlength⟩ := ih c hc (isLive_of_parent? hparent)
      refine ⟨x, way ++ [id], Reaches.head hmem hreach, hway.concat hparent, ?_⟩
      rw [List.length_append, List.length_singleton, hlength, hdepth]

/-- The depth is the greatest number of nodes on a chain of parents from a node that is reached up
to the root. -/
theorem IsForest.isGreatest_depth (h : t.IsForest) (hroot : t.root = some r) :
    IsGreatest {k | ∃ x way, t.Reaches r x ∧ t.IsChainUp x r way ∧ way.length = k} t.depth := by
  have hlive := (h.root_isLoose hroot).isLive
  rw [depth, hroot, Option.map_some, Option.getD_some]
  constructor
  · exact h.exists_isChainUp hlive
  · rintro k ⟨x, way, -, hway, rfl⟩
    exact h.length_le_depth hlive hway

end Tree

end Targeting
