import Targeting.Proofs.Tree.Run

/-!
# Edges that close a cycle

Before a node is appended to another, the way from the new parent up to a parentless node is
searched for it. Nothing in the shape of the search bounds it: it ends because no node of a forest
is above itself, which is what the search is there to keep. So it finds the new child exactly if
that is the new parent or an ancestor of it, and the edges that are refused for it are those that
would close a cycle.

## Main definitions

* `Tree.IsWayUp` — the whole way from a node up to a parentless one

## Main results

* `Tree.IsForest.isWayUp_ancestors` — the search ends, and the bound of the model cuts nothing off
* `Tree.appends_exactly` — which edges are added and which are refused, in every tree that calls
  reach
-/

namespace Targeting.Tree

open Relation

variable {t : Tree} {a p c id : NodeId} {way : List NodeId}

/-! ### Ways up -/

/-- A list is the whole way from a node to its parent, to the parent of that and so on, up to a node
without a parent. -/
inductive IsWayUp (t : Tree) : NodeId → List NodeId → Prop
  | top {id : NodeId} (hparent : t.parent? id = none) : IsWayUp t id [id]
  | step {id p : NodeId} {way : List NodeId} (hparent : t.parent? id = some p)
    (hway : IsWayUp t p way) : IsWayUp t id (id :: way)

namespace IsWayUp

/-- With enough fuel the search lists the way and nothing more. -/
theorem ancestorsWithin_eq (h : t.IsWayUp id way) {fuel : Nat} (hfuel : way.length ≤ fuel) :
    t.ancestorsWithin fuel id = way := by
  induction h generalizing fuel with
  | top hparent =>
    obtain ⟨fuel, rfl⟩ := Nat.exists_eq_add_of_le' hfuel
    simp [ancestorsWithin, hparent]
  | step hparent hway ih =>
    obtain ⟨fuel, rfl⟩ := Nat.exists_eq_add_of_le' ((Nat.le_add_left 1 _).trans hfuel)
    simp only [List.length_cons, Nat.add_le_add_iff_right] at hfuel
    simp [ancestorsWithin, hparent, ih hfuel]

theorem parents_of_mem (h : t.IsWayUp id way) (ha : a ∈ way) : ReflTransGen t.IsParent a id :=
  parents_of_mem_ancestorsWithin ((h.ancestorsWithin_eq le_rfl).symm ▸ ha)

/-- Each node on a way is above those that come before it. -/
theorem pairwise (h : t.IsWayUp id way) :
    way.Pairwise fun x y => TransGen t.IsParent y x := by
  induction h with
  | top hparent => exact List.pairwise_singleton _ _
  | step hparent hway ih =>
    exact List.pairwise_cons.mpr
      ⟨fun a ha => TransGen.tail' (hway.parents_of_mem ha) hparent, ih⟩

/-- In a forest, parents are live. -/
theorem isLive_of_mem (hforest : t.IsForest) (h : t.IsWayUp id way) (hid : t.IsLive id)
    (ha : a ∈ way) : t.IsLive a := by
  induction h with
  | top hparent => exact List.mem_singleton.mp ha ▸ hid
  | step hparent hway ih =>
    rcases List.mem_cons.mp ha with rfl | ha
    · exact hid
    · exact ih (isLive_of_mem_children (hforest.mem_children hparent)) ha

end IsWayUp

/-- Every way up comes to an end. -/
theorem IsGrounded.exists_isWayUp (h : t.IsGrounded) (id : NodeId) : ∃ way, t.IsWayUp id way := by
  induction id using h.acyclic.induction with
  | h id ih =>
    cases hparent : t.parent? id with
    | none => exact ⟨_, .top hparent⟩
    | some p =>
      obtain ⟨way, hway⟩ := ih p hparent
      exact ⟨_, .step hparent hway⟩

/-- The ancestors are the whole way up: the search comes to an end before the bound on it plays a
part. -/
theorem IsForest.isWayUp_ancestors (h : t.IsForest) (id : NodeId) :
    t.IsWayUp id (t.ancestors id) := by
  obtain ⟨way, hway⟩ := h.exists_isWayUp id
  have hlength : way.length ≤ t.arena.slots.size + 1 := by
    by_cases hid : t.IsLive id
    · have hsize := h.length_le_size way (Or.inr hway.pairwise) fun _ ha =>
        hway.isLive_of_mem h hid ha
      exact hsize.trans (t.arena.size_le_slots.trans (Nat.le_succ _))
    · -- a missing node has no parent
      have hparent : t.parent? id = none := by
        rw [parent?, not_isLive_iff.mp hid, Option.bind_none]
      cases hway with
      | top => exact Nat.le_add_left _ _
      | step hsome => cases hparent.symm.trans hsome
  rwa [ancestors, hway.ancestorsWithin_eq hlength]

/-- The search finds a node and those above it. -/
theorem IsGrounded.mem_ancestors_iff (h : t.IsGrounded) :
    c ∈ t.ancestors p ↔ c = p ∨ TransGen t.IsParent c p := by
  rw [h.mem_ancestors, reflTransGen_iff_eq_or_transGen, eq_comm]

/-! ### New edges -/

/-- In every tree that calls reach, the search for a cycle ends. An edge is added if and only if it
leads from an operator to a live node without a parent other than the root, and this node is neither
the operator nor above it; it is refused as one that closes a cycle if and only if only the last
part fails. A node that is appended becomes the last child, and nothing else changes. -/
theorem appends_exactly (h : t.IsReached) (p c : NodeId) :
    t.IsWayUp p (t.ancestors p) ∧
    (((Edit.appendChild p c).on t).1 = .ok () ↔
      t.CanJoin p c ∧ c ≠ p ∧ ¬ TransGen t.IsParent c p) ∧
    (((Edit.appendChild p c).on t).1 = .error (.wouldCreateCycle c) ↔
      t.CanJoin p c ∧ (c = p ∨ TransGen t.IsParent c p)) ∧
    ∀ t', (Edit.appendChild p c).on t = (.ok (), t') →
      t'.root = t.root ∧
      (∃ n, t.node? p = some n ∧ t'.node? p = some { n with children := n.children ++ [c] }) ∧
      (∃ m, t.node? c = some m ∧ t'.node? c = some { m with parent := some p }) ∧
      ∀ x, x ≠ p → x ≠ c → t'.node? x = t.node? x := by
  have h := h.isForest
  refine ⟨h.isWayUp_ancestors p, ?_⟩
  rw [← not_or, ← h.mem_ancestors_iff]
  obtain ⟨hno, e, he, hon⟩ | ⟨hjoin, habove, hon⟩ | ⟨hjoin, habove, hon⟩ :=
    Edit.appendChild_cases p c t <;> rw [hon]
  · simp [hno, he]
  · simp [hjoin, habove]
  · refine ⟨by simp [hjoin, habove], by simp [habove], fun t' heq => ?_⟩
    cases heq
    obtain ⟨op, hop⟩ := hjoin.operator
    obtain ⟨n, hn, -⟩ := kind?_eq_some_iff.mp hop
    obtain ⟨m, hm, -⟩ := hjoin.loose
    have hne : p ≠ c := fun heq => habove (h.mem_ancestors_iff.mpr (Or.inl heq.symm))
    have hnode := node?_attach t hne
    refine ⟨rfl, ⟨n, hn, ?_⟩, ⟨m, hm, ?_⟩, fun x hxp hxc => ?_⟩
    · rw [hnode, if_pos rfl, hn, Option.map_some]
    · rw [hnode, if_neg hne.symm, if_pos rfl, hm, Option.map_some]
    · rw [hnode, if_neg hxp, if_neg hxc]

/-- Of three detached nodes in a row, the topmost one cannot go below the others or itself. A fourth
node can. -/
theorem appends_exactly_below_detached :
    ∃ t : Tree, t.IsReached ∧
      ((Edit.appendChild ⟨2, 0⟩ ⟨0, 0⟩).on t).1 = .error (.wouldCreateCycle ⟨0, 0⟩) ∧
      TransGen t.IsParent ⟨0, 0⟩ ⟨2, 0⟩ ∧
      ((Edit.appendChild ⟨0, 0⟩ ⟨0, 0⟩).on t).1 = .error (.wouldCreateCycle ⟨0, 0⟩) ∧
      ((Edit.appendChild ⟨2, 0⟩ ⟨3, 0⟩).on t).1 = .ok () ∧
      ¬ TransGen t.IsParent ⟨3, 0⟩ ⟨2, 0⟩ := by
  obtain ⟨t, h, hbelow, hself, hother⟩ : ∃ t : Tree, t.IsReached ∧
      ((Edit.appendChild ⟨2, 0⟩ ⟨0, 0⟩).on t).1 = .error (.wouldCreateCycle ⟨0, 0⟩) ∧
      t.CanJoin ⟨0, 0⟩ ⟨0, 0⟩ ∧ ((Edit.appendChild ⟨2, 0⟩ ⟨3, 0⟩).on t).1 = .ok () :=
    ⟨after .empty [.create .or, .create .or, .appendChild ⟨0, 0⟩ ⟨1, 0⟩, .create .and,
      .appendChild ⟨1, 0⟩ ⟨2, 0⟩, .create .not], ⟨_, _, Or.inl rfl, rfl⟩, rfl,
      ⟨⟨.or, rfl⟩, ⟨_, rfl, rfl⟩, nofun⟩, rfl⟩
  obtain ⟨-, -, hcycle, -⟩ := appends_exactly h ⟨2, 0⟩ ⟨0, 0⟩
  obtain ⟨-, -, hloop, -⟩ := appends_exactly h ⟨0, 0⟩ ⟨0, 0⟩
  obtain ⟨-, hadded, -, -⟩ := appends_exactly h ⟨2, 0⟩ ⟨3, 0⟩
  obtain ⟨-, hsame | habove⟩ := hcycle.mp hbelow
  · cases hsame
  · exact ⟨t, h, hbelow, habove, hloop.mpr ⟨hself, Or.inl rfl⟩, hother, (hadded.mp hother).2.2⟩

end Targeting.Tree
