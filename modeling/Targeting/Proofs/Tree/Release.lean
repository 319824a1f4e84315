import Targeting.Proofs.Tree.Run

/-!
# What is released, and what is not

Removing a child releases the child with everything below it, and a new root does the same to the
former one. The nodes to be released are collected by a walk before the first of them goes. In a
forest this walk meets exactly the descendants, each once: a sibling, the parent, another loose node
and all that hangs below these are not on its way.

## Main definitions

* `Tree.Releases` — what is left without a node and everything below it

## Main results

* `Tree.releases_prune`, `Tree.releases_replaceRoot` — what a removed child and a replaced root take
  with them
* `Tree.releases_exactly` — what this means in every tree that calls reach
-/

namespace Targeting.Tree

variable {t t' : Tree} {p c id old top x : NodeId}

/-- The second tree is what is left of the first without a node and everything below it. These nodes
were there and are gone, no other node is gone, and the size drops by their number. -/
structure Releases (t t' : Tree) (top : NodeId) : Prop where
  isLive : ∀ {x}, t.Reaches top x → t.IsLive x
  isLive_iff : ∀ x, t'.IsLive x ↔ t.IsLive x ∧ ¬ t.Reaches top x
  size : ∃ released : List NodeId, released.Nodup ∧ (∀ x, x ∈ released ↔ t.Reaches top x) ∧
    t'.size + released.length = t.size

/-- Which nodes are left determines the size, since a branch lists what it reaches once. -/
theorem IsForest.releases (h : t.IsForest) (htop : t.IsLive top)
    (hleft : ∀ x, t'.IsLive x ↔ t.IsLive x ∧ ¬ t.Reaches top x) : Releases t t' top where
  isLive hreach := h.isLive_of_reaches hreach htop
  isLive_iff := hleft
  size := by
    have hmem : ∀ x, x ∈ (t.branch top).preorder.map Prod.fst ↔ t.Reaches top x := by
      intro x
      rw [h.mem_map_preorder_branch]
      exact and_iff_left_of_imp fun hreach => h.isLive_of_reaches hreach htop
    refine ⟨_, h.nodup_preorder_branch top, hmem, ?_⟩
    refine Arena.size_add_length (h.nodup_preorder_branch top) (fun x hx => ?_) fun x => ?_
    · exact h.isLive_of_reaches ((hmem x).mp hx) htop
    · rw [hmem]
      exact hleft x

/-! ### A removed child -/

theorem releases_prune (h : t.IsForest) (hc : c ∈ t.children p) : Releases t (t.prune p c) c :=
  h.releases (isLive_of_parent? (h.parent?_of_mem hc)) fun _ => isLive_prune h hc

/-- The parent of a removed child keeps its other children in their order. -/
theorem node?_prune_parent (h : t.IsForest) (hc : c ∈ t.children p) {n : Node}
    (hn : t.node? p = some n) :
    (t.prune p c).node? p = some { n with children := n.children.filter (· ≠ c) } := by
  have hnodup : n.children.Nodup := children_eq hn ▸ h.nodup p
  have hfilter : n.children.erase c = n.children.filter (· ≠ c) := by
    rw [hnodup.erase_eq_filter]
    exact List.filter_congr fun x _ => by simp [bne, beq_eq_decide]
  rw [node?_prune h hc (h.not_reaches_parent hc), unlist, node?_modifyNode, if_pos rfl, hn,
    Option.map_some, hfilter]

/-- All other nodes that are left stay as they were. -/
theorem node?_prune_of_ne (h : t.IsForest) (hc : c ∈ t.children p) (hne : x ≠ p)
    (hx : ¬ t.Reaches c x) : (t.prune p c).node? x = t.node? x := by
  rw [node?_prune h hc hx, unlist, node?_modifyNode, if_neg hne]

/-! ### A replaced root -/

section ReplaceRoot

variable (h : t.IsForest) (hroot : t.root = some old)
include h

theorem node?_replaceRoot (hx : ¬ t.Reaches old x) :
    ({ t with root := some id }.release old).node? x = t.node? x :=
  -- the tree with the new root has the nodes and edges of the one before
  node?_release_of_not_reaches (t := { t with root := some id }) ⟨h.parent?_of_mem, h.acyclic⟩ hx

include hroot

theorem releases_replaceRoot :
    Releases t ({ t with root := some id }.release old) old := by
  refine h.releases (h.root_isLoose hroot).isLive fun x => ?_
  by_cases hx : t.Reaches old x
  · have hgone : ({ t with root := some id }.release old).node? x = none :=
      node?_release_of_reaches (t := { t with root := some id }) ⟨h.parent?_of_mem, h.acyclic⟩ hx
    simp [IsLive, hgone, hx]
  · simp [IsLive, node?_replaceRoot h hx, hx]

/-- Nothing below another loose node is below the root. -/
theorem not_reaches_of_reaches_loose {d : NodeId} (hd : t.IsLoose d) (hne : d ≠ old)
    (hx : t.Reaches d x) : ¬ t.Reaches old x := by
  intro hold
  rcases h.reaches_or_reaches hx hold with hreach | hreach
  · exact hne (h.eq_of_reaches_loose hreach (isLoose_iff.mp (h.root_isLoose hroot)).2)
  · exact hne (h.eq_of_reaches_loose hreach (isLoose_iff.mp hd).2).symm

end ReplaceRoot

/-! ### Every tree reached -/

/-- In every tree that calls reach, a removed child takes exactly its descendants with it. Its
parent keeps the other children in their order, and every other node that is left stays as it was;
so does the root. A loose node that takes the place of another root releases exactly the descendants
of that one: every other node stays as it was, what hangs below the new root and below all other
loose nodes included. -/
theorem releases_exactly (h : t.IsReached) :
    (∀ p c t', (Edit.removeChild p c).on t = (.ok true, t') →
      Releases t t' c ∧ t'.root = t.root ∧
      (∃ n, t.node? p = some n ∧ c ∈ n.children ∧
        t'.node? p = some { n with children := n.children.filter (· ≠ c) }) ∧
      ∀ x, x ≠ p → ¬ t.Reaches c x → t'.node? x = t.node? x) ∧
    ∀ id old, t.root = some old → old ≠ id →
      ((∃ t', (Edit.setRoot id).on t = (.ok (), t')) ↔ t.IsLoose id) ∧
      ∀ t', (Edit.setRoot id).on t = (.ok (), t') →
        Releases t t' old ∧ t'.root = some id ∧
        (∀ x, ¬ t.Reaches old x → t'.node? x = t.node? x) ∧
        ∀ d x, t.IsLoose d → d ≠ old → t.Reaches d x → t'.node? x = t.node? x := by
  have h := h.isForest
  constructor
  · intro p c t' hon
    obtain ⟨-, hfail⟩ | ⟨-, -, hno⟩ | ⟨hc, hyes⟩ := Edit.on_removeChild p c t
    · cases hfail.symm.trans hon
    · cases hno.symm.trans hon
    · cases hyes.symm.trans hon
      obtain ⟨n, hn⟩ := isLive_of_mem_children hc
      exact ⟨releases_prune h hc, rfl, ⟨n, hn, children_eq hn ▸ hc, node?_prune_parent h hc hn⟩,
        fun x hne hx => node?_prune_of_ne h hc hne hx⟩
  · intro id old hroot hne
    obtain ⟨hattached, e, hfail⟩ | ⟨hloose, hset⟩ := Edit.on_setRoot id t
    · refine ⟨iff_of_false ?_ hattached, fun t' hon => ?_⟩
      · rintro ⟨t', hon⟩
        cases hfail.symm.trans hon
      · cases hfail.symm.trans hon
    · rw [hroot] at hset
      dsimp only at hset
      rw [if_neg hne] at hset
      refine ⟨iff_of_true ⟨_, hset⟩ hloose, fun t' hon => ?_⟩
      cases hset.symm.trans hon
      exact ⟨releases_replaceRoot h hroot, rfl, fun x hx => node?_replaceRoot h hx,
        fun d x hd hdo hx => node?_replaceRoot h (not_reaches_of_reaches_loose h hroot hd hdo hx)⟩

/-- A group with a category goes, then the whole tree around it; a detached `and` with an `or` below
it stays and becomes the tree. -/
theorem releases_exactly_beside_detached_tree :
    ∃ t t₁ t₂ : Tree, t.IsReached ∧ t.root = some ⟨0, 0⟩ ∧ t.children ⟨1, 0⟩ = [⟨2, 0⟩] ∧
      t.children ⟨3, 0⟩ = [⟨4, 0⟩] ∧
      (Edit.removeChild ⟨0, 0⟩ ⟨1, 0⟩).on t = (.ok true, t₁) ∧ Releases t t₁ ⟨1, 0⟩ ∧
      ¬ t₁.IsLive ⟨2, 0⟩ ∧
      (Edit.setRoot ⟨3, 0⟩).on t = (.ok (), t₂) ∧ Releases t t₂ ⟨0, 0⟩ ∧ t₂.root = some ⟨3, 0⟩ ∧
      t₂.node? ⟨4, 0⟩ = t.node? ⟨4, 0⟩ := by
  obtain ⟨t, h, hroot, hgroup, hdetached, hloose, hremove⟩ : ∃ t : Tree, t.IsReached ∧
      t.root = some ⟨0, 0⟩ ∧ t.children ⟨1, 0⟩ = [⟨2, 0⟩] ∧ t.children ⟨3, 0⟩ = [⟨4, 0⟩] ∧
      t.IsLoose ⟨3, 0⟩ ∧ ∃ t₁, (Edit.removeChild ⟨0, 0⟩ ⟨1, 0⟩).on t = (.ok true, t₁) :=
    ⟨after .empty [.enableTargeting, .addCategory ⟨1, 0⟩ "sport", .create .and, .create .or,
      .appendChild ⟨3, 0⟩ ⟨4, 0⟩], ⟨_, _, Or.inl rfl, rfl⟩, rfl, rfl, rfl, ⟨_, rfl, rfl⟩, _, rfl⟩
  obtain ⟨t₁, hremove⟩ := hremove
  obtain ⟨hremoved, hreplaced⟩ := releases_exactly h
  obtain ⟨hgone, -⟩ := hremoved _ _ _ hremove
  obtain ⟨hset, hnew⟩ := hreplaced ⟨3, 0⟩ ⟨0, 0⟩ hroot (by decide)
  obtain ⟨t₂, hon⟩ := hset.mpr hloose
  obtain ⟨hgone', hroot', -, hstays⟩ := hnew t₂ hon
  refine ⟨t, t₁, t₂, h, hroot, hgroup, hdetached, hremove, hgone, fun hlive => ?_, hon, hgone',
    hroot', hstays ⟨3, 0⟩ ⟨4, 0⟩ hloose (by decide) ?_⟩
  · refine ((hgone.isLive_iff _).mp hlive).2 ((Reaches.refl _).tail ?_)
    rw [hgroup]
    exact List.mem_singleton_self _
  · refine (Reaches.refl _).tail ?_
    rw [hdetached]
    exact List.mem_singleton_self _

end Targeting.Tree
