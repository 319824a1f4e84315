import Targeting.Proofs.Tree.Walk
import Targeting.Tree.Edit

/-!
# Removing what hangs below a node

Releasing a node removes exactly the nodes that it reaches. Once its parent does not list it any
more, or if it had none, what is left is a forest again: no node that stays has an edge to one that
goes.

## Main definitions

* `Tree.prune` — a tree without a child of a node and all that hangs below the child
* `Tree.IsCutAbove` — a forest but for one child that its parent has given up

## Main results

* `Tree.node?_release_of_reaches`, `Tree.node?_release_of_not_reaches` — what release removes
* `Tree.IsForest.prune`, `Tree.IsForest.replaceRoot` — forests stay forests
-/

namespace Targeting.Tree

open Relation

variable {t : Tree} {c p r x id : NodeId}

/-! ### Release -/

theorem IsGrounded.mem_release (h : t.IsGrounded) :
    x ∈ (t.postorderFrom id).map (·.1) ↔ t.Reaches id x ∧ t.IsLive x := by
  rw [h.postorderFrom_eq, ((Branch.postorder_perm _).map _).mem_iff, h.mem_map_preorder_branch]

/-- The nodes reached from a released node are gone. -/
theorem node?_release_of_reaches (h : t.IsGrounded) (hreach : t.Reaches id x) :
    (t.release id).node? x = none := by
  rw [release, node?_discard]
  split
  · rfl
  · next hmem =>
    rw [h.mem_release, not_and] at hmem
    exact not_isLive_iff.mp (hmem hreach)

/-- All other nodes stay as they were. -/
theorem node?_release_of_not_reaches (h : t.IsGrounded) (hreach : ¬ t.Reaches id x) :
    (t.release id).node? x = t.node? x := by
  rw [release, node?_discard, if_neg]
  rw [h.mem_release]
  exact fun hmem => hreach hmem.1

/-- A forest but for the edge above one node, which its parent does not list any more. -/
structure IsCutAbove (t : Tree) (c : NodeId) : Prop extends IsGrounded t where
  wellFormed : t.arena.WellFormed
  nodup : ∀ p, (t.children p).Nodup
  mem_children : ∀ {p x}, t.parent? x = some p → x ≠ c → x ∈ t.children p
  not_listed : ∀ p, c ∉ t.children p
  root_isLoose : ∀ {r}, t.root = some r → t.IsLoose r ∧ r ≠ c
  childless : ∀ {id key}, t.kind? id = some (.category key) → t.children id = []

/-- Releasing the node below the cut leaves a forest. -/
theorem IsCutAbove.release (h : t.IsCutAbove c) : (t.release c).IsForest := by
  have hgone : ∀ {x}, t.Reaches c x → (t.release c).node? x = none :=
    node?_release_of_reaches h.toIsGrounded
  have hstays : ∀ {x}, ¬ t.Reaches c x → (t.release c).node? x = t.node? x :=
    node?_release_of_not_reaches h.toIsGrounded
  have hleft : ∀ {x}, (t.release c).IsLive x → ¬ t.Reaches c x := by
    intro x hlive hreach
    exact not_isLive_iff.mpr (hgone hreach) hlive
  have hparent : ∀ {x p}, (t.release c).parent? x = some p → t.parent? x = some p := by
    intro x p hedge
    rw [← hedge, parent?, parent?, hstays (hleft (isLive_of_parent? hedge))]
  have hchildren : ∀ {q}, ¬ t.Reaches c q → (t.release c).children q = t.children q := by
    intro q hq
    rw [children, children, hstays hq]
  refine { parent?_of_mem := ?edges, acyclic := ?acyclic, wellFormed := ?store, nodup := ?nodup,
           mem_children := ?listed, root_isLoose := ?root, childless := ?childless }
  case edges =>
    intro q x hmem
    have hq := hleft (isLive_of_mem_children hmem)
    rw [hchildren hq] at hmem
    -- a child of a node that stays is not the one cut off, so it stays as well
    have hx : ¬ t.Reaches c x := by
      intro hreach
      rcases h.reaches_parent_or_eq hmem hreach with rfl | hreach
      · exact h.not_listed q hmem
      · exact hq hreach
    rw [parent?, hstays hx]
    exact h.parent?_of_mem hmem
  case acyclic => exact Subrelation.wf hparent h.acyclic
  case store => exact wellFormed_discard h.wellFormed _
  case nodup =>
    intro q
    by_cases hq : t.Reaches c q
    · rw [children_of_not_isLive (not_isLive_iff.mpr (hgone hq))]
      exact List.nodup_nil
    · rw [hchildren hq]
      exact h.nodup q
  case listed =>
    intro q x hedge
    have hx := hleft (isLive_of_parent? hedge)
    have hmem : x ∈ t.children q := by
      refine h.mem_children (hparent hedge) ?_
      rintro rfl
      exact hx (Reaches.refl x)
    rw [hchildren fun hq => hx (hq.tail hmem)]
    exact hmem
  case root =>
    intro r hroot
    -- what reaches the root is the root itself, and that is not the node below the cut
    obtain ⟨⟨n, hn, hnone⟩, hne⟩ := h.root_isLoose hroot
    have hr : ¬ t.Reaches c r := fun hreach =>
      hne (h.eq_of_reaches_loose hreach (by rw [parent?_eq hn, hnone])).symm
    exact ⟨n, by rw [hstays hr, hn], hnone⟩
  case childless =>
    intro id key hkind
    have hid := hleft (isLive_of_kind? hkind)
    rw [kind?, hstays hid] at hkind
    rw [hchildren hid]
    exact h.childless hkind

/-! ### Removing a child -/

/-- The tree in which a node has given up a child. -/
def unlist (t : Tree) (p c : NodeId) : Tree :=
  t.modifyNode p fun n => { n with children := n.children.erase c }

theorem kind?_unlist (t : Tree) (p c x : NodeId) : (t.unlist p c).kind? x = t.kind? x := by
  rw [kind?, unlist, node?_modifyNode, kind?]
  split
  · next hx => simp [hx, Function.comp_def]
  · rfl

theorem parent?_unlist (t : Tree) (p c x : NodeId) : (t.unlist p c).parent? x = t.parent? x := by
  rw [parent?, unlist, node?_modifyNode, parent?]
  split
  · next hx => simp [hx, Option.bind_map]
  · rfl

theorem children_unlist (t : Tree) (p c x : NodeId) :
    (t.unlist p c).children x = if x = p then (t.children p).erase c else t.children x := by
  rw [children, unlist, node?_modifyNode]
  split
  · next hx =>
    rw [children]
    cases t.node? p <;> simp
  · rfl

theorem mem_children_of_unlist {q : NodeId} (hx : x ∈ (t.unlist p c).children q) :
    x ∈ t.children q := by
  rw [children_unlist] at hx
  split at hx
  · next hq => exact hq ▸ List.mem_of_mem_erase hx
  · exact hx

/-- The tree without a child and all that hangs below it. -/
def prune (t : Tree) (p c : NodeId) : Tree := (t.unlist p c).release c

@[simp] theorem root_prune (t : Tree) (p c : NodeId) : (t.prune p c).root = t.root := rfl

section Prune

variable (h : t.IsForest) (hc : c ∈ t.children p)
include h hc

theorem IsForest.isCutAbove_unlist : (t.unlist p c).IsCutAbove c := by
  refine { parent?_of_mem := ?edges, acyclic := ?acyclic, wellFormed := h.wellFormed.modify p _,
           nodup := ?nodup, mem_children := ?listed, not_listed := ?cut, root_isLoose := ?root,
           childless := ?childless }
  case edges =>
    intro q x hmem
    rw [parent?_unlist]
    exact h.parent?_of_mem (mem_children_of_unlist hmem)
  case acyclic =>
    refine Subrelation.wf (fun {q x} hedge => ?_) h.acyclic
    exact (parent?_unlist t p c x).symm.trans hedge
  case nodup =>
    intro q
    rw [children_unlist]
    split
    · exact (h.nodup p).erase c
    · exact h.nodup q
  case listed =>
    intro q x hedge hx
    rw [parent?_unlist] at hedge
    rw [children_unlist]
    split
    · next hq => exact (List.mem_erase_of_ne hx).mpr (hq ▸ h.mem_children hedge)
    · exact h.mem_children hedge
  case cut =>
    intro q hmem
    -- the parent listed the child once, and nobody else lists it
    have hq : q = p := h.eq_of_mem_children (mem_children_of_unlist hmem) hc
    rw [children_unlist, if_pos hq] at hmem
    exact (h.nodup p).not_mem_erase hmem
  case root =>
    intro r hroot
    have hr := h.root_isLoose hroot
    refine ⟨?_, ?_⟩
    · rw [isLoose_iff, isLive_iff_kind?, kind?_unlist, ← isLive_iff_kind?, parent?_unlist,
        ← isLoose_iff]
      exact hr
    · rintro rfl
      exact h.not_mem_children (isLoose_iff.mp hr).2 p hc
  case childless =>
    intro id key hkind
    rw [kind?_unlist] at hkind
    have hempty := h.childless hkind
    rw [← List.subset_nil, ← hempty]
    exact fun x hx => mem_children_of_unlist hx

theorem IsForest.prune : (t.prune p c).IsForest := (h.isCutAbove_unlist hc).release

/-- Giving up a child changes nothing below the child. -/
theorem reaches_unlist : (t.unlist p c).Reaches c x ↔ t.Reaches c x := by
  constructor
  · exact ReflTransGen.mono (fun _ _ hmem => mem_children_of_unlist hmem) _ _
  · -- the parent is not below its child, so its list plays no part on the way down
    intro hreach
    induction hreach with
    | refl => exact Reaches.refl c
    | @tail q x hq hmem ih =>
      refine ih.tail ?_
      rw [children_unlist, if_neg]
      · exact hmem
      · rintro rfl
        exact h.not_reaches_parent hc hq

theorem isLive_prune : (t.prune p c).IsLive x ↔ t.IsLive x ∧ ¬ t.Reaches c x := by
  have hcut := h.isCutAbove_unlist hc
  rw [← reaches_unlist h hc, Tree.prune]
  by_cases hreach : (t.unlist p c).Reaches c x
  · simp [IsLive, node?_release_of_reaches hcut.toIsGrounded hreach, hreach]
  · have hnode := node?_release_of_not_reaches hcut.toIsGrounded hreach
    simp only [IsLive, hnode, hreach, not_false_eq_true, and_true]
    exact isLive_iff_kind?.trans (by rw [kind?_unlist, ← isLive_iff_kind?]; rfl)

section

variable (hx : ¬ t.Reaches c x)
include hx

theorem node?_prune : (t.prune p c).node? x = (t.unlist p c).node? x :=
  node?_release_of_not_reaches (h.isCutAbove_unlist hc).toIsGrounded
    fun hreach => hx ((reaches_unlist h hc).mp hreach)

theorem kind?_prune : (t.prune p c).kind? x = t.kind? x := by
  rw [kind?, node?_prune h hc hx, ← kind?_unlist t p c x, kind?]

theorem parent?_prune : (t.prune p c).parent? x = t.parent? x := by
  rw [parent?, node?_prune h hc hx, ← parent?_unlist t p c x, parent?]

theorem children_prune :
    (t.prune p c).children x = if x = p then (t.children p).erase c else t.children x := by
  rw [children, node?_prune h hc hx, ← children_unlist t p c x, children]

end

/-- Removing a child makes no node loose. -/
theorem isLoose_prune : (t.prune p c).IsLoose x ↔ t.IsLoose x := by
  rw [isLoose_iff, isLive_prune h hc, isLoose_iff]
  constructor
  · rintro ⟨⟨hlive, hx⟩, hparent⟩
    exact ⟨hlive, (parent?_prune h hc hx).symm.trans hparent⟩
  · rintro ⟨hlive, hparent⟩
    have hx : ¬ t.Reaches c x := by
      intro hreach
      have hsame := h.eq_of_reaches_loose hreach hparent
      exact h.not_mem_children hparent p (hsame ▸ hc)
    exact ⟨⟨hlive, hx⟩, (parent?_prune h hc hx).trans hparent⟩

end Prune

/-! ### Replacing the root -/

/-- The forest in which another loose node takes the place of the root. -/
theorem IsForest.replaceRoot (h : t.IsForest) (hroot : t.root = some r) (hid : t.IsLoose id)
    (hne : r ≠ id) : ({ t with root := some id }.release r).IsForest := by
  have hr := (isLoose_iff.mp (h.root_isLoose hroot)).2
  refine IsCutAbove.release ⟨⟨h.parent?_of_mem, h.acyclic⟩, h.wellFormed, h.nodup,
    fun hedge _ => h.mem_children hedge, h.not_mem_children hr, fun hroot => ?_, h.childless⟩
  cases hroot
  exact ⟨hid, Ne.symm hne⟩

theorem IsForest.setRoot (h : t.IsForest) (hid : t.IsLoose id) :
    { t with root := some id }.IsForest :=
  ⟨⟨h.parent?_of_mem, h.acyclic⟩, h.wellFormed, h.nodup, h.mem_children,
    fun hroot => by cases hroot; exact hid, h.childless⟩

end Targeting.Tree
