import Targeting.Proofs.Tree.Arena
import Targeting.Tree.Basic

/-!
# Look-ups in a tree

What a node is, who its parent is and which children it has, after each change of a tree. All
statements are about the four look-ups of `Tree`; nothing further needs to know how an arena stores
its nodes.

## Main definitions

* `Tree.IsLive`, `Tree.IsLoose` — an identifier with a node, and one whose node has no parent
* `Tree.nextId` — the identifier that the next node gets

## Main results

* `Tree.node?_create`, `Tree.node?_attach`, `Tree.node?_discard` — the nodes after a change
-/

namespace Targeting.Tree

variable {t t' : Tree} {id p c x : NodeId} {n : Node} {kind : NodeKind}

/-- An identifier with a node. -/
def IsLive (t : Tree) (id : NodeId) : Prop := ∃ n, t.node? id = some n

/-- A live identifier without a parent: the root, or a node that is not attached to anything. -/
def IsLoose (t : Tree) (id : NodeId) : Prop := ∃ n, t.node? id = some n ∧ n.parent = none

/-- The identifier that the next node gets. -/
def nextId (t : Tree) : NodeId := t.arena.nextId

theorem IsLoose.isLive (h : t.IsLoose id) : t.IsLive id :=
  let ⟨n, hn, _⟩ := h
  ⟨n, hn⟩

theorem not_isLive_iff : ¬ t.IsLive id ↔ t.node? id = none := by
  simp [IsLive, Option.eq_none_iff_forall_ne_some]

/-! ### The parts of a node -/

theorem kind?_eq (h : t.node? id = some n) : t.kind? id = some n.kind := by
  simp [kind?, h]

theorem parent?_eq (h : t.node? id = some n) : t.parent? id = n.parent := by
  simp [parent?, h]

theorem children_eq (h : t.node? id = some n) : t.children id = n.children := by
  simp [children, h]

theorem kind?_eq_some_iff : t.kind? id = some kind ↔ ∃ n, t.node? id = some n ∧ n.kind = kind := by
  simp [kind?]

theorem parent?_eq_some_iff :
    t.parent? c = some p ↔ ∃ n, t.node? c = some n ∧ n.parent = some p := by
  simp [parent?, Option.bind_eq_some_iff]

theorem isLive_iff_kind? : t.IsLive id ↔ ∃ kind, t.kind? id = some kind := by
  simp [IsLive, kind?]

theorem isLive_of_kind? (h : t.kind? id = some kind) : t.IsLive id :=
  isLive_iff_kind?.mpr ⟨kind, h⟩

theorem isLive_of_parent? (h : t.parent? c = some p) : t.IsLive c :=
  let ⟨n, hn, _⟩ := parent?_eq_some_iff.mp h
  ⟨n, hn⟩

theorem children_of_not_isLive (h : ¬ t.IsLive id) : t.children id = [] := by
  simp [children, not_isLive_iff.mp h]

theorem isLive_of_mem_children (h : c ∈ t.children p) : t.IsLive p := by
  by_contra hdead
  simp [children_of_not_isLive hdead] at h

theorem isLoose_iff : t.IsLoose id ↔ t.IsLive id ∧ t.parent? id = none := by
  constructor
  · rintro ⟨n, hn, hparent⟩
    exact ⟨⟨n, hn⟩, by rw [parent?_eq hn, hparent]⟩
  · rintro ⟨⟨n, hn⟩, hparent⟩
    exact ⟨n, hn, by rw [← parent?_eq hn, hparent]⟩

/-! ### New nodes -/

@[simp] theorem create_fst (t : Tree) (kind : NodeKind) : (t.create kind).1 = t.nextId :=
  Arena.insert_fst t.arena _

@[simp] theorem root_create (t : Tree) (kind : NodeKind) : (t.create kind).2.root = t.root := rfl

section Create

variable (h : t.arena.WellFormed) (kind : NodeKind) (x : NodeId)
include h

theorem node?_nextId : t.node? t.nextId = none := h.get?_nextId

theorem not_isLive_nextId : ¬ t.IsLive t.nextId := not_isLive_iff.mpr (node?_nextId h)

theorem node?_create :
    (t.create kind).2.node? x = if x = t.nextId then some { kind } else t.node? x :=
  h.get?_insert _ x

theorem kind?_create :
    (t.create kind).2.kind? x = if x = t.nextId then some kind else t.kind? x := by
  unfold kind?
  rw [node?_create h]
  split <;> rfl

theorem kind?_create_nextId : (t.create kind).2.kind? t.nextId = some kind := by
  rw [kind?_create h, if_pos rfl]

theorem parent?_create : (t.create kind).2.parent? x = t.parent? x := by
  unfold parent?
  rw [node?_create h]
  split
  · next hx => simp [hx, node?_nextId h]
  · rfl

theorem children_create : (t.create kind).2.children x = t.children x := by
  unfold children
  rw [node?_create h]
  split
  · next hx => simp [hx, node?_nextId h]
  · rfl

end Create

/-! ### Changed nodes -/

theorem node?_modifyNode (t : Tree) (id x : NodeId) (f : Node → Node) :
    (t.modifyNode id f).node? x = if x = id then (t.node? id).map f else t.node? x :=
  Arena.get?_modify t.arena id x f

theorem node?_attach (t : Tree) (hne : p ≠ c) (x : NodeId) :
    (t.attach p c).node? x =
      if x = p then (t.node? p).map fun n => { n with children := n.children ++ [c] }
      else if x = c then (t.node? c).map fun n => { n with parent := some p }
      else t.node? x := by
  unfold attach
  rw [node?_modifyNode]
  simp only [node?_modifyNode, if_neg hne]

theorem kind?_attach (t : Tree) (hne : p ≠ c) (x : NodeId) :
    (t.attach p c).kind? x = t.kind? x := by
  unfold kind?
  rw [node?_attach t hne]
  split
  · next hx => simp [hx, Function.comp_def]
  · split
    · next hx => simp [hx, Function.comp_def]
    · rfl

theorem isLive_attach (t : Tree) (hne : p ≠ c) (x : NodeId) :
    (t.attach p c).IsLive x ↔ t.IsLive x := by
  rw [isLive_iff_kind?, isLive_iff_kind?, kind?_attach t hne]

theorem parent?_attach (hne : p ≠ c) (hlive : t.IsLive c) (x : NodeId) :
    (t.attach p c).parent? x = if x = c then some p else t.parent? x := by
  obtain ⟨n, hn⟩ := hlive
  unfold parent?
  rw [node?_attach t hne]
  by_cases hp : x = p
  · subst hp
    rw [if_pos rfl, if_neg hne, Option.bind_map]
    rfl
  · by_cases hc : x = c
    · simp [hc, Ne.symm hne, hn]
    · simp [hp, hc]

theorem children_attach (hne : p ≠ c) (hlive : t.IsLive p) (x : NodeId) :
    (t.attach p c).children x = if x = p then t.children p ++ [c] else t.children x := by
  obtain ⟨n, hn⟩ := hlive
  unfold children
  rw [node?_attach t hne]
  by_cases hp : x = p
  · subst hp
    simp [hn]
  · by_cases hc : x = c
    · subst hc
      simp [hp, Function.comp_def]
    · simp [hp, hc]

/-! ### Removed nodes -/

theorem node?_discard (t : Tree) (ids : List NodeId) (x : NodeId) :
    (t.discard ids).node? x = if x ∈ ids then none else t.node? x := by
  unfold discard node?
  generalize t.arena = a
  -- removals come one after the other, so the induction is for every arena
  induction ids generalizing a with
  | nil => simp
  | cons id ids ih =>
    simp only [List.foldl_cons, List.mem_cons]
    rw [ih, Arena.get?_remove]
    by_cases hid : x = id <;> simp [hid]

theorem wellFormed_discard (h : t.arena.WellFormed) (ids : List NodeId) :
    (t.discard ids).arena.WellFormed := by
  unfold discard
  generalize t.arena = a at h
  induction ids generalizing a with
  | nil => exact h
  | cons id ids ih => exact ih (a.remove id) (h.remove id)

end Targeting.Tree
