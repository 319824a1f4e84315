import Targeting.Proofs.Tree.Forest

/-!
# Trees without their display names

Display names are the only part of a tree that a taxonomy has a say in. Erasing them changes neither
the shape of the tree nor which identifiers it hands out, so two trees that are equal without
names agree in everything but the names.

## Main definitions

* `Tree.nameless` — a tree with all display names erased

## Main results

* `Tree.nameless_modifyNode` — giving a name changes nothing else
* `Tree.isForest_nameless` — being a forest does not depend on names
-/

namespace Targeting

namespace Arena

variable {α β : Type}

/-- The arena with each value replaced. -/
def mapValues (f : α → β) (a : Arena α) : Arena β :=
  { slots := a.slots.map (Option.map (Prod.map id f))
    vacant := a.vacant
    generation := a.generation }

theorem get?_mapValues (f : α → β) (a : Arena α) (id : NodeId) :
    (a.mapValues f).get? id = (a.get? id).map f := by
  ext value
  rw [get?_eq_some_iff, mapValues, Array.getElem?_map]
  simp only [Option.map_eq_some_iff, get?_eq_some_iff]
  constructor
  · rintro ⟨slot, hslot, ⟨g, v⟩, rfl, heq⟩
    cases heq
    exact ⟨v, hslot, rfl⟩
  · rintro ⟨v, hslot, rfl⟩
    exact ⟨_, hslot, _, rfl, rfl⟩

theorem wellFormed_mapValues (f : α → β) (a : Arena α) :
    (a.mapValues f).WellFormed ↔ a.WellFormed := by
  have hempty : ∀ i : Nat, (a.mapValues f).slots[i]? = some none ↔ a.slots[i]? = some none := by
    intro i
    rw [mapValues, Array.getElem?_map]
    simp
  have hfilled : ∀ (i g : Nat), (∃ w, (a.mapValues f).slots[i]? = some (some (g, w)))
      ↔ ∃ v, a.slots[i]? = some (some (g, v)) := by
    intro i g
    rw [mapValues, Array.getElem?_map]
    constructor
    · rintro ⟨w, hw⟩
      simp only [Option.map_eq_some_iff] at hw
      obtain ⟨slot, hslot, ⟨g', v⟩, rfl, heq⟩ := hw
      cases heq
      exact ⟨v, hslot⟩
    · rintro ⟨v, hv⟩
      exact ⟨f v, by simp [hv]⟩
  constructor
  · rintro ⟨hnodup, hvacant, hle⟩
    refine ⟨hnodup, fun i => (hvacant i).trans (hempty i), fun i g v hv => ?_⟩
    obtain ⟨w, hw⟩ := (hfilled i g).mpr ⟨v, hv⟩
    exact hle i g w hw
  · rintro ⟨hnodup, hvacant, hle⟩
    refine ⟨hnodup, fun i => (hvacant i).trans (hempty i).symm, fun i g w hw => ?_⟩
    obtain ⟨v, hv⟩ := (hfilled i g).mp ⟨w, hw⟩
    exact hle i g v hv

/-- Replacing values commutes with what is done to a single one. -/
theorem mapValues_modify (f : α → β) {g : α → α} {g' : β → β} (hg : ∀ v, f (g v) = g' (f v))
    (a : Arena α) (id : NodeId) : (a.modify id g).mapValues f = (a.mapValues f).modify id g' := by
  unfold modify
  rw [get?_mapValues]
  cases a.get? id with
  | none => rfl
  | some value => simp [mapValues, Array.map_setIfInBounds, hg]

theorem mapValues_insert (f : α → β) (a : Arena α) (value : α) :
    (a.insert value).2.mapValues f = ((a.mapValues f).insert (f value)).2 := by
  unfold insert
  cases hvacant : a.vacant <;> simp [mapValues, hvacant, Array.map_setIfInBounds]

theorem mapValues_remove (f : α → β) (a : Arena α) (id : NodeId) :
    (a.remove id).mapValues f = (a.mapValues f).remove id := by
  unfold remove contains
  rw [get?_mapValues, Option.isSome_map]
  split
  · simp [mapValues, Array.map_setIfInBounds]
  · rfl

theorem nextId_mapValues (f : α → β) (a : Arena α) : (a.mapValues f).nextId = a.nextId := by
  unfold nextId mapValues
  cases a.vacant <;> simp

theorem size_mapValues (f : α → β) (a : Arena α) : (a.mapValues f).size = a.size := by
  rw [size, mapValues, Array.toList_map, List.countP_map, size]
  congr 1
  funext slot
  exact Option.isSome_map

end Arena

namespace Node

/-- A node without display name. -/
def nameless (n : Node) : Node := { n with displayName := none }

end Node

namespace Tree

variable {t t' : Tree} {id : NodeId}

/-- A tree with all display names erased. -/
def nameless (t : Tree) : Tree := { t with arena := t.arena.mapValues Node.nameless }

@[simp] theorem root_nameless (t : Tree) : t.nameless.root = t.root := rfl

theorem node?_nameless (t : Tree) (id : NodeId) :
    t.nameless.node? id = (t.node? id).map Node.nameless := t.arena.get?_mapValues _ id

@[simp] theorem kind?_nameless (t : Tree) (id : NodeId) : t.nameless.kind? id = t.kind? id := by
  rw [kind?, node?_nameless, kind?]
  cases t.node? id <;> rfl

@[simp] theorem parent?_nameless (t : Tree) (id : NodeId) :
    t.nameless.parent? id = t.parent? id := by
  rw [parent?, node?_nameless, parent?]
  cases t.node? id <;> rfl

@[simp] theorem children_nameless (t : Tree) (id : NodeId) :
    t.nameless.children id = t.children id := by
  rw [children, node?_nameless, children]
  cases t.node? id <;> rfl

@[simp] theorem isLoose_nameless : t.nameless.IsLoose id ↔ t.IsLoose id := by
  simp [isLoose_iff, isLive_iff_kind?]

/-- A change of names only. -/
theorem nameless_modifyNode (t : Tree) (id : NodeId) {f : Node → Node}
    (hf : ∀ n, (f n).nameless = n.nameless) : (t.modifyNode id f).nameless = t.nameless := by
  have hmap : (t.arena.modify id f).mapValues Node.nameless
      = (t.arena.mapValues Node.nameless).modify id fun n => n :=
    Arena.mapValues_modify Node.nameless hf t.arena id
  rw [modifyNode, nameless, hmap, Arena.modify_eq_self fun _ _ => rfl, nameless]

/-- Being a forest is a matter of the look-ups. -/
theorem IsForest.congr (h : t.IsForest) (hwf : t'.arena.WellFormed) (hroot : t'.root = t.root)
    (hkind : ∀ id, t'.kind? id = t.kind? id) (hparent : ∀ id, t'.parent? id = t.parent? id)
    (hchildren : ∀ id, t'.children id = t.children id) : t'.IsForest := by
  have hloose : ∀ id, t'.IsLoose id ↔ t.IsLoose id := by
    intro id
    simp only [isLoose_iff, isLive_iff_kind?, hkind, hparent]
  have hrel : t'.IsParent = t.IsParent := by
    funext p c
    rw [IsParent, hparent, IsParent]
  refine { parent?_of_mem := ?edges, acyclic := hrel ▸ h.acyclic, wellFormed := hwf,
           nodup := ?nodup, mem_children := ?listed, root_isLoose := ?root,
           childless := ?childless }
  case edges =>
    intro p c hmem
    rw [hchildren] at hmem
    rw [hparent, h.parent?_of_mem hmem]
  case nodup =>
    intro p
    rw [hchildren]
    exact h.nodup p
  case listed =>
    intro p c hedge
    rw [hparent] at hedge
    rw [hchildren]
    exact h.mem_children hedge
  case root =>
    intro r hr
    exact (hloose r).mpr (h.root_isLoose (hroot ▸ hr))
  case childless =>
    intro id key hid
    rw [hkind] at hid
    rw [hchildren, h.childless hid]

/-- Whether a tree is a forest does not depend on display names. -/
theorem isForest_nameless : t.nameless.IsForest ↔ t.IsForest := by
  constructor
  · intro h
    exact h.congr ((Arena.wellFormed_mapValues _ _).mp h.wellFormed) rfl (by simp) (by simp)
      (by simp)
  · intro h
    exact h.congr ((Arena.wellFormed_mapValues _ _).mpr h.wellFormed) rfl (by simp) (by simp)
      (by simp)

/-- Trees that are equal without names are forests together. -/
theorem IsForest.of_nameless_eq (h : t.IsForest) (heq : t'.nameless = t.nameless) :
    t'.IsForest :=
  isForest_nameless.mp (heq ▸ isForest_nameless.mpr h)

end Tree

end Targeting
