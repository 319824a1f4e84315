import Targeting.Proofs.Tree.Forest

/-!
# Growing a forest

A new node is loose, and attaching it below an operator extends the forest by one leaf. In general
a loose node with everything below it can be attached anywhere outside of what it reaches; this is
the only edge that would close a cycle.

## Main definitions

* `Tree.CanAttach` — the edges that keep a forest a forest
* `Tree.CanJoin` — the ends that such an edge needs
* `Tree.grow` — a new node below an operator

## Main results

* `Tree.IsForest.create`, `Tree.IsForest.attach`, `Tree.IsForest.grow` — forests stay forests
-/

namespace Targeting.Tree

open Relation

variable {t : Tree} {c p x : NodeId} {op : Operator}

/-- An edge that may be added: from an operator to a loose node other than the root that the
operator does not hang below. -/
structure CanAttach (t : Tree) (p c : NodeId) : Prop where
  operator : ∃ op, t.kind? p = some (.operator op)
  loose : t.IsLoose c
  ne_root : t.root ≠ some c
  not_reaches : ¬ t.Reaches c p

/-- The ends that an edge needs: an operator, and a loose node other than the root. -/
structure CanJoin (t : Tree) (p c : NodeId) : Prop where
  operator : ∃ op, t.kind? p = some (.operator op)
  loose : t.IsLoose c
  ne_root : t.root ≠ some c

/-- A new node below the given one. -/
def grow (t : Tree) (p : NodeId) (kind : NodeKind) : Tree :=
  (t.create kind).2.attach p t.nextId

/-- An edge with such ends may be added unless it closes a cycle. -/
theorem canAttach_iff : t.CanAttach p c ↔ t.CanJoin p c ∧ ¬ t.Reaches c p :=
  ⟨fun h => ⟨⟨h.operator, h.loose, h.ne_root⟩, h.not_reaches⟩,
    fun ⟨h, hcycle⟩ => ⟨h.operator, h.loose, h.ne_root, hcycle⟩⟩

theorem CanAttach.ne (h : t.CanAttach p c) : p ≠ c := by
  rintro rfl
  exact h.not_reaches (Reaches.refl p)

theorem CanAttach.isLive (h : t.CanAttach p c) : t.IsLive p :=
  let ⟨_, hop⟩ := h.operator
  isLive_of_kind? hop

/-! ### New nodes -/

theorem IsForest.empty : Tree.empty.IsForest where
  parent?_of_mem hmem := by cases hmem
  acyclic := ⟨fun _ => ⟨_, fun _ hedge => by cases hedge⟩⟩
  wellFormed := Arena.WellFormed.empty
  nodup _ := List.nodup_nil
  mem_children hedge := by cases hedge
  root_isLoose hroot := by cases hroot
  childless _ := rfl

theorem IsForest.not_isLive_nextId (h : t.IsForest) : ¬ t.IsLive t.nextId :=
  Tree.not_isLive_nextId h.wellFormed

theorem isLoose_create (h : t.IsForest) (kind : NodeKind) (x : NodeId) :
    (t.create kind).2.IsLoose x ↔ x = t.nextId ∨ t.IsLoose x := by
  simp only [isLoose_iff, isLive_iff_kind?, kind?_create h.wellFormed,
    parent?_create h.wellFormed]
  by_cases hx : x = t.nextId
  · subst hx
    have hparent : t.parent? t.nextId = none := by
      simp [parent?, node?_nextId h.wellFormed]
    simp [hparent]
  · simp [hx]

theorem IsForest.create (h : t.IsForest) (kind : NodeKind) : (t.create kind).2.IsForest where
  parent?_of_mem hmem := by
    rw [children_create h.wellFormed] at hmem
    rw [parent?_create h.wellFormed, h.parent?_of_mem hmem]
  acyclic := by
    refine Subrelation.wf (fun {p c} hedge => ?_) h.acyclic
    exact (parent?_create h.wellFormed kind c).symm.trans hedge
  wellFormed := h.wellFormed.insert _
  nodup p := by
    rw [children_create h.wellFormed]
    exact h.nodup p
  mem_children hedge := by
    rw [parent?_create h.wellFormed] at hedge
    rw [children_create h.wellFormed]
    exact h.mem_children hedge
  root_isLoose hroot := (isLoose_create h kind _).mpr (Or.inr (h.root_isLoose hroot))
  childless {id key} hkind := by
    rw [kind?_create h.wellFormed] at hkind
    rw [children_create h.wellFormed]
    split at hkind
    · next hid => exact children_of_not_isLive (hid ▸ h.not_isLive_nextId)
    · exact h.childless hkind

/-! ### New edges -/

/-- One more edge keeps every chain of parents finite unless its upper end hangs below its lower
end. The chains that avoid the lower end are the old ones; the others continue with the upper end,
whose chain avoids the lower end. -/
theorem acyclic_of_edge {r r' : NodeId → NodeId → Prop} (hwf : WellFounded r)
    (hedge : ∀ a b, r' a b → r a b ∨ a = p ∧ b = c) (havoid : ¬ ReflTransGen r c p) :
    WellFounded r' := by
  -- chains that avoid the lower end have old edges only
  have hold : ∀ x, ¬ ReflTransGen r c x → Acc r' x := by
    intro x
    induction x using hwf.induction with
    | h x ih =>
      intro hx
      refine ⟨x, fun a ha => ?_⟩
      rcases hedge a x ha with hr | ⟨-, rfl⟩
      · exact ih a hr fun hca => hx (hca.tail hr)
      · exact absurd ReflTransGen.refl hx
  refine ⟨fun x => ?_⟩
  induction x using hwf.induction with
  | h x ih =>
    refine ⟨x, fun a ha => ?_⟩
    rcases hedge a x ha with hr | ⟨rfl, -⟩
    · exact ih a hr
    · exact hold a havoid

/-- Attaching adds one edge. -/
theorem CanAttach.isParent_attach (hcan : t.CanAttach p c) {a b : NodeId}
    (hedge : (t.attach p c).IsParent a b) : t.IsParent a b ∨ a = p ∧ b = c := by
  rw [IsParent, parent?_attach hcan.ne hcan.loose.isLive] at hedge
  split at hedge
  · next hb => exact Or.inr ⟨(Option.some_inj.mp hedge).symm, hb⟩
  · exact Or.inl hedge

/-- The added edge closes no cycle. -/
theorem IsForest.acyclic_attach (h : t.IsForest) (hcan : t.CanAttach p c) :
    WellFounded (t.attach p c).IsParent := by
  refine acyclic_of_edge h.acyclic (fun _ _ hedge => hcan.isParent_attach hedge) fun habove => ?_
  refine hcan.not_reaches ?_
  exact ReflTransGen.mono (fun _ _ hedge => h.mem_children hedge) _ _ habove

theorem IsForest.attach (h : t.IsForest) (hcan : t.CanAttach p c) : (t.attach p c).IsForest := by
  have hne := hcan.ne
  have hparent := parent?_attach hne hcan.loose.isLive
  have hchildren := children_attach hne hcan.isLive
  have hloose := (isLoose_iff.mp hcan.loose).2
  -- the only look-ups that change are the parent of the child and the children of the parent
  refine { parent?_of_mem := ?edges, acyclic := h.acyclic_attach hcan,
           wellFormed := (h.wellFormed.modify c _).modify p _, nodup := ?nodup,
           mem_children := ?listed, root_isLoose := ?root, childless := ?childless }
  case edges =>
    intro q x hmem
    have hold : x ∈ t.children q → (if x = c then some p else t.parent? x) = some q := by
      intro hx
      have hxc : x ≠ c := by
        rintro rfl
        exact h.not_mem_children hloose q hx
      rw [if_neg hxc, h.parent?_of_mem hx]
    rw [hparent]
    rw [hchildren] at hmem
    split at hmem
    · next hq =>
      rcases List.mem_append.mp hmem with hx | hx
      · exact hold (hq ▸ hx)
      · rw [if_pos (List.mem_singleton.mp hx), hq]
    · exact hold hmem
  case nodup =>
    intro q
    rw [hchildren]
    split
    · refine (h.nodup p).append (List.nodup_singleton c) ?_
      rw [List.disjoint_singleton]
      exact h.not_mem_children hloose p
    · exact h.nodup q
  case listed =>
    intro q x hedge
    rw [hparent] at hedge
    rw [hchildren]
    split at hedge
    · next hx =>
      cases hedge
      simp [hx]
    · have hmem := h.mem_children hedge
      split
      · next hq => exact List.mem_append_left _ (hq ▸ hmem)
      · exact hmem
  case root =>
    intro r hroot
    have hr := isLoose_iff.mp (h.root_isLoose hroot)
    have hrc : r ≠ c := by
      rintro rfl
      exact hcan.ne_root hroot
    rw [isLoose_iff, isLive_attach t hne, hparent, if_neg hrc]
    exact hr
  case childless =>
    intro id key hkind
    rw [kind?_attach t hne] at hkind
    have hid : id ≠ p := by
      rintro rfl
      obtain ⟨op, hop⟩ := hcan.operator
      rw [hop] at hkind
      cases hkind
    rw [hchildren, if_neg hid, h.childless hkind]

/-! ### Leaves -/

/-- A new node may be attached below any operator. -/
theorem IsForest.canAttach_nextId (h : t.IsForest) (hp : t.kind? p = some (.operator op))
    (kind : NodeKind) : (t.create kind).2.CanAttach p t.nextId where
  operator := by
    refine ⟨op, ?_⟩
    rw [kind?_create h.wellFormed, if_neg, hp]
    rintro rfl
    exact h.not_isLive_nextId (isLive_of_kind? hp)
  loose := (isLoose_create h kind _).mpr (Or.inl rfl)
  ne_root hroot := h.not_isLive_nextId (h.root_isLoose hroot).isLive
  not_reaches hreach := by
    have hchildless : (t.create kind).2.children t.nextId = [] := by
      rw [children_create h.wellFormed, children_of_not_isLive h.not_isLive_nextId]
    rw [hreach.eq_of_childless hchildless] at hp
    exact h.not_isLive_nextId (isLive_of_kind? hp)

section Grow

variable (h : t.IsForest) (hp : t.kind? p = some (.operator op)) (kind : NodeKind) (x : NodeId)
include h hp

theorem IsForest.grow : (t.grow p kind).IsForest :=
  (h.create kind).attach (h.canAttach_nextId hp kind)

theorem ne_nextId : p ≠ t.nextId := (h.canAttach_nextId hp .and).ne

theorem kind?_grow : (t.grow p kind).kind? x = if x = t.nextId then some kind else t.kind? x := by
  rw [Tree.grow, kind?_attach _ (ne_nextId h hp), kind?_create h.wellFormed]

theorem kind?_grow_nextId : (t.grow p kind).kind? t.nextId = some kind := by
  rw [kind?_grow h hp, if_pos rfl]

theorem parent?_grow :
    (t.grow p kind).parent? x = if x = t.nextId then some p else t.parent? x := by
  rw [Tree.grow, parent?_attach (ne_nextId h hp) (h.canAttach_nextId hp kind).loose.isLive,
    parent?_create h.wellFormed]

theorem children_grow :
    (t.grow p kind).children x = if x = p then t.children p ++ [t.nextId] else t.children x := by
  rw [Tree.grow, children_attach (ne_nextId h hp) (h.canAttach_nextId hp kind).isLive,
    children_create h.wellFormed, children_create h.wellFormed]

theorem nextId_mem_children_grow : t.nextId ∈ (t.grow p kind).children p := by
  rw [children_grow h hp, if_pos rfl]
  exact List.mem_append_right _ (List.mem_singleton_self _)

/-- The node after the next one is not there yet either. -/
theorem IsForest.not_isLive_nextId_grow : ¬ t.IsLive (t.grow p kind).nextId := by
  intro hlive
  obtain ⟨kind', hid⟩ := isLive_iff_kind?.mp hlive
  refine (h.grow hp kind).not_isLive_nextId (isLive_iff_kind?.mpr ⟨kind', ?_⟩)
  rw [kind?_grow h hp, if_neg, hid]
  intro heq
  exact h.not_isLive_nextId (heq ▸ hlive)

/-- Growing makes no node loose. -/
theorem isLoose_grow : (t.grow p kind).IsLoose x ↔ t.IsLoose x := by
  simp only [isLoose_iff, isLive_iff_kind?, kind?_grow h hp, parent?_grow h hp]
  by_cases hx : x = t.nextId
  · subst hx
    have hdead : t.kind? t.nextId = none := by
      simp [kind?, node?_nextId h.wellFormed]
    simp [hdead]
  · simp [hx]

end Grow

@[simp] theorem root_grow (t : Tree) (p : NodeId) (kind : NodeKind) :
    (t.grow p kind).root = t.root := rfl

end Targeting.Tree
