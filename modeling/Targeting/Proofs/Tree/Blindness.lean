import Targeting.Proofs.Tree.Run

/-!
# Edits do not see names

Names stand in the same nodes as everything that edits look at. Still no edit looks at a name: on
two trees that differ in names only, every edit gives the same answer, hands out the same
identifiers and leaves trees that again differ in names only. An edit that is composed of others has
this property if they do and if what it reads of the tree in between does not depend on names.

## Main definitions

* `Edit.IsBlind` — an edit that does not depend on names

## Main results

* `Tree.nameless_create`, `Tree.nameless_attach`, `Tree.nameless_release` — the changes of a tree
  commute with erasing names
* `Tree.canAddGroup_nameless` and the equations beside it — what a view asks for has no names in it
* `Edit.IsBlind.bind`, `Edit.IsBlind.get_bind`, `Edit.IsBlind.node_bind` — composed edits
* `Tree.Call.isBlind` — every call is blind
-/

namespace Targeting

namespace Tree

variable {α : Type} {t t' : Tree} {id p c : NodeId} {n : Node}

/-- What can be read of a tree without names is the same for trees that differ in names only. -/
theorem eq_of_nameless_eq {F : Tree → α} (hF : ∀ t, F t.nameless = F t)
    (heq : t'.nameless = t.nameless) : F t' = F t := by
  rw [← hF t', heq, hF]

/-! ### Changes of a tree -/

@[simp] theorem nextId_nameless (t : Tree) : t.nameless.nextId = t.nextId :=
  Arena.nextId_mapValues Node.nameless t.arena

@[simp] theorem size_nameless (t : Tree) : t.nameless.size = t.size :=
  Arena.size_mapValues Node.nameless t.arena

theorem nameless_create (t : Tree) (kind : NodeKind) :
    (t.create kind).2.nameless = (t.nameless.create kind).2 := by
  unfold create nameless
  simp only [Arena.mapValues_insert]
  rfl

theorem nameless_modifyNode_comm (t : Tree) (id : NodeId) {f : Node → Node}
    (hf : ∀ n, (f n).nameless = f n.nameless) :
    (t.modifyNode id f).nameless = t.nameless.modifyNode id f := by
  rw [modifyNode, nameless, Arena.mapValues_modify _ hf, nameless, modifyNode]

theorem nameless_attach (t : Tree) (p c : NodeId) :
    (t.attach p c).nameless = t.nameless.attach p c := by
  -- an edge is stored at both ends, and neither change concerns a name
  have hchild := nameless_modifyNode_comm t c (f := fun n => { n with parent := some p })
    fun _ => rfl
  have hparent := nameless_modifyNode_comm (t.modifyNode c fun n => { n with parent := some p }) p
    (f := fun n => { n with children := n.children ++ [c] }) fun _ => rfl
  rw [attach, hparent, hchild, attach]

theorem nameless_discard (t : Tree) (ids : List NodeId) :
    (t.discard ids).nameless = t.nameless.discard ids := by
  have hfold : ∀ a : Arena Node, (ids.foldl Arena.remove a).mapValues Node.nameless
      = ids.foldl Arena.remove (a.mapValues Node.nameless) := by
    induction ids with
    | nil => exact fun _ => rfl
    | cons id ids ih =>
      intro a
      rw [List.foldl_cons, ih, Arena.mapValues_remove, List.foldl_cons]
  rw [discard, nameless, hfold, nameless, discard]

/-! ### Walks -/

theorem size_branchWithin_nameless (t : Tree) (fuel : Nat) (id : NodeId) :
    (t.nameless.branchWithin fuel id).size = (t.branchWithin fuel id).size := by
  induction fuel generalizing id with
  | zero => rfl
  | succ fuel ih =>
    rw [branchWithin, branchWithin, node?_nameless]
    cases t.node? id with
    | none => rfl
    | some n =>
      simp only [Option.map_some, Branch.size, Branch.sizeAll_eq, List.map_map]
      congr 2
      apply List.map_congr_left
      intro c _
      exact ih c

theorem walkMarked_nameless (t : Tree) (fuel : Nat) (stack : List (NodeId × Bool)) :
    (t.nameless.walkMarked fuel stack).map (·.1) = (t.walkMarked fuel stack).map (·.1) := by
  induction fuel generalizing stack with
  | zero => rfl
  | succ fuel ih =>
    cases stack with
    | nil => rfl
    | cons entry stack =>
      obtain ⟨id, seen⟩ := entry
      have hnode := t.node?_nameless id
      -- a name is read neither to go on nor to list the identifier
      cases hn : t.node? id with
      | none =>
        rw [hn, Option.map_none] at hnode
        simpa only [walkMarked, hn, hnode] using ih stack
      | some n =>
        rw [hn, Option.map_some] at hnode
        cases seen with
        | false =>
          simp only [walkMarked, hn, hnode]
          exact ih _
        | true =>
          simp only [walkMarked, hn, hnode, List.map_cons, ih stack]

theorem nameless_release (t : Tree) (id : NodeId) :
    (t.release id).nameless = t.nameless.release id := by
  have hids : (t.nameless.postorderFrom id).map (·.1) = (t.postorderFrom id).map (·.1) := by
    rw [postorderFrom, postorderFrom, branch, branch, size_nameless, size_branchWithin_nameless,
      walkMarked_nameless]
  rw [release, nameless_discard, release, hids]

theorem ancestors_nameless (t : Tree) (id : NodeId) : t.nameless.ancestors id = t.ancestors id := by
  have hwithin : ∀ (fuel : Nat) (id : NodeId),
      t.nameless.ancestorsWithin fuel id = t.ancestorsWithin fuel id := by
    intro fuel
    induction fuel with
    | zero => exact fun _ => rfl
    | succ fuel ih =>
      intro id
      rw [ancestorsWithin, ancestorsWithin, parent?_nameless]
      cases t.parent? id with
      | none => rfl
      | some parent => exact congrArg (id :: ·) (ih parent)
  have hslots : t.nameless.arena.slots.size = t.arena.slots.size := Array.size_map
  rw [ancestors, hwithin, hslots, ancestors]

/-! ### What a view asks for -/

theorem countChildren_nameless (t : Tree) (p : NodeId) (kind : NodeKind) :
    t.nameless.countChildren p kind = t.countChildren p kind := by
  simp [countChildren]

theorem canAddGroup_nameless (t : Tree) (role : GroupRole) (root : NodeId) (g : Grammar) :
    t.nameless.canAddGroup role root g = t.canAddGroup role root g := by
  simp [canAddGroup, countChildren_nameless]

theorem inclusionGroups_nameless (t : Tree) : t.nameless.inclusionGroups = t.inclusionGroups := by
  simp [inclusionGroups]

theorem exclusionGroup_nameless (t : Tree) : t.nameless.exclusionGroup = t.exclusionGroup := by
  simp [exclusionGroup]

theorem groupCategories_nameless (t : Tree) : t.nameless.groupCategories = t.groupCategories := by
  funext group
  have hkey : t.nameless.categoryKey? = t.categoryKey? := by
    funext id
    rw [categoryKey?, kind?_nameless, categoryKey?]
  rw [groupCategories, children_nameless, hkey, groupCategories]

theorem isEnabled_nameless (t : Tree) : t.nameless.isEnabled = t.isEnabled := by
  simp [isEnabled, inclusionGroups_nameless, exclusionGroup_nameless]

theorem findCategory?_nameless (t : Tree) (group : NodeId) (key : String) :
    t.nameless.findCategory? group key = t.findCategory? group key := by
  simp [findCategory?]

end Tree

namespace Edit

open Targeting.Tree (eq_of_nameless_eq)

variable {α β : Type} {x : Edit α} {t t' : Tree} {id : NodeId}

/-! ### Composed edits -/

/-- On trees that differ in names only, the edit answers alike and leaves trees that differ in names
only. -/
def IsBlind (x : Edit α) : Prop :=
  ∀ t t', t'.nameless = t.nameless →
    (x.on t').1 = (x.on t).1 ∧ (x.on t').2.nameless = (x.on t).2.nameless

namespace IsBlind

theorem pure (a : α) : IsBlind (pure a : Edit α) := fun _ _ heq => ⟨rfl, heq⟩

theorem throw (e : TreeError) : IsBlind (throw e : Edit α) := fun _ _ heq => ⟨rfl, heq⟩

theorem bind {f : α → Edit β} (hx : IsBlind x) (hf : ∀ a, IsBlind (f a)) : IsBlind (x >>= f) := by
  intro t t' heq
  obtain ⟨hresult, hafter⟩ := hx t t' heq
  rw [on_bind, on_bind]
  -- since the results are equal, the edits go on with the same value or fail with the same error
  rcases hon : x.on t with ⟨e | a, u⟩
  · rcases hon' : x.on t' with ⟨e' | a', u'⟩
    · rw [hon, hon'] at hresult hafter
      cases hresult
      exact ⟨rfl, hafter⟩
    · rw [hon, hon'] at hresult
      cases hresult
  · rcases hon' : x.on t' with ⟨e' | a', u'⟩
    · rw [hon, hon'] at hresult
      cases hresult
    · rw [hon, hon'] at hresult hafter
      cases hresult
      exact hf a u u' hafter

theorem map (hx : IsBlind x) (f : α → β) : IsBlind (f <$> x) := by
  rw [map_eq_pure_bind]
  exact hx.bind fun a => .pure (f a)

theorem guard {q : Prop} [Decidable q] {e : TreeError} {f : PUnit → Edit α}
    (hf : IsBlind (f ⟨⟩)) : IsBlind (if q then MonadExcept.throw e >>= f else f ⟨⟩) := by
  split
  · exact (IsBlind.throw e).bind fun _ => hf
  · exact hf

/-- An edit that goes on with something of the tree that names are no part of. -/
theorem get_bind {f : Tree → Edit α} (hf : ∀ t, f t.nameless = f t) (hx : ∀ t, IsBlind (f t)) :
    IsBlind (get >>= f) := by
  intro t t' heq
  rw [on_bind_ok (on_get t), on_bind_ok (on_get t'), eq_of_nameless_eq hf heq]
  exact hx t t t' heq

/-- An edit that goes on with something of a node that its name is no part of. -/
theorem node_bind {f : Node → Edit α} (hf : ∀ n, f n.nameless = f n) (hx : ∀ n, IsBlind (f n)) :
    IsBlind (node id >>= f) := by
  intro t t' heq
  have hnode : (t'.node? id).map Node.nameless = (t.node? id).map Node.nameless := by
    rw [← Tree.node?_nameless, heq, Tree.node?_nameless]
  cases hn : t.node? id with
  | none =>
    rw [hn, Option.map_none, Option.map_eq_none_iff] at hnode
    rw [on_bind_error (on_node_of_not_live hn), on_bind_error (on_node_of_not_live hnode)]
    exact ⟨rfl, heq⟩
  | some n =>
    rw [hn, Option.map_some, Option.map_eq_some_iff] at hnode
    obtain ⟨n', hn', hsame⟩ := hnode
    rw [on_bind_ok (on_node_of_live hn), on_bind_ok (on_node_of_live hn'), ← hf n', hsame, hf]
    exact hx n t t' heq

theorem modify {g : Tree → Tree}
    (hg : ∀ t t', t'.nameless = t.nameless → (g t').nameless = (g t).nameless) :
    IsBlind (modify g : Edit PUnit) := fun t t' heq => ⟨rfl, hg t t' heq⟩

end IsBlind

/-! ### The structural edits -/

theorem isBlind_create (kind : NodeKind) : IsBlind (create kind) := by
  intro t t' heq
  rw [on_create, on_create]
  refine ⟨congrArg Except.ok (eq_of_nameless_eq Tree.nextId_nameless heq), ?_⟩
  rw [Tree.nameless_create, heq, Tree.nameless_create]

theorem isBlind_setRoot (id : NodeId) : IsBlind (setRoot id) := by
  refine IsBlind.node_bind (fun _ => rfl) fun n => .guard fun t t' heq => ?_
  rw [on_bind_ok (on_get t), on_bind_ok (on_get t')]
  have hroot : t'.root = t.root := eq_of_nameless_eq Tree.root_nameless heq
  have hset : ({ t' with root := some id } : Tree).nameless
      = ({ t with root := some id } : Tree).nameless :=
    congrArg (fun u : Tree => { u with root := some id }) heq
  rw [hroot]
  cases t.root with
  | none => exact ⟨rfl, hset⟩
  | some old =>
    dsimp only
    split
    · exact ⟨rfl, heq⟩
    · -- the tree to release from has the new root already
      refine ⟨rfl, ?_⟩
      rw [on_set, on_set, Tree.nameless_release, hset, Tree.nameless_release]

theorem isBlind_appendChild (p c : NodeId) : IsBlind (appendChild p c) := by
  -- the guards look at kinds, parents and the root only
  refine IsBlind.node_bind (fun _ => rfl) fun m => .guard <|
    IsBlind.node_bind (fun _ => rfl) fun n t t' heq => ?_
  rw [on_bind_ok (on_get t), on_bind_ok (on_get t')]
  have hroot : t'.root = t.root := eq_of_nameless_eq Tree.root_nameless heq
  have habove : t'.ancestors p = t.ancestors p :=
    eq_of_nameless_eq (F := fun t => t.ancestors p) (fun t => t.ancestors_nameless p) heq
  rw [hroot, habove]
  dsimp only
  split
  · exact ⟨rfl, heq⟩
  · split
    · exact ⟨rfl, heq⟩
    · refine ⟨rfl, ?_⟩
      rw [on_set, on_set, Tree.nameless_attach, heq, Tree.nameless_attach]

theorem isBlind_removeChild (p c : NodeId) : IsBlind (removeChild p c) := by
  refine IsBlind.node_bind (fun _ => rfl) fun n => ?_
  split
  · have hunlist := fun u : Tree => Tree.nameless_modifyNode_comm u p
      (f := fun m => { m with children := n.children.erase c }) fun _ => rfl
    refine (IsBlind.modify fun t t' heq => ?_).bind fun _ => .pure true
    rw [Tree.nameless_release, hunlist, heq, ← hunlist, Tree.nameless_release]
  · exact .pure false

/-! ### The edits of groups -/

theorem isBlind_kind (id : NodeId) : IsBlind (kind id) :=
  IsBlind.node_bind (fun _ => rfl) fun n => .pure n.kind

theorem isBlind_expectKind (operation : Operation) (expected : NodeKind) (id : NodeId) :
    IsBlind (expectKind operation expected id) := by
  refine (isBlind_kind id).bind fun found => ?_
  split
  · exact .pure ()
  · exact .throw _

/-- A new node is made and put below another one. -/
theorem isBlind_grow {f : NodeId → Edit α} (p : NodeId) (kind : NodeKind)
    (hf : ∀ id, IsBlind (f id)) :
    IsBlind (do let id ← create kind; appendChild p id; f id) :=
  (isBlind_create kind).bind fun id => (isBlind_appendChild p id).bind fun _ => hf id

theorem isBlind_enableTargeting : IsBlind enableTargeting := by
  refine IsBlind.get_bind (fun _ => rfl) fun t => ?_
  split
  · exact .pure _
  · exact (isBlind_create .and).bind fun root => (isBlind_setRoot root).bind fun _ =>
      isBlind_grow root .or fun _ => .pure root

theorem isBlind_addGroup (role : GroupRole) (root : NodeId) (g : Grammar) :
    IsBlind (addGroup role root g) := by
  refine (isBlind_expectKind _ _ root).bind fun _ => IsBlind.get_bind (fun t => ?_) fun t => ?_
  · rw [Tree.canAddGroup_nameless]
  · apply IsBlind.guard
    cases role with
    | inclusion => exact isBlind_grow root .or .pure
    | exclusion => exact isBlind_grow root .not fun wrapper => isBlind_grow wrapper .or .pure

theorem isBlind_addCategory (group : NodeId) (key : String) :
    IsBlind (addCategory group key) := by
  refine (isBlind_expectKind _ _ group).bind fun _ => IsBlind.get_bind (fun t => ?_) fun t => ?_
  · rw [Tree.findCategory?_nameless]
  · split
    · exact .pure _
    · exact isBlind_grow group (.category key) .pure

theorem isBlind_removeCategory (group : NodeId) (key : String) :
    IsBlind (removeCategory group key) := by
  refine (isBlind_expectKind _ _ group).bind fun _ => IsBlind.get_bind (fun t => ?_) fun t => ?_
  · rw [Tree.findCategory?_nameless]
  · split
    · exact isBlind_removeChild group _
    · exact .pure false

theorem isBlind_removeGroup (group : NodeId) : IsBlind (removeGroup group) := by
  refine (isBlind_expectKind _ _ group).bind fun _ => IsBlind.node_bind (fun _ => rfl) fun n => ?_
  split
  · exact .pure false
  · next parent _ =>
    refine (isBlind_kind parent).bind fun found => ?_
    split
    · exact isBlind_removeChild parent group
    · refine IsBlind.node_bind (fun _ => rfl) fun m => ?_
      split
      · exact isBlind_removeChild _ parent
      · exact .pure false

end Edit

/-- No call looks at names, not even the one that writes them. -/
theorem Tree.Call.isBlind (call : Call) : Edit.IsBlind call.edit := by
  cases call with
  | create kind => exact (Edit.isBlind_create kind).map _
  | setRoot id => exact (Edit.isBlind_setRoot id).map _
  | appendChild p c => exact (Edit.isBlind_appendChild p c).map _
  | removeChild p c => exact (Edit.isBlind_removeChild p c).map _
  | enableTargeting => exact Edit.isBlind_enableTargeting.map _
  | addGroup role root g => exact (Edit.isBlind_addGroup role root g).map _
  | addCategory group key => exact (Edit.isBlind_addCategory group key).map _
  | removeCategory group key => exact (Edit.isBlind_removeCategory group key).map _
  | removeGroup group => exact (Edit.isBlind_removeGroup group).map _
  | writeName id name =>
    have hwrite := fun u : Tree => nameless_modifyNode u id
      (f := fun n => { n with displayName := name }) fun _ => rfl
    refine (Edit.IsBlind.modify fun t t' heq => ?_).map _
    rw [hwrite, hwrite, heq]

end Targeting
