import Targeting.Proofs.Group.Edit

/-!
# Editable trees stay editable

Whether a tree can be edited is found out once, when it is read. That it can still be edited after
any number of edits rests on each single edit: whatever it is called with, it leaves a list of
groups within the bounds.

## Main definitions

* `Tree.GroupCall` — a call of an edit of groups, with its arguments
* `Group.Within` — a list of groups with at most as many of each role as allowed

## Main results

* `Tree.GroupCall.shows` — after a call there is a list of groups within the bounds
* `Tree.isEditable_after_groupCall` — editable trees stay editable, under the same root
-/

namespace Targeting

namespace Group

variable {gs : List Group} {limit limit' : GroupRole → Nat} {role : GroupRole} {id : NodeId}

/-- The list has at most as many groups of each role as allowed. -/
def Within (gs : List Group) (limit : GroupRole → Nat) : Prop :=
  ∀ role, gs.countP (fun e => e.role = role) ≤ limit role

theorem Within.mono (h : Within gs limit) (hle : ∀ role, limit role ≤ limit' role) :
    Within gs limit' :=
  fun role => (h role).trans (hle role)

theorem Within.update (h : Within gs limit) (id : NodeId) (f : List String → List String) :
    Within (gs.map (Group.update id f)) limit := by
  intro role
  rw [countP_map_update]
  exact h role

theorem Within.filter (h : Within gs limit) (keep : Group → Bool) :
    Within (gs.filter keep) limit :=
  fun role => (List.filter_sublist.countP_le).trans (h role)

/-- One more group of a role that is not full. -/
theorem Within.append (h : Within gs limit)
    (hroom : gs.countP (fun e => e.role = role) < limit role) :
    Within (gs ++ [⟨role, id, []⟩]) limit := by
  intro role'
  rw [List.countP_append, List.countP_singleton]
  by_cases heq : role = role'
  · subst heq
    rw [if_pos (decide_eq_true rfl)]
    exact Nat.succ_le_of_lt hroom
  · simpa [heq] using h role'

end Group

namespace Tree

variable {t : Tree} {r : NodeId} {gs : List Group} {g : Grammar} {limit : GroupRole → Nat}

/-- A call of an edit of groups. -/
inductive GroupCall where
  | enableTargeting
  | addGroup (role : GroupRole) (root : NodeId)
  | addCategory (group : NodeId) (key : String)
  | removeCategory (group : NodeId) (key : String)
  | removeGroup (group : NodeId)

/-- The call under the bounds of a grammar. -/
def GroupCall.within (g : Grammar) : GroupCall → Call
  | .enableTargeting => .enableTargeting
  | .addGroup role root => .addGroup role root g
  | .addCategory group key => .addCategory group key
  | .removeCategory group key => .removeCategory group key
  | .removeGroup group => .removeGroup group

/-- A property of the structural edits is one of every edit of groups. -/
theorem GroupCall.covered {P : ∀ {α : Type}, Edit α → Prop} (h : Edit.CoversStructuralEdits P)
    (call : GroupCall) (g : Grammar) : P (call.within g).edit := by
  cases call with
  | enableTargeting => exact h.map h.enableTargeting _
  | addGroup role root => exact h.map (h.addGroup role root g) _
  | addCategory group key => exact h.map (h.addCategory group key) _
  | removeCategory group key => exact h.map (h.removeCategory group key) _
  | removeGroup group => exact h.map (h.removeGroup group) _

/-- A call on a list of groups leaves a list of groups. Bounds that are at least those of the
grammar stay respected: only adding a group adds to their number, and it looks at the bounds of the
grammar. -/
theorem GroupCall.shows (call : GroupCall) (h : t.IsForest) (hroot : t.root = some r)
    (hgs : t.groups? = some gs) (hwithin : Group.Within gs limit)
    (hlimit : ∀ role, g.limit role ≤ limit role) :
    ∃ gs', Shows t ((call.within g).edit.on t).2 gs' ∧ Group.Within gs' limit := by
  cases call with
  | enableTargeting =>
    rw [within, Call.edit, Edit.on_map]
    rw [Edit.on_enableTargeting_of_root hroot]
    exact ⟨gs, Shows.refl h hgs, hwithin⟩
  | addGroup role p =>
    rw [within, Call.edit, Edit.on_map]
    obtain ⟨-, hon⟩ | ⟨-, -, hon⟩ | ⟨-, hroom, id, t', hon, -, hshows⟩ :=
      Edit.on_addGroup h hroot hgs role p g
    · rw [hon]
      exact ⟨gs, Shows.refl h hgs, hwithin⟩
    · rw [hon]
      exact ⟨gs, Shows.refl h hgs, hwithin⟩
    · rw [hon]
      refine ⟨_, hshows, ?_⟩
      split
      · next hp =>
        rw [hp, countChildren_eq hroot hgs] at hroom
        exact hwithin.append (hroom.trans_le (hlimit role))
      · exact hwithin
  | addCategory group key =>
    rw [within, Call.edit, Edit.on_map]
    obtain ⟨-, hon⟩ | ⟨-, leaf, t', hon, -, -, hshows⟩ :=
      Edit.on_addCategory h hroot hgs group key
    · rw [hon]
      exact ⟨gs, Shows.refl h hgs, hwithin⟩
    · rw [hon]
      exact ⟨_, hshows, hwithin.update group _⟩
  | removeCategory group key =>
    rw [within, Call.edit, Edit.on_map]
    obtain ⟨-, hon⟩ | ⟨-, b, t', hon, -, hshows⟩ :=
      Edit.on_removeCategory h hroot hgs group key
    · rw [hon]
      exact ⟨gs, Shows.refl h hgs, hwithin⟩
    · rw [hon]
      exact ⟨_, hshows, hwithin.update group _⟩
  | removeGroup group =>
    rw [within, Call.edit, Edit.on_map]
    obtain ⟨-, hon⟩ | ⟨-, b, t', hon, -, hshows⟩ := Edit.on_removeGroup h hroot hgs group
    · rw [hon]
      exact ⟨gs, Shows.refl h hgs, hwithin⟩
    · rw [hon]
      exact ⟨_, hshows, hwithin.filter _⟩

/-- Without a root only enabling gives the tree a root. -/
theorem GroupCall.root_eq_none (call : GroupCall) (h : t.IsForest) (hroot : t.root = none)
    (hcall : call ≠ .enableTargeting) : ((call.within g).edit.on t).2.root = none := by
  have hkept := (Edit.keptByNodeEdits_root none).covers
  cases call with
  | enableTargeting => exact absurd rfl hcall
  | addGroup role p => exact (hkept.map (hkept.addGroup role p g) _ t ⟨h, hroot⟩).2
  | addCategory group key => exact (hkept.map (hkept.addCategory group key) _ t ⟨h, hroot⟩).2
  | removeCategory group key =>
    exact (hkept.map (hkept.removeCategory group key) _ t ⟨h, hroot⟩).2
  | removeGroup group => exact (hkept.map (hkept.removeGroup group) _ t ⟨h, hroot⟩).2

/-- Every edit of groups leaves an editable tree editable under the same root, if the grammar has
room for the inclusion group that a new root begins with. -/
theorem isEditable_after_groupCall (h : t.IsForest) (hedit : t.isEditable g = true)
    (hroom : (∃ r, t.root = some r) ∨ 1 ≤ g.maxInclusionGroups) (call : GroupCall) :
    ((call.within g).edit.on t).2.isEditable g = true ∧
      ∀ r, t.root = some r → ((call.within g).edit.on t).2.root = some r := by
  cases hroot : t.root with
  | some r =>
    obtain hnone | ⟨gs, hgs, hwithin⟩ := isEditable_iff.mp hedit
    · rw [hroot] at hnone
      cases hnone
    · obtain ⟨gs', hshows, hwithin'⟩ := call.shows h hroot hgs hwithin fun _ => le_refl _
      refine ⟨isEditable_iff.mpr (Or.inr ⟨gs', hshows.groups, hwithin'⟩), fun r' hr' => ?_⟩
      rw [hshows.root, hroot, hr']
  | none =>
    refine ⟨?_, fun r hr => by cases hr⟩
    by_cases hcall : call = .enableTargeting
    · subst hcall
      rw [GroupCall.within, Call.edit, Edit.on_map]
      obtain ⟨r, t', id, hon, -, -, -, hgs⟩ := Edit.on_enableTargeting_of_no_root h hroot
      rw [hon]
      refine isEditable_iff.mpr (Or.inr ⟨_, hgs, fun role => ?_⟩)
      cases role with
      | inclusion =>
        rcases hroom with ⟨r', hr'⟩ | hroom
        · rw [hroot] at hr'
          cases hr'
        · exact hroom
      | exclusion => exact Nat.zero_le _
    · exact isEditable_iff.mpr (Or.inl (call.root_eq_none h hroot hcall))

/-- A new exclusion group in a tree with a detached node. -/
theorem isEditable_after_new_exclusion :
    ∃ t : Tree, t.IsForest ∧ t.root = some ⟨0, 0⟩ ∧ t.IsLoose ⟨2, 0⟩ ∧ t.isEditable {} = true ∧
      (((GroupCall.addGroup .exclusion ⟨0, 0⟩).within {}).edit.on t).2.isEditable {} = true ∧
      (((GroupCall.addGroup .exclusion ⟨0, 0⟩).within {}).edit.on t).2.root = some ⟨0, 0⟩ := by
  have h : (after .empty [.enableTargeting, .create .or]).IsForest := isForest_after .empty _
  have hroot : (after .empty [.enableTargeting, .create .or]).root = some ⟨0, 0⟩ := rfl
  have hedit : (after .empty [.enableTargeting, .create .or]).isEditable {} = true := rfl
  obtain ⟨hafter, hsame⟩ :=
    isEditable_after_groupCall h hedit (Or.inl ⟨_, hroot⟩) (.addGroup .exclusion ⟨0, 0⟩)
  exact ⟨_, h, hroot, ⟨_, rfl, rfl⟩, hedit, hafter, hsame _ hroot⟩

end Tree

end Targeting
