import Targeting.Proofs.Session.Groups

/-!
# Room for another group

A view asks whether a group can be added before it offers to add one. The answer is read off the
session, whereas the call looks at the kind of the root as well and finds out for itself what phase
the session is in. They agree in every session, since a tree that may be edited is a list of groups
below an `and`.

## Main definitions

* `Session.HasOneMore` — the root of a later session has one more child for a role

## Main results

* `Session.ShowsGroups.canAddGroup_iff` — there is room if the grammar allows one more entry
* `Session.IsSound.addGroup_cases` — a group is added if there is room, and otherwise refused
* `Session.canAddGroup_iff_addGroup` — what this means in every run
-/

namespace Targeting.Session

open Session.Action

variable {s s' : Session} {root id : NodeId} {gs : List Group} {role : GroupRole}

/-- Both sessions hold a tree under the same root, which in the second one has one more child of the
kind that stands for a role, and as many of the other kind. -/
def HasOneMore (s s' : Session) (role : GroupRole) : Prop :=
  ∃ t t' root, s.tree = some t ∧ s'.tree = some t' ∧ t.root = some root ∧ t'.root = some root ∧
    ∀ role', t'.countChildren root role'.marker
      = t.countChildren root role'.marker + if role' = role then 1 else 0

/-- Only a session that may be edited has room. -/
theorem phase_eq_composing_of_canAddGroup (h : s.canAddGroup role = true) :
    s.phase = .composing := by
  simp only [canAddGroup, Bool.and_eq_true, Option.any_eq_true] at h
  obtain ⟨⟨hinit, hedit⟩, t, htree, -⟩ := h
  exact phase_eq_composing_iff.mpr ⟨t, hinit, hedit, htree⟩

/-- There is room for a group if the grammar allows more entries of its role. -/
theorem ShowsGroups.canAddGroup_iff (h : s.ShowsGroups root gs) :
    s.canAddGroup role = true ↔ gs.countP (fun e => e.role = role) < s.grammar.limit role := by
  obtain ⟨t, hopen, hgs, hholds⟩ := h.exists_tree
  rw [← Tree.countChildren_eq hholds.root hgs, canAddGroup, hopen.initialized, hopen.editable,
    hopen.tree, Option.any_some, hholds.root, Option.any_some, Tree.canAddGroup]
  simp

/-- One more entry is one more child of the root. -/
theorem ShowsGroups.hasOneMore (h : s.ShowsGroups root gs)
    (h' : s'.ShowsGroups root (gs ++ [⟨role, id, []⟩])) : s.HasOneMore s' role := by
  obtain ⟨t, hopen, hgs, hholds⟩ := h.exists_tree
  obtain ⟨t', hopen', hgs', hholds'⟩ := h'.exists_tree
  refine ⟨t, t', root, hopen.tree, hopen'.tree, hholds.root, hholds'.root, fun role' => ?_⟩
  rw [Tree.countChildren_eq hholds.root hgs, Tree.countChildren_eq hholds'.root hgs',
    List.countP_append, List.countP_singleton]
  simp only [decide_eq_true_eq, @eq_comm _ role]

/-- If there is room, a group is added. -/
theorem ShowsGroups.addGroup_of_room (h : s.ShowsGroups root gs)
    (hroom : s.canAddGroup role = true) :
    ∃ id s', (addGroup role).on s = (.ok id, s') ∧ s.HasOneMore s' role := by
  obtain ⟨result, gs', hresult, hdoes, hafter, -⟩ := h.call (.addGroup role)
  rw [Call.Does, if_pos (h.canAddGroup_iff.mp hroom)] at hdoes
  obtain ⟨id, -, rfl, rfl⟩ := hdoes
  obtain ⟨id', -, hon⟩ := exists_on_of_map_ok hresult
  exact ⟨id', _, hon, h.hasOneMore hafter⟩

/-- Without room, a group is refused. -/
theorem ShowsGroups.addGroup_of_full (h : s.ShowsGroups root gs)
    (hfull : s.canAddGroup role = false) :
    (addGroup role).on s
      = (.error (.tree (.groupLimitReached role (s.grammar.limit role))), s) := by
  have hcount := mt h.canAddGroup_iff.mpr (Bool.eq_false_iff.mp hfull)
  obtain ⟨result, gs', hresult, hdoes, -, hsame⟩ := h.call (.addGroup role)
  rw [Call.Does, if_neg hcount] at hdoes
  obtain ⟨rfl, rfl⟩ := hdoes
  have hon := on_of_map_error (x := addGroup role) hresult
  rwa [← Call.action, hsame _ rfl] at hon

/-- A group is added if there is room. Otherwise it is refused, for the reason that the phase gives
or because the grammar allows no more, and the session stays as it was. -/
theorem IsSound.addGroup_cases (h : s.IsSound) (role : GroupRole) :
    (s.canAddGroup role = true ∧
      ∃ id s', (addGroup role).on s = (.ok id, s') ∧ s.HasOneMore s' role) ∨
    (s.canAddGroup role = false ∧ ∃ e, (addGroup role).on s = (.error e, s) ∧
      (s.phase.refusal? = some e ∨
        e = .tree (.groupLimitReached role (s.grammar.limit role)))) := by
  by_cases hphase : s.phase = .composing
  · obtain ⟨root, gs, hshows⟩ := h.exists_showsGroups hphase
    cases hroom : s.canAddGroup role with
    | true => exact Or.inl ⟨rfl, hshows.addGroup_of_room hroom⟩
    | false => exact Or.inr ⟨rfl, _, hshows.addGroup_of_full hroom, Or.inr rfl⟩
  · have hno : ¬ s.canAddGroup role = true := mt phase_eq_composing_of_canAddGroup hphase
    obtain ⟨e, he⟩ : ∃ e, s.phase.refusal? = some e := by
      cases hother : s.phase <;> first | exact ⟨_, rfl⟩ | exact absurd hother hphase
    refine Or.inr ⟨Bool.eq_false_iff.mpr hno, e, ?_, Or.inl he⟩
    rw [addGroup, on_bind, on_get]
    exact on_edit_refused he _

/-- In every session that events reach, there is room for a group of a role if and only if adding
one succeeds, and then the root has one more child of the kind of the role and as many of the other
kind. Where there is no room the session stays as it was. -/
theorem canAddGroup_iff_addGroup (settings : EntitySettings) (grammar : Grammar)
    (resolve : Resolver) (events : List Event) (role : GroupRole)
    (hrun : (create settings grammar resolve).after events = s) :
    (s.canAddGroup role = true ↔ ∃ id, ((addGroup role).on s).1 = .ok id) ∧
    (∀ id s', (addGroup role).on s = (.ok id, s') → s.HasOneMore s' role) ∧
    (s.canAddGroup role = false → ((addGroup role).on s).2 = s) := by
  have hsound := (isSound_create settings grammar resolve).after events
  rw [hrun] at hsound
  obtain ⟨hroom, id, s', hon, hmore⟩ | ⟨hfull, e, hon, -⟩ := hsound.addGroup_cases role
  · rw [hon, hroom]
    refine ⟨⟨fun _ => ⟨id, rfl⟩, fun _ => rfl⟩, fun id' s'' heq => ?_, nofun⟩
    cases heq
    exact hmore
  · rw [hon, hfull]
    exact ⟨⟨nofun, nofun⟩, nofun, fun _ => rfl⟩

/-- A session with more inclusion groups than its grammar allows has room for an exclusion group. -/
theorem canAddGroup_iff_addGroup_overfull :
    ∃ s, (create {} { maxInclusionGroups := 0 } .none).after
        [.load, .call .enableTargeting] = s ∧
      (∀ id, ((addGroup .inclusion).on s).1 ≠ .ok id) ∧
      ∃ id s', (addGroup .exclusion).on s = (.ok id, s') ∧ s.HasOneMore s' .exclusion := by
  refine ⟨_, rfl, fun id hok => ?_, _, _, rfl, ?_⟩
  · have hroom := (canAddGroup_iff_addGroup {} { maxInclusionGroups := 0 } .none
      [.load, .call .enableTargeting] .inclusion rfl).1.mpr ⟨id, hok⟩
    exact absurd hroom (by decide)
  · exact (canAddGroup_iff_addGroup {} { maxInclusionGroups := 0 } .none
      [.load, .call .enableTargeting] .exclusion rfl).2.1 _ _ rfl

end Targeting.Session
