import Targeting.Proofs.Session.Sound

/-!
# A session is a list of groups

To whoever edits it, a session is an ordered list of groups, and each call acts on this list: it
adds an entry at the end, removes one, or changes the categories of one. The slots, generations and
parents of the tree below cannot be told from the list, except for the identifiers of new nodes.

## Main definitions

* `Session.groups?` — the list of groups of a session
* `Session.ShowsGroups` — a session whose tree is a list of groups and nothing else
* `Session.Call.Does` — what a call answers, and the list of groups afterwards

## Main results

* `Session.Call.Does.categories_cases` — where the categories of an entry come from
* `Session.acts_on_groups` — in every composing session that events reach, each call acts on the
  list alone
-/

namespace Targeting.Session

open Session.Action

variable {s s' : Session} {t t' : Tree} {r root : NodeId} {f : Formula} {gs gs' : List Group}
  {g : Grammar}

/-! ### The list and what calls do to it -/

/-- The list of groups of a session. -/
def groups? (s : Session) : Option (List Group) := s.tree.bind Tree.groups?

/-- The session lets its tree be edited, and the tree is the list of groups below the root and
nothing else. -/
structure ShowsGroups (s : Session) (root : NodeId) (gs : List Group) : Prop where
  phase : s.phase = .composing
  root_eq : s.root = some root
  groups : s.groups? = some gs
  nodup : (gs.map Group.id).Nodup
  holds : ∃ t, s.tree = some t ∧ t.Holds root (.ofGroups (gs.map Group.shape))

/-- The reason to refuse an identifier that is not that of an `or`. -/
def IsKindError (operation : Operation) (id : NodeId) (e : TreeError) : Prop :=
  e = .nodeNotFound id ∨ ∃ found, found ≠ .or ∧ e = .wrongKind operation found

/-- What a call answers, and the list of groups afterwards. Only which identifier a new node gets is
left open, apart from that of a group being one that no entry has. -/
def Call.Does (g : Grammar) (root : NodeId) (gs : List Group)
    (result : Except TreeError Tree.Answer) (gs' : List Group) : Call → Prop
  | .enableTargeting => result = .ok (.node root) ∧ gs' = gs
  | .addGroup role =>
    if gs.countP (fun e => e.role = role) < g.limit role then
      ∃ id, id ∉ gs.map Group.id ∧ result = .ok (.node id) ∧ gs' = gs ++ [⟨role, id, []⟩]
    else result = .error (.groupLimitReached role (g.limit role)) ∧ gs' = gs
  | .addCategory group key =>
    if group ∈ gs.map Group.id then
      ∃ leaf, result = .ok (.node leaf) ∧ gs' = gs.map (Group.update group (insertKey key))
    else ∃ e, IsKindError .addCategory group e ∧ result = .error e ∧ gs' = gs
  | .removeCategory group key =>
    if group ∈ gs.map Group.id then
      ∃ b, (b = true ↔ ∃ e ∈ gs, e.id = group ∧ key ∈ e.categories) ∧
        result = .ok (.found b) ∧ gs' = gs.map (Group.update group (·.erase key))
    else ∃ e, IsKindError .removeCategory group e ∧ result = .error e ∧ gs' = gs
  | .removeGroup group =>
    if group ∈ gs.map Group.id then
      result = .ok (.found true) ∧ gs' = gs.filter (fun e => e.id ≠ group)
    else ∃ e, IsKindError .removeGroup group e ∧ result = .error e ∧ gs' = gs

/-- An entry of the list after a call has no categories yet, or it has those of an entry before:
as they were, with the key that the call adds, or without the key that it removes. -/
theorem Call.Does.categories_cases {c : Call} {result : Except TreeError Tree.Answer} {e' : Group}
    (h : c.Does g root gs result gs') (he' : e' ∈ gs') :
    e'.categories = [] ∨ ∃ e ∈ gs, e'.categories = e.categories ∨
      (∃ group key, c = .addCategory group key ∧ e'.categories = insertKey key e.categories) ∨
      ∃ group key, c = .removeCategory group key ∧ e'.categories = e.categories.erase key := by
  by_cases hold : e' ∈ gs
  · exact Or.inr ⟨e', hold, Or.inl rfl⟩
  -- an entry that was not there before is a new or a changed one
  cases c with
  | enableTargeting =>
    obtain ⟨-, rfl⟩ := h
    exact absurd he' hold
  | addGroup role =>
    rw [Does] at h
    split at h
    · obtain ⟨id, -, -, rfl⟩ := h
      have hnew := (List.mem_append.mp he').resolve_left hold
      rw [List.mem_singleton.mp hnew]
      exact Or.inl rfl
    · obtain ⟨-, rfl⟩ := h
      exact absurd he' hold
  | addCategory group key =>
    rw [Does] at h
    split at h
    · obtain ⟨leaf, -, rfl⟩ := h
      obtain ⟨e, he, hkeys⟩ := Group.exists_of_mem_map_update he'
      exact Or.inr ⟨e, he, hkeys.imp_right fun hadded => Or.inl ⟨group, key, rfl, hadded⟩⟩
    · obtain ⟨-, -, -, rfl⟩ := h
      exact absurd he' hold
  | removeCategory group key =>
    rw [Does] at h
    split at h
    · obtain ⟨b, -, -, rfl⟩ := h
      obtain ⟨e, he, hkeys⟩ := Group.exists_of_mem_map_update he'
      exact Or.inr ⟨e, he, hkeys.imp_right fun herased => Or.inr ⟨group, key, rfl, herased⟩⟩
    · obtain ⟨-, -, -, rfl⟩ := h
      exact absurd he' hold
  | removeGroup group =>
    rw [Does] at h
    split at h
    · obtain ⟨-, rfl⟩ := h
      exact absurd (List.mem_of_mem_filter he') hold
    · obtain ⟨-, -, -, rfl⟩ := h
      exact absurd he' hold

/-! ### Calls on a tree that is a list of groups -/

section Tree

variable (hholds : t.Holds root f) (hgs : t.groups? = some gs)
include hholds hgs

/-- Every `or` is that of an entry. -/
theorem mem_ids_iff_kind? (id : NodeId) : id ∈ gs.map Group.id ↔ t.kind? id = some .or := by
  constructor
  · intro hmem
    obtain ⟨e, he, rfl⟩ := List.mem_map.mp hmem
    obtain ⟨c, -, hce⟩ := Tree.exists_group?_of_mem_groups hholds.root hgs he
    exact Tree.kind?_id_of_group? hce
  · intro hkind
    refine (Tree.mem_ids_iff_of_kind? hholds.isForest hholds.root hgs hkind).mpr ?_
    exact hholds.reaches (Tree.isLive_of_kind? hkind)

omit hholds hgs in
theorem isKindError_kindError {operation : Operation} {id : NodeId}
    (h : t.kind? id ≠ some .or) : IsKindError operation id (t.kindError operation id) := by
  unfold Tree.kindError
  cases hkind : t.kind? id with
  | none => exact Or.inl rfl
  | some found =>
    refine Or.inr ⟨found, ?_, rfl⟩
    rintro rfl
    exact h hkind

/-- A call acts on the list of groups; a call that fails leaves the tree as it was. -/
theorem Call.does (c : Call) :
    ∃ gs', c.Does g root gs (((c.groupCall root).within g).edit.on t).1 gs' ∧
      t.Shows (((c.groupCall root).within g).edit.on t).2 gs' ∧
      ∀ e, (((c.groupCall root).within g).edit.on t).1 = .error e →
        (((c.groupCall root).within g).edit.on t).2 = t := by
  have h := hholds.isForest
  have hroot := hholds.root
  have hrefl := Tree.Shows.refl h hgs
  have hids := mem_ids_iff_kind? hholds hgs
  cases c with
  | enableTargeting =>
    rw [groupCall, Tree.GroupCall.within, Tree.Call.edit, Edit.on_map]
    rw [Edit.on_enableTargeting_of_root hroot]
    exact ⟨gs, ⟨rfl, rfl⟩, hrefl, fun _ _ => rfl⟩
  | addGroup role =>
    rw [groupCall, Tree.GroupCall.within, Tree.Call.edit, Edit.on_map]
    have hcount := Tree.countChildren_eq hroot hgs role
    obtain ⟨hno, -⟩ | ⟨-, hfull, hon⟩ | ⟨-, hroom, id, t', hon, hnew, hshows⟩ :=
      Edit.on_addGroup h hroot hgs role root g
    · exact absurd (Tree.kind?_root_of_groups? hroot hgs) hno
    · rw [hon]
      refine ⟨gs, ?_, hrefl, fun _ _ => rfl⟩
      rw [Does, if_neg (Nat.not_lt.mpr (hcount ▸ hfull))]
      exact ⟨rfl, rfl⟩
    · rw [hon]
      rw [if_pos rfl] at hshows
      refine ⟨_, ?_, hshows, fun _ hfail => by cases hfail⟩
      rw [Does, if_pos (hcount ▸ hroom)]
      -- an entry with the new identifier would have had a live node before
      exact ⟨id, fun hmem => hnew (Tree.isLive_of_kind? ((hids id).mp hmem)), rfl, rfl⟩
  | addCategory group key =>
    rw [groupCall, Tree.GroupCall.within, Tree.Call.edit, Edit.on_map]
    obtain ⟨hno, hon⟩ | ⟨hkind, leaf, t', hon, -, -, hshows⟩ :=
      Edit.on_addCategory h hroot hgs group key
    · rw [hon]
      refine ⟨gs, ?_, hrefl, fun _ _ => rfl⟩
      rw [Does, if_neg (mt (hids group).mp hno)]
      exact ⟨_, isKindError_kindError hno, rfl, rfl⟩
    · rw [hon]
      refine ⟨_, ?_, hshows, fun _ hfail => by cases hfail⟩
      rw [Does, if_pos ((hids group).mpr hkind)]
      exact ⟨leaf, rfl, rfl⟩
  | removeCategory group key =>
    rw [groupCall, Tree.GroupCall.within, Tree.Call.edit, Edit.on_map]
    obtain ⟨hno, hon⟩ | ⟨hkind, b, t', hon, hb, hshows⟩ :=
      Edit.on_removeCategory h hroot hgs group key
    · rw [hon]
      refine ⟨gs, ?_, hrefl, fun _ _ => rfl⟩
      rw [Does, if_neg (mt (hids group).mp hno)]
      exact ⟨_, isKindError_kindError hno, rfl, rfl⟩
    · rw [hon]
      refine ⟨_, ?_, hshows, fun _ hfail => by cases hfail⟩
      rw [Does, if_pos ((hids group).mpr hkind)]
      refine ⟨b, ?_, rfl, rfl⟩
      constructor
      · intro htrue
        obtain ⟨e, he, hid⟩ := List.mem_map.mp ((hids group).mpr hkind)
        exact ⟨e, he, hid, (hb e he hid).mp htrue⟩
      · rintro ⟨e, he, hid, hkey⟩
        exact (hb e he hid).mpr hkey
  | removeGroup group =>
    rw [groupCall, Tree.GroupCall.within, Tree.Call.edit, Edit.on_map]
    obtain ⟨hno, hon⟩ | ⟨hkind, b, t', hon, hb, hshows⟩ := Edit.on_removeGroup h hroot hgs group
    · rw [hon]
      refine ⟨gs, ?_, hrefl, fun _ _ => rfl⟩
      rw [Does, if_neg (mt (hids group).mp hno)]
      exact ⟨_, isKindError_kindError hno, rfl, rfl⟩
    · -- nothing but entries has an `or`, so the answer is never no
      rw [hon, hb ((hids group).mpr hkind)]
      refine ⟨_, ?_, hshows, fun _ hfail => by cases hfail⟩
      rw [Does, if_pos ((hids group).mpr hkind)]
      exact ⟨rfl, rfl⟩

end Tree

/-! ### Calls on a session -/

/-- An open session whose tree is a list of groups shows this list. -/
theorem showsGroups_of_isOpen (hopen : s.IsOpen t) (hgs : t.groups? = some gs)
    (hholds : t.Holds root f) : s.ShowsGroups root gs where
  phase := phase_eq_composing_iff.mpr ⟨t, hopen⟩
  root_eq := by rw [Session.root, hopen.tree, Option.bind_some, hholds.root]
  groups := by rw [groups?, hopen.tree, Option.bind_some, hgs]
  nodup := Tree.nodup_ids_of_groups? hholds.isForest hholds.root hgs
  holds := ⟨t, hopen.tree, hholds.of_shows (.refl hholds.isForest hgs)⟩

/-- A composing session shows a list of groups. -/
theorem IsSound.exists_showsGroups (h : s.IsSound) (hphase : s.phase = .composing) :
    ∃ root gs, s.ShowsGroups root gs := by
  obtain ⟨t, hopen⟩ := phase_eq_composing_iff.mp hphase
  obtain ⟨root, f, hholds⟩ := h.holds hopen.tree
  obtain ⟨gs, hgs, -⟩ := h.editable hopen.tree hopen.editable
  exact ⟨root, gs, showsGroups_of_isOpen hopen hgs hholds⟩

/-- The tree of a session that shows a list of groups. -/
theorem ShowsGroups.exists_tree (h : s.ShowsGroups root gs) :
    ∃ t, s.IsOpen t ∧ t.groups? = some gs ∧ t.Holds root (.ofGroups (gs.map Group.shape)) := by
  obtain ⟨t, hopen⟩ := phase_eq_composing_iff.mp h.phase
  obtain ⟨t', htree, hholds⟩ := h.holds
  cases hopen.tree.symm.trans htree
  refine ⟨t, hopen, ?_, hholds⟩
  rw [← h.groups, groups?, hopen.tree, Option.bind_some]

theorem groups?_refreshed (s : Session) : s.refreshed.groups? = s.groups? := by
  rw [groups?, groups?, tree_refreshed]
  cases s.tree with
  | none => rfl
  | some t =>
    have hnameless := t.nameless_resolveNames s.resolve
    rw [Option.map_some, Option.bind_some, Option.bind_some]
    ext gs
    exact ⟨Tree.groups?_eq_of_nameless_eq hnameless.symm,
      Tree.groups?_eq_of_nameless_eq hnameless⟩

/-- Describing the tree anew keeps the list of groups. -/
theorem showsGroups_refreshed (hopen : s.IsOpen t) (hgs : t.groups? = some gs)
    (hholds : t.Holds root f) : s.refreshed.ShowsGroups root gs := by
  have hnameless := t.nameless_resolveNames s.resolve
  refine showsGroups_of_isOpen (t := t.resolveNames s.resolve) ⟨?_, ?_, ?_⟩
    (Tree.groups?_eq_of_nameless_eq hnameless hgs) (hholds.of_nameless_eq hnameless)
  · rw [initialized_refreshed, hopen.initialized]
  · rw [editable_refreshed, hopen.editable]
  · rw [tree_refreshed, hopen.tree, Option.map_some]

/-- A call on a session that shows a list of groups acts on this list, and after a failure the
session is what it was. -/
theorem ShowsGroups.call (h : s.ShowsGroups root gs) (c : Call) :
    ∃ result gs', (c.action.on s).1 = result.mapError SessionError.tree ∧
      c.Does s.grammar root gs result gs' ∧ (c.action.on s).2.ShowsGroups root gs' ∧
      ∀ e, result = .error e → (c.action.on s).2 = s := by
  obtain ⟨t, hopen, hgs, hholds⟩ := h.exists_tree
  obtain ⟨gs', hdoes, hshows, hfail⟩ : ∃ gs', c.Does s.grammar root gs
      (((c.groupCall root).within s.grammar).edit.on t).1 gs' ∧ _ := c.does hholds hgs
  rw [on_call_of_isOpen hopen hholds.root]
  rcases hrun : ((c.groupCall root).within s.grammar).edit.on t with ⟨e | a, t'⟩
  · rw [hrun] at hdoes hshows hfail
    have hsame := hfail e rfl
    refine ⟨_, gs', rfl, hdoes, ?_, fun _ _ => ?_⟩
    · exact showsGroups_of_isOpen (hopen.with_tree t') hshows.groups (hholds.of_shows hshows)
    · dsimp only at hsame ⊢
      rw [hsame, ← hopen.tree]
  · rw [hrun] at hdoes hshows
    refine ⟨_, gs', rfl, hdoes, ?_, fun e he => by cases he⟩
    exact showsGroups_refreshed (hopen.with_tree t') hshows.groups (hholds.of_shows hshows)

/-- A composing session is a list of groups, and each call acts on this list and on nothing else:
the root, the stored settings and the grammar stay, and after a failure the session is what it
was. -/
theorem acts_on_groups (settings : EntitySettings) (grammar : Grammar) (resolve : Resolver)
    (events : List Event)
    (hphase : ((create settings grammar resolve).after events).phase = .composing) :
    ∃ root gs, ((create settings grammar resolve).after events).ShowsGroups root gs ∧
      ∀ c : Call, ∃ result gs',
        (c.action.on ((create settings grammar resolve).after events)).1
          = result.mapError SessionError.tree ∧
        c.Does grammar root gs result gs' ∧
        (c.action.on ((create settings grammar resolve).after events)).2.ShowsGroups root gs' ∧
        (c.action.on ((create settings grammar resolve).after events)).2.settings = settings ∧
        (c.action.on ((create settings grammar resolve).after events)).2.grammar = grammar ∧
        ∀ e, result = .error e → (c.action.on ((create settings grammar resolve).after events)).2
          = (create settings grammar resolve).after events := by
  have hsound := (isSound_create settings grammar resolve).after events
  obtain ⟨hsettings, hgrammar⟩ :=
    (isSound_create settings grammar resolve).settings_grammar_after events
  -- from here on only soundness matters, not how the session was reached
  generalize (create settings grammar resolve).after events = s at *
  change s.settings = settings at hsettings
  change s.grammar = grammar at hgrammar
  subst hsettings hgrammar
  obtain ⟨t, hopen⟩ := phase_eq_composing_iff.mp hphase
  obtain ⟨root, f, hholds⟩ := hsound.holds hopen.tree
  obtain ⟨gs, hgs, -⟩ := hsound.editable hopen.tree hopen.editable
  have hshows := showsGroups_of_isOpen hopen hgs hholds
  refine ⟨root, gs, hshows, fun c => ?_⟩
  obtain ⟨result, gs', hresult, hdoes, hafter, hfail⟩ := hshows.call c
  have hkept := hsound.settings_grammar_event (.call c)
  rw [Event.action] at hkept
  exact ⟨result, gs', hresult, hdoes, hafter, hkept.1, hkept.2, hfail⟩

/-- The exclusion group of a session is removed by the identifier of its `or`. -/
theorem acts_on_groups_removing_exclusion :
    ((create {} {} .none).after
      [.load, .call .enableTargeting, .call (.addGroup .exclusion)]).phase = .composing ∧
    ∃ root gs, ((create {} {} .none).after
        [.load, .call .enableTargeting, .call (.addGroup .exclusion)]).ShowsGroups root gs ∧
      ∃ result gs', (Call.removeGroup ⟨3, 0⟩).Does {} root gs result gs' ∧
        ((Call.removeGroup ⟨3, 0⟩).action.on ((create {} {} .none).after
          [.load, .call .enableTargeting, .call (.addGroup .exclusion)])).2.ShowsGroups
            root gs' := by
  have hphase : ((create {} {} .none).after
      [.load, .call .enableTargeting, .call (.addGroup .exclusion)]).phase = .composing := by
    decide
  obtain ⟨root, gs, hshows, hcalls⟩ := acts_on_groups {} {} .none _ hphase
  obtain ⟨result, gs', -, hdoes, hshows', -⟩ := hcalls (.removeGroup ⟨3, 0⟩)
  exact ⟨hphase, root, gs, hshows, result, gs', hdoes, hshows'⟩

end Targeting.Session
