import Targeting.Proofs.Group.Roles
import Targeting.Proofs.Session.Groups

/-!
# Nothing is left behind

Calls store nodes before they attach them, and take whole branches away. Still no node of a session
is ever left without a place: whatever has happened, failed calls included, the tree is what hangs
below its root. So a walk lists every node there is, every `or` of a composing session is that of a
group, and a group that is found can be removed.

## Main definitions

* `Tree.IsGroupOf` — an `or` stands where the groups of a role stand

## Main results

* `Tree.Holds.size_eq_length_preorder` — a walk lists as many nodes as there are
* `Session.ShowsGroups.exists_isGroupOf` — every `or` is that of a group
* `Session.leaves_nothing_behind` — both for every run
-/

namespace Targeting

namespace Tree

variable {t : Tree} {r c id : NodeId} {f : Formula} {gs : List Group} {e : Group}
  {role : GroupRole}

/-- An `or` stands where the groups of a role stand: among the inclusion groups, or alone inside a
`not` under the root. -/
def IsGroupOf (t : Tree) (id : NodeId) : GroupRole → Prop
  | .inclusion => id ∈ t.inclusionGroups
  | .exclusion => ∃ root wrapper, t.root = some root ∧ wrapper ∈ t.children root ∧
      t.kind? wrapper = some .not ∧ t.children wrapper = [id]

/-- The `or` of an entry stands where the groups of its role stand. -/
theorem isGroupOf_of_group? (hroot : t.root = some r) (hgs : t.groups? = some gs) (he : e ∈ gs) :
    t.IsGroupOf e.id e.role := by
  obtain ⟨c, hc, hce⟩ := exists_group?_of_mem_groups hroot hgs he
  obtain ⟨⟨hrole, -⟩ | ⟨hrole, hnot, honly⟩, -⟩ := group?_eq_some_iff.mp hce
  · rw [hrole, IsGroupOf, inclusionGroups_eq hroot hgs]
    exact List.mem_map_of_mem (List.mem_filter.mpr ⟨he, decide_eq_true hrole⟩)
  · rw [hrole]
    exact ⟨r, c, hroot, hc, hnot, honly⟩

/-- If there is a single exclusion group, the view shows it. -/
theorem exclusionGroup_of_countP_le_one (hroot : t.root = some r) (hgs : t.groups? = some gs)
    (he : e ∈ gs) (hrole : e.role = .exclusion)
    (hone : gs.countP (fun e => e.role = .exclusion) ≤ 1) : t.exclusionGroup = some e.id := by
  rw [exclusionGroup_eq hroot hgs, ← List.head?_filter]
  have hmem : e ∈ gs.filter fun e => e.role = .exclusion :=
    List.mem_filter.mpr ⟨he, decide_eq_true hrole⟩
  rw [List.countP_eq_length_filter] at hone
  -- a list of one element at most is that of the entry
  generalize (gs.filter fun e => e.role = .exclusion) = entries at hmem hone
  match entries, hmem, hone with
  | [_], hmem, _ => rw [List.mem_singleton.mp hmem]; rfl

/-- A walk from the root lists as many nodes as there are. -/
theorem Holds.size_eq_length_preorder (h : t.Holds r f) : t.size = t.preorder.length := by
  rw [h.isForest.size_eq_length_preorder fun x hx => h.reaches hx, preorder, h.root,
    Option.map_some, Option.getD_some, h.isForest.preorderFrom_eq]

end Tree

namespace Session

open Session.Action

variable {s : Session} {t : Tree} {root id : NodeId} {gs : List Group}

/-- Every `or` of a session that shows a list of groups is that of an entry. -/
theorem ShowsGroups.exists_entry (h : s.ShowsGroups root gs) (htree : s.tree = some t)
    (hkind : t.kind? id = some .or) : ∃ e ∈ gs, e.id = id := by
  obtain ⟨t', hopen, hgs, hholds⟩ := h.exists_tree
  cases hopen.tree.symm.trans htree
  exact List.mem_map.mp ((mem_ids_iff_kind? hholds hgs id).mpr hkind)

theorem ShowsGroups.exists_isGroupOf (h : s.ShowsGroups root gs) (htree : s.tree = some t)
    (hkind : t.kind? id = some .or) : ∃ role, t.IsGroupOf id role := by
  obtain ⟨t', hopen, hgs, hholds⟩ := h.exists_tree
  cases hopen.tree.symm.trans htree
  obtain ⟨e, he, rfl⟩ := h.exists_entry htree hkind
  exact ⟨e.role, Tree.isGroupOf_of_group? hholds.root hgs he⟩

/-- Removing a group that is there finds it. -/
theorem ShowsGroups.removeGroup (h : s.ShowsGroups root gs) (htree : s.tree = some t)
    (hkind : t.kind? id = some .or) : ((removeGroup id).on s).1 = .ok true := by
  obtain ⟨e, he, rfl⟩ := h.exists_entry htree hkind
  obtain ⟨result, gs', hresult, hdoes, -⟩ := h.call (.removeGroup e.id)
  rw [Call.Does, if_pos (List.mem_map_of_mem he)] at hdoes
  rw [hdoes.1] at hresult
  -- the answer of the call is the result of the action in other words
  obtain ⟨found, hfound, hon⟩ := exists_on_of_map_ok hresult
  cases hfound
  rw [hon]

/-- If the grammar allows no second exclusion group, the view shows the groups of every `or`. -/
theorem IsSound.mem_inclusionGroups_or (h : s.IsSound) (hshows : s.ShowsGroups root gs)
    (htree : s.tree = some t) (hsingle : s.grammar.maxExclusionGroups ≤ 1)
    (hkind : t.kind? id = some .or) : id ∈ t.inclusionGroups ∨ t.exclusionGroup = some id := by
  obtain ⟨t', hopen, hgs, hholds⟩ := hshows.exists_tree
  cases hopen.tree.symm.trans htree
  obtain ⟨gs', hgs', hwithin⟩ := h.editable htree hopen.editable
  cases hgs.symm.trans hgs'
  obtain ⟨e, he, rfl⟩ := hshows.exists_entry htree hkind
  have hplace := Tree.isGroupOf_of_group? hholds.root hgs he
  cases hrole : e.role with
  | inclusion =>
    rw [hrole] at hplace
    exact Or.inl hplace
  | exclusion =>
    -- the exception to the bounds is one for inclusion groups only
    have hbound : s.bound .exclusion = s.grammar.maxExclusionGroups := if_neg (by simp)
    have hcount := hwithin .exclusion
    rw [hbound] at hcount
    exact Or.inr (Tree.exclusionGroup_of_countP_le_one hholds.root hgs he hrole
      (hcount.trans hsingle))

/-- Whatever happens to a session, every node of its tree hangs below the root, and a walk lists all
of them. Every `or` of a composing session is that of a group, and removing a group never finds
nothing to remove. -/
theorem leaves_nothing_behind (settings : EntitySettings) (grammar : Grammar)
    (resolve : Resolver) (events : List Event)
    (htree : ((create settings grammar resolve).after events).tree = some t) :
    (∃ root, t.root = some root ∧ ∀ id, t.IsLive id → t.Reaches root id) ∧
    t.size = t.preorder.length ∧
    (((create settings grammar resolve).after events).phase = .composing →
      ∀ id, t.kind? id = some .or → (∃ role, t.IsGroupOf id role) ∧
        (grammar.maxExclusionGroups ≤ 1 → id ∈ t.inclusionGroups ∨ t.exclusionGroup = some id) ∧
        ((removeGroup id).on ((create settings grammar resolve).after events)).1 = .ok true) ∧
    ∀ id, t.kind? id = some .or →
      ((removeGroup id).on ((create settings grammar resolve).after events)).1 ≠ .ok false := by
  have hsound := (isSound_create settings grammar resolve).after events
  obtain ⟨-, hgrammar⟩ := (isSound_create settings grammar resolve).settings_grammar_after events
  -- from here on only soundness matters, not how the session was reached
  generalize (create settings grammar resolve).after events = s at *
  change s.grammar = grammar at hgrammar
  subst hgrammar
  obtain ⟨r, f, hholds⟩ := hsound.holds htree
  have hshown : s.phase = .composing → ∃ gs, s.ShowsGroups r gs := by
    intro hphase
    obtain ⟨t', hopen⟩ := phase_eq_composing_iff.mp hphase
    cases hopen.tree.symm.trans htree
    obtain ⟨gs, hgs, -⟩ := hsound.editable htree hopen.editable
    exact ⟨gs, showsGroups_of_isOpen hopen hgs hholds⟩
  refine ⟨⟨r, hholds.root, fun id hlive => hholds.reaches hlive⟩, hholds.size_eq_length_preorder,
    fun hphase id hkind => ?_, fun id hkind => ?_⟩
  · obtain ⟨gs, hshows⟩ := hshown hphase
    exact ⟨hshows.exists_isGroupOf htree hkind,
      fun hsingle => hsound.mem_inclusionGroups_or hshows htree hsingle hkind,
      hshows.removeGroup htree hkind⟩
  · -- in every other phase the removal is refused
    cases hrefusal : s.phase.refusal? with
    | some e => rw [removeGroup, on_edit_refused hrefusal]; exact nofun
    | none =>
      have hphase : s.phase = .composing := by
        cases hphase : s.phase <;> rw [hphase] at hrefusal <;> first | rfl | cases hrefusal
      obtain ⟨gs, hshows⟩ := hshown hphase
      rw [hshows.removeGroup htree hkind]
      exact nofun

/-- A vacated slot is used again, and a stale identifier has been tried in between. -/
theorem leaves_nothing_behind_of_vacated_slots :
    ∃ t, ((create {} {} .none).after [.load, .call .enableTargeting,
        .call (.addGroup .exclusion), .call (.addCategory ⟨3, 0⟩ "sport"),
        .call (.removeGroup ⟨3, 0⟩), .call (.addCategory ⟨3, 0⟩ "news"),
        .call (.addGroup .exclusion)]).tree = some t ∧
      t.size = t.preorder.length ∧ t.size = 4 := by
  have hsize : (((create {} {} .none).after [.load, .call .enableTargeting,
      .call (.addGroup .exclusion), .call (.addCategory ⟨3, 0⟩ "sport"),
      .call (.removeGroup ⟨3, 0⟩), .call (.addCategory ⟨3, 0⟩ "news"),
      .call (.addGroup .exclusion)]).tree.map Tree.size) = some 4 := by
    decide +kernel
  obtain ⟨t, htree, hfour⟩ := Option.map_eq_some_iff.mp hsize
  exact ⟨t, htree, (leaves_nothing_behind {} {} .none _ htree).2.1, hfour⟩

end Session

end Targeting
