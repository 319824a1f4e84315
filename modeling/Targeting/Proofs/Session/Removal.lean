import Targeting.Proofs.Session.Attachment
import Targeting.Proofs.Session.Description

/-!
# Removing a category

A category is removed from a group by its key, and the first one that is found goes. Adding never
puts a key into a group twice, so in a group that was put together by calls the key is gone
afterwards, and removing it once more finds nothing and changes nothing. But expressions that are
loaded can repeat a key in a group. Then the others of the same key stay in force, and it takes as
many calls as there were.

## Main definitions

* `Session.IsGroup`, `Session.categoriesOf` — a group of a session, and its keys
* `Session.HasRemoved` — what becomes of the groups when a category is removed from one
* `Session.IsRepeated`, `Session.IsStoredRepeated` — a group of the session, or of the stored
  expression, has a key more than once

## Main results

* `Session.ShowsGroups.removeCategory` — removing a category from a group
* `Session.IsSound.isRepeated_after` — a key that is repeated was stored so
* `Session.removes_category_iff` — when a category that is removed is gone, in every run
-/

namespace Targeting.Session

open Session.Action

variable {s s' : Session} {t : Tree} {root group : NodeId} {e : Group} {gs : List Group}
  {key : String} {found : Bool}

/-- The node is an `or` in the tree of the session. -/
def IsGroup (s : Session) (group : NodeId) : Prop := ∃ t, s.tree = some t ∧ t.kind? group = some .or

/-- The keys in a group, in order. -/
def categoriesOf (s : Session) (group : NodeId) : List String :=
  (s.tree.map fun t => t.groupCategories group).getD []

/-- The first category with the key has gone from the group, if there was one, and the other keys of
the group and all other groups are as they were. -/
structure HasRemoved (s s' : Session) (group : NodeId) (key : String) (found : Bool) : Prop where
  found_iff : found = true ↔ key ∈ s.categoriesOf group
  erased : s'.categoriesOf group = (s.categoriesOf group).erase key
  ordered : (s'.categoriesOf group).filter (fun name => name ≠ key)
    = (s.categoriesOf group).filter fun name => name ≠ key
  isGroup_iff : ∀ other, s'.IsGroup other ↔ s.IsGroup other
  others : ∀ other, other ≠ group → s.IsGroup other → s'.categoriesOf other = s.categoriesOf other

/-! ### One removal -/

theorem ShowsGroups.isGroup_iff (h : s.ShowsGroups root gs) :
    s.IsGroup group ↔ group ∈ gs.map Group.id := by
  obtain ⟨t, hopen, hgs, hholds⟩ := h.exists_tree
  rw [mem_ids_iff_kind? hholds hgs, IsGroup, hopen.tree]
  simp

theorem ShowsGroups.categoriesOf_eq (h : s.ShowsGroups root gs) (he : e ∈ gs) :
    s.categoriesOf e.id = e.categories := by
  obtain ⟨t, hopen, hgs, hholds⟩ := h.exists_tree
  rw [categoriesOf, hopen.tree, Option.map_some, Option.getD_some,
    Tree.groupCategories_of_mem hholds.root hgs he]

/-- The entries afterwards are those before, but for one key of one entry. -/
theorem ShowsGroups.hasRemoved (h : s.ShowsGroups root gs)
    (h' : s'.ShowsGroups root (gs.map (Group.update e.id (·.erase key)))) (he : e ∈ gs)
    (hfound : found = true ↔ key ∈ e.categories) : s.HasRemoved s' e.id key found := by
  have hkeys := h.categoriesOf_eq he
  have herased : s'.categoriesOf e.id = (s.categoriesOf e.id).erase key := by
    have hafter := h'.categoriesOf_eq (List.mem_map_of_mem he)
    rwa [Group.id_update, Group.categories_update_self, ← hkeys] at hafter
  refine ⟨by rw [hkeys, hfound], herased, ?_, fun other => ?_, fun other hne hother => ?_⟩
  · rw [herased, ← List.erase_filter]
    exact List.erase_of_not_mem (by simp)
  · rw [h.isGroup_iff, h'.isGroup_iff, List.map_map]
    simp [Function.comp_def]
  · obtain ⟨e', he', rfl⟩ := List.mem_map.mp (h.isGroup_iff.mp hother)
    have hafter := h'.categoriesOf_eq (List.mem_map_of_mem he')
    rwa [Group.update_of_ne hne, ← h.categoriesOf_eq he'] at hafter

/-- Removing a category from a group answers whether the group has it. -/
theorem ShowsGroups.removeCategory (h : s.ShowsGroups root gs) (he : e ∈ gs) (key : String) :
    ∃ found s', (removeCategory e.id key).on s = (.ok found, s') ∧
      s.HasRemoved s' e.id key found ∧
      s'.ShowsGroups root (gs.map (Group.update e.id (·.erase key))) ∧
      s' = ((Call.removeCategory e.id key).action.on s).2 := by
  obtain ⟨result, gs', hresult, hdoes, hafter, -⟩ := h.call (.removeCategory e.id key)
  rw [Call.Does, if_pos (List.mem_map_of_mem he)] at hdoes
  obtain ⟨found, hfound, rfl, rfl⟩ := hdoes
  obtain ⟨found', heq, hon⟩ := exists_on_of_map_ok hresult
  cases heq
  refine ⟨found, _, hon, h.hasRemoved hafter he (hfound.trans ⟨?_, fun hkey => ⟨e, he, rfl, hkey⟩⟩),
    hafter, rfl⟩
  -- no other entry has the same identifier
  rintro ⟨e', he', hsame, hkey⟩
  rwa [← List.inj_on_of_nodup_map h.nodup he' he hsame]

/-- Removing a category that the group does not have renews the description and nothing else. -/
theorem ShowsGroups.removeCategory_of_not_mem (h : s.ShowsGroups root gs) (he : e ∈ gs)
    (hkey : key ∉ e.categories) :
    (Session.removeCategory e.id key).on s = (.ok false, s.refreshed) := by
  obtain ⟨t, hopen, hgs, hholds⟩ := h.exists_tree
  have hkind := (mem_ids_iff_kind? hholds hgs e.id).mp (List.mem_map_of_mem he)
  have hmissing := (Tree.findCategory?_id_eq_none_iff hholds.root hgs he key).mpr hkey
  rw [Session.removeCategory, on_edit_of_isOpen hopen hholds.root]
  obtain ⟨hno, -⟩ | ⟨-, -, hon⟩ | ⟨-, leaf, hfind, -⟩ := Edit.removeCategory_cases t e.id key
  · exact absurd hkind hno
  · rw [hon]
    dsimp only
    rw [← hopen.tree]
  · rw [hmissing] at hfind
    cases hfind

/-- Another removal of the same key changes nothing if and only if the group had the key once at
most. -/
theorem IsSound.removeCategory_twice (h : s.IsSound) (hshows : s.ShowsGroups root gs) (he : e ∈ gs)
    (hon : (removeCategory e.id key).on s = (.ok found, s')) :
    (removeCategory e.id key).on s' = (.ok false, s') ↔ e.categories.count key ≤ 1 := by
  obtain ⟨found', s'', hon', -, hafter, hcall⟩ := hshows.removeCategory he key
  cases hon.symm.trans hon'
  -- the same entry without one of the keys
  have hmem := List.mem_map_of_mem (f := Group.update e.id (·.erase key)) he
  have hrest : key ∈ (Group.update e.id (·.erase key) e).categories ↔
      1 < e.categories.count key := by
    rw [Group.categories_update_self, ← List.count_pos_iff, List.count_erase_self]
    omega
  constructor
  · intro htwice
    obtain ⟨found'', s'', hon'', hremoved, -, -⟩ := hafter.removeCategory hmem key
    rw [Group.id_update, htwice] at hon''
    cases hon''
    have hgone := mt hremoved.found_iff.mpr Bool.false_ne_true
    rw [hafter.categoriesOf_eq hmem, hrest] at hgone
    omega
  · intro hcount
    have hagain := hafter.removeCategory_of_not_mem hmem (mt hrest.mp (by omega))
    rw [Group.id_update] at hagain
    rw [hagain, hcall]
    have hok : ((Call.removeCategory e.id key).action.on s).1 = .ok (.found found) := by
      rw [Call.action, on_map, hon]
      rfl
    rw [h.refreshed_eq_self_of_ok hok]

/-! ### Where repeated keys come from -/

/-- A group has the key more than once. -/
def IsRepeated (s : Session) (key : String) : Prop :=
  ∃ gs, s.groups? = some gs ∧ ∃ e ∈ gs, 1 < e.categories.count key

/-- The stored expression is one that can be edited but for its bounds, and a group of it has the
key more than once. -/
def IsStoredRepeated (s : Session) (key : String) : Prop :=
  ∃ shapes, s.settings.expression = (Formula.ofGroups shapes).toJson ∧
    ∃ shape ∈ shapes, 1 < shape.2.count key

/-- Adding a key repeats none. -/
theorem count_insertKey {name : String} {keys : List String}
    (h : 1 < (insertKey name keys).count key) : 1 < keys.count key := by
  unfold insertKey at h
  split at h
  · exact h
  · next hnew =>
    rw [List.count_append, List.count_singleton] at h
    split at h
    · next heq =>
      rw [← beq_iff_eq.mp heq, List.count_eq_zero.mpr hnew] at h
      omega
    · omega

/-- A call repeats no key in any entry. -/
theorem Call.Does.exists_repeated {c : Call} {g : Grammar} {gs' : List Group} {e' : Group}
    {result : Except TreeError Tree.Answer} (h : c.Does g root gs result gs') (he' : e' ∈ gs')
    (hcount : 1 < e'.categories.count key) : ∃ e ∈ gs, 1 < e.categories.count key := by
  obtain hnil | ⟨e, he, hsame | ⟨-, name, -, hadded⟩ | ⟨-, name, -, herased⟩⟩ :=
    h.categories_cases he'
  · rw [hnil] at hcount
    cases hcount
  · exact ⟨e, he, hsame ▸ hcount⟩
  · rw [hadded] at hcount
    exact ⟨e, he, count_insertKey hcount⟩
  · rw [herased] at hcount
    exact ⟨e, he, hcount.trans_le (List.erase_sublist.count_le key)⟩

theorem IsSound.isRepeated_call (h : s.IsSound) (c : Call)
    (hrep : (c.action.on s).2.IsRepeated key) : s.IsRepeated key := by
  obtain ⟨gs', hgs', e', he', hcount⟩ := hrep
  obtain ⟨t, hopen⟩ | ⟨rfl, hinit, hnone⟩ | ⟨e, he⟩ := s.call_cases c
  · obtain ⟨root, gs, hshows⟩ := h.exists_showsGroups (phase_eq_composing_iff.mpr ⟨t, hopen⟩)
    obtain ⟨result, gs'', -, hdoes, hafter, -⟩ := hshows.call c
    cases hgs'.symm.trans hafter.groups
    exact ⟨gs, hshows.groups, hdoes.exists_repeated he' hcount⟩
  · obtain ⟨r, t, id, hholds, hgs, hon⟩ := on_first_enableTargeting hinit hnone
    have hafter := showsGroups_refreshed (s := s.withTree t) ⟨hinit, rfl, rfl⟩ hgs hholds
    rw [hon, hafter.groups] at hgs'
    -- the group that comes with the root has no categories
    cases hgs'
    rw [List.mem_singleton.mp he'] at hcount
    cases hcount
  · rw [on_call_refused he] at hgs'
    exact ⟨gs', hgs', e', he', hcount⟩

/-- After an event, a key that is repeated was repeated before or is stored so. -/
theorem IsSound.isRepeated_event (h : s.IsSound) (event : Event)
    (hrep : (event.action.on s).2.IsRepeated key) : s.IsRepeated key ∨ s.IsStoredRepeated key := by
  cases event with
  | load =>
    rw [Event.action, on_map] at hrep
    obtain ⟨gs, hgs, e, he, hcount⟩ := hrep
    rcases s.load_cases with
      ⟨-, hon⟩ | ⟨f, t, r, -, hexpression, hholds, hon⟩ | ⟨-, -, position, fault, hon⟩
    · rw [hon] at hgs
      cases hgs
    · rw [hon] at hgs
      -- the groups are those of the formula that was read
      have hdenotes := (Tree.exists_groups?_iff hholds.root).mp ⟨gs, hgs, rfl⟩
      cases hholds.denotes.unique hdenotes
      exact Or.inr ⟨_, hexpression, e.shape, List.mem_map_of_mem he, hcount⟩
    · rw [hon] at hgs
      cases hgs
  | refresh =>
    rw [Event.action, on_map] at hrep
    change s.refreshed.IsRepeated key at hrep
    rw [IsRepeated, groups?_refreshed] at hrep
    exact Or.inl hrep
  | consult resolve => exact Or.inl hrep
  | call c => exact Or.inl (h.isRepeated_call c hrep)

/-- After a run, a key that is repeated was repeated before or is stored so. -/
theorem IsSound.isRepeated_after (h : s.IsSound) (events : List Event)
    (hrep : (s.after events).IsRepeated key) : s.IsRepeated key ∨ s.IsStoredRepeated key := by
  induction events generalizing s with
  | nil => exact Or.inl hrep
  | cons event events ih =>
    rcases ih (h.event event) hrep with hold | hstored
    · exact h.isRepeated_event event hold
    · -- events leave the stored settings as they are
      rw [IsStoredRepeated, (h.settings_grammar_event event).1] at hstored
      exact Or.inr hstored

/-! ### Runs -/

/-- In a composing session a category is removed from any group, with an answer that says whether
the group had it; what is left keeps its order. The key is gone, and removing it again changes
nothing, if and only if the group had it once at most. A group has a key more than once only if the
stored expression repeats the key in one of its groups. -/
theorem removes_category_iff (settings : EntitySettings) (grammar : Grammar) (resolve : Resolver)
    (events : List Event) (hrun : (create settings grammar resolve).after events = s)
    (hphase : s.phase = .composing) (hgroup : s.IsGroup group) (key : String) :
    ∃ found s', (removeCategory group key).on s = (.ok found, s') ∧
      s.HasRemoved s' group key found ∧
      (key ∉ s'.categoriesOf group ↔ (s.categoriesOf group).count key ≤ 1) ∧
      ((removeCategory group key).on s' = (.ok false, s') ↔
        (s.categoriesOf group).count key ≤ 1) ∧
      (1 < (s.categoriesOf group).count key → ∃ shapes,
        settings.expression = (Formula.ofGroups shapes).toJson ∧
          ∃ shape ∈ shapes, 1 < shape.2.count key) := by
  have hcreate := isSound_create settings grammar resolve
  have hsound := hcreate.after events
  rw [hrun] at hsound
  obtain ⟨root, gs, hshows⟩ := hsound.exists_showsGroups hphase
  obtain ⟨e, he, rfl⟩ := List.mem_map.mp (hshows.isGroup_iff.mp hgroup)
  obtain ⟨found, s', hon, hremoved, -, -⟩ := hshows.removeCategory he key
  refine ⟨found, s', hon, hremoved, ?_, ?_, fun hcount => ?_⟩
  · rw [hremoved.erased, ← List.count_eq_zero, List.count_erase_self]
    omega
  · rw [hshows.categoriesOf_eq he]
    exact hsound.removeCategory_twice hshows he hon
  · rw [hshows.categoriesOf_eq he] at hcount
    subst hrun
    rcases hcreate.isRepeated_after events ⟨gs, hshows.groups, e, he, hcount⟩ with
      ⟨_, hnone, -⟩ | hstored
    · cases hnone
    · exact hstored

/-- A group that was loaded with a repeated key still has it after the key has been removed. -/
theorem removes_category_iff_repeated :
    ∃ s, (create { targeting := some (.object [("and", .array [.object [("or", .array [
        .object [("category", .string "sport")], .object [("category", .string "sport")]])]])]) }
        {} .none).after [.load] = s ∧ s.phase = .composing ∧ s.IsGroup ⟨1, 0⟩ ∧
      ∃ found s', (removeCategory ⟨1, 0⟩ "sport").on s = (.ok found, s') ∧
        "sport" ∈ s'.categoriesOf ⟨1, 0⟩ ∧
        (removeCategory ⟨1, 0⟩ "sport").on s' ≠ (.ok false, s') := by
  obtain ⟨s, hrun, hphase, hgroup, hcount⟩ : ∃ s, (create { targeting := some (.object [("and",
      .array [.object [("or", .array [.object [("category", .string "sport")],
        .object [("category", .string "sport")]])]])]) } {} .none).after [.load] = s ∧
      s.phase = .composing ∧ s.IsGroup ⟨1, 0⟩ ∧
      ¬ (s.categoriesOf ⟨1, 0⟩).count "sport" ≤ 1 :=
    ⟨_, rfl, by decide +kernel, ⟨_, rfl, by decide +kernel⟩, by decide +kernel⟩
  obtain ⟨found, s', hon, -, hgone, htwice, -⟩ :=
    removes_category_iff _ {} .none [.load] hrun hphase hgroup "sport"
  refine ⟨s, hrun, hphase, hgroup, found, s', hon, not_not.mp (mt hgone.mp hcount), ?_⟩
  exact mt htwice.mp hcount

end Targeting.Session
