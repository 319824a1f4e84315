import Targeting.Proofs.Group.Outline
import Targeting.Proofs.Group.Roles
import Targeting.Proofs.Session.Groups

/-!
# Revisions

A view finds the groups of a session at their places and edits what it finds there. Such a revision
does to the outline of the session what its call does to the list of groups, and but for identifiers
its outcome depends on the outline alone.

## Main definitions

* `Revision`, `Session.revise` — an edit by place, and what becomes of a session
* `Outline.revise` — the outcome of a revision and the outline afterwards
* `Session.ShowsOutline` — a session with the given outline

## Main results

* `Session.ShowsOutline.revise` — a revision does to a session what it does to the outline
-/

namespace Targeting

/-- An edit of a session that names groups by their places. -/
inductive Revision where
  | enableTargeting
  | addGroup (role : GroupRole)
  | change (place : Place) (change : Change)

/-- What comes of a revision but for identifiers. Nothing comes of one that is skipped, because
there is no group at its place. -/
abbrev Outcome := Option (Except SessionError (Option Bool))

/-- The outcome of a revision and the outline afterwards. Without an outline there is nothing to
edit yet. -/
def Outline.revise (g : Grammar) : Revision → Option Outline → Outcome × Option Outline
  | .enableTargeting, none => (some (.ok none), some [(.inclusion, [])])
  | .enableTargeting, some o => (some (.ok none), some o)
  | .addGroup _, none => (some (.error .targetingNotEnabled), none)
  | .addGroup role, some o =>
    if o.countP (fun shape => shape.1 = role) < g.limit role then
      (some (.ok none), some (o ++ [(role, [])]))
    else (some (.error (.tree (.groupLimitReached role (g.limit role)))), some o)
  | .change _ _, none => (none, none)
  | .change place change, some o =>
    match o.keysAt? place with
    | none => (none, some o)
    | some keys =>
      (some (.ok (change.finds? keys)), some (o.alter place.role change.keys? place.rank))

/-- What an answer says apart from identifiers. -/
def Tree.Answer.finds? : Tree.Answer → Option Bool
  | .found b => some b
  | _ => none

namespace Session

variable {s : Session} {root : NodeId} {gs : List Group} {e : Group} {o : Option Outline}
  {place : Place}

/-- The identifier of the group at a place. -/
def groupAt? (s : Session) : Place → Option NodeId
  | .inclusion n => s.inclusionGroups[n]?
  | .exclusion => s.exclusionGroup

/-- The call that changes a group. -/
def changeCall (group : NodeId) : Change → Call
  | .addCategory key => .addCategory group key
  | .removeCategory key => .removeCategory group key
  | .remove => .removeGroup group

/-- The call that a revision comes down to, unless there is no group at its place. -/
def revisionCall? (s : Session) : Revision → Option Call
  | .enableTargeting => some .enableTargeting
  | .addGroup role => some (.addGroup role)
  | .change place change => (s.groupAt? place).map fun group => changeCall group change

/-- The outcome of a revision and the session afterwards. -/
def revise (s : Session) (revision : Revision) : Outcome × Session :=
  match s.revisionCall? revision with
  | none => (none, s)
  | some c => (some ((c.action.on s).1.map Tree.Answer.finds?), (c.action.on s).2)

/-- The session lets groups with the given outline be edited, or has been loaded without anything to
edit. -/
def ShowsOutline (s : Session) : Option Outline → Prop
  | none => s.initialized = true ∧ s.tree = none ∧ s.editable = false
  | some o => ∃ root gs, s.ShowsGroups root gs ∧ gs.map Group.shape = o

/-! ### One group -/

/-- The group at a place is the entry at this place. -/
theorem ShowsGroups.groupAt?_eq (h : s.ShowsGroups root gs) (place : Place) :
    s.groupAt? place = (Group.at? gs place).map Group.id := by
  obtain ⟨t, ⟨-, -, htree⟩, hgs, hholds⟩ := h.exists_tree
  cases place with
  | inclusion n =>
    rw [groupAt?, inclusionGroups, htree, Option.map_some, Option.getD_some,
      Tree.inclusionGroups_eq hholds.root hgs, List.getElem?_map]
    rfl
  | exclusion =>
    rw [groupAt?, exclusionGroup, htree, Option.bind_some,
      Tree.exclusionGroup_eq hholds.root hgs, ← List.head?_filter, List.head?_eq_getElem?]
    rfl

/-- Changing the entry at a place changes the group there. -/
theorem ShowsGroups.change (h : s.ShowsGroups root gs) (he : Group.at? gs place = some e)
    (change : Change) :
    ((changeCall e.id change).action.on s).1.map Tree.Answer.finds?
      = .ok (change.finds? e.categories) ∧
    ((changeCall e.id change).action.on s).2.ShowsOutline
      (some (Outline.alter place.role change.keys? place.rank (gs.map Group.shape))) := by
  have hmem := Group.mem_of_at? he
  have hid : e.id ∈ gs.map Group.id := List.mem_map_of_mem hmem
  obtain ⟨result, gs', hresult, hdoes, hshows, -⟩ := h.call (changeCall e.id change)
  rw [hresult]
  -- each change is one of what becomes of the keys of the entry
  have hshape : gs' = gs.filterMap (Group.alter e.id change.keys?) →
      (((changeCall e.id change).action.on s).2.ShowsOutline
        (some (Outline.alter place.role change.keys? place.rank (gs.map Group.shape)))) := by
    rintro rfl
    exact ⟨root, _, hshows, Group.map_shape_filterMap_alter h.nodup he⟩
  cases change with
  | addCategory key =>
    rw [changeCall, Call.Does, if_pos hid] at hdoes
    obtain ⟨leaf, rfl, rfl⟩ := hdoes
    exact ⟨rfl, hshape (Group.map_update_eq_filterMap _)⟩
  | removeCategory key =>
    rw [changeCall, Call.Does, if_pos hid] at hdoes
    obtain ⟨b, hb, rfl, rfl⟩ := hdoes
    refine ⟨?_, hshape (Group.map_update_eq_filterMap _)⟩
    -- no other entry has the same identifier
    have hkey : b = decide (key ∈ e.categories) := by
      rw [Bool.eq_iff_iff, decide_eq_true_iff, hb]
      constructor
      · rintro ⟨e', he', hsame, hkey⟩
        rwa [← List.inj_on_of_nodup_map h.nodup he' hmem hsame]
      · intro hkey
        exact ⟨e, hmem, rfl, hkey⟩
    rw [hkey]
    rfl
  | remove =>
    rw [changeCall, Call.Does, if_pos hid] at hdoes
    obtain ⟨rfl, rfl⟩ := hdoes
    exact ⟨rfl, hshape Group.filter_ne_eq_filterMap⟩

/-! ### Revisions -/

/-- A revision is skipped, or comes down to a call. -/
theorem revise_cases (s : Session) (revision : Revision) :
    (s.revise revision).2 = s ∨
    ∃ c, s.revisionCall? revision = some c ∧ (s.revise revision).2 = (c.action.on s).2 := by
  unfold revise
  cases s.revisionCall? revision with
  | none => exact Or.inl rfl
  | some c => exact Or.inr ⟨c, rfl, rfl⟩

theorem revise_of_call {revision : Revision} {c : Call} (hc : s.revisionCall? revision = some c) :
    s.revise revision
      = (some ((c.action.on s).1.map Tree.Answer.finds?), (c.action.on s).2) := by
  rw [revise, hc]

/-- A session without anything to edit can be given its first group, and nothing else. -/
theorem revise_of_empty (h : s.ShowsOutline none) (revision : Revision) :
    (s.revise revision).1 = (Outline.revise s.grammar revision none).1 ∧
      (s.revise revision).2.ShowsOutline (Outline.revise s.grammar revision none).2 := by
  have ⟨hinit, hnone, _⟩ := h
  cases revision with
  | enableTargeting =>
    -- the root comes with an empty inclusion group
    obtain ⟨r, t, id, hholds, hgs, hon⟩ := on_first_enableTargeting hinit hnone
    rw [revise_of_call rfl, hon]
    refine ⟨rfl, r, [⟨.inclusion, id, []⟩], ?_, rfl⟩
    exact showsGroups_refreshed (s := s.withTree t) ⟨hinit, rfl, rfl⟩ hgs hholds
  | addGroup role =>
    have hphase : s.phase = .empty := phase_eq_empty_iff.mpr ⟨hinit, hnone⟩
    have hrefused : (Call.addGroup role).refusal? s.phase = some .targetingNotEnabled := by
      rw [hphase]
      rfl
    rw [revise_of_call rfl, on_call_refused hrefused]
    exact ⟨rfl, h⟩
  | change place change =>
    have hgroup : s.groupAt? place = none := by
      cases place <;> simp [groupAt?, inclusionGroups, exclusionGroup, hnone]
    rw [revise, revisionCall?, hgroup]
    exact ⟨rfl, h⟩

/-- A revision does to a session what it does to the outline. -/
theorem ShowsOutline.revise (h : s.ShowsOutline o) (revision : Revision) :
    (s.revise revision).1 = (Outline.revise s.grammar revision o).1 ∧
      (s.revise revision).2.ShowsOutline (Outline.revise s.grammar revision o).2 := by
  cases o with
  | none => exact revise_of_empty h revision
  | some o =>
    obtain ⟨root, gs, hshows, rfl⟩ := h
    cases revision with
    | enableTargeting =>
      obtain ⟨result, gs', hresult, ⟨rfl, rfl⟩, hafter, -⟩ := hshows.call .enableTargeting
      rw [revise_of_call rfl, hresult]
      exact ⟨rfl, root, _, hafter, rfl⟩
    | addGroup role =>
      obtain ⟨result, gs', hresult, hdoes, hafter, -⟩ := hshows.call (.addGroup role)
      rw [revise_of_call rfl, hresult, Outline.revise, Group.countP_map_shape]
      rw [Call.Does] at hdoes
      split at hdoes
      · next hroom =>
        -- the new entry has an identifier that the outline leaves out
        obtain ⟨id, -, rfl, rfl⟩ := hdoes
        rw [if_pos hroom]
        refine ⟨rfl, root, _, hafter, ?_⟩
        rw [List.map_append]
        rfl
      · next hfull =>
        obtain ⟨rfl, rfl⟩ := hdoes
        rw [if_neg hfull]
        exact ⟨rfl, root, _, hafter, rfl⟩
    | change place change =>
      have hgroup := hshows.groupAt?_eq place
      rw [Outline.revise, Group.keysAt?_map_shape]
      cases he : Group.at? gs place with
      | none =>
        rw [he, Option.map_none] at hgroup
        rw [Session.revise, revisionCall?, hgroup]
        exact ⟨rfl, root, gs, hshows, rfl⟩
      | some e =>
        rw [he, Option.map_some] at hgroup
        have hcall : s.revisionCall? (.change place change) = some (changeCall e.id change) := by
          rw [revisionCall?, hgroup, Option.map_some]
        obtain ⟨houtcome, hafter⟩ := hshows.change he change
        rw [revise_of_call hcall, houtcome]
        exact ⟨rfl, hafter⟩

end Session

end Targeting
