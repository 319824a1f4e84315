import Targeting.Proofs.Group.Shape
import Targeting.Proofs.Tree.Naming
import Targeting.Session.Basic

/-!
# What the actions of a session do

An action either is refused and leaves the session as it was, or runs an edit on the tree of the
session and describes the tree anew. Describing it gives names to categories, which changes nothing
that edits look at.

## Main definitions

* `Session.showing` — the session after a tree has been loaded
* `Session.Phase.refusal?`, `Session.Call.refusal?` — why edits and calls are refused in a phase
* `Session.Call`, `Session.Event` — calls of the editing actions, and everything that can happen to
  a session
* `Session.after` — the session after some events, whether they succeed or fail

## Main results

* `Session.load_cases`, `Session.on_edit_of_isOpen`, `Session.on_enableTargeting` — the actions
* `Session.on_edit_refused`, `Session.on_enableTargeting_refused` — the phases that refuse them
-/

namespace Targeting

/-! ### Names -/

namespace Tree

variable {t t' : Tree} {r : NodeId} {f : Formula} {gs : List Group}

/-- Names play no part in whether a tree can be edited. -/
theorem isEditable_of_nameless_eq (heq : t'.nameless = t.nameless) (g : Grammar) :
    t'.isEditable g = t.isEditable g := by
  have hroot : t'.root = t.root := by rw [← root_nameless, heq, root_nameless]
  rw [Bool.eq_iff_iff, isEditable_iff, isEditable_iff, hroot]
  refine or_congr_right (exists_congr fun gs => and_congr_left fun _ => ?_)
  exact ⟨groups?_eq_of_nameless_eq heq.symm, groups?_eq_of_nameless_eq heq⟩

/-- A tree that shows groups holds the formula of these groups. -/
theorem Holds.of_shows (h : t.Holds r f) (hshows : Shows t t' gs) :
    t'.Holds r (.ofGroups (gs.map Group.shape)) where
  isForest := hshows.isForest
  root := hshows.root.trans h.root
  isLoose x := (hshows.isLoose x).trans (h.isLoose x)
  denotes := (exists_groups?_iff (hshows.root.trans h.root)).mp ⟨gs, hshows.groups, rfl⟩

end Tree

namespace Session

variable {α β : Type} {s s' : Session} {t : Tree} {r : NodeId} {f : Formula}

/-! ### Results of composed actions -/

namespace Action

@[simp] theorem on_pure (a : α) (s : Session) : (pure a : Action α).on s = (.ok a, s) := rfl

@[simp] theorem on_throw (e : SessionError) (s : Session) :
    (throw e : Action α).on s = (.error e, s) := rfl

@[simp] theorem on_get (s : Session) : (get : Action Session).on s = (.ok s, s) := rfl

@[simp] theorem on_modify (f : Session → Session) (s : Session) :
    (modify f : Action PUnit).on s = (.ok ⟨⟩, f s) := rfl

theorem on_bind (x : Action α) (f : α → Action β) (s : Session) :
    (x >>= f).on s = match x.on s with
      | (.ok a, s') => (f a).on s'
      | (.error e, s') => (.error e, s') := by
  rcases hx : x.on s with ⟨e | a, s'⟩
  · exact run_bind_error hx f
  · exact run_bind_ok hx f

theorem on_map (f : α → β) (x : Action α) (s : Session) :
    (f <$> x).on s = ((x.on s).1.map f, (x.on s).2) := by
  rw [map_eq_pure_bind, on_bind]
  rcases x.on s with ⟨_ | _, _⟩ <;> rfl

/-- An action whose result is mapped has succeeded if the mapped one has. -/
theorem exists_on_of_map_ok {f : α → β} {x : Action α} {b : β}
    (h : ((f <$> x).on s).1 = .ok b) : ∃ a, f a = b ∧ x.on s = (.ok a, ((f <$> x).on s).2) := by
  rw [on_map] at h ⊢
  rcases hx : x.on s with ⟨e | a, s'⟩ <;> rw [hx] at h <;> cases h
  exact ⟨a, rfl, rfl⟩

theorem on_of_map_error {f : α → β} {x : Action α} {e : SessionError}
    (h : ((f <$> x).on s).1 = .error e) : x.on s = (.error e, ((f <$> x).on s).2) := by
  rw [on_map] at h ⊢
  rcases hx : x.on s with ⟨e' | a, s'⟩ <;> rw [hx] at h <;> cases h
  rfl

end Action

open Session.Action

theorem on_runEdit (edit : Edit α) (t : Tree) (s : Session) :
    (runEdit edit t).on s =
      ((edit.on t).1.mapError SessionError.tree, { s with tree := some (edit.on t).2 }) := by
  unfold runEdit
  rcases edit.on t with ⟨e | a, t'⟩ <;> simp [on_bind, on_map, Except.map, Except.mapError]

/-! ### The actions -/

/-- The session without what was read or edited. -/
def cleared (s : Session) : Session :=
  { s with tree := none, info := none, editable := false, initialized := false }

/-- Loading reads the stored expression, and finds out whether it can be edited if there is one. -/
theorem on_load (s : Session) :
    load.on s = match Tree.ofJson s.settings.expression with
      | .error e => (.error (.tree e), s.cleared)
      | .ok t =>
        if t.isEmpty then (.ok (), { s.cleared with initialized := true })
        else (.ok (), { refreshed { s.cleared with
          tree := some t, editable := t.isEditable s.grammar } with initialized := true }) := by
  unfold load
  cases hread : Tree.ofJson s.settings.expression with
  | error e => simp [on_bind, hread, cleared]
  | ok t =>
    cases hempty : t.isEmpty <;> simp [on_bind, hread, hempty, cleared, refresh]

/-- The session after a tree has been loaded and its categories have been named. -/
def showing (s : Session) (t : Tree) : Session :=
  { s with
    tree := some t
    info := some (TargetingInfo.ofTree t (t.isEditable s.grammar))
    editable := t.isEditable s.grammar
    initialized := true }

theorem on_load_of_root (hread : Tree.ofJson s.settings.expression = .ok t)
    (hroot : t.root = some r) :
    load.on s = (.ok (), s.showing (t.resolveNames s.resolve)) := by
  have hnonempty : t.isEmpty = false := by rw [Tree.isEmpty, hroot]; rfl
  -- whether the tree can be edited is found out before it is given names
  have hsame := Tree.isEditable_of_nameless_eq (t.nameless_resolveNames s.resolve) s.grammar
  rw [on_load, hread]
  simp [hnonempty, refreshed, cleared, showing, hsame]

theorem on_load_of_null (hnull : s.settings.expression = .null) :
    load.on s = (.ok (), { s.cleared with initialized := true }) := by
  rw [on_load, hnull]
  rfl

/-- Loading succeeds without a stored expression, and with one that is the serialized form of a
formula without empty keys. Every other expression is refused as malformed. -/
theorem load_cases (s : Session) :
    (s.settings.expression = .null ∧
      load.on s = (.ok (), { s.cleared with initialized := true })) ∨
    (∃ f t r, "" ∉ f.keys ∧ s.settings.expression = f.toJson ∧ t.Holds r f ∧
      load.on s = (.ok (), s.showing t)) ∨
    (s.settings.expression ≠ .null ∧
      (∀ f : Formula, "" ∉ f.keys → s.settings.expression ≠ f.toJson) ∧
      ∃ position fault, load.on s = (.error (.tree (.malformed position fault)), s.cleared)) := by
  rcases Tree.ofJson_cases s.settings.expression with
    ⟨hnull, -⟩ | ⟨f, hwritable, hexpression, t, r, hread, hholds⟩ |
    ⟨hno, hsome, position, fault, hread⟩
  · exact Or.inl ⟨hnull, on_load_of_null hnull⟩
  · refine Or.inr (Or.inl ⟨f, t.resolveNames s.resolve, r, hwritable, hexpression, ?_, ?_⟩)
    · exact hholds.of_nameless_eq (t.nameless_resolveNames s.resolve)
    · exact on_load_of_root hread hholds.root
  · refine Or.inr (Or.inr ⟨hsome, hno, position, fault, ?_⟩)
    rw [on_load, hread]

/-- Loading the serialized form of a formula. -/
theorem load_formula_cases (hexpression : s.settings.expression = f.toJson) :
    ("" ∉ f.keys ∧ ∃ t r, t.Holds r f ∧ load.on s = (.ok (), s.showing t)) ∨
    ("" ∈ f.keys ∧
      ∃ position fault, load.on s = (.error (.tree (.malformed position fault)), s.cleared)) := by
  rcases s.load_cases with
    ⟨hnull, -⟩ | ⟨f', t, r, hwritable, hexpression', hholds, hon⟩ | ⟨-, hno, hfail⟩
  · exact absurd (hexpression.symm.trans hnull) f.toJson_ne_null
  · obtain rfl := Formula.toJson_injective (hexpression.symm.trans hexpression')
    exact Or.inl ⟨hwritable, t, r, hholds, hon⟩
  · exact Or.inr ⟨by_contra fun hwritable => hno f hwritable hexpression, hfail⟩

/-- The session lets a tree be edited: it has been loaded and holds the tree as an editable one. -/
structure IsOpen (s : Session) (t : Tree) : Prop where
  initialized : s.initialized = true
  editable : s.editable = true
  tree : s.tree = some t

theorem IsOpen.with_tree (h : s.IsOpen t) (t' : Tree) :
    ({ s with tree := some t' } : Session).IsOpen t' :=
  ⟨h.initialized, h.editable, rfl⟩

/-! ### Phases -/

theorem phase_eq_uninitialized_iff : s.phase = .uninitialized ↔ s.initialized = false := by
  unfold phase
  cases s.initialized <;> cases s.tree <;> cases s.editable <;> simp

theorem phase_eq_empty_iff : s.phase = .empty ↔ s.initialized = true ∧ s.tree = none := by
  unfold phase
  cases s.initialized <;> cases s.tree <;> cases s.editable <;> simp

theorem phase_eq_composing_iff : s.phase = .composing ↔ ∃ t, s.IsOpen t := by
  constructor
  · intro h
    unfold phase at h
    -- in all other combinations the phase is another one
    cases hinit : s.initialized <;> cases htree : s.tree <;> cases hedit : s.editable <;>
      simp [hinit, htree, hedit] at h
    exact ⟨_, hinit, hedit, htree⟩
  · rintro ⟨t, hinit, hedit, htree⟩
    simp [phase, hinit, hedit, htree]

theorem phase_eq_readOnly_iff :
    s.phase = .readOnly ↔ s.initialized = true ∧ s.tree.isSome = true ∧ s.editable = false := by
  unfold phase
  cases s.initialized <;> cases s.tree <;> cases s.editable <;> simp

/-- Why a phase refuses the edits of a tree, if it does. -/
def Phase.refusal? : Phase → Option SessionError
  | .uninitialized => some .notInitialized
  | .empty => some .targetingNotEnabled
  | .composing => none
  | .readOnly => some .readOnly

/-- What a session holds in each of the phases that refuse edits. -/
theorem refusal?_cases {e : SessionError} (h : s.phase.refusal? = some e) :
    (e = .notInitialized ∧ s.initialized = false) ∨
    (e = .targetingNotEnabled ∧ s.phase = .empty ∧ s.initialized = true ∧ s.tree = none) ∨
    (e = .readOnly ∧ s.initialized = true ∧ s.tree.isSome = true ∧ s.editable = false) := by
  cases hphase : s.phase <;> rw [hphase] at h <;> cases h
  case uninitialized => exact Or.inl ⟨rfl, phase_eq_uninitialized_iff.mp hphase⟩
  case empty => exact Or.inr (Or.inl ⟨rfl, rfl, phase_eq_empty_iff.mp hphase⟩)
  case readOnly => exact Or.inr (Or.inr ⟨rfl, phase_eq_readOnly_iff.mp hphase⟩)

/-! ### Edits of the tree -/

/-- An edit of an open session runs on its tree, and after a success the tree is described anew. -/
theorem on_edit_of_isOpen (h : s.IsOpen t) (hroot : t.root = some r) (f : NodeId → Edit α) :
    (edit f).on s = match (f r).on t with
      | (.ok a, t') => (.ok a, refreshed { s with tree := some t' })
      | (.error e, t') => (.error (.tree e), { s with tree := some t' }) := by
  unfold edit expectInitialized
  rcases hrun : (f r).on t with ⟨e | a, t'⟩ <;>
    simp [on_bind, on_runEdit, h.initialized, h.editable, h.tree, hroot, hrun, Except.mapError,
      refresh, on_map, Except.map]

/-- In a phase that refuses edits they fail, and the session stays as it was. -/
theorem on_edit_refused {e : SessionError} (h : s.phase.refusal? = some e) (f : NodeId → Edit α) :
    (edit f).on s = (.error e, s) := by
  unfold edit expectInitialized
  obtain ⟨rfl, hinit⟩ | ⟨rfl, -, hinit, hnone⟩ | ⟨rfl, hinit, hsome, hedit⟩ := refusal?_cases h
  · simp [on_bind, hinit]
  · simp [on_bind, hinit, hnone]
  · simp [on_bind, hinit, hsome, hedit]

/-- Enabling runs on the tree of the session, or on an empty one if the session holds none. -/
theorem on_enableTargeting (hinit : s.initialized = true) (h : s.tree = none ∨ s.editable = true) :
    enableTargeting.on s = match Edit.enableTargeting.on (s.tree.getD .empty) with
      | (.ok a, t') => (.ok a, refreshed { s with tree := some t', editable := true })
      | (.error e, t') => (.error (.tree e), { s with tree := some t' }) := by
  -- the session is not one that holds a tree for reading only
  have hguard : ¬ (s.tree.isSome = true ∧ s.editable = false) := by
    rintro ⟨hsome, hedit⟩
    rcases h with hnone | hopen
    · simp [hnone] at hsome
    · simp [hopen] at hedit
  unfold enableTargeting expectInitialized
  rcases hrun : Edit.enableTargeting.on (s.tree.getD .empty) with ⟨e | a, t'⟩ <;>
    simp [on_bind, on_runEdit, hinit, hguard, hrun, Except.mapError, refresh, on_map, Except.map]

/-- Enabling is refused as edits are, unless the session has nothing to edit. -/
theorem on_enableTargeting_refused {e : SessionError} (h : s.phase.refusal? = some e)
    (hempty : s.phase ≠ .empty) : enableTargeting.on s = (.error e, s) := by
  unfold enableTargeting expectInitialized
  obtain ⟨rfl, hinit⟩ | ⟨-, hphase, -⟩ | ⟨rfl, hinit, hsome, hedit⟩ := refusal?_cases h
  · simp [on_bind, hinit]
  · exact absurd hphase hempty
  · simp [on_bind, hinit, hsome, hedit]

/-! ### Runs -/

/-- A call of an editing action. -/
inductive Call where
  | enableTargeting
  | addGroup (role : GroupRole)
  | addCategory (group : NodeId) (key : String)
  | removeCategory (group : NodeId) (key : String)
  | removeGroup (group : NodeId)

/-- The action that is called. -/
def Call.action : Call → Action Tree.Answer
  | .enableTargeting => .node <$> Session.enableTargeting
  | .addGroup role => .node <$> Session.addGroup role
  | .addCategory group key => .node <$> Session.addCategory group key
  | .removeCategory group key => .found <$> Session.removeCategory group key
  | .removeGroup group => .found <$> Session.removeGroup group

/-- Why a call is refused in a phase, if it is. Nothing to edit is no reason against enabling. -/
def Call.refusal? : Call → Phase → Option SessionError
  | .enableTargeting, .empty => none
  | _, phase => phase.refusal?

theorem Call.phase_of_refusal? {c : Call} {phase : Phase} {e : SessionError}
    (h : c.refusal? phase = some e) :
    phase.refusal? = some e ∧ (c = .enableTargeting → phase ≠ .empty) := by
  cases c <;> cases phase <;> first | exact ⟨h, nofun⟩ | cases h

/-- What can happen to a session. The taxonomy may come to answer differently at any time. -/
inductive Event where
  | load
  | refresh
  | consult (resolve : Resolver)
  | call (c : Call)

/-- The action that an event is. -/
def Event.action : Event → Action Tree.Answer
  | .load => (fun _ => .done) <$> Session.load
  | .refresh => (fun _ => .done) <$> Session.refresh
  | .consult resolve => (fun _ => .done) <$> (modify fun s => { s with resolve } : Action PUnit)
  | .call c => c.action

/-- The session after some events, each whether the ones before succeeded or failed. -/
def after (s : Session) (events : List Event) : Session :=
  events.foldl (fun s event => (event.action.on s).2) s

end Session

end Targeting
