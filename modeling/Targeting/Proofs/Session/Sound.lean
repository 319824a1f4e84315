import Targeting.Proofs.Session.Action

/-!
# What holds of every session

Whatever happens to a session, its tree has a root and nothing but what is below the root; and as
long as edits are allowed the tree is a list of groups. Their number stays within the bounds of the
grammar, with one exception: enabling gives an entity without an expression a first inclusion group
without a look at the bounds.

## Main definitions

* `Session.bound` — how many groups of a role there can be
* `Session.IsSound` — what holds of every session

## Main results

* `Session.on_call_of_isOpen` — a call on an open session is an edit of its tree
* `Session.on_call_refused`, `Session.call_cases` — the calls that a phase refuses, and all others
* `Session.IsSound.on_call` — what a call can make of a session
* `Session.IsSound.after` — sessions stay sound
* `Session.IsSound.settings_grammar_after` — the stored settings and the grammar stay the same
-/

namespace Targeting.Session

open Session.Action

variable {s s' : Session} {t t' : Tree} {r : NodeId}

/-! ### The invariant -/

/-- How many groups of a role there can be. -/
def bound (s : Session) (role : GroupRole) : Nat :=
  if s.settings.expression = .null ∧ role = .inclusion then max 1 (s.grammar.limit role)
  else s.grammar.limit role

theorem limit_le_bound (s : Session) (role : GroupRole) : s.grammar.limit role ≤ s.bound role := by
  unfold bound
  split
  · exact le_max_right _ _
  · exact le_refl _

/-- If the grammar allows an inclusion group, there are never more groups than it allows. -/
theorem bound_eq_limit (hroom : 1 ≤ s.grammar.maxInclusionGroups) (role : GroupRole) :
    s.bound role = s.grammar.limit role := by
  unfold bound
  split
  · next hfirst =>
    rw [hfirst.2]
    exact max_eq_right hroom
  · rfl

/-- What holds of every session. -/
structure IsSound (s : Session) : Prop where
  /-- The tree has a root and nothing but what is below the root. -/
  holds : ∀ {t}, s.tree = some t → ∃ r f, t.Holds r f
  /-- A tree that may be edited is a list of groups within the bounds. -/
  editable : ∀ {t}, s.tree = some t → s.editable = true →
    ∃ gs, t.groups? = some gs ∧ Group.Within gs s.bound
  /-- A tree that must not be edited is a stored one of another shape. -/
  readOnly : ∀ {t}, s.tree = some t → s.editable = false →
    t.isEditable s.grammar = false ∧ s.settings.expression ≠ .null
  /-- After loading there is a tree unless no expression is stored. -/
  empty : s.tree = none → s.initialized = true → s.settings.expression = .null

/-- Names, the description of the tree and the taxonomy play no part in soundness. -/
theorem IsSound.congr (h : s.IsSound) (hsettings : s'.settings = s.settings)
    (hgrammar : s'.grammar = s.grammar) (heditable : s'.editable = s.editable)
    (htree : ∀ {t'}, s'.tree = some t' → ∃ t, s.tree = some t ∧ t'.nameless = t.nameless)
    (hempty : s'.tree = none → s'.initialized = true →
      s.tree = none ∧ s.initialized = true ∨ s.settings.expression = .null) : s'.IsSound where
  holds ht' := by
    obtain ⟨t, ht, hnameless⟩ := htree ht'
    obtain ⟨r, f, hholds⟩ := h.holds ht
    exact ⟨r, f, hholds.of_nameless_eq hnameless⟩
  editable ht' hedit := by
    obtain ⟨t, ht, hnameless⟩ := htree ht'
    obtain ⟨gs, hgs, hwithin⟩ := h.editable ht (heditable ▸ hedit)
    refine ⟨gs, Tree.groups?_eq_of_nameless_eq hnameless hgs, hwithin.mono fun role => le_of_eq ?_⟩
    rw [bound, bound, hsettings, hgrammar]
  readOnly ht' hedit := by
    obtain ⟨t, ht, hnameless⟩ := htree ht'
    rw [Tree.isEditable_of_nameless_eq hnameless, hsettings, hgrammar]
    exact h.readOnly ht (heditable ▸ hedit)
  empty hnone hinit := by
    rw [hsettings]
    rcases hempty hnone hinit with ⟨hnone, hinit⟩ | hnull
    · exact h.empty hnone hinit
    · exact hnull

theorem isSound_create (settings : EntitySettings) (grammar : Grammar) (resolve : Resolver) :
    (create settings grammar resolve).IsSound where
  holds ht := by cases ht
  editable ht := by cases ht
  readOnly ht := by cases ht
  empty _ hinit := by cases hinit

/-! ### Describing the tree anew -/

@[simp] theorem settings_refreshed (s : Session) : s.refreshed.settings = s.settings := by
  unfold refreshed
  split <;> rfl

@[simp] theorem grammar_refreshed (s : Session) : s.refreshed.grammar = s.grammar := by
  unfold refreshed
  split <;> rfl

@[simp] theorem editable_refreshed (s : Session) : s.refreshed.editable = s.editable := by
  unfold refreshed
  split <;> rfl

@[simp] theorem initialized_refreshed (s : Session) : s.refreshed.initialized = s.initialized := by
  unfold refreshed
  split <;> rfl

@[simp] theorem tree_refreshed (s : Session) :
    s.refreshed.tree = s.tree.map fun t => t.resolveNames s.resolve := by
  unfold refreshed
  split
  · next hnone => rw [hnone]; rfl
  · next t hsome => rw [hsome]; rfl

/-- The tree that is described anew holds the same formula. -/
theorem exists_holds_refreshed {f : Formula} (htree : s.tree = some t) (hholds : t.Holds r f) :
    ∃ t', s.refreshed.tree = some t' ∧ t'.Holds r f := by
  refine ⟨_, ?_, hholds.of_nameless_eq (t.nameless_resolveNames s.resolve)⟩
  rw [tree_refreshed, htree, Option.map_some]

/-- Describing the tree anew changes nothing that depends on the formula alone. -/
theorem IsSound.map_tree_refreshed {α : Type} {read : Tree → α} (h : s.IsSound)
    (hread : ∀ t t' r f, t.Holds r f → t'.Holds r f → read t' = read t) :
    s.refreshed.tree.map read = s.tree.map read := by
  cases htree : s.tree with
  | none => rw [tree_refreshed, htree, Option.map_none, Option.map_none]
  | some t =>
    obtain ⟨r, f, hholds⟩ := h.holds htree
    obtain ⟨t', htree', hholds'⟩ := exists_holds_refreshed htree hholds
    rw [htree', Option.map_some, Option.map_some, hread t t' r f hholds hholds']

theorem IsSound.refreshed (h : s.IsSound) : s.refreshed.IsSound := by
  refine h.congr (by simp) (by simp) (by simp) (fun {t'} ht' => ?_) fun hnone hinit => Or.inl ?_
  · rw [tree_refreshed, Option.map_eq_some_iff] at ht'
    obtain ⟨t, ht, rfl⟩ := ht'
    exact ⟨t, ht, t.nameless_resolveNames s.resolve⟩
  · simpa using And.intro hnone hinit

/-- Describing the tree anew a second time changes nothing. -/
theorem refreshed_refreshed (h : s.refreshed.IsSound) : s.refreshed.refreshed = s.refreshed := by
  cases htree : s.tree with
  | none => simp [Session.refreshed, htree]
  | some t =>
    have hsame := t.nameless_resolveNames s.resolve
    obtain ⟨r, f, hholds⟩ : ∃ r f, (t.resolveNames s.resolve).Holds r f :=
      h.holds (by rw [tree_refreshed, htree, Option.map_some])
    have htwice := (hholds.of_nameless_eq hsame.symm).resolveNames_resolveNames s.resolve
    simp [Session.refreshed, htree, htwice]

/-! ### Loading -/

theorem isSound_cleared (s : Session) : s.cleared.IsSound where
  holds ht := by cases ht
  editable ht := by cases ht
  readOnly ht := by cases ht
  empty _ hinit := by cases hinit

/-- A loaded tree holds a formula, and whether it is editable has been looked at. -/
theorem isSound_showing {f : Formula} (hholds : t.Holds r f)
    (hsome : s.settings.expression ≠ .null) : (s.showing t).IsSound where
  holds ht := by
    cases ht
    exact ⟨r, f, hholds⟩
  editable ht hedit := by
    cases ht
    obtain hnone | ⟨gs, hgs, hwithin⟩ := Tree.isEditable_iff.mp hedit
    · rw [hholds.root] at hnone
      cases hnone
    · exact ⟨gs, hgs, Group.Within.mono hwithin (limit_le_bound _)⟩
  readOnly ht hedit := by
    cases ht
    exact ⟨hedit, hsome⟩
  empty hnone := by cases hnone

theorem isSound_load (s : Session) : (load.on s).2.IsSound := by
  rcases s.load_cases with
    ⟨hnull, hon⟩ | ⟨f, t, r, -, hexpression, hholds, hon⟩ | ⟨-, -, position, fault, hon⟩
  · rw [hon]
    exact s.isSound_cleared.congr rfl rfl rfl (fun ht' => ⟨_, ht', rfl⟩) fun _ _ => Or.inr hnull
  · rw [hon]
    apply isSound_showing hholds
    rw [hexpression]
    exact f.toJson_ne_null
  · rw [hon]
    exact s.isSound_cleared

/-! ### Calls -/

/-- The edit of the tree that a call comes down to. -/
def Call.groupCall (root : NodeId) : Call → Tree.GroupCall
  | .enableTargeting => .enableTargeting
  | .addGroup role => .addGroup role root
  | .addCategory group key => .addCategory group key
  | .removeCategory group key => .removeCategory group key
  | .removeGroup group => .removeGroup group

/-- An edit whose result is mapped to an answer. -/
theorem on_map_edit_of_isOpen {α : Type} (h : s.IsOpen t) (hroot : t.root = some r)
    (answer : α → Tree.Answer) (f : NodeId → Edit α) :
    (answer <$> edit f).on s = match (answer <$> f r).on t with
      | (.ok a, t') => (.ok a, Session.refreshed { s with tree := some t' })
      | (.error e, t') => (.error (.tree e), { s with tree := some t' }) := by
  rw [on_map, on_edit_of_isOpen h hroot, Edit.on_map]
  rcases (f r).on t with ⟨e | a, t'⟩ <;> rfl

/-- A call on an open session is an edit of its tree. After a success the tree is described anew. -/
theorem on_call_of_isOpen (h : s.IsOpen t) (hroot : t.root = some r) (c : Call) :
    c.action.on s = match ((c.groupCall r).within s.grammar).edit.on t with
      | (.ok a, t') => (.ok a, Session.refreshed { s with tree := some t' })
      | (.error e, t') => (.error (.tree e), { s with tree := some t' }) := by
  cases c with
  | enableTargeting =>
    -- the session is marked as editable once more
    have hsame : ∀ t', ({ s with tree := some t', editable := true } : Session)
        = { s with tree := some t' } := fun t' => by rw [h.editable]
    rw [Call.action, on_map, on_enableTargeting h.initialized (Or.inr h.editable), h.tree,
      Option.getD_some, Call.groupCall, Tree.GroupCall.within, Tree.Call.edit, Edit.on_map]
    rcases Edit.enableTargeting.on t with ⟨e | a, t'⟩
    · rfl
    · dsimp only
      rw [hsame]
      rfl
  | addGroup role =>
    -- the bounds are those of the grammar at the time of the call
    have hget : (addGroup role).on s
        = (edit fun root => Edit.addGroup role root s.grammar).on s := by
      rw [addGroup, on_bind, on_get]
    rw [Call.action, on_map, hget, ← on_map]
    exact on_map_edit_of_isOpen h hroot .node _
  | addCategory group key => exact on_map_edit_of_isOpen h hroot .node _
  | removeCategory group key => exact on_map_edit_of_isOpen h hroot .found _
  | removeGroup group => exact on_map_edit_of_isOpen h hroot .found _

/-- A call that is refused in the phase of the session fails and changes nothing. -/
theorem on_call_refused {c : Call} {e : SessionError} (h : c.refusal? s.phase = some e) :
    c.action.on s = (.error e, s) := by
  obtain ⟨hrefused, hempty⟩ := c.phase_of_refusal? h
  have hedit : ∀ {α : Type} (answer : α → Tree.Answer) (f : NodeId → Edit α),
      (answer <$> edit f).on s = (.error e, s) := by
    intro α answer f
    rw [on_map, on_edit_refused hrefused]
    rfl
  cases c with
  | enableTargeting =>
    rw [Call.action, on_map, on_enableTargeting_refused hrefused (hempty rfl)]
    rfl
  | addGroup role =>
    -- the grammar is read before the checks, which changes nothing
    rw [Call.action, on_map, addGroup, on_bind, on_get, ← on_map]
    exact hedit .node _
  | addCategory group key => exact hedit .node _
  | removeCategory group key => exact hedit .found _
  | removeGroup group => exact hedit .found _

/-- A call meets an open session, enables targeting for an entity without an expression, or is
refused. -/
theorem call_cases (s : Session) (c : Call) :
    (∃ t, s.IsOpen t) ∨ (c = .enableTargeting ∧ s.initialized = true ∧ s.tree = none) ∨
    ∃ e, c.refusal? s.phase = some e := by
  cases hrefusal : c.refusal? s.phase with
  | some e => exact Or.inr (Or.inr ⟨e, rfl⟩)
  | none =>
    cases hphase : s.phase with
    | composing => exact Or.inl (phase_eq_composing_iff.mp hphase)
    | empty =>
      cases c <;> rw [hphase] at hrefusal <;> cases hrefusal
      exact Or.inr (Or.inl ⟨rfl, phase_eq_empty_iff.mp hphase⟩)
    | uninitialized | readOnly => cases c <;> rw [hphase] at hrefusal <;> cases hrefusal

/-- The session with the given tree, as one that may be edited. -/
def withTree (s : Session) (t : Tree) : Session := { s with tree := some t, editable := true }

theorem withTree_eq (hedit : s.editable = true) (t : Tree) :
    s.withTree t = { s with tree := some t } := by
  rw [withTree, hedit]

/-- A session with a list of groups within the bounds is sound. -/
theorem isSound_withTree {f : Formula} {gs : List Group} (hholds : t.Holds r f)
    (hgs : t.groups? = some gs) (hwithin : Group.Within gs s.bound) : (s.withTree t).IsSound where
  holds ht := by
    cases ht
    exact ⟨r, f, hholds⟩
  editable ht _ := by
    cases ht
    exact ⟨gs, hgs, hwithin⟩
  readOnly _ hno := by cases hno
  empty hnone := by cases hnone

/-- Without a tree enabling runs on an empty one, and never fails. -/
theorem on_enableTargeting_of_no_tree (hinit : s.initialized = true) (hnone : s.tree = none) :
    Call.enableTargeting.action.on s
      = (.ok (.node Tree.empty.nextId),
        (s.withTree (Edit.enableTargeting.on .empty).2).refreshed) := by
  rw [Call.action, on_map, on_enableTargeting hinit (Or.inl hnone), hnone, Option.getD_none,
    Edit.enableTargeting_of_no_root Tree.IsForest.empty rfl]
  rfl

/-- Enabling targeting for an entity without an expression. -/
theorem on_first_enableTargeting (hinit : s.initialized = true) (hnone : s.tree = none) :
    ∃ r t' id, t'.Holds r (.ofGroups [(.inclusion, [])]) ∧
      t'.groups? = some [⟨.inclusion, id, []⟩] ∧
      Call.enableTargeting.action.on s = (.ok (.node r),
        (s.withTree t').refreshed) := by
  obtain ⟨r, t', id, hon, hforest, hroot, hloose, hgs⟩ :=
    Edit.on_enableTargeting_of_no_root Tree.IsForest.empty rfl
  refine ⟨r, t', id, ⟨hforest, hroot, fun x => ?_, ?_⟩, hgs, ?_⟩
  · rw [hloose]
    exact or_iff_left fun ⟨n, hn, _⟩ => by cases hn
  · exact (Tree.exists_groups?_iff hroot).mp ⟨_, hgs, rfl⟩
  · rw [Call.action, on_map, on_enableTargeting hinit (Or.inl hnone), hnone, Option.getD_none,
      hon]
    rfl

/-- A call leaves the session as it was, or gives it another list of groups within the bounds. -/
theorem IsSound.on_call (h : s.IsSound) (c : Call) :
    (c.action.on s).2 = s ∨ ∃ t r f gs, t.Holds r f ∧ t.groups? = some gs ∧
      Group.Within gs s.bound ∧
      ((c.action.on s).2 = s.withTree t ∨ (c.action.on s).2 = (s.withTree t).refreshed) := by
  obtain ⟨t, hopen⟩ | ⟨rfl, hinit, hnone⟩ | ⟨e, he⟩ := s.call_cases c
  · obtain ⟨r, f, hholds⟩ := h.holds hopen.tree
    obtain ⟨gs, hgs, hwithin⟩ := h.editable hopen.tree hopen.editable
    obtain ⟨gs', hshows, hwithin'⟩ := (c.groupCall r).shows hholds.isForest hholds.root hgs
      hwithin (limit_le_bound s)
    refine Or.inr ⟨_, r, _, gs', hholds.of_shows hshows, hshows.groups, hwithin', ?_⟩
    rw [on_call_of_isOpen hopen hholds.root, withTree_eq hopen.editable]
    rcases ((c.groupCall r).within s.grammar).edit.on t with ⟨e | a, t'⟩
    · exact Or.inl rfl
    · exact Or.inr rfl
  · obtain ⟨r, t, id, hholds, hgs, hon⟩ := on_first_enableTargeting hinit hnone
    refine Or.inr ⟨t, r, _, _, hholds, hgs, fun role => ?_, Or.inr (by rw [hon])⟩
    -- nothing has looked at the bounds here, so one inclusion group has to be allowed for
    cases role with
    | inclusion =>
      rw [bound, if_pos ⟨h.empty hnone hinit, rfl⟩]
      exact le_max_left _ _
    | exclusion => exact Nat.zero_le _
  · exact Or.inl (by rw [on_call_refused he])

/-- Calls keep sessions sound. -/
theorem IsSound.call (h : s.IsSound) (c : Call) : (c.action.on s).2.IsSound := by
  obtain hsame | ⟨t, r, f, gs, hholds, hgs, hwithin, hon | hon⟩ := h.on_call c
  · rw [hsame]
    exact h
  · rw [hon]
    exact isSound_withTree hholds hgs hwithin
  · rw [hon]
    exact (isSound_withTree hholds hgs hwithin).refreshed

/-- Every event keeps sessions sound. -/
theorem IsSound.event (h : s.IsSound) (event : Event) : (event.action.on s).2.IsSound := by
  cases event with
  | load =>
    rw [Event.action, on_map]
    exact s.isSound_load
  | refresh =>
    rw [Event.action, on_map]
    exact h.refreshed
  | consult resolve =>
    rw [Event.action, on_map]
    exact h.congr rfl rfl rfl (fun ht' => ⟨_, ht', rfl⟩) fun hnone hinit => Or.inl ⟨hnone, hinit⟩
  | call c => exact h.call c

/-- Every session that events reach is sound. -/
theorem IsSound.after (h : s.IsSound) (events : List Event) : (s.after events).IsSound := by
  induction events generalizing s with
  | nil => exact h
  | cons event events ih => exact ih (h.event event)

/-! ### What never changes -/

/-- Events change neither the stored settings nor the grammar. -/
theorem IsSound.settings_grammar_event (h : s.IsSound) (event : Event) :
    (event.action.on s).2.settings = s.settings ∧ (event.action.on s).2.grammar = s.grammar := by
  cases event with
  | load =>
    rw [Event.action, on_map]
    rcases s.load_cases with ⟨-, hon⟩ | ⟨f, t, r, -, -, -, hon⟩ | ⟨-, -, position, fault, hon⟩ <;>
      rw [hon] <;> exact ⟨rfl, rfl⟩
  | refresh => exact ⟨settings_refreshed s, grammar_refreshed s⟩
  | consult resolve => exact ⟨rfl, rfl⟩
  | call c =>
    rw [Event.action]
    obtain hsame | ⟨t, r, f, gs, -, -, -, hon | hon⟩ := h.on_call c
    · rw [hsame]
      exact ⟨rfl, rfl⟩
    · rw [hon]
      exact ⟨rfl, rfl⟩
    · rw [hon]
      exact ⟨settings_refreshed _, grammar_refreshed _⟩

theorem IsSound.settings_grammar_after (h : s.IsSound) (events : List Event) :
    (s.after events).settings = s.settings ∧ (s.after events).grammar = s.grammar := by
  induction events generalizing s with
  | nil => exact ⟨rfl, rfl⟩
  | cons event events ih =>
    obtain ⟨hsettings, hgrammar⟩ := h.settings_grammar_event event
    obtain ⟨hsettings', hgrammar'⟩ := ih (h.event event)
    exact ⟨hsettings'.trans hsettings, hgrammar'.trans hgrammar⟩

end Targeting.Session
