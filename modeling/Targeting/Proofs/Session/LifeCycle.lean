import Targeting.Proofs.Session.Saving

/-!
# The life of a session

Where a session stands in its life is derived from three fields, of which each action writes some.
Still the phases are those of a small automaton that knows nothing of trees. Loading always leads to
the phase that the stored settings and the grammar call for. Enabling leads on when there is nothing
to edit, and nothing else leads anywhere. A call that is refused or fails leaves the session as it
was, so an expression that must not be edited is saved as it was stored.

## Main definitions

* `Session.loadResult` — the outcome of loading, and the phase that it leads to
* `Session.Event.next` — the phase after an event

## Main results

* `Session.IsSound.phase_event`, `Session.IsSound.phase_after` — the phases of a session are those
  of the automaton
* `Session.IsSound.on_call_error` — a call that fails changes nothing
* `Session.IsSound.composing_after` — a composing session keeps its root until it is loaded again
* `Session.toSettings_eq_of_readOnly` — what must not be edited is saved as it was stored
* `Session.follows_life_cycle` — all of this for every run
-/

namespace Targeting.Session

open Session.Action

variable {s : Session} {t : Tree} {settings : EntitySettings} {grammar : Grammar}

/-! ### The automaton -/

/-- The outcome of loading and the phase that it leads to, from what is stored alone. -/
def loadResult (settings : EntitySettings) (grammar : Grammar) : Except SessionError Unit × Phase :=
  match Tree.ofJson settings.expression with
  | .error e => (.error (.tree e), .uninitialized)
  | .ok t => (.ok (), if t.isEmpty then .empty else if t.isEditable grammar then .composing
      else .readOnly)

/-- The phase after an event, if loading leads to the given one. -/
def Event.next (loaded : Phase) : Event → Phase → Phase
  | .load, _ => loaded
  | .call .enableTargeting, .empty => .composing
  | _, phase => phase

theorem Event.next_of_refusal? {c : Call} {loaded phase : Phase} {e : SessionError}
    (h : c.refusal? phase = some e) : (Event.call c).next loaded phase = phase := by
  cases c <;> cases phase <;> first | rfl | cases h

theorem Event.next_composing {loaded : Phase} {event : Event} (hevent : event ≠ .load) :
    event.next loaded .composing = .composing := by
  cases event with
  | load => exact absurd rfl hevent
  | refresh => rfl
  | consult resolve => rfl
  | call c => cases c <;> rfl

/-- Before loading, and when there is only something to read, every call is refused. -/
theorem Call.exists_refusal? {phase : Phase} (c : Call)
    (hphase : phase = .uninitialized ∨ phase = .readOnly) : ∃ e, c.refusal? phase = some e := by
  rcases hphase with rfl | rfl <;> cases c <;> exact ⟨_, rfl⟩

/-- If loading leads to a session for reading only, nothing leads to any other one. -/
theorem foldl_next_readOnly {phase : Phase} (events : List Event)
    (hphase : phase = .uninitialized ∨ phase = .readOnly) :
    events.foldl (fun phase event => event.next .readOnly phase) phase = .uninitialized ∨
      events.foldl (fun phase event => event.next .readOnly phase) phase = .readOnly := by
  induction events generalizing phase with
  | nil => exact hphase
  | cons event events ih =>
    apply ih
    cases event with
    | load => exact Or.inr rfl
    | refresh => exact hphase
    | consult resolve => exact hphase
    | call c =>
      obtain ⟨e, he⟩ := c.exists_refusal? hphase
      dsimp only
      rwa [Event.next_of_refusal? he]

/-! ### One event -/

/-- What loading comes to does not depend on what was there before. -/
theorem load_eq_loadResult (s : Session) :
    (load.on s).1 = (loadResult s.settings s.grammar).1 ∧
      (load.on s).2.phase = (loadResult s.settings s.grammar).2 := by
  rw [on_load, loadResult]
  cases Tree.ofJson s.settings.expression with
  | error e => exact ⟨rfl, rfl⟩
  | ok t =>
    cases hempty : t.isEmpty <;> simp [hempty, phase, cleared, refreshed]

@[simp] theorem phase_refreshed (s : Session) : s.refreshed.phase = s.phase := by
  simp [phase]

@[simp] theorem root_refreshed (s : Session) : s.refreshed.root = s.root := by
  rw [root, root, tree_refreshed]
  cases s.tree with
  | none => rfl
  | some t =>
    rw [Option.map_some, Option.bind_some, Option.bind_some, ← Tree.root_nameless,
      t.nameless_resolveNames, Tree.root_nameless]

/-- A call that fails leaves the session as it was. -/
theorem IsSound.on_call_error (h : s.IsSound) {c : Call} {e : SessionError}
    (hfail : (c.action.on s).1 = .error e) : (c.action.on s).2 = s := by
  obtain ⟨t, hopen⟩ | ⟨rfl, hinit, hnone⟩ | ⟨e', he⟩ := s.call_cases c
  · obtain ⟨r, f, hholds⟩ := h.holds hopen.tree
    rw [on_call_of_isOpen hopen hholds.root] at hfail ⊢
    have hall := ((c.groupCall r).within s.grammar).isAllOrNothing hholds.isForest
    rcases hrun : ((c.groupCall r).within s.grammar).edit.on t with ⟨e' | a, t'⟩
    · -- the edit has failed as well, so the tree that is stored again is the one from before
      have hsame := hall.of_error (congrArg Prod.fst hrun)
      rw [hrun] at hsame
      dsimp only at hsame ⊢
      rw [hsame, ← hopen.tree]
    · rw [hrun] at hfail
      cases hfail
  · obtain ⟨r, t, id, -, -, hon⟩ := on_first_enableTargeting hinit hnone
    rw [hon] at hfail
    cases hfail
  · rw [on_call_refused he]

/-- A call on an open session keeps it open, with the same root. -/
theorem IsSound.call_of_isOpen (h : s.IsSound) (hopen : s.IsOpen t) (c : Call) :
    (c.action.on s).2.phase = .composing ∧ (c.action.on s).2.root = s.root := by
  obtain ⟨r, f, hholds⟩ := h.holds hopen.tree
  obtain ⟨gs, hgs, hwithin⟩ := h.editable hopen.tree hopen.editable
  obtain ⟨gs', hshows, -⟩ := (c.groupCall r).shows hholds.isForest hholds.root hgs hwithin
    (limit_le_bound s)
  have hroot : s.root = t.root := by rw [root, hopen.tree, Option.bind_some]
  have hcomposing : ∀ t', ({ s with tree := some t' } : Session).phase = .composing := fun t' =>
    phase_eq_composing_iff.mpr ⟨t', hopen.with_tree t'⟩
  rw [on_call_of_isOpen hopen hholds.root, hroot, ← hshows.root]
  rcases ((c.groupCall r).within s.grammar).edit.on t with ⟨e | a, t'⟩
  · exact ⟨hcomposing t', rfl⟩
  · dsimp only
    rw [phase_refreshed, root_refreshed]
    exact ⟨hcomposing t', rfl⟩

/-- Every event moves the phase as the automaton does. -/
theorem IsSound.phase_event (h : s.IsSound) (event : Event) :
    (event.action.on s).2.phase = event.next (loadResult s.settings s.grammar).2 s.phase := by
  cases event with
  | load =>
    rw [Event.action, on_map]
    exact s.load_eq_loadResult.2
  | refresh => exact s.phase_refreshed
  | consult resolve => rfl
  | call c =>
    rw [Event.action]
    -- open sessions compose, first enabling meets nothing to edit, and a refusal moves nothing
    obtain ⟨t, hopen⟩ | ⟨rfl, hinit, hnone⟩ | ⟨e, he⟩ := s.call_cases c
    · have hcall : Event.call c ≠ .load := by simp
      rw [(h.call_of_isOpen hopen c).1, phase_eq_composing_iff.mpr ⟨t, hopen⟩,
        Event.next_composing hcall]
    · obtain ⟨r, t, id, -, -, hon⟩ := on_first_enableTargeting hinit hnone
      rw [hon, phase_refreshed, phase_eq_empty_iff.mpr ⟨hinit, hnone⟩]
      exact phase_eq_composing_iff.mpr ⟨t, hinit, rfl, rfl⟩
    · rw [on_call_refused he, Event.next_of_refusal? he]

/-! ### Runs -/

/-- Every run moves the phase as the automaton does. -/
theorem IsSound.phase_after (h : s.IsSound) (events : List Event) :
    (s.after events).phase = events.foldl
      (fun phase event => event.next (loadResult s.settings s.grammar).2 phase) s.phase := by
  induction events generalizing s with
  | nil => rfl
  | cons event events ih =>
    obtain ⟨hsettings, hgrammar⟩ := h.settings_grammar_event event
    -- the event has changed neither of the two things that decide what loading leads to
    have hrest := ih (h.event event)
    rw [hsettings, hgrammar, h.phase_event event] at hrest
    exact hrest

/-- A composing session stays composing, with the same root, until it is loaded again. -/
theorem IsSound.composing_after (h : s.IsSound) (hphase : s.phase = .composing)
    {events : List Event} (hload : .load ∉ events) :
    (s.after events).phase = .composing ∧ (s.after events).root = s.root := by
  induction events generalizing s with
  | nil => exact ⟨hphase, rfl⟩
  | cons event events ih =>
    rw [List.mem_cons, not_or] at hload
    obtain ⟨hevent, hload⟩ := hload
    have hphase' : (event.action.on s).2.phase = .composing := by
      rw [h.phase_event, hphase, Event.next_composing (Ne.symm hevent)]
    have hroot : (event.action.on s).2.root = s.root := by
      cases event with
      | load => exact absurd rfl hevent
      | refresh => exact s.root_refreshed
      | consult resolve => rfl
      | call c =>
        obtain ⟨t, hopen⟩ := phase_eq_composing_iff.mp hphase
        exact (h.call_of_isOpen hopen c).2
    rw [← hroot]
    exact ih (h.event event) hphase' hload

/-! ### What must not be edited -/

/-- Loading an expression that can be read but not edited. -/
theorem loadResult_eq_readOnly (hread : Tree.ofJson settings.expression = .ok t)
    (hedit : t.isEditable grammar = false) : loadResult settings grammar = (.ok (), .readOnly) := by
  -- an empty tree could be edited
  have hsome : t.isEmpty = false := by
    by_contra hempty
    rw [Bool.not_eq_false, Tree.isEmpty, Option.isNone_iff_eq_none] at hempty
    rw [Tree.isEditable_iff.mpr (Or.inl hempty)] at hedit
    cases hedit
  rw [loadResult, hread]
  simp [hsome, hedit]

/-- No event edits what must not be edited. -/
theorem unedited_of_readOnly (resolve : Resolver) (events : List Event)
    (hloaded : loadResult settings grammar = (.ok (), .readOnly)) :
    (create settings grammar resolve).Unedited events := by
  intro before c later _
  have hphase := (isSound_create settings grammar resolve).phase_after before
  change _ = before.foldl (fun phase event => event.next (loadResult settings grammar).2 phase)
    .uninitialized at hphase
  rw [hloaded] at hphase
  -- so the call comes in a phase that refuses it
  obtain ⟨e, he⟩ := c.exists_refusal? (foldl_next_readOnly before (Or.inl rfl))
  rw [← hphase] at he
  rw [on_call_refused he]

/-- An expression that can be read but not edited is saved as it was stored, whatever is tried. -/
theorem toSettings_eq_of_readOnly (resolve : Resolver) (events : List Event)
    (hread : Tree.ofJson settings.expression = .ok t) (hedit : t.isEditable grammar = false)
    (hrun : (create settings grammar resolve).after events = s)
    (hphase : s.phase ≠ .uninitialized) : s.toSettings = s.settings := by
  have hcreate := isSound_create settings grammar resolve
  have hloaded := loadResult_eq_readOnly hread hedit
  have hshows : s.ShowsStored := by
    rw [← hrun]
    exact ShowsStored.after hcreate rfl (unedited_of_readOnly resolve events hloaded)
  have hsettings : s.settings = settings := by
    rw [← hrun, (hcreate.settings_grammar_after events).1]
    rfl
  have hstored : s.settings.targeting ≠ some .null := by
    rw [hsettings]
    intro hnull
    -- without an expression the result of loading would be another one
    rw [loadResult, EntitySettings.expression, hnull] at hloaded
    cases hloaded
  have hinit : s.initialized = true := by
    rwa [Ne, phase_eq_uninitialized_iff, Bool.not_eq_false] at hphase
  rw [hshows.toSettings_eq hstored, hinit, if_pos rfl]

/-! ### The life of a session -/

/-- In every run, loading comes to the same result and phase whatever happened before, and apart
from it only enabling leads from one phase to another, from nothing to edit to composing. A call
that is refused in the phase of the session, or fails for another reason, leaves the session as it
was. So an expression that can be read but not edited is saved as it was stored, and a composing
session has a live root that stays until the session is loaded again. -/
theorem follows_life_cycle (settings : EntitySettings) (grammar : Grammar) (resolve : Resolver)
    (events : List Event) (hrun : (create settings grammar resolve).after events = s) :
    (load.on s).1 = (loadResult settings grammar).1 ∧
    (∀ event : Event,
      (event.action.on s).2.phase = event.next (loadResult settings grammar).2 s.phase) ∧
    (∀ (c : Call) e, c.refusal? s.phase = some e → c.action.on s = (.error e, s)) ∧
    (∀ (c : Call) e, (c.action.on s).1 = .error e → (c.action.on s).2 = s) ∧
    (∀ t, Tree.ofJson settings.expression = .ok t → t.isEditable grammar = false →
      s.phase ≠ .uninitialized → s.toSettings = s.settings) ∧
    (s.phase = .composing → ∃ t r, s.tree = some t ∧ t.root = some r ∧ t.IsLive r ∧
      ∀ later : List Event, .load ∉ later →
        (s.after later).phase = .composing ∧ (s.after later).root = some r) := by
  have hcreate := isSound_create settings grammar resolve
  have hsound : s.IsSound := by
    rw [← hrun]
    exact hcreate.after events
  obtain ⟨hsettings, hgrammar⟩ : s.settings = settings ∧ s.grammar = grammar := by
    rw [← hrun]
    exact hcreate.settings_grammar_after events
  refine ⟨?_, fun event => ?_, fun c e he => on_call_refused he,
    fun c e hfail => hsound.on_call_error hfail, fun t hread hedit hphase => ?_, fun hphase => ?_⟩
  · rw [← hsettings, ← hgrammar]
    exact s.load_eq_loadResult.1
  · rw [← hsettings, ← hgrammar]
    exact hsound.phase_event event
  · exact toSettings_eq_of_readOnly resolve events hread hedit hrun hphase
  · obtain ⟨t, hopen⟩ := phase_eq_composing_iff.mp hphase
    obtain ⟨r, f, hholds⟩ := hsound.holds hopen.tree
    refine ⟨t, r, hopen.tree, hholds.root, (hholds.isForest.root_isLoose hholds.root).isLive,
      fun later hload => ?_⟩
    have hroot : s.root = some r := by rw [root, hopen.tree, Option.bind_some, hholds.root]
    rw [← hroot]
    exact hsound.composing_after hphase hload

/-- A lone category can be read but not edited, and is saved as it was after all attempts. -/
theorem follows_life_cycle_of_lone_category :
    (create { targeting := some (.object [("category", .string "sport")]) } {} .none).after
        [.call .enableTargeting, .load, .call .enableTargeting, .call (.removeGroup ⟨0, 0⟩)]
      = (load.on (create { targeting := some (.object [("category", .string "sport")]) } {}
          .none)).2 ∧
    ((create { targeting := some (.object [("category", .string "sport")]) } {} .none).after
        [.call .enableTargeting, .load, .call .enableTargeting,
          .call (.removeGroup ⟨0, 0⟩)]).toSettings
      = { targeting := some (.object [("category", .string "sport")]) } := by
  have hrun : (create { targeting := some (.object [("category", .string "sport")]) } {}
        .none).after
        [.call .enableTargeting, .load, .call .enableTargeting, .call (.removeGroup ⟨0, 0⟩)]
      = (load.on (create { targeting := some (.object [("category", .string "sport")]) } {}
          .none)).2 := rfl
  refine ⟨hrun, ?_⟩
  rw [hrun]
  exact (follows_life_cycle _ _ _ _ hrun).2.2.2.2.1 _ rfl rfl (by decide)

end Targeting.Session
