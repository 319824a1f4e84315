import Targeting.Proofs.Entity
import Targeting.Proofs.Session.Sound

/-!
# Saving what was not edited

Without edits a loaded session saves the settings as they were stored. A session that was never
loaded, or whose expression turned out to be malformed, has no tree; it saves settings without an
expression, and so the stored expression is lost without an edit.

## Main definitions

* `Session.written` — what the tree of a session is written as
* `Session.Unedited` — events among which no call changes what is written
* `Session.ShowsStored` — the tree is the stored expression, or was not loaded

## Main results

* `Session.ShowsStored.after` — a run without edits shows what is stored all along
* `Session.toSettings_eq_iff_of_unedited` — when a run without edits saves what was stored
-/

namespace Targeting

namespace EntitySettings

/-- Settings that were read hold no expression rather than `null`. -/
theorem targeting_ne_null_of_ofMembers? {members : List (String × Json)} {s : EntitySettings}
    (h : ofMembers? members = some s) : s.targeting ≠ some .null :=
  (isProper_of_ofMembers? h).targeting_ne_null

/-- Unless it is `null`, the expression is stored as it is. -/
theorem present?_expression {s : EntitySettings} (h : s.targeting ≠ some .null) :
    present? s.expression = s.targeting := by
  unfold expression
  cases htargeting : s.targeting with
  | none => rfl
  | some value =>
    exact present?_of_ne_null fun hnull => h (htargeting.trans (congrArg some hnull))

end EntitySettings

namespace Session

open Session.Action

variable {s : Session} {events : List Event}

/-- What the tree of a session is written as, `null` without a tree. -/
def written (s : Session) : Json := (s.tree.map Tree.toJson).getD .null

/-- No call among the events changes what the tree is written as. -/
def Unedited (s : Session) (events : List Event) : Prop :=
  ∀ before c later, events = before ++ .call c :: later →
    (c.action.on (s.after before)).2.written = (s.after before).written

/-- Saving replaces the expression by what the tree is written as. -/
theorem toSettings_eq (s : Session) :
    s.toSettings = { s.settings with targeting := EntitySettings.present? s.written } := by
  unfold toSettings written
  cases s.tree <;> rfl

/-! ### What events do to what is written -/

theorem written_eq {t : Tree} {r : NodeId} {f : Formula} (htree : s.tree = some t)
    (hholds : t.Holds r f) : s.written = f.toJson := by
  rw [written, htree, Option.map_some, Option.getD_some, hholds.toJson_eq]

/-- Describing the tree anew changes nothing that is written. -/
theorem IsSound.written_refreshed (h : s.IsSound) : s.refreshed.written = s.written := by
  rw [written, written, h.map_tree_refreshed]
  intro t t' r f hholds hholds'
  rw [hholds.toJson_eq, hholds'.toJson_eq]

/-- A call changes nothing about whether the session has been loaded. -/
theorem IsSound.initialized_on_call (h : s.IsSound) (c : Call) :
    (c.action.on s).2.initialized = s.initialized := by
  obtain hsame | ⟨t, r, f, gs, -, -, -, hon | hon⟩ := h.on_call c
  · rw [hsame]
  · rw [hon]
    rfl
  · rw [hon, initialized_refreshed]
    rfl

/-- The session shows what is stored: the stored expression once it has been loaded, and nothing
before. -/
def ShowsStored (s : Session) : Prop :=
  s.written = if s.initialized then s.settings.expression else .null

/-- Loading either shows what is stored or fails. -/
theorem showsStored_load (s : Session) : (load.on s).2.ShowsStored := by
  rcases s.load_cases with
    ⟨hnull, hon⟩ | ⟨f, t, r, -, hexpression, hholds, hon⟩ | ⟨-, -, position, fault, hon⟩
  · rw [hon]
    exact hnull.symm
  · rw [hon, ShowsStored, written_eq rfl hholds]
    exact hexpression.symm
  · rw [hon]
    rfl

/-- An event that is not an edit keeps showing what is stored. -/
theorem ShowsStored.event (h : s.IsSound) (hs : s.ShowsStored) (event : Event)
    (hcall : ∀ c, event = .call c → (c.action.on s).2.written = s.written) :
    (event.action.on s).2.ShowsStored := by
  cases event with
  | load =>
    rw [Event.action, on_map]
    exact s.showsStored_load
  | refresh =>
    rw [Event.action, on_map]
    change s.refreshed.ShowsStored
    rw [ShowsStored, h.written_refreshed, initialized_refreshed, settings_refreshed]
    exact hs
  | consult resolve => exact hs
  | call c =>
    -- a call can change neither side of the equation but through the tree
    have hsettings := (h.settings_grammar_event (.call c)).1
    rw [Event.action] at hsettings ⊢
    rw [ShowsStored, hcall c rfl, h.initialized_on_call c, hsettings]
    exact hs

/-- Without edits a session shows what is stored all along. -/
theorem ShowsStored.after (h : s.IsSound) (hs : s.ShowsStored) (hunedited : s.Unedited events) :
    (s.after events).ShowsStored := by
  induction events generalizing s with
  | nil => exact hs
  | cons event events ih =>
    apply ih (h.event event)
    · apply hs.event h event
      rintro c rfl
      exact hunedited [] c events rfl
    · -- what comes before a later call has this event in front
      intro before c later heq
      exact hunedited (event :: before) c later (by rw [heq]; rfl)

/-! ### Saving -/

/-- A session that shows what is stored saves it once it has been loaded. Before, or after loading
has failed, it saves no expression. -/
theorem ShowsStored.toSettings_eq (hs : s.ShowsStored)
    (hstored : s.settings.targeting ≠ some .null) :
    s.toSettings = { s.settings with
      targeting := if s.initialized then s.settings.targeting else none } := by
  rw [Session.toSettings_eq, hs]
  cases s.initialized with
  | true => rw [if_pos rfl, if_pos rfl, EntitySettings.present?_expression hstored]
  | false => rfl

/-- A run without edits saves the settings as they were stored if and only if the session is loaded
in the end or no expression was stored. In any other case the expression is lost. -/
theorem toSettings_eq_iff_of_unedited (settings : EntitySettings) (grammar : Grammar)
    (resolve : Resolver) (events : List Event) (hstored : settings.targeting ≠ some .null)
    (hunedited : (create settings grammar resolve).Unedited events)
    (hrun : (create settings grammar resolve).after events = s) :
    s.settings = settings ∧
    (s.toSettings = settings ↔ s.phase ≠ .uninitialized ∨ settings.targeting = none) ∧
    (s.phase = .uninitialized → s.toSettings = { settings with targeting := none }) := by
  have hcreate := isSound_create settings grammar resolve
  have hshows : s.ShowsStored := by
    rw [← hrun]
    exact ShowsStored.after hcreate rfl hunedited
  obtain rfl : s.settings = settings := by
    rw [← hrun, (hcreate.settings_grammar_after events).1]
    rfl
  rw [Ne, phase_eq_uninitialized_iff, hshows.toSettings_eq hstored]
  refine ⟨rfl, ?_, fun hinit => by rw [hinit, if_neg Bool.false_ne_true]⟩
  cases hinit : s.initialized with
  | true => simp
  | false =>
    -- nothing but the expression can differ
    simp only [Bool.false_eq_true, if_false, not_true, false_or]
    constructor
    · intro hsame
      exact (congrArg EntitySettings.targeting hsame).symm
    · intro hnone
      rw [← hnone]

/-- A malformed expression is lost if the session that failed to load it is saved. -/
theorem toSettings_ne_of_malformed :
    EntitySettings.ofMembers? [("audienceTargeting", .object [("xor", .array [])])]
      = some { targeting := some (.object [("xor", .array [])]) } ∧
    (create { targeting := some (.object [("xor", .array [])]) } {} .none).Unedited [.load] ∧
    ((create { targeting := some (.object [("xor", .array [])]) } {} .none).after
      [.load]).toSettings ≠ { targeting := some (.object [("xor", .array [])]) } := by
  have hread : EntitySettings.ofMembers? [("audienceTargeting", .object [("xor", .array [])])]
      = some { targeting := some (.object [("xor", .array [])]) } := rfl
  have hunedited : (create { targeting := some (.object [("xor", .array [])]) } {}
      .none).Unedited [.load] := by
    intro before c later heq
    cases before <;> simp at heq
  refine ⟨hread, hunedited, fun hsame => ?_⟩
  have hstored := EntitySettings.targeting_ne_null_of_ofMembers? hread
  have hloaded := (toSettings_eq_iff_of_unedited _ _ _ _ hstored hunedited rfl).2.1.mp hsame
  rcases hloaded with hphase | hnone
  · exact hphase rfl
  · cases hnone

end Session

end Targeting
