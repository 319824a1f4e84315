import Targeting.Proofs.Expression.Equality
import Targeting.Proofs.Session.Editable
import Targeting.Proofs.Session.Groups

/-!
# Opening again what was saved

What a session saves can be opened again unless it holds a category with an empty key, which can be
added but not read. The tree of the session that is opened is structurally equal to the one that was
saved. Stored expressions have no empty keys, so there is one only if it was added.

## Main definitions

* `Session.keys` — the category keys of a session
* `Session.AgreesWith` — sessions with structurally equal trees

## Main results

* `Session.IsSound.load_toSettings` — what loading makes of the settings that a session saves
* `Session.IsSound.mem_keys_after` — a key is a stored one or was added
* `Session.reopens_iff` — both for every run
-/

namespace Targeting

namespace Session

open Session.Action

variable {s s' : Session} {t : Tree} {r root : NodeId} {f : Formula} {gs gs' : List Group}
  {g : Grammar} {key : String} {result : Except TreeError Tree.Answer}

/-- The category keys of the tree of a session. -/
def keys (s : Session) : List String := (s.tree.map Tree.categoryKeys).getD []

/-- The sessions have no trees, or trees that are structurally equal. -/
def AgreesWith (s s' : Session) : Prop :=
  Option.Rel (fun t t' => t.structurallyEqual t' = true) s.tree s'.tree

theorem keys_eq (htree : s.tree = some t) (hholds : t.Holds r f) : s.keys = f.keys := by
  rw [keys, htree, Option.map_some, Option.getD_some, hholds.categoryKeys_eq]

theorem keys_eq_nil (htree : s.tree = none) : s.keys = [] := by
  rw [keys, htree]
  rfl

/-! ### Loading what was saved -/

/-- The settings that a session saves are loaded without failure, and the trees are structurally
equal; but if there is an empty key, they are refused as malformed. -/
theorem IsSound.load_toSettings (h : s.IsSound) (resolve : Resolver) :
    ("" ∉ s.keys ∧ ∃ s', load.on (create s.toSettings s.grammar resolve) = (.ok (), s') ∧
      s'.initialized = true ∧ s.AgreesWith s') ∨
    ("" ∈ s.keys ∧ ∃ position fault s',
      load.on (create s.toSettings s.grammar resolve)
        = (.error (.tree (.malformed position fault)), s') ∧ s'.phase = .uninitialized) := by
  cases htree : s.tree with
  | none =>
    have hnull : (create s.toSettings s.grammar resolve).settings.expression = .null := by
      rw [create, toSettings, EntitySettings.expression, htree]
      rfl
    refine Or.inl ⟨by simp [keys_eq_nil htree], _, on_load_of_null hnull, rfl, ?_⟩
    rw [AgreesWith, htree]
    exact .none
  | some t =>
    obtain ⟨r, f, hholds⟩ := h.holds htree
    rw [keys_eq htree hholds]
    have hexpression : (create s.toSettings s.grammar resolve).settings.expression = f.toJson :=
      expression_toSettings htree hholds
    rcases load_formula_cases hexpression with
      ⟨hwritable, t', r', hholds', hon⟩ | ⟨hempty, position, fault, hon⟩
    · refine Or.inl ⟨hwritable, _, hon, rfl, ?_⟩
      rw [AgreesWith, htree]
      -- both trees hold the formula that was saved
      exact .some ((Tree.structurallyEqual_iff hholds.isForest hholds'.isForest hholds.root
        hholds'.root hholds.denotes hholds'.denotes).mpr rfl)
    · exact Or.inr ⟨hempty, position, fault, _, hon, rfl⟩

/-! ### Where keys come from -/

/-- A call brings no key into the list of groups but that of a category that it adds. -/
theorem Call.Does.mem_categories {c : Call} {e' : Group} (h : c.Does g root gs result gs')
    (he' : e' ∈ gs') (hkey : key ∈ e'.categories) :
    (∃ e ∈ gs, key ∈ e.categories) ∨ ∃ group, c = .addCategory group key := by
  obtain hnil | ⟨e, he, hsame | ⟨group, name, rfl, hadded⟩ | ⟨group, name, -, herased⟩⟩ :=
    h.categories_cases he'
  · rw [hnil] at hkey
    cases hkey
  · exact Or.inl ⟨e, he, hsame ▸ hkey⟩
  · rw [hadded, mem_insertKey] at hkey
    exact hkey.imp (fun hold => ⟨e, he, hold⟩) fun heq => ⟨group, by rw [heq]⟩
  · rw [herased] at hkey
    exact Or.inl ⟨e, he, List.mem_of_mem_erase hkey⟩

/-- The keys of a session whose tree is a list of groups. -/
theorem mem_keys_iff (htree : s.tree = some t)
    (hholds : t.Holds r (.ofGroups (gs.map Group.shape))) :
    key ∈ s.keys ↔ ∃ e ∈ gs, key ∈ e.categories := by
  rw [keys_eq htree hholds, Formula.mem_keys_ofGroups]
  constructor
  · rintro ⟨shape, hshape, hkey⟩
    obtain ⟨e, he, rfl⟩ := List.mem_map.mp hshape
    exact ⟨e, he, hkey⟩
  · rintro ⟨e, he, hkey⟩
    exact ⟨e.shape, List.mem_map_of_mem he, hkey⟩

/-- Describing the tree anew keeps the keys. -/
theorem IsSound.keys_refreshed (h : s.IsSound) : s.refreshed.keys = s.keys := by
  rw [keys, keys, h.map_tree_refreshed]
  intro t t' r f hholds hholds'
  rw [hholds.categoryKeys_eq, hholds'.categoryKeys_eq]

/-- The keys after a call on an open session are those of the groups afterwards. -/
theorem mem_keys_call_of_isOpen (hopen : s.IsOpen t) (hroot : t.root = some r) (c : Call)
    (hafter : (((c.groupCall r).within s.grammar).edit.on t).2.Holds r
      (.ofGroups (gs.map Group.shape))) :
    key ∈ (c.action.on s).2.keys ↔ ∃ e ∈ gs, key ∈ e.categories := by
  rw [on_call_of_isOpen hopen hroot]
  rcases hrun : ((c.groupCall r).within s.grammar).edit.on t with ⟨e | a, t'⟩
  · rw [hrun] at hafter
    exact mem_keys_iff rfl hafter
  · -- after a success the tree is described anew, which keeps the formula
    rw [hrun] at hafter
    obtain ⟨t'', htree, hholds⟩ :=
      exists_holds_refreshed (s := { s with tree := some t' }) rfl hafter
    exact mem_keys_iff htree hholds

/-- A call brings no key into the session but that of a category that it adds. -/
theorem IsSound.mem_keys_call (h : s.IsSound) (c : Call) (hkey : key ∈ (c.action.on s).2.keys) :
    key ∈ s.keys ∨ ∃ group, c = .addCategory group key := by
  obtain ⟨t, hopen⟩ | ⟨rfl, hinit, hnone⟩ | ⟨e, he⟩ := s.call_cases c
  · obtain ⟨r, f, hholds⟩ := h.holds hopen.tree
    obtain ⟨gs, hgs, -⟩ := h.editable hopen.tree hopen.editable
    obtain ⟨gs', hdoes, hshows, -⟩ : ∃ gs', c.Does s.grammar r gs
        (((c.groupCall r).within s.grammar).edit.on t).1 gs' ∧ _ := c.does hholds hgs
    have hbefore := hholds.of_shows (.refl hholds.isForest hgs)
    obtain ⟨e, he, hkey⟩ :=
      (mem_keys_call_of_isOpen hopen hholds.root c (hholds.of_shows hshows)).mp hkey
    exact (hdoes.mem_categories he hkey).imp_left (mem_keys_iff hopen.tree hbefore).mpr
  · obtain ⟨r, t, id, hholds, hgs, hon⟩ := on_first_enableTargeting hinit hnone
    obtain ⟨t', htree, hholds'⟩ := exists_holds_refreshed (s := s.withTree t) rfl hholds
    have hkeys : key ∈ (s.withTree t).refreshed.keys ↔
        ∃ e ∈ [(⟨.inclusion, id, []⟩ : Group)], key ∈ e.categories := mem_keys_iff htree hholds'
    -- the group that comes with the root has no categories
    rw [hon, hkeys] at hkey
    simp at hkey
  · rw [on_call_refused he] at hkey
    exact Or.inl hkey

/-- The stored expression can be read and has the key. -/
def IsStoredKey (s : Session) (key : String) : Prop :=
  ∃ f : Formula, "" ∉ f.keys ∧ s.settings.expression = f.toJson ∧ key ∈ f.keys

/-- After an event, a key was there before, is a stored one, or was added by the event. -/
theorem IsSound.mem_keys_event (h : s.IsSound) (event : Event)
    (hkey : key ∈ (event.action.on s).2.keys) :
    key ∈ s.keys ∨ s.IsStoredKey key ∨ ∃ group, event = .call (.addCategory group key) := by
  cases event with
  | load =>
    rw [Event.action, on_map] at hkey
    rcases s.load_cases with
      ⟨-, hon⟩ | ⟨f, t, r, hwritable, hexpression, hholds, hon⟩ | ⟨-, -, position, fault, hon⟩
    · rw [hon, keys_eq_nil rfl] at hkey
      cases hkey
    · rw [hon, keys_eq rfl hholds] at hkey
      exact Or.inr (Or.inl ⟨f, hwritable, hexpression, hkey⟩)
    · rw [hon, keys_eq_nil rfl] at hkey
      cases hkey
  | refresh =>
    rw [Event.action, on_map] at hkey
    exact Or.inl (h.keys_refreshed ▸ hkey)
  | consult resolve => exact Or.inl hkey
  | call c =>
    rcases h.mem_keys_call c hkey with hold | ⟨group, rfl⟩
    · exact Or.inl hold
    · exact Or.inr (Or.inr ⟨group, rfl⟩)

/-- After a run, a key was there before, is a stored one, or was added by a call. -/
theorem IsSound.mem_keys_after (h : s.IsSound) (events : List Event)
    (hkey : key ∈ (s.after events).keys) :
    key ∈ s.keys ∨ s.IsStoredKey key ∨ ∃ group, .call (.addCategory group key) ∈ events := by
  induction events generalizing s with
  | nil => exact Or.inl hkey
  | cons event events ih =>
    rcases ih (h.event event) hkey with hold | hstored | ⟨group, hadded⟩
    · rcases h.mem_keys_event event hold with hold | hstored | ⟨group, rfl⟩
      · exact Or.inl hold
      · exact Or.inr (Or.inl hstored)
      · exact Or.inr (Or.inr ⟨group, List.mem_cons_self⟩)
    · -- events leave the stored settings as they are
      rw [IsStoredKey, (h.settings_grammar_event event).1] at hstored
      exact Or.inr (Or.inl hstored)
    · exact Or.inr (Or.inr ⟨group, List.mem_cons_of_mem event hadded⟩)

/-- In a new session an empty key is one that was added. -/
theorem added_of_empty_key {settings : EntitySettings} {grammar : Grammar} {resolve : Resolver}
    {events : List Event} (hkey : "" ∈ ((create settings grammar resolve).after events).keys) :
    ∃ group, .call (.addCategory group "") ∈ events := by
  rcases (isSound_create settings grammar resolve).mem_keys_after events hkey with
    hold | ⟨f, hwritable, -, hstored⟩ | hadded
  · cases hold
  · exact absurd hstored hwritable
  · exact hadded

/-! ### Runs -/

/-- What a run leaves behind is saved and opened again without failure if and only if no category
has an empty key, and then the trees are structurally equal. If there is an empty key, which only a
call that adds it can bring about, what was saved is refused as malformed. -/
theorem reopens_iff (settings : EntitySettings) (grammar : Grammar) (resolve resolve' : Resolver)
    (events : List Event) (hrun : (create settings grammar resolve).after events = s) :
    ∃ result s', load.on (create s.toSettings grammar resolve') = (result, s') ∧
      (result = .ok () ↔ "" ∉ s.keys) ∧
      (result = .ok () → s'.initialized = true ∧ s.AgreesWith s') ∧
      (∀ e, result = .error e → s'.phase = .uninitialized ∧
        ∃ position fault, e = .tree (.malformed position fault)) ∧
      ((∀ group, .call (.addCategory group "") ∉ events) → result = .ok ()) := by
  have hsound := (isSound_create settings grammar resolve).after events
  obtain rfl : s.grammar = grammar := by
    rw [← hrun, ((isSound_create settings grammar resolve).settings_grammar_after events).2]
    rfl
  rw [hrun] at hsound
  rcases hsound.load_toSettings resolve' with
    ⟨hwritable, s', hon, hinit, hagrees⟩ | ⟨hempty, position, fault, s', hon, hphase⟩
  · refine ⟨_, s', hon, ⟨fun _ => hwritable, fun _ => rfl⟩, fun _ => ⟨hinit, hagrees⟩, ?_,
      fun _ => rfl⟩
    intro e hfail
    cases hfail
  · refine ⟨_, s', hon, ⟨nofun, fun hno => absurd hempty hno⟩, nofun, ?_, fun hnone => ?_⟩
    · intro e hfail
      cases hfail
      exact ⟨hphase, position, fault, rfl⟩
    · obtain ⟨group, hadded⟩ := added_of_empty_key (hrun ▸ hempty)
      exact absurd hadded (hnone group)

/-- A session to which an empty key was added is saved and cannot be opened again. -/
theorem reopens_iff_empty_key_added :
    ∃ s, (create {} {} .none).after [.load, .call .enableTargeting,
        .call (.addCategory ⟨1, 0⟩ "")] = s ∧ s.phase = .composing ∧
      ∃ e s', load.on (create s.toSettings {} .none) = (.error e, s') ∧
        s'.phase = .uninitialized := by
  refine ⟨_, rfl, by decide, ?_⟩
  obtain ⟨result, s', hon, hok, -, hfail, -⟩ := reopens_iff {} {} .none .none
    [.load, .call .enableTargeting, .call (.addCategory ⟨1, 0⟩ "")] rfl
  cases result with
  | ok => exact absurd (by decide) (hok.mp rfl)
  | error e => exact ⟨e, s', hon, (hfail e rfl).1⟩

end Session

end Targeting
