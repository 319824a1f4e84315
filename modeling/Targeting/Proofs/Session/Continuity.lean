import Targeting.Proofs.Session.Description
import Targeting.Proofs.Session.Reopening
import Targeting.Proofs.Session.Revision

/-!
# Reopening between revisions

Some programs keep one session open, others save and reopen it between any two revisions. The trees
are not the same then: nodes get other identifiers in other slots, and names and the description are
made anew. But all that can be seen is read off the outline, which saving and opening keep, so one
cannot tell which program it is.

## Main definitions

* `Observation`, `Session.observe` — what can be seen after a revision
* `Session.watchStaying`, `Session.watchReopening` — what is seen of revisions in one session, and
  in sessions that are saved and opened again after each
* `Outline.watch` — what is seen of revisions of an outline
* `Session.IsEditing` — a session on the settings of an entity with the given outline

## Main results

* `Session.ShowsOutline.observe` — what can be seen is read off the outline
* `Session.IsEditing.revise`, `Session.IsEditing.opened_toSettings` — revisions change the outline,
  saving and opening keep it
* `Session.IsEditing.watch`, `Session.IsEditing.watchReopening` — in either way of working one sees
  what is seen of the outline
* `Session.reopening_is_invisible` — both come to the same
-/

namespace Targeting

/-- What can be seen of a session after a revision: what came of the revision, the phase, the
snapshot for a view, and the settings to save. -/
structure Observation where
  outcome : Outcome
  phase : Session.Phase
  state : Json
  settings : EntitySettings

/-! ### What is seen of an outline -/

namespace Outline

variable {settings : EntitySettings} {grammar : Grammar} {resolve : Resolver}

/-- The description of an outline. -/
def info (resolve : Resolver) (o : Outline) : TargetingInfo where
  categories := (Formula.ofGroups o).keys.eraseDups.map (TargetingInfo.category resolve)
  inclusion := (o.filter fun shape => shape.1 = .inclusion).map (·.2)
  exclusion := (o.find? fun shape => shape.1 = .exclusion).map (·.2)
  unresolved := (Formula.ofGroups o).keys.eraseDups.countP fun key => (resolve key).isNone

/-- What can be seen of an entity with the given outline. -/
def observe (settings : EntitySettings) (resolve : Resolver) (outcome : Outcome) :
    Option Outline → Observation
  | none =>
    { outcome
      phase := .empty
      state := .object [("expression_tree", .null), ("info", .null), ("editable", .bool false)]
      settings := { settings with targeting := none } }
  | some o =>
    { outcome
      phase := .composing
      state := .object [("expression_tree", (Formula.ofGroups o).toJson),
        ("info", (o.info resolve).toJson), ("editable", .bool true)]
      settings := { settings with targeting := some (Formula.ofGroups o).toJson } }

/-- What is seen after each of some revisions. -/
def watch (settings : EntitySettings) (grammar : Grammar) (resolve : Resolver)
    (o : Option Outline) : List Revision → List Observation
  | [] => []
  | revision :: revisions =>
    let (outcome, o) := revise grammar revision o
    observe settings resolve outcome o :: watch settings grammar resolve o revisions

/-- The stored expression plays no part in what is seen. -/
theorem observe_with_targeting (targeting : Option Json) (outcome : Outcome)
    (o : Option Outline) :
    observe { settings with targeting } resolve outcome o
      = observe settings resolve outcome o := by
  cases o <;> rfl

end Outline

namespace Session

open Session.Action

variable {s : Session} {settings : EntitySettings} {grammar : Grammar} {resolve : Resolver}
  {o : Option Outline} {revision : Revision} {revisions : List Revision}

/-! ### Two ways of working -/

/-- What can be seen of the session after a revision. -/
def observe (s : Session) (outcome : Outcome) : Observation :=
  { outcome, phase := s.phase, state := s.state.toJson, settings := s.toSettings }

/-- The session for an entity after its expression has been read. -/
def opened (settings : EntitySettings) (grammar : Grammar) (resolve : Resolver) :
    Except SessionError Session :=
  let (result, s) := load.on (create settings grammar resolve)
  result.map fun _ => s

/-- What is seen after each of some revisions of the session. -/
def watch (s : Session) : List Revision → List Observation
  | [] => []
  | revision :: revisions =>
    let (outcome, s) := s.revise revision
    s.observe outcome :: s.watch revisions

/-- What is seen if an entity is opened once for all revisions. -/
def watchStaying (settings : EntitySettings) (grammar : Grammar) (resolve : Resolver)
    (revisions : List Revision) : Except SessionError (List Observation) := do
  let s ← opened settings grammar resolve
  return s.watch revisions

/-- What is seen if an entity is opened for each revision, and saved after it. -/
def watchReopening (settings : EntitySettings) (grammar : Grammar) (resolve : Resolver) :
    List Revision → Except SessionError (List Observation)
  | [] => return []
  | revision :: revisions => do
    let (outcome, s) := (← opened settings grammar resolve).revise revision
    return s.observe outcome :: (← watchReopening s.toSettings grammar resolve revisions)

/-! ### What can be seen of a session -/

/-- The description of a tree with all names is that of its groups. -/
theorem ofTree_eq_info {t : Tree} {r : NodeId} {gs : List Group} (hgs : t.groups? = some gs)
    (hholds : t.Holds r (.ofGroups (gs.map Group.shape))) (hnamed : t.IsNamed resolve) :
    TargetingInfo.ofTree t true = Outline.info resolve (gs.map Group.shape) := by
  have hinclusion : ((gs.map Group.shape).filter fun shape => shape.1 = .inclusion).map (·.2)
      = (gs.filter fun e => e.role = .inclusion).map Group.categories := by
    rw [List.filter_map, List.map_map]
    rfl
  have hexclusion : ((gs.map Group.shape).find? fun shape => shape.1 = .exclusion).map (·.2)
      = (gs.find? fun e => e.role = .exclusion).map Group.categories := by
    rw [List.find?_map, Option.map_map]
    rfl
  simp only [TargetingInfo.ofTree, Outline.info, if_true, hinclusion, hexclusion,
    TargetingInfo.distinct_categoriesOf hholds hnamed, TargetingInfo.countP_isNone_category,
    Tree.map_groupCategories_inclusionGroups hholds.root hgs,
    Tree.map_groupCategories_exclusionGroup hholds.root hgs, hholds.categoryKeys_eq]

/-- What can be seen is read off the outline. -/
theorem ShowsOutline.observe (h : s.ShowsOutline o) (hdescribed : s.IsDescribed resolve)
    (outcome : Outcome) : s.observe outcome = Outline.observe s.settings resolve outcome o := by
  have hinfo := hdescribed.current
  unfold IsCurrent at hinfo
  cases o with
  | none =>
    obtain ⟨hinit, hnone, hedit⟩ := h
    have hphase : s.phase = .empty := phase_eq_empty_iff.mpr ⟨hinit, hnone⟩
    rw [hnone, Option.map_none] at hinfo
    simp [Session.observe, Outline.observe, hphase, state, State.toJson, toSettings, hnone, hinfo,
      hedit]
  | some o =>
    obtain ⟨root, gs, hshows, rfl⟩ := h
    obtain ⟨t, hopen, hgs, hholds⟩ := hshows.exists_tree
    rw [hopen.tree, Option.map_some, hopen.editable,
      ofTree_eq_info hgs hholds (hdescribed.named hopen.tree)] at hinfo
    simp [Session.observe, Outline.observe, hshows.phase, state, State.toJson, toSettings,
      hopen.tree, hinfo, hopen.editable, hholds.toJson_eq, EntitySettings.present?,
      Formula.isNull_toJson]

/-! ### Sessions on an entity -/

/-- The session is for an entity with the given settings but for the stored expression, which may be
an older one, and shows an outline without empty keys. -/
structure IsEditing (s : Session) (settings : EntitySettings) (grammar : Grammar)
    (resolve : Resolver) (o : Option Outline) : Prop where
  isSound : s.IsSound
  isDescribed : s.IsDescribed resolve
  settings_eq : ∃ targeting, s.settings = { settings with targeting }
  grammar_eq : s.grammar = grammar
  shows : s.ShowsOutline o
  writable : "" ∉ s.keys

theorem IsEditing.observe (h : s.IsEditing settings grammar resolve o) (outcome : Outcome) :
    s.observe outcome = Outline.observe settings resolve outcome o := by
  obtain ⟨targeting, hsettings⟩ := h.settings_eq
  rw [h.shows.observe h.isDescribed, hsettings, Outline.observe_with_targeting]

/-- A revision brings in no key but that of a category that it adds. -/
theorem IsSound.mem_keys_revise {key : String} (h : s.IsSound)
    (hkey : key ∈ (s.revise revision).2.keys) :
    key ∈ s.keys ∨ ∃ place, revision = .change place (.addCategory key) := by
  obtain hsame | ⟨c, hc, hon⟩ := s.revise_cases revision
  · exact Or.inl (hsame ▸ hkey)
  · rw [hon] at hkey
    refine (h.mem_keys_call c hkey).imp_right ?_
    rintro ⟨group, rfl⟩
    -- among revisions, only a change that adds the category comes down to such a call
    cases revision with
    | enableTargeting => cases hc
    | addGroup role => cases hc
    | change place change =>
      obtain ⟨group', -, hcall⟩ := Option.map_eq_some_iff.mp hc
      cases change <;> cases hcall
      exact ⟨place, rfl⟩

/-- A revision that adds no empty key changes the outline, and nothing else that counts. -/
theorem IsEditing.revise (h : s.IsEditing settings grammar resolve o)
    (hadd : ∀ place, revision ≠ .change place (.addCategory "")) :
    (s.revise revision).1 = (Outline.revise grammar revision o).1 ∧
      (s.revise revision).2.IsEditing settings grammar resolve
        (Outline.revise grammar revision o).2 := by
  obtain ⟨houtcome, hshows⟩ := h.shows.revise revision
  rw [h.grammar_eq] at houtcome hshows
  -- the key of a new category is the only one that was not there before
  have hwritable : "" ∉ (s.revise revision).2.keys := by
    intro hempty
    obtain hold | ⟨place, hnew⟩ := h.isSound.mem_keys_revise hempty
    · exact h.writable hold
    · exact hadd place hnew
  refine ⟨houtcome, ?_⟩
  obtain hsame | ⟨c, -, hon⟩ := s.revise_cases revision
  · rw [hsame] at hshows ⊢
    exact { h with shows := hshows }
  · rw [hon] at hshows hwritable ⊢
    obtain ⟨hsettings, hgrammar⟩ := h.isSound.settings_grammar_event (.call c)
    have hfixed : ∀ resolve', Event.call c = .consult resolve' → resolve' = resolve := nofun
    exact ⟨h.isSound.call c, h.isDescribed.event h.isSound hfixed,
      h.settings_eq.imp fun _ => hsettings.trans, hgrammar.trans h.grammar_eq, hshows, hwritable⟩

/-! ### Opening -/

theorem opened_eq (hon : load.on (create settings grammar resolve) = (.ok (), s)) :
    opened settings grammar resolve = .ok s := by
  rw [opened, hon]
  rfl

/-- What is opened is edited, if it shows an outline. -/
theorem isEditing_of_load {result : Except SessionError Unit}
    (hon : load.on (create settings grammar resolve) = (result, s)) (hshows : s.ShowsOutline o)
    (hwritable : "" ∉ s.keys) : s.IsEditing settings grammar resolve o := by
  -- loading is an event, and what holds after all events holds after this one
  have hcreate := isSound_create settings grammar resolve
  have hevent : (Event.load.action.on (create settings grammar resolve)).2 = s := by
    rw [Event.action, on_map, hon]
  have hsound := hcreate.event .load
  have hfixed : ∀ resolve', Event.load = .consult resolve' → resolve' = resolve := by
    intro resolve' heq
    cases heq
  have hdescribed := (isDescribed_create settings grammar resolve).event hcreate hfixed
  obtain ⟨hsettings, hgrammar⟩ := hcreate.settings_grammar_event .load
  rw [hevent] at hsound hdescribed hsettings hgrammar
  exact ⟨hsound, hdescribed, ⟨_, hsettings⟩, hgrammar, hshows, hwritable⟩

/-- Opening an entity without an expression. -/
theorem opened_of_null (grammar : Grammar) (resolve : Resolver)
    (hnull : settings.expression = .null) :
    ∃ s, opened settings grammar resolve = .ok s ∧ s.IsEditing settings grammar resolve none := by
  have hon := on_load_of_null (s := create settings grammar resolve) hnull
  refine ⟨_, opened_eq hon, isEditing_of_load hon ⟨rfl, rfl, rfl⟩ ?_⟩
  rw [keys_eq_nil rfl]
  exact List.not_mem_nil

/-- Opening an entity with groups within the bounds. -/
theorem opened_of_groups (resolve : Resolver) {o : Outline}
    (hexpression : settings.expression = (Formula.ofGroups o).toJson)
    (hwritable : "" ∉ (Formula.ofGroups o).keys)
    (hwithin : ∀ role, o.countP (fun shape => shape.1 = role) ≤ grammar.limit role) :
    ∃ s, opened settings grammar resolve = .ok s ∧
      s.IsEditing settings grammar resolve (some o) := by
  obtain ⟨-, t, r, hholds, hon⟩ | ⟨hempty, -⟩ :=
    load_formula_cases (s := create settings grammar resolve) hexpression
  · have hedit : t.isEditable grammar = true :=
      (Tree.isEditable_iff_formula hholds.root hholds.denotes).mpr ⟨o, rfl, hwithin⟩
    obtain ⟨gs, hgs, hshape⟩ := (Tree.exists_groups?_iff hholds.root).mpr hholds.denotes
    refine ⟨_, opened_eq hon, isEditing_of_load hon ⟨r, gs, ?_, hshape⟩ ?_⟩
    · exact showsGroups_of_isOpen ⟨rfl, hedit, rfl⟩ hgs hholds
    · rwa [keys_eq rfl hholds]
  · exact absurd hempty hwritable

/-- What a session saves is opened again with the same outline, if the grammar has room for the
inclusion group that comes with the root. -/
theorem IsEditing.opened_toSettings (h : s.IsEditing settings grammar resolve o)
    (hroom : 1 ≤ grammar.maxInclusionGroups) :
    ∃ s', opened s.toSettings grammar resolve = .ok s' ∧
      s'.IsEditing settings grammar resolve o := by
  -- what is saved differs from the settings in the expression only
  obtain ⟨targeting, hsettings⟩ := h.settings_eq
  have hbase : ∃ targeting, s.toSettings = { settings with targeting } := by
    rw [toSettings, hsettings]
    exact ⟨_, rfl⟩
  have hrebase : ∀ s' : Session, s'.IsEditing s.toSettings grammar resolve o →
      s'.IsEditing settings grammar resolve o := by
    intro s' h'
    obtain ⟨targeting, hbase⟩ := hbase
    obtain ⟨targeting', hsettings'⟩ := h'.settings_eq
    exact { h' with settings_eq := ⟨targeting', by rw [hsettings', hbase]⟩ }
  have hshows := h.shows
  -- what is saved is `null` without an outline, and otherwise the groups of the outline
  cases o with
  | none =>
    have hnull : s.toSettings.expression = .null := by
      rw [toSettings, EntitySettings.expression, hshows.2.1]
      rfl
    obtain ⟨s', hopened, h'⟩ := opened_of_null grammar resolve hnull
    exact ⟨s', hopened, hrebase s' h'⟩
  | some o =>
    obtain ⟨root, gs, hshows, rfl⟩ := hshows
    obtain ⟨t, hopen, hgs, hholds⟩ := hshows.exists_tree
    have hwritable := h.writable
    rw [keys_eq hopen.tree hholds] at hwritable
    have hwithin : ∀ role,
        (gs.map Group.shape).countP (fun shape => shape.1 = role) ≤ grammar.limit role := by
      intro role
      obtain ⟨gs', hgs', hbound⟩ := h.isSound.editable hopen.tree hopen.editable
      cases hgs.symm.trans hgs'
      rw [Group.countP_map_shape, ← h.grammar_eq, ← bound_eq_limit (s := s) (h.grammar_eq ▸ hroom)]
      exact hbound role
    obtain ⟨s', hopened, h'⟩ :=
      opened_of_groups resolve (expression_toSettings hopen.tree hholds) hwritable hwithin
    exact ⟨s', hopened, hrebase s' h'⟩

/-! ### Either way of working -/

/-- In one session one sees what is seen of the outline. -/
theorem IsEditing.watch (h : s.IsEditing settings grammar resolve o)
    (hadd : ∀ place, .change place (.addCategory "") ∉ revisions) :
    s.watch revisions = Outline.watch settings grammar resolve o revisions := by
  induction revisions generalizing s o with
  | nil => rfl
  | cons revision revisions ih =>
    obtain ⟨houtcome, h'⟩ := h.revise fun place heq => hadd place (heq ▸ List.mem_cons_self)
    rw [Session.watch, Outline.watch]
    dsimp only
    rw [houtcome, h'.observe, ih h' fun place hmem => hadd place (List.mem_cons_of_mem _ hmem)]

/-- In sessions that are saved and opened again one sees what is seen of the outline. -/
theorem IsEditing.watchReopening {stored : EntitySettings}
    (hopened : opened stored grammar resolve = .ok s)
    (h : s.IsEditing settings grammar resolve o) (hroom : 1 ≤ grammar.maxInclusionGroups)
    (hadd : ∀ place, .change place (.addCategory "") ∉ revisions) :
    Session.watchReopening stored grammar resolve revisions
      = .ok (Outline.watch settings grammar resolve o revisions) := by
  induction revisions generalizing s stored o with
  | nil => rfl
  | cons revision revisions ih =>
    obtain ⟨houtcome, h'⟩ := h.revise fun place heq => hadd place (heq ▸ List.mem_cons_self)
    -- the next session begins with what this one has saved
    obtain ⟨s', hopened', hediting⟩ := h'.opened_toSettings hroom
    have hrest := ih hopened' hediting fun place hmem => hadd place (List.mem_cons_of_mem _ hmem)
    simp only [Session.watchReopening, hopened, hrest, houtcome, h'.observe, Outline.watch,
      bind, Except.bind, pure, Except.pure]

/-- If the expression of an entity is absent or editable, the grammar allows an inclusion group, and
no empty key is added, the same is seen after each of some revisions whether they are made in one
session, or each in a session of its own that opens what the one before has saved. -/
theorem reopening_is_invisible (settings : EntitySettings) (grammar : Grammar)
    (resolve : Resolver) (revisions : List Revision) {t : Tree}
    (hread : Tree.ofJson settings.expression = .ok t) (hedit : t.isEditable grammar = true)
    (hroom : 1 ≤ grammar.maxInclusionGroups)
    (hadd : ∀ place, .change place (.addCategory "") ∉ revisions) :
    ∃ seen, watchStaying settings grammar resolve revisions = .ok seen ∧
      watchReopening settings grammar resolve revisions = .ok seen := by
  have hopened : ∃ s o, opened settings grammar resolve = .ok s ∧
      s.IsEditing settings grammar resolve o := by
    rcases Tree.ofJson_cases settings.expression with
      ⟨hnull, -⟩ | ⟨f, hwritable, hexpression, t', r, hread', hholds⟩ |
      ⟨-, -, position, fault, hfail⟩
    · obtain ⟨s, hopened, h⟩ := opened_of_null grammar resolve hnull
      exact ⟨s, none, hopened, h⟩
    · cases hread.symm.trans hread'
      obtain ⟨o, rfl, hwithin⟩ :=
        (Tree.isEditable_iff_formula hholds.root hholds.denotes).mp hedit
      obtain ⟨s, hopened, h⟩ := opened_of_groups resolve hexpression hwritable hwithin
      exact ⟨s, some o, hopened, h⟩
    · rw [hread] at hfail
      cases hfail
  obtain ⟨s, o, hopened, h⟩ := hopened
  refine ⟨_, ?_, h.watchReopening hopened hroom hadd⟩
  rw [watchStaying, hopened, ← h.watch hadd]
  rfl

/-- One session puts the second group into the slot that the first one has left, and a session that
was opened again numbers the nodes anew. A removal at a place without a group is skipped. -/
theorem reopening_is_invisible_with_vacated_slot :
    ∃ seen, watchStaying {} {} .none [.enableTargeting, .change (.inclusion 0) .remove,
        .addGroup .inclusion, .change (.inclusion 0) (.addCategory "sport"),
        .change .exclusion .remove] = .ok seen ∧
      watchReopening {} {} .none [.enableTargeting, .change (.inclusion 0) .remove,
        .addGroup .inclusion, .change (.inclusion 0) (.addCategory "sport"),
        .change .exclusion .remove] = .ok seen ∧
      (seen.map fun o => (o.outcome.isSome, o.settings.targeting)) = [
        (true, some (.object [("and", .array [.object [("or", .array [])]])])),
        (true, some (.object [("and", .array [])])),
        (true, some (.object [("and", .array [.object [("or", .array [])]])])),
        (true, some (.object [("and", .array [.object [("or", .array [
          .object [("category", .string "sport")]])]])])),
        (false, some (.object [("and", .array [.object [("or", .array [
          .object [("category", .string "sport")]])]])]))] := by
  obtain ⟨seen, hstaying, hreopening⟩ := reopening_is_invisible {} {} .none
    [.enableTargeting, .change (.inclusion 0) .remove, .addGroup .inclusion,
      .change (.inclusion 0) (.addCategory "sport"), .change .exclusion .remove]
    rfl rfl (by decide) (by simp)
  refine ⟨seen, hstaying, hreopening, ?_⟩
  cases hstaying
  decide +kernel

end Session

end Targeting
