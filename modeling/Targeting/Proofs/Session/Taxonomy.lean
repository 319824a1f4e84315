import Targeting.Proofs.Session.Description
import Targeting.Proofs.Tree.Blindness

/-!
# A taxonomy only gives names

The taxonomy is asked again and again while a session is edited, and what it answers is written into
the nodes that edits go through. Still it has a say in names only. Two sessions that are treated
alike under different taxonomies, each of which may change its mind at any time, answer alike and
stay equal but for names, and for the description where it shows them.

## Main definitions

* `Session.nameless` — a session with everything erased that a taxonomy has a say in
* `Session.Turn`, `Session.play`, `Session.acts` — runs in which the taxonomy may change its mind,
  and what is done to the session in them
* `TargetingInfo.SameButNames` — descriptions that differ in names only
* `Session.AgreesButNames` — sessions that cannot be told apart but by names

## Main results

* `Session.IsSound.event_blind` — one event
* `Session.nameless_play` — a run depends on what is done in it alone
* `Session.agreesButNames` — sessions that are equal but for names agree in all that can be observed
* `Session.taxonomy_only_names` — runs under different taxonomies
-/

namespace Targeting

namespace TargetingInfo

variable {t t' : Tree} {r : NodeId} {f : Formula}

/-- The descriptions differ in the names of categories only, and in how many have none. -/
structure SameButNames (info info' : TargetingInfo) : Prop where
  keys : info'.categories.map (·.key) = info.categories.map (·.key)
  inclusion : info'.inclusion = info.inclusion
  exclusion : info'.exclusion = info.exclusion

theorem map_key_categoriesOf (t : Tree) : (categoriesOf t).map (·.key) = t.categoryKeys := by
  rw [categoriesOf, List.map_filterMap, Tree.categoryKeys]
  congr 1
  funext entry
  obtain ⟨id, node⟩ := entry
  dsimp only
  cases node.kind.categoryKey? <;> rfl

theorem sameButNames_ofTree (h : t.Holds r f) (heq : t'.nameless = t.nameless) (editable : Bool) :
    (ofTree t editable).SameButNames (ofTree t' editable) := by
  have hgroups : t'.inclusionGroups = t.inclusionGroups :=
    Tree.eq_of_nameless_eq Tree.inclusionGroups_nameless heq
  have hgroup : t'.exclusionGroup = t.exclusionGroup :=
    Tree.eq_of_nameless_eq Tree.exclusionGroup_nameless heq
  have hcategories : t'.groupCategories = t.groupCategories :=
    Tree.eq_of_nameless_eq Tree.groupCategories_nameless heq
  refine ⟨?_, ?_, ?_⟩
  · -- the distinct keys are those of the formula
    dsimp only [ofTree]
    rw [map_key_distinct, map_key_distinct, map_key_categoriesOf, map_key_categoriesOf,
      h.categoryKeys_eq, (h.of_nameless_eq heq).categoryKeys_eq]
  · simp only [ofTree, hgroups, hcategories]
  · simp only [ofTree, hgroup, hcategories]

end TargetingInfo

namespace Tree

/-- The tree with other names for the nodes reached from the root. -/
def rename (t : Tree) (names : NodeId → Option String) : Tree :=
  (t.preorder.map (·.1)).foldl
    (fun t id => t.modifyNode id fun n => { n with displayName := names id }) t

theorem nameless_rename (t : Tree) (names : NodeId → Option String) :
    (t.rename names).nameless = t.nameless := by
  unfold rename
  generalize t.preorder.map (·.1) = ids
  induction ids generalizing t with
  | nil => rfl
  | cons id ids ih =>
    rw [List.foldl_cons, ih]
    exact nameless_modifyNode t id fun _ => rfl

end Tree

namespace Session

open Session.Action

variable {α : Type} {s s' : Session} {t t' : Tree}

/-! ### Sessions without names -/

/-- A session with everything erased that a taxonomy has a say in. -/
def nameless (s : Session) : Session :=
  { s with resolve := .none, tree := s.tree.map Tree.nameless, info := none }

theorem nameless_eq_iff :
    s'.nameless = s.nameless ↔ s'.settings = s.settings ∧ s'.grammar = s.grammar ∧
      s'.tree.map Tree.nameless = s.tree.map Tree.nameless ∧ s'.editable = s.editable ∧
      s'.initialized = s.initialized := by
  simp [nameless]

/-- Sessions that are equal but for names have no trees, or trees that are equal but for names. -/
theorem tree_cases_of_nameless_eq (heq : s'.nameless = s.nameless) :
    (s.tree = none ∧ s'.tree = none) ∨
    ∃ t t', s.tree = some t ∧ s'.tree = some t' ∧ t'.nameless = t.nameless := by
  obtain ⟨-, -, htree, -, -⟩ := nameless_eq_iff.mp heq
  cases hs : s.tree with
  | none =>
    rw [hs, Option.map_none, Option.map_eq_none_iff] at htree
    exact Or.inl ⟨rfl, htree⟩
  | some t =>
    rw [hs, Option.map_some, Option.map_eq_some_iff] at htree
    obtain ⟨t', ht', hsame⟩ := htree
    exact Or.inr ⟨t, t', rfl, ht', hsame⟩

/-- What can be read of the tree without names is the same. -/
theorem map_tree_of_nameless_eq {read : Tree → α} (hread : ∀ t, read t.nameless = read t)
    (heq : s'.nameless = s.nameless) : s'.tree.map read = s.tree.map read := by
  obtain ⟨hnone, hnone'⟩ | ⟨t, t', ht, ht', hsame⟩ := tree_cases_of_nameless_eq heq
  · rw [hnone, hnone']
  · rw [ht, ht', Option.map_some, Option.map_some, Tree.eq_of_nameless_eq hread hsame]

theorem bind_tree_of_nameless_eq {read : Tree → Option α} (hread : ∀ t, read t.nameless = read t)
    (heq : s'.nameless = s.nameless) : s'.tree.bind read = s.tree.bind read := by
  obtain ⟨hnone, hnone'⟩ | ⟨t, t', ht, ht', hsame⟩ := tree_cases_of_nameless_eq heq
  · rw [hnone, hnone']
  · rw [ht, ht', Option.bind_some, Option.bind_some, Tree.eq_of_nameless_eq hread hsame]

theorem any_tree_of_nameless_eq {p : Tree → Bool} (hread : ∀ t, p t.nameless = p t)
    (heq : s'.nameless = s.nameless) : s'.tree.any p = s.tree.any p := by
  have hmap := congrArg (Option.any id) (map_tree_of_nameless_eq hread heq)
  rwa [Option.any_map, Option.any_map] at hmap

theorem phase_nameless (s : Session) : s.nameless.phase = s.phase := by
  unfold phase nameless
  cases s.initialized <;> cases s.tree <;> cases s.editable <;> rfl

@[simp] theorem nameless_refreshed (s : Session) : s.refreshed.nameless = s.nameless := by
  rw [nameless_eq_iff]
  refine ⟨s.settings_refreshed, s.grammar_refreshed, ?_, s.editable_refreshed,
    s.initialized_refreshed⟩
  rw [tree_refreshed, Option.map_map]
  congr 1
  funext t
  exact t.nameless_resolveNames s.resolve

theorem IsSound.of_nameless_eq (h : s.IsSound) (heq : s'.nameless = s.nameless) : s'.IsSound := by
  obtain ⟨hsettings, hgrammar, htree, hedit, hinit⟩ := nameless_eq_iff.mp heq
  refine h.congr hsettings hgrammar hedit (fun {t'} ht' => ?_) fun hnone hinit' => Or.inl ?_
  · rw [ht', Option.map_some, eq_comm, Option.map_eq_some_iff] at htree
    obtain ⟨t, ht, hsame⟩ := htree
    exact ⟨t, ht, hsame.symm⟩
  · rw [hnone, Option.map_none, eq_comm, Option.map_eq_none_iff] at htree
    exact ⟨htree, hinit ▸ hinit'⟩

/-! ### One event -/

/-- Putting trees that are equal but for names into sessions that are. -/
theorem nameless_with_tree (heq : s'.nameless = s.nameless) (htree : t'.nameless = t.nameless) :
    ({ s' with tree := some t' } : Session).nameless
      = ({ s with tree := some t } : Session).nameless := by
  rw [nameless_eq_iff] at heq ⊢
  refine ⟨heq.1, heq.2.1, ?_, heq.2.2.2⟩
  rw [Option.map_some, Option.map_some, htree]

theorem load_blind (heq : s'.nameless = s.nameless) :
    (load.on s').1 = (load.on s).1 ∧ (load.on s').2.nameless = (load.on s).2.nameless := by
  obtain ⟨hsettings, hgrammar, -⟩ := nameless_eq_iff.mp heq
  rw [on_load, on_load, hsettings]
  cases Tree.ofJson s.settings.expression with
  | error e => exact ⟨rfl, nameless_eq_iff.mpr ⟨hsettings, hgrammar, rfl, rfl, rfl⟩⟩
  | ok t =>
    cases hempty : t.isEmpty with
    | true =>
      simp only [hempty, if_true]
      exact ⟨trivial, nameless_eq_iff.mpr ⟨hsettings, hgrammar, rfl, rfl, rfl⟩⟩
    | false =>
      simp only [hempty, Bool.false_eq_true, if_false, refreshed, cleared]
      refine ⟨trivial, nameless_eq_iff.mpr ⟨hsettings, hgrammar, ?_, ?_, rfl⟩⟩
      · simp only [Option.map_some, Tree.nameless_resolveNames]
      · dsimp only
        rw [hgrammar]

/-- An edit that does not see names runs on two trees that differ in nothing else. -/
theorem IsSound.call_blind_of_isOpen (h : s.IsSound) (heq : s'.nameless = s.nameless)
    (hopen : s.IsOpen t) (c : Call) :
    (c.action.on s').1 = (c.action.on s).1 ∧
      (c.action.on s').2.nameless = (c.action.on s).2.nameless := by
  obtain ⟨-, hgrammar, -, hedit, hinit⟩ := nameless_eq_iff.mp heq
  obtain ⟨hnone, -⟩ | ⟨t₀, t', ht, ht', hsame⟩ := tree_cases_of_nameless_eq heq
  · rw [hopen.tree] at hnone
    cases hnone
  cases hopen.tree.symm.trans ht
  obtain ⟨r, f, hholds⟩ := h.holds ht
  have hopen' : s'.IsOpen t' := ⟨hinit.trans hopen.initialized, hedit.trans hopen.editable, ht'⟩
  have hwithin : (c.groupCall r).within s'.grammar = (c.groupCall r).within s.grammar := by
    rw [hgrammar]
  obtain ⟨hresult, hafter⟩ := ((c.groupCall r).within s.grammar).isBlind t t' hsame
  rw [on_call_of_isOpen hopen hholds.root,
    on_call_of_isOpen hopen' (hholds.of_nameless_eq hsame).root, hwithin]
  -- the edits succeed both or fail both
  rcases hon : ((c.groupCall r).within s.grammar).edit.on t with ⟨e | a, u⟩ <;>
    rcases hon' : ((c.groupCall r).within s.grammar).edit.on t' with ⟨e' | a', u'⟩ <;>
      rw [hon, hon'] at hresult hafter <;> cases hresult
  · exact ⟨rfl, nameless_with_tree heq hafter⟩
  · refine ⟨rfl, ?_⟩
    rw [nameless_refreshed, nameless_refreshed]
    exact nameless_with_tree heq hafter

theorem IsSound.call_blind (h : s.IsSound) (heq : s'.nameless = s.nameless) (c : Call) :
    (c.action.on s').1 = (c.action.on s).1 ∧
      (c.action.on s').2.nameless = (c.action.on s).2.nameless := by
  obtain ⟨t, hopen⟩ | ⟨rfl, hready, hnone⟩ | ⟨e, he⟩ := s.call_cases c
  · exact h.call_blind_of_isOpen heq hopen c
  · obtain ⟨hsettings, hgrammar, -, -, hinit⟩ := nameless_eq_iff.mp heq
    obtain ⟨-, hnone'⟩ | ⟨t, t', ht, -⟩ := tree_cases_of_nameless_eq heq
    · rw [on_enableTargeting_of_no_tree hready hnone,
        on_enableTargeting_of_no_tree (hinit.trans hready) hnone']
      refine ⟨rfl, ?_⟩
      rw [nameless_refreshed, nameless_refreshed]
      exact nameless_eq_iff.mpr ⟨hsettings, hgrammar, rfl, rfl, hinit⟩
    · rw [hnone] at ht
      cases ht
  · have hphase : s'.phase = s.phase := by
      rw [← phase_nameless, heq, phase_nameless]
    rw [on_call_refused he, on_call_refused (hphase ▸ he)]
    exact ⟨rfl, heq⟩

/-- On sessions that are equal but for names every event has the same result, and leaves sessions
that are equal but for names. -/
theorem IsSound.event_blind (h : s.IsSound) (heq : s'.nameless = s.nameless) (event : Event) :
    (event.action.on s').1 = (event.action.on s).1 ∧
      (event.action.on s').2.nameless = (event.action.on s).2.nameless := by
  cases event with
  | load =>
    obtain ⟨hresult, hafter⟩ := load_blind heq
    rw [Event.action, on_map, on_map, hresult]
    exact ⟨rfl, hafter⟩
  | refresh =>
    refine ⟨rfl, ?_⟩
    change s'.refreshed.nameless = s.refreshed.nameless
    rw [nameless_refreshed, nameless_refreshed, heq]
  | consult resolve => exact ⟨rfl, heq⟩
  | call c => exact h.call_blind heq c

/-! ### Runs -/

/-- What happens in a run: an event, or that the taxonomy has answered differently from node to
node while it was asked. -/
inductive Turn where
  | event (e : Event)
  | answer (names : NodeId → Option String)

/-- The session with other names, and with the description that shows them. -/
def renamed (s : Session) (names : NodeId → Option String) : Session :=
  let tree := s.tree.map (Tree.rename · names)
  { s with tree, info := tree.map fun t => TargetingInfo.ofTree t s.editable }

/-- The session after a turn. -/
def Turn.on (turn : Turn) (s : Session) : Session :=
  match turn with
  | .event e => (e.action.on s).2
  | .answer names => s.renamed names

/-- What is done to the session in a turn, unless the turn is about the taxonomy. -/
def Turn.act? : Turn → Option Event
  | .event (.consult _) | .answer _ => none
  | .event e => some e

/-- The session after some turns. -/
def play (s : Session) (turns : List Turn) : Session := turns.foldl (fun s turn => turn.on s) s

/-- What is done to the session in some turns. -/
def acts (turns : List Turn) : List Event := turns.filterMap Turn.act?

@[simp] theorem nameless_renamed (s : Session) (names : NodeId → Option String) :
    (s.renamed names).nameless = s.nameless := by
  refine nameless_eq_iff.mpr ⟨rfl, rfl, ?_, rfl, rfl⟩
  rw [renamed, Option.map_map]
  congr 1
  funext t
  exact t.nameless_rename names

theorem IsSound.turn (h : s.IsSound) (turn : Turn) : (turn.on s).IsSound := by
  cases turn with
  | event e => exact h.event e
  | answer names => exact h.of_nameless_eq (s.nameless_renamed names)

theorem IsSound.play (h : s.IsSound) (turns : List Turn) : (s.play turns).IsSound := by
  induction turns generalizing s with
  | nil => exact h
  | cons turn turns ih => exact ih (h.turn turn)

theorem IsCurrent.play (h : s.IsCurrent) (hsound : s.IsSound) (turns : List Turn) :
    (s.play turns).IsCurrent := by
  induction turns generalizing s with
  | nil => exact h
  | cons turn turns ih =>
    refine ih ?_ (hsound.turn turn)
    cases turn with
    | event e => exact h.event hsound e
    | answer names => rfl

/-- But for names, a run depends only on what is done to the session in it. -/
theorem nameless_play (h : s.IsSound) (heq : s'.nameless = s.nameless) (turns : List Turn) :
    (s'.play turns).nameless = (s.after (acts turns)).nameless := by
  induction turns generalizing s s' with
  | nil => exact heq
  | cons turn turns ih =>
    -- a turn about the taxonomy is not an act, and changes nothing but names
    cases turn with
    | event e =>
      cases e with
      | consult resolve => exact ih h heq
      | load => exact ih (h.event _) (h.event_blind heq .load).2
      | refresh => exact ih (h.event _) (h.event_blind heq .refresh).2
      | call c => exact ih (h.event _) (h.event_blind heq (.call c)).2
    | answer names => exact ih h ((s'.nameless_renamed names).trans heq)

/-! ### What can be observed -/

/-- The sessions cannot be told apart but by names: they answer alike whatever happens next, are in
the same phase, have the same nodes with the same kinds, parents and children, give the same to
store and the same answers to questions, and have descriptions that differ in names only. -/
structure AgreesButNames (s s' : Session) : Prop where
  answers : ∀ event : Event, (event.action.on s').1 = (event.action.on s).1
  phase : s'.phase = s.phase
  root : s'.root = s.root
  nodes : ∀ id, (s'.tree.bind fun t => t.node? id).map Node.nameless
    = (s.tree.bind fun t => t.node? id).map Node.nameless
  json : s'.tree.map Tree.toJson = s.tree.map Tree.toJson
  toSettings : s'.toSettings = s.toSettings
  canAddGroup : ∀ role, s'.canAddGroup role = s.canAddGroup role
  isEnabled : s'.isEnabled = s.isEnabled
  inclusionGroups : s'.inclusionGroups = s.inclusionGroups
  exclusionGroup : s'.exclusionGroup = s.exclusionGroup
  info : Option.Rel TargetingInfo.SameButNames s.info s'.info

/-- Sessions that are equal but for names cannot be told apart but by names. -/
theorem agreesButNames (h : s.IsSound) (hcurrent : s.IsCurrent) (hcurrent' : s'.IsCurrent)
    (heq : s'.nameless = s.nameless) : s.AgreesButNames s' := by
  obtain ⟨hsettings, hgrammar, -, hedit, hinit⟩ := nameless_eq_iff.mp heq
  have htrees := tree_cases_of_nameless_eq heq
  -- what is stored is the formula, which names are no part of
  have hjson : s'.tree.map Tree.toJson = s.tree.map Tree.toJson := by
    obtain ⟨hnone, hnone'⟩ | ⟨t, t', ht, ht', hsame⟩ := htrees
    · rw [hnone, hnone']
    · obtain ⟨r, f, hholds⟩ := h.holds ht
      rw [ht, ht', Option.map_some, Option.map_some, hholds.toJson_eq,
        (hholds.of_nameless_eq hsame).toJson_eq]
  refine { answers := fun event => (h.event_blind heq event).1, phase := ?phase,
           root := bind_tree_of_nameless_eq Tree.root_nameless heq, nodes := ?nodes, json := hjson,
           toSettings := ?settings, canAddGroup := ?room,
           isEnabled := any_tree_of_nameless_eq Tree.isEnabled_nameless heq,
           inclusionGroups := ?inclusion,
           exclusionGroup := bind_tree_of_nameless_eq Tree.exclusionGroup_nameless heq,
           info := ?info }
  case phase => rw [← phase_nameless, heq, phase_nameless]
  case nodes =>
    intro id
    rw [Option.map_bind, Option.map_bind]
    refine bind_tree_of_nameless_eq (fun t => ?_) heq
    rw [Function.comp_apply, Tree.node?_nameless, Option.map_map]
    rfl
  case settings => rw [Session.toSettings, hjson, hsettings, Session.toSettings]
  case room =>
    intro role
    have hany := any_tree_of_nameless_eq
      (p := fun t => t.root.any fun root => t.canAddGroup role root s.grammar)
      (fun t => by simp [Tree.canAddGroup_nameless]) heq
    rw [Session.canAddGroup, hinit, hedit, hgrammar, hany, Session.canAddGroup]
  case inclusion =>
    rw [Session.inclusionGroups, map_tree_of_nameless_eq Tree.inclusionGroups_nameless heq,
      Session.inclusionGroups]
  case info =>
    rw [hcurrent, hcurrent', hedit]
    obtain ⟨hnone, hnone'⟩ | ⟨t, t', ht, ht', hsame⟩ := htrees
    · rw [hnone, hnone']
      exact .none
    · obtain ⟨r, f, hholds⟩ := h.holds ht
      rw [ht, ht']
      exact .some (TargetingInfo.sameButNames_ofTree hholds hsame s.editable)

/-- Two sessions for the same entity and grammar to which the same is done under taxonomies of any
kind, each changing its mind at any time, cannot be told apart but by names. -/
theorem taxonomy_only_names (settings : EntitySettings) (grammar : Grammar)
    (resolve resolve' : Resolver) (turns turns' : List Turn) (hacts : acts turns' = acts turns)
    (hrun : (create settings grammar resolve).play turns = s)
    (hrun' : (create settings grammar resolve').play turns' = s') : s.AgreesButNames s' := by
  have hcreate := isSound_create settings grammar resolve
  have hcreate' := isSound_create settings grammar resolve'
  have hstart : (create settings grammar resolve').nameless
      = (create settings grammar resolve).nameless := rfl
  have hcurrent : ∀ resolve, (create settings grammar resolve).IsCurrent := fun _ => rfl
  -- both runs are, but for names, the run of what is done in them
  have hsame : s'.nameless = s.nameless := by
    rw [← hrun, ← hrun', nameless_play hcreate hstart, nameless_play hcreate rfl, hacts]
  refine agreesButNames ?_ ?_ ?_ hsame
  · exact hrun ▸ hcreate.play turns
  · exact hrun ▸ (hcurrent resolve).play hcreate turns
  · exact hrun' ▸ (hcurrent resolve').play hcreate' turns'

/-- A taxonomy that knows a category from the start, and one that comes to know it and then answers
otherwise. -/
theorem taxonomy_only_names_of_changing_answers :
    ∃ s s', (create {} {} fun _ => some "Sport").play
        [.event .load, .event (.call .enableTargeting),
          .event (.call (.addCategory ⟨1, 0⟩ "sport"))] = s ∧
      (create {} {} .none).play
        [.event .load, .event (.call .enableTargeting), .event (.consult fun _ => some "Sports"),
          .event (.call (.addCategory ⟨1, 0⟩ "sport")), .answer fun _ => none] = s' ∧
      s.AgreesButNames s' ∧
      s.info.map (·.categories) = some [⟨"sport", some "Sport"⟩] ∧
      s'.info.map (·.categories) = some [⟨"sport", none⟩] := by
  refine ⟨_, _, rfl, rfl, ?_, by decide +kernel, by decide +kernel⟩
  exact taxonomy_only_names {} {} (fun _ => some "Sport") .none
    [.event .load, .event (.call .enableTargeting), .event (.call (.addCategory ⟨1, 0⟩ "sport"))]
    [.event .load, .event (.call .enableTargeting), .event (.consult fun _ => some "Sports"),
      .event (.call (.addCategory ⟨1, 0⟩ "sport")), .answer fun _ => none] rfl rfl rfl

end Session

end Targeting
