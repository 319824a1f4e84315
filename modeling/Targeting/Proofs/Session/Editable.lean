import Targeting.Proofs.Session.Sound

/-!
# What a session remembers about its tree

Whether the tree can be edited is found out when it is loaded, and from then on only remembered.
What is remembered stays true of the tree, with one exception: enabling targeting for an entity
without an expression makes the session editable and gives it an inclusion group, also under a
grammar that allows none. The same settings, saved and loaded again, are then no longer editable.

## Main definitions

* `Session.IsOverfull` — an inclusion group that the grammar does not allow
* `Session.reopened` — the session that loads what another one saves

## Main results

* `Session.IsSound.editable_eq_iff` — when what is remembered is true of the tree
* `Session.phase_reopened` — what becomes of a tree that is saved and loaded again
* `Session.editable_eq_isEditable_iff` — both for every run
-/

namespace Targeting.Session

open Session.Action

variable {s : Session} {t : Tree} {r : NodeId} {f : Formula} {gs : List Group}

/-- The entity has no stored expression, and the session holds an inclusion group that the grammar
does not allow. -/
structure IsOverfull (s : Session) : Prop where
  expression : s.settings.expression = .null
  limit : s.grammar.maxInclusionGroups = 0
  inclusionGroups : s.inclusionGroups ≠ []

/-- The session that loads what another one saves, under the same grammar. -/
def reopened (s : Session) (resolve : Resolver) : Session :=
  (load.on (create s.toSettings s.grammar resolve)).2

/-! ### The inclusion groups -/

/-- There are inclusion groups if the list of groups has an entry of this role. -/
theorem inclusionGroups_ne_nil_iff (htree : s.tree = some t) (hroot : t.root = some r)
    (hgs : t.groups? = some gs) :
    s.inclusionGroups ≠ [] ↔ 0 < gs.countP fun e => e.role = .inclusion := by
  rw [← Tree.countChildren_eq hroot hgs, Tree.countChildren, GroupRole.marker,
    List.countP_eq_length_filter, List.length_pos_iff]
  simp only [inclusionGroups, htree, Option.map_some, Option.getD_some, Tree.inclusionGroups, hroot]

/-- The groups of an editable session are within the bounds of the grammar unless there is an
inclusion group that it does not allow. -/
theorem within_limit_iff (htree : s.tree = some t) (hroot : t.root = some r)
    (hgs : t.groups? = some gs) (hwithin : Group.Within gs s.bound) :
    Group.Within gs s.grammar.limit ↔ ¬ s.IsOverfull := by
  have hsome := inclusionGroups_ne_nil_iff htree hroot hgs
  constructor
  · intro hlimit hover
    have hcount := hlimit .inclusion
    have hpos := hsome.mp hover.inclusionGroups
    have hzero : s.grammar.limit .inclusion = 0 := hover.limit
    omega
  · intro hover role
    have hcount := hwithin role
    rw [bound] at hcount
    split at hcount
    · next hfirst =>
      obtain ⟨hnull, rfl⟩ := hfirst
      -- a bound of one is more than the grammar allows only if that is none
      by_contra hmore
      have hzero : s.grammar.limit .inclusion = 0 := by omega
      exact hover ⟨hnull, hzero, hsome.mpr (by omega)⟩
    · exact hcount

/-- What the session remembers is true of its tree unless there is an inclusion group that the
grammar does not allow. -/
theorem IsSound.editable_eq_iff (h : s.IsSound) (htree : s.tree = some t) :
    s.editable = t.isEditable s.grammar ↔ ¬ s.IsOverfull := by
  obtain ⟨r, f, hholds⟩ := h.holds htree
  cases hedit : s.editable with
  | false =>
    obtain ⟨hno, hsome⟩ := h.readOnly htree hedit
    rw [hno]
    simp only [true_iff]
    exact fun hover => hsome hover.expression
  | true =>
    obtain ⟨gs, hgs, hwithin⟩ := h.editable htree hedit
    rw [← within_limit_iff htree hholds.root hgs hwithin, eq_comm, Tree.isEditable_iff,
      hholds.root]
    constructor
    · rintro (hnone | ⟨gs', hgs', hlimit⟩)
      · cases hnone
      · cases hgs.symm.trans hgs'
        exact hlimit
    · intro hlimit
      exact Or.inr ⟨gs, hgs, hlimit⟩

/-! ### Saving and loading again -/

/-- The phase after loading the serialized form of a formula that a tree holds. -/
theorem phase_load_toJson (hexpression : s.settings.expression = f.toJson) (hholds : t.Holds r f) :
    (load.on s).2.phase = if "" ∈ t.categoryKeys then .uninitialized
      else if t.isEditable s.grammar then .composing else .readOnly := by
  rw [hholds.categoryKeys_eq]
  rcases load_formula_cases hexpression with
    ⟨hwritable, t', r', hholds', hon⟩ | ⟨hempty, position, fault, hon⟩
  · -- the tree that is read holds the same formula, so it can be edited if the other one can
    have hsame : t'.isEditable s.grammar = t.isEditable s.grammar := by
      rw [Bool.eq_iff_iff, Tree.isEditable_iff_formula hholds'.root hholds'.denotes,
        Tree.isEditable_iff_formula hholds.root hholds.denotes]
    rw [hon, if_neg hwritable, ← hsame]
    rfl
  · rw [hon, if_pos hempty]
    rfl

/-- What a session with a tree saves is the serialized form of the formula that the tree holds. -/
theorem expression_toSettings (htree : s.tree = some t) (hholds : t.Holds r f) :
    s.toSettings.expression = f.toJson := by
  rw [toSettings, EntitySettings.expression, htree, Option.map_some, Option.bind_some,
    hholds.toJson_eq, EntitySettings.present?, f.isNull_toJson]
  rfl

/-- A tree that is saved and loaded again is refused as malformed if it holds an empty key, and
otherwise it is looked at anew. -/
theorem phase_reopened (htree : s.tree = some t) (hholds : t.Holds r f) (resolve : Resolver) :
    (s.reopened resolve).phase = if "" ∈ t.categoryKeys then .uninitialized
      else if t.isEditable s.grammar then .composing else .readOnly :=
  phase_load_toJson (expression_toSettings htree hholds) hholds

/-- In every run a session with a tree remembers rightly whether the tree can be edited, unless it
began without an expression, the grammar allows no inclusion group and there is one. A composing
session that is saved and loaded again composes again if that is not so and no key is empty. -/
theorem editable_eq_isEditable_iff (settings : EntitySettings) (grammar : Grammar)
    (resolve : Resolver) (events : List Event)
    (htree : ((create settings grammar resolve).after events).tree = some t) :
    (((create settings grammar resolve).after events).editable = t.isEditable grammar ↔
      ¬ (settings.expression = .null ∧ grammar.maxInclusionGroups = 0 ∧
        t.inclusionGroups ≠ [])) ∧
    (((create settings grammar resolve).after events).phase = .composing → ∀ resolve',
      ((((create settings grammar resolve).after events).reopened resolve').phase = .composing ↔
        "" ∉ t.categoryKeys ∧ ¬ (settings.expression = .null ∧
          grammar.maxInclusionGroups = 0 ∧ t.inclusionGroups ≠ []))) := by
  have hsound := (isSound_create settings grammar resolve).after events
  obtain ⟨hsettings, hgrammar⟩ :=
    (isSound_create settings grammar resolve).settings_grammar_after events
  -- from here on only soundness matters, not how the session was reached
  generalize (create settings grammar resolve).after events = s at *
  change s.settings = settings at hsettings
  change s.grammar = grammar at hgrammar
  subst hsettings hgrammar
  have hgroups : s.inclusionGroups = t.inclusionGroups := by
    rw [inclusionGroups, htree, Option.map_some, Option.getD_some]
  have hoverfull : s.IsOverfull ↔ s.settings.expression = .null ∧
      s.grammar.maxInclusionGroups = 0 ∧ t.inclusionGroups ≠ [] := by
    rw [← hgroups]
    exact ⟨fun h => ⟨h.expression, h.limit, h.inclusionGroups⟩, fun ⟨h, h', h''⟩ => ⟨h, h', h''⟩⟩
  have hflag := hsound.editable_eq_iff htree
  rw [← hoverfull]
  refine ⟨hflag, fun hphase resolve' => ?_⟩
  obtain ⟨t', hopen⟩ := phase_eq_composing_iff.mp hphase
  obtain ⟨r, f, hholds⟩ := hsound.holds htree
  rw [phase_reopened htree hholds, ← hflag, hopen.editable]
  split
  · next hempty => simp [hempty]
  · next hempty => cases t.isEditable s.grammar <;> simp [hempty]

/-- Without room for an inclusion group, what is remembered is wrong from the start. -/
theorem editable_ne_isEditable_of_enable :
    ∃ t, ((create {} { maxInclusionGroups := 0 } .none).after
        [.load, .call .enableTargeting]).tree = some t ∧
      ((create {} { maxInclusionGroups := 0 } .none).after
        [.load, .call .enableTargeting]).editable ≠ t.isEditable { maxInclusionGroups := 0 } := by
  have htree : ∃ t, ((create {} { maxInclusionGroups := 0 } .none).after
      [.load, .call .enableTargeting]).tree = some t := ⟨_, rfl⟩
  obtain ⟨t, htree⟩ := htree
  refine ⟨t, htree, fun heq => ?_⟩
  have hgroups : ((create {} { maxInclusionGroups := 0 } .none).after
      [.load, .call .enableTargeting]).inclusionGroups ≠ [] := by decide
  refine (editable_eq_isEditable_iff {} _ .none _ htree).1.mp heq ⟨rfl, rfl, ?_⟩
  rwa [inclusionGroups, htree] at hgroups

end Targeting.Session
