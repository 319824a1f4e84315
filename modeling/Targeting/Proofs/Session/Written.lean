import Targeting.Proofs.Entity
import Targeting.Proofs.Expression.Format
import Targeting.Proofs.Group.Outline
import Targeting.Proofs.Session.Saving

/-!
# What a session writes

A tree that is edited is a list of groups, so its serialized form is not nested deeply. Any other tree
is written as the expression that was stored. So what a session writes can always be read again, if
the stored expression could.

## Main definitions

* `Session.WritesKnown` — the session writes nothing, what was stored, or a list of groups

## Main results

* `Formula.isStorable_ofGroups`, `Formula.fractions_toJson` — the serialized form of groups is storable,
  and holds no fraction
* `Session.WritesKnown.after` — no run leads to anything else
* `Session.WritesKnown.isStorable`, `Session.WritesKnown.fractions_subset` — what the session writes is
  storable, and brings in no fraction
-/

namespace Targeting

namespace Formula

variable {depth : Nat}

theorem isStorable_category (key : String) : (category key).toJson.IsStorable (depth + 1) :=
  .object (List.pairwise_singleton _ _) fun m hm => by
    rw [List.mem_singleton.mp hm]
    exact .string key

theorem isStorable_operator (op : Operator) {fs : List Formula}
    (h : ∀ f ∈ fs, f.toJson.IsStorable depth) :
    (operator op fs).toJson.IsStorable (depth + 2) := by
  refine .object (List.pairwise_singleton _ _) fun m hm => ?_
  rw [List.mem_singleton.mp hm]
  refine .array fun item hitem => ?_
  rw [toJsonAll_eq_map] at hitem
  obtain ⟨f, hf, rfl⟩ := List.mem_map.mp hitem
  exact h f hf

theorem isStorable_ofKeys (keys : List String) : (ofKeys keys).toJson.IsStorable (depth + 3) := by
  refine isStorable_operator .or fun f hf => ?_
  obtain ⟨key, -, rfl⟩ := List.mem_map.mp hf
  exact isStorable_category key

theorem isStorable_ofGroup (shape : GroupRole × List String) :
    (ofGroup shape).toJson.IsStorable (depth + 5) := by
  obtain ⟨role, keys⟩ := shape
  cases role with
  | inclusion => exact isStorable_ofKeys keys
  | exclusion =>
    refine isStorable_operator .not fun f hf => ?_
    rw [List.mem_singleton.mp hf]
    exact isStorable_ofKeys keys

/-- The serialized form of groups is nested seven deep. -/
theorem isStorable_ofGroups (o : Outline) : (ofGroups o).toJson.IsStorable (depth + 7) := by
  refine isStorable_operator .and fun f hf => ?_
  obtain ⟨shape, -, rfl⟩ := List.mem_map.mp hf
  exact isStorable_ofGroup shape

mutual

/-- The serialized form of a formula holds no fraction. -/
theorem fractions_toJson : ∀ f : Formula, f.toJson.fractions = []
  | category key => rfl
  | operator op fs => by
    rw [toJson, Json.fractions, Json.fractionsMembers, Json.fractionsMembers, Json.fractions,
      fractions_toJsonAll fs]
    rfl

theorem fractions_toJsonAll : ∀ fs : List Formula, Json.fractionsItems (toJsonAll fs) = []
  | [] => rfl
  | f :: fs => by
    rw [toJsonAll, Json.fractionsItems, fractions_toJson f, fractions_toJsonAll fs]
    rfl

end

end Formula

namespace Session

open Session.Action

variable {s : Session} {events : List Event}

/-- The session writes nothing, what was stored, or a list of groups. -/
def WritesKnown (s : Session) : Prop :=
  s.written = .null ∨ s.written = s.settings.expression ∨
    ∃ o : Outline, s.written = (Formula.ofGroups o).toJson

theorem ShowsStored.writesKnown (h : s.ShowsStored) : s.WritesKnown := by
  rw [ShowsStored] at h
  split at h
  · exact Or.inr (Or.inl h)
  · exact Or.inl h

theorem WritesKnown.event (h : s.IsSound) (hw : s.WritesKnown) (event : Event) :
    (event.action.on s).2.WritesKnown := by
  cases event with
  | load =>
    rw [Event.action, on_map]
    exact s.showsStored_load.writesKnown
  | refresh =>
    rw [Event.action, on_map]
    change s.refreshed.WritesKnown
    rw [WritesKnown, h.written_refreshed, settings_refreshed]
    exact hw
  | consult resolve => exact hw
  | call c =>
    rw [Event.action]
    obtain hsame | ⟨t, r, f, gs, hholds, hgs, hwithin, hon | hon⟩ := h.on_call c
    · rw [hsame]
      exact hw
    all_goals
      -- the tree of the session holds the formula of its groups
      obtain rfl := hholds.denotes.unique
        ((Tree.exists_groups?_iff hholds.root).mp ⟨gs, hgs, rfl⟩)
      have hwritten : (s.withTree t).written = (Formula.ofGroups (gs.map Group.shape)).toJson :=
        written_eq rfl hholds
      rw [hon]
    · exact Or.inr (Or.inr ⟨_, hwritten⟩)
    · refine Or.inr (Or.inr ⟨gs.map Group.shape, ?_⟩)
      rw [(isSound_withTree hholds hgs hwithin).written_refreshed, hwritten]

/-- No run leads to anything else that is written. -/
theorem WritesKnown.after (h : s.IsSound) (hw : s.WritesKnown) (events : List Event) :
    (s.after events).WritesKnown := by
  induction events generalizing s with
  | nil => exact hw
  | cons event events ih => exact ih (h.event event) (hw.event h event)

/-- What a session writes is storable if the stored expression is, unless hardly any nesting is
allowed. -/
theorem WritesKnown.isStorable {depth : Nat} (h : s.WritesKnown)
    (hstored : s.settings.expression.IsStorable (depth + 7)) :
    s.written.IsStorable (depth + 7) := by
  rcases h with hnull | hsame | ⟨o, houtline⟩
  · rw [hnull]
    exact .null
  · rw [hsame]
    exact hstored
  · rw [houtline]
    exact Formula.isStorable_ofGroups o

/-- What a session writes brings in no fraction. -/
theorem WritesKnown.fractions_subset (h : s.WritesKnown) :
    s.written.fractions ⊆ s.settings.expression.fractions := by
  rcases h with hnull | hsame | ⟨o, houtline⟩
  · rw [hnull]
    exact List.nil_subset _
  · rw [hsame]
    exact List.Subset.refl _
  · rw [houtline, Formula.fractions_toJson]
    exact List.nil_subset _

end Session

end Targeting
