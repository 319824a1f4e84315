import Targeting.Proofs.Group.Roles
import Targeting.Proofs.Session.LifeCycle

/-!
# The description is never stale

A session keeps a description of its tree and renews it after every edit that succeeds. Names are
filled in only where there are none, and whether the groups are listed is decided by what the
session remembers. Still, as long as the taxonomy answers alike, the description is at any time what
one would compute from the tree alone, so renewing it once more changes nothing.

## Main definitions

* `TargetingInfo.described` — the description of a tree, from its keys and its children
* `Session.IsCurrent`, `Session.IsDescribed` — a session whose description is that of its tree, and
  one whose names are complete as well

## Main results

* `TargetingInfo.ofTree_eq_described` — what a session computes for a tree with all names
* `Session.IsDescribed.refreshed_eq_self` — renewing what is described changes nothing
* `Session.IsCurrent.event`, `Session.IsDescribed.after` — sessions stay described
* `Session.describes_current_tree` — what this means in every run
-/

namespace Targeting

namespace TargetingInfo

variable {t : Tree} {r : NodeId} {f : Formula} {resolve : Resolver} {editable : Bool}

/-- A key with the name that a taxonomy gives it. -/
def category (resolve : Resolver) (key : String) : CategoryInfo := { key, name := resolve key }

/-- The description of a tree with the given root: the distinct keys in the order of their first
occurrence with their names, the number of keys without a name, and if the tree can be edited the
keys in each `or` below the root and in the `or` inside the first `not`. -/
def described (t : Tree) (root : NodeId) (resolve : Resolver) (editable : Bool) :
    TargetingInfo where
  categories := t.categoryKeys.eraseDups.map (category resolve)
  inclusion :=
    if editable then
      ((t.children root).filter fun c => t.kind? c = some .or).map t.groupCategories
    else []
  exclusion :=
    if editable then
      ((t.children root).find? fun c => t.kind? c = some .not).bind fun wrapper =>
        ((t.children wrapper).find? fun c => t.kind? c = some .or).map t.groupCategories
    else none
  unresolved := t.categoryKeys.eraseDups.countP fun key => (resolve key).isNone

/-! ### Distinct categories -/

/-- Going through categories with some seen already adds those with other keys, each at the first
occurrence of its key. -/
theorem map_key_foldl (categories seen : List CategoryInfo) :
    (categories.foldl (fun seen c => if seen.any (·.key = c.key) then seen else seen ++ [c])
        seen).map (·.key)
      = seen.map (·.key)
        ++ ((categories.map (·.key)).filter fun key => key ∉ seen.map (·.key)).eraseDups := by
  induction categories generalizing seen with
  | nil => simp
  | cons c categories ih =>
    have hany : seen.any (·.key = c.key) = true ↔ c.key ∈ seen.map (·.key) := by
      simp [List.any_eq_true, List.mem_map]
    rw [List.foldl_cons, List.map_cons]
    by_cases hseen : c.key ∈ seen.map (·.key)
    · rw [if_pos (hany.mpr hseen), ih seen, List.filter_cons_of_neg (by simpa using hseen)]
    · -- what is left are the keys that are neither seen nor the one just added
      have hrest : ((categories.map (·.key)).filter fun key => key ∉ (seen ++ [c]).map (·.key))
          = ((categories.map (·.key)).filter fun key => key ∉ seen.map (·.key)).filter
              fun key => !key == c.key := by
        rw [List.filter_filter]
        apply List.filter_congr
        intro key _
        rw [Bool.eq_iff_iff]
        simp [and_comm]
      rw [if_neg (mt hany.mp hseen), ih, hrest, List.filter_cons_of_pos (by simpa using hseen),
        List.eraseDups_cons, List.map_append, List.append_assoc]
      rfl

/-- The keys of distinct categories are the distinct keys. -/
theorem map_key_distinct (categories : List CategoryInfo) :
    (distinct categories).map (·.key) = (categories.map (·.key)).eraseDups := by
  have hfold := map_key_foldl categories []
  simpa [distinct] using hfold

theorem mem_of_mem_foldl {c : CategoryInfo} (categories seen : List CategoryInfo)
    (h : c ∈ categories.foldl
      (fun seen c => if seen.any (·.key = c.key) then seen else seen ++ [c]) seen) :
    c ∈ seen ∨ c ∈ categories := by
  induction categories generalizing seen with
  | nil => exact Or.inl h
  | cons c' categories ih =>
    rw [List.foldl_cons] at h
    rcases ih _ h with hseen | hmem
    · split at hseen
      · exact Or.inl hseen
      · rcases List.mem_append.mp hseen with hseen | hnew
        · exact Or.inl hseen
        · exact Or.inr (List.mem_singleton.mp hnew ▸ List.mem_cons_self)
    · exact Or.inr (List.mem_cons_of_mem c' hmem)

/-- If the name of a category is a matter of its key, distinct categories are those of the distinct
keys. -/
theorem distinct_map_category (resolve : Resolver) (keys : List String) :
    distinct (keys.map (category resolve)) = keys.eraseDups.map (category resolve) := by
  have hkeys := map_key_distinct (keys.map (category resolve))
  have hself : (distinct (keys.map (category resolve))).map (fun c => category resolve c.key)
      = distinct (keys.map (category resolve)) := by
    rw [List.map_congr_left (g := id), List.map_id]
    intro c hc
    rcases mem_of_mem_foldl _ _ hc with hnil | hmem
    · cases hnil
    · obtain ⟨key, -, rfl⟩ := List.mem_map.mp hmem
      rfl
  have hcancel : keys.map ((·.key) ∘ category resolve) = keys := List.map_id keys
  rw [← hself, ← Function.comp_def (category resolve), ← List.map_map, hkeys, List.map_map, hcancel]

theorem countP_isNone_category (resolve : Resolver) (keys : List String) :
    (keys.map (category resolve)).countP (·.name.isNone)
      = keys.countP fun key => (resolve key).isNone := by
  rw [List.countP_map]
  rfl

/-! ### The description of a tree with all names -/

section Holds

variable (h : t.Holds r f)
include h

theorem categoriesOf_eq (hnamed : t.IsNamed resolve) :
    categoriesOf t = t.categoryKeys.map (category resolve) := by
  rw [categoriesOf, Tree.categoryKeys, List.map_filterMap]
  apply List.filterMap_congr
  intro entry hentry
  obtain ⟨x, n⟩ := entry
  have hn := h.mem_preorder.mp hentry
  cases hkind : n.kind with
  | operator op => simp [hkind, NodeKind.categoryKey?]
  | category key =>
    have hname := hnamed x key (Tree.kind?_eq_some_iff.mpr ⟨n, hn, hkind⟩)
    rw [Tree.displayName?_eq hn] at hname
    simp [hkind, NodeKind.categoryKey?, category, hname]

theorem distinct_categoriesOf (hnamed : t.IsNamed resolve) :
    distinct (categoriesOf t) = t.categoryKeys.eraseDups.map (category resolve) := by
  rw [categoriesOf_eq h hnamed, distinct_map_category]

/-- For a tree with all names, a session computes the description. -/
theorem ofTree_eq_described (hnamed : t.IsNamed resolve)
    (hgroups : editable = true → ∃ gs, t.groups? = some gs) :
    ofTree t editable = described t r resolve editable := by
  have hdistinct := distinct_categoriesOf h hnamed
  have hcount := countP_isNone_category resolve t.categoryKeys.eraseDups
  cases editable with
  | false => simp only [ofTree, described, hdistinct, hcount, Bool.false_eq_true, if_false]
  | true =>
    obtain ⟨gs, hgs⟩ := hgroups rfl
    have hexclusion : t.exclusionGroup.map t.groupCategories
        = ((t.children r).find? fun c => t.kind? c = some .not).bind fun wrapper =>
            ((t.children wrapper).find? fun c => t.kind? c = some .or).map t.groupCategories := by
      have hfind := Tree.find?_not_of_groups? h.root hgs
      rw [Tree.exclusionGroup_eq h.root hgs]
      cases hentry : gs.find? fun e => e.role = .exclusion with
      | none =>
        rw [hentry, Option.map_none, Option.map_eq_none_iff] at hfind
        rw [hfind]
        rfl
      | some e =>
        -- the `not` of an entry holds the `or` of the entry and nothing else
        rw [hentry, Option.map_some, Option.map_eq_some_iff] at hfind
        obtain ⟨wrapper, hwrapper, honly⟩ := hfind
        have hkeys := Tree.categories?_of_mem_groups h.root hgs (List.mem_of_find?_eq_some hentry)
        have hor := (Tree.categories?_eq_some_iff.mp hkeys).1
        simp [hwrapper, honly, hor]
    simp only [ofTree, described, hdistinct, hcount, if_true, hexclusion, Tree.inclusionGroups,
      h.root]

end Holds

end TargetingInfo

namespace Session

open Session.Action

variable {s : Session} {t : Tree} {r : NodeId} {f : Formula} {resolve : Resolver}

/-! ### Described sessions -/

/-- The description is the one that the session computes for its tree. -/
def IsCurrent (s : Session) : Prop :=
  s.info = s.tree.map fun t => TargetingInfo.ofTree t s.editable

/-- The taxonomy is the given one, all categories have its names, and the description is current. -/
structure IsDescribed (s : Session) (resolve : Resolver) : Prop where
  current : s.IsCurrent
  resolve_eq : s.resolve = resolve
  named : ∀ {t}, s.tree = some t → t.IsNamed resolve

theorem isDescribed_create (settings : EntitySettings) (grammar : Grammar) (resolve : Resolver) :
    (create settings grammar resolve).IsDescribed resolve where
  current := rfl
  resolve_eq := rfl
  named ht := by cases ht

@[simp] theorem resolve_refreshed (s : Session) : s.refreshed.resolve = s.resolve := by
  unfold refreshed
  split <;> rfl

theorem isCurrent_refreshed (s : Session) : s.refreshed.IsCurrent := by
  unfold IsCurrent refreshed
  split
  · next hnone => rw [hnone, Option.map_none]
  · rfl

/-- Renewing the description completes the names that are missing. -/
theorem isDescribed_refreshed (h : s.resolve = resolve) (hsound : s.refreshed.IsSound)
    (hpart : ∀ {t}, s.tree = some t → t.IsPartlyNamed resolve) :
    s.refreshed.IsDescribed resolve := by
  refine ⟨s.isCurrent_refreshed, s.resolve_refreshed.trans h, fun {t'} ht' => ?_⟩
  have htree := ht'
  rw [tree_refreshed, Option.map_eq_some_iff] at htree
  obtain ⟨t, htree, rfl⟩ := htree
  -- the names that are missing make no difference to what the tree holds
  obtain ⟨r, f, hholds⟩ := hsound.holds ht'
  rw [h]
  exact (hholds.of_nameless_eq (t.nameless_resolveNames _).symm).isNamed_resolveNames (hpart htree)

/-- Renewing a description that is up to date changes nothing. -/
theorem IsDescribed.refreshed_eq_self (h : s.IsDescribed resolve) (hsound : s.IsSound) :
    s.refreshed = s := by
  have hinfo := h.current
  unfold IsCurrent at hinfo
  unfold refreshed
  cases htree : s.tree with
  | none =>
    rw [htree, Option.map_none] at hinfo
    dsimp only
    rw [← htree, ← hinfo]
  | some t =>
    obtain ⟨r, f, hholds⟩ := hsound.holds htree
    have hsame : t.resolveNames s.resolve = t := by
      rw [h.resolve_eq]
      exact hholds.resolveNames_eq_self fun id n hn => (h.named htree).named_eq_self hn
    rw [htree, Option.map_some] at hinfo
    dsimp only
    rw [hsame, ← htree, ← hinfo]

/-! ### Runs -/

/-- A call fails and leaves the session as it was, or comes down to an edit of groups on its tree,
or on an empty one, after which the description is renewed. -/
theorem IsSound.call_eq (h : s.IsSound) (c : Call) :
    (∃ e, c.action.on s = (.error e, s)) ∨ ∃ (t : Tree) (call : Tree.GroupCall),
      (s.tree = some t ∨ t = .empty) ∧
      (c.action.on s).2 = (s.withTree ((call.within s.grammar).edit.on t).2).refreshed := by
  cases hresult : (c.action.on s).1 with
  | error e => exact Or.inl ⟨e, Prod.ext hresult (h.on_call_error hresult)⟩
  | ok a =>
    obtain ⟨t, hopen⟩ | ⟨rfl, hinit, hnone⟩ | ⟨e, he⟩ := s.call_cases c
    · obtain ⟨r, f, hholds⟩ := h.holds hopen.tree
      refine Or.inr ⟨t, c.groupCall r, Or.inl hopen.tree, ?_⟩
      rw [on_call_of_isOpen hopen hholds.root] at hresult ⊢
      rcases hrun : ((c.groupCall r).within s.grammar).edit.on t with ⟨e | a, t'⟩
      · rw [hrun] at hresult
        cases hresult
      · rw [withTree_eq hopen.editable]
    · refine Or.inr ⟨.empty, .enableTargeting, Or.inr rfl, ?_⟩
      rw [on_enableTargeting_of_no_tree hinit hnone, Tree.GroupCall.within, Tree.Call.edit,
        Edit.on_map]
    · rw [on_call_refused he] at hresult
      cases hresult

/-- A call that succeeds leaves nothing to renew. -/
theorem IsSound.refreshed_eq_self_of_ok (h : s.IsSound) {c : Call} {a : Tree.Answer}
    (hok : (c.action.on s).1 = .ok a) : (c.action.on s).2.refreshed = (c.action.on s).2 := by
  have hafter := h.call c
  obtain ⟨e, hfail⟩ | ⟨t, call, -, hon⟩ := h.call_eq c
  · rw [hfail] at hok
    cases hok
  · rw [hon] at hafter ⊢
    exact refreshed_refreshed hafter

/-- Loading describes what it has read. -/
theorem isCurrent_load (s : Session) : (load.on s).2.IsCurrent := by
  rcases s.load_cases with
    ⟨-, hon⟩ | ⟨f, t, r, -, -, -, hon⟩ | ⟨-, -, position, fault, hon⟩ <;> rw [hon] <;> rfl

/-- Every event keeps the description current, also when the taxonomy changes: what is described is
the tree with the names that it has. -/
theorem IsCurrent.event (h : s.IsCurrent) (hsound : s.IsSound) (event : Event) :
    (event.action.on s).2.IsCurrent := by
  cases event with
  | load =>
    rw [Event.action, on_map]
    exact s.isCurrent_load
  | refresh => exact s.isCurrent_refreshed
  | consult resolve => exact h
  | call c =>
    rw [Event.action]
    obtain ⟨e, hfail⟩ | ⟨t, call, -, hon⟩ := hsound.call_eq c
    · rw [hfail]
      exact h
    · rw [hon]
      exact isCurrent_refreshed _

/-- Every event keeps the names complete, if the taxonomy stays the same. -/
theorem IsDescribed.event (h : s.IsDescribed resolve) (hsound : s.IsSound) {event : Event}
    (hfixed : ∀ resolve', event = .consult resolve' → resolve' = resolve) :
    (event.action.on s).2.IsDescribed resolve := by
  have hcurrent := h.current.event hsound event
  cases event with
  | load =>
    rw [Event.action, on_map] at hcurrent ⊢
    rcases Tree.ofJson_cases s.settings.expression with
      ⟨hnull, -⟩ | ⟨f, -, -, t, r, hread, hholds⟩ | ⟨-, -, position, fault, hread⟩
    · rw [on_load_of_null hnull] at hcurrent ⊢
      exact ⟨hcurrent, h.resolve_eq, fun ht => by cases ht⟩
    · -- what has been read has no names yet, so all of them are filled in
      rw [on_load_of_root hread hholds.root] at hcurrent ⊢
      refine ⟨hcurrent, h.resolve_eq, fun ht => ?_⟩
      cases ht
      rw [h.resolve_eq]
      exact hholds.isNamed_resolveNames (Tree.isPartlyNamed_of_ofJson hread resolve)
    · rw [on_load, hread] at hcurrent ⊢
      exact ⟨hcurrent, h.resolve_eq, fun ht => by cases ht⟩
  | refresh =>
    rw [Event.action, on_map]
    change s.refreshed.IsDescribed resolve
    rw [h.refreshed_eq_self hsound]
    exact h
  | consult resolve' => exact ⟨hcurrent, hfixed resolve' rfl, h.named⟩
  | call c =>
    have hafter := hsound.call c
    rw [Event.action]
    obtain ⟨e, hfail⟩ | ⟨t, call, ht, hon⟩ := hsound.call_eq c
    · rw [hfail]
      exact h
    · -- the edit starts from a forest without wrong names, and leaves one behind
      have hstart : t.IsForest ∧ t.IsPartlyNamed resolve := by
        rcases ht with htree | rfl
        · obtain ⟨r, f, hholds⟩ := hsound.holds htree
          exact ⟨hholds.isForest, (h.named htree).isPartlyNamed⟩
        · exact ⟨Tree.IsForest.empty, Tree.isPartlyNamed_empty resolve⟩
      have hkept := call.covered (Edit.keptByStructuralEdits_isPartlyNamed resolve).covers s.grammar
        t hstart
      rw [hon] at hafter ⊢
      refine isDescribed_refreshed h.resolve_eq hafter fun {t'} ht' => ?_
      cases ht'
      exact hkept.2

theorem IsDescribed.after (h : s.IsDescribed resolve) (hsound : s.IsSound) {events : List Event}
    (hfixed : ∀ resolve', .consult resolve' ∈ events → resolve' = resolve) :
    (s.after events).IsDescribed resolve := by
  induction events generalizing s with
  | nil => exact h
  | cons event events ih =>
    apply ih (h.event hsound fun resolve' heq => ?_) (hsound.event event)
    · intro resolve' hmem
      exact hfixed resolve' (List.mem_cons_of_mem event hmem)
    · exact hfixed resolve' (heq ▸ List.mem_cons_self)

/-- In every run under a taxonomy that answers alike, a session without a tree has no description,
and a session with a tree has the names that the taxonomy gives and the description that the keys
and children of the tree give. So renewing the description changes nothing. -/
theorem describes_current_tree (settings : EntitySettings) (grammar : Grammar)
    (resolve : Resolver) (events : List Event)
    (hfixed : ∀ resolve', .consult resolve' ∈ events → resolve' = resolve)
    (hrun : (create settings grammar resolve).after events = s) :
    (s.tree = none → s.info = none) ∧
    (∀ t, s.tree = some t → ∃ root, t.root = some root ∧
      (∀ id n key, t.node? id = some n → n.kind = .category key → n.displayName = resolve key) ∧
      s.info = some (TargetingInfo.described t root resolve s.editable)) ∧
    refresh.on s = (.ok (), s) := by
  have hcreate := isSound_create settings grammar resolve
  have hsound : s.IsSound := by
    rw [← hrun]
    exact hcreate.after events
  have hdescribed : s.IsDescribed resolve := by
    rw [← hrun]
    exact (isDescribed_create settings grammar resolve).after hcreate hfixed
  refine ⟨fun hnone => ?_, fun t htree => ?_, ?_⟩
  · rw [hdescribed.current, hnone, Option.map_none]
  · obtain ⟨root, f, hholds⟩ := hsound.holds htree
    have hnamed := hdescribed.named htree
    refine ⟨root, hholds.root, fun id n key hn hkind => ?_, ?_⟩
    · rw [← Tree.displayName?_eq hn]
      exact hnamed id key (Tree.kind?_eq_some_iff.mpr ⟨n, hn, hkind⟩)
    · rw [hdescribed.current, htree, Option.map_some,
        TargetingInfo.ofTree_eq_described hholds hnamed fun hedit => ?_]
      obtain ⟨gs, hgs, -⟩ := hsound.editable htree hedit
      exact ⟨gs, hgs⟩
  · rw [refresh, on_modify, hdescribed.refreshed_eq_self hsound]

/-- A key in two groups is listed once, and one that the taxonomy does not know is counted. -/
theorem describes_current_tree_with_repeated_key :
    ∃ s, (create {} {} fun key => if key = "sport" then some "Sport" else none).after
        [.load, .call .enableTargeting, .call (.addGroup .inclusion),
          .call (.addCategory ⟨1, 0⟩ "sport"), .call (.addCategory ⟨2, 0⟩ "sport"),
          .call (.addCategory ⟨2, 0⟩ "news"), .call (.removeGroup ⟨9, 0⟩)] = s ∧
      s.phase = .composing ∧
      s.info = some {
        categories := [⟨"sport", some "Sport"⟩, ⟨"news", none⟩]
        inclusion := [["sport"], ["sport", "news"]]
        unresolved := 1 } ∧
      refresh.on s = (.ok (), s) := by
  refine ⟨_, rfl, by decide +kernel, by decide +kernel, ?_⟩
  refine (describes_current_tree {} {} _ _ (fun resolve' hmem => ?_) rfl).2.2
  simp at hmem

end Session

end Targeting
