import Targeting.Proofs.Group.Outcome
import Targeting.Proofs.Tree.Identity

/-!
# Stale identifiers

A call that removes a node releases everything that the node reaches: a removed child with all its
descendants, the whole tree under a root that is replaced. Whoever holds the identifier of a node
that is gone can do nothing with it. Since identifiers are handed out once, this stays so, however
often the slot of the node is filled again.

## Main definitions

* `Tree.Call.Removes` — the topmost node that a call removes
* `Tree.Call.names`, `Tree.Call.subject?` — the identifiers that a call is made with
* `Tree.IsGone` — an identifier that denotes nothing and that no call can do anything with

## Main results

* `Tree.Call.Removes.released` — what hangs below a removed node goes with it
* `Tree.IsForest.isGone` — without a node, nothing is left of an identifier
* `Tree.never_reuses_identifiers` — identifiers are handed out once, and what is gone stays gone
-/

namespace Targeting.Tree

variable {t start : Tree} {p c id top : NodeId}

/-! ### Released nodes -/

/-- The node that a call removes with everything below it: a child, the former root, a category, or
what goes with a group. -/
inductive Call.Removes (t : Tree) : Call → NodeId → Prop
  | child {p c : NodeId} (hon : ((Edit.removeChild p c).on t).1 = .ok true) :
      Removes t (.removeChild p c) c
  | root {id old : NodeId} (hon : ((Edit.setRoot id).on t).1 = .ok ())
      (hroot : t.root = some old) (hne : old ≠ id) : Removes t (.setRoot id) old
  | category {g leaf : NodeId} {key : String}
      (hon : ((Edit.removeCategory g key).on t).1 = .ok true)
      (hfind : t.findCategory? g key = some leaf) : Removes t (.removeCategory g key) leaf
  | group {g p c : NodeId} (hon : ((Edit.removeGroup g).on t).1 = .ok true)
      (htop : t.IsTop g p c) : Removes t (.removeGroup g) c

/-- What hangs below a child was there before the child was removed, and is gone afterwards. -/
theorem released_prune (h : t.IsForest) (hc : c ∈ t.children p) (hreach : t.Reaches c id) :
    t.IsLive id ∧ (t.prune p c).node? id = none := by
  have hlive := isLive_of_parent? (h.parent?_of_mem hc)
  refine ⟨h.isLive_of_reaches hreach hlive, ?_⟩
  rw [← not_isLive_iff, isLive_prune h hc]
  exact fun hstays => hstays.2 hreach

/-- A removed node was there, and afterwards nothing of what it reached is. -/
theorem Call.Removes.released {call : Call} (hrem : call.Removes t top) (h : t.IsForest)
    (hreach : t.Reaches top id) :
    t.IsLive id ∧ (call.edit.on t).2.node? id = none := by
  cases hrem with
  | @child p c hon =>
    rw [Call.edit, Edit.on_map]
    obtain ⟨-, hfail⟩ | ⟨-, -, hno⟩ | ⟨hc, hyes⟩ := Edit.on_removeChild p top t
    · simp [hfail] at hon
    · simp [hno] at hon
    · rw [hyes]
      exact released_prune h hc hreach
  | @root new old hon hroot hne =>
    rw [Call.edit, Edit.on_map]
    obtain ⟨-, e, hfail⟩ | ⟨-, hset⟩ := Edit.on_setRoot new t
    · simp [hfail] at hon
    · rw [hset, hroot]
      dsimp only
      rw [if_neg hne]
      refine ⟨h.isLive_of_reaches hreach (h.root_isLoose hroot).isLive, ?_⟩
      -- the tree with the new root has the nodes and edges of the one before
      exact node?_release_of_reaches (t := { t with root := some new })
        ⟨h.parent?_of_mem, h.acyclic⟩ hreach
  | @category g leaf key hon hfind =>
    rw [Call.edit, Edit.on_map]
    obtain ⟨-, hfail⟩ | ⟨-, hnone, -⟩ | ⟨-, leaf, hfind', hyes⟩ :=
      Edit.removeCategory_cases t g key
    · simp [hfail] at hon
    · rw [hnone] at hfind
      cases hfind
    · cases hfind.symm.trans hfind'
      rw [hyes]
      exact released_prune h (mem_of_findCategory? hfind).1 hreach
  | @group g p c hon htop =>
    rw [Call.edit, Edit.on_map]
    obtain ⟨-, hfail⟩ | ⟨-, -, hno⟩ | ⟨hkind, q, d, htop', hyes⟩ := Edit.removeGroup_cases h g
    · simp [hfail] at hon
    · simp [hno] at hon
    · obtain rfl := htop.parent_eq h htop'
      obtain rfl := htop.child_eq h htop'
      rw [hyes]
      exact released_prune h htop.mem hreach

/-! ### Stale identifiers -/

/-- The identifiers that a call is made with. -/
def Call.names : Call → List NodeId
  | .create _ | .enableTargeting => []
  | .setRoot id | .addGroup _ id _ | .addCategory id _ | .removeCategory id _ | .removeGroup id
  | .writeName id _ => [id]
  | .appendChild p c | .removeChild p c => [p, c]

/-- The node that an edit looks up first. -/
def Call.subject? : Call → Option NodeId
  | .create _ | .enableTargeting | .writeName .. => none
  | .setRoot id | .addGroup _ id _ | .addCategory id _ | .removeCategory id _ | .removeGroup id
  | .appendChild id _ | .removeChild id _ => some id

/-- An identifier of which nothing is left: no node has it, the tree does not mention it, and a call
that is made with it changes nothing. -/
structure IsGone (t : Tree) (id : NodeId) : Prop where
  node? : t.node? id = none
  root : t.root ≠ some id
  children : ∀ p, id ∉ t.children p
  unchanged : ∀ call : Call, id ∈ call.names → (call.edit.on t).2 = t
  refused : ∀ call : Call, call.subject? = some id →
    (call.edit.on t).1 = .error (.nodeNotFound id)

theorem on_expectKind_of_dead (hdead : t.node? id = none) (operation : Operation)
    (expected : NodeKind) :
    (Edit.expectKind operation expected id).on t = (.error (.nodeNotFound id), t) := by
  rw [Edit.on_expectKind_of_ne (by simp [kind?, hdead])]
  simp [kindError, kind?, hdead]

/-- A call on a node that is missing says so and changes nothing, since it looks for the node before
anything else. -/
theorem Call.on_of_dead_subject (hdead : t.node? id = none) {call : Call}
    (hsubject : call.subject? = some id) :
    call.edit.on t = (.error (.nodeNotFound id), t) := by
  have hnode := Edit.on_node_of_not_live hdead
  have hexpect := on_expectKind_of_dead hdead
  cases call with
  | create | enableTargeting | writeName => cases hsubject
  | setRoot id' =>
    cases hsubject
    rw [Call.edit, Edit.on_map, Edit.setRoot, Edit.on_bind_error hnode]
    rfl
  | appendChild p c =>
    cases hsubject
    rw [Call.edit, Edit.on_map, Edit.appendChild, Edit.on_bind_error hnode]
    rfl
  | removeChild p c =>
    cases hsubject
    rw [Call.edit, Edit.on_map, Edit.removeChild, Edit.on_bind_error hnode]
    rfl
  | addGroup role p g =>
    cases hsubject
    have hgroup : (Edit.addGroup role id g).on t = (.error (.nodeNotFound id), t) :=
      Edit.on_bind_error (hexpect _ _) _
    rw [Call.edit, Edit.on_map, hgroup]
    rfl
  | addCategory g key =>
    cases hsubject
    rw [Call.edit, Edit.on_map, Edit.addCategory, Edit.on_bind_error (hexpect _ _)]
    rfl
  | removeCategory g key =>
    cases hsubject
    rw [Call.edit, Edit.on_map, Edit.removeCategory, Edit.on_bind_error (hexpect _ _)]
    rfl
  | removeGroup g =>
    cases hsubject
    rw [Call.edit, Edit.on_map, Edit.removeGroup, Edit.on_bind_error (hexpect _ _)]
    rfl

/-- A call with an identifier that is missing changes nothing, wherever it stands. -/
theorem Call.on_of_dead (h : t.IsForest) (hdead : t.node? id = none) {call : Call}
    (hname : id ∈ call.names) : (call.edit.on t).2 = t := by
  by_cases hsubject : call.subject? = some id
  · rw [call.on_of_dead_subject hdead hsubject]
  · have hlive := not_isLive_iff.mpr hdead
    cases call with
    | create | enableTargeting => cases hname
    | setRoot | addGroup | addCategory | removeCategory | removeGroup =>
      exact absurd (congrArg some (List.mem_singleton.mp hname).symm) hsubject
    | appendChild p c =>
      rw [Call.edit, Edit.on_map]
      obtain ⟨-, e, hfail⟩ | ⟨hcan, -⟩ := Edit.on_appendChild h p c
      · rw [hfail]
      · -- both ends of an edge that is added are live
        rcases List.mem_pair.mp hname with rfl | rfl
        · exact absurd hcan.isLive hlive
        · exact absurd hcan.loose.isLive hlive
    | removeChild p c =>
      rw [Call.edit, Edit.on_map]
      obtain ⟨-, hfail⟩ | ⟨-, -, hno⟩ | ⟨hc, -⟩ := Edit.on_removeChild p c t
      · rw [hfail]
      · rw [hno]
      · rcases List.mem_pair.mp hname with rfl | rfl
        · exact absurd (isLive_of_mem_children hc) hlive
        · exact absurd (isLive_of_parent? (h.parent?_of_mem hc)) hlive
    | writeName id' name =>
      obtain rfl := List.mem_singleton.mp hname
      have hget : t.arena.get? id = none := hdead
      rw [Call.edit, Edit.on_map, Edit.on_modify]
      simp [modifyNode, Arena.modify, hget]

theorem IsForest.isGone (h : t.IsForest) (hdead : t.node? id = none) : t.IsGone id where
  node? := hdead
  root hroot := not_isLive_iff.mpr hdead (h.root_isLoose hroot).isLive
  children p hmem := not_isLive_iff.mpr hdead (isLive_of_parent? (h.parent?_of_mem hmem))
  unchanged _ hname := Call.on_of_dead h hdead hname
  refused call hsubject := by rw [call.on_of_dead_subject hdead hsubject]

/-- In every run from an initial tree, identifiers are handed out at most once, and every live node
has one that was handed out. Once a call has removed a node, nothing is left of the identifiers that
the node reached, and nothing is ever left again; the same is true of any identifier that was handed
out and denotes nothing at some later point. -/
theorem never_reuses_identifiers (hstart : start.IsInitial) :
    (∀ calls, ∃ ids, IsHistory start calls ids) ∧
    (∀ calls ids, IsHistory start calls ids →
      ids.Nodup ∧ ∀ id, (start.after calls).IsLive id → id ∈ ids) ∧
    (∀ before call later top id, call.Removes (start.after before) top →
      (start.after before).Reaches top id →
        (start.after before).IsLive id ∧ (start.after (before ++ call :: later)).IsGone id) ∧
    (∀ before later ids id, IsHistory start before ids → id ∈ ids →
      (start.after before).node? id = none → (start.after (before ++ later)).IsGone id) := by
  have hforest := fun calls => isForest_after hstart.isForest calls
  refine ⟨hstart.exists_isHistory,
    fun calls ids h => ⟨(h.handsOut hstart).nodup, fun id => h.mem_of_isLive hstart⟩,
    fun before call later top id hrem hreach => ?_, fun before later ids id h hmem hdead => ?_⟩
  · obtain ⟨hlive, hdead⟩ := hrem.released (hforest before) hreach
    refine ⟨hlive, (hforest _).isGone ?_⟩
    -- the identifier was live before the call, so it is taken after it
    obtain ⟨ids, hids⟩ := exists_issues (start.after before) [call]
    have htaken := (hids.handsOut (hforest before)).isTaken (Or.inl hlive)
    rw [List.append_cons, after_append, after_append]
    exact node?_after_eq_none (isForest_after (hforest before) [call]) htaken hdead later
  · have htaken := ((h.handsOut hstart).fresh id hmem).2
    rw [after_append]
    exact (isForest_after (hforest before) later).isGone
      (node?_after_eq_none (hforest before) htaken hdead later)

/-- Two nodes fill the slots of a removed group and its category. -/
theorem never_reuses_identifiers_of_refilled_slots :
    IsInitial .empty ∧
    (after .empty [.enableTargeting, .addCategory ⟨1, 0⟩ "sport"]).children ⟨1, 0⟩ = [⟨2, 0⟩] ∧
    (after .empty [.enableTargeting, .addCategory ⟨1, 0⟩ "sport", .removeChild ⟨0, 0⟩ ⟨1, 0⟩,
      .create .or, .create (.category "news")]).kind? ⟨2, 2⟩ = some (.category "news") ∧
    IsGone (after .empty [.enableTargeting, .addCategory ⟨1, 0⟩ "sport",
      .removeChild ⟨0, 0⟩ ⟨1, 0⟩, .create .or, .create (.category "news")]) ⟨2, 0⟩ := by
  have hstart : IsInitial .empty := Or.inl rfl
  have hchildren :
      (after .empty [.enableTargeting, .addCategory ⟨1, 0⟩ "sport"]).children ⟨1, 0⟩ = [⟨2, 0⟩] :=
    rfl
  have hreach : (after .empty [.enableTargeting, .addCategory ⟨1, 0⟩ "sport"]).Reaches
      ⟨1, 0⟩ ⟨2, 0⟩ := (Reaches.refl _).tail (by rw [hchildren]; exact List.mem_singleton_self _)
  obtain ⟨-, hgone⟩ := (never_reuses_identifiers hstart).2.2.1
    [.enableTargeting, .addCategory ⟨1, 0⟩ "sport"] (.removeChild ⟨0, 0⟩ ⟨1, 0⟩)
    [.create .or, .create (.category "news")] ⟨1, 0⟩ ⟨2, 0⟩ (.child rfl) hreach
  exact ⟨hstart, hchildren, rfl, hgone⟩

end Targeting.Tree
