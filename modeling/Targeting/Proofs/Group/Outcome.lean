import Targeting.Proofs.Group.Change
import Targeting.Proofs.Tree.Run

/-!
# Edits are all or nothing

An edit of groups looks at the tree before it changes anything: it is refused, or finds nothing to
do, before it has made the first node. The nodes that it makes from then on go below an operator,
where a forest always has room for a new node. So no edit stops halfway. One that fails or answers
no leaves the tree as it was, down to the vacant slots.

## Main definitions

* `Tree.kindError` — why a node is not of the kind that an operation asks for
* `Tree.withNewRoot`, `Tree.withGroup` — the tree with a new root, and with a new group
* `Tree.IsAllOrNothing` — a call that leaves the tree as it is, or has its effect

## Main results

* `Edit.on_enableTargeting_of_root`, `Edit.enableTargeting_of_no_root`, `Edit.addGroup_cases`,
  `Edit.addCategory_cases`, `Edit.removeCategory_cases`, `Edit.removeGroup_cases` — what the edits
  of groups answer in any forest, and the tree afterwards
* `Edit.addGroup_ok_iff`, `Edit.addCategory_ok_iff` — when groups and categories are added
* `Tree.Call.isAllOrNothing` — every call in a forest is all or nothing
* `Tree.all_or_nothing` — what this means in every tree that calls reach
-/

namespace Targeting

namespace Tree

variable {t : Tree} {g leaf : NodeId} {key : String}

/-- Why a node is not of the kind that an operation asks for: it is missing, or of another kind. -/
def kindError (t : Tree) (operation : Operation) (id : NodeId) : TreeError :=
  match t.kind? id with
  | some found => .wrongKind operation found
  | none => .nodeNotFound id

/-- The tree with a new `and` as its root. -/
def withNewRoot (t : Tree) : Tree := { (t.create .and).2 with root := some t.nextId }

/-- The tree with a new, empty group of a role below an `and`. -/
def withGroup (t : Tree) (p : NodeId) : GroupRole → Tree
  | .inclusion => t.grow p .or
  | .exclusion => (t.grow p .not).grow t.nextId .or

/-- The `or` of the new group. -/
def newGroup (t : Tree) (p : NodeId) : GroupRole → NodeId
  | .inclusion => t.nextId
  | .exclusion => (t.grow p .not).nextId

theorem isLoose_nextId_create (h : t.IsForest) : (t.create .and).2.IsLoose t.nextId :=
  (isLoose_create h .and _).mpr (Or.inl rfl)

theorem isForest_withNewRoot (h : t.IsForest) : t.withNewRoot.IsForest :=
  (h.create .and).setRoot (isLoose_nextId_create h)

theorem kind?_withNewRoot (h : t.IsForest) : t.withNewRoot.kind? t.nextId = some .and :=
  kind?_create_nextId h.wellFormed .and

/-- A group holds a key if one of its children is the category. -/
theorem mem_groupCategories_iff :
    key ∈ t.groupCategories g ↔ ∃ leaf, t.findCategory? g key = some leaf := by
  rw [← Option.isSome_iff_exists, findCategory?, List.find?_isSome, groupCategories,
    List.mem_filterMap]
  simp only [categoryKey?_eq_some_iff, decide_eq_true_eq]

end Tree

namespace Edit

open Targeting.Tree

variable {α : Type} {t : Tree} {r p id : NodeId}

/-! ### Steps that the edits share -/

theorem on_kind (id : NodeId) (t : Tree) :
    (kind id).on t = (match t.kind? id with
      | some found => .ok found
      | none => .error (.nodeNotFound id), t) := by
  unfold kind
  cases hn : t.node? id with
  | none => rw [on_bind_error (on_node_of_not_live hn), kind?, hn]; rfl
  | some n => rw [on_bind_ok (on_node_of_live hn), kind?_eq hn]; rfl

theorem on_expectKind_of_kind? {operation : Operation} {expected : NodeKind}
    (h : t.kind? id = some expected) : (expectKind operation expected id).on t = (.ok (), t) := by
  simp [expectKind, on_bind, on_kind, h]

theorem on_expectKind_of_ne {operation : Operation} {expected : NodeKind}
    (h : t.kind? id ≠ some expected) :
    (expectKind operation expected id).on t = (.error (t.kindError operation id), t) := by
  unfold expectKind kindError
  cases hkind : t.kind? id with
  | none => simp [on_bind, on_kind, hkind]
  | some found =>
    have hne : found ≠ expected := fun heq => h (hkind.trans (congrArg some heq))
    simp [on_bind, on_kind, hkind, hne]

section Forest

variable (h : t.IsForest)
include h

/-- Appending a new node below an operator never fails. -/
theorem on_appendChild_nextId {op : Operator} (hp : t.kind? p = some (.operator op))
    (kind : NodeKind) :
    (appendChild p t.nextId).on (t.create kind).2 = (.ok (), t.grow p kind) :=
  on_appendChild_of_canAttach (h.create kind) (h.canAttach_nextId hp kind)

/-- Storing a node and appending it below an operator never fails. -/
theorem on_grow {op : Operator} (hp : t.kind? p = some (.operator op)) (kind : NodeKind)
    (f : NodeId → Edit α) :
    (do let id ← create kind; appendChild p id; f id : Edit α).on t
      = (f t.nextId).on (t.grow p kind) := by
  rw [on_bind_ok (on_create kind t), on_bind_ok (on_appendChild_nextId h hp kind)]

/-! ### What the edits of groups answer -/

omit h in
/-- Enabling a tree with a root returns the root. -/
theorem on_enableTargeting_of_root (hroot : t.root = some r) :
    enableTargeting.on t = (.ok r, t) := by
  unfold enableTargeting
  rw [on_bind_ok (on_get t), hroot]
  rfl

/-- Enabling a tree without a root makes one, with an empty inclusion group. -/
theorem enableTargeting_of_no_root (hroot : t.root = none) :
    enableTargeting.on t = (.ok t.nextId, t.withNewRoot.grow t.nextId .or) := by
  unfold enableTargeting
  rw [on_bind_ok (on_get t), hroot]
  dsimp only
  have hset : (setRoot t.nextId).on (t.create .and).2 = (.ok (), t.withNewRoot) :=
    on_setRoot_of_no_root ((root_create t .and).trans hroot) (isLoose_nextId_create h)
  rw [on_bind_ok (on_create .and t), on_bind_ok hset]
  exact on_grow (isForest_withNewRoot h) (kind?_withNewRoot h) .or fun _ => pure t.nextId

/-- A group is added below any `and` that the grammar has room in. -/
theorem addGroup_cases (role : GroupRole) (p : NodeId) (g : Grammar) :
    (t.kind? p ≠ some .and ∧
      (addGroup role p g).on t = (.error (t.kindError (.addGroup role) p), t)) ∨
    (t.kind? p = some .and ∧ t.canAddGroup role p g = false ∧
      (addGroup role p g).on t = (.error (.groupLimitReached role (g.limit role)), t)) ∨
    (t.kind? p = some .and ∧ t.canAddGroup role p g = true ∧
      (addGroup role p g).on t = (.ok (t.newGroup p role), t.withGroup p role)) := by
  unfold addGroup
  by_cases hkind : t.kind? p = some .and
  · rw [on_bind_ok (on_expectKind_of_kind? hkind), on_bind_ok (on_get t)]
    refine Or.inr ?_
    cases hroom : t.canAddGroup role p g with
    | true =>
      refine Or.inr ⟨hkind, rfl, ?_⟩
      cases role with
      | inclusion => exact on_grow h hkind .or fun id => pure id
      | exclusion =>
        -- the `or` goes below the `not` that has just been made
        have hwrapper := kind?_grow_nextId h hkind .not
        exact (on_grow h hkind .not _).trans
          (on_grow (h.grow hkind .not) hwrapper .or fun id => pure id)
    | false =>
      refine Or.inl ⟨hkind, rfl, ?_⟩
      cases role <;> rfl
  · exact Or.inl ⟨hkind, on_bind_error (on_expectKind_of_ne hkind) _⟩

/-- The checks that come first are the only ones that can refuse a group. -/
theorem addGroup_ok_iff (role : GroupRole) (p : NodeId) (g : Grammar) :
    (∃ id, ((addGroup role p g).on t).1 = .ok id) ↔
      t.kind? p = some .and ∧ t.canAddGroup role p g = true := by
  obtain ⟨hno, hon⟩ | ⟨-, hfull, hon⟩ | ⟨hkind, hroom, hon⟩ := addGroup_cases h role p g
  · simp [hon, hno]
  · simp [hon, hfull]
  · simp [hon, hkind, hroom]

/-- A category is added below any `or` that does not have it. -/
theorem addCategory_cases (g : NodeId) (key : String) :
    (t.kind? g ≠ some .or ∧
      (addCategory g key).on t = (.error (t.kindError .addCategory g), t)) ∨
    (t.kind? g = some .or ∧
      ∃ leaf, t.findCategory? g key = some leaf ∧ (addCategory g key).on t = (.ok leaf, t)) ∨
    (t.kind? g = some .or ∧ t.findCategory? g key = none ∧
      (addCategory g key).on t = (.ok t.nextId, t.grow g (.category key))) := by
  unfold addCategory
  by_cases hkind : t.kind? g = some .or
  · rw [on_bind_ok (on_expectKind_of_kind? hkind), on_bind_ok (on_get t)]
    refine Or.inr ?_
    cases hfind : t.findCategory? g key with
    | some leaf => exact Or.inl ⟨hkind, leaf, rfl, rfl⟩
    | none => exact Or.inr ⟨hkind, rfl, on_grow h hkind _ fun leaf => pure leaf⟩
  · exact Or.inl ⟨hkind, on_bind_error (on_expectKind_of_ne hkind) _⟩

/-- The check that comes first is the only one that can refuse a category. -/
theorem addCategory_ok_iff (g : NodeId) (key : String) :
    (∃ id, ((addCategory g key).on t).1 = .ok id) ↔ t.kind? g = some .or := by
  obtain ⟨hno, hon⟩ | ⟨hkind, leaf, -, hon⟩ | ⟨hkind, -, hon⟩ := addCategory_cases h g key
  · simp [hon, hno]
  · simp [hon, hkind]
  · simp [hon, hkind]

/-- A category that is there is returned, and nothing is added. -/
theorem addCategory_of_mem {g : NodeId} {key : String} (hkind : t.kind? g = some .or)
    (hmem : key ∈ t.groupCategories g) :
    ∃ leaf ∈ t.children g, t.kind? leaf = some (.category key) ∧
      (addCategory g key).on t = (.ok leaf, t) := by
  obtain ⟨leaf, hfind⟩ := mem_groupCategories_iff.mp hmem
  obtain ⟨hchild, hleaf⟩ := mem_of_findCategory? hfind
  obtain ⟨hno, -⟩ | ⟨-, leaf', hfind', hon⟩ | ⟨-, hnone, -⟩ := addCategory_cases h g key
  · exact absurd hkind hno
  · cases hfind.symm.trans hfind'
    exact ⟨leaf, hchild, hleaf, hon⟩
  · cases hfind.symm.trans hnone

omit h in
/-- The first occurrence of a category is removed from below an `or`. -/
theorem removeCategory_cases (t : Tree) (g : NodeId) (key : String) :
    (t.kind? g ≠ some .or ∧
      (removeCategory g key).on t = (.error (t.kindError .removeCategory g), t)) ∨
    (t.kind? g = some .or ∧ t.findCategory? g key = none ∧
      (removeCategory g key).on t = (.ok false, t)) ∨
    (t.kind? g = some .or ∧ ∃ leaf, t.findCategory? g key = some leaf ∧
      (removeCategory g key).on t = (.ok true, t.prune g leaf)) := by
  unfold removeCategory
  by_cases hkind : t.kind? g = some .or
  · rw [on_bind_ok (on_expectKind_of_kind? hkind), on_bind_ok (on_get t)]
    refine Or.inr ?_
    cases hfind : t.findCategory? g key with
    | none => exact Or.inl ⟨hkind, rfl, rfl⟩
    | some leaf =>
      obtain ⟨hmem, -⟩ := mem_of_findCategory? hfind
      exact Or.inr ⟨hkind, leaf, rfl, on_removeChild_of_mem hmem⟩
  · exact Or.inl ⟨hkind, on_bind_error (on_expectKind_of_ne hkind) _⟩

/-- An `or` is removed with the `not` around it, unless there is nothing to remove it from. -/
theorem removeGroup_cases (g : NodeId) :
    (t.kind? g ≠ some .or ∧
      (removeGroup g).on t = (.error (t.kindError .removeGroup g), t)) ∨
    (t.kind? g = some .or ∧ (∀ p c, ¬ t.IsTop g p c) ∧ (removeGroup g).on t = (.ok false, t)) ∨
    (t.kind? g = some .or ∧
      ∃ p c, t.IsTop g p c ∧ (removeGroup g).on t = (.ok true, t.prune p c)) := by
  unfold removeGroup
  by_cases hkind : t.kind? g = some .or
  · rw [on_bind_ok (on_expectKind_of_kind? hkind)]
    refine Or.inr ?_
    obtain ⟨n, hn⟩ := isLive_of_kind? hkind
    rw [on_bind_ok (on_node_of_live hn), ← parent?_eq hn]
    -- a forest lists each node below its parent, so what is removed is there
    cases hparent : t.parent? g with
    | none => exact Or.inl ⟨hkind, fun _ _ => not_isTop_of_loose h hparent, rfl⟩
    | some p =>
      have hgp := h.mem_children hparent
      obtain ⟨m, hm⟩ := isLive_of_mem_children hgp
      dsimp only
      have hkindp : (kind p).on t = (.ok m.kind, t) := by rw [on_kind, kind?_eq hm]
      rw [on_bind_ok hkindp]
      by_cases hnot : m.kind = .not
      · rw [if_neg (not_not.mpr hnot), on_bind_ok (on_node_of_live hm), ← parent?_eq hm]
        have hnot' : t.kind? p = some .not := by rw [kind?_eq hm, hnot]
        cases hparent' : t.parent? p with
        | none =>
          refine Or.inl ⟨hkind, ?_, rfl⟩
          -- the topmost node would be the `not`, which is below nothing
          rintro q c ⟨hmem, ⟨rfl, hq⟩ | ⟨-, hbelow⟩⟩
          · exact hq (h.eq_of_mem_children hgp hmem ▸ hnot')
          · rw [h.eq_of_mem_children hbelow hgp] at hmem
            exact h.not_mem_children hparent' q hmem
        | some q =>
          have hpq := h.mem_children hparent'
          exact Or.inr ⟨hkind, q, p, ⟨hpq, Or.inr ⟨hnot', hgp⟩⟩, on_removeChild_of_mem hpq⟩
      · rw [if_pos hnot]
        have hnot' : t.kind? p ≠ some .not := fun hp =>
          hnot (Option.some_inj.mp ((kind?_eq hm).symm.trans hp))
        exact Or.inr ⟨hkind, p, g, ⟨hgp, Or.inl ⟨rfl, hnot'⟩⟩, on_removeChild_of_mem hgp⟩
  · exact Or.inl ⟨hkind, on_bind_error (on_expectKind_of_ne hkind) _⟩

end Forest

end Edit

namespace Tree

variable {α : Type} {t t' : Tree} {x : Edit α} {answer : α → Answer}

/-! ### All or nothing -/

/-- The call leaves the tree as it is, or succeeds with an answer other than no. -/
def IsAllOrNothing (call : Edit Answer) (t : Tree) : Prop :=
  (call.on t).2 = t ∨ ∃ a, (call.on t).1 = .ok a ∧ a ≠ .found false

theorem IsAllOrNothing.all {a : α} (hon : x.on t = (.ok a, t')) (ha : answer a ≠ .found false) :
    IsAllOrNothing (answer <$> x) t := by
  refine Or.inr ⟨answer a, ?_, ha⟩
  rw [Edit.on_map_ok hon]

theorem IsAllOrNothing.nothing {result : Except TreeError α} (hon : x.on t = (result, t)) :
    IsAllOrNothing (answer <$> x) t := by
  refine Or.inl ?_
  rw [Edit.on_map, hon]

theorem IsAllOrNothing.of_error {call : Edit Answer} {e : TreeError} (h : IsAllOrNothing call t)
    (hfail : (call.on t).1 = .error e) : (call.on t).2 = t := by
  obtain hsame | ⟨a, ha, -⟩ := h
  · exact hsame
  · cases hfail.symm.trans ha

theorem IsAllOrNothing.of_no {call : Edit Answer} (h : IsAllOrNothing call t)
    (hno : (call.on t).1 = .ok (.found false)) : (call.on t).2 = t := by
  obtain hsame | ⟨a, ha, hyes⟩ := h
  · exact hsame
  · cases hno.symm.trans ha
    exact absurd rfl hyes

/-- Every call is all or nothing. -/
theorem Call.isAllOrNothing (h : t.IsForest) (call : Call) : IsAllOrNothing call.edit t := by
  cases call with
  | create kind => exact .all (Edit.on_create kind t) nofun
  | setRoot id =>
    obtain ⟨-, e, hon⟩ | ⟨-, hon⟩ := Edit.on_setRoot id t
    · exact .nothing hon
    · exact .all hon nofun
  | appendChild p c =>
    obtain ⟨-, e, hon⟩ | ⟨-, hon⟩ := Edit.on_appendChild h p c
    · exact .nothing hon
    · exact .all hon nofun
  | removeChild p c =>
    obtain ⟨-, hon⟩ | ⟨-, -, hon⟩ | ⟨-, hon⟩ := Edit.on_removeChild p c t
    · exact .nothing hon
    · exact .nothing hon
    · exact .all hon (by simp)
  | enableTargeting =>
    cases hroot : t.root with
    | none => exact .all (Edit.enableTargeting_of_no_root h hroot) nofun
    | some r => exact .nothing (Edit.on_enableTargeting_of_root hroot)
  | addGroup role p g =>
    obtain ⟨-, hon⟩ | ⟨-, -, hon⟩ | ⟨-, -, hon⟩ := Edit.addGroup_cases h role p g
    · exact .nothing hon
    · exact .nothing hon
    · exact .all hon nofun
  | addCategory g key =>
    obtain ⟨-, hon⟩ | ⟨-, leaf, -, hon⟩ | ⟨-, -, hon⟩ := Edit.addCategory_cases h g key
    · exact .nothing hon
    · exact .nothing hon
    · exact .all hon nofun
  | removeCategory g key =>
    obtain ⟨-, hon⟩ | ⟨-, -, hon⟩ | ⟨-, leaf, -, hon⟩ := Edit.removeCategory_cases t g key
    · exact .nothing hon
    · exact .nothing hon
    · exact .all hon (by simp)
  | removeGroup g =>
    obtain ⟨-, hon⟩ | ⟨-, -, hon⟩ | ⟨-, p, c, -, hon⟩ := Edit.removeGroup_cases h g
    · exact .nothing hon
    · exact .nothing hon
    · exact .all hon (by simp)
  | writeName id name => exact .all (Edit.on_modify _ t) nofun

/-- In every tree that calls reach, a call that fails or answers no leaves the whole tree as it was,
and so do adding a category that is there and enabling a tree with a root. What an edit appends
after it has made a node is never refused, so groups and categories are added as soon as the checks
that come first allow it. -/
theorem all_or_nothing (h : t.IsReached) :
    (∀ (call : Call) e, (call.edit.on t).1 = .error e → (call.edit.on t).2 = t) ∧
    (∀ call : Call, (call.edit.on t).1 = .ok (.found false) → (call.edit.on t).2 = t) ∧
    (∀ group key, t.kind? group = some .or → key ∈ t.groupCategories group →
      ∃ leaf ∈ t.children group, t.kind? leaf = some (.category key) ∧
        (Edit.addCategory group key).on t = (.ok leaf, t)) ∧
    (∀ r, t.root = some r → Edit.enableTargeting.on t = (.ok r, t)) ∧
    (∀ p op kind, t.kind? p = some (.operator op) →
      (Edit.appendChild p t.nextId).on (t.create kind).2 = (.ok (), t.grow p kind)) ∧
    (∀ role p g, (∃ id, ((Edit.addGroup role p g).on t).1 = .ok id) ↔
      t.kind? p = some .and ∧ t.canAddGroup role p g = true) ∧
    (∀ group key, (∃ id, ((Edit.addCategory group key).on t).1 = .ok id) ↔
      t.kind? group = some .or) := by
  have h := h.isForest
  refine ⟨fun call e hfail => (call.isAllOrNothing h).of_error hfail,
    fun call hno => (call.isAllOrNothing h).of_no hno,
    fun group key hkind hmem => Edit.addCategory_of_mem h hkind hmem,
    fun r hroot => Edit.on_enableTargeting_of_root hroot,
    fun p op kind hp => Edit.on_appendChild_nextId h hp kind, ?_, ?_⟩
  · exact Edit.addGroup_ok_iff h
  · exact Edit.addCategory_ok_iff h

/-- A replaced root leaves two slots vacant. A call with the stale identifier of its group changes
nothing, and the next node gets the identifier that it would have got without the call. -/
theorem all_or_nothing_stale_group :
    IsReached (after .empty [.enableTargeting, .create .and, .setRoot ⟨2, 0⟩]) ∧
    ((Edit.addCategory ⟨1, 0⟩ "sport").on
      (after .empty [.enableTargeting, .create .and, .setRoot ⟨2, 0⟩])).1
        = .error (.nodeNotFound ⟨1, 0⟩) ∧
    (after .empty [.enableTargeting, .create .and, .setRoot ⟨2, 0⟩,
      .addCategory ⟨1, 0⟩ "sport"]).nextId = ⟨0, 2⟩ := by
  have hreached : IsReached (after .empty [.enableTargeting, .create .and, .setRoot ⟨2, 0⟩]) :=
    ⟨.empty, _, Or.inl rfl, rfl⟩
  have hfail : ((Call.addCategory ⟨1, 0⟩ "sport").edit.on
      (after .empty [.enableTargeting, .create .and, .setRoot ⟨2, 0⟩])).1
        = .error (.nodeNotFound ⟨1, 0⟩) := rfl
  have hsame := (all_or_nothing hreached).1 _ _ hfail
  refine ⟨hreached, rfl, ?_⟩
  change ((Call.addCategory ⟨1, 0⟩ "sport").edit.on
    (after .empty [.enableTargeting, .create .and, .setRoot ⟨2, 0⟩])).2.nextId = ⟨0, 2⟩
  rw [hsame]
  rfl

end Tree

end Targeting
