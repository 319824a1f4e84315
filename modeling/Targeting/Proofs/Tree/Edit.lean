import Targeting.Proofs.Tree.Growth
import Targeting.Proofs.Tree.Removal

/-!
# What the structural edits do

An edit checks everything before it changes anything. So each structural edit either fails and
leaves the tree as it was, or makes one change that keeps forests: a new node, a new root, a new
edge, or the removal of a child. What all four keep is kept by every edit composed of them.

## Main definitions

* `Edit.Keeps` — a property of trees that an edit keeps, whether it succeeds or fails
* `Edit.NeverMalformed` — an edit that does not fail as if it had read malformed data

## Main results

* `Edit.on_create`, `Edit.on_setRoot`, `Edit.on_appendChild`, `Edit.on_removeChild` — what each
  structural edit does
* `Edit.appendChild_cases` — why an edge is refused
* `Edit.neverMalformed_setRoot`, `Edit.neverMalformed_appendChild` — their reasons to fail
* `Edit.keeps_isForest_create` and the three after it — they keep forests
-/

namespace Targeting

section Bind

variable {σ ε α β : Type} {x : ExceptT ε (StateM σ) α} {s s' : σ}

/-- A composed program goes on with the result of its first part, in the state after it. -/
theorem run_bind_ok {a : α} (h : (ExceptT.run x).run s = (.ok a, s'))
    (f : α → ExceptT ε (StateM σ) β) :
    (ExceptT.run (x >>= f)).run s = (ExceptT.run (f a)).run s' := by
  rw [ExceptT.run_bind, StateT.run_bind, h]
  rfl

/-- If its first part fails, a composed program fails in the state after that part. -/
theorem run_bind_error {e : ε} (h : (ExceptT.run x).run s = (.error e, s'))
    (f : α → ExceptT ε (StateM σ) β) : (ExceptT.run (x >>= f)).run s = (.error e, s') := by
  rw [ExceptT.run_bind, StateT.run_bind, h]
  rfl

end Bind

namespace Edit

open Targeting.Tree (not_isLive_iff)

variable {α β : Type} {t t' : Tree} {id p c x : NodeId} {kind : NodeKind} {I : Tree → Prop}

/-! ### Results of composed edits -/

@[simp] theorem on_pure (a : α) (t : Tree) : (pure a : Edit α).on t = (.ok a, t) := rfl

@[simp] theorem on_throw (e : TreeError) (t : Tree) : (throw e : Edit α).on t = (.error e, t) := rfl

@[simp] theorem on_get (t : Tree) : (get : Edit Tree).on t = (.ok t, t) := rfl

@[simp] theorem on_set (t t' : Tree) : (set t' : Edit PUnit).on t = (.ok ⟨⟩, t') := rfl

@[simp] theorem on_modify (f : Tree → Tree) (t : Tree) :
    (modify f : Edit PUnit).on t = (.ok ⟨⟩, f t) := rfl

theorem on_bind (x : Edit α) (f : α → Edit β) (t : Tree) :
    (x >>= f).on t = match x.on t with
      | (.ok a, t') => (f a).on t'
      | (.error e, t') => (.error e, t') := by
  rcases hx : x.on t with ⟨e | a, t'⟩
  · exact run_bind_error hx f
  · exact run_bind_ok hx f

theorem on_map (f : α → β) (x : Edit α) (t : Tree) :
    (f <$> x).on t = ((x.on t).1.map f, (x.on t).2) := by
  rw [map_eq_pure_bind, on_bind]
  rcases x.on t with ⟨_ | _, _⟩ <;> rfl

theorem on_map_ok {x : Edit α} {a : α} (h : x.on t = (.ok a, t')) (f : α → β) :
    (f <$> x).on t = (.ok (f a), t') := by
  rw [on_map, h]
  rfl

theorem on_bind_ok {x : Edit α} {a : α} (h : x.on t = (.ok a, t')) (f : α → Edit β) :
    (x >>= f).on t = (f a).on t' := by
  rw [on_bind, h]

theorem on_bind_error {x : Edit α} {e : TreeError} (h : x.on t = (.error e, t')) (f : α → Edit β) :
    (x >>= f).on t = (.error e, t') := by
  rw [on_bind, h]

/-! ### Properties that edits keep -/

/-- An edit keeps a property of trees if the tree afterwards has it as well, also after a
failure. -/
def Keeps (I : Tree → Prop) (edit : Edit α) : Prop := ∀ t, I t → I (edit.on t).2

theorem Keeps.pure (a : α) : Keeps I (pure a : Edit α) := fun _ ht => ht

theorem Keeps.throw (e : TreeError) : Keeps I (throw e : Edit α) := fun _ ht => ht

theorem Keeps.get : Keeps I (get : Edit Tree) := fun _ ht => ht

theorem Keeps.bind {x : Edit α} {f : α → Edit β} (hx : Keeps I x) (hf : ∀ a, Keeps I (f a)) :
    Keeps I (x >>= f) := by
  intro t ht
  have hafter := hx t ht
  rw [on_bind]
  rcases hresult : x.on t with ⟨e | a, t'⟩
  · simpa only [hresult] using hafter
  · exact hf a t' (by simpa only [hresult] using hafter)

/-! ### Single steps -/

theorem on_node_of_live {n : Node} (h : t.node? id = some n) : (node id).on t = (.ok n, t) := by
  simp [node, on_bind, h]

theorem on_node_of_not_live (h : t.node? id = none) :
    (node id).on t = (.error (.nodeNotFound id), t) := by
  simp [node, on_bind, h]

theorem on_create (kind : NodeKind) (t : Tree) :
    (create kind).on t = (.ok t.nextId, (t.create kind).2) := by
  simp [create, on_bind, on_map, Except.map]

/-- Setting the root fails without a change, or puts a loose node in the place of the former root
and releases what hangs below that. -/
theorem on_setRoot (id : NodeId) (t : Tree) :
    (¬ t.IsLoose id ∧ ∃ e, (setRoot id).on t = (.error e, t)) ∨
    (t.IsLoose id ∧ (setRoot id).on t = (.ok (), match t.root with
      | none => { t with root := some id }
      | some old => if old = id then t else { t with root := some id }.release old)) := by
  unfold setRoot
  cases hn : t.node? id with
  | none =>
    refine Or.inl ⟨fun hloose => ?_, _, on_bind_error (on_node_of_not_live hn) _⟩
    exact not_isLive_iff.mpr hn hloose.isLive
  | some n =>
    rw [on_bind_ok (on_node_of_live hn)]
    cases hparent : n.parent with
    | some p =>
      refine Or.inl ⟨fun hloose => ?_, .alreadyAttached id, by simp⟩
      have hnone := (Tree.isLoose_iff.mp hloose).2
      rw [Tree.parent?_eq hn, hparent] at hnone
      cases hnone
    | none =>
      refine Or.inr ⟨⟨n, hn, hparent⟩, ?_⟩
      cases hroot : t.root with
      | none => simp [on_bind, hroot]
      | some old =>
        by_cases hold : old = id <;> simp [on_bind, hroot, hold]

/-- A loose node becomes the root of a tree that has none. -/
theorem on_setRoot_of_no_root (hroot : t.root = none) (hloose : t.IsLoose id) :
    (setRoot id).on t = (.ok (), { t with root := some id }) := by
  obtain ⟨hno, -⟩ | ⟨-, hset⟩ := on_setRoot id t
  · exact absurd hloose hno
  · rw [hset, hroot]

/-- Appending a child looks at the ends of the edge, then for a cycle, and then adds the edge. -/
theorem appendChild_cases (p c : NodeId) (t : Tree) :
    (¬ t.CanJoin p c ∧ ∃ e, e ≠ .wouldCreateCycle c ∧ (appendChild p c).on t = (.error e, t)) ∨
    (t.CanJoin p c ∧ c ∈ t.ancestors p ∧
      (appendChild p c).on t = (.error (.wouldCreateCycle c), t)) ∨
    (t.CanJoin p c ∧ c ∉ t.ancestors p ∧ (appendChild p c).on t = (.ok (), t.attach p c)) := by
  unfold appendChild
  -- the checks come in this order, and each one that fails says why the ends do not fit
  cases hp : t.node? p with
  | none =>
    refine Or.inl ⟨fun hjoin => ?_, .nodeNotFound p, nofun,
      on_bind_error (on_node_of_not_live hp) _⟩
    obtain ⟨op, hop⟩ := hjoin.operator
    exact not_isLive_iff.mpr hp (Tree.isLive_of_kind? hop)
  | some parentNode =>
    rw [on_bind_ok (on_node_of_live hp)]
    cases hkind : parentNode.kind with
    | category key =>
      refine Or.inl ⟨fun hjoin => ?_, .wrongKind .appendChild (.category key), nofun, ?_⟩
      · obtain ⟨op, hop⟩ := hjoin.operator
        rw [Tree.kind?_eq hp, hkind] at hop
        cases hop
      · simp [NodeKind.isLeaf]
    | operator op =>
      cases hc : t.node? c with
      | none =>
        refine Or.inl ⟨fun hjoin => ?_, .nodeNotFound c, nofun, ?_⟩
        · exact not_isLive_iff.mpr hc hjoin.loose.isLive
        · simp [on_bind, NodeKind.isLeaf, on_node_of_not_live hc]
      | some childNode =>
        by_cases hattached : childNode.parent.isSome = true ∨ t.root = some c
        · refine Or.inl ⟨fun hjoin => ?_, .alreadyAttached c, nofun, ?_⟩
          · rcases hattached with hparent | hroot
            · have hnone := (Tree.isLoose_iff.mp hjoin.loose).2
              rw [Tree.parent?_eq hc] at hnone
              simp [hnone] at hparent
            · exact hjoin.ne_root hroot
          · simp [on_bind, NodeKind.isLeaf, on_node_of_live hc, hattached]
        · have hjoin : t.CanJoin p c :=
            { operator := ⟨op, by rw [Tree.kind?_eq hp, hkind]⟩
              loose := ⟨childNode, hc, by simpa using fun hsome => hattached (Or.inl hsome)⟩
              ne_root := fun hroot => hattached (Or.inr hroot) }
          refine Or.inr ?_
          by_cases habove : c ∈ t.ancestors p
          · refine Or.inl ⟨hjoin, habove, ?_⟩
            simp [on_bind, NodeKind.isLeaf, on_node_of_live hc, hattached, habove]
          · refine Or.inr ⟨hjoin, habove, ?_⟩
            simp [on_bind, NodeKind.isLeaf, on_node_of_live hc, hattached, habove]

/-- Appending a child fails without a change, or adds an edge that a forest allows. -/
theorem on_appendChild (h : t.IsForest) (p c : NodeId) :
    (¬ t.CanAttach p c ∧ ∃ e, (appendChild p c).on t = (.error e, t)) ∨
    (t.CanAttach p c ∧ (appendChild p c).on t = (.ok (), t.attach p c)) := by
  -- the search among the ancestors finds every cycle, since the tree is a forest
  obtain ⟨hno, e, -, hfail⟩ | ⟨-, habove, hfail⟩ | ⟨hjoin, habove, hdone⟩ := appendChild_cases p c t
  · exact Or.inl ⟨fun hcan => hno (Tree.canAttach_iff.mp hcan).1, e, hfail⟩
  · exact Or.inl ⟨fun hcan => hcan.not_reaches (h.mem_ancestors.mp habove), _, hfail⟩
  · exact Or.inr ⟨Tree.canAttach_iff.mpr ⟨hjoin, mt h.mem_ancestors.mpr habove⟩, hdone⟩

theorem on_appendChild_of_canAttach (h : t.IsForest) (hcan : t.CanAttach p c) :
    (appendChild p c).on t = (.ok (), t.attach p c) := by
  obtain ⟨hno, -⟩ | ⟨-, hdone⟩ := on_appendChild h p c
  · exact absurd hcan hno
  · exact hdone

/-- Removing a child fails without a change if there is no such parent, answers no if the node is
not its child, and otherwise removes the child with all that hangs below it. -/
theorem on_removeChild (p c : NodeId) (t : Tree) :
    (¬ t.IsLive p ∧ (removeChild p c).on t = (.error (.nodeNotFound p), t)) ∨
    (t.IsLive p ∧ c ∉ t.children p ∧ (removeChild p c).on t = (.ok false, t)) ∨
    (c ∈ t.children p ∧ (removeChild p c).on t = (.ok true, t.prune p c)) := by
  unfold removeChild
  cases hp : t.node? p with
  | none => exact Or.inl ⟨not_isLive_iff.mpr hp, on_bind_error (on_node_of_not_live hp) _⟩
  | some n =>
    rw [on_bind_ok (on_node_of_live hp), Tree.children_eq hp]
    by_cases hc : c ∈ n.children
    · refine Or.inr (Or.inr ⟨hc, ?_⟩)
      -- the edit erases from the list that it has read, which is the one stored
      have hunlist : t.modifyNode p (fun m => { m with children := n.children.erase c })
          = t.unlist p c := by
        have hget : t.arena.get? p = some n := hp
        simp [Tree.unlist, Tree.modifyNode, Arena.modify, hget]
      simp [hc, on_map, Except.map, hunlist, Tree.prune]
    · exact Or.inr (Or.inl ⟨⟨n, hp⟩, hc, by simp [hc]⟩)

theorem on_removeChild_of_mem (hc : c ∈ t.children p) :
    (removeChild p c).on t = (.ok true, t.prune p c) := by
  obtain ⟨hdead, -⟩ | ⟨-, hno, -⟩ | ⟨-, hyes⟩ := on_removeChild p c t
  · exact absurd (Tree.isLive_of_mem_children hc) hdead
  · exact absurd hc hno
  · exact hyes

/-! ### Reasons to fail -/

/-- If an edit fails, the reason lies in the tree and not in a serialized expression. -/
def NeverMalformed (edit : Edit α) : Prop :=
  ∀ t e, (edit.on t).1 = .error e → e.isMalformed = false

/-- A check in front of the rest of an edit. -/
theorem NeverMalformed.guard {q : Prop} [Decidable q] {e : TreeError} {f : PUnit → Edit α}
    (he : e.isMalformed = false) (hf : NeverMalformed (f ⟨⟩)) :
    NeverMalformed (if q then throw e >>= f else f ⟨⟩) := by
  split
  · intro t e' h
    cases h
    exact he
  · exact hf

theorem NeverMalformed.pure (a : α) : NeverMalformed (pure a : Edit α) := nofun

theorem NeverMalformed.throw {e : TreeError} (he : e.isMalformed = false) :
    NeverMalformed (throw e : Edit α) := by
  intro t e' h
  cases h
  exact he

theorem NeverMalformed.get : NeverMalformed (get : Edit Tree) := nofun

theorem NeverMalformed.set (t : Tree) : NeverMalformed (set t : Edit PUnit) := nofun

theorem NeverMalformed.bind {x : Edit α} {f : α → Edit β} (hx : NeverMalformed x)
    (hf : ∀ a, NeverMalformed (f a)) : NeverMalformed (x >>= f) := by
  intro t e h
  rw [on_bind] at h
  rcases hresult : x.on t with ⟨e' | a, t'⟩
  · rw [hresult] at h
    cases h
    exact hx t e (by rw [hresult])
  · rw [hresult] at h
    exact hf a t' e h

theorem NeverMalformed.node (id : NodeId) : NeverMalformed (node id) := by
  refine NeverMalformed.get.bind fun t => ?_
  split
  · exact .pure _
  · exact .throw rfl

theorem neverMalformed_setRoot (id : NodeId) : NeverMalformed (setRoot id) := by
  refine (NeverMalformed.node id).bind fun n => .guard rfl (NeverMalformed.get.bind fun t => ?_)
  split
  · split
    · exact .pure _
    · exact .set _
  · exact .set _

theorem neverMalformed_appendChild (p c : NodeId) : NeverMalformed (appendChild p c) :=
  (NeverMalformed.node p).bind fun _ => .guard rfl <|
    (NeverMalformed.node c).bind fun _ => NeverMalformed.get.bind fun _ =>
      .guard rfl <| .guard rfl <| .set _

/-! ### Forests -/

theorem keeps_isForest_create (kind : NodeKind) : Keeps Tree.IsForest (create kind) := by
  intro t ht
  rw [on_create]
  exact ht.create kind

theorem keeps_isForest_setRoot (id : NodeId) : Keeps Tree.IsForest (setRoot id) := by
  intro t ht
  obtain ⟨-, e, hfail⟩ | ⟨hloose, hset⟩ := on_setRoot id t
  · rwa [hfail]
  · rw [hset]
    cases hroot : t.root with
    | none => exact ht.setRoot hloose
    | some old =>
      by_cases hold : old = id
      · simpa [hold] using ht
      · simpa [hold] using ht.replaceRoot hroot hloose hold

theorem keeps_isForest_appendChild (p c : NodeId) : Keeps Tree.IsForest (appendChild p c) := by
  intro t ht
  obtain ⟨-, e, hfail⟩ | ⟨hcan, hdone⟩ := on_appendChild ht p c
  · rwa [hfail]
  · rw [hdone]
    exact ht.attach hcan

theorem keeps_isForest_removeChild (p c : NodeId) : Keeps Tree.IsForest (removeChild p c) := by
  intro t ht
  obtain ⟨-, hfail⟩ | ⟨-, -, hno⟩ | ⟨hc, hyes⟩ := on_removeChild p c t
  · rwa [hfail]
  · rwa [hno]
  · rw [hyes]
    exact ht.prune hc

end Edit

end Targeting
