import Targeting.Expression.Reader
import Targeting.Group
import Targeting.Proofs.Tree.Edit
import Targeting.Proofs.Tree.Names

/-!
# Runs of edits on one tree

Whoever holds a tree may call the edits in any order and with any arguments: identifiers that are
live, stale or were never handed out, and keys and bounds of every kind. Every tree that is reached
in this way, from the empty tree or from one that was read, is a forest.

## Main definitions

* `Tree.Call` — a call of an edit, with its arguments
* `Tree.after`, `Tree.IsReached` — the tree after some calls, whether they succeed or fail
* `Edit.CoversNodeEdits`, `Edit.CoversStructuralEdits` — a property of edits that is a matter of the
  structural edits they are composed of, those that set a root left out or not
* `Edit.KeptByNodeEdits`, `Edit.KeptByStructuralEdits` — a property of trees that these edits keep

## Main results

* `Tree.isForest_after` — every tree reached by calls is a forest
* `Tree.edges_agree_after` — what this means for its nodes, one by one
-/

namespace Targeting

namespace Edit

variable {α β : Type} {I : Tree → Prop}

/-- A property that an edit has if the edits it is composed of have it, and that the structural
edits of nodes have. -/
structure CoversNodeEdits (P : ∀ {α : Type}, Edit α → Prop) : Prop where
  pure : ∀ {α : Type} (a : α), P (pure a : Edit α)
  throw : ∀ {α : Type} (e : TreeError), P (throw e : Edit α)
  get : P (get : Edit Tree)
  bind : ∀ {α β : Type} {x : Edit α} {f : α → Edit β}, P x → (∀ a, P (f a)) → P (x >>= f)
  create : ∀ kind, P (create kind)
  appendChild : ∀ parent child, P (appendChild parent child)
  removeChild : ∀ parent child, P (removeChild parent child)

/-- Such a property that all four structural edits have. -/
structure CoversStructuralEdits (P : ∀ {α : Type}, Edit α → Prop) : Prop extends
    CoversNodeEdits P where
  setRoot : ∀ id, P (setRoot id)

/-- A property of trees that the structural edits of nodes keep. -/
structure KeptByNodeEdits (I : Tree → Prop) : Prop where
  create : ∀ kind, Keeps I (create kind)
  appendChild : ∀ parent child, Keeps I (appendChild parent child)
  removeChild : ∀ parent child, Keeps I (removeChild parent child)

/-- A property of trees that the four structural edits keep. -/
structure KeptByStructuralEdits (I : Tree → Prop) : Prop extends KeptByNodeEdits I where
  setRoot : ∀ id, Keeps I (setRoot id)

/-- Keeping a property of trees is a matter of the parts of an edit. -/
theorem KeptByNodeEdits.covers (h : KeptByNodeEdits I) : CoversNodeEdits (Keeps I) where
  pure := .pure
  throw := .throw
  get := .get
  bind := .bind
  create := h.create
  appendChild := h.appendChild
  removeChild := h.removeChild

theorem KeptByStructuralEdits.covers (h : KeptByStructuralEdits I) :
    CoversStructuralEdits (Keeps I) :=
  ⟨h.toKeptByNodeEdits.covers, h.setRoot⟩

theorem keptByStructuralEdits_isForest : KeptByStructuralEdits Tree.IsForest where
  create := keeps_isForest_create
  appendChild := keeps_isForest_appendChild
  removeChild := keeps_isForest_removeChild
  setRoot := keeps_isForest_setRoot

/-- Only a new root changes which node is the root. -/
theorem keptByNodeEdits_root (o : Option NodeId) :
    KeptByNodeEdits fun t => t.IsForest ∧ t.root = o where
  create kind t ht := by
    rw [on_create]
    exact ⟨ht.1.create kind, ht.2⟩
  appendChild p c t ht := by
    obtain ⟨-, e, hfail⟩ | ⟨hcan, hdone⟩ := on_appendChild ht.1 p c
    · rwa [hfail]
    · rw [hdone]
      exact ⟨ht.1.attach hcan, ht.2⟩
  removeChild p c t ht := by
    obtain ⟨-, hfail⟩ | ⟨-, -, hno⟩ | ⟨hc, hyes⟩ := on_removeChild p c t
    · rwa [hfail]
    · rwa [hno]
    · rw [hyes]
      exact ⟨ht.1.prune hc, ht.2⟩

/-! ### Composed edits -/

variable {P : ∀ {α : Type}, Edit α → Prop}

namespace CoversNodeEdits

variable (h : CoversNodeEdits P)
include h

theorem map {x : Edit α} (hx : P x) (f : α → β) : P (f <$> x) := by
  rw [map_eq_pure_bind]
  exact h.bind hx fun a => h.pure (f a)

theorem node (id : NodeId) : P (Edit.node id) := by
  refine h.bind h.get fun t => ?_
  split
  · exact h.pure _
  · exact h.throw _

theorem kind (id : NodeId) : P (Edit.kind id) :=
  h.bind (h.node id) fun n => h.pure n.kind

theorem expectKind (operation : Operation) (expected : NodeKind) (id : NodeId) :
    P (Edit.expectKind operation expected id) := by
  refine h.bind (h.kind id) fun found => ?_
  split
  · exact h.pure _
  · exact h.throw _

theorem addGroup (role : GroupRole) (root : NodeId) (g : Grammar) :
    P (Edit.addGroup role root g) := by
  refine h.bind (h.expectKind _ _ root) fun _ => h.bind h.get fun t => ?_
  -- the bound is checked before the first node is made, so a failure adds nothing
  cases role with
  | inclusion =>
    dsimp only
    have hadd := fun group => h.bind (h.appendChild root group) fun _ => h.pure group
    split
    · exact h.bind (h.throw _) fun _ => h.bind (h.create _) hadd
    · exact h.bind (h.create _) hadd
  | exclusion =>
    dsimp only
    have hadd := fun wrapper => h.bind (h.appendChild root wrapper) fun _ =>
      h.bind (h.create .or) fun group =>
        h.bind (h.appendChild wrapper group) fun _ => h.pure group
    split
    · exact h.bind (h.throw _) fun _ => h.bind (h.create _) hadd
    · exact h.bind (h.create _) hadd

theorem addCategory (group : NodeId) (key : String) : P (Edit.addCategory group key) := by
  refine h.bind (h.expectKind _ _ group) fun _ => h.bind h.get fun t => ?_
  split
  · exact h.pure _
  · exact h.bind (h.create _) fun leaf => h.bind (h.appendChild group leaf) fun _ => h.pure leaf

theorem removeCategory (group : NodeId) (key : String) : P (Edit.removeCategory group key) := by
  refine h.bind (h.expectKind _ _ group) fun _ => h.bind h.get fun t => ?_
  split
  · exact h.removeChild group _
  · exact h.pure _

theorem removeGroup (group : NodeId) : P (Edit.removeGroup group) := by
  refine h.bind (h.expectKind _ _ group) fun _ => h.bind (h.node group) fun n => ?_
  split
  · exact h.pure _
  · next parent _ =>
    refine h.bind (h.kind parent) fun found => ?_
    split
    · exact h.removeChild parent group
    · refine h.bind (h.node parent) fun m => ?_
      split
      · exact h.removeChild _ parent
      · exact h.pure _

end CoversNodeEdits

namespace CoversStructuralEdits

variable (h : CoversStructuralEdits P)
include h

theorem enableTargeting : P Edit.enableTargeting := by
  refine h.bind h.get fun t => ?_
  split
  · exact h.pure _
  · exact h.bind (h.create _) fun root => h.bind (h.setRoot root) fun _ =>
      h.bind (h.create _) fun group => h.bind (h.appendChild root group) fun _ => h.pure root

theorem readCategory (position : Position) (body : Json) :
    P (Expression.readCategory position body) := by
  unfold Expression.readCategory
  split
  · exact h.throw _
  · exact h.create _
  · exact h.throw _

mutual

/-- Reading a serialized expression is composed of structural edits. -/
theorem readNode (position : Position) :
    ∀ value : Json, P (Expression.readNode position value)
  | .object [] => by rw [Expression.readNode]; exact h.throw _
  | .object [(key, body)] => by
    rw [Expression.readNode]
    split
    · exact readOperator position _ body
    · split
      · exact h.readCategory _ body
      · exact h.throw _
  | .object (_ :: _ :: _) => by simp only [Expression.readNode]; exact h.throw _
  | .null | .bool _ | .number _ | .string _ | .array _ => by
    simp only [Expression.readNode]
    exact h.throw _

/-- Reading an operator. -/
theorem readOperator (position : Position) (op : Operator) :
    ∀ body : Json, P (Expression.readOperator position op body)
  | .array items => by
    rw [Expression.readOperator]
    exact h.bind (h.create _) fun id =>
      h.bind (readItems position op id 0 items) fun _ => h.pure id
  | .null | .bool _ | .number _ | .string _ | .object _ => by
    simp only [Expression.readOperator]
    exact h.throw _

/-- Reading the operands of an operator. -/
theorem readItems (position : Position) (op : Operator) (parent : NodeId) (index : Nat) :
    ∀ items : List Json, P (Expression.readItems position op parent index items)
  | [] => by rw [Expression.readItems]; exact h.pure _
  | item :: items => by
    rw [Expression.readItems]
    exact h.bind (readNode _ item) fun child => h.bind (h.appendChild parent child) fun _ =>
      readItems position op parent (index + 1) items

end

theorem read (value : Json) : P (Expression.read value) :=
  h.bind (h.readNode .top value) fun root => h.setRoot root

end CoversStructuralEdits

end Edit

namespace Tree

/-! ### Calls -/

/-- A call of an edit. Writing the display name of a node is the only change that needs no edit. -/
inductive Call where
  | create (kind : NodeKind)
  | setRoot (id : NodeId)
  | appendChild (parent child : NodeId)
  | removeChild (parent child : NodeId)
  | enableTargeting
  | addGroup (role : GroupRole) (root : NodeId) (g : Grammar)
  | addCategory (group : NodeId) (key : String)
  | removeCategory (group : NodeId) (key : String)
  | removeGroup (group : NodeId)
  | writeName (id : NodeId) (name : Option String)

/-- What a call returns when it succeeds. -/
inductive Answer where
  | done
  | node (id : NodeId)
  | found (b : Bool)

/-- The edit that is called. -/
def Call.edit : Call → Edit Answer
  | .create kind => .node <$> Edit.create kind
  | .setRoot id => (fun _ => .done) <$> Edit.setRoot id
  | .appendChild parent child => (fun _ => .done) <$> Edit.appendChild parent child
  | .removeChild parent child => .found <$> Edit.removeChild parent child
  | .enableTargeting => .node <$> Edit.enableTargeting
  | .addGroup role root g => .node <$> Edit.addGroup role root g
  | .addCategory group key => .node <$> Edit.addCategory group key
  | .removeCategory group key => .found <$> Edit.removeCategory group key
  | .removeGroup group => .found <$> Edit.removeGroup group
  | .writeName id name =>
    (fun _ => .done) <$> (modify fun t => t.modifyNode id fun n => { n with displayName := name } :
      Edit PUnit)

/-- The tree after some calls, each made whether the ones before succeeded or failed. -/
def after (t : Tree) (calls : List Call) : Tree :=
  calls.foldl (fun t call => (call.edit.on t).2) t

/-- The trees to start from: the empty one, and those read from a serialized expression. -/
def IsInitial (t : Tree) : Prop := t = .empty ∨ ∃ value, Tree.ofJson value = .ok t

/-- A tree that some calls make of one to start from. -/
def IsReached (t : Tree) : Prop :=
  ∃ (start : Tree) (calls : List Call), start.IsInitial ∧ start.after calls = t

/-! ### Every tree reached is a forest -/

variable {t : Tree}

theorem isForest_of_ofJson {value : Json} (h : Tree.ofJson value = .ok t) : t.IsForest := by
  unfold ofJson at h
  split at h
  · cases h
    exact IsForest.empty
  · -- reading is an edit of the empty tree
    have hread := Edit.keptByStructuralEdits_isForest.covers.read value .empty IsForest.empty
    split at h
    · next hrun =>
      cases h
      rwa [hrun] at hread
    · cases h

theorem IsInitial.isForest (h : t.IsInitial) : t.IsForest := by
  obtain rfl | ⟨value, hvalue⟩ := h
  · exact IsForest.empty
  · exact isForest_of_ofJson hvalue

/-- A property of the structural edits and of writing a name is one of every call. -/
theorem Call.covered {P : ∀ {α : Type}, Edit α → Prop} (h : Edit.CoversStructuralEdits P)
    (hname : ∀ id name,
      P (modify fun t => t.modifyNode id fun n => { n with displayName := name } : Edit PUnit))
    (call : Call) : P call.edit := by
  cases call with
  | create kind => exact h.map (h.create kind) _
  | setRoot id => exact h.map (h.setRoot id) _
  | appendChild parent child => exact h.map (h.appendChild parent child) _
  | removeChild parent child => exact h.map (h.removeChild parent child) _
  | enableTargeting => exact h.map h.enableTargeting _
  | addGroup role root g => exact h.map (h.addGroup role root g) _
  | addCategory group key => exact h.map (h.addCategory group key) _
  | removeCategory group key => exact h.map (h.removeCategory group key) _
  | removeGroup group => exact h.map (h.removeGroup group) _
  | writeName id name => exact h.map (hname id name) _

/-- Each call keeps forests. -/
theorem Call.keeps_isForest (call : Call) : Edit.Keeps IsForest call.edit := by
  refine call.covered Edit.keptByStructuralEdits_isForest.covers fun id name t ht => ?_
  exact ht.of_nameless_eq (nameless_modifyNode t id fun _ => rfl)

/-- Every tree that calls reach is a forest. -/
theorem isForest_after (h : t.IsForest) (calls : List Call) : (t.after calls).IsForest := by
  induction calls generalizing t with
  | nil => exact h
  | cons call calls ih => exact ih (call.keeps_isForest t h)

theorem IsReached.isForest (h : t.IsReached) : t.IsForest := by
  obtain ⟨start, calls, hstart, rfl⟩ := h
  exact isForest_after hstart.isForest calls

/-- Further calls lead to no other trees. -/
theorem IsReached.after (h : t.IsReached) (calls : List Call) : (t.after calls).IsReached := by
  obtain ⟨start, before, hstart, rfl⟩ := h
  exact ⟨start, before ++ calls, hstart, List.foldl_append⟩

/-- In every tree that calls reach, the edges are stored alike on both sides and end at live nodes,
the root is live and parentless, categories have no children, and no chain of parents goes on for
ever. -/
theorem edges_agree_after (hstart : t.IsInitial) (calls : List Call) :
    (∀ p n, (t.after calls).node? p = some n → ∀ c ∈ n.children,
      (∃ m, (t.after calls).node? c = some m ∧ m.parent = some p) ∧ n.children.count c = 1) ∧
    (∀ c m p, (t.after calls).node? c = some m → m.parent = some p →
      ∃ n, (t.after calls).node? p = some n ∧ c ∈ n.children) ∧
    (∀ r, (t.after calls).root = some r →
      ∃ n, (t.after calls).node? r = some n ∧ n.parent = none) ∧
    (∀ id n key, (t.after calls).node? id = some n → n.kind = .category key → n.children = []) ∧
    WellFounded fun p c => (t.after calls).parent? c = some p := by
  have h := isForest_after hstart.isForest calls
  refine ⟨fun p n hn c hc => ?_, fun c m p hm hparent => ?_, fun r hr => h.root_isLoose hr,
    fun id n key hn hkind => ?_, h.acyclic⟩
  · rw [← children_eq hn] at hc ⊢
    exact ⟨parent?_eq_some_iff.mp (h.parent?_of_mem hc),
      List.count_eq_one_of_mem (h.nodup p) hc⟩
  · have hmem := h.mem_children (parent?_eq_some_iff.mpr ⟨m, hm, hparent⟩)
    obtain ⟨n, hn⟩ := isLive_of_mem_children hmem
    exact ⟨n, hn, children_eq hn ▸ hmem⟩
  · rw [← children_eq hn]
    exact h.childless (kind?_eq_some_iff.mpr ⟨n, hn, hkind⟩)

/-- Calls that replace the root, so that the slots of the former one are used again. -/
theorem edges_agree_after_replacing_root :
    IsInitial .empty ∧
    (after .empty [.enableTargeting, .addCategory ⟨1, 0⟩ "sport", .create .and, .setRoot ⟨3, 0⟩,
      .create .or, .appendChild ⟨3, 0⟩ ⟨0, 3⟩]).children ⟨3, 0⟩ = [⟨0, 3⟩] ∧
    ∃ m, (after .empty [.enableTargeting, .addCategory ⟨1, 0⟩ "sport", .create .and,
      .setRoot ⟨3, 0⟩, .create .or, .appendChild ⟨3, 0⟩ ⟨0, 3⟩]).node? ⟨0, 3⟩ = some m ∧
        m.parent = some ⟨3, 0⟩ := by
  have hstart : IsInitial .empty := Or.inl rfl
  have hedges := (edges_agree_after hstart [.enableTargeting, .addCategory ⟨1, 0⟩ "sport",
    .create .and, .setRoot ⟨3, 0⟩, .create .or, .appendChild ⟨3, 0⟩ ⟨0, 3⟩]).1 ⟨3, 0⟩
  refine ⟨hstart, rfl, (hedges _ rfl ⟨0, 3⟩ ?_).1⟩
  decide

end Tree

end Targeting
