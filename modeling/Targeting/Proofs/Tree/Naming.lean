import Targeting.Proofs.Expression.Reading
import Targeting.Session.Info

/-!
# Naming categories

Names are filled in node by node, and only where there is none. New nodes have no name and edits
never touch one, so as long as the taxonomy answers alike, every category has the name that the
taxonomy gives it or none yet. Filling in names then completes them, and doing it again changes
nothing.

## Main definitions

* `Node.named` — a node with its display name filled in
* `Tree.displayName?` — the display name of a node
* `Tree.IsNamed`, `Tree.IsPartlyNamed` — all categories have their names, and some of them do

## Main results

* `Edit.keptByStructuralEdits_isPartlyNamed` — edits give no wrong names
* `Tree.nameless_resolveNames` — filling in names changes only names
* `Tree.Holds.node?_resolveNames` — what filling in names does to each node
* `Tree.Holds.isNamed_resolveNames`, `Tree.Holds.resolveNames_resolveNames` — it completes the
  names, and a second time it changes nothing
-/

namespace Targeting

namespace Node

variable {resolve : Resolver} {n : Node} {key : String}

/-- A node with its display name filled in, if it is a category that has none. -/
def named (resolve : Resolver) (n : Node) : Node :=
  match n.kind.categoryKey?, n.displayName with
  | some key, none => { n with displayName := resolve key }
  | _, _ => n

theorem displayName_named (hkind : n.kind = .category key)
    (hname : n.displayName = none ∨ n.displayName = resolve key) :
    (n.named resolve).displayName = resolve key := by
  unfold named
  rw [hkind]
  cases hsome : n.displayName with
  | none => rfl
  | some name =>
    rw [hsome] at hname
    simpa [hsome] using hname

theorem named_eq_self (h : ∀ key, n.kind = .category key → n.displayName = resolve key) :
    n.named resolve = n := by
  unfold named
  split
  · next key hkey hnone =>
    have hkind : n.kind = .category key := by
      cases hn : n.kind <;> rw [hn] at hkey <;> cases hkey
      rfl
    rw [← h key hkind]
  · rfl

/-- A name that has been filled in is not filled in again, also if it is still missing. -/
theorem named_named (resolve : Resolver) (n : Node) :
    (n.named resolve).named resolve = n.named resolve := by
  cases hkey : n.kind.categoryKey? with
  | none => simp [named, hkey]
  | some key =>
    cases hname : n.displayName with
    | some name => simp [named, hkey, hname]
    | none => cases hresolve : resolve key <;> simp [named, hkey, hname, hresolve]

end Node

namespace Tree

variable {t t' : Tree} {r p c id x : NodeId} {n : Node} {f : Formula} {resolve : Resolver}

/-- The display name of a node. -/
def displayName? (t : Tree) (id : NodeId) : Option String := (t.node? id).bind (·.displayName)

/-- Every category has the name that the taxonomy gives it. -/
def IsNamed (t : Tree) (resolve : Resolver) : Prop :=
  ∀ id key, t.kind? id = some (.category key) → t.displayName? id = resolve key

/-- Every category has the name that the taxonomy gives it, or none yet. -/
def IsPartlyNamed (t : Tree) (resolve : Resolver) : Prop :=
  ∀ id key, t.kind? id = some (.category key) →
    t.displayName? id = none ∨ t.displayName? id = resolve key

theorem displayName?_eq (h : t.node? id = some n) : t.displayName? id = n.displayName := by
  simp [displayName?, h]

theorem IsNamed.isPartlyNamed (h : t.IsNamed resolve) : t.IsPartlyNamed resolve :=
  fun id key hkind => Or.inr (h id key hkind)

/-! ### Edits give no wrong names -/

theorem isPartlyNamed_empty (resolve : Resolver) : Tree.empty.IsPartlyNamed resolve := by
  intro id key hkind
  cases hkind

/-- There are no wrong names where each node has no name, or has its name from a node of the same
kind that a tree without wrong names holds in its place. -/
theorem IsPartlyNamed.of_nodes (h : t.IsPartlyNamed resolve)
    (hnodes : ∀ x n', t'.node? x = some n' → n'.displayName = none ∨
      ∃ n, t.node? x = some n ∧ n.kind = n'.kind ∧ n.displayName = n'.displayName) :
    t'.IsPartlyNamed resolve := by
  intro x key hkind
  obtain ⟨n', hn', hkind'⟩ := kind?_eq_some_iff.mp hkind
  rw [displayName?_eq hn']
  obtain hnone | ⟨n, hn, hsame, hname⟩ := hnodes x n' hn'
  · exact Or.inl hnone
  · rw [← hname, ← displayName?_eq hn]
    exact h x key (kind?_eq_some_iff.mpr ⟨n, hn, hsame.trans hkind'⟩)

theorem IsPartlyNamed.create (h : t.IsPartlyNamed resolve) (hwf : t.arena.WellFormed)
    (kind : NodeKind) : (t.create kind).2.IsPartlyNamed resolve := by
  apply h.of_nodes
  intro x n' hn'
  rw [node?_create hwf] at hn'
  split at hn'
  · cases hn'
    exact Or.inl rfl
  · exact Or.inr ⟨n', hn', rfl, rfl⟩

/-- A change of one node that keeps its kind and its name. -/
theorem IsPartlyNamed.modifyNode (h : t.IsPartlyNamed resolve) (id : NodeId) {f : Node → Node}
    (hkind : ∀ n, (f n).kind = n.kind) (hname : ∀ n, (f n).displayName = n.displayName) :
    (t.modifyNode id f).IsPartlyNamed resolve := by
  apply h.of_nodes
  intro x n' hn'
  rw [node?_modifyNode] at hn'
  split at hn'
  · next hid =>
    obtain ⟨n, hn, rfl⟩ := Option.map_eq_some_iff.mp hn'
    exact Or.inr ⟨n, hid ▸ hn, (hkind n).symm, (hname n).symm⟩
  · exact Or.inr ⟨n', hn', rfl, rfl⟩

/-- The nodes that are left keep their names. -/
theorem IsPartlyNamed.discard (h : t.IsPartlyNamed resolve) (ids : List NodeId) :
    (t.discard ids).IsPartlyNamed resolve := by
  apply h.of_nodes
  intro x n' hn'
  rw [node?_discard] at hn'
  split at hn'
  · cases hn'
  · exact Or.inr ⟨n', hn', rfl, rfl⟩

theorem IsPartlyNamed.attach (h : t.IsPartlyNamed resolve) (p c : NodeId) :
    (t.attach p c).IsPartlyNamed resolve := by
  unfold Tree.attach
  apply IsPartlyNamed.modifyNode
  · apply IsPartlyNamed.modifyNode h
    · exact fun _ => rfl
    · exact fun _ => rfl
  · exact fun _ => rfl
  · exact fun _ => rfl

theorem IsPartlyNamed.prune (h : t.IsPartlyNamed resolve) (p c : NodeId) :
    (t.prune p c).IsPartlyNamed resolve := by
  unfold Tree.prune Tree.unlist
  apply IsPartlyNamed.discard
  apply IsPartlyNamed.modifyNode h
  · exact fun _ => rfl
  · exact fun _ => rfl

end Tree

namespace Edit

/-- The structural edits of a forest give no wrong names. -/
theorem keptByStructuralEdits_isPartlyNamed (resolve : Resolver) :
    KeptByStructuralEdits fun t => t.IsForest ∧ t.IsPartlyNamed resolve where
  create kind t h := by
    refine ⟨keeps_isForest_create kind t h.1, ?_⟩
    rw [on_create]
    exact h.2.create h.1.wellFormed kind
  appendChild p c t h := by
    refine ⟨keeps_isForest_appendChild p c t h.1, ?_⟩
    obtain ⟨-, e, hfail⟩ | ⟨-, hdone⟩ := on_appendChild h.1 p c
    · rw [hfail]
      exact h.2
    · rw [hdone]
      exact h.2.attach p c
  removeChild p c t h := by
    refine ⟨keeps_isForest_removeChild p c t h.1, ?_⟩
    obtain ⟨-, hfail⟩ | ⟨-, -, hno⟩ | ⟨-, hyes⟩ := on_removeChild p c t
    · rw [hfail]
      exact h.2
    · rw [hno]
      exact h.2
    · rw [hyes]
      exact h.2.prune p c
  setRoot id t h := by
    refine ⟨keeps_isForest_setRoot id t h.1, ?_⟩
    obtain ⟨-, e, hfail⟩ | ⟨-, hset⟩ := on_setRoot id t
    · rw [hfail]
      exact h.2
    · rw [hset]
      cases t.root with
      | none => exact h.2
      | some old =>
        dsimp only
        split
        · exact h.2
        · -- the nodes that are released take their names with them
          have hsame : ({ t with root := some id } : Tree).IsPartlyNamed resolve := h.2
          exact hsame.discard _

end Edit

namespace Tree

variable {t t' : Tree} {r id x : NodeId} {n m : Node} {f : Formula} {resolve : Resolver}

/-- A tree that is read has no wrong names, since it has no names. -/
theorem isPartlyNamed_of_ofJson {value : Json} (h : Tree.ofJson value = .ok t)
    (resolve : Resolver) : t.IsPartlyNamed resolve := by
  unfold ofJson at h
  split at h
  · cases h
    exact isPartlyNamed_empty resolve
  · have hread := (Edit.keptByStructuralEdits_isPartlyNamed resolve).covers.read value .empty
      ⟨IsForest.empty, isPartlyNamed_empty resolve⟩
    split at h
    · next hrun =>
      cases h
      rw [hrun] at hread
      exact hread.2
    · cases h

/-! ### Filling in names -/

/-- Filling in names changes only names. -/
theorem nameless_resolveNames (t : Tree) (resolve : Resolver) :
    (t.resolveNames resolve).nameless = t.nameless := by
  unfold resolveNames
  -- the nodes to name were listed beforehand, so the induction is for any list
  generalize t.preorder = entries
  induction entries generalizing t with
  | nil => rfl
  | cons entry entries ih =>
    rw [List.foldl_cons, ih]
    obtain ⟨id, n⟩ := entry
    dsimp only
    split
    · exact nameless_modifyNode t id fun _ => rfl
    · rfl

theorem Holds.of_nameless_eq (h : t.Holds r f) (heq : t'.nameless = t.nameless) :
    t'.Holds r f where
  isForest := h.isForest.of_nameless_eq heq
  root := by rw [← root_nameless, heq, root_nameless, h.root]
  isLoose x := by rw [← isLoose_nameless, heq, isLoose_nameless, h.isLoose]
  denotes := h.denotes.congr fun x _ =>
    ⟨by rw [← kind?_nameless, heq, kind?_nameless],
      by rw [← children_nameless, heq, children_nameless]⟩

/-- The tree in which the node of one entry has its name. -/
def nameEntry (resolve : Resolver) (t : Tree) (entry : NodeId × Node) : Tree :=
  match entry.2.kind.categoryKey?, entry.2.displayName with
  | some key, none => t.modifyNode entry.1 fun n => { n with displayName := resolve key }
  | _, _ => t

theorem resolveNames_eq (t : Tree) (resolve : Resolver) :
    t.resolveNames resolve = t.preorder.foldl (nameEntry resolve) t := rfl

theorem node?_nameEntry (hn : t.node? id = some n) (x : NodeId) :
    (t.nameEntry resolve (id, n)).node? x
      = if x = id then some (n.named resolve) else t.node? x := by
  unfold nameEntry Node.named
  dsimp only
  split
  · rw [node?_modifyNode, hn]
    rfl
  · split
    · next hx => rw [hx, hn]
    · rfl

/-- Every node that is listed has its name afterwards. The entries have to be as they are in the
tree, and those behind an entry still are once the entry has been dealt with. -/
theorem node?_foldl_nameEntry {entries : List (NodeId × Node)}
    (hentries : ∀ id n, (id, n) ∈ entries → t.node? id = some n)
    (hnodup : (entries.map Prod.fst).Nodup) (x : NodeId) :
    (entries.foldl (nameEntry resolve) t).node? x
      = if x ∈ entries.map Prod.fst then (t.node? x).map (Node.named resolve) else t.node? x := by
  induction entries generalizing t with
  | nil => rfl
  | cons entry entries ih =>
    obtain ⟨id, n⟩ := entry
    rw [List.map_cons, List.nodup_cons] at hnodup
    have hn := hentries id n List.mem_cons_self
    -- the identifier is not listed again, so the other nodes are as they were
    have hrest : ∀ id' n', (id', n') ∈ entries →
        (t.nameEntry resolve (id, n)).node? id' = some n' := by
      intro id' n' hmem
      rw [node?_nameEntry hn, if_neg]
      · exact hentries id' n' (List.mem_cons_of_mem _ hmem)
      · rintro rfl
        exact hnodup.1 (List.mem_map.mpr ⟨_, hmem, rfl⟩)
    rw [List.foldl_cons, ih hrest hnodup.2, node?_nameEntry hn]
    by_cases hx : x = id
    · subst hx
      simp [hnodup.1, hn]
    · have hmem : x ∈ ((id, n) :: entries).map Prod.fst ↔ x ∈ entries.map Prod.fst := by
        rw [List.map_cons, List.mem_cons, or_iff_right hx]
      simp only [hmem, if_neg hx]

/-- A node that stays as it is when its name is filled in. -/
theorem nameEntry_eq_self (hself : n.named resolve = n) (hn : t.node? id = some n) :
    t.nameEntry resolve (id, n) = t := by
  unfold nameEntry
  unfold Node.named at hself
  dsimp only
  split
  · next key hkey hnone =>
    rw [hkey, hnone] at hself
    have hsame : t.arena.modify id (fun n => { n with displayName := resolve key }) = t.arena := by
      apply Arena.modify_eq_self
      intro v hv
      cases hn.symm.trans hv
      exact hself
    rw [modifyNode, hsame]
  · rfl

section Holds

variable (h : t.Holds r f)
include h

/-- The walk from the root lists exactly the live nodes. -/
theorem Holds.mem_preorder : (x, m) ∈ t.preorder ↔ t.node? x = some m := by
  rw [preorder, h.root, Option.map_some, Option.getD_some, h.isForest.preorderFrom_eq,
    h.isForest.mem_preorder_branch]
  exact ⟨fun hm => hm.2, fun hm => ⟨h.reaches ⟨m, hm⟩, hm⟩⟩

theorem Holds.nodup_preorder : (t.preorder.map Prod.fst).Nodup := by
  rw [preorder, h.root, Option.map_some, Option.getD_some, h.isForest.preorderFrom_eq]
  exact h.isForest.nodup_preorder_branch r

/-- Filling in names fills in the name of every node. -/
theorem Holds.node?_resolveNames (resolve : Resolver) (x : NodeId) :
    (t.resolveNames resolve).node? x = (t.node? x).map (Node.named resolve) := by
  rw [resolveNames_eq, node?_foldl_nameEntry (fun _ _ => h.mem_preorder.mp) h.nodup_preorder]
  split
  · rfl
  · next hx =>
    -- a node that is not listed is not there
    cases hn : t.node? x with
    | none => rfl
    | some n => exact absurd (List.mem_map.mpr ⟨_, h.mem_preorder.mpr hn, rfl⟩) hx

/-- Where some names were given rightly, filling in names gives all of them. -/
theorem Holds.isNamed_resolveNames (hpart : t.IsPartlyNamed resolve) :
    (t.resolveNames resolve).IsNamed resolve := by
  intro x key hkind
  rw [← kind?_nameless, nameless_resolveNames, kind?_nameless] at hkind
  obtain ⟨n, hn, hkind'⟩ := kind?_eq_some_iff.mp hkind
  rw [displayName?, h.node?_resolveNames, hn, Option.map_some, Option.bind_some]
  apply Node.displayName_named hkind'
  rw [← displayName?_eq hn]
  exact hpart x key hkind

/-- Filling in names changes nothing where it changes no node. -/
theorem Holds.resolveNames_eq_self
    (hself : ∀ id n, t.node? id = some n → n.named resolve = n) : t.resolveNames resolve = t := by
  rw [resolveNames_eq]
  have hentries : ∀ entry ∈ t.preorder, t.nameEntry resolve entry = t := by
    rintro ⟨id, n⟩ hentry
    have hn := h.mem_preorder.mp hentry
    exact nameEntry_eq_self (hself id n hn) hn
  -- the tree is the same after each entry
  generalize t.preorder = entries at hentries
  induction entries with
  | nil => rfl
  | cons entry entries ih =>
    rw [List.foldl_cons, hentries entry List.mem_cons_self]
    exact ih fun entry' hentry' => hentries entry' (List.mem_cons_of_mem _ hentry')

omit h in
theorem IsNamed.named_eq_self (hnamed : t.IsNamed resolve) (hn : t.node? id = some n) :
    n.named resolve = n := by
  apply Node.named_eq_self
  intro key hkind
  rw [← displayName?_eq hn]
  exact hnamed id key (kind?_eq_some_iff.mpr ⟨n, hn, hkind⟩)

/-- Filling in names a second time changes nothing, whatever names there were before. -/
theorem Holds.resolveNames_resolveNames (resolve : Resolver) :
    (t.resolveNames resolve).resolveNames resolve = t.resolveNames resolve := by
  apply (h.of_nameless_eq (t.nameless_resolveNames resolve)).resolveNames_eq_self
  intro id n hn
  rw [h.node?_resolveNames, Option.map_eq_some_iff] at hn
  obtain ⟨m, -, rfl⟩ := hn
  exact m.named_named resolve

end Holds

end Tree

end Targeting
