import Mathlib.Data.List.Chain
import Mathlib.Logic.Relation
import Mathlib.Order.WellFounded
import Targeting.Proofs.Tree.Lookup
import Targeting.Tree.Branch

/-!
# Trees that are forests

A tree stores each edge twice, as the parent of the child and among the children of the parent, and
keeps the root and the live nodes apart from both. In a forest these views agree and no node is
above itself. Then a way up or down passes each node at most once, so it is no longer than the tree
is large, and the bounded look-ups of the model reach everything there is to reach.

## Main definitions

* `Tree.IsGrounded` — children know their parent, and no chain of parents goes on for ever
* `Tree.IsForest` — all four views agree
* `Tree.Reaches` — one node is another or hangs somewhere below it

## Main results

* `Tree.IsGrounded.branch_eq` — a branch is its node with the branches of its children
* `Tree.IsGrounded.induction` — a property that passes from children to parents holds everywhere
* `Tree.IsForest.mem_ancestors` — the ancestors are exactly the nodes that reach a node
-/

namespace Targeting

theorem Branch.size_le_sizeAll {b : Branch} {bs : List Branch} (h : b ∈ bs) :
    b.size ≤ Branch.sizeAll bs := by
  induction bs with
  | nil => cases h
  | cons b' bs ih =>
    rw [Branch.sizeAll]
    rcases List.mem_cons.mp h with rfl | h
    · exact Nat.le_add_right _ _
    · exact (ih h).trans (Nat.le_add_left _ _)

namespace Tree

open Relation

variable {t t' : Tree} {a b c p q x y id : NodeId}

/-- The first node is the parent of the second. -/
def IsParent (t : Tree) (p c : NodeId) : Prop := t.parent? c = some p

/-- Children know their parent, and every chain of parents ends. -/
structure IsGrounded (t : Tree) : Prop where
  /-- A node that occurs among the children of another is live and has the other as its parent. -/
  parent?_of_mem : ∀ {p c}, c ∈ t.children p → t.parent? c = some p
  /-- Going from a node to its parent, to the parent of that and so on comes to an end. -/
  acyclic : WellFounded t.IsParent

/-- The views that a tree keeps of its edges, its root and its live nodes agree. -/
structure IsForest (t : Tree) : Prop extends IsGrounded t where
  /-- The store of the nodes is in order. -/
  wellFormed : t.arena.WellFormed
  /-- No child is listed twice. -/
  nodup : ∀ p, (t.children p).Nodup
  /-- A node occurs among the children of its parent, which therefore is live. -/
  mem_children : ∀ {p c}, t.parent? c = some p → c ∈ t.children p
  /-- The root is live and has no parent. -/
  root_isLoose : ∀ {r}, t.root = some r → t.IsLoose r
  /-- Categories have no children. -/
  childless : ∀ {id key}, t.kind? id = some (.category key) → t.children id = []

/-- The second node is the first one or hangs somewhere below it. -/
def Reaches (t : Tree) : NodeId → NodeId → Prop := ReflTransGen fun p c => c ∈ t.children p

theorem Reaches.refl (id : NodeId) : t.Reaches id id := ReflTransGen.refl

/-- What is reached through a child. -/
theorem Reaches.head (h : c ∈ t.children p) (hreach : t.Reaches c x) : t.Reaches p x :=
  ReflTransGen.head h hreach

theorem Reaches.tail (hreach : t.Reaches x p) (h : c ∈ t.children p) : t.Reaches x c :=
  ReflTransGen.tail hreach h

/-- A node without children reaches itself only. -/
theorem Reaches.eq_of_childless (hreach : t.Reaches id x) (h : t.children id = []) : x = id := by
  rcases hreach.cases_head with rfl | ⟨c, hc, -⟩
  · rfl
  · simp [h] at hc

/-- Live nodes reach only live nodes. -/
theorem IsGrounded.isLive_of_reaches (h : t.IsGrounded) (hreach : t.Reaches id x)
    (hlive : t.IsLive id) : t.IsLive x := by
  rcases hreach.cases_tail with rfl | ⟨p, -, hp⟩
  · exact hlive
  · exact isLive_of_parent? (h.parent?_of_mem hp)

/-! ### Chains of parents -/

/-- Whatever reaches a node is on its chain of parents. -/
theorem IsGrounded.parents_of_reaches (h : t.IsGrounded) (hreach : t.Reaches a b) :
    ReflTransGen t.IsParent a b :=
  ReflTransGen.mono (fun _ _ hmem => h.parent?_of_mem hmem) _ _ hreach

/-- No node is properly above itself. -/
theorem IsGrounded.not_above_self (h : t.IsGrounded) :
    ¬ TransGen t.IsParent id id :=
  fun hloop => h.acyclic.transGen.irrefl.irrefl id hloop

theorem IsGrounded.not_reaches_parent (h : t.IsGrounded) (hc : c ∈ t.children p) :
    ¬ t.Reaches c p := fun hreach =>
  h.not_above_self (TransGen.head' (h.parent?_of_mem hc) (h.parents_of_reaches hreach))

theorem IsGrounded.ne_of_mem_children (h : t.IsGrounded) (hc : c ∈ t.children p) : c ≠ p := by
  rintro rfl
  exact h.not_reaches_parent hc (Reaches.refl c)

theorem IsGrounded.not_mem_children (h : t.IsGrounded) (hloose : t.parent? c = none)
    (p : NodeId) : c ∉ t.children p := by
  intro hmem
  rw [h.parent?_of_mem hmem] at hloose
  cases hloose

/-- A node is a child of one node only. -/
theorem IsGrounded.eq_of_mem_children (h : t.IsGrounded) (hp : c ∈ t.children p)
    (hq : c ∈ t.children q) : p = q :=
  Option.some_inj.mp ((h.parent?_of_mem hp).symm.trans (h.parent?_of_mem hq))

/-- A parentless node is reached from itself only. -/
theorem IsGrounded.eq_of_reaches_loose (h : t.IsGrounded) (hreach : t.Reaches a x)
    (hloose : t.parent? x = none) : a = x := by
  rcases hreach.cases_tail with rfl | ⟨p, -, hp⟩
  · rfl
  · exact absurd hp (h.not_mem_children hloose p)

/-- A child of a node is reached through that node or is the starting point. -/
theorem IsGrounded.reaches_parent_or_eq (h : t.IsGrounded) (hc : c ∈ t.children p)
    (hreach : t.Reaches a c) : c = a ∨ t.Reaches a p := by
  rcases hreach.cases_tail with rfl | ⟨q, hq, hmem⟩
  · exact Or.inl rfl
  · exact Or.inr (h.eq_of_mem_children hmem hc ▸ hq)

/-- Of two nodes that reach a third one reaches the other. -/
theorem IsGrounded.reaches_or_reaches (h : t.IsGrounded) (ha : t.Reaches a x)
    (hb : t.Reaches b x) : t.Reaches a b ∨ t.Reaches b a := by
  induction ha with
  | refl => exact Or.inr hb
  | @tail p x ha hx ih =>
    rcases h.reaches_parent_or_eq hx hb with rfl | hb
    · exact Or.inl (Reaches.tail ha hx)
    · exact ih hb

/-- Two children of a node reach nothing in common. -/
theorem IsGrounded.eq_of_reaches_siblings (h : t.IsGrounded) (ha : a ∈ t.children p)
    (hb : b ∈ t.children p) (hax : t.Reaches a x) (hbx : t.Reaches b x) : a = b := by
  -- of two siblings neither hangs below the other
  have hself : ∀ {a b}, a ∈ t.children p → b ∈ t.children p → t.Reaches a b → a = b := by
    intro a b ha hb hreach
    rcases h.reaches_parent_or_eq hb hreach with rfl | hreach
    · rfl
    · exact absurd hreach (h.not_reaches_parent ha)
  rcases h.reaches_or_reaches hax hbx with hreach | hreach
  · exact hself ha hb hreach
  · exact (hself hb ha hreach).symm

/-- A chain on which each node is properly above the one before or the one after it passes no node
twice, so it is no longer than the tree is large. -/
theorem IsGrounded.length_le_size (h : t.IsGrounded) (way : List NodeId)
    (hway : way.Pairwise (TransGen t.IsParent) ∨
      way.Pairwise fun x y => TransGen t.IsParent y x)
    (hlive : ∀ x ∈ way, t.IsLive x) : way.length ≤ t.size := by
  refine Arena.length_le_size ?_ hlive
  rcases hway with hdown | hup
  · refine hdown.imp ?_
    rintro x y habove rfl
    exact h.not_above_self habove
  · refine hup.imp ?_
    rintro x y habove rfl
    exact h.not_above_self habove

/-! ### Branches -/

/-- More fuel than there are nodes left to pass makes no difference. The induction carries the way
down to the node, whose length together with the fuel covers the whole tree. -/
theorem IsGrounded.branchWithin_succ (h : t.IsGrounded) (fuel : Nat) (id : NodeId)
    (way : List NodeId)
    (hway : (id :: way).Pairwise fun x y => TransGen t.IsParent y x)
    (hlive : ∀ x ∈ way, t.IsLive x) (hfuel : t.size ≤ fuel + way.length) :
    t.branchWithin (fuel + 1) id = t.branchWithin fuel id := by
  induction fuel generalizing id way with
  | zero =>
    cases hn : t.node? id with
    | none => simp [branchWithin, hn]
    | some n =>
      -- the way together with the node would hold more live nodes than there are
      have hlen := h.length_le_size _ (Or.inr hway) (by simpa using ⟨⟨n, hn⟩, hlive⟩)
      simp only [List.length_cons] at hlen
      omega
  | succ fuel ih =>
    rw [branchWithin, branchWithin]
    cases hn : t.node? id with
    | none => rfl
    | some n =>
      have hchildren : ∀ c ∈ n.children,
          t.branchWithin (fuel + 1) c = t.branchWithin fuel c := by
        intro c hc
        have hedge := h.parent?_of_mem (children_eq hn ▸ hc)
        refine ih c (id :: way) (List.pairwise_cons.mpr ⟨?_, hway⟩) ?_ ?_
        · intro x hx
          rcases List.mem_cons.mp hx with rfl | hx
          · exact TransGen.single hedge
          · exact TransGen.tail ((List.pairwise_cons.mp hway).1 x hx) hedge
        · simpa using ⟨⟨n, hn⟩, hlive⟩
        · simp only [List.length_cons]
          omega
      simp only [List.map_congr_left hchildren]

theorem branch_of_not_isLive (h : ¬ t.IsLive id) : t.branch id = .dangling id := by
  unfold branch
  cases t.size with
  | zero => rfl
  | succ size => simp [branchWithin, not_isLive_iff.mp h]

/-- The branch of a node consists of the node and the branches of its children. -/
theorem IsGrounded.branch_eq (h : t.IsGrounded) {n : Node} (hn : t.node? id = some n) :
    t.branch id = .node id n (n.children.map t.branch) := by
  have hsize : 1 ≤ t.size :=
    h.length_le_size [id] (Or.inl (List.pairwise_singleton _ _)) (by simpa using ⟨n, hn⟩)
  obtain ⟨size, hsucc⟩ := Nat.exists_eq_add_of_le' hsize
  have hchildren : ∀ c ∈ n.children, t.branchWithin size c = t.branch c := by
    intro c hc
    have hedge := h.parent?_of_mem (children_eq hn ▸ hc)
    rw [branch, hsucc]
    refine (h.branchWithin_succ size c [id] ?_ (by simpa using ⟨n, hn⟩) hsucc.le).symm
    refine List.pairwise_cons.mpr ⟨fun x hx => ?_, List.pairwise_singleton _ _⟩
    rw [List.mem_singleton.mp hx]
    exact TransGen.single hedge
  rw [branch, hsucc, branchWithin, hn]
  simp only [List.map_congr_left hchildren]

/-- A property of identifiers that passes from the children of a node to the node holds of every
identifier. -/
theorem IsGrounded.induction (h : t.IsGrounded) {motive : NodeId → Prop}
    (missing : ∀ id, ¬ t.IsLive id → motive id)
    (node : ∀ id n, t.node? id = some n → (∀ c ∈ n.children, motive c) → motive id)
    (id : NodeId) : motive id := by
  -- the branch of a child is a part of the branch of its parent
  induction hsize : (t.branch id).size using Nat.strongRecOn generalizing id with
  | ind size ih =>
    by_cases hlive : t.IsLive id
    · obtain ⟨n, hn⟩ := hlive
      refine node id n hn fun c hc => ih _ ?_ c rfl
      have hmem : t.branch c ∈ n.children.map t.branch := List.mem_map_of_mem hc
      have hle := Branch.size_le_sizeAll hmem
      rw [← hsize, h.branch_eq hn, Branch.size]
      omega
    · exact missing id hlive

/-! ### Ancestors -/

theorem parents_of_mem_ancestorsWithin {fuel : Nat} (hmem : a ∈ t.ancestorsWithin fuel id) :
    ReflTransGen t.IsParent a id := by
  induction fuel generalizing id with
  | zero => simp [ancestorsWithin] at hmem
  | succ fuel ih =>
    rw [ancestorsWithin] at hmem
    rcases List.mem_cons.mp hmem with rfl | hmem
    · exact ReflTransGen.refl
    · cases hparent : t.parent? id with
      | none => simp [hparent] at hmem
      | some p =>
        simp only [hparent] at hmem
        exact (ih hmem).tail hparent

/-- A search with fuel for more nodes than are left misses no ancestor. As for branches, the
induction carries the way passed so far. -/
theorem IsGrounded.mem_ancestorsWithin (h : t.IsGrounded) (fuel : Nat) (id : NodeId)
    (way : List NodeId)
    (hway : (id :: way).Pairwise (TransGen t.IsParent))
    (hlive : ∀ x ∈ way, t.IsLive x) (hfuel : t.size < fuel + way.length)
    (habove : ReflTransGen t.IsParent a id) :
    a ∈ t.ancestorsWithin fuel id := by
  induction fuel generalizing id way with
  | zero =>
    have hlen := h.length_le_size _ (Or.inl (List.pairwise_cons.mp hway).2) hlive
    omega
  | succ fuel ih =>
    rw [ancestorsWithin]
    rcases habove.cases_tail with rfl | ⟨p, hrest, hedge⟩
    · exact List.mem_cons_self
    · rw [show t.parent? id = some p from hedge]
      refine List.mem_cons_of_mem _ (ih p (id :: way) (List.pairwise_cons.mpr ⟨?_, hway⟩) ?_ ?_
        hrest)
      · intro x hx
        rcases List.mem_cons.mp hx with rfl | hx
        · exact TransGen.single hedge
        · exact TransGen.head hedge ((List.pairwise_cons.mp hway).1 x hx)
      · simpa using ⟨isLive_of_parent? hedge, hlive⟩
      · simp only [List.length_cons]
        omega

theorem IsGrounded.mem_ancestors (h : t.IsGrounded) :
    a ∈ t.ancestors id ↔ ReflTransGen t.IsParent a id := by
  constructor
  · exact parents_of_mem_ancestorsWithin
  · intro habove
    -- the search has fuel for one step more than there are slots
    have hslots : t.size ≤ t.arena.slots.size := t.arena.size_le_slots
    exact h.mem_ancestorsWithin _ id [] (List.pairwise_singleton _ _) (by simp)
      (by simp only [List.length_nil]; omega) habove

/-- In a forest the ancestors of a node are the nodes that it hangs below, and itself. -/
theorem IsForest.mem_ancestors (h : t.IsForest) : a ∈ t.ancestors id ↔ t.Reaches a id := by
  rw [h.toIsGrounded.mem_ancestors]
  exact ⟨ReflTransGen.mono (fun _ _ hedge => h.mem_children hedge) _ _,
    h.toIsGrounded.parents_of_reaches⟩

end Tree

end Targeting
