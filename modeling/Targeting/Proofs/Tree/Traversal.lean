import Targeting.Proofs.Expression.Equality
import Targeting.Proofs.Tree.Depth

/-!
# Walks with a stack and their recursive orders

A walk takes identifiers from a stack and puts children there until nothing is left. Nothing in the
loop bounds the number of its turns, and a walk with marks comes back to every node. In a forest both
walks end: what an entry of the stack stands for is listed, and the rest of the stack is then as it
was. So they list what the two recursive orders list, every node reached from the root once.

## Main definitions

* `Tree.WalkEnds`, `Tree.MarkedWalkEnds` — the loop ends, and has listed some nodes
* `Tree.IsRecursiveOrder` — an order of nodes by recursion on children
* `Tree.ListsReached` — a list of the nodes that are reached from the root
* `Json.leafKeys` — the category keys in a serialized expression

## Main results

* `Tree.IsGrounded.walkEnds_iff`, `Tree.IsGrounded.markedWalkEnds_iff` — the loops end
* `Tree.IsRecursiveOrder.unique` — the recursion determines the order
* `Tree.walks_in_recursive_order` — what this means in every tree that calls reach
-/

namespace Targeting

/-! ### Category keys -/

namespace Json

mutual

/-- The category keys in a serialized expression, from left to right. -/
def leafKeys : Json → List String
  | .array items => leafKeysItems items
  | .object members => leafKeysMembers members
  | _ => []

/-- The category keys in items. -/
def leafKeysItems : List Json → List String
  | [] => []
  | item :: items => item.leafKeys ++ leafKeysItems items

/-- The category keys in members. -/
def leafKeysMembers : List (String × Json) → List String
  | [] => []
  | (key, value) :: members =>
    (if key = "category" then value.string?.toList else value.leafKeys) ++ leafKeysMembers members

end

end Json

namespace Formula

mutual

theorem leafKeys_toJson : ∀ f : Formula, f.toJson.leafKeys = f.keys
  | .category key => by simp [toJson, keys, Json.leafKeys, Json.leafKeysMembers, Json.string?]
  | .operator op operands => by
    rw [toJson, keys, Json.leafKeys, Json.leafKeysMembers, if_neg (Operator.tag_ne_category op),
      Json.leafKeys, Json.leafKeysMembers, List.append_nil, leafKeysItems_toJsonAll operands]

theorem leafKeysItems_toJsonAll : ∀ fs : List Formula,
    Json.leafKeysItems (toJsonAll fs) = keysAll fs
  | [] => rfl
  | f :: fs => by
    rw [toJsonAll, keysAll, Json.leafKeysItems, leafKeys_toJson f, leafKeysItems_toJsonAll fs]

end

end Formula

namespace Tree

variable {t : Tree} {id p c r x : NodeId} {n m : Node} {out out' : List (NodeId × Node)}

/-! ### The loops end -/

/-- The walk that lists parents first ends on a stack, and has listed some nodes by then. Each rule
is a turn of the loop, so a walk that goes on for ever does not end in anything. -/
inductive WalkEnds (t : Tree) : List NodeId → List (NodeId × Node) → Prop
  | empty : WalkEnds t [] []
  | visit {id : NodeId} {n : Node} {stack : List NodeId} {out : List (NodeId × Node)}
    (hn : t.node? id = some n) (hrest : WalkEnds t (n.children ++ stack) out) :
    WalkEnds t (id :: stack) ((id, n) :: out)
  | skip {id : NodeId} {stack : List NodeId} {out : List (NodeId × Node)}
    (hn : t.node? id = none) (hrest : WalkEnds t stack out) : WalkEnds t (id :: stack) out

/-- The walk that lists parents last ends on a stack, and has listed some nodes by then. -/
inductive MarkedWalkEnds (t : Tree) : List (NodeId × Bool) → List (NodeId × Node) → Prop
  | empty : MarkedWalkEnds t [] []
  | enter {id : NodeId} {n : Node} {stack : List (NodeId × Bool)} {out : List (NodeId × Node)}
    (hn : t.node? id = some n)
    (hrest : MarkedWalkEnds t (n.children.map (·, false) ++ (id, true) :: stack) out) :
    MarkedWalkEnds t ((id, false) :: stack) out
  | leave {id : NodeId} {n : Node} {stack : List (NodeId × Bool)} {out : List (NodeId × Node)}
    (hn : t.node? id = some n) (hrest : MarkedWalkEnds t stack out) :
    MarkedWalkEnds t ((id, true) :: stack) ((id, n) :: out)
  | skip {id : NodeId} {seen : Bool} {stack : List (NodeId × Bool)} {out : List (NodeId × Node)}
    (hn : t.node? id = none) (hrest : MarkedWalkEnds t stack out) :
    MarkedWalkEnds t ((id, seen) :: stack) out

/-- What holds of a bounded loop from some bound on holds of the loop with one turn more. -/
theorem exists_turns_succ {α β : Type} {loop : Nat → α} {longer : Nat → β} {a : α} {b : β}
    (h : ∃ turns, ∀ fuel ≥ turns, loop fuel = a)
    (hturn : ∀ fuel, loop fuel = a → longer (fuel + 1) = b) :
    ∃ turns, ∀ fuel ≥ turns, longer fuel = b := by
  obtain ⟨turns, hturns⟩ := h
  refine ⟨turns + 1, fun fuel hfuel => ?_⟩
  obtain ⟨fuel, rfl⟩ := Nat.exists_eq_add_of_le' ((Nat.le_add_left 1 _).trans hfuel)
  exact hturn fuel (hturns fuel (Nat.le_of_succ_le_succ hfuel))

/-- The bounded walk lists the same if its bound allows for all turns of the loop. -/
theorem WalkEnds.exists_walk_eq {stack : List NodeId} (h : t.WalkEnds stack out) :
    ∃ turns, ∀ fuel ≥ turns, t.walk fuel stack = out := by
  induction h with
  | empty => exact ⟨0, fun fuel _ => by cases fuel <;> rfl⟩
  | visit hn hrest ih => exact exists_turns_succ ih fun fuel hfuel => by simp only [walk, hn, hfuel]
  | skip hn hrest ih => exact exists_turns_succ ih fun fuel hfuel => by simp only [walk, hn, hfuel]

/-- The bounded walk with marks lists the same if its bound allows for all turns of the loop. -/
theorem MarkedWalkEnds.exists_walkMarked_eq {stack : List (NodeId × Bool)}
    (h : t.MarkedWalkEnds stack out) :
    ∃ turns, ∀ fuel ≥ turns, t.walkMarked fuel stack = out := by
  induction h with
  | empty => exact ⟨0, fun fuel _ => by cases fuel <;> rfl⟩
  | enter hn hrest ih =>
    exact exists_turns_succ ih fun fuel hfuel => by simp only [walkMarked, hn, hfuel]
  | leave hn hrest ih =>
    exact exists_turns_succ ih fun fuel hfuel => by simp only [walkMarked, hn, hfuel]
  | skip hn hrest ih =>
    exact exists_turns_succ ih fun fuel hfuel => by simp only [walkMarked, hn, hfuel]

/-- A walk ends in one list only. -/
theorem WalkEnds.unique {stack : List NodeId} (h : t.WalkEnds stack out)
    (h' : t.WalkEnds stack out') : out = out' := by
  obtain ⟨turns, hturns⟩ := h.exists_walk_eq
  obtain ⟨turns', hturns'⟩ := h'.exists_walk_eq
  exact (hturns _ (le_max_left _ _)).symm.trans (hturns' _ (le_max_right _ _))

theorem MarkedWalkEnds.unique {stack : List (NodeId × Bool)} (h : t.MarkedWalkEnds stack out)
    (h' : t.MarkedWalkEnds stack out') : out = out' := by
  obtain ⟨turns, hturns⟩ := h.exists_walkMarked_eq
  obtain ⟨turns', hturns'⟩ := h'.exists_walkMarked_eq
  exact (hturns _ (le_max_left _ _)).symm.trans (hturns' _ (le_max_right _ _))

/-- If the walk deals with each of some identifiers and goes on with what is below it on the stack,
it does so with all of them. -/
theorem WalkEnds.append {order : NodeId → List (NodeId × Node)} {ids stack : List NodeId}
    (hids : ∀ id ∈ ids, ∀ {stack out}, t.WalkEnds stack out →
      t.WalkEnds (id :: stack) (order id ++ out))
    (h : t.WalkEnds stack out) : t.WalkEnds (ids ++ stack) (ids.flatMap order ++ out) := by
  induction ids with
  | nil => exact h
  | cons id ids ih =>
    rw [List.flatMap_cons, List.append_assoc, List.cons_append]
    exact hids id List.mem_cons_self (ih fun c hc => hids c (List.mem_cons_of_mem id hc))

theorem MarkedWalkEnds.append {order : NodeId → List (NodeId × Node)} {ids : List NodeId}
    {stack : List (NodeId × Bool)}
    (hids : ∀ id ∈ ids, ∀ {stack out}, t.MarkedWalkEnds stack out →
      t.MarkedWalkEnds ((id, false) :: stack) (order id ++ out))
    (h : t.MarkedWalkEnds stack out) :
    t.MarkedWalkEnds (ids.map (·, false) ++ stack) (ids.flatMap order ++ out) := by
  induction ids with
  | nil => exact h
  | cons id ids ih =>
    rw [List.flatMap_cons, List.append_assoc, List.map_cons, List.cons_append]
    exact hids id List.mem_cons_self (ih fun c hc => hids c (List.mem_cons_of_mem id hc))

/-- An identifier on the stack is listed with all below it, and then the walk goes on as it would
have without it. The induction is on the tree, and the rest of the stack is arbitrary in it. -/
theorem IsGrounded.walkEnds_cons (h : t.IsGrounded) (id : NodeId) {stack : List NodeId}
    (hrest : t.WalkEnds stack out) :
    t.WalkEnds (id :: stack) ((t.branch id).preorder ++ out) := by
  induction id using h.induction generalizing stack out with
  | missing id hdead =>
    rw [branch_of_not_isLive hdead, Branch.preorder, List.nil_append]
    exact .skip (not_isLive_iff.mp hdead) hrest
  | node id n hn ih =>
    rw [h.branch_eq hn, Branch.preorder, Branch.preorderAll_eq, List.flatMap_map, List.cons_append]
    exact .visit hn (.append (fun c hc _ _ hrest => ih c hc hrest) hrest)

theorem IsGrounded.markedWalkEnds_cons (h : t.IsGrounded) (id : NodeId)
    {stack : List (NodeId × Bool)} (hrest : t.MarkedWalkEnds stack out) :
    t.MarkedWalkEnds ((id, false) :: stack) ((t.branch id).postorder ++ out) := by
  induction id using h.induction generalizing stack out with
  | missing id hdead =>
    rw [branch_of_not_isLive hdead, Branch.postorder, List.nil_append]
    exact .skip (not_isLive_iff.mp hdead) hrest
  | node id n hn ih =>
    rw [h.branch_eq hn, Branch.postorder, Branch.postorderAll_eq, List.flatMap_map,
      List.append_assoc]
    -- the node itself is met again when the children are done
    exact .enter hn (.append (fun c hc _ _ hrest => ih c hc hrest) (.leave hn hrest))

/-- The walk from the root ends, and it ends in the list of nodes that the program works with. -/
theorem IsGrounded.walkEnds_iff (h : t.IsGrounded) :
    t.WalkEnds t.root.toList out ↔ out = t.preorder := by
  have hends : t.WalkEnds t.root.toList t.preorder := by
    rw [preorder]
    cases t.root with
    | none => exact .empty
    | some r =>
      have hcons := h.walkEnds_cons r .empty
      rwa [List.append_nil, ← h.preorderFrom_eq] at hcons
  exact ⟨fun hout => hout.unique hends, fun heq => heq ▸ hends⟩

theorem IsGrounded.markedWalkEnds_iff (h : t.IsGrounded) :
    t.MarkedWalkEnds (t.root.toList.map (·, false)) out ↔ out = t.postorder := by
  have hends : t.MarkedWalkEnds (t.root.toList.map (·, false)) t.postorder := by
    rw [postorder]
    cases t.root with
    | none => exact .empty
    | some r =>
      have hcons := h.markedWalkEnds_cons r .empty
      rwa [List.append_nil, ← h.postorderFrom_eq] at hcons
  exact ⟨fun hout => hout.unique hends, fun heq => heq ▸ hends⟩

/-! ### The recursive orders -/

/-- An order lists, for each node, the node together with what it lists for the children from left
to right. What is done with the two is said by `join`. -/
structure IsRecursiveOrder (t : Tree)
    (join : NodeId × Node → List (NodeId × Node) → List (NodeId × Node))
    (order : NodeId → List (NodeId × Node)) : Prop where
  node : ∀ {id n}, t.node? id = some n → order id = join (id, n) (n.children.flatMap order)
  missing : ∀ {id}, t.node? id = none → order id = []

/-- The node comes before what its children list. -/
abbrev parentFirst (entry : NodeId × Node) (below : List (NodeId × Node)) :
    List (NodeId × Node) := entry :: below

/-- The node comes behind what its children list. -/
abbrev parentLast (entry : NodeId × Node) (below : List (NodeId × Node)) :
    List (NodeId × Node) := below ++ [entry]

theorem IsGrounded.isRecursiveOrder_preorderFrom (h : t.IsGrounded) :
    t.IsRecursiveOrder parentFirst t.preorderFrom := by
  have horder : t.preorderFrom = fun id => (t.branch id).preorder := funext h.preorderFrom_eq
  rw [horder]
  constructor
  case node =>
    intro id n hn
    rw [h.branch_eq hn, Branch.preorder, Branch.preorderAll_eq, List.flatMap_map]
  case missing =>
    intro id hn
    rw [branch_of_not_isLive (not_isLive_iff.mpr hn), Branch.preorder]

theorem IsGrounded.isRecursiveOrder_postorderFrom (h : t.IsGrounded) :
    t.IsRecursiveOrder parentLast t.postorderFrom := by
  have horder : t.postorderFrom = fun id => (t.branch id).postorder := funext h.postorderFrom_eq
  rw [horder]
  constructor
  case node =>
    intro id n hn
    rw [h.branch_eq hn, Branch.postorder, Branch.postorderAll_eq, List.flatMap_map]
  case missing =>
    intro id hn
    rw [branch_of_not_isLive (not_isLive_iff.mpr hn), Branch.postorder]

section RecursiveOrder

variable (hground : t.IsGrounded)
  {join : NodeId × Node → List (NodeId × Node) → List (NodeId × Node)}
  {order order' : NodeId → List (NodeId × Node)}
include hground

/-- The recursion determines the order. -/
theorem IsRecursiveOrder.unique (h : t.IsRecursiveOrder join order)
    (h' : t.IsRecursiveOrder join order') : order = order' := by
  funext id
  induction id using hground.induction with
  | missing id hdead =>
    rw [h.missing (not_isLive_iff.mp hdead), h'.missing (not_isLive_iff.mp hdead)]
  | node id n hn ih => rw [h.node hn, h'.node hn, List.flatMap_congr ih]

/-- What is listed for a node that is reached stands together in what is listed above it. -/
theorem IsRecursiveOrder.sublist_of_reaches (h : t.IsRecursiveOrder join order)
    (hjoin : ∀ entry below, List.Sublist below (join entry below)) (hreach : t.Reaches id x) :
    (order x).Sublist (order id) := by
  induction id using hground.induction with
  | missing id hdead =>
    obtain rfl := hreach.eq_of_childless (children_of_not_isLive hdead)
    exact .refl _
  | node id n hn ih =>
    rcases hreach.cases_head with rfl | ⟨c, hc, hrest⟩
    · exact .refl _
    · rw [children_eq hn] at hc
      have hlisted : (order c).Sublist (n.children.flatMap order) :=
        List.sublist_flatten_of_mem (List.mem_map_of_mem hc)
      rw [h.node hn]
      exact ((ih c hc hrest).trans hlisted).trans (hjoin _ _)

end RecursiveOrder

/-! ### What the walks list -/

/-- A list has every node that is reached from the root once, with what is stored of it, and no
other node. -/
structure ListsReached (t : Tree) (order : List (NodeId × Node)) : Prop where
  nodup : (order.map Prod.fst).Nodup
  mem_iff : ∀ x m, (x, m) ∈ order ↔ (∃ r, t.root = some r ∧ t.Reaches r x) ∧ t.node? x = some m

theorem IsForest.listsReached_preorder (h : t.IsForest) : t.ListsReached t.preorder := by
  rw [preorder]
  cases hroot : t.root with
  | none =>
    constructor
    case nodup => exact List.nodup_nil
    case mem_iff => simp [hroot]
  | some r =>
    rw [Option.map_some, Option.getD_some, h.preorderFrom_eq]
    constructor
    case nodup => exact h.nodup_preorder_branch r
    case mem_iff =>
      intro x m
      rw [h.mem_preorder_branch, hroot]
      simp

theorem IsForest.listsReached_postorder (h : t.IsForest) : t.ListsReached t.postorder := by
  have hperm : t.postorder.Perm t.preorder := by
    rw [postorder, preorder]
    cases t.root with
    | none => exact .refl _
    | some r =>
      rw [Option.map_some, Option.map_some, Option.getD_some, Option.getD_some, h.postorderFrom_eq,
        h.preorderFrom_eq]
      exact (t.branch r).postorder_perm
  have hlists := h.listsReached_preorder
  exact ⟨(hperm.map Prod.fst).nodup_iff.mpr hlists.nodup,
    fun x m => hperm.mem_iff.trans (hlists.mem_iff x m)⟩

section Edge

variable (h : t.IsGrounded) (hreach : t.Reaches id p) (hc : c ∈ t.children p)
include h hreach hc

theorem IsGrounded.sublist_preorderFrom :
    [p, c].Sublist ((t.preorderFrom id).map Prod.fst) := by
  have horder := h.isRecursiveOrder_preorderFrom
  obtain ⟨n, hn⟩ := isLive_of_mem_children hc
  obtain ⟨m, hm⟩ := isLive_of_parent? (h.parent?_of_mem hc)
  have hbelow : (c, m) ∈ n.children.flatMap t.preorderFrom := by
    refine List.mem_flatMap.mpr ⟨c, children_eq hn ▸ hc, ?_⟩
    rw [horder.node hm]
    exact List.mem_cons_self
  have hlisted : [(p, n), (c, m)].Sublist (t.preorderFrom p) := by
    rw [horder.node hn]
    exact (List.singleton_sublist.mpr hbelow).cons_cons _
  have habove := horder.sublist_of_reaches h (fun _ below => List.sublist_cons_self _ below) hreach
  exact (hlisted.trans habove).map Prod.fst

theorem IsGrounded.sublist_postorderFrom :
    [c, p].Sublist ((t.postorderFrom id).map Prod.fst) := by
  have horder := h.isRecursiveOrder_postorderFrom
  obtain ⟨n, hn⟩ := isLive_of_mem_children hc
  obtain ⟨m, hm⟩ := isLive_of_parent? (h.parent?_of_mem hc)
  have hbelow : (c, m) ∈ n.children.flatMap t.postorderFrom := by
    refine List.mem_flatMap.mpr ⟨c, children_eq hn ▸ hc, ?_⟩
    rw [horder.node hm]
    exact List.mem_append_right _ (List.mem_singleton_self _)
  have hlisted : [(c, m), (p, n)].Sublist (t.postorderFrom p) := by
    rw [horder.node hn]
    exact (List.singleton_sublist.mpr hbelow).append (.refl [(p, n)])
  have habove := horder.sublist_of_reaches h (fun _ below => List.sublist_append_left below _)
    hreach
  exact (hlisted.trans habove).map Prod.fst

end Edge

/-- The category keys that the program works with are those of the serialized expression. -/
theorem IsForest.categoryKeys_eq_leafKeys (h : t.IsForest) :
    t.categoryKeys = t.toJson.leafKeys := by
  obtain ⟨hroot, hjson⟩ | ⟨r, f, hroot, hf, hjson⟩ := h.toJson_cases
  · rw [hjson, categoryKeys, preorder, hroot]
    rfl
  · rw [hjson, hf.categoryKeys_eq h hroot, f.leafKeys_toJson]

/-! ### Every tree reached -/

/-- In every tree that calls reach, both walks from the root end. They list what the two recursive
orders list: every node that hangs at the root once and nothing else, parents before their children
in the one and behind them in the other. The category keys met on the way are those of the serialized
expression, and the depth is the length of a longest chain of parents up to the root. -/
theorem walks_in_recursive_order (h : t.IsReached) :
    (∀ out, t.WalkEnds t.root.toList out ↔ out = t.preorder) ∧
    (∀ out, t.MarkedWalkEnds (t.root.toList.map (·, false)) out ↔ out = t.postorder) ∧
    (∃ order, t.IsRecursiveOrder parentFirst order) ∧
    (∀ order, t.IsRecursiveOrder parentFirst order → t.preorder = t.root.toList.flatMap order) ∧
    (∃ order, t.IsRecursiveOrder parentLast order) ∧
    (∀ order, t.IsRecursiveOrder parentLast order → t.postorder = t.root.toList.flatMap order) ∧
    t.ListsReached t.preorder ∧ t.ListsReached t.postorder ∧
    (∀ r p c, t.root = some r → t.Reaches r p → c ∈ t.children p →
      [p, c].Sublist (t.preorder.map Prod.fst) ∧ [c, p].Sublist (t.postorder.map Prod.fst)) ∧
    t.categoryKeys = t.toJson.leafKeys ∧
    (t.root = none → t.depth = 0) ∧
    ∀ r, t.root = some r →
      IsGreatest {k | ∃ x way, t.Reaches r x ∧ t.IsChainUp x r way ∧ way.length = k} t.depth := by
  have h := h.isForest
  have hpre : t.preorder = t.root.toList.flatMap t.preorderFrom := by
    cases hroot : t.root <;> simp [preorder, hroot]
  have hpost : t.postorder = t.root.toList.flatMap t.postorderFrom := by
    cases hroot : t.root <;> simp [postorder, hroot]
  have hfirst := h.isRecursiveOrder_preorderFrom
  have hlast := h.isRecursiveOrder_postorderFrom
  refine ⟨fun _ => h.walkEnds_iff, fun _ => h.markedWalkEnds_iff,
    ⟨_, hfirst⟩, fun order horder => ?_, ⟨_, hlast⟩, fun order horder => ?_,
    h.listsReached_preorder, h.listsReached_postorder, fun r p c hroot hreach hc => ?_,
    h.categoryKeys_eq_leafKeys, fun hroot => ?_, fun r hroot => h.isGreatest_depth hroot⟩
  · rw [hpre, hfirst.unique h.toIsGrounded horder]
  · rw [hpost, hlast.unique h.toIsGrounded horder]
  · rw [hpre, hpost, hroot]
    simp only [Option.toList_some, List.flatMap_singleton]
    exact ⟨h.sublist_preorderFrom hreach hc, h.sublist_postorderFrom hreach hc⟩
  · rw [depth, hroot]
    rfl

/-- An exclusion group in slots that were given up, beside an empty inclusion group; a detached node
is on neither walk. -/
theorem walks_in_recursive_order_of_refilled_slots :
    ∃ t : Tree, t.IsReached ∧ t.root = some ⟨0, 0⟩ ∧ t.IsLive ⟨5, 1⟩ ∧
      (∃ out, t.WalkEnds [⟨0, 0⟩] out ∧
        out.map Prod.fst = [⟨0, 0⟩, ⟨1, 0⟩, ⟨2, 1⟩, ⟨3, 1⟩, ⟨4, 1⟩]) ∧
      (∃ out, t.MarkedWalkEnds [(⟨0, 0⟩, false)] out ∧
        out.map Prod.fst = [⟨1, 0⟩, ⟨4, 1⟩, ⟨3, 1⟩, ⟨2, 1⟩, ⟨0, 0⟩]) ∧
      t.toJson.leafKeys = ["sport"] ∧
      IsGreatest {k | ∃ x way, t.Reaches ⟨0, 0⟩ x ∧ t.IsChainUp x ⟨0, 0⟩ way ∧ way.length = k} 4 := by
  obtain ⟨t, h, hroot, hlive, hpre, hpost, hkeys, hdepth⟩ : ∃ t : Tree, t.IsReached ∧
      t.root = some ⟨0, 0⟩ ∧ t.IsLive ⟨5, 1⟩ ∧
      t.preorder.map Prod.fst = [⟨0, 0⟩, ⟨1, 0⟩, ⟨2, 1⟩, ⟨3, 1⟩, ⟨4, 1⟩] ∧
      t.postorder.map Prod.fst = [⟨1, 0⟩, ⟨4, 1⟩, ⟨3, 1⟩, ⟨2, 1⟩, ⟨0, 0⟩] ∧
      t.categoryKeys = ["sport"] ∧ t.depth = 4 :=
    ⟨after .empty [.enableTargeting, .addCategory ⟨1, 0⟩ "news", .removeCategory ⟨1, 0⟩ "news",
      .addGroup .exclusion ⟨0, 0⟩ {}, .addCategory ⟨3, 1⟩ "sport", .create .or],
      ⟨_, _, Or.inl rfl, rfl⟩, by rfl, ⟨_, rfl⟩, by decide +kernel, by decide +kernel,
      by decide +kernel, by decide +kernel⟩
  obtain ⟨hwalk, hmarked, -, -, -, -, -, -, -, hleaves, -, hgreatest⟩ := walks_in_recursive_order h
  have hlongest := hgreatest _ hroot
  rw [hdepth] at hlongest
  rw [hroot] at hwalk hmarked
  exact ⟨t, h, hroot, hlive, ⟨_, (hwalk _).mpr rfl, hpre⟩, ⟨_, (hmarked _).mpr rfl, hpost⟩,
    hleaves ▸ hkeys, hlongest⟩

end Tree

end Targeting
