import Targeting.Proofs.Expression.Equality
import Targeting.Proofs.Expression.Reading

/-!
# Reading and writing undo each other

What is read is written again exactly as it was, and the tree that was read holds nothing besides.
The other way round, what a tree is written as can be read unless a category with an empty key
hangs below the root; the tree that is read lies in a new arena, with none of the history of the
old one, and is structurally equal to it.

## Main definitions

* `Json.objectCount` — the number of objects in a value

## Main results

* `Tree.Holds.size_eq` — a tree that holds a formula is as large as its serialized form
* `Tree.toJson_of_ofJson` — writing what was read
* `Tree.ofJson_toJson` — reading what was written
-/

namespace Targeting

namespace Json

mutual

/-- The number of objects in a value, the value itself included. -/
def objectCount : Json → Nat
  | .null | .bool _ | .number _ | .string _ => 0
  | .array items => objectCountItems items
  | .object members => objectCountMembers members + 1

/-- The number of objects in several values. -/
def objectCountItems : List Json → Nat
  | [] => 0
  | item :: items => item.objectCount + objectCountItems items

/-- The number of objects in the values of several members. -/
def objectCountMembers : List (String × Json) → Nat
  | [] => 0
  | (_, value) :: members => value.objectCount + objectCountMembers members

end

end Json

namespace Tree

variable {t t' : Tree} {r : NodeId} {f : Formula} {value : Json}

/-! ### The size of what is written -/

mutual

/-- A branch lists one node for each object in its serialized form. -/
theorem Denotes.length_preorder (h : t.IsForest) : ∀ {f : Formula} {id : NodeId},
    t.Denotes id f → (t.branch id).preorder.length = f.toJson.objectCount
  | .category key, id, hf => by
    have hleaf := denotes_category.mp hf
    obtain ⟨n, hn, -⟩ := kind?_eq_some_iff.mp hleaf
    have hchildless := h.childless hleaf
    rw [children_eq hn] at hchildless
    -- without children the branch is one node, as the value is one object around a string
    rw [h.branch_eq hn, hchildless]
    rfl
  | .operator op fs, id, hf => by
    obtain ⟨hop, hfs⟩ := denotes_operator.mp hf
    obtain ⟨n, hn, -⟩ := kind?_eq_some_iff.mp hop
    rw [children_eq hn] at hfs
    rw [h.branch_eq hn, Branch.preorder, List.length_cons, DenotesAll.length_preorderAll h hfs]
    rfl

/-- Branches list one node for each object in their serialized forms. -/
theorem DenotesAll.length_preorderAll (h : t.IsForest) : ∀ {fs : List Formula} {ids : List NodeId},
    t.DenotesAll ids fs → (Branch.preorderAll (ids.map t.branch)).length
      = Json.objectCountItems (Formula.toJsonAll fs)
  | [], [], _ => rfl
  | [], _ :: _, hfs => by simp at hfs
  | _ :: _, [], hfs => by simp at hfs
  | f :: fs, id :: ids, hfs => by
    obtain ⟨g, gs, heq, hg, hgs⟩ := denotesAll_cons.mp hfs
    cases heq
    rw [List.map_cons, Branch.preorderAll, List.length_append, Denotes.length_preorder h hg,
      DenotesAll.length_preorderAll h hgs, Formula.toJsonAll, Json.objectCountItems]

end

/-- A tree that holds a formula and nothing else has one node for each object in what it is written
as. -/
theorem Holds.size_eq (h : t.Holds r f) : t.size = f.toJson.objectCount := by
  rw [h.isForest.size_eq_length_preorder fun x hx => h.reaches hx]
  exact h.denotes.length_preorder h.isForest

/-! ### The two round trips -/

/-- A tree that was read is written as it was read. All its nodes hang below the root, and there is
one for each object that was read. -/
theorem toJson_of_ofJson (hread : ofJson value = .ok t) :
    t.toJson = value ∧ (∀ x, t.IsLive x → ∃ r, t.root = some r ∧ t.Reaches r x) ∧
      t.size = value.objectCount := by
  rcases ofJson_cases value with
    ⟨rfl, hnull⟩ | ⟨f, -, rfl, t', r, hread', hholds⟩ | ⟨-, -, place, fault, hfail⟩
  · cases hread.symm.trans hnull
    refine ⟨rfl, ?_, rfl⟩
    rintro x ⟨n, hn⟩
    cases hn
  · cases hread.symm.trans hread'
    exact ⟨hholds.toJson_eq, fun x hx => ⟨r, hholds.root, hholds.reaches hx⟩, hholds.size_eq⟩
  · cases hread.symm.trans hfail

/-- A value with operators inside one another and with an operator that has no operands. -/
theorem toJson_of_ofJson_nested :
    ∃ t, ofJson (.object [("and", .array [
        .object [("not", .array [.object [("category", .string "sport")]])],
        .object [("or", .array [])]])]) = .ok t ∧
      t.toJson = .object [("and", .array [
        .object [("not", .array [.object [("category", .string "sport")]])],
        .object [("or", .array [])]])] ∧
      (∀ x, t.IsLive x → ∃ r, t.root = some r ∧ t.Reaches r x) ∧ t.size = 4 := by
  refine ⟨_, rfl, ?_⟩
  exact toJson_of_ofJson rfl

/-- What a forest is written as is read as a structurally equal tree, or refused as malformed
because of an empty key below the root. -/
theorem IsForest.ofJson_toJson_cases (h : t.IsForest) :
    ((∀ r x, t.root = some r → t.Reaches r x → t.kind? x ≠ some (.category "")) ∧
      ∃ t', ofJson t.toJson = .ok t' ∧ t.structurallyEqual t' = true) ∨
    ((∃ r x, t.root = some r ∧ t.Reaches r x ∧ t.kind? x = some (.category "")) ∧
      ∃ position fault, ofJson t.toJson = .error (.malformed position fault)) := by
  cases hroot : t.root with
  | none =>
    refine Or.inl ⟨fun r x hr => (Option.some_ne_none r hr.symm).elim, .empty, ?_, ?_⟩
    · rw [toJson, hroot]
      rfl
    · rw [structurallyEqual, hroot]
      rfl
  | some r =>
    obtain ⟨f, hf⟩ := h.exists_denotes (h.root_isLoose hroot).isLive
    have hkeys : "" ∈ f.keys ↔ ∃ x, t.Reaches r x ∧ t.kind? x = some (.category "") :=
      hf.mem_keys_iff h
    rw [hf.toJson_eq h.toIsGrounded hroot]
    rcases ofJson_formula_cases f with ⟨hwritable, t', r', hread, hholds⟩ | ⟨hempty, hfail⟩
    · refine Or.inl ⟨fun r₁ x hr hreach hkind => hwritable ?_, t', hread, ?_⟩
      · cases hr
        exact hkeys.mpr ⟨x, hreach, hkind⟩
      · -- both roots stand for the formula that was written
        exact (structurallyEqual_iff h hholds.isForest hroot hholds.root hf hholds.denotes).mpr rfl
    · obtain ⟨x, hreach, hkind⟩ := hkeys.mp hempty
      exact Or.inr ⟨⟨r, x, rfl, hreach, hkind⟩, hfail⟩

/-- What a tree is written as can be read if and only if no category below the root has an empty
key. The tree that is read is structurally equal, and a failure is one of malformed data. -/
theorem ofJson_toJson (h : t.IsReached) :
    ((∃ t', ofJson t.toJson = .ok t') ↔
      ∀ r x, t.root = some r → t.Reaches r x → t.kind? x ≠ some (.category "")) ∧
    (∀ t', ofJson t.toJson = .ok t' → t.structurallyEqual t' = true) ∧
    (∀ e, ofJson t.toJson = .error e → ∃ position fault, e = .malformed position fault) := by
  rcases h.isForest.ofJson_toJson_cases with
    ⟨hwritable, t', hread, hequal⟩ | ⟨⟨r, x, hr, hreach, hkind⟩, position, fault, hfail⟩
  · refine ⟨⟨fun _ => hwritable, fun _ => ⟨t', hread⟩⟩, fun t'' hread' => ?_, fun e hfail => ?_⟩
    · cases hread.symm.trans hread'
      exact hequal
    · cases hread.symm.trans hfail
  · refine ⟨⟨fun ⟨t', hread⟩ => ?_, fun hwritable => ?_⟩, fun t' hread => ?_, fun e hfail' => ?_⟩
    · cases hread.symm.trans hfail
    · exact absurd hkind (hwritable r x hr hreach)
    · cases hread.symm.trans hfail
    · cases hfail.symm.trans hfail'
      exact ⟨position, fault, rfl⟩

/-- In a tree whose root was replaced, a category with an empty key does no harm until it is
attached. -/
theorem ofJson_toJson_attaching_empty_key :
    ∃ t : Tree, t.IsReached ∧ t.kind? ⟨1, 3⟩ = some (.category "") ∧
      (∃ t', ofJson t.toJson = .ok t' ∧ t.structurallyEqual t' = true) ∧
      (t.after [.appendChild ⟨0, 3⟩ ⟨1, 3⟩]).IsReached ∧
      ∃ position fault, ofJson (t.after [.appendChild ⟨0, 3⟩ ⟨1, 3⟩]).toJson
        = .error (.malformed position fault) := by
  have h : IsReached (after .empty [.enableTargeting, .addCategory ⟨1, 0⟩ "sport", .create .and,
      .setRoot ⟨3, 0⟩, .create .or, .appendChild ⟨3, 0⟩ ⟨0, 3⟩, .create (.category "")]) :=
    ⟨_, _, Or.inl rfl, rfl⟩
  have h' := h.after [.appendChild ⟨0, 3⟩ ⟨1, 3⟩]
  refine ⟨_, h, by decide, ⟨_, rfl, ?_⟩, h', ?_⟩
  · exact (ofJson_toJson h).2.1 _ rfl
  · obtain ⟨hread, -, hfail⟩ := ofJson_toJson h'
    rcases hresult : ofJson _ with e | t'
    · obtain ⟨position, fault, rfl⟩ := hfail e hresult
      exact ⟨position, fault, rfl⟩
    · -- the leaf hangs below the root by now
      refine absurd ?_ (hread.mp ⟨t', hresult⟩ ⟨3, 0⟩ ⟨1, 3⟩ (by decide) ?_)
      · decide
      · apply Reaches.head (c := ⟨0, 3⟩)
        · decide
        · exact (Reaches.refl _).tail (by decide)

end Tree

end Targeting
