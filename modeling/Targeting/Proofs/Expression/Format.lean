import Mathlib.Data.Set.List
import Targeting.Proofs.Expression.Reading
import Targeting.Proofs.Group.Shape

/-!
# The format of stored expressions

Which values are read, and which of those can be edited, is a matter of their shape alone. An
expression is an object with one member: a category with a key, or an operator with an array of
expressions. One that can be edited is an `and` of groups within the bounds of the grammar. Both
shapes are stated on the stored value, without a tree in between.

## Main definitions

* `Json.IsExpression` — the values that are expressions
* `Json.IsGroup`, `Json.FitsGrammar` — the expressions that can be edited

## Main results

* `Tree.ofJson_isOk_iff` — the values that are read
* `Tree.isEditable_iff_fitsGrammar` — the values whose trees can be edited
-/

namespace Targeting

namespace Json

/-- The values that are expressions: objects with a single member, which is a category with a
nonempty key or an operator with an array of expressions. -/
inductive IsExpression : Json → Prop
  | category {key : String} (hkey : key ≠ "") : IsExpression (.object [("category", .string key)])
  | operator (op : Operator) {items : List Json} (hitems : ∀ item ∈ items, IsExpression item) :
    IsExpression (.object [(op.tag, .array items)])

/-- A category with any key. -/
def IsCategory (value : Json) : Prop := ∃ key, value = .object [("category", .string key)]

/-- An `or` of categories. -/
def IsCategoryGroup (value : Json) : Prop :=
  ∃ items, value = .object [("or", .array items)] ∧ ∀ item ∈ items, IsCategory item

/-- An `or` of categories, which is an inclusion group, or a `not` around one, which is an exclusion
group. -/
def IsGroup : GroupRole → Json → Prop
  | .inclusion, value => value.IsCategoryGroup
  | .exclusion, value => ∃ only, value = .object [("not", .array [only])] ∧ only.IsCategoryGroup

/-- Whether a value is an object with a member of the given key. -/
def hasKey (key : String) (value : Json) : Bool := (value.get? key).isSome

/-- An `and` of groups with at most as many of either role as the grammar allows. -/
def FitsGrammar (g : Grammar) (value : Json) : Prop :=
  ∃ items, value = .object [("and", .array items)] ∧
    (∀ item ∈ items, ∃ role, IsGroup role item) ∧
    items.countP (hasKey "or") ≤ g.maxInclusionGroups ∧
    items.countP (hasKey "not") ≤ g.maxExclusionGroups

end Json

namespace Formula

variable {f : Formula} {fs : List Formula} {value : Json} {g : Grammar}

/-! ### Expressions -/

theorem toJsonAll_eq_map (fs : List Formula) : toJsonAll fs = fs.map toJson := by
  induction fs with
  | nil => rfl
  | cons f fs ih => rw [toJsonAll, ih, List.map_cons]

mutual

/-- A formula without empty keys is written as an expression. -/
theorem isExpression_toJson : ∀ {f : Formula}, "" ∉ f.keys → f.toJson.IsExpression
  | .category key, hkeys => .category fun hempty => hkeys (by simp [keys, hempty])
  | .operator op fs, hkeys => .operator op (isExpression_of_mem_toJsonAll hkeys)

/-- Formulas without empty keys are written as expressions. -/
theorem isExpression_of_mem_toJsonAll : ∀ {fs : List Formula}, "" ∉ keysAll fs →
    ∀ item ∈ toJsonAll fs, item.IsExpression
  | [], _, item, hitem => by cases hitem
  | f :: fs, hkeys, item, hitem => by
    obtain ⟨hf, hfs⟩ := not_mem_keysAll_cons.mp hkeys
    rcases List.mem_cons.mp hitem with rfl | hitem
    · exact isExpression_toJson hf
    · exact isExpression_of_mem_toJsonAll hfs item hitem

end

/-- Formulas are found for a list of values if they are found for each of them. -/
theorem exists_toJsonAll_eq {items : List Json}
    (h : ∀ item ∈ items, ∃ f : Formula, "" ∉ f.keys ∧ item = f.toJson) :
    ∃ fs, "" ∉ keysAll fs ∧ items = toJsonAll fs := by
  induction items with
  | nil => exact ⟨[], by simp [keysAll], rfl⟩
  | cons item items ih =>
    obtain ⟨f, hf, rfl⟩ := h item List.mem_cons_self
    obtain ⟨fs, hfs, rfl⟩ := ih fun x hx => h x (List.mem_cons_of_mem _ hx)
    exact ⟨f :: fs, not_mem_keysAll_cons.mpr ⟨hf, hfs⟩, rfl⟩

/-- The expressions are what formulas without empty keys are written as. -/
theorem isExpression_iff : value.IsExpression ↔ ∃ f : Formula, "" ∉ f.keys ∧ value = f.toJson := by
  constructor
  · intro h
    induction h with
    | @category key hkey => exact ⟨.category key, by simpa [keys] using hkey.symm, rfl⟩
    | operator op hitems ih =>
      obtain ⟨fs, hfs, rfl⟩ := exists_toJsonAll_eq ih
      exact ⟨.operator op fs, hfs, rfl⟩
  · rintro ⟨f, hf, rfl⟩
    exact isExpression_toJson hf

/-! ### Lists of groups -/

/-- Each value of a list is an image if the list is the image of a list. -/
theorem forall_mem_exists_iff {α β : Type} {write : α → β} {items : List β} :
    (∀ item ∈ items, ∃ x, item = write x) ↔ ∃ xs : List α, items = xs.map write := by
  have hrange := Set.ext_iff.mp (Set.range_list_map write) items
  simpa only [Set.mem_range, Set.mem_ofPred_eq, eq_comm] using hrange.symm

theorem isCategoryGroup_iff : value.IsCategoryGroup ↔ ∃ keys, value = (ofKeys keys).toJson := by
  constructor
  · rintro ⟨items, rfl, hitems⟩
    obtain ⟨keys, rfl⟩ := forall_mem_exists_iff.mp hitems
    refine ⟨keys, ?_⟩
    rw [ofKeys, toJson, toJsonAll_eq_map, List.map_map]
    rfl
  · rintro ⟨keys, rfl⟩
    refine ⟨_, rfl, ?_⟩
    rw [toJsonAll_eq_map, List.map_map]
    exact forall_mem_exists_iff.mpr ⟨keys, rfl⟩

theorem isGroup_iff {role : GroupRole} :
    value.IsGroup role ↔ ∃ keys, value = (ofGroup (role, keys)).toJson := by
  cases role with
  | inclusion => exact isCategoryGroup_iff
  | exclusion =>
    constructor
    · rintro ⟨only, rfl, honly⟩
      obtain ⟨keys, rfl⟩ := isCategoryGroup_iff.mp honly
      exact ⟨keys, rfl⟩
    · rintro ⟨keys, rfl⟩
      exact ⟨_, rfl, isCategoryGroup_iff.mpr ⟨keys, rfl⟩⟩

/-- What the shape of a group is written as tells its role. -/
theorem countP_hasKey (shapes : List (GroupRole × List String)) (role : GroupRole) :
    (shapes.map fun shape => (ofGroup shape).toJson).countP (Json.hasKey role.marker.tag)
      = shapes.countP fun shape => shape.1 = role := by
  have hkey : ∀ shape, (ofGroup shape).toJson.hasKey role.marker.tag = decide (shape.1 = role) := by
    rintro ⟨role', keys⟩
    cases role <;> cases role' <;> rfl
  rw [List.countP_map]
  exact congrArg (List.countP · shapes) (funext hkey)

/-- The values that fit a grammar are what formulas of the editable shape are written as. -/
theorem fitsGrammar_iff : value.FitsGrammar g ↔ ∃ shapes, value = (ofGroups shapes).toJson ∧
    ∀ role, shapes.countP (fun shape => shape.1 = role) ≤ g.limit role := by
  have hgroups : ∀ items : List Json, (∀ item ∈ items, ∃ role, item.IsGroup role) ↔
      ∃ shapes : List (GroupRole × List String),
        items = shapes.map fun shape => (ofGroup shape).toJson := by
    intro items
    rw [← forall_mem_exists_iff]
    simp only [isGroup_iff, Prod.exists]
  have hwritten : ∀ shapes : List (GroupRole × List String), (ofGroups shapes).toJson
      = .object [("and", .array (shapes.map fun shape => (ofGroup shape).toJson))] := by
    intro shapes
    rw [ofGroups, toJson, toJsonAll_eq_map, List.map_map]
    rfl
  constructor
  · rintro ⟨items, rfl, hitems, hincl, hexcl⟩
    obtain ⟨shapes, rfl⟩ := (hgroups items).mp hitems
    refine ⟨shapes, (hwritten shapes).symm, fun role => ?_⟩
    rw [← countP_hasKey]
    cases role with
    | inclusion => exact hincl
    | exclusion => exact hexcl
  · rintro ⟨shapes, rfl, hbound⟩
    simp only [← countP_hasKey] at hbound
    exact ⟨_, hwritten shapes, (hgroups _).mpr ⟨shapes, rfl⟩, hbound .inclusion, hbound .exclusion⟩

end Formula

namespace Tree

variable {t : Tree} {value : Json}

/-- A value is read if and only if it is `null` or an expression. Every failure is one of malformed
data, so no new root and no new edge is ever refused on the way: these are refused for other
reasons. -/
theorem ofJson_isOk_iff (value : Json) :
    ((∃ t, ofJson value = .ok t) ↔ value = .null ∨ value.IsExpression) ∧
    (∀ e, ofJson value = .error e → ∃ position fault, e = .malformed position fault) ∧
    (∀ id, Edit.NeverMalformed (Edit.setRoot id)) ∧
    ∀ p c, Edit.NeverMalformed (Edit.appendChild p c) := by
  refine ⟨?_, ?_, Edit.neverMalformed_setRoot, Edit.neverMalformed_appendChild⟩
  · rw [Formula.isExpression_iff]
    rcases ofJson_cases value with
      ⟨hnull, hread⟩ | ⟨f, hwritable, hvalue, t, r, hread, -⟩ | ⟨hno, hsome, place, fault, hread⟩
    · exact ⟨fun _ => Or.inl hnull, fun _ => ⟨_, hread⟩⟩
    · exact ⟨fun _ => Or.inr ⟨f, hwritable, hvalue⟩, fun _ => ⟨t, hread⟩⟩
    · constructor
      · rintro ⟨t, ht⟩
        cases hread.symm.trans ht
      · rintro (hnull | ⟨f, hwritable, hvalue⟩)
        · exact absurd hnull hsome
        · exact absurd hvalue (hno f hwritable)
  · intro e hfail
    rcases ofJson_cases value with
      ⟨-, hread⟩ | ⟨f, -, -, t, r, hread, -⟩ | ⟨-, -, place, fault, hread⟩
    · cases hread.symm.trans hfail
    · cases hread.symm.trans hfail
    · cases hread.symm.trans hfail
      exact ⟨place, fault, rfl⟩

/-- Below the top `null` is no expression. -/
theorem ofJson_isOk_iff_null_operand :
    ¬ (Json.object [("and", .array [.null])]).IsExpression ∧
      ∃ position fault, ofJson (.object [("and", .array [.null])])
        = .error (.malformed position fault) := by
  obtain ⟨hread, hfail, -⟩ := ofJson_isOk_iff (.object [("and", .array [.null])])
  rcases hresult : ofJson (.object [("and", .array [.null])]) with e | t
  · refine ⟨fun h => ?_, ?_⟩
    · obtain ⟨t, ht⟩ := hread.mpr (Or.inr h)
      cases hresult.symm.trans ht
    · obtain ⟨position, fault, rfl⟩ := hfail e hresult
      exact ⟨position, fault, rfl⟩
  · cases hresult

/-- The tree that a value is read as can be edited if and only if the value is `null` or an `and` of
groups within the bounds of the grammar. -/
theorem isEditable_iff_fitsGrammar (hread : ofJson value = .ok t) (g : Grammar) :
    t.isEditable g = true ↔ value = .null ∨ value.FitsGrammar g := by
  rcases ofJson_cases value with
    ⟨rfl, hnull⟩ | ⟨f, -, rfl, t', r, hread', hholds⟩ | ⟨-, -, place, fault, hfail⟩
  · cases hread.symm.trans hnull
    exact ⟨fun _ => Or.inl rfl, fun _ => rfl⟩
  · cases hread.symm.trans hread'
    rw [isEditable_iff_formula hholds.root hholds.denotes, or_iff_right f.toJson_ne_null,
      Formula.fitsGrammar_iff]
    -- formulas with the same serialized form are the same
    refine exists_congr fun shapes => and_congr_left' ⟨congrArg Formula.toJson, ?_⟩
    exact Formula.toJson_injective
  · cases hread.symm.trans hfail

/-- One exclusion group is within the usual bounds but not within a bound of none. -/
theorem isEditable_iff_fitsGrammar_at_bound :
    ∃ t, ofJson (.object [("and", .array [
        .object [("not", .array [.object [("or", .array [])]])],
        .object [("or", .array [.object [("category", .string "sport")]])]])]) = .ok t ∧
      t.isEditable {} = true ∧ t.isEditable { maxExclusionGroups := 0 } ≠ true := by
  obtain ⟨t, hread⟩ : ∃ t, ofJson (.object [("and", .array [
        .object [("not", .array [.object [("or", .array [])]])],
        .object [("or", .array [.object [("category", .string "sport")]])]])]) = .ok t := ⟨_, rfl⟩
  refine ⟨t, hread, ?_, ?_⟩
  · refine (isEditable_iff_fitsGrammar hread {}).mpr (Or.inr ⟨_, rfl, ?_, ?_, ?_⟩)
    · rw [List.forall_mem_cons, List.forall_mem_singleton]
      constructor
      · exact ⟨.exclusion, _, rfl, _, rfl, nofun⟩
      · exact ⟨.inclusion, _, rfl, fun _ hitem => ⟨"sport", List.mem_singleton.mp hitem⟩⟩
    · decide
    · decide
  · rw [Ne, isEditable_iff_fitsGrammar hread]
    rintro (hnull | ⟨items, heq, -, -, hbound⟩)
    · cases hnull
    · cases heq
      exact absurd hbound (by decide)

end Tree

end Targeting
