import Targeting.Proofs.Expression.Format

/-!
# Where a malformed expression is at fault

A value that is not an expression has a first part that breaks the format by itself: a node that is
reached from the top through operators, with expressions only to the left of the way. This part is
what reading complains about. Its position and its fault are stated on the value alone; that reading
stops there follows the way down, since all that lies to its left is read without complaint.

## Main definitions

* `Json.LeadsTo` — the way down to a part of a value, with expressions only to its left
* `Json.Breaks` — the nodes that break the format by themselves, with their faults
* `Position.parts` — the keys and numbers that a position consists of

## Main results

* `Json.exists_breaks` — a value that is not an expression leads to a node at fault
* `Edit.on_readNode_of_leadsTo` — reading stops at the node at fault
* `Position.render_eq` — the text of a position
* `Tree.ofJson_eq_error_iff` — the complaints about malformed values
-/

namespace Targeting

namespace Json

/-- The operators passed and the items taken on the way from a value down to a part of it. All
operators on the way have an array, with expressions only in front of the item taken. -/
inductive LeadsTo : Json → List (Operator × Nat) → Json → Prop
  | here (value : Json) : LeadsTo value [] value
  | item (op : Operator) (before : List Json) {item node : Json} {after : List Json}
    {steps : List (Operator × Nat)} (hbefore : ∀ x ∈ before, x.IsExpression)
    (hitem : LeadsTo item steps node) :
    LeadsTo (.object [(op.tag, .array (before ++ item :: after))]) ((op, before.length) :: steps)
      node

/-- The nodes that break the format by themselves, with the key that belongs to the position of the
fault if the node has a single one. -/
inductive Breaks : Json → Option String → Fault → Prop
  | notObject {value : Json} (h : ∀ members, value ≠ .object members) :
    Breaks value none (.notObject value)
  | noKey : Breaks (.object []) none .noKey
  | severalKeys {members : List (String × Json)} (h : 1 < members.length) :
    Breaks (.object members) none (.severalKeys (members.map (·.1)))
  | unknownKey {key : String} (body : Json) (hop : ∀ op : Operator, key ≠ op.tag)
    (hcategory : key ≠ "category") : Breaks (.object [(key, body)]) (some key) (.unknownKey key)
  | notArray (op : Operator) {body : Json} (h : ∀ items, body ≠ .array items) :
    Breaks (.object [(op.tag, body)]) (some op.tag) (.notArray op body)
  | categoryNotString {body : Json} (h : ∀ key, body ≠ .string key) :
    Breaks (.object [("category", body)]) (some "category") (.categoryNotString body)
  | emptyCategory :
    Breaks (.object [("category", .string "")]) (some "category") .emptyCategory

/-! ### The first fault of a value -/

mutual

/-- A value that is not an expression leads to a node that breaks the format by itself. -/
theorem exists_breaks : ∀ {value : Json}, ¬ value.IsExpression →
    ∃ steps node key fault, value.LeadsTo steps node ∧ node.Breaks key fault
  | .object [], _ => ⟨[], _, _, _, .here _, .noKey⟩
  | .object (_ :: _ :: _), _ => ⟨[], _, _, _, .here _, .severalKeys (by simp)⟩
  | .object [(key, body)], h => by
    by_cases hop : ∃ op : Operator, key = op.tag
    · obtain ⟨op, rfl⟩ := hop
      exact exists_breaks_of_body op h
    by_cases hcategory : key = "category"
    · subst hcategory
      by_cases hstring : ∃ name, body = .string name
      · obtain ⟨name, rfl⟩ := hstring
        obtain rfl : name = "" := by_contra fun hname => h (.category hname)
        exact ⟨[], _, _, _, .here _, .emptyCategory⟩
      · exact ⟨[], _, _, _, .here _, .categoryNotString (not_exists.mp hstring)⟩
    · exact ⟨[], _, _, _, .here _, .unknownKey body (not_exists.mp hop) hcategory⟩
  | .null, _ | .bool _, _ | .number _, _ | .string _, _ | .array _, _ =>
    ⟨[], _, _, _, .here _, .notObject (by simp)⟩

/-- An operator is at fault itself if it has no array, and through an operand otherwise. -/
theorem exists_breaks_of_body (op : Operator) : ∀ {body : Json},
    ¬ (Json.object [(op.tag, body)]).IsExpression →
    ∃ steps node key fault,
      (Json.object [(op.tag, body)]).LeadsTo steps node ∧ node.Breaks key fault
  | .array items, h => by
    obtain ⟨before, item, after, rfl, hbefore, steps, node, key, fault, hleads, hbreaks⟩ :=
      exists_breaks_of_items fun hitems => h (.operator op hitems)
    exact ⟨_, node, key, fault, .item op before hbefore hleads, hbreaks⟩
  | .null, _ | .bool _, _ | .number _, _ | .string _, _ | .object _, _ =>
    ⟨[], _, _, _, .here _, .notArray op (by simp)⟩

/-- Of operands that are not all expressions, the first that is none leads to the fault. -/
theorem exists_breaks_of_items : ∀ {items : List Json},
    (¬ ∀ item ∈ items, item.IsExpression) →
    ∃ before item after, items = before ++ item :: after ∧ (∀ x ∈ before, x.IsExpression) ∧
      ∃ steps node key fault, item.LeadsTo steps node ∧ node.Breaks key fault
  | [], h => absurd (by simp) h
  | item :: items, h => by
    by_cases hitem : item.IsExpression
    · obtain ⟨before, item', after, rfl, hbefore, hfault⟩ :=
        exists_breaks_of_items fun hitems => h (List.forall_mem_cons.mpr ⟨hitem, hitems⟩)
      exact ⟨item :: before, item', after, rfl, List.forall_mem_cons.mpr ⟨hitem, hbefore⟩, hfault⟩
    · exact ⟨[], item, items, rfl, by simp, exists_breaks hitem⟩

end

end Json

namespace Edit

open Expression

variable {t : Tree} {value node : Json} {before : List Json} {key : Option String} {fault : Fault}
  {op' : Operator} {p : NodeId}

/-! ### Reading up to the fault -/

/-- A node that breaks the format by itself is refused, and nothing is stored. -/
theorem on_readNode_of_breaks (h : node.Breaks key fault) (steps : List (Operator × Nat))
    (t : Tree) :
    (readNode { steps } node).on t = (.error (.malformed { steps, key } fault), t) := by
  cases h with
  | notObject h =>
    cases node with
    | object members => exact absurd rfl (h members)
    | _ => simp only [readNode]; rfl
  | noKey => rw [readNode]; rfl
  | @severalKeys members h =>
    match members, h with
    | _ :: _ :: _, _ => simp only [readNode]; rfl
  | @unknownKey key body hop hcategory =>
    have htag : Operator.ofTag? key = none := by
      cases htag : Operator.ofTag? key with
      | none => rfl
      | some op => exact absurd (Operator.tag_of_ofTag? htag) (hop op)
    rw [readNode, htag]
    dsimp only
    rw [if_neg hcategory]
    rfl
  | @notArray op body h =>
    rw [readNode, Operator.ofTag?_tag]
    cases body with
    | array items => exact absurd rfl (h items)
    | _ => simp only [readOperator]; rfl
  | @categoryNotString body h =>
    rw [readNode]
    cases body with
    | string key => exact absurd rfl (h key)
    | _ => rfl
  | emptyCategory => rw [readNode]; rfl

/-- Operands in front that are expressions are read without complaint, and then the reader is at the
operand after them. -/
theorem on_readItems_of_isExpression (hbefore : ∀ x ∈ before, x.IsExpression)
    (h : t.IsForest) (hp : t.kind? p = some (.operator op')) (hloose : t.IsLoose p)
    (position : Position) (op : Operator) (index : Nat) (items : List Json) :
    ∃ t', (readItems position op p index (before ++ items)).on t
        = (readItems position op p (index + before.length) items).on t' ∧
      t'.IsForest ∧ t'.kind? p = some (.operator op') ∧ t'.IsLoose p := by
  induction before generalizing index t with
  | nil => exact ⟨t, rfl, h, hp, hloose⟩
  | cons item before ih =>
    obtain ⟨hitem, hothers⟩ := List.forall_mem_cons.mp hbefore
    obtain ⟨f, hf, rfl⟩ := Formula.isExpression_iff.mp hitem
    rcases on_readNode f.toJson (position.item op index) h with
      ⟨-, -, -, c, t₁, hon, hadds, -⟩ | ⟨hno, -⟩
    · have happends := hadds.appends_attach h hp hloose
      obtain ⟨t', hon', hrest⟩ := ih hothers happends.isForest (happends.kind.trans hp)
        ((happends.isLoose p).mpr hloose) (index + 1)
      refine ⟨t', ?_, hrest⟩
      rw [List.cons_append, on_readItems_cons h hp hloose hon hadds, hon', List.length_cons,
        Nat.add_right_comm, Nat.add_assoc]
    · exact absurd rfl (hno f hf)

/-- A value that leads to a node at fault is refused for it, at its position. -/
theorem on_readNode_of_leadsTo {way : List (Operator × Nat)} (hleads : value.LeadsTo way node)
    (hbreaks : node.Breaks key fault) (h : t.IsForest) (steps : List (Operator × Nat)) :
    ∃ t', (readNode { steps } value).on t
      = (.error (.malformed { steps := steps ++ way, key } fault), t') := by
  induction hleads generalizing steps t with
  | here node => exact ⟨t, by rw [List.append_nil, on_readNode_of_breaks hbreaks]⟩
  | @item op before item node after way hbefore hitem ih =>
    -- the operator is stored first, and it is a loose node while its operands are read
    have hadds := Tree.adds_create h (.operator op)
    have hkind := Tree.kind?_create_nextId h.wellFormed (.operator op)
    obtain ⟨t₁, hon₁, h₁, -, -⟩ := on_readItems_of_isExpression hbefore hadds.isForest hkind
      ((hadds.isLoose _).mpr (Or.inl rfl)) { steps } op 0 (item :: after)
    obtain ⟨t', hon'⟩ := ih hbreaks h₁ (steps ++ [(op, before.length)])
    refine ⟨t', ?_⟩
    rw [readNode, Operator.ofTag?_tag]
    dsimp only
    rw [readOperator, on_bind_ok (on_create _ t)]
    apply on_bind_error
    rw [hon₁, readItems, Nat.zero_add]
    apply on_bind_error
    rw [Position.item, hon', List.append_assoc, List.singleton_append]

end Edit

/-! ### The text of a position -/

namespace Position

/-- The keys and numbers that a position consists of: those of the steps, and then the key of the
node. -/
def parts (position : Position) : List String :=
  (position.steps.flatMap fun (op, index) => [op.tag, toString index]) ++ position.key.toList

/-- Parts with a slash in front of each are the parts joined by slashes, after a slash. -/
theorem join_map_slash : ∀ {parts : List String}, parts ≠ [] →
    String.join (parts.map ("/" ++ ·)) = "/" ++ "/".intercalate parts
  | [], h => absurd rfl h
  | [part], _ => by simp
  | part :: next :: rest, _ => by
    rw [List.map_cons, String.join_cons, join_map_slash (by simp), String.intercalate_cons_cons]
    simp only [String.append_assoc]

/-- The text before the question whether it is empty has a slash in front of each part. -/
theorem join_append_eq (steps : List (Operator × Nat)) (key : Option String) :
    String.join (steps.map fun (op, index) => "/" ++ op.tag ++ "/" ++ toString index)
        ++ (key.map ("/" ++ ·)).getD ""
      = String.join ((parts { steps, key }).map ("/" ++ ·)) := by
  induction steps with
  | nil => cases key <;> simp [parts]
  | cons step steps ih =>
    simp only [parts, List.map_append, String.join_append, String.append_assoc] at ih
    simp only [parts, List.flatMap_cons, List.map_cons, List.map_nil, List.map_append,
      String.join_cons, String.join_nil, String.join_append, String.append_assoc,
      String.empty_append, ih]

/-- A position is written as its parts joined by slashes, after a slash. -/
theorem render_eq (position : Position) :
    position.render = "/" ++ "/".intercalate position.parts := by
  unfold render
  simp only [join_append_eq]
  by_cases hparts : position.parts = []
  · simp [hparts]
  · rw [join_map_slash hparts, if_neg (by simp)]

end Position

namespace Tree

variable {value node : Json} {position : Position} {fault : Fault}

/-- A value other than `null` that leads to a node at fault is refused for it. -/
theorem ofJson_of_leadsTo (hnull : value ≠ .null) (hleads : value.LeadsTo position.steps node)
    (hbreaks : node.Breaks position.key fault) :
    ofJson value = .error (.malformed position fault) := by
  obtain ⟨t', hon⟩ : ∃ t', (Expression.readNode .top value).on .empty
      = (.error (.malformed position fault), t') :=
    Edit.on_readNode_of_leadsTo hleads hbreaks IsForest.empty []
  unfold ofJson
  rw [Json.isNull_of_ne_null hnull, Expression.read, Edit.on_bind_error hon]
  rfl

/-- Reading complains if and only if the value is not `null` and leads to a node that breaks the
format by itself. There is one such node, as the complaint names its position and its fault. -/
theorem ofJson_eq_error_iff (value : Json) (e : TreeError) :
    (ofJson value = .error e ↔ value ≠ .null ∧ ∃ position node fault,
      value.LeadsTo position.steps node ∧ node.Breaks position.key fault ∧
        e = .malformed position fault) ∧
    ∀ position : Position, position.render = "/" ++ "/".intercalate position.parts := by
  refine ⟨⟨fun hfail => ?_, ?_⟩, Position.render_eq⟩
  · rcases ofJson_cases value with
      ⟨-, hread⟩ | ⟨f, -, -, t, r, hread, -⟩ | ⟨hno, hnull, -⟩
    · cases hread.symm.trans hfail
    · cases hread.symm.trans hfail
    · have hexpression : ¬ value.IsExpression := fun h => by
        obtain ⟨f, hf, hvalue⟩ := Formula.isExpression_iff.mp h
        exact hno f hf hvalue
      obtain ⟨steps, node, key, fault, hleads, hbreaks⟩ := Json.exists_breaks hexpression
      refine ⟨hnull, { steps, key }, node, fault, hleads, hbreaks, ?_⟩
      exact Except.error.inj (hfail.symm.trans (ofJson_of_leadsTo hnull hleads hbreaks))
  · rintro ⟨hnull, position, node, fault, hleads, hbreaks, rfl⟩
    exact ofJson_of_leadsTo hnull hleads hbreaks

/-- An unknown key below complete operands, and in front of another fault. -/
theorem ofJson_eq_error_iff_nested :
    ∃ e, ofJson (.object [("and", .array [
        .object [("or", .array [])],
        .object [("not", .array [.object [("foo", .array [])]])],
        .null])]) = .error e ∧
      e.message = "malformed expression at /and/1/not/0/foo: unknown key 'foo'" := by
  refine ⟨.malformed ⟨[(.and, 1), (.not, 0)], some "foo"⟩ (.unknownKey "foo"), ?_,
    by decide +kernel⟩
  refine (ofJson_eq_error_iff _ _).1.mpr ⟨nofun, _, .object [("foo", .array [])], _, ?_, ?_, rfl⟩
  · refine .item .and [_] (List.forall_mem_singleton.mpr (.operator .or nofun)) ?_
    exact .item .not [] nofun (.here _)
  · exact .unknownKey _ (fun op => by cases op <;> decide) (by decide)

end Tree

end Targeting
