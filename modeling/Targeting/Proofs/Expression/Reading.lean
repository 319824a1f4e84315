import Targeting.Proofs.Expression.Formula
import Targeting.Proofs.Tree.Run

/-!
# What reading a serialized expression does

A value is read if and only if it is the serialized form of a formula without empty keys. Then the
tree grows by one loose node that stands for this formula, with everything below it; all nodes that
were there before stay as they were. Otherwise reading fails because the value is malformed: the
structural edits that it consists of never fail on the way.

## Main definitions

* `Tree.Adds` — one more loose node, with everything below it
* `Tree.Appends` — more children of a loose node, with everything below them
* `Tree.Holds` — a root that stands for a formula, and nothing else

## Main results

* `Edit.on_readNode` — reading a node
* `Tree.ofJson_cases`, `Tree.ofJson_formula_cases` — reading a tree
-/

namespace Targeting

namespace Operator

theorem ofTag?_tag (op : Operator) : ofTag? op.tag = some op := by
  cases op <;> rfl

theorem tag_of_ofTag? {tag : String} {op : Operator} (h : ofTag? tag = some op) : tag = op.tag := by
  unfold ofTag? at h
  split at h
  · next heq => cases h; exact heq
  · split at h
    · next heq => cases h; exact heq
    · split at h
      · next heq => cases h; exact heq
      · cases h

theorem tag_ne_category (op : Operator) : op.tag ≠ "category" := by
  cases op <;> decide

end Operator

theorem Json.isNull_of_ne_null {value : Json} (h : value ≠ .null) : value.isNull = false := by
  cases value <;> first | rfl | exact absurd rfl h

namespace Formula

variable {f : Formula} {key : String} {body : Json}

/-- The formula that an object with one member is the serialized form of. -/
theorem object_eq_toJson_iff :
    .object [(key, body)] = f.toJson ↔
      (∃ name, f = .category name ∧ key = "category" ∧ body = .string name) ∨
      ∃ op fs, f = .operator op fs ∧ key = op.tag ∧ body = .array (toJsonAll fs) := by
  cases f <;> simp [toJson]

/-- The first of the serialized forms is that of the first formula. -/
theorem cons_eq_toJsonAll_iff {item : Json} {items : List Json} {fs : List Formula} :
    item :: items = toJsonAll fs ↔
      ∃ f fs', fs = f :: fs' ∧ item = f.toJson ∧ items = toJsonAll fs' := by
  cases fs <;> simp [toJsonAll]

theorem not_mem_keysAll_cons {fs : List Formula} :
    key ∉ keysAll (f :: fs) ↔ key ∉ f.keys ∧ key ∉ keysAll fs := by
  rw [keysAll, List.mem_append, not_or]

mutual

/-- The serialized form determines the formula. -/
theorem toJson_injective : ∀ {f f' : Formula}, f.toJson = f'.toJson → f = f'
  | .category key, f', h => by
    rcases object_eq_toJson_iff.mp (by rw [← h, toJson]) with
      ⟨name, rfl, -, hname⟩ | ⟨op, fs, -, htag, -⟩
    · cases hname
      rfl
    · exact absurd htag.symm op.tag_ne_category
  | .operator op fs, f', h => by
    rcases object_eq_toJson_iff.mp (by rw [← h, toJson]) with
      ⟨name, -, htag, -⟩ | ⟨op', fs', rfl, htag, hbody⟩
    · exact absurd htag op.tag_ne_category
    · have hop := op'.ofTag?_tag
      rw [← htag, op.ofTag?_tag] at hop
      cases hop
      rw [toJsonAll_injective (Json.array.inj hbody)]

/-- The serialized forms determine the formulas. -/
theorem toJsonAll_injective : ∀ {fs fs' : List Formula}, toJsonAll fs = toJsonAll fs' → fs = fs'
  | [], [], _ => rfl
  | [], _ :: _, h => by cases h
  | _ :: _, [], h => by cases h
  | f :: fs, f' :: fs', h => by
    obtain ⟨hf, hfs⟩ := List.cons.inj h
    rw [toJson_injective hf, toJsonAll_injective hfs]

end

end Formula

namespace Tree

variable {t t₁ t' : Tree} {p c id x : NodeId} {ids : List NodeId} {op : Operator} {f : Formula}

/-! ### Trees that grow while an expression is read -/

/-- The second tree has one more loose node, with everything below it. -/
structure Adds (t t' : Tree) (id : NodeId) : Prop where
  isForest : t'.IsForest
  root : t'.root = t.root
  node : ∀ {x}, t.IsLive x → t'.node? x = t.node? x
  not_isLive : ¬ t.IsLive id
  isLoose : ∀ x, t'.IsLoose x ↔ x = id ∨ t.IsLoose x

/-- In the second tree a loose node has more children, with everything below them. -/
structure Appends (t t' : Tree) (p : NodeId) (ids : List NodeId) : Prop where
  isForest : t'.IsForest
  root : t'.root = t.root
  node : ∀ {x}, t.IsLive x → x ≠ p → t'.node? x = t.node? x
  kind : t'.kind? p = t.kind? p
  children : t'.children p = t.children p ++ ids
  isLoose : ∀ x, t'.IsLoose x ↔ t.IsLoose x

theorem adds_create (h : t.IsForest) (kind : NodeKind) : t.Adds (t.create kind).2 t.nextId where
  isForest := h.create kind
  root := root_create t kind
  node hx := by
    rw [node?_create h.wellFormed, if_neg]
    rintro rfl
    exact h.not_isLive_nextId hx
  not_isLive := h.not_isLive_nextId
  isLoose := isLoose_create h kind

theorem Appends.refl (h : t.IsForest) (p : NodeId) : t.Appends t p [] :=
  ⟨h, rfl, fun _ _ => rfl, rfl, (List.append_nil _).symm, fun _ => Iff.rfl⟩

theorem Adds.isLive (h : t.Adds t' id) (hx : t.IsLive x) : t'.IsLive x := by
  obtain ⟨n, hn⟩ := hx
  exact ⟨n, (h.node ⟨n, hn⟩).trans hn⟩

theorem Adds.kind? (h : t.Adds t' id) (hx : t.IsLive x) : t'.kind? x = t.kind? x := by
  rw [Tree.kind?, h.node hx, Tree.kind?]

theorem Adds.children (h : t.Adds t' id) (hx : t.IsLive x) : t'.children x = t.children x := by
  rw [Tree.children, h.node hx, Tree.children]

/-- A loose node and its children make one more loose node. -/
theorem Appends.adds (h : t.IsForest) (kind : NodeKind)
    (happends : (t.create kind).2.Appends t' t.nextId ids) : t.Adds t' t.nextId where
  isForest := happends.isForest
  root := happends.root
  node {x} hx := by
    have hne : x ≠ t.nextId := by
      rintro rfl
      exact h.not_isLive_nextId hx
    have hadds := adds_create h kind
    rw [happends.node (hadds.isLive hx) hne, hadds.node hx]
  not_isLive := h.not_isLive_nextId
  isLoose x := (happends.isLoose x).trans (isLoose_create h kind x)

section Adds

variable (h : t.IsForest) (hp : t.kind? p = some (.operator op)) (hloose : t.IsLoose p)
  (hadds : t.Adds t₁ c)
include h hp hloose hadds

/-- What was added can be attached to a node that was loose before. -/
theorem Adds.canAttach : t₁.CanAttach p c where
  operator := ⟨op, (hadds.kind? (isLive_of_kind? hp)).trans hp⟩
  loose := (hadds.isLoose c).mpr (Or.inl rfl)
  ne_root hroot := hadds.not_isLive (h.root_isLoose (hadds.root.symm.trans hroot)).isLive
  not_reaches hreach := by
    have hparent := (isLoose_iff.mp ((hadds.isLoose p).mpr (Or.inr hloose))).2
    obtain rfl := hadds.isForest.eq_of_reaches_loose hreach hparent
    exact hadds.not_isLive (isLive_of_kind? hp)

/-- Attaching what was added leaves the loose nodes that were there before. -/
theorem Adds.appends_attach : t.Appends (t₁.attach p c) p [c] := by
  have hcan := hadds.canAttach h hp hloose
  have hlive := isLive_of_kind? hp
  refine ⟨hadds.isForest.attach hcan, hadds.root, fun {x} hx hne => ?_, ?_, ?_, fun x => ?_⟩
  · have hxc : x ≠ c := by
      rintro rfl
      exact hadds.not_isLive hx
    rw [node?_attach _ hcan.ne, if_neg hne, if_neg hxc, hadds.node hx]
  · rw [kind?_attach _ hcan.ne, hadds.kind? hlive]
  · rw [children_attach hcan.ne hcan.isLive, if_pos rfl, hadds.children hlive]
  · rw [isLoose_iff, isLive_attach _ hcan.ne, parent?_attach hcan.ne hcan.loose.isLive]
    by_cases hx : x = c
    · subst hx
      simp only [if_true, reduceCtorEq, and_false, false_iff]
      exact fun hold => hadds.not_isLive hold.isLive
    · rw [if_neg hx, ← isLoose_iff, hadds.isLoose]
      simp [hx]

end Adds

theorem Appends.trans {ids' : List NodeId} (h : t.Appends t₁ p ids)
    (h' : t₁.Appends t' p ids') :
    t.Appends t' p (ids ++ ids') where
  isForest := h'.isForest
  root := h'.root.trans h.root
  node {x} hx hne := by
    obtain ⟨n, hn⟩ := hx
    have hn' := h.node ⟨n, hn⟩ hne
    rw [h'.node ⟨n, hn'.trans hn⟩ hne, hn']
  kind := h'.kind.trans h.kind
  children := by rw [h'.children, h.children, List.append_assoc]
  isLoose x := (h'.isLoose x).trans (h.isLoose x)

theorem Appends.kind?_of_ne (h : t.Appends t' p ids) (hx : t.IsLive x) (hne : x ≠ p) :
    t'.kind? x = t.kind? x := by
  rw [Tree.kind?, h.node hx hne, Tree.kind?]

theorem Appends.children_of_ne (h : t.Appends t' p ids) (hx : t.IsLive x) (hne : x ≠ p) :
    t'.children x = t.children x := by
  rw [Tree.children, h.node hx hne, Tree.children]

/-- What a node stands for does not depend on a loose node elsewhere. -/
theorem Denotes.of_ne_loose (h : t.IsForest) (hloose : t.IsLoose p) (hne : c ≠ p)
    (hframe : ∀ x, t.IsLive x → x ≠ p → t'.kind? x = t.kind? x ∧ t'.children x = t.children x)
    (hf : t.Denotes c f) : t'.Denotes c f := by
  -- the loose node is not below the other one, so nothing below that has changed
  refine hf.congr fun x hx => hframe x (h.isLive_of_reaches hx hf.isLive) ?_
  rintro rfl
  exact hne (h.eq_of_reaches_loose hx (isLoose_iff.mp hloose).2)

end Tree

namespace Edit

open Targeting.Tree Expression

variable {t t' : Tree} {p : NodeId}

/-! ### Reading -/

theorem on_readCategory (position : Position) (body : Json) (t : Tree) :
    (∃ key, key ≠ "" ∧ body = .string key ∧
      (readCategory position body).on t = (create (.category key)).on t) ∨
    ((∀ key, key ≠ "" → body ≠ .string key) ∧
      ∃ place fault, (readCategory position body).on t = (.error (.malformed place fault), t)) := by
  unfold readCategory
  split
  · exact Or.inr ⟨fun key hkey heq => by cases heq; exact hkey rfl, _, _, rfl⟩
  · next key hkey => exact Or.inl ⟨key, fun heq => hkey (heq ▸ rfl), rfl, rfl⟩
  · next hbody => exact Or.inr ⟨fun key _ heq => hbody key heq, _, _, rfl⟩

/-- An object with one member that names no operator is read if and only if it is a category with a
key that is not empty. -/
theorem on_readNode_of_no_operator {key : String} (body : Json) (position : Position)
    (h : t.IsForest) (htag : Operator.ofTag? key = none) :
    (∃ f, "" ∉ f.keys ∧ .object [(key, body)] = f.toJson ∧
      ∃ id t', (readNode position (.object [(key, body)])).on t = (.ok id, t') ∧ t.Adds t' id ∧
        t'.Denotes id f) ∨
    ((∀ f : Formula, "" ∉ f.keys → .object [(key, body)] ≠ f.toJson) ∧ ∃ place fault t',
      (readNode position (.object [(key, body)])).on t
        = (.error (.malformed place fault), t')) := by
  have hnot : ∀ {op : Operator}, key ≠ op.tag := by
    rintro op rfl
    rw [Operator.ofTag?_tag] at htag
    cases htag
  rw [readNode, htag]
  dsimp only
  split
  · next hkey =>
    rcases on_readCategory (position.atKey key) body t with
      ⟨name, hname, rfl, hon⟩ | ⟨hno, place, fault, hon⟩
    · refine Or.inl ⟨.category name, by simpa [Formula.keys] using hname.symm, ?_, t.nextId, _,
        hon.trans (on_create _ t), adds_create h _, ?_⟩
      · rw [Formula.toJson, hkey]
      · exact denotes_category.mpr (kind?_create_nextId h.wellFormed _)
    · refine Or.inr ⟨fun f hf heq => ?_, place, fault, t, hon⟩
      rcases Formula.object_eq_toJson_iff.mp heq with
        ⟨name, rfl, -, hbody⟩ | ⟨op, fs, -, htag', -⟩
      · exact hno name (by simpa [Formula.keys, eq_comm] using hf) hbody
      · exact hnot htag'
  · next hkey =>
    refine Or.inr ⟨fun f hf heq => ?_, _, _, t, rfl⟩
    rcases Formula.object_eq_toJson_iff.mp heq with
      ⟨name, -, hcategory, -⟩ | ⟨op, fs, -, htag', -⟩
    · exact hkey hcategory
    · exact hnot htag'

/-- What was read as an operand is loose and new, so it can be attached, and the next operand is
read. -/
theorem on_readItems_cons {c : NodeId} {t₁ : Tree} {op op' : Operator} {position : Position}
    {index : Nat} {item : Json} {items : List Json} (h : t.IsForest)
    (hp : t.kind? p = some (.operator op')) (hloose : t.IsLoose p)
    (hon : (readNode (position.item op index) item).on t = (.ok c, t₁)) (hadds : t.Adds t₁ c) :
    (readItems position op p index (item :: items)).on t
      = (readItems position op p (index + 1) items).on (t₁.attach p c) := by
  have happend := on_appendChild_of_canAttach hadds.isForest (hadds.canAttach h hp hloose)
  rw [readItems, on_bind_ok hon, on_bind_ok happend]

mutual

/-- A node is read if and only if it is the serialized form of a formula without empty keys. -/
theorem on_readNode : ∀ (value : Json) (position : Position) {t : Tree}, t.IsForest →
    (∃ f, "" ∉ f.keys ∧ value = f.toJson ∧
      ∃ id t', (readNode position value).on t = (.ok id, t') ∧ t.Adds t' id ∧ t'.Denotes id f) ∨
    ((∀ f : Formula, "" ∉ f.keys → value ≠ f.toJson) ∧ ∃ place fault t',
      (readNode position value).on t = (.error (.malformed place fault), t'))
  | .object [], position, t, h => by
    refine Or.inr ⟨fun f _ => ?_, _, _, t, by rw [readNode]; rfl⟩
    cases f <;> simp [Formula.toJson]
  | .object [(key, body)], position, t, h => by
    cases htag : Operator.ofTag? key with
    | none => exact on_readNode_of_no_operator body position h htag
    | some op =>
      have hkey := Operator.tag_of_ofTag? htag
      rw [readNode, htag]
      rcases on_readOperator body position op h with
        ⟨fs, hwritable, rfl, id, t', hon, hadds, hdenotes⟩ | ⟨hno, place, fault, t', hon⟩
      · refine Or.inl ⟨.operator op fs, hwritable, ?_, id, t', hon, hadds, hdenotes⟩
        rw [Formula.toJson, hkey]
      · refine Or.inr ⟨fun f hf heq => ?_, place, fault, t', hon⟩
        rcases Formula.object_eq_toJson_iff.mp heq with
          ⟨name, -, hcategory, -⟩ | ⟨op', fs, rfl, htag', hbody⟩
        · exact op.tag_ne_category (hkey.symm.trans hcategory)
        · exact hno fs hf hbody
  | .object (_ :: _ :: _), position, t, h => by
    refine Or.inr ⟨fun f _ => ?_, _, _, t, by simp only [readNode]; rfl⟩
    cases f <;> simp [Formula.toJson]
  | .null, position, t, h | .bool _, position, t, h | .number _, position, t, h
  | .string _, position, t, h | .array _, position, t, h => by
    refine Or.inr ⟨fun f _ => ?_, _, _, t, by simp only [readNode]; rfl⟩
    cases f <;> simp [Formula.toJson]

/-- An operator is read if and only if it holds an array of such nodes. -/
theorem on_readOperator : ∀ (body : Json) (position : Position) (op : Operator) {t : Tree},
    t.IsForest →
    (∃ fs, "" ∉ Formula.keysAll fs ∧ body = .array (Formula.toJsonAll fs) ∧
      ∃ id t', (readOperator position op body).on t = (.ok id, t') ∧ t.Adds t' id ∧
        t'.Denotes id (.operator op fs)) ∨
    ((∀ fs, "" ∉ Formula.keysAll fs → body ≠ .array (Formula.toJsonAll fs)) ∧ ∃ place fault t',
      (readOperator position op body).on t = (.error (.malformed place fault), t'))
  | .array items, position, op, t, h => by
    rw [readOperator, on_bind_ok (on_create _ t)]
    have hadds := adds_create h (.operator op)
    have hkind := kind?_create_nextId h.wellFormed (.operator op)
    rcases on_readItems items position op 0 hadds.isForest hkind
        ((hadds.isLoose _).mpr (Or.inl rfl)) with
      ⟨fs, hwritable, rfl, ids, t', hon, happends, hdenotes⟩ | ⟨hno, place, fault, t', hon⟩
    · refine Or.inl ⟨fs, hwritable, rfl, t.nextId, t', ?_, happends.adds h _, ?_⟩
      · rw [on_bind_ok hon]
        rfl
      · rw [denotes_operator, happends.kind, happends.children, children_create h.wellFormed,
          children_of_not_isLive h.not_isLive_nextId, List.nil_append]
        exact ⟨hkind, hdenotes⟩
    · refine Or.inr ⟨fun fs hfs heq => hno fs hfs ?_, place, fault, t', on_bind_error hon _⟩
      cases heq
      rfl
  | .null, position, op, t, h | .bool _, position, op, t, h | .number _, position, op, t, h
  | .string _, position, op, t, h | .object _, position, op, t, h => by
    refine Or.inr ⟨fun fs _ heq => ?_, _, _, t, by simp only [readOperator]; rfl⟩
    cases heq

/-- Operands are read one by one, each attached when it is complete. -/
theorem on_readItems : ∀ (items : List Json) (position : Position) (op : Operator) (index : Nat)
    {t : Tree} {p : NodeId} {op' : Operator}, t.IsForest → t.kind? p = some (.operator op') →
    t.IsLoose p →
    (∃ fs, "" ∉ Formula.keysAll fs ∧ items = Formula.toJsonAll fs ∧
      ∃ ids t', (readItems position op p index items).on t = (.ok (), t') ∧ t.Appends t' p ids ∧
        t'.DenotesAll ids fs) ∨
    ((∀ fs, "" ∉ Formula.keysAll fs → items ≠ Formula.toJsonAll fs) ∧ ∃ place fault t',
      (readItems position op p index items).on t = (.error (.malformed place fault), t'))
  | [], position, op, index, t, p, op', h, hp, hloose => by
    refine Or.inl ⟨[], by simp [Formula.keysAll], rfl, [], t, ?_, .refl h p, denotesAll_nil.mpr rfl⟩
    rw [readItems]
    rfl
  | item :: items, position, op, index, t, p, op', h, hp, hloose => by
    rcases on_readNode item (position.item op index) h with
      ⟨f, hf, rfl, c, t₁, hon, hadds, hdenotes⟩ | ⟨hno, place, fault, t', hon⟩
    · have hcan := hadds.canAttach h hp hloose
      have happends := hadds.appends_attach h hp hloose
      have hloose₁ := (hadds.isLoose p).mpr (Or.inr hloose)
      have hdenotes₁ : (t₁.attach p c).Denotes c f := by
        refine hdenotes.of_ne_loose hadds.isForest hloose₁ hcan.ne.symm fun x _ hx => ⟨?_, ?_⟩
        · rw [kind?_attach _ hcan.ne]
        · rw [children_attach hcan.ne hcan.isLive, if_neg hx]
      have hloose₂ := (happends.isLoose p).mpr hloose
      rw [on_readItems_cons h hp hloose hon hadds]
      rcases on_readItems items position op (index + 1) happends.isForest
          (happends.kind.trans hp) hloose₂ with
        ⟨fs, hfs, rfl, ids, t', hon', happends', hdenotes'⟩ | ⟨hno, place, fault, t', hon'⟩
      · -- the operands that follow leave what was read first as it was
        have hdenotes₂ : t'.Denotes c f := by
          refine hdenotes₁.of_ne_loose happends.isForest hloose₂ hcan.ne.symm fun x hlive hx => ?_
          exact ⟨happends'.kind?_of_ne hlive hx, happends'.children_of_ne hlive hx⟩
        refine Or.inl ⟨f :: fs, Formula.not_mem_keysAll_cons.mpr ⟨hf, hfs⟩, rfl, c :: ids, t', hon',
          happends.trans happends', ?_⟩
        exact denotesAll_cons.mpr ⟨f, fs, rfl, hdenotes₂, hdenotes'⟩
      · refine Or.inr ⟨fun fs hfs heq => ?_, place, fault, t', hon'⟩
        obtain ⟨f', fs', rfl, -, hitems⟩ := Formula.cons_eq_toJsonAll_iff.mp heq
        exact hno fs' (Formula.not_mem_keysAll_cons.mp hfs).2 hitems
    · refine Or.inr ⟨fun fs hfs heq => ?_, place, fault, t', ?_⟩
      · obtain ⟨f, fs', rfl, hitem, -⟩ := Formula.cons_eq_toJsonAll_iff.mp heq
        exact hno f (Formula.not_mem_keysAll_cons.mp hfs).1 hitem
      · rw [readItems, on_bind_error hon]

end

end Edit

namespace Tree

variable {t : Tree} {r x : NodeId} {f : Formula}

/-- The tree has a root that stands for a formula, and no nodes but those below the root. -/
structure Holds (t : Tree) (r : NodeId) (f : Formula) : Prop where
  isForest : t.IsForest
  root : t.root = some r
  isLoose : ∀ x, t.IsLoose x ↔ x = r
  denotes : t.Denotes r f

theorem Holds.toJson_eq (h : t.Holds r f) : t.toJson = f.toJson :=
  h.denotes.toJson_eq h.isForest.toIsGrounded h.root

theorem Holds.categoryKeys_eq (h : t.Holds r f) : t.categoryKeys = f.keys :=
  h.denotes.categoryKeys_eq h.isForest h.root

/-- The root reaches every live node, since no other node is loose. -/
theorem Holds.reaches (h : t.Holds r f) (hx : t.IsLive x) : t.Reaches r x := by
  induction x using h.isForest.acyclic.induction with
  | h x ih =>
    cases hparent : t.parent? x with
    | none =>
      obtain rfl := (h.isLoose x).mp (isLoose_iff.mpr ⟨hx, hparent⟩)
      exact Reaches.refl x
    | some p =>
      have hmem := h.isForest.mem_children hparent
      exact (ih p hparent (isLive_of_mem_children hmem)).tail hmem

/-- What reading a value gives: nothing for `null`, the formula that the value is the serialized
form of, or the complaint that it is malformed. -/
theorem ofJson_cases (value : Json) :
    (value = .null ∧ ofJson value = .ok .empty) ∨
    (∃ f, "" ∉ f.keys ∧ value = f.toJson ∧ ∃ t r, ofJson value = .ok t ∧ t.Holds r f) ∨
    ((∀ f : Formula, "" ∉ f.keys → value ≠ f.toJson) ∧ value ≠ .null ∧
      ∃ place fault, ofJson value = .error (.malformed place fault)) := by
  unfold ofJson
  by_cases hnull : value = .null
  · subst hnull
    exact Or.inl ⟨rfl, rfl⟩
  refine Or.inr ?_
  rw [Json.isNull_of_ne_null hnull]
  unfold Expression.read
  rcases Edit.on_readNode value .top IsForest.empty with
    ⟨f, hf, rfl, id, t, hon, hadds, hdenotes⟩ | ⟨hno, place, fault, t, hon⟩
  · left
    -- in the empty tree nothing else is loose
    have hloose : ∀ x, t.IsLoose x ↔ x = id := by
      intro x
      rw [hadds.isLoose]
      exact or_iff_left fun ⟨n, hn, _⟩ => by cases hn
    have hid : t.IsLoose id := (hloose id).mpr rfl
    rw [Edit.on_bind_ok hon, Edit.on_setRoot_of_no_root hadds.root hid]
    exact ⟨f, hf, rfl, _, id, rfl, hadds.isForest.setRoot hid, rfl, hloose,
      hdenotes.congr fun _ _ => ⟨rfl, rfl⟩⟩
  · right
    rw [Edit.on_bind_error hon]
    exact ⟨hno, hnull, place, fault, rfl⟩

/-- What reading the serialized form of a formula gives: a tree that holds the formula, unless one
of its keys is empty. -/
theorem ofJson_formula_cases (f : Formula) :
    ("" ∉ f.keys ∧ ∃ t r, ofJson f.toJson = .ok t ∧ t.Holds r f) ∨
    ("" ∈ f.keys ∧ ∃ place fault, ofJson f.toJson = .error (.malformed place fault)) := by
  rcases ofJson_cases f.toJson with
    ⟨hnull, -⟩ | ⟨f', hwritable, heq, t, r, hread, hholds⟩ | ⟨hno, -, place, fault, hread⟩
  · exact absurd hnull f.toJson_ne_null
  · obtain rfl := Formula.toJson_injective heq
    exact Or.inl ⟨hwritable, t, r, hread, hholds⟩
  · exact Or.inr ⟨by_contra fun hwritable => hno f hwritable rfl, place, fault, hread⟩

end Tree

end Targeting
