import Targeting.Proofs.Group.Operands

/-!
# Changing one group

A change of the tree either concerns one entry of the list of groups, adds or removes one, or is out
of reach of the root and concerns none. Below an `or` the list sees the categories only, so a leaf
that comes or goes changes the entry of this `or` and nothing else.

## Main definitions

* `Group.update` — an entry with other categories, if it is the entry of the given `or`
* `Tree.SameBut` — two trees that differ in one leaf
* `Tree.IsTop` — the node that goes with a group

## Main results

* `Tree.groups?_grow_category`, `Tree.groups?_prune_category` — one more or one less category
* `Tree.groups?_grow_inclusion`, `Tree.groups?_grow_exclusion` — one more group
* `Tree.groups?_prune_child`, `Tree.groups?_prune_group` — one less group
* `Tree.groups?_grow_outside`, `Tree.groups?_prune_outside` — changes out of reach
* `Tree.groups?_grow_or`, `Tree.groups?_grow_not_or` — a new group below any `and`
-/

namespace Targeting

/-- The entry of the given `or` gets other categories; every other entry stays as it is. -/
def Group.update (id : NodeId) (f : List String → List String) (e : Group) : Group :=
  if e.id = id then { e with categories := f e.categories } else e

namespace Group

variable {id : NodeId} {f : List String → List String} {e : Group} {gs : List Group}

@[simp] theorem id_update : (update id f e).id = e.id := by
  unfold update
  split <;> rfl

@[simp] theorem role_update : (update id f e).role = e.role := by
  unfold update
  split <;> rfl

/-- Updates that agree on the categories of the `or` agree. -/
theorem map_update_congr {f' : List String → List String}
    (hf : ∀ e ∈ gs, e.id = id → f e.categories = f' e.categories) :
    gs.map (update id f) = gs.map (update id f') := by
  refine List.map_congr_left fun e he => ?_
  unfold update
  split
  · next hid => rw [hf e he hid]
  · rfl

/-- An update that changes no categories changes nothing. -/
theorem map_update_eq_self (hf : ∀ e ∈ gs, e.id = id → f e.categories = e.categories) :
    gs.map (update id f) = gs := by
  refine (List.map_congr_left fun e he => ?_).trans gs.map_id
  unfold update
  split
  · next hid => rw [hf e he hid, id_eq]
  · rfl

@[simp] theorem categories_update_self : (update e.id f e).categories = f e.categories := by
  rw [update, if_pos rfl]

theorem update_of_ne (hne : e.id ≠ id) : update id f e = e := by
  rw [update, if_neg hne]

/-- After an update, an entry has the categories of one before or what the update makes of them. -/
theorem exists_of_mem_map_update {e' : Group} (he' : e' ∈ gs.map (update id f)) :
    ∃ e ∈ gs, e'.categories = e.categories ∨ e'.categories = f e.categories := by
  obtain ⟨e, he, rfl⟩ := List.mem_map.mp he'
  by_cases hid : e.id = id
  · subst hid
    exact ⟨e, he, Or.inr categories_update_self⟩
  · rw [update_of_ne hid]
    exact ⟨e, he, Or.inl rfl⟩

/-- The number of groups of a role does not depend on their categories. -/
theorem countP_map_update (role : GroupRole) :
    (gs.map (update id f)).countP (fun e => e.role = role) = gs.countP fun e => e.role = role := by
  rw [List.countP_map]
  simp only [Function.comp_def, role_update]

end Group

namespace Tree

variable {t t' : Tree} {r p c g id x leaf : NodeId} {e : Group} {gs : List Group}

/-! ### One leaf -/

/-- The second tree is the first but for one leaf below the given node: whatever else is live keeps
its kind, and its children unless it is the given node. -/
structure SameBut (t t' : Tree) (g leaf : NodeId) : Prop where
  root : t'.root = t.root
  kind : ∀ {x}, t.IsLive x → x ≠ leaf → t'.kind? x = t.kind? x
  children : ∀ {x}, t.IsLive x → x ≠ leaf → x ≠ g → t'.children x = t.children x
  not_operator : ∀ op, t.kind? leaf ≠ some (.operator op)
  not_mem : ∀ {x}, x ≠ g → leaf ∉ t.children x

namespace SameBut

variable (hsame : SameBut t t' g leaf)
include hsame

theorem kind_of_operator {op : Operator} (hx : t.kind? x = some (.operator op)) :
    t'.kind? x = some (.operator op) := by
  rw [hsame.kind (isLive_of_kind? hx), hx]
  rintro rfl
  exact hsame.not_operator op hx

theorem children_of_operator {op : Operator} (hx : t.kind? x = some (.operator op)) (hne : x ≠ g) :
    t'.children x = t.children x := by
  refine hsame.children (isLive_of_kind? hx) ?_ hne
  rintro rfl
  exact hsame.not_operator op hx

/-- The list of groups changes in the entry of the node above the leaf, if there is such an
entry. -/
theorem groups?_update (h : t.IsForest) (hg : t.kind? g = some .or)
    {f : List String → List String}
    (hkeys : ∀ keys, t.categories? g = some keys → t'.categories? g = some (f keys))
    (hgs : t.groups? = some gs) : t'.groups? = some (gs.map (Group.update g f)) := by
  obtain ⟨r, hr, hkind, hmap⟩ := groups?_eq_some_iff.mp hgs
  have hrg : r ≠ g := by
    rintro rfl
    rw [hkind] at hg
    cases hg
  refine groups?_eq_some_iff.mpr ⟨r, hsame.root.trans hr, hsame.kind_of_operator hkind, ?_⟩
  have hpush : (gs.map (Group.update g f)).map some
      = (gs.map some).map (Option.map (Group.update g f)) := by
    simp [Function.comp_def]
  rw [hsame.children_of_operator hkind hrg, hpush, ← hmap, List.map_map]
  refine List.map_congr_left fun c hc => ?_
  obtain ⟨e, -, hce⟩ := exists_group?_of_mem_children hr hgs hc
  rw [Function.comp_apply, hce, Option.map_some]
  obtain ⟨hshape, hcategories⟩ := group?_eq_some_iff.mp hce
  refine group?_eq_some_iff.mpr ⟨?_, ?_⟩
  · rw [Group.id_update, Group.role_update]
    rcases hshape with hincl | ⟨hrole, hnot, honly⟩
    · exact Or.inl hincl
    · have hcg : c ≠ g := by
        rintro rfl
        rw [hnot] at hg
        cases hg
      exact Or.inr ⟨hrole, hsame.kind_of_operator hnot,
        (hsame.children_of_operator hnot hcg).trans honly⟩
  · rw [Group.id_update, Group.update]
    have hor := kind?_id_of_group? hce
    split
    · next heq =>
      rw [heq] at hcategories ⊢
      exact hkeys _ hcategories
    · next hne =>
      rw [categories?_congr ⟨(hsame.kind_of_operator hor).trans hor.symm,
        hsame.children_of_operator hor hne⟩, hcategories]
      intro x hx
      refine hsame.kind (isLive_of_parent? (h.parent?_of_mem hx)) ?_
      rintro rfl
      exact hsame.not_mem hne hx

end SameBut

namespace GainsCategory

variable {key : String} (hgain : GainsCategory t t' g leaf key)
include hgain

/-- Gaining a category is a change of one leaf. -/
theorem sameBut : SameBut t t' g leaf where
  root := hgain.root
  kind hx _ := hgain.kind?_of_isLive hx
  children _ hx hxg := hgain.children hx hxg
  not_operator _ hop := hgain.not_isLive (isLive_of_kind? hop)
  not_mem _ hmem := hgain.not_isLive (isLive_of_parent? (hgain.isForest.parent?_of_mem hmem))

/-- Losing a category is a change of one leaf. -/
theorem sameBut_back : SameBut t' t g leaf where
  root := hgain.root.symm
  kind _ hx := by rw [hgain.kind, if_neg hx]
  children _ hx hxg := (hgain.children hx hxg).symm
  not_operator op hop := by
    rw [hgain.kind, if_pos rfl] at hop
    cases hop
  not_mem {x} hx hmem := by
    have hne := hgain.isForest'.ne_of_mem_children hmem
    rw [hgain.children hne.symm hx] at hmem
    exact hgain.not_isLive (isLive_of_parent? (hgain.isForest.parent?_of_mem hmem))

end GainsCategory

section Category

variable {key : String} (h : t.IsForest) (hg : t.kind? g = some .or)
include h hg

/-- One more category below an `or`. -/
theorem groups?_grow_category (key : String) (hgs : t.groups? = some gs) :
    (t.grow g (.category key)).groups? = some (gs.map (Group.update g (· ++ [key]))) := by
  have hsame := (gainsCategory_grow h hg key).sameBut
  refine hsame.groups?_update h hg (fun keys hkeys => ?_) hgs
  obtain ⟨-, hoperands⟩ := categories?_eq_some_iff_operands.mp hkeys
  refine categories?_eq_some_iff_operands.mpr ⟨hsame.kind_of_operator hg, ?_⟩
  rw [operands_grow h hg, hoperands, List.map_append, List.map_singleton]

/-- One category less below an `or`. -/
theorem groups?_prune_category (hfind : t.findCategory? g key = some leaf)
    (hgs : t.groups? = some gs) :
    (t.prune g leaf).groups? = some (gs.map (Group.update g (·.erase key))) := by
  have hsame := (gainsCategory_prune h hfind).sameBut_back
  refine hsame.groups?_update h hg (fun keys hkeys => ?_) hgs
  obtain ⟨-, hoperands⟩ := categories?_eq_some_iff_operands.mp hkeys
  refine categories?_eq_some_iff_operands.mpr ⟨hsame.kind_of_operator hg, ?_⟩
  rw [operands_prune h hfind, hoperands, List.map_erase fun _ _ => Operand.category.inj]

end Category

/-- Whether a category is found depends on the keys of the group. -/
theorem findCategory?_eq_none_iff {key : String} {keys : List String}
    (hkeys : t.categories? g = some keys) : t.findCategory? g key = none ↔ key ∉ keys := by
  obtain ⟨-, hoperands⟩ := categories?_eq_some_iff_operands.mp hkeys
  rw [findCategory?_eq_none_iff_operands, hoperands,
    List.mem_map_of_injective fun _ _ => Operand.category.inj]

/-- A category is found in the `or` of an entry if the entry has its key. -/
theorem findCategory?_id_eq_none_iff (hroot : t.root = some r) (hgs : t.groups? = some gs)
    (he : e ∈ gs) (key : String) : t.findCategory? e.id key = none ↔ key ∉ e.categories :=
  findCategory?_eq_none_iff (categories?_of_mem_groups hroot hgs he)

/-! ### Whole groups -/

section Root

variable (h : t.IsForest) (hroot : t.root = some r) (hgs : t.groups? = some gs)
include h hroot hgs

/-- One more child of the root that stands for a group. -/
theorem groups?_append (hroot' : t'.root = some r)
    (hkept : ∀ x, t.Reaches r x → t'.kind? x = t.kind? x ∧ (x ≠ r → t'.children x = t.children x))
    (hchildren : t'.children r = t.children r ++ [c]) (hc : t'.group? c = some e) :
    t'.groups? = some (gs ++ [e]) := by
  have hkind := (hkept r (Reaches.refl r)).1.trans (kind?_root_of_groups? hroot hgs)
  refine groups?_eq_some_iff.mpr ⟨r, hroot', hkind, ?_⟩
  rw [hchildren, List.map_append, List.map_append, ← map_group?_of_groups? hroot hgs]
  refine congrArg₂ (· ++ ·) ?_ ?_
  · refine List.map_congr_left fun d hd => ?_
    obtain ⟨e', -, hde⟩ := exists_group?_of_mem_children hroot hgs hd
    rw [hde]
    refine group?_congr (fun x hx => ?_) hde
    obtain ⟨hkind, hchildren⟩ := hkept x (Reaches.head hd hx)
    refine ⟨hkind, hchildren ?_⟩
    rintro rfl
    exact h.not_reaches_parent hd hx
  · simp [hc]

/-- The entry of a new inclusion group. -/
theorem groups?_grow_inclusion :
    (t.grow r .or).groups? = some (gs ++ [⟨.inclusion, t.nextId, []⟩]) := by
  have hr := kind?_root_of_groups? hroot hgs
  have hkind := kind?_grow h hr .or
  have hchildren := children_grow h hr .or
  have hnew := h.not_isLive_nextId
  refine groups?_append h hroot hgs hroot (fun x hx => ⟨?_, fun hne => ?_⟩) ?_
    (c := t.nextId)
    (group?_eq_some_iff.mpr ⟨Or.inl ⟨rfl, rfl⟩, categories?_eq_some_iff.mpr ⟨?_, ?_⟩⟩)
  · rw [hkind, if_neg]
    rintro rfl
    exact hnew (h.isLive_of_reaches hx (isLive_of_kind? hr))
  · rw [hchildren, if_neg hne]
  · rw [hchildren, if_pos rfl]
  · rw [hkind, if_pos rfl]
  · rw [hchildren, if_neg (ne_nextId h hr).symm, children_of_not_isLive hnew]
    rfl

/-- The entry of a new exclusion group is about the `or` inside the new `not`. -/
theorem groups?_grow_exclusion :
    ((t.grow r .not).grow t.nextId .or).groups?
      = some (gs ++ [⟨.exclusion, (t.grow r .not).nextId, []⟩]) := by
  have hr := kind?_root_of_groups? hroot hgs
  have h' := h.grow hr .not
  have hwrapper := kind?_grow_nextId h hr .not
  have hkind := kind?_grow h' hwrapper .or
  have hchildren := children_grow h' hwrapper .or
  have hnew := h.not_isLive_nextId
  have hlive : t.IsLive r := isLive_of_kind? hr
  -- neither of the new nodes is one that was there before
  have hold : ∀ {x}, t.IsLive x → x ≠ t.nextId ∧ x ≠ (t.grow r .not).nextId := by
    intro x hx
    constructor
    · rintro rfl
      exact hnew hx
    · rintro rfl
      exact h.not_isLive_nextId_grow hr .not hx
  have hids : t.nextId ≠ (t.grow r .not).nextId := ne_nextId h' hwrapper
  have hroot' : ((t.grow r .not).grow t.nextId .or).root = some r := by
    rw [root_grow, root_grow, hroot]
  refine groups?_append h hroot hgs hroot' (fun x hx => ?_) ?_
    (c := t.nextId) (group?_eq_some_iff.mpr
      ⟨Or.inr ⟨rfl, ?_, ?_⟩, categories?_eq_some_iff.mpr ⟨?_, ?_⟩⟩)
  · obtain ⟨hx1, hx2⟩ := hold (h.isLive_of_reaches hx hlive)
    refine ⟨?_, fun hne => ?_⟩
    · rw [hkind, if_neg hx2, kind?_grow h hr, if_neg hx1]
    · rw [hchildren, if_neg hx1, children_grow h hr, if_neg hne]
  · rw [hchildren, if_neg (hold hlive).1, children_grow h hr, if_pos rfl]
  · rw [hkind, if_neg hids, hwrapper]
  · rw [hchildren, if_pos rfl, children_grow h hr, if_neg (hold hlive).1.symm,
      children_of_not_isLive hnew, List.nil_append]
  · rw [hkind, if_pos rfl]
  · rw [hchildren, if_neg hids.symm, children_of_not_isLive h'.not_isLive_nextId]
    rfl

/-- A child of the root goes, and with it the entry whose `or` it reaches. -/
theorem groups?_prune_child (hc : c ∈ t.children r) (hce : t.group? c = some e) :
    (t.prune r c).groups? = some (gs.filter fun e' => e'.id ≠ e.id) := by
  have hr := kind?_root_of_groups? hroot hgs
  have hself : ¬ t.Reaches c r := h.not_reaches_parent hc
  refine groups?_eq_some_iff.mpr ⟨r, hroot, by rw [kind?_prune h hc hself, hr], ?_⟩
  have hpush : (gs.filter fun e' => e'.id ≠ e.id).map some
      = (gs.map some).filter fun o => o.all fun e' => decide (e'.id ≠ e.id) := by
    simp [List.filter_map, Function.comp_def]
  rw [children_prune h hc hself, if_pos rfl, (h.nodup r).erase_eq_filter, hpush,
    ← map_group?_of_groups? hroot hgs, List.filter_map]
  -- another child is another entry, which has its `or` elsewhere
  have hfilter : ∀ d ∈ t.children r,
      (d != c) = ((fun o => o.all fun e' => decide (e'.id ≠ e.id)) ∘ t.group?) d := by
    intro d hd
    obtain ⟨e', -, hde⟩ := exists_group?_of_mem_children hroot hgs hd
    rw [Function.comp_apply, hde, Option.all_some, bne, Bool.eq_iff_iff]
    simp only [Bool.not_eq_true', beq_eq_false_iff_ne, decide_eq_true_eq, not_iff_not]
    constructor
    · rintro rfl
      rw [Option.some_inj.mp (hde.symm.trans hce)]
    · intro heq
      exact h.eq_of_reaches_siblings hd hc (heq ▸ reaches_id_of_group? hde)
        (reaches_id_of_group? hce)
  rw [← List.filter_congr hfilter]
  refine List.map_congr_left fun d hd => ?_
  obtain ⟨hd, hne⟩ := List.mem_filter.mp hd
  have hne : d ≠ c := by simpa using hne
  obtain ⟨e', -, hde⟩ := exists_group?_of_mem_children hroot hgs hd
  rw [hde]
  refine group?_congr (fun x hx => ?_) hde
  have hx' : ¬ t.Reaches c x := fun hreach => hne (h.eq_of_reaches_siblings hd hc hx hreach)
  refine ⟨kind?_prune h hc hx', ?_⟩
  rw [children_prune h hc hx', if_neg]
  rintro rfl
  exact h.not_reaches_parent hd hx

end Root

/-! ### Out of reach -/

section Outside

variable (h : t.IsForest) (hgs : t.groups? = some gs)
include h hgs

/-- A leaf below a node that the root does not reach is in no entry. -/
theorem groups?_grow_outside {op : Operator} (hp : t.kind? p = some (.operator op))
    (hout : ∀ r, t.root = some r → ¬ t.Reaches r p) (kind : NodeKind) :
    (t.grow p kind).groups? = some gs := by
  refine groups?_congr (root_grow t p kind) (fun r x hr hx => ⟨?_, ?_⟩) hgs
  · rw [kind?_grow h hp, if_neg]
    rintro rfl
    exact h.not_isLive_nextId (h.isLive_of_reaches hx (h.root_isLoose hr).isLive)
  · rw [children_grow h hp, if_neg]
    rintro rfl
    exact hout r hr hx

/-- A child of a node that the root does not reach is in no entry. -/
theorem groups?_prune_outside (hc : c ∈ t.children p)
    (hout : ∀ r, t.root = some r → ¬ t.Reaches r p) : (t.prune p c).groups? = some gs := by
  refine groups?_congr (root_prune t p c) (fun r x hr hx => ?_) hgs
  have hloose := (isLoose_iff.mp (h.root_isLoose hr)).2
  have hx' : ¬ t.Reaches c x := by
    intro hreach
    rcases h.reaches_or_reaches hx hreach with habove | hbelow
    · rcases h.reaches_parent_or_eq hc habove with rfl | habove
      · exact h.not_mem_children hloose p hc
      · exact hout r hr habove
    · obtain rfl := h.eq_of_reaches_loose hbelow hloose
      exact h.not_mem_children hloose p hc
  refine ⟨kind?_prune h hc hx', ?_⟩
  rw [children_prune h hc hx', if_neg]
  rintro rfl
  exact hout r hr hx

end Outside

/-! ### Below any `and` -/

section Below

variable (h : t.IsForest) (hroot : t.root = some r) (hgs : t.groups? = some gs)
  (hp : t.kind? p = some .and)
include h hroot hgs hp

/-- An `or` below an `and` is an inclusion group if the `and` is the root. Another `and` has no part
in the list. -/
theorem groups?_grow_or : (t.grow p .or).groups?
    = some (if p = r then gs ++ [⟨.inclusion, t.nextId, []⟩] else gs) := by
  split
  · next heq =>
    rw [heq]
    exact groups?_grow_inclusion h hroot hgs
  · next hne =>
    refine groups?_grow_outside h hgs hp (fun r' hr' hreach => ?_) .or
    cases hroot.symm.trans hr'
    exact hne (eq_root_of_reaches h hroot hgs hreach hp)

/-- An `or` in a `not` below an `and` is an exclusion group if the `and` is the root. -/
theorem groups?_grow_not_or : ((t.grow p .not).grow t.nextId .or).groups?
    = some (if p = r then gs ++ [⟨.exclusion, (t.grow p .not).nextId, []⟩] else gs) := by
  split
  · next heq =>
    rw [heq]
    exact groups?_grow_exclusion h hroot hgs
  · next hne =>
    have h' := h.grow hp .not
    have hgs' : (t.grow p .not).groups? = some gs := by
      refine groups?_grow_outside h hgs hp (fun r' hr' hreach => ?_) .not
      cases hroot.symm.trans hr'
      exact hne (eq_root_of_reaches h hroot hgs hreach hp)
    have hwrapper := kind?_grow_nextId h hp .not
    refine groups?_grow_outside h' hgs' hwrapper (fun r' hr' hreach => ?_) .or
    cases hroot.symm.trans hr'
    -- the root would have to reach the new node through its parent
    have hchild := nextId_mem_children_grow h hp .not
    have hp' : (t.grow p .not).kind? p = some .and := by
      rw [kind?_grow h hp, if_neg (ne_nextId h hp), hp]
    rcases h'.reaches_parent_or_eq hchild hreach with heq | hreach
    · exact h.not_isLive_nextId (heq ▸ (h.root_isLoose hroot).isLive)
    · exact hne (eq_root_of_reaches h' hroot hgs' hreach hp')

end Below

/-! ### The topmost node of a group -/

/-- The node that goes with a group, and its parent: the `or` itself, unless that is inside a
`not`. -/
structure IsTop (t : Tree) (g p c : NodeId) : Prop where
  mem : c ∈ t.children p
  shape : c = g ∧ t.kind? p ≠ some .not ∨ t.kind? c = some .not ∧ g ∈ t.children c

/-- An `or` that is below nothing has no topmost node. -/
theorem not_isTop_of_loose (h : t.IsForest) (hparent : t.parent? g = none) : ¬ IsTop t g p c := by
  rintro ⟨hmem, ⟨rfl, -⟩ | ⟨-, hbelow⟩⟩
  · exact h.not_mem_children hparent p hmem
  · exact h.not_mem_children hparent c hbelow

/-- There is at most one topmost node: what is around the `or` decides which. -/
theorem IsTop.parent_eq {q d : NodeId} (htop : IsTop t g p c) (h : t.IsForest)
    (htop' : IsTop t g q d) : p = q := by
  -- in the mixed cases one says that the `or` is inside a `not`, and the other that it is not
  obtain ⟨hc, ⟨rfl, hp⟩ | ⟨hnot, hcg⟩⟩ := htop <;> obtain ⟨hd, ⟨rfl, hq⟩ | ⟨hnot', hdg⟩⟩ := htop'
  · exact h.eq_of_mem_children hc hd
  · exact absurd (h.eq_of_mem_children hc hdg ▸ hnot') hp
  · exact absurd (h.eq_of_mem_children hd hcg ▸ hnot) hq
  · exact h.eq_of_mem_children (h.eq_of_mem_children hcg hdg ▸ hc) hd

theorem IsTop.child_eq {d : NodeId} (htop : IsTop t g p c) (h : t.IsForest)
    (htop' : IsTop t g p d) : c = d := by
  obtain ⟨hc, ⟨rfl, hp⟩ | ⟨hnot, hcg⟩⟩ := htop <;> obtain ⟨hd, ⟨rfl, hq⟩ | ⟨hnot', hdg⟩⟩ := htop'
  · rfl
  · exact absurd (h.eq_of_mem_children hc hdg ▸ hnot') hp
  · exact absurd (h.eq_of_mem_children hd hcg ▸ hnot) hq
  · exact h.eq_of_mem_children hcg hdg

/-- The topmost node of an entry is a child of the root. -/
theorem exists_isTop_of_mem_ids (hroot : t.root = some r) (hgs : t.groups? = some gs)
    (hmem : g ∈ gs.map Group.id) : ∃ c, IsTop t g r c := by
  have hr := kind?_root_of_groups? hroot hgs
  obtain ⟨e, he, rfl⟩ := List.mem_map.mp hmem
  obtain ⟨c, hc, hce⟩ := exists_group?_of_mem_groups hroot hgs he
  refine ⟨c, hc, ?_⟩
  obtain ⟨⟨-, hid⟩ | ⟨-, hnot, honly⟩, -⟩ := group?_eq_some_iff.mp hce
  · exact Or.inl ⟨hid, by simp [hr]⟩
  · exact Or.inr ⟨hnot, by simp [honly]⟩

section Top

variable (htop : IsTop t g p c) (hg : t.kind? g = some .or)
include htop hg

/-- If the topmost node stands for an entry, this is the entry of the `or`. -/
theorem IsTop.id_eq (hce : t.group? c = some e) : e.id = g := by
  have hor := kind?_id_of_group? hce
  obtain ⟨⟨-, hid⟩ | ⟨-, hnot, honly⟩, -⟩ := group?_eq_some_iff.mp hce
  · rcases htop.shape with ⟨hcg, -⟩ | ⟨hnot, -⟩
    · exact hid.symm.trans hcg
    · rw [hid, hor] at hnot
      cases hnot
  · rcases htop.shape with ⟨rfl, -⟩ | ⟨-, hmem⟩
    · rw [hg] at hnot
      cases hnot
    · rw [honly] at hmem
      exact (List.mem_singleton.mp hmem).symm

variable (h : t.IsForest) (hroot : t.root = some r) (hgs : t.groups? = some gs)
include h hroot hgs

/-- Pruning the topmost node takes the entry of the `or` away, if there is one. -/
theorem groups?_prune_group : (t.prune p c).groups? = some (gs.filter fun e => e.id ≠ g) := by
  by_cases hp : p = r
  · have hc : c ∈ t.children r := hp ▸ htop.mem
    obtain ⟨e, -, hce⟩ := exists_group?_of_mem_children hroot hgs hc
    rw [hp, ← htop.id_eq hg hce]
    exact groups?_prune_child h hroot hgs hc hce
  · have hnone : g ∉ gs.map Group.id := fun hmem => by
      obtain ⟨d, htop'⟩ := exists_isTop_of_mem_ids hroot hgs hmem
      exact hp (htop.parent_eq h htop')
    have hout : ¬ t.Reaches r g := by
      intro hreach
      exact hnone ((mem_ids_iff_of_kind? h hroot hgs hg).mpr hreach)
    rw [Group.filter_id_ne_eq_self hnone]
    refine groups?_prune_outside h hgs htop.mem fun r' hr' hreach => ?_
    cases hroot.symm.trans hr'
    -- from the root the way to the parent would go on to the `or`
    have hbelow := hreach.tail htop.mem
    rcases htop.shape with ⟨rfl, -⟩ | ⟨-, hmem⟩
    · exact hout hbelow
    · exact hout (hbelow.tail hmem)

end Top

end Tree

end Targeting
