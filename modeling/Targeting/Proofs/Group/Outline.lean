import Targeting.Proofs.Group.Edit
import Targeting.Proofs.Group.Shape

/-!
# Outlines

Without identifiers an editable expression is an outline: the roles and keys of its groups, in
order. A group of an outline has a place, which counts the groups of its role only, and changing the
group at a place comes down to changing the entry with the identifier that is found there.

## Main definitions

* `Outline` — the groups without their identifiers
* `Place` — where a group is found
* `Change` — a change of one group, and what becomes of its keys
* `Outline.alter` — the outline with one group changed or left out

## Main results

* `Group.keysAt?_map_shape` — the keys at a place are those of the entry there
* `Group.map_shape_filterMap_alter` — changing an entry changes the group at its place
-/

namespace Targeting

/-- The groups of an editable expression without their identifiers. -/
abbrev Outline := List (GroupRole × List String)

/-- A group by its place: the inclusion groups are counted, and of the exclusion groups only the
first can be found. -/
inductive Place where
  | inclusion (n : Nat)
  | exclusion

namespace Place

/-- The role of the group at a place. -/
def role : Place → GroupRole
  | .inclusion _ => .inclusion
  | .exclusion => .exclusion

/-- The number of groups of the same role in front of a place. -/
def rank : Place → Nat
  | .inclusion n => n
  | .exclusion => 0

end Place

/-- A change of one group. -/
inductive Change where
  | addCategory (key : String)
  | removeCategory (key : String)
  | remove

namespace Change

/-- The keys of a group after a change, unless the group is removed. -/
def keys? : Change → List String → Option (List String)
  | .addCategory key, keys => some (insertKey key keys)
  | .removeCategory key, keys => some (keys.erase key)
  | .remove, _ => none

/-- Whether a change finds what it is to remove in a group with the given keys. -/
def finds? : Change → List String → Option Bool
  | .addCategory _, _ => none
  | .removeCategory key, keys => some (key ∈ keys)
  | .remove, _ => some true

end Change

namespace Outline

/-- The keys of the group at a place. -/
def keysAt? (o : Outline) (place : Place) : Option (List String) :=
  (o.filter fun shape => shape.1 = place.role)[place.rank]?.map (·.2)

/-- The outline with other keys in the group of a role that has a number of others in front of it,
or without this group. -/
def alter (role : GroupRole) (f : List String → Option (List String)) : Nat → Outline → Outline
  | _, [] => []
  | n, shape :: o =>
    if shape.1 = role then
      match n with
      | 0 => ((f shape.2).map fun keys => (shape.1, keys)).toList ++ o
      | n + 1 => shape :: alter role f n o
    else shape :: alter role f n o

section Alter

variable {shape : GroupRole × List String} {role : GroupRole}
  (f : List String → Option (List String)) (n : Nat) (o : Outline)

theorem alter_cons_of_ne (h : shape.1 ≠ role) :
    alter role f n (shape :: o) = shape :: alter role f n o := by
  cases n <;> rw [alter, if_neg h]

theorem alter_cons_zero (h : shape.1 = role) :
    alter role f 0 (shape :: o)
      = ((f shape.2).map fun keys => (shape.1, keys)).toList ++ o := by
  rw [alter, if_pos h]

theorem alter_cons_succ (h : shape.1 = role) :
    alter role f (n + 1) (shape :: o) = shape :: alter role f n o := by
  rw [alter, if_pos h]

end Alter

end Outline

/-! ### Entries and their places -/

namespace Group

variable {id : NodeId} {role : GroupRole} {f : List String → Option (List String)} {e : Group}
  {gs : List Group} {n : Nat}

/-- The entry at a place. -/
def at? (gs : List Group) (place : Place) : Option Group :=
  (gs.filter fun e => e.role = place.role)[place.rank]?

/-- The entry of the given `or` gets other keys or is left out; every other entry stays as it is. -/
def alter (id : NodeId) (f : List String → Option (List String)) (e : Group) : Option Group :=
  if e.id = id then (f e.categories).map fun keys => { e with categories := keys } else some e

theorem mem_of_at? {place : Place} (h : at? gs place = some e) : e ∈ gs :=
  List.mem_of_mem_filter (List.mem_of_getElem? h)

theorem keysAt?_map_shape (gs : List Group) (place : Place) :
    Outline.keysAt? (gs.map shape) place = (at? gs place).map Group.categories := by
  rw [Outline.keysAt?, at?, List.filter_map, List.getElem?_map, Option.map_map]
  rfl

theorem map_update_eq_filterMap (g : List String → List String) :
    gs.map (update id g) = gs.filterMap (alter id fun keys => some (g keys)) := by
  rw [← List.filterMap_eq_map]
  congr 1
  funext e
  rw [Function.comp_apply, update, alter, apply_ite some]
  rfl

theorem filter_ne_eq_filterMap :
    (gs.filter fun e => e.id ≠ id) = gs.filterMap (alter id fun _ => none) := by
  rw [← List.filterMap_eq_filter]
  congr 1
  funext e
  by_cases hid : e.id = id <;> simp [alter, hid, Option.guard]

/-- Without an entry of the `or` there is nothing to change. -/
theorem filterMap_alter_eq_self (hnone : id ∉ gs.map Group.id) :
    gs.filterMap (alter id f) = gs := by
  rw [List.filterMap_congr (g := some), List.filterMap_some]
  intro e he
  rw [alter, if_neg]
  rintro rfl
  exact hnone (List.mem_map_of_mem he)

/-- Changing an entry changes the group at its place, and no other one. -/
theorem map_shape_filterMap_alter (hnodup : (gs.map Group.id).Nodup)
    (he : (gs.filter fun e => e.role = role)[n]? = some e) :
    (gs.filterMap (alter e.id f)).map shape = Outline.alter role f n (gs.map shape) := by
  induction gs generalizing n with
  | nil => cases he
  | cons first gs ih =>
    obtain ⟨hfirst, hnodup⟩ := List.nodup_cons.mp hnodup
    -- an entry further back is not the first one
    have hback : ∀ {n : Nat}, (gs.filter fun e => e.role = role)[n]? = some e →
        first.id ≠ e.id := by
      intro n hn heq
      exact hfirst (heq ▸ List.mem_map_of_mem (List.mem_of_mem_filter (List.mem_of_getElem? hn)))
    have hskip : ∀ {n : Nat}, (gs.filter fun e => e.role = role)[n]? = some e →
        ((first :: gs).filterMap (alter e.id f)).map shape
          = first.shape :: Outline.alter role f n (gs.map shape) := by
      intro n hn
      have hself : alter e.id f first = some first := if_neg (hback hn)
      rw [List.filterMap_cons_some hself, List.map_cons, ih hnodup hn]
    rw [List.map_cons]
    -- only entries of the role count for the place
    by_cases hrole : first.role = role
    · rw [List.filter_cons_of_pos (by simpa using hrole)] at he
      cases n with
      | zero =>
        cases he
        rw [List.filterMap_cons, filterMap_alter_eq_self hfirst, alter, if_pos rfl,
          Outline.alter_cons_zero f _ hrole]
        cases hf : f e.categories <;> simp [shape, hf]
      | succ n =>
        rw [Outline.alter_cons_succ f n _ hrole]
        exact hskip he
    · rw [List.filter_cons_of_neg (by simpa using hrole)] at he
      rw [Outline.alter_cons_of_ne f n _ hrole]
      exact hskip he

end Group

end Targeting
