import Mathlib.Data.List.Nodup
import Mathlib.Data.List.Perm.Subperm
import Targeting.Tree.Arena

/-!
# Look-ups in an arena

An arena answers look-ups like a finite map, as long as its list of vacant slots agrees with the
slots. Each operation changes the answer for one identifier only, and the identifier of a new value
is one that denoted nothing.

## Main definitions

* `Arena.WellFormed` — vacant slots are the empty ones, and no filled slot is from the future
* `Arena.nextId` — the identifier that the next value gets
* `Arena.ids` — the identifiers that denote something

## Main results

* `Arena.get?_insert`, `Arena.get?_modify`, `Arena.get?_remove` — the look-ups after an operation
* `Arena.length_le_size` — there are no more distinct live identifiers than values
* `Arena.size_eq_length` — there are as many values as live identifiers
* `Arena.size_add_length` — how the size drops when values go
-/

namespace Targeting.Arena

variable {α : Type} {a : Arena α} {id x : NodeId} {value : α}

/-- The list of vacant slots holds the empty slots, each once, and filled slots were filled in the
current generation or an earlier one. -/
structure WellFormed (a : Arena α) : Prop where
  vacant_nodup : a.vacant.Nodup
  vacant_iff : ∀ i, i ∈ a.vacant ↔ a.slots[i]? = some none
  generation_le : ∀ (i g : Nat) (v : α), a.slots[i]? = some (some (g, v)) → g ≤ a.generation

/-- The identifier that the next value gets. -/
def nextId (a : Arena α) : NodeId :=
  match a.vacant with
  | index :: _ => ⟨index, a.generation⟩
  | [] => ⟨a.slots.size, a.generation⟩

theorem insert_fst (a : Arena α) (value : α) : (a.insert value).1 = a.nextId := by
  unfold insert nextId
  cases a.vacant <;> rfl

theorem get?_eq_some_iff :
    a.get? id = some value ↔ a.slots[id.index]? = some (some (id.generation, value)) := by
  unfold get?
  split
  · next generation stored hslot =>
    rw [hslot]
    by_cases hgen : generation = id.generation <;> simp [hgen]
  · next hslot =>
    constructor
    · intro h
      cases h
    · intro h
      exact absurd h (hslot _ _)

theorem contains_iff : a.contains id = true ↔ ∃ value, a.get? id = some value :=
  Option.isSome_iff_exists

/-! ### Look-ups after an operation -/

theorem WellFormed.get?_nextId (h : a.WellFormed) : a.get? a.nextId = none := by
  rw [Option.eq_none_iff_forall_ne_some]
  intro value hget
  rw [get?_eq_some_iff, nextId] at hget
  cases hvacant : a.vacant with
  | nil => simp [hvacant] at hget
  | cons index rest =>
    have hempty := (h.vacant_iff index).mp (by simp [hvacant])
    simp [hvacant, hempty] at hget

/-- Filling or emptying the slot of an identifier that nothing of another generation occupies
changes the look-up of that identifier only. -/
theorem get?_setSlot (id : NodeId) {old : Option (Nat × α)} (hslot : a.slots[id.index]? = some old)
    (hold : ∀ g v, old = some (g, v) → g = id.generation) (new : Option α) (vacant : List Nat)
    (generation : Nat) (x : NodeId) :
    get? { slots := a.slots.setIfInBounds id.index (new.map (id.generation, ·)), vacant,
           generation } x = if x = id then new else a.get? x := by
  have hbound := (Array.getElem?_eq_some_iff.mp hslot).1
  obtain ⟨j, g⟩ := x
  obtain ⟨i, g'⟩ := id
  simp only at hslot hold hbound
  ext stored
  rw [get?_eq_some_iff, Array.getElem?_setIfInBounds]
  -- another slot is as before; in this slot only one generation could have been there
  by_cases hij : i = j
  · subst hij
    by_cases hg : g = g'
    · subst hg
      simp [hbound]
    · have hnew : ¬ new.map (g', ·) = some (g, stored) := by
        cases new <;> simp [Ne.symm hg]
      have hget : ¬ a.get? ⟨i, g⟩ = some stored := by
        rw [get?_eq_some_iff, hslot]
        intro h
        exact hg (hold g stored (Option.some_inj.mp h))
      simp [hbound, hg, hnew, hget]
  · simp [hij, Ne.symm hij, get?_eq_some_iff]

theorem WellFormed.get?_insert (h : a.WellFormed) (value : α) (x : NodeId) :
    (a.insert value).2.get? x = if x = a.nextId then some value else a.get? x := by
  cases hvacant : a.vacant with
  | cons index rest =>
    have hempty := (h.vacant_iff index).mp (by simp [hvacant])
    simpa [insert, nextId, hvacant] using
      get?_setSlot ⟨index, a.generation⟩ hempty (by simp) (some value) rest a.generation x
  | nil =>
    obtain ⟨j, g⟩ := x
    ext stored
    simp only [insert, nextId, hvacant, get?_eq_some_iff, Array.getElem?_push]
    by_cases hj : j = a.slots.size
    · subst hj
      by_cases hg : g = a.generation
      · simp [hg]
      · simp [hg, get?_eq_some_iff, Ne.symm hg]
    · simp [hj, get?_eq_some_iff]

theorem get?_modify (a : Arena α) (id x : NodeId) (f : α → α) :
    (a.modify id f).get? x = if x = id then (a.get? id).map f else a.get? x := by
  unfold modify
  cases hget : a.get? id with
  | none =>
    by_cases hx : x = id
    · simp [hx, hget]
    · simp [hx]
  | some value =>
    exact get?_setSlot id (get?_eq_some_iff.mp hget) (by simp +contextual [eq_comm])
      (some (f value)) a.vacant a.generation x

theorem get?_remove (a : Arena α) (id x : NodeId) :
    (a.remove id).get? x = if x = id then none else a.get? x := by
  unfold remove
  split
  · next hlive =>
    obtain ⟨value, hget⟩ := contains_iff.mp hlive
    exact get?_setSlot id (get?_eq_some_iff.mp hget) (by simp +contextual [eq_comm]) none
      (id.index :: a.vacant) (a.generation + 1) x
  · next hdead =>
    by_cases hx : x = id
    · subst hx
      simpa [contains] using hdead
    · simp [hx]

/-- Replacing a value by itself changes nothing. -/
theorem modify_eq_self {f : α → α} (hf : ∀ v, a.get? id = some v → f v = v) :
    a.modify id f = a := by
  unfold modify
  cases hget : a.get? id with
  | none => rfl
  | some value =>
    have hslot := get?_eq_some_iff.mp hget
    -- what is written into the slot is what stands there
    have hslots : a.slots.setIfInBounds id.index (some (id.generation, f value)) = a.slots := by
      rw [hf value hget]
      apply Array.ext_getElem?
      intro i
      rw [Array.getElem?_setIfInBounds]
      split
      · next hi =>
        subst hi
        rw [if_pos (Array.getElem?_eq_some_iff.mp hslot).1, hslot]
      · rfl
    simp only [hslots]

/-! ### Well-formedness after an operation -/

theorem WellFormed.empty : ({} : Arena α).WellFormed where
  vacant_nodup := List.nodup_nil
  vacant_iff := by simp
  generation_le := by simp

/-- Filling or emptying a slot keeps an arena in order if its vacant slots follow. -/
theorem WellFormed.setSlot (h : a.WellFormed) {index generation : Nat} {vacant : List Nat}
    (hbound : index < a.slots.size) (new : Option (Nat × α)) (hnodup : vacant.Nodup)
    (hvacant : ∀ i, i ∈ vacant ↔ if i = index then new = none else i ∈ a.vacant)
    (hlater : a.generation ≤ generation) (hnew : ∀ g v, new = some (g, v) → g ≤ generation) :
    WellFormed { slots := a.slots.setIfInBounds index new, vacant, generation } where
  vacant_nodup := hnodup
  vacant_iff := by
    intro i
    rw [hvacant, Array.getElem?_setIfInBounds]
    by_cases hi : index = i
    · subst hi
      simp [hbound]
    · simp [hi, Ne.symm hi, h.vacant_iff]
  generation_le := by
    intro i g v hi
    rw [Array.getElem?_setIfInBounds] at hi
    split at hi
    · exact hnew g v (Option.some_inj.mp hi)
    · exact Nat.le_trans (h.generation_le i g v hi) hlater

theorem WellFormed.insert (h : a.WellFormed) (value : α) : (a.insert value).2.WellFormed := by
  unfold Arena.insert
  cases hvacant : a.vacant with
  | nil =>
    -- without a vacant slot the value goes behind all slots, so none of them is empty
    have hfull : ∀ i : Nat, a.slots[i]? ≠ some none := by
      intro i hi
      simpa [hvacant] using (h.vacant_iff i).mpr hi
    refine ⟨List.nodup_nil, fun i => ?_, fun i g v hi => ?_⟩
    · rw [Array.getElem?_push]
      by_cases hi : i = a.slots.size
      · simp [hi]
      · simp [hi, hfull]
    · rw [Array.getElem?_push] at hi
      split at hi
      · cases hi
        exact Nat.le_refl _
      · exact h.generation_le i g v hi
  | cons index rest =>
    obtain ⟨hfresh, hnodup⟩ := List.nodup_cons.mp (hvacant ▸ h.vacant_nodup)
    have hempty := (h.vacant_iff index).mp (by simp [hvacant])
    have hbound := (Array.getElem?_eq_some_iff.mp hempty).1
    refine h.setSlot hbound (some (a.generation, value)) hnodup (fun i => ?_)
      (Nat.le_refl _) ?_
    · by_cases hi : i = index
      · simp [hi, hfresh]
      · simp [hi, hvacant]
    · intro g v heq
      cases heq
      exact Nat.le_refl _

theorem WellFormed.modify (h : a.WellFormed) (id : NodeId) (f : α → α) :
    (a.modify id f).WellFormed := by
  unfold Arena.modify
  cases hget : a.get? id with
  | none => exact h
  | some value =>
    have hslot := get?_eq_some_iff.mp hget
    have hbound := (Array.getElem?_eq_some_iff.mp hslot).1
    refine h.setSlot hbound (some (id.generation, f value)) h.vacant_nodup (fun i => ?_)
      (Nat.le_refl _) ?_
    · by_cases hi : i = id.index
      · simp [hi, h.vacant_iff, hslot]
      · simp [hi]
    · intro g v heq
      cases heq
      exact h.generation_le id.index id.generation value hslot

theorem WellFormed.remove (h : a.WellFormed) (id : NodeId) : (a.remove id).WellFormed := by
  unfold Arena.remove
  split
  · next hlive =>
    obtain ⟨value, hget⟩ := contains_iff.mp hlive
    have hslot := get?_eq_some_iff.mp hget
    have hbound := (Array.getElem?_eq_some_iff.mp hslot).1
    have hfilled : id.index ∉ a.vacant := by
      rw [h.vacant_iff, hslot]
      simp
    refine h.setSlot hbound none (List.nodup_cons.mpr ⟨hfilled, h.vacant_nodup⟩) (fun i => ?_)
      (Nat.le_succ _) (fun g v heq => by cases heq)
    by_cases hi : i = id.index
    · simp [hi]
    · simp [hi]
  · exact h

/-! ### Counting -/

/-- The identifier of the value in a slot with its number. -/
def slotId? : Option (Nat × α) × Nat → Option NodeId
  | (some (generation, _), index) => some ⟨index, generation⟩
  | (none, _) => none

/-- The identifiers that denote something, in the order of their slots. -/
def ids (a : Arena α) : List NodeId := a.slots.toList.zipIdx.filterMap slotId?

theorem mem_ids : id ∈ a.ids ↔ ∃ value, a.get? id = some value := by
  obtain ⟨i, g⟩ := id
  simp only [ids, List.mem_filterMap, Prod.exists, List.mem_zipIdx_iff_getElem?,
    Array.getElem?_toList, get?_eq_some_iff]
  constructor
  · rintro ⟨slot, index, hslot, heq⟩
    cases slot with
    | none => cases heq
    | some entry =>
      cases heq
      exact ⟨entry.2, hslot⟩
  · rintro ⟨value, hslot⟩
    exact ⟨some (g, value), i, hslot, rfl⟩

theorem length_ids (a : Arena α) : a.ids.length = a.size := by
  have hsome : ∀ p : Option (Nat × α) × Nat, (slotId? p).isSome = p.1.isSome := by
    rintro ⟨_ | entry, index⟩ <;> rfl
  rw [ids, List.length_filterMap_eq_countP, funext hsome, size]
  conv_rhs => rw [← List.zipIdx_map_fst 0 a.slots.toList, List.countP_map]
  rfl

/-- No identifier is listed twice, since every slot has a number of its own. -/
theorem nodup_ids (a : Arena α) : a.ids.Nodup := by
  have hnumbers : a.slots.toList.zipIdx.Pairwise fun p q => p.2 ≠ q.2 := by
    apply List.Pairwise.of_map Prod.snd (S := (· ≠ ·)) (fun _ _ hne => hne)
    rw [List.zipIdx_map_snd]
    exact List.nodup_range'
  refine List.Pairwise.filterMap slotId? (fun p q hne id hid id' hid' heq => ?_) hnumbers
  obtain ⟨_ | ⟨g, v⟩, i⟩ := p
  · cases hid
  obtain ⟨_ | ⟨g', v'⟩, i'⟩ := q
  · cases hid'
  cases hid
  cases hid'
  cases heq
  exact hne rfl

/-- Distinct live identifiers are at most as many as there are values. -/
theorem length_le_size {l : List NodeId} (hnodup : l.Nodup)
    (hlive : ∀ id ∈ l, ∃ value, a.get? id = some value) : l.length ≤ a.size := by
  rw [← length_ids]
  exact (hnodup.subperm fun id hid => mem_ids.mpr (hlive id hid)).length_le

/-- A list of exactly the live identifiers, each once, is as long as the arena is large. -/
theorem size_eq_length {l : List NodeId} (hnodup : l.Nodup)
    (hmem : ∀ id, id ∈ l ↔ ∃ value, a.get? id = some value) : a.size = l.length := by
  rw [← length_ids]
  refine ((List.perm_ext_iff_of_nodup a.nodup_ids hnodup).mpr fun id => ?_).length_eq
  rw [mem_ids, hmem]

/-- If distinct values go and all others stay, the size drops by the number of those that go. -/
theorem size_add_length {b : Arena α} {gone : List NodeId} (hnodup : gone.Nodup)
    (hgone : ∀ id ∈ gone, ∃ value, a.get? id = some value)
    (hleft : ∀ id, (∃ value, b.get? id = some value) ↔
      (∃ value, a.get? id = some value) ∧ id ∉ gone) : b.size + gone.length = a.size := by
  have hdisjoint : b.ids.Disjoint gone := fun id hid => ((hleft id).mp (mem_ids.mp hid)).2
  rw [← length_ids b, ← List.length_append]
  refine (size_eq_length (b.nodup_ids.append hnodup hdisjoint) fun id => ?_).symm
  rw [List.mem_append, mem_ids, hleft]
  constructor
  · rintro (⟨hlive, -⟩ | hmem)
    · exact hlive
    · exact hgone id hmem
  · intro hlive
    by_cases hmem : id ∈ gone
    · exact Or.inr hmem
    · exact Or.inl ⟨hlive, hmem⟩

theorem size_le_slots (a : Arena α) : a.size ≤ a.slots.size :=
  List.countP_le_length

end Targeting.Arena
