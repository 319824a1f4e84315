import Mathlib.Data.List.Induction
import Targeting.Json.Value

/-!
# Members in order

An object keeps its members sorted by key, so two objects with the same members are the same. Putting
members into a sorted list one by one keeps the last of those with one key.

## Main definitions

* `Json.IsSorted` — members sorted by key, no key twice

## Main results

* `Json.IsSorted.ext` — sorted lists with the same members are equal
* `Json.mem_sortMembers_iff` — the last member with a key wins
* `Json.IsSorted.sortMembers_eq` — what is sorted stays as it is
* `Json.sortMembers_filter` — leaving out keys before or after sorting
-/

namespace Targeting.Json

variable {ms ms' : List (String × Json)} {m : String × Json} {key key' : String} {value value' : Json}

/-- Members sorted by key, so that no key occurs twice. -/
def IsSorted (ms : List (String × Json)) : Prop := ms.Pairwise fun m m' => m.1 < m'.1

/-! ### Sorted members -/

theorem IsSorted.ext (h : IsSorted ms) (h' : IsSorted ms') (hmem : ∀ m, m ∈ ms ↔ m ∈ ms') :
    ms = ms' := by
  induction ms generalizing ms' with
  | nil => exact (List.eq_nil_iff_forall_not_mem.mpr fun m hm => by simpa using (hmem m).mpr hm).symm
  | cons m ms ih =>
    cases ms' with
    | nil => simpa using (hmem m).mp List.mem_cons_self
    | cons m' ms' =>
      obtain ⟨hleast, hms⟩ := List.pairwise_cons.mp h
      obtain ⟨hleast', hms'⟩ := List.pairwise_cons.mp h'
      -- if the first members differ, each of them comes behind the other
      obtain rfl : m = m' := by
        by_contra hne
        have hm := (List.mem_cons.mp ((hmem m).mp List.mem_cons_self)).resolve_left hne
        have hm' := (List.mem_cons.mp ((hmem m').mpr List.mem_cons_self)).resolve_left (Ne.symm hne)
        exact String.lt_asymm (hleast m' hm') (hleast' m hm)
      refine congrArg (m :: ·) (ih hms hms' fun x => ?_)
      have hne : ∀ x ∈ ms, x ≠ m := fun x hx heq => String.lt_irrefl m.1 (heq ▸ hleast x hx)
      have hne' : ∀ x ∈ ms', x ≠ m := fun x hx heq => String.lt_irrefl m.1 (heq ▸ hleast' x hx)
      have hx := hmem x
      rw [List.mem_cons, List.mem_cons] at hx
      constructor
      · intro hxs
        exact (hx.mp (Or.inr hxs)).resolve_left (hne x hxs)
      · intro hxs
        exact (hx.mpr (Or.inr hxs)).resolve_left (hne' x hxs)

theorem IsSorted.filter (h : IsSorted ms) (p : String × Json → Bool) : IsSorted (ms.filter p) :=
  List.Pairwise.filter p h

/-! ### Putting in a member -/

theorem mem_insertMember_iff (h : IsSorted ms) :
    m ∈ insertMember key value ms ↔ m = (key, value) ∨ m ∈ ms ∧ m.1 ≠ key := by
  induction ms with
  | nil => simp [insertMember]
  | cons head ms ih =>
    obtain ⟨hleast, hms⟩ := List.pairwise_cons.mp h
    obtain ⟨k, v⟩ := head
    -- a key up to that of the head is not found behind it
    have hgreater : ∀ {k'}, k' = k ∨ k' < k → ∀ x ∈ ms, x.1 ≠ k' := by
      rintro k' (rfl | hk') x hx rfl
      · exact String.lt_irrefl _ (hleast x hx)
      · exact String.lt_asymm hk' (hleast x hx)
    rw [insertMember]
    split
    · next heq =>
      subst heq
      rw [List.mem_cons, List.mem_cons]
      constructor
      · rintro (rfl | hm)
        · exact Or.inl rfl
        · exact Or.inr ⟨Or.inr hm, hgreater (Or.inl rfl) m hm⟩
      · rintro (rfl | ⟨rfl | hm, hne⟩)
        · exact Or.inl rfl
        · exact absurd rfl hne
        · exact Or.inr hm
    · next hne =>
      split
      · next hlt =>
        rw [List.mem_cons, List.mem_cons]
        constructor
        · rintro (rfl | rfl | hm)
          · exact Or.inl rfl
          · exact Or.inr ⟨Or.inl rfl, Ne.symm hne⟩
          · exact Or.inr ⟨Or.inr hm, hgreater (Or.inr hlt) m hm⟩
        · rintro (rfl | ⟨hm, -⟩)
          · exact Or.inl rfl
          · exact Or.inr hm
      · rw [List.mem_cons, ih hms, List.mem_cons]
        constructor
        · rintro (rfl | rfl | ⟨hm, hkey⟩)
          · exact Or.inr ⟨Or.inl rfl, Ne.symm hne⟩
          · exact Or.inl rfl
          · exact Or.inr ⟨Or.inr hm, hkey⟩
        · rintro (rfl | ⟨rfl | hm, hkey⟩)
          · exact Or.inr (Or.inl rfl)
          · exact Or.inl rfl
          · exact Or.inr (Or.inr ⟨hm, hkey⟩)

theorem IsSorted.insertMember (h : IsSorted ms) (key : String) (value : Json) :
    IsSorted (Json.insertMember key value ms) := by
  induction ms with
  | nil => exact List.pairwise_singleton _ _
  | cons head ms ih =>
    obtain ⟨hleast, hms⟩ := List.pairwise_cons.mp h
    obtain ⟨k, v⟩ := head
    rw [Json.insertMember]
    split
    · next heq =>
      subst heq
      exact List.pairwise_cons.mpr ⟨hleast, hms⟩
    · next hne =>
      split
      · next hlt =>
        refine List.pairwise_cons.mpr ⟨fun x hx => ?_, h⟩
        rcases List.mem_cons.mp hx with rfl | hx
        · exact hlt
        · exact String.lt_trans hlt (hleast x hx)
      · next hnlt =>
        -- the new member comes behind the head, so all of the tail must do so too
        have hgt : k < key := by
          by_contra hngt
          exact hne (String.le_antisymm (String.not_lt.mp hngt) (String.not_lt.mp hnlt))
        refine List.pairwise_cons.mpr ⟨fun x hx => ?_, ih hms⟩
        rcases (mem_insertMember_iff hms).mp hx with rfl | ⟨hx, -⟩
        · exact hgt
        · exact hleast x hx

/-! ### Looking up -/

theorem lookup?_cons (k : String) (v : Json) (ms : List (String × Json)) :
    lookup? key ((k, v) :: ms) = if k = key then some v else lookup? key ms := by
  by_cases h : k = key <;> simp [lookup?, h]

theorem lookup?_filter (p : String → Bool) (ms : List (String × Json)) :
    lookup? key (ms.filter fun m => p m.1) = if p key then lookup? key ms else none := by
  rw [lookup?, List.find?_filter, lookup?]
  split
  · next hkey =>
    congr 2
    funext m
    by_cases h : m.1 = key <;> simp [h, hkey]
  · next hkey =>
    rw [List.find?_eq_none.mpr, Option.map_none]
    intro m _ hm
    simp only [decide_eq_true_eq] at hm
    exact hkey (hm.2 ▸ hm.1)

theorem lookup?_append (ms ms' : List (String × Json)) :
    lookup? key (ms ++ ms') = (lookup? key ms).or (lookup? key ms') := by
  rw [lookup?, lookup?, lookup?, List.find?_append]
  cases ms.find? fun m => m.1 = key <;> rfl

theorem lookup?_toList (k : String) (v : Option Json) :
    lookup? key (v.map (k, ·)).toList = if k = key then v else none := by
  cases v with
  | none => simp [lookup?]
  | some v => simp [lookup?]

theorem mem_of_lookup? (h : lookup? key ms = some value) : (key, value) ∈ ms := by
  obtain ⟨m, hm, rfl⟩ := Option.map_eq_some_iff.mp h
  have hkey : m.1 = key := by simpa using List.find?_some hm
  rw [← hkey]
  exact List.mem_of_find?_eq_some hm

/-- Where a key occurs once at most, it does not matter from which end one looks. -/
theorem lookup?_reverse (h : ms.countP (fun m => m.1 = key) ≤ 1) :
    lookup? key ms.reverse = lookup? key ms := by
  rw [List.countP_eq_length_filter] at h
  rw [lookup?, lookup?, ← List.head?_filter, ← List.head?_filter, List.filter_reverse]
  generalize (ms.filter fun m => m.1 = key) = found at h
  match found, h with
  | [], _ => rfl
  | [_], _ => rfl

theorem lookup?_of_mem (h : ms.countP (fun m => m.1 = key) ≤ 1) (hm : (key, value) ∈ ms) :
    lookup? key ms = some value := by
  have hfound : (key, value) ∈ ms.filter fun m => m.1 = key := List.mem_filter.mpr ⟨hm, by simp⟩
  rw [List.countP_eq_length_filter] at h
  rw [lookup?, ← List.head?_filter]
  generalize (ms.filter fun m => m.1 = key) = found at h hfound
  match found, h with
  | [m], _ => rw [← List.mem_singleton.mp hfound]; rfl

theorem IsSorted.lookup?_eq_some_iff (h : IsSorted ms) :
    lookup? key ms = some value ↔ (key, value) ∈ ms := by
  induction ms with
  | nil => simp [lookup?]
  | cons head ms ih =>
    obtain ⟨hleast, hms⟩ := List.pairwise_cons.mp h
    obtain ⟨k, v⟩ := head
    rw [lookup?_cons, List.mem_cons, ← ih hms]
    split
    · next heq =>
      subst heq
      have hnone : lookup? k ms ≠ some value := fun hsome =>
        String.lt_irrefl k (hleast _ ((ih hms).mp hsome))
      simp [hnone, eq_comm]
    · next hne => simp [Ne.symm hne]

theorem IsSorted.countP_le_one (h : IsSorted ms) (key : String) :
    ms.countP (fun m => m.1 = key) ≤ 1 := by
  induction ms with
  | nil => exact Nat.zero_le 1
  | cons m ms ih =>
    obtain ⟨hleast, hms⟩ := List.pairwise_cons.mp h
    rw [List.countP_cons]
    split
    · next hkey =>
      have hnone : ms.countP (fun m => m.1 = key) = 0 := by
        rw [List.countP_eq_zero]
        intro x hx hxkey
        have hlt := hleast x hx
        rw [of_decide_eq_true hkey, of_decide_eq_true hxkey] at hlt
        exact String.lt_irrefl key hlt
      omega
    · exact ih hms

theorem IsSorted.lookup?_filter_members (h : IsSorted ms) (p : String × Json → Bool) :
    lookup? key (ms.filter p) = (lookup? key ms).filter fun value => p (key, value) := by
  ext value
  rw [(h.filter p).lookup?_eq_some_iff, List.mem_filter, Option.filter_eq_some_iff,
    h.lookup?_eq_some_iff]

theorem IsSorted.lookup?_insertMember (h : IsSorted ms) :
    lookup? key' (Json.insertMember key value ms)
      = if key' = key then some value else lookup? key' ms := by
  ext v
  rw [(h.insertMember key value).lookup?_eq_some_iff, mem_insertMember_iff h]
  by_cases hkey : key' = key
  · simp [hkey, eq_comm]
  · simp [hkey, h.lookup?_eq_some_iff]

/-- Sorted lists in which the same is found are equal. -/
theorem IsSorted.ext_lookup? (h : IsSorted ms) (h' : IsSorted ms')
    (hlookup : ∀ key, lookup? key ms = lookup? key ms') : ms = ms' := by
  refine h.ext h' fun (key, value) => ?_
  rw [← h.lookup?_eq_some_iff, ← h'.lookup?_eq_some_iff, hlookup]

/-! ### Sorting -/

theorem sortMembers_append (ms : List (String × Json)) (key : String) (value : Json) :
    sortMembers (ms ++ [(key, value)]) = insertMember key value (sortMembers ms) := by
  rw [sortMembers, List.foldl_append]
  rfl

theorem isSorted_sortMembers (ms : List (String × Json)) : IsSorted (sortMembers ms) := by
  induction ms using List.reverseRecOn with
  | nil => exact List.Pairwise.nil
  | append_singleton ms m ih =>
    rw [sortMembers_append]
    exact ih.insertMember m.1 m.2

/-- Of several members with one key the last one is kept. -/
theorem mem_sortMembers_iff :
    (key, value) ∈ sortMembers ms ↔ lookup? key ms.reverse = some value := by
  induction ms using List.reverseRecOn with
  | nil => simp [sortMembers, lookup?]
  | append_singleton ms m ih =>
    obtain ⟨k, v⟩ := m
    rw [sortMembers_append, mem_insertMember_iff (isSorted_sortMembers ms), ih,
      List.reverse_append, List.reverse_singleton, List.singleton_append, lookup?_cons]
    by_cases hk : k = key
    · subst hk
      simp [eq_comm]
    · simp [hk, Ne.symm hk]

theorem mem_of_mem_sortMembers (h : m ∈ sortMembers ms) : m ∈ ms :=
  List.mem_reverse.mp (mem_of_lookup? (mem_sortMembers_iff.mp h))

theorem mem_sortMembers_of_mem (h : ms.countP (fun m' => m'.1 = m.1) ≤ 1) (hm : m ∈ ms) :
    m ∈ sortMembers ms := by
  obtain ⟨key, value⟩ := m
  rw [mem_sortMembers_iff, lookup?_reverse h]
  exact lookup?_of_mem h hm

theorem lookup?_sortMembers (ms : List (String × Json)) :
    lookup? key (sortMembers ms) = lookup? key ms.reverse := by
  ext value
  rw [(isSorted_sortMembers ms).lookup?_eq_some_iff, mem_sortMembers_iff]

theorem IsSorted.sortMembers_eq (h : IsSorted ms) : sortMembers ms = ms := by
  refine (isSorted_sortMembers ms).ext h fun (key, value) => ?_
  rw [mem_sortMembers_iff, lookup?_reverse (h.countP_le_one key), h.lookup?_eq_some_iff]

/-- Keys may be left out before sorting or after. -/
theorem sortMembers_filter (p : String → Bool) (ms : List (String × Json)) :
    sortMembers (ms.filter fun m => p m.1) = (sortMembers ms).filter fun m => p m.1 := by
  refine (isSorted_sortMembers _).ext ((isSorted_sortMembers ms).filter _) fun m => ?_
  obtain ⟨key, value⟩ := m
  rw [mem_sortMembers_iff, List.mem_filter, mem_sortMembers_iff, ← List.filter_reverse,
    lookup?_filter]
  by_cases hkey : p key <;> simp [hkey]

end Targeting.Json
