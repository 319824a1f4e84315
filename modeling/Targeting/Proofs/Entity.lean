import Targeting.Entity
import Targeting.Proofs.Json.RoundTrip

/-!
# Settings as members of an object

Settings that were read are proper: no expression is `null`, and the fields that are not interpreted
stand in order. Proper settings are written as members that give every key once, and are read from
these again. Compared with the members that were read, all that changes is the expression, and that
the interpreted fields are left out where they were `null`. And fractions may be read as other ones.

## Main definitions

* `EntitySettings.IsProper` — settings as they are read
* `EntitySettings.withExpression` — stored members with another expression
* `EntitySettings.reread` — the settings that are read from the text of settings

## Main results

* `EntitySettings.IsProper.ofMembers?_members` — proper settings are read from their members
* `EntitySettings.sortMembers_members` — the members that are written, by those that were read
* `EntitySettings.isStorable_of_mem_members` — they can be read if the expression can
* `EntitySettings.IsProper.read?_write` — settings are read from the text that is written
-/

namespace Targeting.EntitySettings

variable {s : EntitySettings} {ms raw : List (String × Json)} {key : String} {expression : Json}

/-- Settings as they are read. -/
structure IsProper (s : EntitySettings) : Prop where
  targeting_ne_null : s.targeting ≠ some .null
  isSorted_extra : Json.IsSorted s.extra
  isExtra : ∀ m ∈ s.extra, isExtra m = true

/-- Stored members with another expression: fields that are interpreted are left out if they are
`null`, and all others stay. -/
def withExpression (expression : Json) (ms : List (String × Json)) : List (String × Json) :=
  let kept := ms.filter fun m => m.1 ≠ "audienceTargeting" && (isExtra m || !m.2.isNull)
  match present? expression with
  | none => kept
  | some expression => Json.insertMember "audienceTargeting" expression kept

/-! ### Reading members -/

theorem present?_ne_null (value : Json) : present? value ≠ some .null := by
  unfold present?
  cases value <;> simp [Json.isNull]

theorem getD_present? (value : Json) : (present? value).getD .null = value := by
  cases value <;> rfl

theorem present?_of_ne_null {value : Json} (h : value ≠ .null) : present? value = some value := by
  cases value <;> first | rfl | exact absurd rfl h

theorem bind_present? {value : Option Json} (h : value ≠ some .null) :
    value.bind present? = value := by
  cases value with
  | none => rfl
  | some value => exact present?_of_ne_null fun hnull => h (congrArg some hnull)

/-- What reading makes of members. -/
theorem ofMembers?_eq_some (h : ofMembers? ms = some s) :
    present? s.id = (Json.lookup? "id" ms).bind present? ∧
    s.name.map Json.string = (Json.lookup? "name" ms).bind present? ∧
    s.targeting = (Json.lookup? "audienceTargeting" ms).bind present? ∧
    s.extra = Json.sortMembers (ms.filter isExtra) := by
  have hid : present? ((Json.lookup? "id" ms).getD .null)
      = (Json.lookup? "id" ms).bind present? := by
    cases Json.lookup? "id" ms <;> rfl
  unfold ofMembers? at h
  -- the name decides whether there are settings, and is the only part that it decides
  cases hname : Json.lookup? "name" ms with
  | none =>
    rw [hname] at h
    cases h
    exact ⟨hid, rfl, rfl, rfl⟩
  | some name =>
    rw [hname] at h
    cases name <;> cases h <;> exact ⟨hid, rfl, rfl, rfl⟩

theorem isProper_of_ofMembers? (h : ofMembers? ms = some s) : s.IsProper := by
  obtain ⟨-, -, htargeting, hextra⟩ := ofMembers?_eq_some h
  refine ⟨?_, ?_, ?_⟩
  · rw [htargeting]
    intro hnull
    obtain ⟨value, -, hvalue⟩ := Option.bind_eq_some_iff.mp hnull
    exact present?_ne_null value hvalue
  · rw [hextra]
    exact Json.isSorted_sortMembers _
  · rw [hextra]
    intro m hm
    exact (List.mem_filter.mp (Json.mem_of_mem_sortMembers hm)).2

theorem sortMembers_filter_isExtra (ms : List (String × Json)) :
    Json.sortMembers (ms.filter isExtra) = (Json.sortMembers ms).filter isExtra :=
  Json.sortMembers_filter (fun key => !fieldKeys.contains key) ms

/-- If no field is given twice, all that sorting changes is the order. -/
theorem ofMembers?_sortMembers (honce : fieldsOnce raw = true) :
    ofMembers? (Json.sortMembers raw) = ofMembers? raw := by
  have hlookup : ∀ key ∈ fieldKeys,
      Json.lookup? key (Json.sortMembers raw) = Json.lookup? key raw := by
    intro key hkey
    rw [Json.lookup?_sortMembers, Json.lookup?_reverse]
    exact of_decide_eq_true (List.all_eq_true.mp honce key hkey)
  have hextra : Json.sortMembers ((Json.sortMembers raw).filter isExtra)
      = Json.sortMembers (raw.filter isExtra) := by
    rw [← sortMembers_filter_isExtra, (Json.isSorted_sortMembers _).sortMembers_eq]
  unfold ofMembers?
  rw [hlookup "id" (by decide), hlookup "name" (by decide),
    hlookup "audienceTargeting" (by decide), hextra]

/-! ### The members of settings -/

/-- Each interpreted field is a member if it has a value. -/
theorem members_eq (s : EntitySettings) :
    s.members = ((present? s.id).map ("id", ·)).toList
      ++ ((s.name.map Json.string).map ("name", ·)).toList
      ++ (s.targeting.map ("audienceTargeting", ·)).toList ++ s.extra := by
  rw [members, Option.map_map]
  rfl

theorem mem_fieldKeys_iff :
    key ∈ fieldKeys ↔ key = "id" ∨ key = "name" ∨ key = "audienceTargeting" := by
  simp [fieldKeys]

section Members

variable (h : s.IsProper)
include h

theorem IsProper.key_notMem {m : String × Json} (hm : m ∈ s.extra) : m.1 ∉ fieldKeys := by
  have hextra := h.isExtra m hm
  rw [EntitySettings.isExtra, Bool.not_eq_true', ← Bool.not_eq_true] at hextra
  exact fun hkey => hextra (List.contains_iff_mem.mpr hkey)

/-- What is found among the members of settings. -/
theorem IsProper.lookup?_members (key : String) :
    Json.lookup? key s.members =
      if key = "id" then present? s.id
      else if key = "name" then s.name.map Json.string
      else if key = "audienceTargeting" then s.targeting
      else Json.lookup? key s.extra := by
  have hextra : key ∈ fieldKeys → Json.lookup? key s.extra = none := by
    intro hkey
    refine Option.eq_none_iff_forall_ne_some.mpr fun value hvalue => ?_
    exact h.key_notMem (Json.mem_of_lookup? hvalue) hkey
  rw [members_eq, Json.lookup?_append, Json.lookup?_append, Json.lookup?_append,
    Json.lookup?_toList, Json.lookup?_toList, Json.lookup?_toList]
  -- each field is found in its own place, and no other key is found there
  by_cases hid : key = "id"
  · subst hid
    simp [hextra (by decide)]
  by_cases hname : key = "name"
  · subst hname
    simp [hextra (by decide)]
  by_cases htargeting : key = "audienceTargeting"
  · subst htargeting
    simp [hextra (by decide)]
  simp [hid, hname, htargeting, Ne.symm hid, Ne.symm hname, Ne.symm htargeting]

/-- No key is given twice. -/
theorem IsProper.countP_members_le_one (key : String) :
    s.members.countP (fun m => m.1 = key) ≤ 1 := by
  -- a field is at most one member, and only under its own key
  have hfield : ∀ (k : String) (v : Option Json),
      (v.map (k, ·)).toList.countP (fun m => m.1 = key) ≤ if k = key then 1 else 0 := by
    intro k v
    cases v <;> simp [List.countP_cons]
  have hid := hfield "id" (present? s.id)
  have hname := hfield "name" (s.name.map Json.string)
  have htargeting := hfield "audienceTargeting" s.targeting
  have hextra := h.isSorted_extra.countP_le_one key
  rw [members_eq, List.countP_append, List.countP_append, List.countP_append]
  by_cases hkey : key ∈ fieldKeys
  · have hnone : s.extra.countP (fun m => m.1 = key) = 0 := by
      rw [List.countP_eq_zero]
      intro m hm hmkey
      exact h.key_notMem hm (of_decide_eq_true hmkey ▸ hkey)
    rcases mem_fieldKeys_iff.mp hkey with rfl | rfl | rfl <;>
      simp only [String.reduceEq, if_true, if_false] at hid hname htargeting <;> omega
  · obtain ⟨hne, hne', hne''⟩ : key ≠ "id" ∧ key ≠ "name" ∧ key ≠ "audienceTargeting" := by
      simpa [mem_fieldKeys_iff] using hkey
    rw [if_neg (Ne.symm hne)] at hid
    rw [if_neg (Ne.symm hne')] at hname
    rw [if_neg (Ne.symm hne'')] at htargeting
    omega

theorem IsProper.fieldsOnce_members : fieldsOnce s.members = true :=
  List.all_eq_true.mpr fun key _ => decide_eq_true (h.countP_members_le_one key)

theorem IsProper.filter_isExtra_members : s.members.filter EntitySettings.isExtra = s.extra := by
  have hfield : ∀ (k : String) (v : Option Json), k ∈ fieldKeys →
      (v.map (k, ·)).toList.filter EntitySettings.isExtra = [] := by
    intro k v hk
    have hno : ∀ v, EntitySettings.isExtra (k, v) = false := by
      intro v
      rw [EntitySettings.isExtra, List.contains_iff_mem.mpr hk]
      rfl
    cases v with
    | none => rfl
    | some v => exact List.filter_cons_of_neg (Bool.eq_false_iff.mp (hno v))
  rw [members_eq, List.filter_append, List.filter_append, List.filter_append,
    hfield "id" _ (by decide), hfield "name" _ (by decide),
    hfield "audienceTargeting" _ (by decide), List.filter_eq_self.mpr h.isExtra]
  rfl

/-- Proper settings are read from their members. -/
theorem IsProper.ofMembers?_members : ofMembers? s.members = some s := by
  have hid : Json.lookup? "id" s.members = present? s.id := h.lookup?_members "id"
  have hname : Json.lookup? "name" s.members = s.name.map Json.string := h.lookup?_members "name"
  have htargeting : Json.lookup? "audienceTargeting" s.members = s.targeting :=
    h.lookup?_members "audienceTargeting"
  have hpresent := bind_present? h.targeting_ne_null
  rw [ofMembers?, hid, hname, htargeting, getD_present?, hpresent, h.filter_isExtra_members,
    h.isSorted_extra.sortMembers_eq]
  obtain ⟨id, name, targeting, extra⟩ := s
  cases name <;> rfl

end Members

/-! ### Another expression -/

theorem IsProper.with_expression (h : s.IsProper) (expression : Json) :
    { s with targeting := present? expression }.IsProper :=
  ⟨present?_ne_null expression, h.isSorted_extra, h.isExtra⟩

theorem isSorted_withExpression (hsorted : Json.IsSorted ms) (expression : Json) :
    Json.IsSorted (withExpression expression ms) := by
  unfold withExpression
  split
  · exact hsorted.filter _
  · exact (hsorted.filter _).insertMember _ _

theorem lookup?_withExpression (hsorted : Json.IsSorted ms) (expression : Json) (key : String) :
    Json.lookup? key (withExpression expression ms) =
      if key = "audienceTargeting" then present? expression
      else if key ∈ fieldKeys then (Json.lookup? key ms).bind present?
      else Json.lookup? key ms := by
  let keeps (m : String × Json) : Bool :=
    m.1 ≠ "audienceTargeting" && (isExtra m || !m.2.isNull)
  -- what is found among the members that are kept
  have hkept : Json.lookup? key (ms.filter keeps)
      = if key = "audienceTargeting" then none
        else if key ∈ fieldKeys then (Json.lookup? key ms).bind present?
        else Json.lookup? key ms := by
    rw [hsorted.lookup?_filter_members]
    by_cases htargeting : key = "audienceTargeting"
    · simp [keeps, htargeting]
    by_cases hkey : key ∈ fieldKeys
    · rw [if_neg htargeting, if_pos hkey]
      have hextra : ∀ v, isExtra (key, v) = false := fun v => by simp [isExtra, hkey]
      cases Json.lookup? key ms with
      | none => rfl
      | some v => cases v <;> simp [keeps, htargeting, hextra, present?, Json.isNull]
    · rw [if_neg htargeting, if_neg hkey]
      have hextra : ∀ v, isExtra (key, v) = true := fun v => by simp [isExtra, hkey]
      cases Json.lookup? key ms <;> simp [keeps, htargeting, hextra]
  unfold withExpression
  dsimp only
  split
  · next hnone => rw [hkept, hnone]
  · next expression hsome =>
    rw [(hsorted.filter keeps).lookup?_insertMember, hkept, hsome]
    by_cases htargeting : key = "audienceTargeting"
    · rw [if_pos htargeting, if_pos htargeting]
    · rw [if_neg htargeting, if_neg htargeting, if_neg htargeting]

/-- What is written for settings whose expression was replaced. -/
theorem sortMembers_members (hsorted : Json.IsSorted ms) (h : ofMembers? ms = some s)
    (expression : Json) :
    Json.sortMembers { s with targeting := present? expression }.members
      = withExpression expression ms := by
  have hproper := (isProper_of_ofMembers? h).with_expression expression
  obtain ⟨hid, hname, -, hextra⟩ := ofMembers?_eq_some h
  refine (Json.isSorted_sortMembers _).ext_lookup? (isSorted_withExpression hsorted expression)
    fun key => ?_
  rw [Json.lookup?_sortMembers, Json.lookup?_reverse (hproper.countP_members_le_one key),
    hproper.lookup?_members, lookup?_withExpression hsorted, hid, hname]
  dsimp only
  by_cases hkey : key ∈ fieldKeys
  · rcases mem_fieldKeys_iff.mp hkey with rfl | rfl | rfl <;> simp [hkey]
  · obtain ⟨hne, hne', hne''⟩ : key ≠ "id" ∧ key ≠ "name" ∧ key ≠ "audienceTargeting" := by
      simpa [mem_fieldKeys_iff] using hkey
    rw [if_neg hne, if_neg hne', if_neg hne'', if_neg hne'', if_neg hkey, hextra,
      sortMembers_filter_isExtra, hsorted.sortMembers_eq, hsorted.lookup?_filter_members]
    cases Json.lookup? key ms <;> simp [isExtra, hkey]

theorem mem_withExpression {m : String × Json} (hsorted : Json.IsSorted ms)
    (hm : m ∈ withExpression expression ms) : m.2 = expression ∨ m ∈ ms := by
  unfold withExpression at hm
  dsimp only at hm
  split at hm
  · exact Or.inr (List.mem_of_mem_filter hm)
  · next e hsome =>
    rcases (Json.mem_insertMember_iff (hsorted.filter _)).mp hm with rfl | ⟨hm, -⟩
    · unfold present? at hsome
      split at hsome
      · cases hsome
      · cases hsome
        exact Or.inl rfl
    · exact Or.inr (List.mem_of_mem_filter hm)

/-! ### Texts -/

/-- A text with settings holds an object, and the settings are those of its members. -/
theorem exists_object_of_read? {text : String} (h : read? text = some s) :
    ∃ ms, Json.read? text = some (.object ms) ∧ Json.IsSorted ms ∧ ofMembers? ms = some s := by
  obtain ⟨raw, hraw, h⟩ := Option.bind_eq_some_iff.mp h
  split at h
  · next honce =>
    exact ⟨_, Json.read?_eq_some_object_iff.mpr ⟨raw, hraw, rfl⟩, Json.isSorted_sortMembers raw,
      (ofMembers?_sortMembers honce).trans h⟩
  · cases h

/-- Every member that is written for settings with another expression was read, or is the
expression. -/
theorem mem_of_mem_members {m : String × Json} (hsorted : Json.IsSorted ms)
    (h : ofMembers? ms = some s)
    (hm : m ∈ { s with targeting := present? expression }.members) :
    m.2 = expression ∨ m ∈ ms := by
  have hproper := (isProper_of_ofMembers? h).with_expression expression
  have hm' := Json.mem_sortMembers_of_mem (hproper.countP_members_le_one m.1) hm
  rw [sortMembers_members hsorted h] at hm'
  exact mem_withExpression hsorted hm'

/-- What is written can be read again if the expression can. -/
theorem isStorable_of_mem_members {text : String} {m : String × Json}
    (hread : Json.read? text = some (.object ms)) (h : ofMembers? ms = some s)
    (hexpression : expression.IsStorable (Json.greatestDepth - 1))
    (hm : m ∈ { s with targeting := present? expression }.members) :
    m.2.IsStorable (Json.greatestDepth - 1) := by
  cases Json.isStorable_of_read? hread with
  | object hsorted hvalues =>
    rcases mem_of_mem_members hsorted h hm with heq | hm
    · rw [heq]
      exact hexpression
    · exact hvalues m hm

/-- The settings that are read from the text of settings. -/
def reread (s : EntitySettings) : EntitySettings where
  id := s.id.reread
  name := s.name
  targeting := s.targeting.map Json.reread
  extra := Json.rereadMembers s.extra

theorem present?_reread (value : Json) : present? value.reread = (present? value).map Json.reread := by
  cases value <;> rfl

theorem members_reread (s : EntitySettings) : s.reread.members = Json.rereadMembers s.members := by
  have hname : ((s.name.map Json.string).map ("name", ·)).toList.map
      (fun m => (m.1, m.2.reread)) = ((s.name.map Json.string).map ("name", ·)).toList := by
    cases s.name <;> rfl
  rw [members_eq, members_eq, Json.rereadMembers_eq_map, List.map_append, List.map_append,
    List.map_append, hname, ← Json.rereadMembers_eq_map s.extra, reread, present?_reread]
  congr 3
  · cases present? s.id <;> rfl
  · cases s.targeting <;> rfl

theorem IsProper.reread (h : s.IsProper) : s.reread.IsProper where
  targeting_ne_null := by
    intro hnull
    obtain ⟨value, hvalue, heq⟩ := Option.map_eq_some_iff.mp hnull
    cases value <;> cases heq
    exact h.targeting_ne_null hvalue
  isSorted_extra := h.isSorted_extra.rereadMembers
  isExtra := by
    intro m hm
    change m ∈ Json.rereadMembers s.extra at hm
    rw [Json.rereadMembers_eq_map] at hm
    obtain ⟨m', hm', rfl⟩ := List.mem_map.mp hm
    exact h.isExtra m' hm'

/-- Settings are read from the text that is written for them. -/
theorem IsProper.read?_write (h : s.IsProper)
    (hstorable : ∀ m ∈ s.members, m.2.IsStorable (Json.greatestDepth - 1)) :
    Json.read? s.write = some (.object (Json.sortMembers s.reread.members)) ∧
      read? s.write = some s.reread := by
  have htext : Json.readMembers? s.write = some s.reread.members := by
    rw [members_reread]
    exact Json.readMembers?_pretty hstorable
  refine ⟨Json.read?_eq_some_object_iff.mpr ⟨_, htext, rfl⟩, ?_⟩
  rw [read?, htext, Option.bind_eq_bind, Option.bind_some, if_pos h.reread.fieldsOnce_members,
    h.reread.ofMembers?_members]

/-- Stored settings with another expression are read from the text that is written for them. -/
theorem read?_write_of_read? {text : String} (hread : Json.read? text = some (.object ms))
    (h : ofMembers? ms = some s) (hexpression : expression.IsStorable (Json.greatestDepth - 1)) :
    Json.read? { s with targeting := present? expression }.write
        = some (.object (Json.sortMembers
          { s with targeting := present? expression }.reread.members)) ∧
      read? { s with targeting := present? expression }.write
        = some { s with targeting := present? expression }.reread :=
  ((isProper_of_ofMembers? h).with_expression expression).read?_write fun _ hm =>
    isStorable_of_mem_members hread h hexpression hm

/-- Nothing else is read if no member is read as another one. -/
theorem IsProper.reread_eq (h : s.IsProper) (hback : ∀ m ∈ s.members, m.2.reread = m.2) :
    s.reread = s := by
  have hmembers : s.reread.members = s.members := by
    have hsame : ∀ m ∈ s.members, (m.1, m.2.reread) = m := fun m hm => Prod.ext rfl (hback m hm)
    rw [members_reread, Json.rereadMembers_eq_map, List.map_congr_left hsame, List.map_id']
  have hread := h.reread.ofMembers?_members
  rw [hmembers, h.ofMembers?_members] at hread
  exact (Option.some.inj hread).symm

end Targeting.EntitySettings
