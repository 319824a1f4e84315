import Mathlib.Data.List.DropRight
import Targeting.Proofs.Json.Fractions
import Targeting.Proofs.Json.Members
import Targeting.Proofs.Json.Strings

/-!
# Reading what was written

A value is storable if its objects are in order, its numbers fit and it is not nested too deep for the
reader. The pretty text of a storable value is read as this value, but for fractions, which need not
read back exactly. What the reader yields is storable, so what was read can be written and read again.

## Main definitions

* `Json.IsStorable` — a value of which the text is read
* `Json.reread` — the value that is read from the text of a value
* `Json.fractions` — the fractions in a value

## Main results

* `Json.readValue?_writePretty`, `Json.readMembers?_pretty` — reading the text of storable values
* `Json.IsStorable.reread_eq` — it is read back if its fractions are
* `Json.isStorable_of_read?` — what was read is storable
* `Json.read?_eq_some_object_iff` — a text with an object is one with members
-/

namespace Targeting.Json

variable {items : List Json} {members : List (String × Json)} {value : Json} {text rest : List Char}
  {depth fuel level : Nat}

/-- A value that a reader of the given depth can find in a text: objects are in order, and numbers
fit. -/
inductive IsStorable : Nat → Json → Prop
  | null {depth : Nat} : IsStorable depth .null
  | bool {depth : Nat} (b : Bool) : IsStorable depth (.bool b)
  | number {depth : Nat} {n : Number} (h : n.Fits) : IsStorable depth (.number n)
  | string {depth : Nat} (s : String) : IsStorable depth (.string s)
  | array {depth : Nat} {items : List Json} (h : ∀ item ∈ items, IsStorable depth item) :
    IsStorable (depth + 1) (.array items)
  | object {depth : Nat} {members : List (String × Json)} (hsorted : IsSorted members)
    (h : ∀ m ∈ members, IsStorable depth m.2) : IsStorable (depth + 1) (.object members)

/-- The number that is read from the text of a number. -/
def Number.reread (n : Number) : Number := ((readNumber? n.render.toList).map (·.1)).getD n

theorem Number.Fits.readNumber?_render {n : Number} (h : n.Fits) :
    readNumber? n.render.toList = some (n.reread, []) := by
  obtain ⟨n', hn'⟩ := h.exists_readNumber?
  rw [reread, hn']
  rfl

theorem Number.ReadsBack.reread_eq {n : Number} (h : n.ReadsBack) : n.reread = n := by
  rw [reread, h]
  rfl

mutual

/-- The value that is read from the text of a value: numbers may be other ones. -/
def reread : Json → Json
  | .number n => .number n.reread
  | .array items => .array (rereadItems items)
  | .object members => .object (rereadMembers members)
  | value => value

/-- The items that are read from the text of items. -/
def rereadItems : List Json → List Json
  | [] => []
  | item :: items => item.reread :: rereadItems items

/-- The members that are read from the text of members. -/
def rereadMembers : List (String × Json) → List (String × Json)
  | [] => []
  | (key, value) :: members => (key, value.reread) :: rereadMembers members

end

theorem rereadItems_eq_map (items : List Json) : rereadItems items = items.map reread := by
  induction items with
  | nil => rfl
  | cons item items ih => rw [rereadItems, ih, List.map_cons]

theorem rereadMembers_eq_map (members : List (String × Json)) :
    rereadMembers members = members.map fun m => (m.1, m.2.reread) := by
  induction members with
  | nil => rfl
  | cons m members ih => rw [rereadMembers, ih, List.map_cons]

/-- Reading again what was written keeps members in order. -/
theorem IsSorted.rereadMembers (h : IsSorted members) : IsSorted (rereadMembers members) := by
  rw [rereadMembers_eq_map]
  exact List.Pairwise.map _ (fun _ _ hlt => hlt) h

mutual

/-- The fractions in a value. -/
def fractions : Json → List Binary64
  | .number (.float x) => [x]
  | .array items => fractionsItems items
  | .object members => fractionsMembers members
  | _ => []

/-- The fractions in items. -/
def fractionsItems : List Json → List Binary64
  | [] => []
  | item :: items => item.fractions ++ fractionsItems items

/-- The fractions in members. -/
def fractionsMembers : List (String × Json) → List Binary64
  | [] => []
  | (_, value) :: members => value.fractions ++ fractionsMembers members

end

theorem fractions_subset_of_mem_items {item : Json} (h : item ∈ items) :
    item.fractions ⊆ fractionsItems items := by
  induction items with
  | nil => cases h
  | cons first items ih =>
    rw [fractionsItems]
    rcases List.mem_cons.mp h with rfl | h
    · exact List.subset_append_left _ _
    · exact List.subset_append_of_subset_right _ (ih h)

theorem fractions_subset_of_mem_members {m : String × Json} (h : m ∈ members) :
    m.2.fractions ⊆ fractionsMembers members := by
  induction members with
  | nil => cases h
  | cons first members ih =>
    rw [fractionsMembers]
    rcases List.mem_cons.mp h with rfl | h
    · exact List.subset_append_left _ _
    · exact List.subset_append_of_subset_right _ (ih h)

/-! ### What a text is written in front of -/

mutual

/-- A value is written in the same way whatever follows. -/
theorem writePretty_append : ∀ (value : Json) (level : Nat) (rest more : List Char),
    writePretty level value (rest ++ more) = writePretty level value rest ++ more
  | .null, _, _, _ | .bool true, _, _, _ | .bool false, _, _, _ | .array [], _, _, _
  | .object [], _, _, _ => rfl
  | .number n, level, rest, more => (List.append_assoc _ rest more).symm
  | .string s, level, rest, more => writeString_append s rest more
  | .array (item :: items), level, rest, more => by
    rw [writePretty, writePretty, writePrettyItems_append, writePretty_append, writeBreak_append,
      List.cons_append]
  | .object ((key, value) :: members), level, rest, more => by
    rw [writePretty, writePretty, writePrettyMembers_append, writePretty_append,
      ← List.cons_append, ← List.cons_append, writeString_append, writeBreak_append,
      List.cons_append]

theorem writePrettyItems_append : ∀ (items : List Json) (level : Nat) (rest more : List Char),
    writePrettyItems level items (rest ++ more) = writePrettyItems level items rest ++ more
  | [], level, rest, more => writeBreak_append level (']' :: rest) more
  | item :: items, level, rest, more => by
    rw [writePrettyItems, writePrettyItems, writePrettyItems_append, writePretty_append,
      writeBreak_append, List.cons_append]

theorem writePrettyMembers_append : ∀ (members : List (String × Json)) (level : Nat)
    (rest more : List Char),
    writePrettyMembers level members (rest ++ more) = writePrettyMembers level members rest ++ more
  | [], level, rest, more => writeBreak_append level ('}' :: rest) more
  | (key, value) :: members, level, rest, more => by
    rw [writePrettyMembers, writePrettyMembers, writePrettyMembers_append, writePretty_append,
      ← List.cons_append, ← List.cons_append, writeString_append, writeBreak_append,
      List.cons_append]

end

theorem length_le_writePretty (level : Nat) (value : Json) (rest : List Char) :
    rest.length ≤ (writePretty level value rest).length := by
  have happend := writePretty_append value level [] rest
  rw [List.nil_append] at happend
  rw [happend, List.length_append]
  exact Nat.le_add_left _ _

theorem length_le_writeString (s : String) (rest : List Char) :
    rest.length ≤ (writeString s rest).length := by
  have happend := writeString_append s [] rest
  rw [List.nil_append] at happend
  rw [happend, List.length_append]
  exact Nat.le_add_left _ _

theorem length_le_writeBreak (level : Nat) (rest : List Char) :
    rest.length ≤ (writeBreak level rest).length := by
  rw [writeBreak, List.length_cons, List.length_append]
  omega

/-- What is written for a member is longer than its value with what follows, and longer than what
follows alone. -/
theorem length_lt_writeMember (level : Nat) (key : String) (value : Json) (rest : List Char) :
    (writePretty level value rest).length
      < (writeBreak level (writeString key (':' :: ' ' :: writePretty level value rest))).length ∧
    rest.length
      < (writeBreak level (writeString key (':' :: ' ' :: writePretty level value rest))).length
    := by
  have hvalue := length_le_writePretty level value rest
  have hkey := length_le_writeString key (':' :: ' ' :: writePretty level value rest)
  have hbreak := length_le_writeBreak level
    (writeString key (':' :: ' ' :: writePretty level value rest))
  rw [List.length_cons, List.length_cons] at hkey
  omega

/-! ### One step of the reader -/

theorem skipBlanks_skipBlanks (text : List Char) :
    skipBlanks (skipBlanks text) = skipBlanks text :=
  List.dropWhile_idempotent isBlank text

theorem readValue?_skipBlanks (fuel depth : Nat) (text : List Char) :
    readValue? fuel depth (skipBlanks text) = readValue? fuel depth text := by
  unfold readValue?
  rw [skipBlanks_skipBlanks]

theorem readItems?_skipBlanks (item? : Reader Json) (n : Nat) (text : List Char) :
    readItems? item? n (skipBlanks text) = readItems? item? n text := by
  cases n with
  | zero => rfl
  | succ n => rw [readItems?, readItems?, skipBlanks_skipBlanks]

theorem readMoreMembers?_skipBlanks (item? : Reader Json) (n : Nat) (text : List Char) :
    readMoreMembers? item? n (skipBlanks text) = readMoreMembers? item? n text := by
  cases n with
  | zero => rfl
  | succ n => rw [readMoreMembers?, readMoreMembers?, skipBlanks_skipBlanks]

theorem readMember?_skipBlanks (item? : Reader Json) (text : List Char) :
    readMember? item? (skipBlanks text) = readMember? item? text := by
  rw [readMember?, readMember?, skipBlanks_skipBlanks]

theorem readItems?_comma (item? : Reader Json) (n : Nat) (text : List Char) :
    readItems? item? (n + 1) (',' :: text) = (item? text).bind fun x =>
      (readItems? item? n x.2).bind fun y => some (x.1 :: y.1, y.2) := rfl

theorem readMoreMembers?_comma (item? : Reader Json) (n : Nat) (text : List Char) :
    readMoreMembers? item? (n + 1) (',' :: text) = (readMember? item? text).bind fun x =>
      (readMoreMembers? item? n x.2).bind fun y => some (x.1 :: y.1, y.2) := rfl

theorem readValue?_quote :
    readValue? fuel depth ('"' :: text)
      = (readString? text).map fun x => (.string x.1, x.2) := by
  cases depth <;> rfl

theorem readValue?_bracket :
    readValue? fuel (depth + 1) ('[' :: text)
      = (readArray? (readValue? fuel depth) fuel text).map fun x => (.array x.1, x.2) := rfl

theorem readValue?_brace :
    readValue? fuel (depth + 1) ('{' :: text)
      = (readObject? (readValue? fuel depth) fuel text).map fun x => (ofMembers x.1, x.2) := rfl

/-- A number does not begin like anything else. -/
theorem ne_of_begins_number {c c' : Char} (hc : c = '-' ∨ c.isDigit = true) (hminus : c' ≠ '-')
    (hdigit : c'.isDigit = false) : c ≠ c' := by
  rintro rfl
  rcases hc with hc | hc
  · exact hminus hc
  · rw [hdigit] at hc
    cases hc

theorem isBlank_of_begins_number {c : Char} (hc : c = '-' ∨ c.isDigit = true) :
    isBlank c = false := by
  simp [isBlank, ne_of_begins_number hc]

theorem readValue?_number {c : Char} (hc : c = '-' ∨ c.isDigit = true) :
    readValue? fuel depth (c :: text)
      = (readNumber? (c :: text)).map fun x => (.number x.1, x.2) := by
  have hne : ∀ c', c' ≠ '-' → c'.isDigit = false → c ≠ c' := fun _ => ne_of_begins_number hc
  unfold readValue?
  rw [skipBlanks_cons (isBlank_of_begins_number hc)]
  split <;> first | rfl | simp_all

/-! ### Reading what was written -/

theorem endsNumber_cons {c : Char} (h : c.isDigit = false ∧ c ≠ '.' ∧ c ≠ 'e' ∧ c ≠ 'E')
    (rest : List Char) : EndsNumber (c :: rest) := by
  rintro c' ⟨⟩
  exact h

theorem endsNumber_writeBreak (level : Nat) (rest : List Char) :
    EndsNumber (writeBreak level rest) :=
  endsNumber_cons (by decide) _

theorem endsNumber_writePrettyItems (level : Nat) (items : List Json) (rest : List Char) :
    EndsNumber (writePrettyItems level items rest) := by
  cases items with
  | nil => exact endsNumber_writeBreak _ _
  | cons item items => exact endsNumber_cons (by decide) _

theorem endsNumber_writePrettyMembers (level : Nat) (members : List (String × Json))
    (rest : List Char) : EndsNumber (writePrettyMembers level members rest) := by
  cases members with
  | nil => exact endsNumber_writeBreak _ _
  | cons m members => exact endsNumber_cons (by decide) _

/-- A value begins with a character that is no blank and ends no container. -/
theorem exists_cons_writePretty (h : IsStorable depth value) (level : Nat) (rest : List Char) :
    ∃ c text, writePretty level value rest = c :: text ∧
      isBlank c = false ∧ c ≠ ']' ∧ c ≠ '}' := by
  cases h with
  | null => exact ⟨_, _, rfl, by decide⟩
  | bool b => cases b <;> exact ⟨_, _, rfl, by decide⟩
  | number h =>
    obtain ⟨c, text, htext, hc⟩ := exists_cons_of_readNumber? h.readNumber?_render
    refine ⟨c, text ++ rest, ?_, ?_⟩
    · rw [writePretty, writeCompact, htext, List.cons_append]
    · exact ⟨isBlank_of_begins_number hc, ne_of_begins_number hc (by decide) rfl,
        ne_of_begins_number hc (by decide) rfl⟩
  | string s => exact ⟨_, _, rfl, by decide⟩
  | @array _ items h => cases items <;> exact ⟨_, _, rfl, by decide⟩
  | @object _ members _ h => cases members <;> exact ⟨_, _, rfl, by decide⟩

/-- The reader finds a value where it was written, in texts below the given length. -/
def FindsWritten (item? : Reader Json) (fuel level : Nat) (value : Json) : Prop :=
  ∀ rest, EndsNumber rest → (writePretty level value rest).length < fuel →
    item? (writePretty level value rest) = some (value.reread, rest)

section Containers

variable {item? : Reader Json} (hskip : ∀ text, item? (skipBlanks text) = item? text)
include hskip

theorem readItems?_writePrettyItems (h : ∀ item ∈ items, FindsWritten item? fuel (level + 1) item)
    {n : Nat} (hfuel : (writePrettyItems level items rest).length < fuel)
    (hn : (writePrettyItems level items rest).length < n) :
    readItems? item? n (writePrettyItems level items rest) = some (rereadItems items, rest) := by
  induction items generalizing n with
  | nil =>
    cases n with
    | zero => cases hn
    | succ n =>
      rw [writePrettyItems, ← readItems?_skipBlanks, skipBlanks_writeBreak]
      rfl
  | cons item items ih =>
    have hitems := length_le_writePretty (level + 1) item (writePrettyItems level items rest)
    have hbreak := length_le_writeBreak (level + 1)
      (writePretty (level + 1) item (writePrettyItems level items rest))
    rw [writePrettyItems, List.length_cons] at hfuel hn
    cases n with
    | zero => cases hn
    | succ n =>
      have hitem := h item List.mem_cons_self _ (endsNumber_writePrettyItems level items rest)
        (by omega)
      have hrest := ih (fun item hitem => h item (List.mem_cons_of_mem _ hitem)) (n := n)
        (by omega) (by omega)
      rw [writePrettyItems, readItems?_comma, ← hskip, skipBlanks_writeBreak, hskip, hitem,
        Option.bind_some, hrest, Option.bind_some]
      rfl

/-- A member where it was written. -/
theorem readMember?_write (key : String) (h : FindsWritten item? fuel level value)
    (hrest : EndsNumber rest) (hfuel : (writePretty level value rest).length < fuel) :
    readMember? item? (writeString key (':' :: ' ' :: writePretty level value rest))
      = some ((key, value.reread), rest) := by
  have hvalue : item? (' ' :: writePretty level value rest) = some (value.reread, rest) := by
    rw [← hskip, skipBlanks_blank rfl, hskip]
    exact h rest hrest hfuel
  rw [writeString]
  change (readString? _).bind _ = _
  rw [readString?_write, Option.bind_some]
  change (item? (' ' :: writePretty level value rest)).bind _ = _
  rw [hvalue]
  rfl

theorem readMoreMembers?_writePrettyMembers
    (h : ∀ m ∈ members, FindsWritten item? fuel (level + 1) m.2)
    {n : Nat} (hfuel : (writePrettyMembers level members rest).length < fuel)
    (hn : (writePrettyMembers level members rest).length < n) :
    readMoreMembers? item? n (writePrettyMembers level members rest)
      = some (rereadMembers members, rest) := by
  induction members generalizing n with
  | nil =>
    cases n with
    | zero => cases hn
    | succ n =>
      rw [writePrettyMembers, ← readMoreMembers?_skipBlanks, skipBlanks_writeBreak]
      rfl
  | cons m members ih =>
    obtain ⟨key, value⟩ := m
    have hlength :=
      length_lt_writeMember (level + 1) key value (writePrettyMembers level members rest)
    rw [writePrettyMembers, List.length_cons] at hfuel hn
    cases n with
    | zero => cases hn
    | succ n =>
      have hvalue : FindsWritten item? fuel (level + 1) value := h _ List.mem_cons_self
      have hmember := readMember?_write hskip key hvalue
        (endsNumber_writePrettyMembers level members rest) (by omega)
      have hrest := ih (fun m hm => h m (List.mem_cons_of_mem _ hm)) (n := n)
        (by omega) (by omega)
      rw [writePrettyMembers, readMoreMembers?_comma, ← readMember?_skipBlanks,
        skipBlanks_writeBreak, readMember?_skipBlanks, hmember, Option.bind_some, hrest,
        Option.bind_some]
      rfl

/-- The array with the given first item, behind its opening bracket. -/
theorem readArray?_write {item : Json} (hstorable : IsStorable depth item)
    (h : ∀ i ∈ item :: items, FindsWritten item? fuel (level + 1) i)
    (hfuel : (writePretty level (.array (item :: items)) rest).length < fuel) :
    readArray? item? fuel (writeBreak (level + 1)
        (writePretty (level + 1) item (writePrettyItems level items rest)))
      = some (rereadItems (item :: items), rest) := by
  have hitems := length_le_writePretty (level + 1) item (writePrettyItems level items rest)
  have hbreak := length_le_writeBreak (level + 1)
    (writePretty (level + 1) item (writePrettyItems level items rest))
  rw [writePretty, List.length_cons] at hfuel
  have hitem := h item List.mem_cons_self _ (endsNumber_writePrettyItems level items rest)
    (by omega)
  have hshort : (writePrettyItems level items rest).length < fuel := by omega
  have hrest := readItems?_writePrettyItems hskip
    (fun i hi => h i (List.mem_cons_of_mem _ hi)) hshort hshort
  obtain ⟨c, text, htext, hblank, hbracket, -⟩ :=
    exists_cons_writePretty hstorable (level + 1) (writePrettyItems level items rest)
  rw [readArray?, skipBlanks_writeBreak, htext, skipBlanks_cons hblank]
  -- the first item does not begin like the end of the array
  split
  · next heq => exact absurd (List.cons.inj heq).1 hbracket
  · rw [← htext, hitem, Option.bind_eq_bind, Option.bind_some]
    dsimp only
    rw [hrest]
    rfl

/-- The object with the given first member, behind its opening brace. -/
theorem readObject?_write (key : String)
    (h : ∀ m ∈ (key, value) :: members, FindsWritten item? fuel (level + 1) m.2)
    (hfuel : (writePretty level (.object ((key, value) :: members)) rest).length < fuel) :
    readObject? item? fuel (writeBreak (level + 1) (writeString key
        (':' :: ' ' :: writePretty (level + 1) value (writePrettyMembers level members rest))))
      = some (rereadMembers ((key, value) :: members), rest) := by
  have hlength :=
    length_lt_writeMember (level + 1) key value (writePrettyMembers level members rest)
  rw [writePretty, List.length_cons] at hfuel
  have hvalue : FindsWritten item? fuel (level + 1) value := h _ List.mem_cons_self
  have hmember := readMember?_write hskip key hvalue
    (endsNumber_writePrettyMembers level members rest) (by omega)
  have hshort : (writePrettyMembers level members rest).length < fuel := by omega
  have hrest := readMoreMembers?_writePrettyMembers hskip
    (fun m hm => h m (List.mem_cons_of_mem _ hm)) hshort hshort
  rw [readObject?, skipBlanks_writeBreak]
  change (readMember? item? (writeString key _)).bind _ = _
  rw [hmember, Option.bind_some]
  change (readMoreMembers? item? fuel _).bind _ = _
  rw [hrest]
  rfl

end Containers

/-- A storable value is found where it was written. -/
theorem readValue?_writePretty (h : IsStorable depth value) (level : Nat) :
    FindsWritten (readValue? fuel depth) fuel level value := by
  induction h generalizing level with
  | @null depth =>
    intro rest _ _
    cases depth <;> rfl
  | @bool depth b =>
    intro rest _ _
    cases b <;> cases depth <;> rfl
  | number h =>
    intro rest hrest _
    obtain ⟨c, text, htext, hc⟩ := exists_cons_of_readNumber? h.readNumber?_render
    have hread := looksNoFurther_readNumber? hrest h.readNumber?_render
    rw [htext, List.cons_append] at hread
    rw [writePretty, writeCompact, htext, List.cons_append, readValue?_number hc, hread]
    rfl
  | string s =>
    intro rest _ _
    rw [writePretty, writeString, readValue?_quote, readString?_write]
    rfl
  | @array depth items h ih =>
    intro rest _ hfuel
    cases items with
    | nil => rfl
    | cons item items =>
      have hitems := readArray?_write (readValue?_skipBlanks fuel depth)
        (h item List.mem_cons_self) (fun i hi => ih i hi (level + 1)) hfuel
      rw [writePretty, readValue?_bracket, hitems]
      rfl
  | @object depth members hsorted h ih =>
    intro rest _ hfuel
    cases members with
    | nil => rfl
    | cons m members =>
      obtain ⟨key, value⟩ := m
      have hmembers := readObject?_write (readValue?_skipBlanks fuel depth) key
        (fun m hm => ih m hm (level + 1)) hfuel
      -- the members are sorted already
      rw [writePretty, readValue?_brace, hmembers, Option.map_some, ofMembers,
        hsorted.rereadMembers.sortMembers_eq]
      rfl

/-! ### Writing what was read -/

/-- The reader finds the value in some text. -/
def Finds (item? : Reader Json) (value : Json) : Prop :=
  ∃ text rest, item? text = some (value, rest)

section Containers

variable {item? : Reader Json}

/-- What holds of an entry and of the entries that are read behind it holds of all of them. -/
theorem forall_mem_of_read_cons {α : Type} {P : α → Prop} {first : Option (α × List Char)}
    {more? : Reader (List α)} {entries : List α}
    (h : (first.bind fun x => (more? x.2).bind fun y => some (x.1 :: y.1, y.2))
      = some (entries, rest))
    (hfirst : ∀ a rest, first = some (a, rest) → P a)
    (hmore : ∀ text as rest, more? text = some (as, rest) → ∀ a ∈ as, P a) :
    ∀ a ∈ entries, P a := by
  obtain ⟨x, hx, h⟩ := Option.bind_eq_some_iff.mp h
  obtain ⟨y, hy, h⟩ := Option.bind_eq_some_iff.mp h
  cases h
  intro a ha
  rcases List.mem_cons.mp ha with rfl | ha
  · exact hfirst _ _ hx
  · exact hmore _ _ _ hy a ha

/-- All items that are read are found by the reader of items. -/
theorem finds_of_readItems? {n : Nat} (h : readItems? item? n text = some (items, rest)) :
    ∀ item ∈ items, Finds item? item := by
  induction n generalizing text items rest with
  | zero => cases h
  | succ n ih =>
    rw [readItems?] at h
    split at h
    · cases h
      exact fun item hitem => by cases hitem
    · exact forall_mem_of_read_cons h (fun _ _ hx => ⟨_, _, hx⟩) fun _ _ _ hy => ih hy
    · cases h

theorem finds_of_readArray? (h : readArray? item? fuel text = some (items, rest)) :
    ∀ item ∈ items, Finds item? item := by
  rw [readArray?] at h
  split at h
  · cases h
    exact fun item hitem => by cases hitem
  · exact forall_mem_of_read_cons h (fun _ _ hx => ⟨_, _, hx⟩) fun _ _ _ => finds_of_readItems?

theorem finds_of_readMember? {m : String × Json} (h : readMember? item? text = some (m, rest)) :
    Finds item? m.2 := by
  rw [readMember?] at h
  split at h
  · obtain ⟨⟨key, rest'⟩, -, h⟩ := Option.bind_eq_some_iff.mp h
    dsimp only at h
    split at h
    · obtain ⟨y, hy, h⟩ := Option.bind_eq_some_iff.mp h
      cases h
      exact ⟨_, _, hy⟩
    · cases h
  · cases h

theorem finds_of_readMoreMembers? {n : Nat}
    (h : readMoreMembers? item? n text = some (members, rest)) :
    ∀ m ∈ members, Finds item? m.2 := by
  induction n generalizing text members rest with
  | zero => cases h
  | succ n ih =>
    rw [readMoreMembers?] at h
    split at h
    · cases h
      exact fun m hm => by cases hm
    · exact forall_mem_of_read_cons h (fun _ _ => finds_of_readMember?) fun _ _ _ hy => ih hy
    · cases h

theorem finds_of_readObject? (h : readObject? item? fuel text = some (members, rest)) :
    ∀ m ∈ members, Finds item? m.2 := by
  rw [readObject?] at h
  split at h
  · cases h
    exact fun m hm => by cases hm
  · exact forall_mem_of_read_cons h (fun _ _ => finds_of_readMember?)
      fun _ _ _ => finds_of_readMoreMembers?

end Containers

/-- What the reader can make of a text. -/
theorem finds_readValue?_cases (h : Finds (readValue? fuel depth) value) :
    value = .null ∨ (∃ b, value = .bool b) ∨ (∃ s, value = .string s) ∨
    (∃ n, value = .number n ∧ n.Fits) ∨
    (∃ d items, depth = d + 1 ∧ value = .array items ∧
      ∀ item ∈ items, Finds (readValue? fuel d) item) ∨
    (∃ d members, depth = d + 1 ∧ value = ofMembers members ∧
      ∀ m ∈ members, Finds (readValue? fuel d) m.2) := by
  obtain ⟨text, rest, h⟩ := h
  unfold readValue? at h
  split at h
  · cases h
    exact Or.inl rfl
  · cases h
    exact Or.inr (Or.inl ⟨_, rfl⟩)
  · cases h
    exact Or.inr (Or.inl ⟨_, rfl⟩)
  · obtain ⟨x, -, h⟩ := Option.map_eq_some_iff.mp h
    cases h
    exact Or.inr (Or.inr (Or.inl ⟨_, rfl⟩))
  · obtain ⟨x, hx, h⟩ := Option.map_eq_some_iff.mp h
    cases h
    exact Or.inr (Or.inr (Or.inr (Or.inr (Or.inl ⟨_, _, rfl, rfl, finds_of_readArray? hx⟩))))
  · obtain ⟨x, hx, h⟩ := Option.map_eq_some_iff.mp h
    cases h
    exact Or.inr (Or.inr (Or.inr (Or.inr (Or.inr ⟨_, _, rfl, rfl, finds_of_readObject? hx⟩))))
  · cases h
  · cases h
  · obtain ⟨x, hx, h⟩ := Option.map_eq_some_iff.mp h
    cases h
    exact Or.inr (Or.inr (Or.inr (Or.inl ⟨_, rfl, fits_of_readNumber? hx⟩)))

/-- Every value that is read is storable. -/
theorem isStorable_of_finds (h : Finds (readValue? fuel depth) value) : IsStorable depth value := by
  induction depth using Nat.strongRecOn generalizing value with
  | ind depth ih =>
    rcases finds_readValue?_cases h with rfl | ⟨b, rfl⟩ | ⟨s, rfl⟩ | ⟨n, rfl, hfits⟩ |
      ⟨d, items, rfl, rfl, hitems⟩ | ⟨d, members, rfl, rfl, hmembers⟩
    · exact .null
    · exact .bool b
    · exact .string s
    · exact .number hfits
    · exact .array fun item hitem => ih d (Nat.lt_succ_self d) (hitems item hitem)
    · refine .object (isSorted_sortMembers members) fun m hm => ?_
      -- sorting leaves members out but puts none in
      exact ih d (Nat.lt_succ_self d) (hmembers m (mem_of_mem_sortMembers hm))

/-- A storable value is read back if its fractions are. -/
theorem IsStorable.reread_eq (h : IsStorable depth value)
    (hfractions : ∀ x ∈ value.fractions, (Number.float x).ReadsBack) : value.reread = value := by
  induction h with
  | null => rfl
  | bool b => rfl
  | string s => rfl
  | @number _ n h =>
    -- fractions are the only numbers that need not read back
    have hback : n.ReadsBack := by
      cases n with
      | int n => exact Number.readsBack_int h
      | float x => exact hfractions x (List.mem_singleton_self x)
    rw [reread, hback.reread_eq]
  | @array _ items h ih =>
    have hitems : items.map reread = items.map id := List.map_congr_left fun item hitem =>
      ih item hitem fun x hx => hfractions x (fractions_subset_of_mem_items hitem hx)
    rw [reread, rereadItems_eq_map, hitems, List.map_id]
  | @object _ members hsorted h ih =>
    have hmembers : members.map (fun m => (m.1, m.2.reread)) = members.map id :=
      List.map_congr_left fun m hm => Prod.ext rfl
        (ih m hm fun x hx => hfractions x (fractions_subset_of_mem_members hm hx))
    rw [reread, rereadMembers_eq_map, hmembers, List.map_id]

/-! ### Whole texts -/

/-- A whole text is read if only blanks are left. -/
theorem readWhole?_eq_some_iff {α : Type} {read? : Nat → Reader α} {text : String} {a : α} :
    readWhole? read? text = some a ↔ ∃ rest, skipBlanks rest = [] ∧
      read? (text.toList.length + 1) text.toList = some (a, rest) := by
  rw [readWhole?]
  cases read? (text.toList.length + 1) text.toList with
  | none => simp
  | some x => simp [Prod.ext_iff, and_comm]

theorem toList_pretty (value : Json) : (value.pretty ++ "\n").toList = writePretty 0 value ['\n'] := by
  rw [pretty, String.toList_append, String.toList_ofList]
  exact (writePretty_append value 0 [] ['\n']).symm

/-- A value is an object if members are read behind an opening brace. -/
theorem readValue?_eq_some_object_iff :
    readValue? fuel (depth + 1) text = some (.object members, rest) ↔
      ∃ raw, (match skipBlanks text with
        | '{' :: text => readObject? (readValue? fuel depth) fuel text
        | _ => none) = some (raw, rest) ∧ members = sortMembers raw := by
  constructor
  · intro h
    -- only what stands behind an opening brace is an object
    have hnone : ∀ {α : Type} {x : Option α} {f : α → Json × List Char},
        (∀ a, (f a).1 ≠ .object members) → x.map f ≠ some (.object members, rest) := by
      intro α x f hf heq
      obtain ⟨a, -, ha⟩ := Option.map_eq_some_iff.mp heq
      exact hf a (congrArg Prod.fst ha)
    unfold readValue? at h
    split at h
    · cases h
    · cases h
    · cases h
    · exact absurd h (hnone fun a => nofun)
    · exact absurd h (hnone fun a => nofun)
    · next text' depth' heq hdepth =>
      cases hdepth
      obtain ⟨⟨raw, rest'⟩, hraw, heq'⟩ := Option.map_eq_some_iff.mp h
      cases heq'
      refine ⟨raw, ?_, rfl⟩
      rw [heq]
      exact hraw
    · cases h
    · cases h
    · exact absurd h (hnone fun a => nofun)
  · rintro ⟨raw, h, rfl⟩
    split at h
    · next heq =>
      rw [← readValue?_skipBlanks, heq, readValue?_brace, h]
      rfl
    · cases h

/-- The members of an object are read from its text, in whatever order they stand. -/
theorem readMembers?_pretty (h : ∀ m ∈ members, IsStorable (greatestDepth - 1) m.2) :
    readMembers? ((object members).pretty ++ "\n") = some (rereadMembers members) := by
  have hread : ∀ fuel, (writePretty 0 (object members) ['\n']).length < fuel →
      (match skipBlanks (writePretty 0 (object members) ['\n']) with
        | '{' :: rest => readObject? (readValue? fuel (greatestDepth - 1)) fuel rest
        | _ => none) = some (rereadMembers members, ['\n']) := by
    intro fuel hfuel
    cases members with
    | nil => rfl
    | cons m members =>
      obtain ⟨key, value⟩ := m
      exact readObject?_write (readValue?_skipBlanks fuel _) key
        (fun m hm => readValue?_writePretty (h m hm) 1) hfuel
  refine readWhole?_eq_some_iff.mpr ⟨['\n'], rfl, ?_⟩
  rw [toList_pretty]
  exact hread _ (Nat.lt_succ_self _)

/-- A text holds an object if members are read from it, and the object holds these in order. -/
theorem read?_eq_some_object_iff {text : String} :
    read? text = some (.object members) ↔
      ∃ raw, readMembers? text = some raw ∧ members = sortMembers raw := by
  rw [read?, readMembers?]
  simp only [readWhole?_eq_some_iff]
  constructor
  · rintro ⟨rest, hblank, hread⟩
    obtain ⟨raw, hraw, hmembers⟩ := readValue?_eq_some_object_iff.mp hread
    exact ⟨raw, ⟨rest, hblank, hraw⟩, hmembers⟩
  · rintro ⟨raw, ⟨rest, hblank, hraw⟩, hmembers⟩
    exact ⟨rest, hblank, readValue?_eq_some_object_iff.mpr ⟨raw, hraw, hmembers⟩⟩

/-- The value of a text is storable. -/
theorem isStorable_of_read? {text : String} (h : read? text = some value) :
    IsStorable greatestDepth value := by
  obtain ⟨rest, -, hread⟩ := readWhole?_eq_some_iff.mp h
  exact isStorable_of_finds ⟨_, _, hread⟩

end Targeting.Json
